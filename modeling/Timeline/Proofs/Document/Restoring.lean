/-
Timeline/Proofs/Document/Restoring.lean

Loading leaves no traces.

A loader knows which files are being loaded.  Loading enters files and leaves them at every
depth of includes, and it can fail between any two of these.  `Loading.Restores` says of
something done with a loader that the loader is as it was afterwards, with a value or with
an error; it holds of each part of loading, from the operand of an include up to a whole
document, and so of everything that is put together from them.

Main result (`Loader.serve_fresh`): a loader is as it was after every load, so a series of
loads by one loader gives what fresh loaders give.
-/
import Timeline.Proofs.Document.Loading

namespace Timeline

/-- Something done with a loader leaves it as it was, also if it fails. -/
def Loading.Restores {α : Type} (act : Loading α) : Prop :=
  ∀ l, act.Meets l (fun _ => True) fun _ => True

namespace Loading.Restores

variable {α β : Type} {act : Loading α} {f : α → Loading β}

theorem run_eq (h : act.Restores) (l : Loader) : (act.run l).2 = l := by
  rcases h l with ⟨a, ha, -⟩ | ⟨e, he, -⟩
  · rw [ha]
  · rw [he]

theorem pure {a : α} : (Pure.pure a : Loading α).Restores :=
  fun _ => .pure trivial

theorem throw {e : LoadError} : (MonadExcept.throw e : Loading α).Restores :=
  fun _ => .throw trivial

theorem get : (MonadState.get : Loading Loader).Restores :=
  fun _ => Loading.Meets.get.mono (fun _ _ => trivial) fun _ h => h

theorem bind (h : act.Restores) (hf : ∀ a, (f a).Restores) : (act >>= f).Restores :=
  fun l => (h l).bind fun a _ => hf a l

end Loading.Restores

namespace Include

variable {tree : FileTree} {load : Path → Loading Yaml} {source : Path}

theorem operand_restores (value : Yaml) : (operand source value).Restores := by
  cases value with
  | text s =>
    unfold operand
    by_cases hs : s = ""
    · simp only [if_pos hs]
      exact .throw
    · simp only [if_neg hs]
      exact .bind .get fun _ => .pure
  | _ => exact .throw

theorem folder_restores (hload : ∀ p, (load p).Restores) (path : Path) :
    (folder tree load path).Restores :=
  fun l => (folder_meets (fun _ _ _ _ => hload _ l) fun _ => trivial).mono
    (fun _ _ => trivial) fun _ h => h

mutual

/-- If loading what is included leaves no traces, then putting it in place does not either. -/
theorem expand_restores (hload : ∀ p, (load p).Restores) (v : Yaml) :
    (expand tree load source v).Restores := by
  match v with
  | .tagged tag value =>
    unfold expand
    by_cases hfile : tag = fileTag
    · rw [if_pos hfile]
      exact .bind (operand_restores value) hload
    · rw [if_neg hfile]
      by_cases hfolder : tag = folderTag
      · rw [if_pos hfolder]
        exact .bind (operand_restores value) (folder_restores hload)
      · rw [if_neg hfolder]
        exact expand_restores hload value
  | .map pairs =>
    unfold expand
    exact .bind (expandPairs_restores hload pairs) fun _ => .pure
  | .seq items =>
    unfold expand
    exact .bind (expandItems_restores hload items) fun _ => .pure
  | .null => exact .pure
  | .bool _ => exact .pure
  | .int _ => exact .pure
  | .float _ => exact .pure
  | .text _ => exact .pure

theorem expandItems_restores (hload : ∀ p, (load p).Restores) (items : List Yaml) :
    (expandItems tree load source items).Restores := by
  match items with
  | [] => exact .pure
  | v :: rest =>
    unfold expandItems
    exact .bind (expand_restores hload v) fun _ =>
      .bind (expandItems_restores hload rest) fun _ => .pure

theorem expandPairs_restores (hload : ∀ p, (load p).Restores) (pairs : List (Yaml × Yaml)) :
    (expandPairs tree load source pairs).Restores := by
  match pairs with
  | [] => exact .pure
  | (key, v) :: rest =>
    unfold expandPairs
    exact .bind (expand_restores hload v) fun _ =>
      .bind (expandPairs_restores hload rest) fun _ => .pure

end

end Include

namespace Loader

variable {tree : FileTree} {base : Path}

theorem valueOf_restores {load : Path → Loading Yaml} (hload : ∀ p, (load p).Restores)
    (text : String) (source : Path) : (valueOf tree load text source).Restores := by
  unfold valueOf
  rcases Yaml.ofText? text with - | v
  · exact .throw
  · exact Include.expand_restores hload v

/-- **Loading a file leaves no traces**, at any depth. -/
theorem loadPath_restores (depth : Nat) (p : Path) : (loadPath tree depth p).Restores := by
  induction depth generalizing p with
  | zero => exact .throw
  | succ depth ih =>
    intro l
    unfold Loading.Meets
    rw [run_loadPath]
    by_cases hactive : l.isActive p
    · rw [if_pos hactive]
      exact .inr ⟨_, rfl, trivial⟩
    · rw [if_neg hactive]
      rcases tree.read p with cause | text
      · exact .inr ⟨_, rfl, trivial⟩
      · -- the file was not being loaded before, so to leave it undoes to enter it
        exact (valueOf_restores ih text p (l.enter p)).during hactive

theorem document_restores (value : Yaml) (source : Path) :
    (liftM (document value source) : Loading Document).Restores := by
  rcases document value source with e | doc
  · exact .throw
  · exact .pure

/-- Something to ask of a loader. -/
inductive Request where
  /-- The value of a file. -/
  | file (path : Path)
  /-- The value of a text from a source. -/
  | text (content : String) (source : Path)
  /-- The document in a file. -/
  | document (path : Path)

/-- Do what is asked. -/
def Request.load (tree : FileTree) : Request → Loading (Yaml ⊕ Document)
  | file path => return .inl (← loadFile tree path)
  | text content source => return .inl (← loadText tree content source)
  | document path => return .inr (← loadDocument tree path)

/-- Do what is asked of one loader, one thing after the other; files may change in between. -/
def serve : List (FileTree × Request) → Loader → List (Except LoadError (Yaml ⊕ Document)) × Loader
  | [], l => ([], l)
  | (tree, request) :: rest, l =>
    let (result, l) := (request.load tree).run l
    let (results, l) := serve rest l
    (result :: results, l)

theorem loadFile_restores (path : Path) : (loadFile tree path).Restores :=
  .bind .get fun _ => loadPath_restores _ _

theorem loadText_restores (content : String) (source : Path) :
    (loadText tree content source).Restores :=
  valueOf_restores (loadPath_restores _) _ _

theorem loadDocument_restores (path : Path) : (loadDocument tree path).Restores :=
  .bind .get fun _ => .bind (loadPath_restores _ _) fun _ => document_restores _ _

theorem Request.load_restores (request : Request) : (request.load tree).Restores := by
  cases request with
  | file path => exact .bind (loadFile_restores path) fun _ => .pure
  | text content source => exact .bind (loadText_restores content source) fun _ => .pure
  | document path => exact .bind (loadDocument_restores path) fun _ => .pure

/-- Each result is as if nothing had been asked before. -/
theorem serve_eq (requests : List (FileTree × Request)) (l : Loader) :
    serve requests l = (requests.map fun r => ((r.2.load r.1).run l).1, l) := by
  induction requests with
  | nil => rfl
  | cons r rest ih =>
    obtain ⟨tree, request⟩ := r
    show ((((request.load tree).run l).1 :: (serve rest ((request.load tree).run l).2).1),
      (serve rest ((request.load tree).run l).2).2) = _
    rw [request.load_restores.run_eq, ih]
    rfl

/-- **Loading leaves no traces**: after a file, a text or a document has been loaded, or could not
be loaded, the same files are being loaded as before; so whatever has been asked of a loader
before, it gives the results of a fresh loader with the same base. -/
theorem serve_fresh :
    (∀ tree l path, ((loadFile tree path).run l).2 = l ∧ ((loadDocument tree path).run l).2 = l ∧
      (∀ content, ((loadText tree content path).run l).2 = l) ∧
      ∀ depth, ((loadPath tree depth path).run l).2 = l) ∧
    ∀ base requests,
      serve requests { base } = (requests.map fun r => fresh base (r.2.load r.1), { base }) := by
  refine ⟨fun tree l path => ⟨?_, ?_, fun content => ?_, fun depth => ?_⟩, fun base requests => ?_⟩
  · exact (loadFile_restores path).run_eq l
  · exact (loadDocument_restores path).run_eq l
  · exact (loadText_restores content path).run_eq l
  · exact (loadPath_restores depth path).run_eq l
  · exact serve_eq requests { base }

end Loader

end Timeline
