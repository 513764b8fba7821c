/-
Timeline/Document/Include.lean

Includes.  A value with the tag `!include` stands for what is in another file, and
one with the tag `!include_dir_named` for a mapping of all documents in a folder,
by their names.  Paths are seen from the folder of the file that they stand in, or
from the base of the loader if that file has no folder.  All other tags are
dropped.

How a file is loaded is a parameter here, so that values are gone through by
recursion on their parts alone.
-/
import Timeline.Document.Error

namespace Timeline

/-- Where relative paths start, and which files are being loaded. -/
structure Loader where
  base : Path
  /-- The files that are being loaded, the innermost first. -/
  active : List Path := []
deriving Repr

/-- What is done with a loader and may fail; the loader is there after a failure too. -/
abbrev Loading (α : Type) := ExceptT LoadError (StateM Loader) α

namespace Loader

/-- Whether a file is being loaded. -/
def isActive (l : Loader) (p : Path) : Bool :=
  l.active.any p.same

/-- A loader that is loading one more file. -/
def enter (l : Loader) (p : Path) : Loader :=
  { l with active := p :: l.active }

/-- A loader that is not loading a file any more. -/
def leave (l : Loader) (p : Path) : Loader :=
  { l with active := l.active.filter fun q => !p.same q }

/-- After a file that was not being loaded before, the loader is as it was. -/
theorem leave_enter {l : Loader} {p : Path} (h : ¬ l.isActive p) : (l.enter p).leave p = l := by
  have hkeep : l.active.filter (fun q => !p.same q) = l.active := by
    refine List.filter_eq_self.2 fun q hq => ?_
    simp only [isActive, List.any_eq_true, not_exists, not_and] at h
    simpa using h q hq
  have hself : p.same p := by simp [Path.same]
  simp [enter, leave, hself, hkeep]

/-- A path, seen from the base. -/
def resolve (l : Loader) (p : Path) : Path :=
  l.base.join p

/-- The folder that the paths in a file are seen from. -/
def anchor (l : Loader) (source : Path) : Path :=
  match source.parent? with
  | some folder => if folder.text = "" then l.base else folder
  | none => l.base

end Loader

namespace Include

/-- The tag of another file. -/
def fileTag : String := "!include"

/-- The tag of a folder. -/
def folderTag : String := "!include_dir_named"

/-- Documents have names with these extensions. -/
def extensions : List String := ["yaml", "yml", "json"]

/-- Whether a name is one of a document. -/
def isDocument (name : String) : Bool :=
  (Path.extension? name).any (· ∈ extensions)

/-- The names of documents among some names, in order. -/
def documents (names : List String) : List String :=
  (names.filter isDocument).mergeSort fun a b => decide (a ≤ b)

theorem mem_documents {names : List String} {name : String} :
    name ∈ documents names ↔ name ∈ names ∧ isDocument name := by
  simp [documents]

/-- The path that a value in a file gives. -/
def operand (source : Path) (value : Yaml) : Loading Path :=
  match value with
  | .text s => do
    if s = "" then throw .includeEmpty
    return ((← get).anchor source).join ⟨s⟩
  | value => throw (.includeNotText value)

/-- Load the documents in a folder, by their names without extension. -/
def folder (tree : FileTree) (load : Path → Loading Yaml) (path : Path) : Loading Yaml := do
  match tree.names? path with
  | none => throw (.noFolder path)
  | some names =>
    let pairs ← (documents names).foldlM (fun pairs name => do
      let content ← load (path.join ⟨name⟩)
      return Yaml.insert (.text (Path.stem name)) content pairs) []
    return .map pairs

mutual

/-- A value of a file, with what it includes in place of its includes. -/
def expand (tree : FileTree) (load : Path → Loading Yaml) (source : Path) : Yaml → Loading Yaml
  | .tagged tag value =>
    if tag = fileTag then do
      load (← operand source value)
    else if tag = folderTag then do
      folder tree load (← operand source value)
    else expand tree load source value
  | .map pairs => do
    return .map (← expandPairs tree load source pairs)
  | .seq items => do
    return .seq (← expandItems tree load source items)
  | value => return value

/-- Items of a file, with what they include. -/
def expandItems (tree : FileTree) (load : Path → Loading Yaml) (source : Path) :
    List Yaml → Loading (List Yaml)
  | [] => return []
  | value :: rest => do
    let value ← expand tree load source value
    return value :: (← expandItems tree load source rest)

/-- Pairs of a file, with what their values include; keys stay as they are. -/
def expandPairs (tree : FileTree) (load : Path → Loading Yaml) (source : Path) :
    List (Yaml × Yaml) → Loading (List (Yaml × Yaml))
  | [] => return []
  | (key, value) :: rest => do
    let value ← expand tree load source value
    return (key, value) :: (← expandPairs tree load source rest)

end

end Include

end Timeline
