/-
Timeline/Proofs/Document/Loading.lean

What loading a file comes to.

`Loading.Meets` says what something that is done with a loader comes to, with a value or
with an error, and that it leaves the loader as it was.  `Loader.Nested` follows includes
from an entry as the loader does, up to a file that is being loaded already, and
`Loader.Blames` says for every error what was met there.

Main result (`Loader.loadPath_meets`): a file is loaded as what it stands for, or there
is something to blame.
-/
import Timeline.Document.Loader
import Timeline.Proofs.Document.Splicing

namespace Timeline

/-! ### One thing after the other -/

namespace Loading

variable {α β : Type} {act : Loading α} {f : α → Loading β} {l l' : Loader}

theorem run_bind_of_ok {a : α} (h : act.run l = (.ok a, l')) :
    (act >>= f).run l = (f a).run l' := by
  show (ExceptT.bindCont f (act.run l).1).run (act.run l).2 = _
  rw [h]
  rfl

theorem run_bind_of_error {e : LoadError} (h : (act.run l).1 = .error e) :
    (act >>= f).run l = (.error e, (act.run l).2) := by
  show (ExceptT.bindCont f (act.run l).1).run (act.run l).2 = _
  rw [h]
  rfl

end Loading

/-! ### Outcomes -/

/-- What something comes to that is done with a loader; the loader is left as it was. -/
def Loading.Meets {α : Type} (act : Loading α) (l : Loader) (ok : α → Prop)
    (err : LoadError → Prop) : Prop :=
  (∃ a, act.run l = (.ok a, l) ∧ ok a) ∨ ∃ e, act.run l = (.error e, l) ∧ err e

namespace Loading.Meets

variable {α β : Type} {act : Loading α} {f : α → Loading β} {l : Loader} {ok : α → Prop}
  {ok' : β → Prop} {err : LoadError → Prop}

theorem pure {a : α} (h : ok a) : Loading.Meets (Pure.pure a) l ok err :=
  .inl ⟨a, rfl, h⟩

theorem throw {e : LoadError} (h : err e) :
    Loading.Meets (MonadExcept.throw e : Loading α) l ok err :=
  .inr ⟨e, rfl, h⟩

theorem get : Loading.Meets (MonadState.get : Loading Loader) l (· = l) err :=
  .inl ⟨l, rfl, rfl⟩

theorem bind (h : act.Meets l ok err) (hf : ∀ a, ok a → (f a).Meets l ok' err) :
    (act >>= f).Meets l ok' err := by
  rcases h with ⟨a, ha, hok⟩ | ⟨e, he, herr⟩
  · -- the loader is as it was, so what comes next starts from the same one
    have hrun : (act >>= f).run l = (f a).run l := run_bind_of_ok ha
    rcases hf a hok with ⟨b, hb, hok'⟩ | ⟨e, he, herr⟩
    · exact .inl ⟨b, hrun.trans hb, hok'⟩
    · exact .inr ⟨e, hrun.trans he, herr⟩
  · refine .inr ⟨e, ?_, herr⟩
    rw [run_bind_of_error (congrArg Prod.fst he), he]

theorem mono {ok' : α → Prop} {err' : LoadError → Prop} (h : act.Meets l ok err)
    (hok : ∀ a, ok a → ok' a) (herr : ∀ e, err e → err' e) : act.Meets l ok' err' := by
  rcases h with ⟨a, ha, h⟩ | ⟨e, he, h⟩
  · exact .inl ⟨a, ha, hok a h⟩
  · exact .inr ⟨e, he, herr e h⟩

/-- After a file that was not being loaded before, the loader is as it was. -/
theorem during {p : Path} (hidle : ¬ l.isActive p) (h : act.Meets (l.enter p) ok err) :
    (Loader.during p act).Meets l ok err := by
  have hrun (result : Except LoadError α) (hact : act.run (l.enter p) = (result, l.enter p)) :
      (Loader.during p act).run l = (result, l) := by
    rw [Loader.run_during, hact, Loader.leave_enter hidle]
  rcases h with ⟨a, ha, hok⟩ | ⟨e, he, herr⟩
  · exact .inl ⟨a, hrun _ ha, hok⟩
  · exact .inr ⟨e, hrun _ he, herr⟩

end Loading.Meets

/-! ### Values -/

namespace Yaml

/-- A new key comes behind the others. -/
theorem insert_of_not_hasKey {key value : Yaml} {pairs : List (Yaml × Yaml)}
    (hkey : ¬ hasKey key pairs) : insert key value pairs = pairs ++ [(key, value)] := by
  induction pairs with
  | nil => rfl
  | cons first rest ih =>
    simp only [hasKey, List.any_cons, Bool.or_eq_true, not_or] at hkey
    rw [insert, if_neg hkey.1, ih hkey.2, List.cons_append]

end Yaml

namespace Include

open FileTree

/-- A value in a folder leads to a path that is loaded for it. -/
inductive Leads (tree : FileTree) (base : Path) (v : Yaml) : Path → Prop
  | file {s : String} : v.Asks fileTag (.text s) → s ≠ "" → Leads tree base v (base.join ⟨s⟩)
  | folder {s : String} {names : List String} {name : String} : v.Asks folderTag (.text s) → s ≠ "" →
      tree.names? (base.join ⟨s⟩) = some names → name ∈ documents names →
      Leads tree base v ((base.join ⟨s⟩).join ⟨name⟩)

/-- What is wrong with the includes of a value in a folder, whatever they lead to. -/
inductive Offends (tree : FileTree) (base : Path) (v : Yaml) : LoadError → Prop
  | notText {tag : String} {operand : Yaml} : tag = fileTag ∨ tag = folderTag →
      v.Asks tag operand → (∀ s, operand ≠ .text s) → Offends tree base v (.includeNotText operand)
  | empty {tag : String} : tag = fileTag ∨ tag = folderTag → v.Asks tag (.text "") →
      Offends tree base v .includeEmpty
  | noFolder {s : String} : v.Asks folderTag (.text s) → s ≠ "" →
      tree.names? (base.join ⟨s⟩) = none → Offends tree base v (.noFolder (base.join ⟨s⟩))

variable {tree : FileTree} {base : Path} {v v' : Yaml} {q : Path} {e : LoadError}

theorem Leads.imp (h : Leads tree base v q)
    (himp : ∀ {tag operand}, v.Asks tag operand → v'.Asks tag operand) : Leads tree base v' q := by
  cases h with
  | file hasks hs => exact .file (himp hasks) hs
  | folder hasks hs hnames hname => exact .folder (himp hasks) hs hnames hname

theorem Offends.imp (h : Offends tree base v e)
    (himp : ∀ {tag operand}, v.Asks tag operand → v'.Asks tag operand) : Offends tree base v' e := by
  cases h with
  | notText htag hasks hnot => exact .notText htag (himp hasks) hnot
  | empty htag hasks => exact .empty htag (himp hasks)
  | noFolder hasks hs hnames => exact .noFolder (himp hasks) hs hnames

/-- Whatever a value leads to is a file that it refers to. -/
theorem Leads.refers (h : Leads tree base v q) :
    tree.Refers (base.routeFrom []) v (q.routeFrom []) := by
  cases h with
  | file hasks hs =>
    rw [Path.routeFrom_join]
    exact .file hasks hs
  | folder hasks hs hnames hname =>
    have hplace := namesAt?_of_names? hnames
    rw [Path.routeFrom_join] at hplace
    rw [Path.routeFrom_join, Path.routeFrom_join]
    exact .folder hasks hs hplace hname

section

variable {load : Path → Loading Yaml} {l : Loader} {source : Path} {err : LoadError → Prop}

theorem operand_meets {tag : String} {value : Yaml} (htag : tag = fileTag ∨ tag = folderTag)
    (herr : ∀ e, Offends tree (l.anchor source) (.tagged tag value) e → err e) :
    (operand source value).Meets l
      (fun p => ∃ s, value = .text s ∧ s ≠ "" ∧ p = (l.anchor source).join ⟨s⟩) err := by
  cases value with
  | text s =>
    by_cases hs : s = ""
    · subst hs
      refine .inr ⟨.includeEmpty, ?_, herr _ (.empty htag .here)⟩
      simp only [operand, if_pos]
      rfl
    · refine .inl ⟨(l.anchor source).join ⟨s⟩, ?_, s, rfl, hs, rfl⟩
      simp only [operand, if_neg hs]
      rfl
  | _ => exact .throw (herr _ (.notText htag .here (by simp)))

/-- As long as the stems differ, a pair comes behind those before it. -/
theorem foldl_insert_of_nodup (names : List String) (values : List Yaml) (stems : List String)
    (earlier : List (Yaml × Yaml)) (hearlier : earlier.map Prod.fst = stems.map Yaml.text)
    (hnodup : (stems ++ names.map Path.stem).Nodup) :
    (names.zip values).foldl
      (fun pairs (name, value) => Yaml.insert (.text (Path.stem name)) value pairs) earlier
      = earlier ++ (names.zip values).map fun (name, value) => (.text (Path.stem name), value) := by
  induction names generalizing values stems earlier with
  | nil => simp
  | cons name names ih =>
    rcases values with - | ⟨value, values⟩
    · simp
    · -- a key among the earlier ones would be the same stem twice
      have hfresh : ¬ Yaml.hasKey (.text (Path.stem name)) earlier := by
        intro hkey
        obtain ⟨⟨key, old⟩, hmem, hsame⟩ := List.any_eq_true.1 hkey
        have hkeys : key ∈ stems.map Yaml.text := hearlier ▸ List.mem_map_of_mem hmem
        obtain ⟨stem, hstem, rfl⟩ := List.mem_map.1 hkeys
        have heq : Path.stem name = stem := by simpa [Yaml.same] using hsame
        have hdisjoint := (List.nodup_append'.1 hnodup).2.2
        exact hdisjoint hstem (heq ▸ by simp)
      rw [List.zip_cons_cons, List.foldl_cons]
      show List.foldl _ (Yaml.insert (.text (Path.stem name)) value earlier) _ = _
      rw [Yaml.insert_of_not_hasKey hfresh, ih values (stems ++ [Path.stem name]) _
        (by simp [hearlier]) (by simpa [List.append_assoc] using hnodup)]
      simp

/-- The mapping of documents, put together pair by pair. -/
theorem foldl_insert_byStem (names : List String) (values : List Yaml) :
    (names.zip values).foldl
      (fun pairs (name, value) => Yaml.insert (.text (Path.stem name)) value pairs) []
      = byStem names values := by
  unfold byStem
  simp only
  split
  · rename_i hnodup
    exact foldl_insert_of_nodup names values [] [] rfl (by simpa using hnodup)
  · rw [List.foldl_map]

/-- Documents are loaded one after the other. -/
theorem documents_meets {path : Path} {ok : String → Yaml → Prop} (names : List String)
    (hload : ∀ name ∈ names, (load (path.join ⟨name⟩)).Meets l (ok name) err)
    (pairs : List (Yaml × Yaml)) :
    (names.foldlM (fun pairs name => do
      let content ← load (path.join ⟨name⟩)
      return Yaml.insert (.text (Path.stem name)) content pairs) pairs : Loading _).Meets l
      (fun pairs' => ∃ values, List.Forall₂ ok names values ∧
        pairs' = (names.zip values).foldl
          (fun pairs (name, value) => Yaml.insert (.text (Path.stem name)) value pairs) pairs)
      err := by
  induction names generalizing pairs with
  | nil => exact .pure ⟨[], .nil, rfl⟩
  | cons name names ih =>
    rw [List.foldlM_cons]
    have hfirst : Loading.Meets (do
        let content ← load (path.join ⟨name⟩)
        return Yaml.insert (.text (Path.stem name)) content pairs) l
        (fun pairs' => ∃ content, ok name content ∧
          pairs' = Yaml.insert (.text (Path.stem name)) content pairs) err :=
      .bind (hload name List.mem_cons_self) fun content hcontent => .pure ⟨content, hcontent, rfl⟩
    refine .bind hfirst ?_
    rintro pairs' ⟨content, hcontent, rfl⟩
    refine (ih (fun name hname => hload name (List.mem_cons_of_mem _ hname)) _).mono ?_ fun _ h => h
    rintro pairs'' ⟨values, hvalues, rfl⟩
    exact ⟨content :: values, .cons hcontent hvalues, rfl⟩

/-- A folder is loaded as a mapping of the documents in it. -/
theorem folder_meets {path : Path} {ok : String → Yaml → Prop}
    (hload : ∀ names, tree.names? path = some names → ∀ name ∈ documents names,
      (load (path.join ⟨name⟩)).Meets l (ok name) err)
    (herr : tree.names? path = none → err (.noFolder path)) :
    (folder tree load path).Meets l
      (fun w => ∃ names values, tree.names? path = some names ∧
        List.Forall₂ ok (documents names) values ∧
          w = .map (byStem (documents names) values)) err := by
  unfold folder
  rcases hnames : tree.names? path with - | names
  · exact .throw (herr hnames)
  · refine .bind (documents_meets (documents names) (hload names hnames) []) ?_
    rintro pairs ⟨values, hvalues, rfl⟩
    exact .pure ⟨names, values, rfl, hvalues, by rw [foldl_insert_byStem]⟩

/-- At the same places, related lists have related elements. -/
theorem forall₂_getElem? {α β : Type} {R : α → β → Prop} {as : List α} {bs : List β}
    (h : List.Forall₂ R as bs) {i : Nat} {a : α} {b : β} (ha : as[i]? = some a)
    (hb : bs[i]? = some b) : R a b := by
  induction h generalizing i with
  | nil => cases ha
  | cons hfirst _ ih =>
    cases i with
    | zero =>
      cases ha
      cases hb
      exact hfirst
    | succ i => exact ih ha hb

mutual

/-- **A value is spliced**, or there is something wrong with it or with what it leads to. -/
theorem expand_meets (v : Yaml)
    (hload : ∀ q, Leads tree (l.anchor source) v q →
      (load q).Meets l (tree.Loaded (q.routeFrom [])) err)
    (herr : ∀ e, Offends tree (l.anchor source) v e → err e) :
    (expand tree load source v).Meets l (tree.Spliced ((l.anchor source).routeFrom []) v) err := by
  match v with
  | .tagged tag value =>
    unfold expand
    by_cases hfile : tag = fileTag
    · rw [if_pos hfile]
      subst hfile
      refine .bind (operand_meets (.inl rfl) herr) ?_
      rintro p ⟨s, rfl, hs, rfl⟩
      refine (hload _ (.file .here hs)).mono (fun w hw => ?_) fun _ h => h
      rw [Path.routeFrom_join] at hw
      exact .file hs hw
    · rw [if_neg hfile]
      by_cases hfolder : tag = folderTag
      · rw [if_pos hfolder]
        subst hfolder
        refine .bind (operand_meets (.inr rfl) herr) ?_
        rintro p ⟨s, rfl, hs, rfl⟩
        refine (folder_meets (fun names hnames name hname => hload _ (.folder .here hs hnames hname))
          fun hnone => herr _ (.noFolder .here hs hnone)).mono ?_ fun _ h => h
        rintro w ⟨names, values, hnames, hvalues, rfl⟩
        have hplace := namesAt?_of_names? hnames
        rw [Path.routeFrom_join] at hplace
        refine .folder hs hplace hvalues.length_eq fun i name w hname hw => ?_
        have hloaded := forall₂_getElem? hvalues hname hw
        rw [Path.routeFrom_join, Path.routeFrom_join] at hloaded
        exact hloaded
      · -- all other tags are dropped
        rw [if_neg hfolder]
        refine (expand_meets value (fun q hq => hload q (hq.imp (.dropped hfile hfolder)))
          fun e he => herr e (he.imp (.dropped hfile hfolder))).mono (fun w hw => ?_) fun _ h => h
        exact .dropped hfile hfolder hw
  | .map pairs =>
    unfold expand
    refine .bind (expandPairs_meets pairs
      (fun pair hpair q hq => hload q (hq.imp (.value hpair)))
      fun pair hpair e he => herr e (he.imp (.value hpair))) ?_
    rintro pairs' ⟨hkeys, hvalues⟩
    exact .pure (.map hkeys fun i pair pair' h h' => forall₂_getElem? hvalues h h')
  | .seq items =>
    unfold expand
    refine .bind (expandItems_meets items (fun v hv q hq => hload q (hq.imp (.item hv)))
      fun v hv e he => herr e (he.imp (.item hv))) fun items' hitems => ?_
    exact .pure (.seq hitems.length_eq fun i v w h h' => forall₂_getElem? hitems h h')
  | .null => exact .pure (.scalar rfl)
  | .bool _ => exact .pure (.scalar rfl)
  | .int _ => exact .pure (.scalar rfl)
  | .float _ => exact .pure (.scalar rfl)
  | .text _ => exact .pure (.scalar rfl)

theorem expandItems_meets (items : List Yaml)
    (hload : ∀ v ∈ items, ∀ q, Leads tree (l.anchor source) v q →
      (load q).Meets l (tree.Loaded (q.routeFrom [])) err)
    (herr : ∀ v ∈ items, ∀ e, Offends tree (l.anchor source) v e → err e) :
    (expandItems tree load source items).Meets l
      (List.Forall₂ (tree.Spliced ((l.anchor source).routeFrom [])) items) err := by
  match items with
  | [] => exact .pure .nil
  | v :: rest =>
    unfold expandItems
    refine .bind (expand_meets v (hload v List.mem_cons_self) (herr v List.mem_cons_self))
      fun w hw => ?_
    refine .bind (expandItems_meets rest (fun v hv => hload v (List.mem_cons_of_mem _ hv))
      fun v hv => herr v (List.mem_cons_of_mem _ hv)) fun rest' hrest => ?_
    exact .pure (.cons hw hrest)

theorem expandPairs_meets (pairs : List (Yaml × Yaml))
    (hload : ∀ pair ∈ pairs, ∀ q, Leads tree (l.anchor source) pair.2 q →
      (load q).Meets l (tree.Loaded (q.routeFrom [])) err)
    (herr : ∀ pair ∈ pairs, ∀ e, Offends tree (l.anchor source) pair.2 e → err e) :
    (expandPairs tree load source pairs).Meets l
      (fun pairs' => pairs.map Prod.fst = pairs'.map Prod.fst ∧
        List.Forall₂ (fun pair pair' => tree.Spliced ((l.anchor source).routeFrom []) pair.2 pair'.2)
          pairs pairs') err := by
  match pairs with
  | [] => exact .pure ⟨rfl, .nil⟩
  | (key, v) :: rest =>
    unfold expandPairs
    refine .bind (expand_meets v (hload (key, v) List.mem_cons_self)
      (herr (key, v) List.mem_cons_self)) fun w hw => ?_
    refine .bind (expandPairs_meets rest (fun pair hpair => hload pair (List.mem_cons_of_mem _ hpair))
      fun pair hpair => herr pair (List.mem_cons_of_mem _ hpair)) ?_
    rintro rest' ⟨hkeys, hvalues⟩
    exact .pure ⟨congrArg (key :: ·) hkeys, .cons hw hvalues⟩

end

end

end Include

/-! ### Files -/

namespace Loader

open FileTree Include

/-- The folder that the paths in a file are seen from, for loaders with a base. -/
def folderOf (base source : Path) : Path :=
  ({ base } : Loader).anchor source

variable {tree : FileTree} {base entry p q : Path} {stack : List Path}

/-- A path under a folder: it has a slash, or the base of the loader is nowhere in particular. -/
def Seated (base p : Path) : Prop :=
  base.text = "" ∨ '/' ∈ p.text.toList

theorem seated_join (h : p.text = "" → base.text = "") : Seated base (p.join q) := by
  by_cases hp : p.text = ""
  · exact .inl (h hp)
  · right
    by_cases hq : q.isAbsolute
    · rw [Path.join_of_isAbsolute hq]
      obtain ⟨cs, hcs⟩ := Path.isAbsolute_iff.1 hq
      rw [hcs]
      exact List.mem_cons_self
    · unfold Path.join
      rw [if_neg hq]
      split
      · simp
      · rename_i hslash
        rcases hlast : p.text.toList.getLast? with - | c
        · exact absurd (by simpa using hlast) hp
        · obtain rfl : c = '/' := by simpa [Path.needsSlash, hlast] using hslash
          have hmem := List.mem_of_getLast? hlast
          simp [hmem]

/-- The paths in a file are seen from the folder of the file. -/
theorem routeFrom_folderOf {name : String} (h : p.EndsIn name) (hseated : Seated base p) :
    (folderOf base p).routeFrom [] = (p.routeFrom []).dropLast := by
  obtain ⟨folder, hparent, -, -, hslash⟩ := h.parent?
  rw [h.routeFrom_parent hparent, List.dropLast_concat]
  unfold folderOf anchor
  rw [hparent]
  simp only
  split
  · rename_i hempty
    have hbase : base.text = "" := hseated.resolve_right (hslash hempty)
    rw [show base = ⟨""⟩ from congrArg Path.mk hbase, show folder = ⟨""⟩ from congrArg Path.mk hempty]
  · rfl

theorem folderOf_text (h : (folderOf base p).text = "") : base.text = "" := by
  unfold folderOf anchor at h
  split at h
  · split at h
    · exact h
    · rename_i hne
      exact absurd h hne
  · exact h

/-- A path is met while some files are being loaded, the innermost first, none of them twice. -/
inductive Nested (tree : FileTree) (base entry : Path) : Path → List Path → Prop
  | entry : Nested tree base entry entry []
  | inner {p q : Path} {stack : List Path} {text : String} {v : Yaml} :
      Nested tree base entry p stack → (∀ r ∈ stack, ¬ p.same r) → tree.read p = .ok text →
      Yaml.ofText? text = some v → Leads tree (folderOf base p) v q →
      Nested tree base entry q (p :: stack)

theorem Nested.seated (h : Nested tree base entry p stack) (hentry : Seated base entry) :
    Seated base p := by
  cases h with
  | entry => exact hentry
  | inner _ _ _ _ hleads =>
    cases hleads with
    | file _ _ => exact seated_join folderOf_text
    | folder _ hs _ _ =>
      refine seated_join fun hempty => ?_
      unfold Path.join at hempty
      split at hempty
      · exact absurd hempty hs
      · split at hempty
        · have hslash := (String.append_eq_empty_iff.1 (String.append_eq_empty_iff.1 hempty).1).2
          exact absurd hslash (by decide)
        · exact absurd (String.append_eq_empty_iff.1 hempty).2 hs

/-- What is wrong with something that is met, wherever it leads. -/
inductive Illegible (tree : FileTree) (base entry : Path) : LoadError → Prop
  | unreadable {p : Path} {stack : List Path} {cause : FileError} :
      Nested tree base entry p stack → (∀ r ∈ stack, ¬ p.same r) → tree.read p = .error cause →
      Illegible tree base entry (.unreadable p cause)
  | malformed {p : Path} {stack : List Path} {text : String} :
      Nested tree base entry p stack → (∀ r ∈ stack, ¬ p.same r) → tree.read p = .ok text →
      Yaml.ofText? text = none → Illegible tree base entry (.malformed p)
  | offends {p : Path} {stack : List Path} {text : String} {v : Yaml} {e : LoadError} :
      Nested tree base entry p stack → (∀ r ∈ stack, ¬ p.same r) → tree.read p = .ok text →
      Yaml.ofText? text = some v → Offends tree (folderOf base p) v e →
      Illegible tree base entry e

/-- What an error is due to: to something illegible, to a file that is being loaded already, or to
the depth. -/
inductive Blames (tree : FileTree) (base entry : Path) (depth : Nat) : LoadError → Prop
  | illegible {e : LoadError} : Illegible tree base entry e → Blames tree base entry depth e
  | circular {p q : Path} {stack : List Path} : Nested tree base entry p stack → q ∈ stack →
      p.same q → Blames tree base entry depth (.circular p)
  | endless {p : Path} {stack : List Path} : Nested tree base entry p stack →
      stack.length = depth → Blames tree base entry depth (.endless p)

/-- What loading a file does first. -/
theorem run_loadPath (tree : FileTree) (depth : Nat) (p : Path) (l : Loader) :
    (loadPath tree (depth + 1) p).run l =
      if l.isActive p then (.error (.circular p), l)
      else
        match tree.read p with
        | .error cause => (.error (.unreadable p cause), l)
        | .ok text => (during p (valueOf tree (loadPath tree depth) text p)).run l := by
  by_cases hactive : l.isActive p
  · rw [if_pos hactive]
    unfold loadPath
    show (if l.isActive p then (_ : Loading Yaml) else _).run l = _
    rw [if_pos hactive]
    rfl
  · rw [if_neg hactive]
    unfold loadPath
    show (if l.isActive p then (_ : Loading Yaml) else _).run l = _
    rw [if_neg hactive]
    rcases tree.read p with cause | text
    · rfl
    · rfl

theorem not_isActive_iff {active : List Path} :
    ¬ isActive ⟨base, active⟩ p ↔ ∀ q ∈ active, ¬ p.same q := by
  simp [isActive]

/-- **A file is loaded as what it stands for**, or there is something to blame. -/
theorem loadPath_meets (hentry : Seated base entry) {total : Nat} (depth : Nat) {p : Path}
    {active : List Path} (hnested : Nested tree base entry p active)
    (hdepth : depth + active.length = total) :
    (loadPath tree depth p).Meets ⟨base, active⟩ (tree.Loaded (p.routeFrom []))
      (Blames tree base entry total) := by
  -- what is left of the depth and the files that are being loaded add up to the whole depth
  induction depth generalizing p active with
  | zero => exact .throw (.endless hnested (by simpa using hdepth))
  | succ depth ih =>
    by_cases hactive : isActive ⟨base, active⟩ p
    · obtain ⟨q, hq, hsame⟩ := List.any_eq_true.1 hactive
      refine .inr ⟨.circular p, ?_, .circular hnested hq hsame⟩
      rw [run_loadPath, if_pos hactive]
    · have hfresh := not_isActive_iff.1 hactive
      rcases hread : tree.read p with cause | text
      · refine .inr ⟨.unreadable p cause, ?_, .illegible (.unreadable hnested hfresh hread)⟩
        rw [run_loadPath, if_neg hactive, hread]
      · obtain ⟨hplace, name, hends⟩ := textAt?_of_read hread
        have hseated := hnested.seated hentry
        have hvalue : (valueOf tree (loadPath tree depth) text p).Meets
            (enter ⟨base, active⟩ p) (tree.Loaded (p.routeFrom []))
              (Blames tree base entry total) := by
          unfold valueOf
          rcases hparse : Yaml.ofText? text with - | v
          · exact .throw (.illegible (.malformed hnested hfresh hread hparse))
          · refine (expand_meets v (fun q hq => ?_) fun e he => ?_).mono (fun w hw => ?_) fun _ h => h
            · refine ih (hnested.inner hfresh hread hparse hq) ?_
              show depth + (active.length + 1) = total
              omega
            · exact .illegible (.offends hnested hfresh hread hparse he)
            · have hspliced : tree.Spliced ((folderOf base p).routeFrom []) v w := hw
              rw [routeFrom_folderOf hends hseated] at hspliced
              exact .file ⟨text, hplace, hparse⟩ hspliced
        have hduring := hvalue.during hactive
        have hrun : (loadPath tree (depth + 1) p).run ⟨base, active⟩
            = (during p (valueOf tree (loadPath tree depth) text p)).run ⟨base, active⟩ := by
          rw [run_loadPath, if_neg hactive, hread]
        unfold Loading.Meets
        rw [hrun]
        exact hduring

end Loader

end Timeline
