/-
Timeline/Proofs/Document/Depth.lean

How deep files include one another.

A depth changes nothing but whether it is enough (`loadPath_extends`), and the depth that
files are loaded at is enough (`loadFile_ne_endless`).  Where no path goes up, every place
is spelled in one way (`Under.same_of_routeFrom`), so files that are being loaded are in
different places, and a depth of one more than there are files is enough.

Main result (`Rooted.loadFile_ends`): under an absolute base, without paths that go up,
loading comes to an end at a depth that is bounded by the number of files; if all
includes can be read, it fails exactly where some file includes itself, and then it
names such a file.
-/
import Timeline.Proofs.Document.Inclusion

namespace Timeline

/-! ### More depth -/

/-- One thing done with a loader comes to the same as another one, unless that one gives up. -/
def Loading.Extends {α : Type} (act act' : Loading α) : Prop :=
  ∀ l, act'.run l = act.run l ∨ ∃ q l', act.run l = (.error (.endless q), l')

namespace Loading.Extends

variable {α β : Type} {act act' : Loading α} {f f' : α → Loading β}

theorem refl : act.Extends act :=
  fun _ => .inl rfl

theorem bind (h : act.Extends act') (hf : ∀ a, (f a).Extends (f' a)) :
    (act >>= f).Extends (act' >>= f') := by
  intro l
  have hrun (act : Loading α) (f : α → Loading β) :
      (act >>= f).run l = (ExceptT.bindCont f (act.run l).1).run (act.run l).2 := rfl
  rw [hrun, hrun]
  rcases h l with heq | ⟨q, l', hends⟩
  · rw [heq]
    rcases (act.run l).1 with e | a
    · exact .inl rfl
    · exact hf a _
  · -- once the first part has given up, so has the whole
    rw [hends]
    exact .inr ⟨q, l', rfl⟩

theorem during {p : Path} (h : act.Extends act') :
    (Loader.during p act).Extends (Loader.during p act') := by
  intro l
  rw [Loader.run_during, Loader.run_during]
  rcases h (l.enter p) with heq | ⟨q, l', hends⟩
  · rw [heq]
    exact .inl rfl
  · rw [hends]
    exact .inr ⟨q, l'.leave p, rfl⟩

end Loading.Extends

namespace Include

section

variable {tree : FileTree} {load load' : Path → Loading Yaml} {source : Path}

theorem folder_extends (hload : ∀ q, (load q).Extends (load' q)) (p : Path) :
    (folder tree load p).Extends (folder tree load' p) := by
  have hfold (names : List String) (pairs : List (Yaml × Yaml)) :
      (names.foldlM (fun pairs name => do
        let content ← load (p.join ⟨name⟩)
        return Yaml.insert (.text (Path.stem name)) content pairs) pairs : Loading _).Extends
      (names.foldlM (fun pairs name => do
        let content ← load' (p.join ⟨name⟩)
        return Yaml.insert (.text (Path.stem name)) content pairs) pairs) := by
    induction names generalizing pairs with
    | nil => exact .refl
    | cons name names ih =>
      rw [List.foldlM_cons, List.foldlM_cons]
      exact ((hload _).bind fun _ => .refl).bind fun pairs => ih pairs
  unfold folder
  rcases tree.names? p with - | names
  · exact .refl
  · exact (hfold (documents names) []).bind fun _ => .refl

mutual

/-- With a deeper way to load files, a value comes to the same. -/
theorem expand_extends (hload : ∀ q, (load q).Extends (load' q)) (v : Yaml) :
    (expand tree load source v).Extends (expand tree load' source v) := by
  match v with
  | .tagged tag value =>
    unfold expand
    split
    · exact Loading.Extends.refl.bind fun q => hload q
    · split
      · exact Loading.Extends.refl.bind fun q => folder_extends hload q
      · exact expand_extends hload value
  | .map pairs =>
    unfold expand
    exact (expandPairs_extends hload pairs).bind fun _ => .refl
  | .seq items =>
    unfold expand
    exact (expandItems_extends hload items).bind fun _ => .refl
  | .null => exact .refl
  | .bool _ => exact .refl
  | .int _ => exact .refl
  | .float _ => exact .refl
  | .text _ => exact .refl

theorem expandItems_extends (hload : ∀ q, (load q).Extends (load' q)) (items : List Yaml) :
    (expandItems tree load source items).Extends (expandItems tree load' source items) := by
  match items with
  | [] => exact .refl
  | v :: rest =>
    unfold expandItems
    exact (expand_extends hload v).bind fun _ => (expandItems_extends hload rest).bind fun _ => .refl

theorem expandPairs_extends (hload : ∀ q, (load q).Extends (load' q)) (pairs : List (Yaml × Yaml)) :
    (expandPairs tree load source pairs).Extends (expandPairs tree load' source pairs) := by
  match pairs with
  | [] => exact .refl
  | (_, v) :: rest =>
    unfold expandPairs
    exact (expand_extends hload v).bind fun _ => (expandPairs_extends hload rest).bind fun _ => .refl

end

end

end Include

namespace Loader

open FileTree Include Relation

variable {tree : FileTree} {base path entry p q : Path} {stack : List Path} {v : Yaml}

/-- At one more depth, a file is loaded in the same way. -/
theorem loadPath_extends (tree : FileTree) (depth : Nat) (p : Path) :
    (loadPath tree depth p).Extends (loadPath tree (depth + 1) p) := by
  induction depth generalizing p with
  | zero => exact fun l => .inr ⟨p, l, rfl⟩
  | succ depth ih =>
    intro l
    rw [run_loadPath, run_loadPath]
    split
    · exact .inl rfl
    · split
      · exact .inl rfl
      · refine Loading.Extends.during ?_ l
        unfold valueOf
        split
        · exact expand_extends ih _
        · exact .refl

/-- A depth that is enough is as good as any other one. -/
theorem run_loadPath_of_le {l : Loader} {depth depth' : Nat} (hle : depth ≤ depth')
    (hends : ∀ q l', (loadPath tree depth p).run l ≠ (.error (.endless q), l')) :
    (loadPath tree depth' p).run l = (loadPath tree depth p).run l := by
  induction depth', hle using Nat.le_induction with
  | base => rfl
  | succ depth' _ ih =>
    rcases loadPath_extends tree depth' p l with heq | ⟨q, l', hendless⟩
    · exact heq.trans ih
    · exact absurd (ih.symm.trans hendless) (hends q l')

end Loader

/-! ### Paths that do not go up -/

namespace Path

variable {p q : Path} {root : List String}

/-- An absolute path that goes up at most in its front. -/
structure Under (root : List String) (p : Path) : Prop where
  absolute : p.isAbsolute
  names : ∃ names, p.counted = root ++ names ∧ ".." ∉ names

/-- Nothing is in front, or the front ends by going up. -/
def IsRoot (root : List String) : Prop :=
  root = [] ∨ ∃ outer, root = outer ++ [".."]

/-- Every absolute path has such a front, which is empty if it does not go up. -/
theorem exists_root (h : p.isAbsolute) :
    ∃ root, IsRoot root ∧ p.Under root ∧ (".." ∉ p.counted → root = []) := by
  have hcut (segments : List String) : ∃ root names, segments = root ++ names ∧ ".." ∉ names ∧
      IsRoot root ∧ (".." ∉ segments → root = []) := by
    induction segments using List.reverseRecOn with
    | nil => exact ⟨[], [], rfl, by simp, .inl rfl, fun _ => rfl⟩
    | append_singleton segments last ih =>
      by_cases hup : last = ".."
      · refine ⟨segments ++ [last], [], by simp, by simp, .inr ⟨segments, by rw [hup]⟩, ?_⟩
        intro hnone
        exact absurd (by simp [hup]) hnone
      · obtain ⟨root, names, rfl, hnames, hroot, hnone⟩ := ih
        refine ⟨root, names ++ [last], by simp, ?_, hroot, fun h => hnone fun hmem => h ?_⟩
        · simp [hnames, Ne.symm hup]
        · exact List.mem_append_left _ hmem
  obtain ⟨root, names, hcounted, hnames, hroot, hnone⟩ := hcut p.counted
  exact ⟨root, hroot, ⟨h, names, hcounted, hnames⟩, hnone⟩

/-- Behind the front, all names are passed. -/
theorem foldl_walk_names {names : List String} (h : ".." ∉ names) (passed : List String) :
    (names.map part).foldl walk passed = names.reverse ++ passed := by
  induction names generalizing passed with
  | nil => rfl
  | cons name names ih =>
    obtain ⟨hname, hnames⟩ := not_or.1 (mt List.mem_cons.2 h)
    rw [List.map_cons, List.foldl_cons, ih hnames]
    simp [part, Ne.symm hname, walk]

/-- Paths behind the same front that lead to the same place say the same. -/
theorem Under.same_of_routeFrom (hp : p.Under root) (hq : q.Under root)
    (hroute : p.routeFrom [] = q.routeFrom []) : p.same q := by
  obtain ⟨names, hpnames, hnames⟩ := hp.names
  obtain ⟨names', hqnames, hnames'⟩ := hq.names
  have hcounted : p.counted = q.counted := by
    rw [routeFrom_eq, routeFrom_eq, if_pos hp.absolute, if_pos hq.absolute, hpnames, hqnames] at hroute
    simp only [List.map_append, List.foldl_append, foldl_walk_names hnames,
      foldl_walk_names hnames', List.reverse_inj, List.append_cancel_right_eq] at hroute
    rw [hpnames, hqnames, hroute]
  obtain ⟨front, hpparts, ⟨-, rfl⟩ | ⟨hnot, -⟩⟩ := p.parts_eq
  · obtain ⟨front, hqparts, ⟨-, rfl⟩ | ⟨hnot, -⟩⟩ := q.parts_eq
    · simp [same, hpparts, hqparts, hcounted]
    · exact absurd hq.absolute hnot
  · exact absurd hp.absolute hnot

theorem Under.join (hp : p.Under root) (hq : ".." ∉ q.counted)
    (hplain : root = [] ∨ ¬ q.isAbsolute) : (p.join q).Under root := by
  by_cases habsolute : q.isAbsolute
  · obtain rfl := hplain.resolve_right fun hnot => hnot habsolute
    rw [join_of_isAbsolute habsolute]
    exact ⟨habsolute, q.counted, rfl, hq⟩
  · obtain ⟨names, hcounted, hnames⟩ := hp.names
    refine ⟨?_, names ++ q.counted, ?_, ?_⟩
    · rw [isAbsolute_join habsolute (text_ne_of_isAbsolute hp.absolute)]
      exact hp.absolute
    · rw [counted_join habsolute, hcounted, List.append_assoc]
    · rw [List.mem_append]
      exact not_or.2 ⟨hnames, hq⟩

theorem Under.parent {name : String} {folder : Path} (hroot : IsRoot root) (hp : p.Under root)
    (hends : p.EndsIn name) (hfolder : p.parent? = some folder) : folder.Under root := by
  obtain ⟨folder', hparent, hlast, habsolute, -⟩ := hends.parent?
  obtain rfl := Option.some.inj (hfolder.symm.trans hparent)
  obtain ⟨names, hcounted, hnames⟩ := hp.names
  rcases List.eq_nil_or_concat' names with rfl | ⟨inner, last, rfl⟩
  · -- the front would end in the name, and not by going up
    rw [List.append_nil, hlast] at hcounted
    rcases hroot with rfl | ⟨outer, rfl⟩
    · simp at hcounted
    · exact absurd (List.append_inj' hcounted rfl).2 (by simpa using hends.2.2)
  · rw [hlast, ← List.append_assoc] at hcounted
    refine ⟨habsolute hp.absolute, inner, (List.append_inj' hcounted rfl).1, fun hmem => hnames ?_⟩
    exact List.mem_append_left _ hmem

/-- The name of a document is a path that does not go up. -/
theorem counted_of_document {name : String} (hslash : '/' ∉ name.toList)
    (hname : Include.isDocument name) :
    ".." ∉ (⟨name⟩ : Path).counted ∧ ¬ (⟨name⟩ : Path).isAbsolute := by
  constructor
  · intro hmem
    have hsegment := List.mem_of_mem_filter hmem
    rw [segments_of_not_mem hslash, List.mem_singleton] at hsegment
    rw [← hsegment] at hname
    exact absurd hname (by decide)
  · intro habsolute
    obtain ⟨cs, hcs⟩ := isAbsolute_iff.1 habsolute
    exact hslash (by rw [hcs]; exact List.mem_cons_self)

end Path

namespace Loader

open FileTree Include Relation

variable {tree : FileTree} {base path entry p q : Path} {stack : List Path} {v : Yaml}

/-- A value is met in a file that is not being loaded already. -/
structure Met (tree : FileTree) (base entry p : Path) (v : Yaml) : Prop where
  nested : ∃ stack, Nested tree base entry p stack ∧ ∀ r ∈ stack, ¬ p.same r
  value : ∃ text, tree.read p = .ok text ∧ Yaml.ofText? text = some v

/-- The text of an include that is met. -/
def Operand (tree : FileTree) (base entry : Path) (s : String) : Prop :=
  ∃ p v tag, Met tree base entry p v ∧ (tag = fileTag ∨ tag = folderTag) ∧ v.Asks tag (.text s)

/-- A loader with an absolute base loads a file, and no path that is met goes up.  The base may be
written with steps that go up, but then includes must not start at the root: the same file would
have two spellings. -/
structure Rooted (tree : FileTree) (base path : Path) : Prop where
  absolute : base.isAbsolute
  plain : tree.hasPlainNames
  operands : ∀ s, Operand tree base (base.join path) s → ".." ∉ (⟨s⟩ : Path).counted
  spelled : ".." ∉ (base.join path).counted ∨
    ∀ s, Operand tree base (base.join path) s → ¬ (⟨s⟩ : Path).isAbsolute

/-- There is a file with a value at a path. -/
def Readable (tree : FileTree) (p : Path) : Prop :=
  ∃ text v, tree.read p = .ok text ∧ Yaml.ofText? text = some v

/-- Every include that is met names a file with a value, or a folder of documents with values. -/
def Legible (tree : FileTree) (base entry : Path) : Prop :=
  ∀ p v, Met tree base entry p v → (∀ q, Leads tree (folderOf base p) v q → Readable tree q) ∧
    ∀ e, ¬ Offends tree (folderOf base p) v e

theorem Rooted.absolute_entry (h : Rooted tree base path) : (base.join path).isAbsolute := by
  by_cases hpath : path.isAbsolute
  · rw [Path.join_of_isAbsolute hpath]
    exact hpath
  · rw [Path.isAbsolute_join hpath (Path.text_ne_of_isAbsolute h.absolute)]
    exact h.absolute

/-- All paths that are met go up at most in their front, which they share. -/
theorem Rooted.under (h : Rooted tree base path) : ∃ root, ∀ p stack,
    Nested tree base (base.join path) p stack → p.Under root := by
  obtain ⟨root, hroot, hentry, hnone⟩ := Path.exists_root h.absolute_entry
  have hplain (s : String) (hs : Operand tree base (base.join path) s) :
      root = [] ∨ ¬ (⟨s⟩ : Path).isAbsolute :=
    h.spelled.imp hnone fun hrelative => hrelative s hs
  refine ⟨root, fun p stack hnested => ?_⟩
  -- the folder of a file keeps the front, and an operand puts nothing but names behind it
  induction hnested with
  | entry => exact hentry
  | @inner p q stack text v hnested hfresh hread hparse hleads ih =>
    have hmet : Met tree base (base.join path) p v := ⟨⟨stack, hnested, hfresh⟩, text, hread, hparse⟩
    obtain ⟨-, name, hends⟩ := textAt?_of_read hread
    obtain ⟨folder, hparent, -⟩ := hends.parent?
    have hfolder : folder.Under root := ih.parent hroot hends hparent
    have hanchor : folderOf base p = folder := by
      unfold folderOf anchor
      rw [hparent]
      exact if_neg (Path.text_ne_of_isAbsolute hfolder.absolute)
    rw [hanchor] at hleads
    cases hleads with
    | @file s hasks hs =>
      have hoperand : Operand tree base (base.join path) s := ⟨p, v, _, hmet, .inl rfl, hasks⟩
      exact hfolder.join (h.operands s hoperand) (hplain s hoperand)
    | @folder s names name hasks hs hnames hname =>
      have hoperand : Operand tree base (base.join path) s := ⟨p, v, _, hmet, .inr rfl, hasks⟩
      obtain ⟨hmem, hdocument⟩ := mem_documents.1 hname
      have hslash := not_mem_of_namesAt? h.plain (namesAt?_of_names? hnames) hmem
      obtain ⟨hup, hrelative⟩ := Path.counted_of_document hslash hdocument
      have hinner := hfolder.join (h.operands s hoperand) (hplain s hoperand)
      exact hinner.join hup (.inr hrelative)

theorem Nested.of_mem (h : Nested tree base entry p stack) {r : Path} (hr : r ∈ stack) :
    ∃ stack', Nested tree base entry r stack' := by
  induction h with
  | entry => cases hr
  | inner hnested _ _ _ _ ih =>
    rcases List.mem_cons.1 hr with rfl | hr
    · exact ⟨_, hnested⟩
    · exact ih hr

/-- **Files nest at most as deep as there are files.** -/
theorem Rooted.length_le (h : Rooted tree base path)
    (hnested : Nested tree base (base.join path) p stack) : stack.length ≤ tree.fileCount := by
  obtain ⟨root, hunder⟩ := h.under
  refine hnested.length_le ?_
  induction hnested with
  | entry => exact .nil
  | @inner p q stack text v hnested hfresh _ _ _ ih =>
    rw [List.map_cons, List.nodup_cons]
    refine ⟨fun hmem => ?_, ih⟩
    -- in one place there is one spelling, and that was not being loaded
    obtain ⟨r, hr, hroute⟩ := List.mem_map.1 hmem
    obtain ⟨stack', hr'⟩ := hnested.of_mem hr
    exact hfresh r hr ((hunder _ _ hnested).same_of_routeFrom (hunder _ _ hr') hroute.symm)

/-! ### Why loading fails -/

theorem Illegible.ne_endless {e : LoadError} (h : Illegible tree base entry e) : e ≠ .endless q := by
  cases h with
  | unreadable _ _ _ => exact fun heq => LoadError.noConfusion heq
  | malformed _ _ _ _ => exact fun heq => LoadError.noConfusion heq
  | offends _ _ _ _ hoffends => cases hoffends <;> exact fun heq => LoadError.noConfusion heq

/-- If all includes can be read, only the entry may be illegible. -/
theorem Illegible.not_readable {e : LoadError} (h : Illegible tree base entry e)
    (hlegible : Legible tree base entry) : ¬ Readable tree entry := by
  have hmet {p : Path} {stack : List Path} (hnested : Nested tree base entry p stack)
      (hp : ¬ Readable tree p) : ¬ Readable tree entry := by
    cases hnested with
    | entry => exact hp
    | inner hnested hfresh hread hparse hleads =>
      exact absurd ((hlegible _ _ ⟨⟨_, hnested, hfresh⟩, _, hread, hparse⟩).1 _ hleads) hp
  cases h with
  | unreadable hnested _ hread =>
    refine hmet hnested ?_
    rintro ⟨text, v, hok, -⟩
    cases hread.symm.trans hok
  | malformed hnested _ hread hparse =>
    refine hmet hnested ?_
    rintro ⟨text, v, hok, hvalue⟩
    cases hread.symm.trans hok
    cases hparse.symm.trans hvalue
  | offends hnested hfresh hread hparse hoffends =>
    exact absurd hoffends ((hlegible _ _ ⟨⟨_, hnested, hfresh⟩, _, hread, hparse⟩).2 _)

/-- What cannot be read is not loaded. -/
theorem not_loadFile_of_not_readable (h : ¬ Readable tree (base.join path)) :
    ∃ e, fresh base (loadFile tree path) = .error e := by
  have hidle : ¬ isActive ⟨base, []⟩ (base.join path) := by simp [isActive]
  unfold fresh
  rw [run_loadFile, maxDepth, run_loadPath, if_neg hidle]
  rcases hread : tree.read (base.join path) with cause | text
  · exact ⟨_, rfl⟩
  · refine ⟨.malformed (base.join path), ?_⟩
    have hparse : Yaml.ofText? text = none :=
      Option.eq_none_iff_forall_ne_some.2 fun v hv => h ⟨text, v, hread, hv⟩
    simp only [run_during, valueOf, hparse]
    rfl

/-- Loading does not give up at a depth that no file is met at. -/
theorem run_loadPath_ne_endless {depth : Nat} (hshort : ∀ p stack,
    Nested tree base (base.join path) p stack → stack.length < depth) (q : Path) (l : Loader) :
    (loadPath tree depth (base.join path)).run { base } ≠ (.error (.endless q), l) := by
  intro hendless
  rcases loadPath_meets (seated_join id) depth .entry rfl with ⟨w, hrun, -⟩ | ⟨e, hrun, hblames⟩
  · cases hrun.symm.trans hendless
  · cases hrun.symm.trans hendless
    cases hblames with
    | illegible hillegible => exact hillegible.ne_endless rfl
    | endless hnested hlength => exact absurd hlength (Nat.ne_of_lt (hshort _ _ hnested))

/-- **No load gives up**, whatever files there are. -/
theorem loadFile_ne_endless (tree : FileTree) (base path q : Path) :
    fresh base (loadFile tree path) ≠ .error (.endless q) := fun hq =>
  run_loadPath_ne_endless (fun _ _ hnested => hnested.length_lt) q _
    ((run_loadFile tree base path).symm.trans (Prod.ext hq rfl))

/-- **Loading comes to an end, and it fails where files include themselves.**  Files that are being
loaded are no more than there are files, so any depth beyond that gives the same, and it is never
used up.  If all includes that are met can be read, loading fails exactly if the entry cannot be
read or leads to a file that includes itself; and if the entry can be read, the error names such a
file. -/
theorem Rooted.loadFile_ends (h : Rooted tree base path) :
    (∀ p stack, Nested tree base (base.join path) p stack → stack.length ≤ tree.fileCount) ∧
    (∀ depth, tree.fileCount < depth →
      (loadPath tree depth (base.join path)).run { base } = (loadFile tree path).run { base }) ∧
    (∀ q, fresh base (loadFile tree path) ≠ .error (.endless q)) ∧
    (Legible tree base (base.join path) →
      ((∃ e, fresh base (loadFile tree path) = .error e) ↔ ¬ Readable tree (base.join path) ∨
        ∃ route, ReflTransGen tree.Includes ((base.join path).routeFrom []) route ∧
          TransGen tree.Includes route route) ∧
      (Readable tree (base.join path) → ∀ e, fresh base (loadFile tree path) = .error e →
        ∃ p, e = .circular p ∧
          ReflTransGen tree.Includes ((base.join path).routeFrom []) (p.routeFrom []) ∧
          TransGen tree.Includes (p.routeFrom []) (p.routeFrom []))) := by
  have hcause (hlegible : Legible tree base (base.join path))
      (hreadable : Readable tree (base.join path)) (e : LoadError)
      (he : fresh base (loadFile tree path) = .error e) :
      ∃ p, e = .circular p ∧
        ReflTransGen tree.Includes ((base.join path).routeFrom []) (p.routeFrom []) ∧
        TransGen tree.Includes (p.routeFrom []) (p.routeFrom []) := by
    rcases loadFile_meets tree base path with ⟨w, hrun, -⟩ | ⟨e', hrun, hcause⟩
    · cases (congrArg Prod.fst hrun).symm.trans he
    · have hsame : Except.error e' = .error e := (congrArg Prod.fst hrun).symm.trans he
      cases hsame
      exact hcause.resolve_left fun hillegible => hillegible.not_readable hlegible hreadable
  refine ⟨fun p stack hnested => h.length_le hnested, fun depth hdepth => ?_,
    loadFile_ne_endless tree base path,
    fun hlegible => ⟨⟨fun ⟨e, he⟩ => ?_, ?_⟩, hcause hlegible⟩⟩
  · -- neither this depth nor the other one is used up, so the larger of them changes nothing
    have hends := run_loadPath_ne_endless fun p stack hnested =>
      Nat.lt_of_le_of_lt (h.length_le hnested) hdepth
    have hends' := run_loadPath_ne_endless fun p stack (hnested : Nested tree base (base.join path) p
      stack) => hnested.length_lt
    rw [run_loadFile]
    rcases Nat.le_total depth maxDepth with hle | hle
    · exact (run_loadPath_of_le hle hends).symm
    · exact run_loadPath_of_le hle hends'
  · by_cases hreadable : Readable tree (base.join path)
    · obtain ⟨p, -, hreaches, hcircle⟩ := hcause hlegible hreadable e he
      exact .inr ⟨_, hreaches, hcircle⟩
    · exact .inl hreadable
  · rintro (hunreadable | ⟨route, hreaches, hcircle⟩)
    · exact not_loadFile_of_not_readable hunreadable
    · -- what has a value leads to no circle
      rcases loadFile_meets tree base path with ⟨w, -, hloaded⟩ | ⟨e, hrun, -⟩
      · exact absurd hcircle (hloaded.not_cyclic hreaches)
      · exact ⟨e, congrArg Prod.fst hrun⟩

/-- Two files that include each other. -/
def ring : FileTree :=
  .folder [("a.yaml", .file "!include b.yaml".toUTF8), ("b.yaml", .file "!include a.yaml".toUTF8)]

/-- What the two files write. -/
theorem ring_values :
    (ring.read ⟨"/a.yaml"⟩ = .ok "!include b.yaml" ∧
      Yaml.ofText? "!include b.yaml" = some (.tagged fileTag (.text "b.yaml"))) ∧
    ring.read ⟨"/b.yaml"⟩ = .ok "!include a.yaml" ∧
      Yaml.ofText? "!include a.yaml" = some (.tagged fileTag (.text "a.yaml")) := by
  have hvalue (text name : String)
      (hcheck : (Yaml.ofText? text).any (·.same (.tagged fileTag (.text name))) = true) :
      Yaml.ofText? text = some (.tagged fileTag (.text name)) := by
    rcases hresult : Yaml.ofText? text with - | v
    · rw [hresult] at hcheck
      cases hcheck
    · rw [hresult] at hcheck
      have hsame : v.same (.tagged fileTag (.text name)) := hcheck
      cases v with
      | tagged tag inner =>
        cases inner with
        | text s =>
          simp only [Yaml.same, Bool.and_eq_true, beq_iff_eq] at hsame
          rw [hsame.1, hsame.2]
        | _ => simp [Yaml.same] at hsame
      | _ => simp [Yaml.same] at hsame
  exact ⟨⟨by decide +kernel, hvalue _ _ (by decide +kernel)⟩, by decide +kernel,
    hvalue _ _ (by decide +kernel)⟩

/-- Whatever is met is one of the two files. -/
theorem ring_nested {p : Path} {stack : List Path}
    (h : Nested ring ⟨"/"⟩ ((⟨"/"⟩ : Path).join ⟨"a.yaml"⟩) p stack) :
    p = ⟨"/a.yaml"⟩ ∨ p = ⟨"/b.yaml"⟩ := by
  have hjoin : (⟨"/"⟩ : Path).join ⟨"a.yaml"⟩ = ⟨"/a.yaml"⟩ ∧
      (⟨"/"⟩ : Path).join ⟨"b.yaml"⟩ = ⟨"/b.yaml"⟩ := by decide +kernel
  have hanchor : folderOf ⟨"/"⟩ ⟨"/a.yaml"⟩ = ⟨"/"⟩ ∧ folderOf ⟨"/"⟩ ⟨"/b.yaml"⟩ = ⟨"/"⟩ := by
    decide +kernel
  have hleads {name : String} {q : Path}
      (h : Leads ring ⟨"/"⟩ (.tagged fileTag (.text name)) q) : q = (⟨"/"⟩ : Path).join ⟨name⟩ := by
    cases h with
    | file hasks _ => rw [Yaml.text.inj ((Yaml.asks_include_iff (.inl rfl)).1 hasks).2]
    | folder hasks _ _ _ => exact absurd ((Yaml.asks_include_iff (.inl rfl)).1 hasks).1 (by decide)
  obtain ⟨⟨hreadA, hvalueA⟩, hreadB, hvalueB⟩ := ring_values
  induction h with
  | entry => exact .inl hjoin.1
  | inner _ _ hread hparse hq ih =>
    rcases ih with rfl | rfl
    · cases hreadA.symm.trans hread
      cases hvalueA.symm.trans hparse
      rw [hanchor.1] at hq
      exact .inr ((hleads hq).trans hjoin.2)
    · cases hreadB.symm.trans hread
      cases hvalueB.symm.trans hparse
      rw [hanchor.2] at hq
      exact .inl ((hleads hq).trans hjoin.1)

theorem ring_met {p : Path} {v : Yaml}
    (h : Met ring ⟨"/"⟩ ((⟨"/"⟩ : Path).join ⟨"a.yaml"⟩) p v) :
    ∃ name, (name = "a.yaml" ∨ name = "b.yaml") ∧ v = .tagged fileTag (.text name) := by
  obtain ⟨⟨stack, hnested, -⟩, text, hread, hparse⟩ := h
  obtain ⟨⟨hreadA, hvalueA⟩, hreadB, hvalueB⟩ := ring_values
  rcases ring_nested hnested with rfl | rfl
  · cases hreadA.symm.trans hread
    cases hvalueA.symm.trans hparse
    exact ⟨_, .inr rfl, rfl⟩
  · cases hreadB.symm.trans hread
    cases hvalueB.symm.trans hparse
    exact ⟨_, .inl rfl, rfl⟩

theorem rooted_ring : Rooted ring ⟨"/"⟩ ⟨"a.yaml"⟩ where
  absolute := by decide
  plain := by decide +kernel
  operands := by
    rintro s ⟨p, v, tag, hmet, -, hasks⟩
    obtain ⟨name, hname, rfl⟩ := ring_met hmet
    obtain rfl := Yaml.text.inj ((Yaml.asks_include_iff (.inl rfl)).1 hasks).2
    rcases hname with rfl | rfl <;> decide +kernel
  spelled := .inl (by decide +kernel)

theorem legible_ring : Legible ring ⟨"/"⟩ ((⟨"/"⟩ : Path).join ⟨"a.yaml"⟩) := by
  rintro p v hmet
  obtain ⟨⟨hreadA, hvalueA⟩, hreadB, hvalueB⟩ := ring_values
  refine ⟨fun q hleads => ?_, fun e hoffends => ?_⟩
  · obtain ⟨⟨stack, hnested, hfresh⟩, text, hread, hparse⟩ := hmet
    rcases ring_nested (hnested.inner hfresh hread hparse hleads) with rfl | rfl
    · exact ⟨_, _, hreadA, hvalueA⟩
    · exact ⟨_, _, hreadB, hvalueB⟩
  · obtain ⟨name, hname, rfl⟩ := ring_met hmet
    cases hoffends with
    | notText _ hasks hnot =>
      exact hnot name ((Yaml.asks_include_iff (.inl rfl)).1 hasks).2
    | empty _ hasks =>
      obtain rfl := Yaml.text.inj ((Yaml.asks_include_iff (.inl rfl)).1 hasks).2
      simp at hname
    | noFolder hasks _ _ => exact absurd ((Yaml.asks_include_iff (.inl rfl)).1 hasks).1 (by decide)

theorem ring_includes :
    ring.Includes ["a.yaml"] ["b.yaml"] ∧ ring.Includes ["b.yaml"] ["a.yaml"] := by
  obtain ⟨⟨hreadA, hvalueA⟩, hreadB, hvalueB⟩ := ring_values
  have hroute : (⟨"/a.yaml"⟩ : Path).routeFrom [] = ["a.yaml"] ∧
      (⟨"/b.yaml"⟩ : Path).routeFrom [] = ["b.yaml"] ∧
      Path.routeFrom [] ⟨"a.yaml"⟩ = ["a.yaml"] ∧ Path.routeFrom [] ⟨"b.yaml"⟩ = ["b.yaml"] := by
    decide +kernel
  obtain ⟨hA, hB, hA', hB'⟩ := hroute
  constructor
  · exact ⟨_, hA ▸ writes_of_read hreadA hvalueA, hB' ▸ .file .here (by decide)⟩
  · exact ⟨_, hB ▸ writes_of_read hreadB hvalueB, hA' ▸ .file .here (by decide)⟩

theorem loadFile_ends_ring : Rooted ring ⟨"/"⟩ ⟨"a.yaml"⟩ ∧
    ∃ p, fresh ⟨"/"⟩ (loadFile ring ⟨"a.yaml"⟩) = .error (.circular p) ∧
      TransGen ring.Includes (p.routeFrom []) (p.routeFrom []) := by
  obtain ⟨⟨hreadA, hvalueA⟩, -⟩ := ring_values
  have hentry : (⟨"/"⟩ : Path).join ⟨"a.yaml"⟩ = ⟨"/a.yaml"⟩ := by decide +kernel
  have hroute : ((⟨"/"⟩ : Path).join ⟨"a.yaml"⟩).routeFrom [] = ["a.yaml"] := by decide +kernel
  obtain ⟨hiff, hcause⟩ := (Rooted.loadFile_ends rooted_ring).2.2.2 legible_ring
  obtain ⟨e, he⟩ := hiff.2 (.inr ⟨["a.yaml"], hroute ▸ .refl,
    (TransGen.single ring_includes.1).tail ring_includes.2⟩)
  have hreadable : Readable ring ((⟨"/"⟩ : Path).join ⟨"a.yaml"⟩) := by
    rw [hentry]
    exact ⟨_, _, hreadA, hvalueA⟩
  obtain ⟨p, rfl, -, hcircle⟩ := hcause hreadable e he
  exact ⟨rooted_ring, p, he, hcircle⟩

end Loader

end Timeline
