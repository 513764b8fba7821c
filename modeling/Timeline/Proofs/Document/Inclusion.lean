/-
Timeline/Proofs/Document/Inclusion.lean

Loading is putting in place what is included.

Whatever a file leads to while it is being loaded is a file that it includes, so the
files that are being loaded lie on a way through the includes, from the entry to the
file that is met (`Nested.reaches`, `Nested.stack_reaches`).  Their paths are all
different and not too long, so the depth is never used up (`Nested.length_lt`).

Main result (`loadFile_splices`): what is loaded is what the entry stands for; a value
without tags is loaded as it is; and where no file includes itself, loading fails for
nothing but what cannot be read or is no proper include.
-/
import Timeline.Proofs.Document.Loading

namespace Timeline

/-! ### Values without tags -/

namespace Yaml

theorem Untagged.not_asks {v : Yaml} (h : v.Untagged) {tag : String} {operand : Yaml} :
    ¬ v.Asks tag operand := by
  induction h with
  | scalar hscalar => exact not_asks_of_isScalar hscalar
  | seq _ ih =>
    rw [asks_seq_iff]
    rintro ⟨v, hmem, hasks⟩
    exact ih v hmem hasks
  | map _ ih =>
    rw [asks_map_iff]
    rintro ⟨pair, hmem, hasks⟩
    exact ih pair hmem hasks

/-- A value without tags stands for itself. -/
theorem Untagged.spliced {v : Yaml} (h : v.Untagged) (tree : FileTree) (dir : List String) :
    tree.Spliced dir v v := by
  induction h with
  | scalar hscalar => exact .scalar hscalar
  | seq _ ih =>
    refine .seq rfl fun i v w hv hw => ?_
    cases hv.symm.trans hw
    exact ih v (List.mem_of_getElem? hv)
  | map _ ih =>
    refine .map rfl fun i pair pair' hpair hpair' => ?_
    cases hpair.symm.trans hpair'
    exact ih pair (List.mem_of_getElem? hpair)

end Yaml

namespace Loader

open FileTree Include Relation

variable {tree : FileTree} {base entry p q : Path} {stack : List Path} {text : String} {v : Yaml}

/-! ### The way to a file -/

theorem writes_of_read (hread : tree.read p = .ok text) (hparse : Yaml.ofText? text = some v) :
    tree.Writes (p.routeFrom []) v :=
  ⟨text, (textAt?_of_read hread).1, hparse⟩

/-- Whatever the value of a file leads to is included by the file. -/
theorem includes_of_leads (hseated : Seated base p) (hread : tree.read p = .ok text)
    (hparse : Yaml.ofText? text = some v) (hleads : Leads tree (folderOf base p) v q) :
    tree.Includes (p.routeFrom []) (q.routeFrom []) := by
  obtain ⟨-, name, hends⟩ := textAt?_of_read hread
  refine ⟨v, writes_of_read hread hparse, ?_⟩
  rw [← routeFrom_folderOf hends hseated]
  exact hleads.refers

/-- Includes lead from the entry to whatever is met. -/
theorem Nested.reaches (hentry : Seated base entry) (h : Nested tree base entry p stack) :
    ReflTransGen tree.Includes (entry.routeFrom []) (p.routeFrom []) := by
  induction h with
  | entry => exact .refl
  | inner hnested _ hread hparse hleads ih =>
    exact ih.tail (includes_of_leads (hnested.seated hentry) hread hparse hleads)

/-- Includes lead from the entry to the files that are being loaded, and on from there. -/
theorem Nested.stack_reaches (hentry : Seated base entry) (h : Nested tree base entry p stack)
    {r : Path} (hr : r ∈ stack) :
    ReflTransGen tree.Includes (entry.routeFrom []) (r.routeFrom []) ∧
      TransGen tree.Includes (r.routeFrom []) (p.routeFrom []) := by
  induction h with
  | entry => cases hr
  | inner hnested _ hread hparse hleads ih =>
    have hedge := includes_of_leads (hnested.seated hentry) hread hparse hleads
    rcases List.mem_cons.1 hr with rfl | hr
    · exact ⟨hnested.reaches hentry, .single hedge⟩
    · exact ⟨(ih hr).1, (ih hr).2.tail hedge⟩

/-- A file that is met again while it is being loaded includes itself. -/
theorem Nested.cyclic (hentry : Seated base entry) (h : Nested tree base entry p stack)
    {r : Path} (hr : r ∈ stack) (hsame : p.same r) :
    ReflTransGen tree.Includes (entry.routeFrom []) (p.routeFrom []) ∧
      TransGen tree.Includes (p.routeFrom []) (p.routeFrom []) := by
  obtain ⟨hreaches, hon⟩ := h.stack_reaches hentry hr
  rw [← Path.routeFrom_of_same hsame] at hreaches hon
  exact ⟨hreaches, hon⟩

/-! ### How many files are being loaded -/

theorem Nested.files (h : Nested tree base entry p stack) {r : Path} (hr : r ∈ stack) :
    ∃ content, tree.at? (r.routeFrom []) = some (.file content) := by
  induction h with
  | entry => cases hr
  | inner _ _ hread _ _ ih =>
    rcases List.mem_cons.1 hr with rfl | hr
    · have htext := (textAt?_of_read hread).1
      unfold textAt? at htext
      split at htext
      · exact ⟨_, ‹_›⟩
      · cases htext
    · exact ih hr

/-- Files that are being loaded in different places are no more than there are files. -/
theorem Nested.length_le (h : Nested tree base entry p stack)
    (hnodup : (stack.map (Path.routeFrom [])).Nodup) : stack.length ≤ tree.fileCount := by
  have hcount := length_le_fileCount hnodup fun route hroute => by
    obtain ⟨r, hr, rfl⟩ := List.mem_map.1 hroute
    exact h.files hr
  rwa [List.length_map] at hcount

/-- **There are only so many paths that are not longer than some bytes.** -/
theorem length_le_pathCount {n : Nat} {paths : List Path} (hnodup : paths.Nodup)
    (hsize : ∀ p ∈ paths, p.text.utf8ByteSize ≤ n) : paths.length ≤ pathCount n := by
  -- a path is known by the byte at every place, if there is one
  let bytes (p : Path) (i : Fin n) : Option UInt8 := p.text.toByteArray.data[i]?
  have hinj : ∀ p ∈ paths, ∀ q ∈ paths, bytes p = bytes q → p = q := by
    intro p hp q hq h
    have hbytes : p.text.toByteArray = q.text.toByteArray := by
      refine ByteArray.ext (Array.ext_getElem? fun i => ?_)
      by_cases hi : i < n
      · exact congrFun h ⟨i, hi⟩
      · have hover {r : Path} (hr : r ∈ paths) : r.text.toByteArray.data.size ≤ i :=
          (String.size_toByteArray.trans_le (hsize r hr)).trans (Nat.le_of_not_lt hi)
        rw [Array.getElem?_eq_none (hover hp), Array.getElem?_eq_none (hover hq)]
    exact congrArg Path.mk (String.toByteArray_inj.1 hbytes)
  have hle := (hnodup.map_on hinj).length_le_card
  have hcard : Fintype.card UInt8 = 256 := by decide +kernel
  rw [pathCount]
  rwa [List.length_map, Fintype.card_fun, Fintype.card_option, Fintype.card_fin, hcard] at hle

/-- Files that are being loaded have different paths. -/
theorem Nested.nodup (h : Nested tree base entry p stack) : stack.Nodup := by
  induction h with
  | entry => exact .nil
  | @inner p q stack text v _ hfresh _ _ _ ih =>
    exact List.nodup_cons.2 ⟨fun hmem => hfresh p hmem (by simp [Path.same]), ih⟩

theorem Nested.size_le (h : Nested tree base entry p stack) {r : Path} (hr : r ∈ stack) :
    r.text.utf8ByteSize ≤ maxPath := by
  induction h with
  | entry => cases hr
  | inner _ _ hread _ _ ih =>
    rcases List.mem_cons.1 hr with rfl | hr
    · exact size_le_of_read hread
    · exact ih hr

/-- **The depth is never used up.** -/
theorem Nested.length_lt (h : Nested tree base entry p stack) : stack.length < maxDepth := by
  rw [maxDepth, Nat.lt_add_one_iff]
  exact length_le_pathCount h.nodup fun r hr => h.size_le hr

/-! ### Loading a file -/

/-- A file is loaded from its path as seen from the base. -/
theorem run_loadFile (tree : FileTree) (base path : Path) :
    (loadFile tree path).run { base } =
      (loadPath tree maxDepth (base.join path)).run ⟨base, []⟩ := rfl

/-- **Loading comes to an end**: to what the entry stands for, or to something illegible or a file
that includes itself. -/
theorem loadFile_meets (tree : FileTree) (base path : Path) :
    (loadFile tree path).Meets { base } (tree.Loaded ((base.join path).routeFrom [])) fun e =>
      Illegible tree base (base.join path) e ∨ ∃ p, e = .circular p ∧
        ReflTransGen tree.Includes ((base.join path).routeFrom []) (p.routeFrom []) ∧
        TransGen tree.Includes (p.routeFrom []) (p.routeFrom []) := by
  have hentry : Seated base (base.join path) := seated_join id
  have hmeets : (loadFile tree path).Meets { base } (tree.Loaded ((base.join path).routeFrom []))
      (Blames tree base (base.join path) maxDepth) := by
    unfold Loading.Meets
    rw [run_loadFile]
    exact loadPath_meets hentry maxDepth .entry rfl
  refine hmeets.mono (fun _ hw => hw) fun e he => ?_
  cases he with
  | illegible hillegible => exact .inl hillegible
  | circular hnested hr hsame => exact .inr ⟨_, rfl, hnested.cyclic hentry hr hsame⟩
  | endless hnested hlength => exact absurd hlength (Nat.ne_of_lt hnested.length_lt)

/-- A value without tags is loaded as it is. -/
theorem loadFile_of_untagged {path : Path} (hread : tree.read (base.join path) = .ok text)
    (hparse : Yaml.ofText? text = some v) (hv : v.Untagged) :
    fresh base (loadFile tree path) = .ok v := by
  have hvalue : (valueOf tree (loadPath tree (maxDepth - 1)) text (base.join path)).Meets
      (enter ⟨base, []⟩ (base.join path)) (· = v) fun _ => False := by
    unfold valueOf
    rw [hparse]
    refine (expand_meets v (fun q hleads => ?_) fun e hoffends => ?_).mono
      (fun w hw => ?_) fun _ h => h
    · cases hleads with
      | file hasks _ => exact absurd hasks hv.not_asks
      | folder hasks _ _ _ => exact absurd hasks hv.not_asks
    · cases hoffends with
      | notText _ hasks _ => exact absurd hasks hv.not_asks
      | empty _ hasks => exact absurd hasks hv.not_asks
      | noFolder hasks _ _ => exact absurd hasks hv.not_asks
    · exact hw.unique (hv.spliced _ _)
  have hidle : ¬ isActive ⟨base, []⟩ (base.join path) := by simp [isActive]
  rcases hvalue.during hidle with ⟨w, hrun, rfl⟩ | ⟨-, -, hnever⟩
  · unfold fresh
    rw [run_loadFile, maxDepth, run_loadPath, if_neg hidle, hread]
    exact congrArg Prod.fst hrun
  · exact hnever.elim

/-- **Loading a file is splicing its includes.**  What is loaded is what the file at the entry stands
for, without a tag where a value stands.  A value without tags is loaded as it is.  If loading
fails, then something that was met cannot be read, or is no proper include, or some file includes
itself: a file may be included as often as one likes as long as that is not within itself. -/
theorem loadFile_splices (tree : FileTree) (base path : Path) :
    (∀ w, fresh base (loadFile tree path) = .ok w →
      tree.Loaded ((base.join path).routeFrom []) w ∧ w.Untagged) ∧
    (∀ text v, tree.read (base.join path) = .ok text → Yaml.ofText? text = some v → v.Untagged →
      fresh base (loadFile tree path) = .ok v) ∧
    ∀ e, fresh base (loadFile tree path) = .error e →
      Illegible tree base (base.join path) e ∨
        ∃ route, ReflTransGen tree.Includes ((base.join path).routeFrom []) route ∧
          TransGen tree.Includes route route := by
  refine ⟨fun w hw => ?_, fun text v => loadFile_of_untagged, fun e he => ?_⟩
  · rcases loadFile_meets tree base path with ⟨w', hrun, hloaded⟩ | ⟨e, hrun, -⟩
    · have hsame : Except.ok w' = .ok w := (congrArg Prod.fst hrun).symm.trans hw
      cases hsame
      exact ⟨hloaded, hloaded.untagged⟩
    · cases (congrArg Prod.fst hrun).symm.trans hw
  · rcases loadFile_meets tree base path with ⟨w, hrun, -⟩ | ⟨e', hrun, hcause⟩
    · cases (congrArg Prod.fst hrun).symm.trans he
    · have hsame : Except.error e' = .error e := (congrArg Prod.fst hrun).symm.trans he
      cases hsame
      exact hcause.imp_right fun ⟨p, _, hcircle⟩ => ⟨_, hcircle⟩

/-- A file that includes another one twice, which includes a third one from its own folder. -/
def twice : FileTree :=
  .folder [
    ("show.yaml", .file "[!include in/x.yaml, !include in/x.yaml]".toUTF8),
    ("in", .folder [
      ("x.yaml", .file "!include y.yaml".toUTF8),
      ("y.yaml", .file "".toUTF8)])]

theorem loadFile_splices_twice :
    (∃ w, w.same (.seq [.null, .null]) ∧ fresh ⟨"/"⟩ (loadFile twice ⟨"show.yaml"⟩) = .ok w ∧
      twice.Loaded ["show.yaml"] w ∧ w.Untagged) ∧
    fresh ⟨"/"⟩ (loadFile twice ⟨"in/y.yaml"⟩) = .ok .null := by
  constructor
  · obtain ⟨w, hw, hsame⟩ : ∃ w, fresh ⟨"/"⟩ (loadFile twice ⟨"show.yaml"⟩) = .ok w ∧
        w.same (.seq [.null, .null]) := by
      have hcheck : (fresh ⟨"/"⟩ (loadFile twice ⟨"show.yaml"⟩)).toOption.any
          (·.same (.seq [.null, .null])) = true := by decide +kernel
      generalize fresh ⟨"/"⟩ (loadFile twice ⟨"show.yaml"⟩) = result at hcheck
      cases result with
      | error e => cases hcheck
      | ok w => exact ⟨w, rfl, hcheck⟩
    have hroute : ((⟨"/"⟩ : Path).join ⟨"show.yaml"⟩).routeFrom [] = ["show.yaml"] := by
      decide +kernel
    obtain ⟨hloaded, huntagged⟩ := (loadFile_splices twice ⟨"/"⟩ ⟨"show.yaml"⟩).1 w hw
    rw [hroute] at hloaded
    exact ⟨w, hsame, hw, hloaded, huntagged⟩
  · have hread : twice.read ((⟨"/"⟩ : Path).join ⟨"in/y.yaml"⟩) = .ok "" := by decide +kernel
    have hempty : Yaml.ofText? "" = some .null := by cbv
    exact (loadFile_splices twice ⟨"/"⟩ ⟨"in/y.yaml"⟩).2.1 "" .null hread hempty (.scalar rfl)

end Loader

end Timeline
