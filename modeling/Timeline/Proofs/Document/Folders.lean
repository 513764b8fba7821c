/-
Timeline/Proofs/Document/Folders.lean

What becomes of the documents in a folder that is included.

The documents are put under the stems of their names, one after the other.  Names of one
stem and different extensions clash: the later document takes the place of the earlier one,
which is lost (`Include.folder_loses`).

Main result (`Include.folder_gathers`): every document of the folder is loaded, by itself
and in the order of the names; there is one entry for every stem, where the stem is met
first, with the last document of that stem; no document is lost just where all stems differ.
-/
import Timeline.Proofs.Document.Restoring

namespace Timeline

namespace Yaml

theorem text_same_iff {s : String} {key : Yaml} : (text s).same key = true ↔ key = text s := by
  constructor
  · intro h
    cases key with
    | text t => rw [show s = t by simpa [same] using h]
    | _ => simp [same] at h
  · rintro rfl
    simp [same]

variable {s : String} {value : Yaml} {pairs : List (Yaml × Yaml)}

theorem hasKey_text_iff : hasKey (.text s) pairs = true ↔ .text s ∈ pairs.map Prod.fst := by
  rw [hasKey, List.any_eq_true, List.mem_map]
  constructor
  · rintro ⟨pair, hpair, hsame⟩
    exact ⟨pair, hpair, text_same_iff.1 hsame⟩
  · rintro ⟨pair, hpair, hkey⟩
    exact ⟨pair, hpair, text_same_iff.2 hkey⟩

/-- A key that is there already stays where it is. -/
theorem keys_insert_of_hasKey (hkey : hasKey (.text s) pairs) :
    (insert (.text s) value pairs).map Prod.fst = pairs.map Prod.fst := by
  induction pairs with
  | nil => simp [hasKey] at hkey
  | cons first rest ih =>
    obtain ⟨key, old⟩ := first
    rw [insert]
    split
    · rfl
    · rename_i hother
      have hrest : hasKey (.text s) rest := by simpa [hasKey, hother] using hkey
      rw [List.map_cons, ih hrest, List.map_cons]

theorem mem_insert_text : (.text s, value) ∈ insert (.text s) value pairs := by
  induction pairs with
  | nil => exact List.mem_cons_self
  | cons first rest ih =>
    obtain ⟨key, old⟩ := first
    rw [insert]
    split
    · rename_i hkey
      rw [text_same_iff.1 hkey]
      exact List.mem_cons_self
    · exact List.mem_cons_of_mem _ ih

/-- What is under other keys stays. -/
theorem mem_insert_of_ne {pair : Yaml × Yaml} (hne : pair.1 ≠ .text s) (h : pair ∈ pairs) :
    pair ∈ insert (.text s) value pairs := by
  induction pairs with
  | nil => cases h
  | cons first rest ih =>
    obtain ⟨key, old⟩ := first
    rw [insert]
    rcases List.mem_cons.1 h with rfl | hrest
    · rw [if_neg fun hkey => hne (text_same_iff.1 hkey)]
      exact List.mem_cons_self
    · split
      · exact List.mem_cons_of_mem _ hrest
      · exact List.mem_cons_of_mem _ (ih hrest)

end Yaml

namespace Include

open Loader

/-! ### Stems -/

theorem length_eraseDups_le (stems : List String) : stems.eraseDups.length ≤ stems.length := by
  -- by the length, as the rest is filtered before its own repetitions are dropped
  induction h : stems.length using Nat.strongRecOn generalizing stems with
  | ind n ih =>
    subst h
    cases stems with
    | nil => rfl
    | cons s rest =>
      have hfilter := List.length_filter_le (fun t => !t == s) rest
      have hrest := ih _ (Nat.lt_succ_of_le hfilter) _ rfl
      rw [List.eraseDups_cons, List.length_cons, List.length_cons]
      omega

/-- Nothing is dropped just where nothing is repeated. -/
theorem length_eraseDups_eq_iff {stems : List String} :
    stems.eraseDups.length = stems.length ↔ stems.Nodup := by
  induction stems with
  | nil => simp
  | cons s rest ih =>
    have hle := length_eraseDups_le (rest.filter fun t => !t == s)
    have hfilter := List.length_filter_le (fun t => !t == s) rest
    rw [List.eraseDups_cons, List.length_cons, List.length_cons, List.nodup_cons]
    constructor
    · intro h
      have hall : rest.filter (fun t => !t == s) = rest :=
        List.filter_eq_self.2 (List.length_filter_eq_length_iff.1 (by omega))
      rw [hall] at h
      refine ⟨fun hmem => ?_, ih.1 (by omega)⟩
      simpa using List.filter_eq_self.1 hall s hmem
    · rintro ⟨hnew, hnodup⟩
      have hall : rest.filter (fun t => !t == s) = rest := by
        refine List.filter_eq_self.2 fun t ht => ?_
        have hne : t ≠ s := fun heq => hnew (heq ▸ ht)
        simpa using hne
      rw [hall, ih.2 hnodup]

theorem eraseDups_concat_of_mem {s : String} {stems : List String} (h : s ∈ stems) :
    (stems ++ [s]).eraseDups = stems.eraseDups := by
  rw [List.eraseDups_append]
  simp [List.removeAll, h]

theorem eraseDups_concat_of_not_mem {s : String} {stems : List String} (h : s ∉ stems) :
    (stems ++ [s]).eraseDups = stems.eraseDups ++ [s] := by
  rw [List.eraseDups_append]
  simp [List.removeAll, h, List.eraseDups_cons]

/-! ### Folders -/

/-- What some documents are gathered to, by the stems of their names. -/
structure Gathers (names : List String) (values : List Yaml) (pairs : List (Yaml × Yaml)) :
    Prop where
  /-- There is one entry for every stem, in the order in which the stems are met first. -/
  keys : pairs.map Prod.fst = (names.map Path.stem).eraseDups.map Yaml.text
  /-- The last document of a stem is under the stem. -/
  last : ∀ (i : Nat) (name : String) (value : Yaml), names[i]? = some name →
    values[i]? = some value →
    (∀ (j : Nat) (other : String), i < j → names[j]? = some other → Path.stem other ≠ Path.stem name) →
    (.text (Path.stem name), value) ∈ pairs

/-- Another document, behind those before it. -/
theorem Gathers.concat {names : List String} {values : List Yaml} {pairs : List (Yaml × Yaml)}
    (h : Gathers names values pairs) (hlength : names.length = values.length) (name : String)
    (value : Yaml) : Gathers (names ++ [name]) (values ++ [value])
      (Yaml.insert (.text (Path.stem name)) value pairs) where
  keys := by
    rw [List.map_append, List.map_singleton]
    by_cases hkey : Yaml.hasKey (.text (Path.stem name)) pairs
    · have hmem : Path.stem name ∈ names.map Path.stem := by
        have hkeys := Yaml.hasKey_text_iff.1 hkey
        rw [h.keys] at hkeys
        simpa using hkeys
      rw [Yaml.keys_insert_of_hasKey hkey, eraseDups_concat_of_mem hmem, h.keys]
    · have hnew : Path.stem name ∉ names.map Path.stem := by
        intro hmem
        apply hkey
        rw [Yaml.hasKey_text_iff, h.keys]
        simpa using hmem
      rw [Yaml.insert_of_not_hasKey hkey, eraseDups_concat_of_not_mem hnew, List.map_append, h.keys,
        List.map_append]
      rfl
  last := by
    intro i name' value' hname hvalue hlast
    rcases Nat.lt_trichotomy i names.length with hlt | rfl | hgt
    · -- the new document has another stem
      have hne : Path.stem name ≠ Path.stem name' :=
        hlast names.length name hlt (by simp)
      rw [List.getElem?_append_left hlt] at hname
      rw [List.getElem?_append_left (hlength ▸ hlt)] at hvalue
      refine Yaml.mem_insert_of_ne (fun heq => hne (Yaml.text.inj heq).symm) ?_
      refine h.last i name' value' hname hvalue fun j other hij hother => hlast j other hij ?_
      rw [List.getElem?_append_left (List.getElem?_eq_some_iff.1 hother).1]
      exact hother
    · obtain rfl : name = name' := by simpa using hname
      obtain rfl : value = value' := by simpa [hlength] using hvalue
      exact Yaml.mem_insert_text
    · have hnone : (names ++ [name])[i]? = none := List.getElem?_eq_none (by simpa using hgt)
      rw [hnone] at hname
      cases hname

/-- The mapping by stems gathers the documents. -/
theorem gathers_byStem {names : List String} {values : List Yaml}
    (hlength : names.length = values.length) : Gathers names values (byStem names values) := by
  rw [← foldl_insert_byStem]
  -- from the end, as each document is put behind those before it
  induction names using List.reverseRecOn generalizing values with
  | nil => exact ⟨rfl, fun i name value hname => by simp at hname⟩
  | append_singleton names name ih =>
    rcases List.eq_nil_or_concat values with rfl | ⟨values, value, rfl⟩
    · simp at hlength
    · have hlength' : names.length = values.length := by simpa using hlength
      rw [List.concat_eq_append, List.zip_append hlength', List.foldl_append]
      exact (ih hlength').concat hlength' name value

variable {tree : FileTree} {depth : Nat} {path : Path} {l l' : Loader} {w : Yaml}

/-- **A folder is gathered by stems.**  Every document in it is loaded, in the order of the names
and as it would be loaded by itself; the last one of each stem is kept.  No document is lost just
where the stems differ: then there is one entry for each, in the order of the names. -/
theorem folder_gathers (h : (folder tree (loadPath tree depth) path).run l = (.ok w, l')) :
    l' = l ∧ ∃ names values pairs, tree.names? path = some names ∧ w = .map pairs ∧
      (documents names).Perm (names.filter isDocument) ∧ (documents names).Pairwise (· ≤ ·) ∧
      List.Forall₂ (fun name value => (loadPath tree depth (path.join ⟨name⟩)).run l = (.ok value, l))
        (documents names) values ∧
      Gathers (documents names) values pairs ∧
      (pairs.length = (documents names).length ↔ ((documents names).map Path.stem).Nodup) ∧
      (((documents names).map Path.stem).Nodup → pairs = ((documents names).zip values).map
        fun (name, value) => (.text (Path.stem name), value)) := by
  have hload (p : Path) : (loadPath tree depth p).Meets l
      (fun value => (loadPath tree depth p).run l = (.ok value, l)) fun _ => True := by
    rcases loadPath_restores depth p l with ⟨value, hrun, -⟩ | ⟨e, hrun, -⟩
    · exact .inl ⟨value, hrun, hrun⟩
    · exact .inr ⟨e, hrun, trivial⟩
  rcases folder_meets (fun _ _ name _ => hload (path.join ⟨name⟩)) (fun _ => trivial)
    with ⟨w', hrun, names, values, hnames, hvalues, rfl⟩ | ⟨e, hrun, -⟩
  · cases h.symm.trans hrun
    have hgathers := gathers_byStem hvalues.length_eq
    refine ⟨rfl, names, values, _, hnames, rfl, List.mergeSort_perm _ _, ?_, hvalues,
      hgathers, ?_, fun hnodup => if_pos hnodup⟩
    · have htotal (a b : String) : (decide (a ≤ b) || decide (b ≤ a)) = true := by
        simpa using le_total a b
      have htrans (a b c : String) : decide (a ≤ b) = true → decide (b ≤ c) = true →
          decide (a ≤ c) = true := by
        simpa using le_trans
      have hsorted : (documents names).Pairwise fun a b => decide (a ≤ b) = true :=
        List.pairwise_mergeSort htrans htotal _
      exact hsorted.imp fun h => of_decide_eq_true h
    · have hlength := congrArg List.length hgathers.keys
      rw [List.length_map, List.length_map] at hlength
      rw [hlength, ← length_eraseDups_eq_iff, List.length_map]
  · cases h.symm.trans hrun

/-! ### Two documents -/

/-- A file with a number and nothing else. -/
theorem run_loadPath_int {p : Path} {text : String} {n : Int} (hidle : ¬ l.isActive p)
    (hread : tree.read p = .ok text) (hparse : Yaml.ofText? text = some (.int n)) :
    (loadPath tree (depth + 1) p).run l = (.ok (.int n), l) := by
  have hvalue : (valueOf tree (loadPath tree depth) text p).run (l.enter p)
      = (.ok (.int n), l.enter p) := by
    unfold valueOf
    rw [hparse]
    rfl
  rw [run_loadPath, if_neg hidle, hread]
  show (during p _).run l = _
  rw [run_during, hvalue, leave_enter hidle]

/-- What two documents write. -/
theorem ofText_numbers : Yaml.ofText? "1" = some (.int 1) ∧ Yaml.ofText? "2" = some (.int 2) := by
  have hvalue (text : String) (n : Int)
      (hcheck : (Yaml.ofText? text).any (·.same (.int n)) = true) :
      Yaml.ofText? text = some (.int n) := by
    obtain ⟨v, hv, hsame⟩ := (Option.any_eq_true _ _).1 hcheck
    cases v with
    | int m => rw [hv, show m = n by simpa [Yaml.same] using hsame]
    | _ => simp [Yaml.same] at hsame
  exact ⟨hvalue "1" 1 (by decide +kernel), hvalue "2" 2 (by decide +kernel)⟩

theorem documents_pair {one two : String} (hfilter : [one, two].filter isDocument = [one, two])
    (hle : one ≤ two) : documents [one, two] = [one, two] := by
  rw [documents, hfilter]
  exact List.mergeSort_of_pairwise (by simpa using hle)

/-- A folder with two documents, loaded by a loader that loads nothing yet. -/
theorem run_folder_numbers {one two : String} (base : Path)
    (hnames : tree.names? path = some [one, two]) (hdocuments : documents [one, two] = [one, two])
    (hread : tree.read (path.join ⟨one⟩) = .ok "1" ∧ tree.read (path.join ⟨two⟩) = .ok "2") :
    (folder tree (loadPath tree 1) path).run { base } = (.ok (.map (Yaml.insert
      (.text (Path.stem two)) (.int 2) [(.text (Path.stem one), .int 1)])), { base }) := by
  have hidle (p : Path) : ¬ isActive { base } p := by simp [isActive]
  unfold folder
  rw [hnames]
  simp only [hdocuments, List.foldlM_cons, List.foldlM_nil, bind_assoc, pure_bind]
  rw [Loading.run_bind_of_ok (run_loadPath_int (hidle _) hread.1 ofText_numbers.1),
    Loading.run_bind_of_ok (run_loadPath_int (hidle _) hread.2 ofText_numbers.2)]
  rfl

/-- A folder with two documents of one stem, and a folder with documents of two stems. -/
def stemFolders : FileTree :=
  .folder [
    ("d", .folder [("a.json", .file "1".toUTF8), ("a.yaml", .file "2".toUTF8)]),
    ("e", .folder [("a.json", .file "1".toUTF8), ("b.yaml", .file "2".toUTF8)])]

theorem folder_gathers_stemFolders :
    (folder stemFolders (loadPath stemFolders 1) ⟨"/e"⟩).run { base := ⟨"/"⟩ }
      = (.ok (.map [(.text "a", .int 1), (.text "b", .int 2)]), { base := ⟨"/"⟩ }) ∧
    (["a.json", "b.yaml"].map Path.stem).Nodup ∧
    ∃ values, Gathers ["a.json", "b.yaml"] values [(.text "a", .int 1), (.text "b", .int 2)] ∧
      [(Yaml.text "a", Yaml.int 1), (.text "b", .int 2)]
        = (["a.json", "b.yaml"].zip values).map fun (name, value) =>
            (.text (Path.stem name), value) := by
  have hnames : stemFolders.names? ⟨"/e"⟩ = some ["a.json", "b.yaml"] := by decide +kernel
  have hdocuments : documents ["a.json", "b.yaml"] = ["a.json", "b.yaml"] :=
    documents_pair (by decide +kernel) (by decide +kernel)
  have hstem : Path.stem "a.json" = "a" ∧ Path.stem "b.yaml" = "b" := by decide +kernel
  have hrun : (folder stemFolders (loadPath stemFolders 1) ⟨"/e"⟩).run { base := ⟨"/"⟩ }
      = (.ok (.map [(.text "a", .int 1), (.text "b", .int 2)]), { base := ⟨"/"⟩ }) := by
    have hrun := run_folder_numbers ⟨"/"⟩ hnames hdocuments (by decide +kernel)
    rw [hstem.1, hstem.2] at hrun
    simpa [Yaml.insert, Yaml.same] using hrun
  have hnodup : (["a.json", "b.yaml"].map Path.stem).Nodup := by decide +kernel
  obtain ⟨-, names, values, pairs, hnames', hpairs, -, -, -, hgathers, -, heach⟩ := folder_gathers hrun
  cases hnames.symm.trans hnames'
  cases hpairs
  rw [hdocuments] at hgathers heach
  exact ⟨hrun, hnodup, values, hgathers, heach hnodup⟩

/-- **Documents can be lost**: not every document of a folder has an entry of its own. -/
theorem folder_loses : ¬ ∀ tree depth path l l' names pairs, tree.names? path = some names →
    (folder tree (loadPath tree depth) path).run l = (.ok (.map pairs), l') →
    pairs.length = (documents names).length ∧ ∀ name ∈ documents names, ∀ value,
      (loadPath tree depth (path.join ⟨name⟩)).run l = (.ok value, l) →
      (.text (Path.stem name), value) ∈ pairs := by
  intro h
  have hnames : stemFolders.names? ⟨"/d"⟩ = some ["a.json", "a.yaml"] := by decide +kernel
  have hdocuments : documents ["a.json", "a.yaml"] = ["a.json", "a.yaml"] :=
    documents_pair (by decide +kernel) (by decide +kernel)
  have hrun := run_folder_numbers ⟨"/"⟩ hnames hdocuments (by decide +kernel)
  -- the second document takes the place of the first one
  have hstem : Path.stem "a.json" = "a" ∧ Path.stem "a.yaml" = "a" := by decide +kernel
  obtain ⟨hlength, -⟩ := h stemFolders 1 ⟨"/d"⟩ _ _ _ _ hnames hrun
  rw [hdocuments, hstem.1, hstem.2] at hlength
  simp [Yaml.insert, Yaml.same] at hlength

end Include

end Timeline
