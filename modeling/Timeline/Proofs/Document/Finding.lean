/-
Timeline/Proofs/Document/Finding.lean

What a spelling changes.

One place may be spelled in many ways, with slashes and points that do not count.  Main
result (`FileTree.find_eq`): what is found at a path is decided by its segments that count,
by whether something is written behind the last of them, and by whether all that is written
is too long.
-/
import Timeline.Proofs.Document.Places

namespace Timeline

namespace Path

variable {p q : Path}

/-! ### Characters and bytes -/

theorem mem_pieces_iff {c : Char} (hc : c ≠ '/') (cs : List Char) :
    (∃ piece ∈ pieces cs, c ∈ piece) ↔ c ∈ cs := by
  induction cs with
  | nil => simp [pieces]
  | cons d rest ih =>
    by_cases hd : d = '/'
    · simp [pieces, hd, hc, ih]
    · rcases hp : pieces rest with - | ⟨piece, others⟩
      · exact absurd hp (pieces_ne_nil rest)
      · rw [hp] at ih
        simp only [pieces, hd, if_false, hp, List.mem_cons, exists_eq_or_imp] at ih ⊢
        rw [← ih, or_assoc]

/-- A character of a path is one of its segments that count, unless it is a slash or a point. -/
theorem mem_text_iff {c : Char} (hslash : c ≠ '/') (hpoint : c ≠ '.') :
    c ∈ p.text.toList ↔ ∃ s ∈ p.counted, c ∈ s.toList := by
  have hsegments : (∃ s ∈ p.segments, c ∈ s.toList) ↔ c ∈ p.text.toList := by
    rw [← mem_pieces_iff hslash]
    simp [segments]
  rw [← hsegments]
  constructor
  · rintro ⟨s, hs, hc⟩
    refine ⟨s, List.mem_filter.2 ⟨hs, ?_⟩, hc⟩
    by_contra hnot
    have hs : s = "" ∨ s = "." := by
      simpa [counts, Classical.or_iff_not_imp_left] using hnot
    rcases hs with rfl | rfl
    · simp at hc
    · exact hpoint (by simpa using hc)
  · rintro ⟨s, hs, hc⟩
    exact ⟨s, List.mem_of_mem_filter hs, hc⟩

/-- A path has as many bytes as its segments, with a slash behind each but the last. -/
theorem utf8ByteSize_eq (p : Path) :
    p.text.utf8ByteSize + 1 = (p.segments.map fun s => s.utf8ByteSize + 1).sum := by
  have hpieces (cs : List Char) : (String.ofList cs).utf8ByteSize + 1
      = ((pieces cs).map fun piece => (String.ofList piece).utf8ByteSize + 1).sum := by
    have hcons (c : Char) (cs : List Char) : (String.ofList (c :: cs)).utf8ByteSize
        = c.utf8Size + (String.ofList cs).utf8ByteSize := by
      rw [String.ofList_cons, String.utf8ByteSize_append]
      simp
    induction cs with
    | nil => simp [pieces]
    | cons c rest ih =>
      by_cases hc : c = '/'
      · have hone : '/'.utf8Size = 1 := by decide
        rw [hcons, hc, hone]
        simp only [pieces, if_true, List.map_cons, List.sum_cons, ← ih]
        simp
        omega
      · rcases hp : pieces rest with - | ⟨piece, others⟩
        · exact absurd hp (pieces_ne_nil rest)
        · rw [hp, List.map_cons, List.sum_cons] at ih
          simp only [pieces, hc, if_false, hp, List.map_cons, List.sum_cons, hcons]
          omega
  have htext := hpieces p.text.toList
  rw [String.ofList_toList] at htext
  rw [htext, segments, List.map_map]
  rfl

/-! ### The end of a path -/

/-- Whether nothing is written behind the last segment that counts. -/
def isClosed (p : Path) : Bool :=
  p.segments.getLast?.all counts

theorem EndsIn.isClosed {name : String} (h : p.EndsIn name) : p.isClosed := by
  obtain ⟨⟨before, hbefore⟩, hcounts, -⟩ := h
  simp [Path.isClosed, hbefore, hcounts]

/-- Text that does not end in a slash needs one. -/
theorem needsSlash_of_getLast? {s : String} (h : p.segments.getLast? = some s) (hs : s ≠ "") :
    needsSlash p.text := by
  rcases htext : p.text.toList.getLast? with - | c
  · have hempty : p = ⟨""⟩ := congrArg mk (by simpa using htext)
    rw [hempty] at h
    exact absurd (Option.some.inj h).symm hs
  · by_cases hc : c = '/'
    · -- behind a slash at the end there is nothing
      obtain ⟨cs, hcs⟩ := List.getLast?_eq_some_iff.1 htext
      have hp : p = ⟨String.ofList cs ++ "/" ++ ""⟩ := by
        refine congrArg mk ?_
        rw [← String.ofList_toList (s := p.text), hcs, hc]
        simp [String.ofList_append]
      rw [hp, segments_slash, List.getLast?_append] at h
      exact absurd (Option.some.inj h).symm hs
    · simp [needsSlash, htext, hc]

/-- A joined path ends with what is joined to it. -/
theorem segments_join (p q : Path) : ∃ before, (p.join q).segments = before ++ q.segments := by
  by_cases habsolute : q.isAbsolute
  · rw [join_of_isAbsolute habsolute]
    exact ⟨[], rfl⟩
  · unfold join
    rw [if_neg habsolute]
    split
    · exact ⟨_, segments_slash p.text q.text⟩
    · rename_i hslash
      rcases htext : p.text.toList.getLast? with - | c
      · have hempty : p.text = "" := by simpa using htext
        rw [hempty, String.empty_append]
        exact ⟨[], rfl⟩
      · obtain rfl : c = '/' := by simpa [needsSlash, htext] using hslash
        obtain ⟨cs, hcs⟩ := List.getLast?_eq_some_iff.1 htext
        have hjoined : p.text ++ q.text = String.ofList cs ++ "/" ++ q.text := by
          rw [← String.ofList_toList (s := p.text), hcs]
          simp [String.ofList_append]
        rw [hjoined]
        exact ⟨_, segments_slash _ _⟩

theorem EndsIn.join {name : String} (h : q.EndsIn name) (p : Path) : (p.join q).EndsIn name := by
  obtain ⟨⟨before, hbefore⟩, hname⟩ := h
  obtain ⟨front, hfront⟩ := p.segments_join q
  refine ⟨⟨front ++ before, ?_⟩, hname⟩
  rw [hfront, hbefore, List.append_assoc]

theorem isClosed_join (p q : Path) : (p.join q).isClosed = q.isClosed := by
  obtain ⟨front, hfront⟩ := p.segments_join q
  obtain ⟨s, hs⟩ := Option.ne_none_iff_exists'.1 (mt List.getLast?_eq_none_iff.1 q.segments_ne_nil)
  simp [isClosed, hfront, List.getLast?_append, hs]

theorem isAbsolute_join_of_isAbsolute (h : p.isAbsolute) (q : Path) : (p.join q).isAbsolute := by
  by_cases hq : q.isAbsolute
  · rw [join_of_isAbsolute hq]
    exact hq
  · rw [isAbsolute_join hq (text_ne_of_isAbsolute h)]
    exact h

/-! ### Paths that say the same -/

theorem part_injective : Function.Injective part := by
  intro s t h
  by_cases hs : s = ".." <;> by_cases ht : t = ".." <;> simp_all [part]

theorem parts_of_isAbsolute (h : p.isAbsolute) : p.parts = .root :: p.counted.map part := by
  obtain ⟨front, hparts, ⟨-, rfl⟩ | ⟨hnot, -⟩⟩ := p.parts_eq
  · exact hparts
  · exact absurd h hnot

/-- Absolute paths say the same if the same counts. -/
theorem same_iff_of_isAbsolute (hp : p.isAbsolute) (hq : q.isAbsolute) :
    p.same q ↔ p.counted = q.counted := by
  unfold same
  rw [parts_of_isAbsolute hp, parts_of_isAbsolute hq, beq_iff_eq, List.cons.injEq]
  simp [part_injective.list_map.eq_iff]

end Path

namespace FileTree

variable {tree place found : FileTree} {around : List FileTree} {p : Path}

/-! ### Following what counts -/

/-- Where a path leads: behind a file nothing may be written. -/
def settle (closed : Bool) : FileTree → Except FileError FileTree
  | .file content => if closed then .ok (.file content) else .error .notFolder
  | .folder entries => .ok (.folder entries)

section

variable {entries : List (String × FileTree)} {segment : String} {rest : List String}

theorem follow_skip (h : ¬ Path.counts segment) :
    follow around (.folder entries) (segment :: rest) = follow around (.folder entries) rest := by
  rw [follow_folder, if_pos (by simpa using h)]

theorem follow_up :
    follow around (.folder entries) (".." :: rest) = match around with
      | [] => follow [] (.folder entries) rest
      | outer :: around => follow around outer rest :=
  (follow_folder around entries ".." rest).trans ((if_neg (by decide)).trans (if_pos rfl))

theorem follow_name (h : Path.counts segment) (hup : segment ≠ "..") :
    follow around (.folder entries) (segment :: rest) =
      if segment.utf8ByteSize > maxName then .error .nameTooLong
      else
        match entries.lookup segment with
        | some inner => follow (.folder entries :: around) inner rest
        | none => .error .notFound :=
  (follow_folder around entries segment rest).trans
    ((if_neg (by simp [h])).trans (if_neg hup))

end

/-- Of some segments it is enough to follow those that count. -/
theorem follow_eq (around : List FileTree) (place : FileTree) (segments : List String) :
    follow around place segments = (follow around place (segments.filter Path.counts)).bind
      (settle (segments.getLast?.all Path.counts)) := by
  induction segments generalizing around place with
  | nil => cases place <;> rfl
  | cons segment rest ih =>
    cases place with
    | file content =>
      -- nothing is followed behind a file, be it something that counts or not
      rcases hfilter : (segment :: rest).filter Path.counts with - | ⟨first, others⟩
      · have hlast : (segment :: rest).getLast?.all Path.counts = false := by
          rw [List.getLast?_eq_some_getLast (List.cons_ne_nil segment rest), Option.all_some]
          exact Bool.eq_false_iff.2 (List.filter_eq_nil_iff.1 hfilter _ (List.getLast_mem _))
        rw [hlast]
        rfl
      · rfl
    | folder entries =>
      by_cases hcounts : Path.counts segment
      · rw [List.filter_cons_of_pos hcounts]
        have hend : rest.getLast?.all Path.counts = (segment :: rest).getLast?.all Path.counts := by
          rcases rest with - | ⟨next, rest⟩
          · simp [hcounts]
          · rw [List.getLast?_cons_cons]
        rw [hend] at ih
        by_cases hup : segment = ".."
        · rw [hup, follow_up, follow_up]
          rcases around with - | ⟨outer, around⟩
          · exact hup ▸ ih [] _
          · exact hup ▸ ih around outer
        · rw [follow_name hcounts hup, follow_name hcounts hup]
          split
          · rfl
          · split
            · exact ih _ _
            · rfl
      · rw [List.filter_cons_of_neg hcounts, follow_skip hcounts, ih around]
        rcases rest with - | ⟨next, rest⟩
        · rfl
        · rw [List.getLast?_cons_cons]

/-- **What is found at a path** is decided by what counts of it, by its end and by its length. -/
theorem find_eq (h : p.text ≠ "") : tree.find p =
    if p.counted.any (·.toList.contains '\x00') then .error .badName
    else if p.text.utf8ByteSize > maxPath then .error .nameTooLong
    else (follow [] tree p.counted).bind (settle p.isClosed) := by
  have hnul : p.text.toList.contains '\x00' = p.counted.any (·.toList.contains '\x00') := by
    rw [Bool.eq_iff_iff, List.contains_iff_mem, List.any_eq_true,
      Path.mem_text_iff (by decide) (by decide)]
    simp
  unfold find
  rw [hnul]
  split
  · rfl
  · split
    · rfl
    · rw [follow_eq]
      rfl

/-! ### Following names -/

/-- Having come to a place, one goes on from there. -/
theorem follow_append {segments : List String}
    (h : follow around place segments = .ok found) :
    ∃ around', ∀ rest, follow around place (segments ++ rest) = follow around' found rest := by
  induction segments generalizing around place with
  | nil =>
    cases h
    exact ⟨around, fun _ => rfl⟩
  | cons segment segments ih =>
    cases place with
    | file content => cases h
    | folder entries =>
      simp only [List.cons_append]
      by_cases hcounts : Path.counts segment
      · by_cases hup : segment = ".."
        · subst hup
          simp only [follow_up] at h ⊢
          rcases around with - | ⟨outer, around⟩
          · exact ih h
          · exact ih h
        · simp only [follow_name hcounts hup] at h ⊢
          split at h
          · cases h
          · rename_i hsize
            simp only [if_neg hsize]
            split at h
            · exact ih h
            · cases h
      · simp only [follow_skip hcounts] at h ⊢
        exact ih h

/-- Without going up, one does not come to the folders around. -/
theorem follow_of_not_mem {names : List String} (h : ".." ∉ names) (around around' : List FileTree)
    (place : FileTree) : follow around place names = follow around' place names := by
  induction names generalizing around around' place with
  | nil => rfl
  | cons name names ih =>
    obtain ⟨hname, hnames⟩ := not_or.1 (mt List.mem_cons.2 h)
    cases place with
    | file content => rfl
    | folder entries =>
      by_cases hcounts : Path.counts name
      · rw [follow_name hcounts (Ne.symm hname), follow_name hcounts (Ne.symm hname)]
        split
        · rfl
        · split
          · exact ih hnames _ _ _
          · rfl
      · rw [follow_skip hcounts, follow_skip hcounts]
        exact ih hnames around around' _

end FileTree

end Timeline
