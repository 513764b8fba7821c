/-
Timeline/Proofs/Document/Routes.lean

Where paths lead, as the names on the way from the root.

A path is a text, and paths are joined and cut as texts.  What counts of a path are
its segments that are no points and not empty; `Path.routeFrom` follows them from a
folder that is given by its own route.  Joining and cutting texts does to routes what
it should: a joined path leads on from where its base leads to (`routeFrom_join`), and
the path without its last name leads to the folder of the file
(`EndsIn.routeFrom_parent`).
-/
import Mathlib
import Timeline.Document.Include

namespace Timeline

namespace Path

variable {p q : Path} {dir : List String}

/-! ### Segments that count -/

/-- The segments of a path that count. -/
def counted (p : Path) : List String :=
  p.segments.filter counts

theorem segments_ne_nil (p : Path) : p.segments ≠ [] := by
  simp [segments, pieces_ne_nil]

theorem segments_slash (s t : String) :
    (⟨s ++ "/" ++ t⟩ : Path).segments = (⟨s⟩ : Path).segments ++ (⟨t⟩ : Path).segments := by
  have htext : (s ++ "/" ++ t).toList = s.toList ++ '/' :: t.toList := by simp
  simp only [segments, htext, pieces_append_slash, List.map_append]

/-- A path starts at the root exactly if there is nothing before its first slash. -/
theorem isAbsolute_iff : p.isAbsolute ↔ ∃ cs, p.text.toList = '/' :: cs := by
  rcases htext : p.text.toList with - | ⟨c, cs⟩ <;> simp [isAbsolute, htext]

theorem text_ne_of_isAbsolute (h : p.isAbsolute) : p.text ≠ "" := by
  obtain ⟨cs, hcs⟩ := isAbsolute_iff.1 h
  intro hempty
  rw [hempty] at hcs
  cases hcs

theorem segments_of_isAbsolute (h : p.isAbsolute) : ∃ rest, p.segments = "" :: rest := by
  obtain ⟨cs, hcs⟩ := isAbsolute_iff.1 h
  exact ⟨(pieces cs).map String.ofList, by simp [segments, hcs, pieces]⟩

/-- The three fronts that a path may have. -/
theorem front_cases (p : Path) :
    (p.isAbsolute ∧ p.front = "/") ∨
    (¬ p.isAbsolute ∧ p.front = "." ∧ ∃ rest, p.segments = "." :: rest) ∨
    (¬ p.isAbsolute ∧ p.front = "" ∧ p.segments.head? ≠ some ".") := by
  by_cases habsolute : p.isAbsolute
  · exact .inl ⟨habsolute, if_pos habsolute⟩
  · by_cases hpoint : p.segments.head? = some "."
    · refine .inr (.inl ⟨habsolute, ?_, List.head?_eq_some_iff.1 hpoint⟩)
      rw [front, if_neg habsolute, if_pos hpoint]
    · refine .inr (.inr ⟨habsolute, ?_, hpoint⟩)
      rw [front, if_neg habsolute, if_neg hpoint]

/-- All that counts of a path is in its body. -/
theorem filter_body (p : Path) : p.body.filter counts = p.counted := by
  rcases p.front_cases with ⟨habsolute, hfront⟩ | ⟨-, hfront, rest, hrest⟩ | ⟨-, hfront, -⟩
  · obtain ⟨rest, hrest⟩ := segments_of_isAbsolute habsolute
    simp [body, counted, hfront, hrest, counts]
  · simp [body, counted, hfront, hrest, counts]
  · simp [body, counted, hfront]

/-- The parts of a path are its front and the segments that count. -/
theorem parts_eq (p : Path) : ∃ front : List Part,
    p.parts = front ++ p.counted.map part ∧
      (p.isAbsolute ∧ front = [.root] ∨ ¬ p.isAbsolute ∧ (front = [.here] ∨ front = [])) := by
  unfold parts
  rw [filter_body]
  rcases p.front_cases with ⟨habsolute, hfront⟩ | ⟨hnot, hfront, -⟩ | ⟨hnot, hfront, -⟩
  · exact ⟨_, rfl, .inl ⟨habsolute, by rw [hfront]; rfl⟩⟩
  · exact ⟨_, rfl, .inr ⟨hnot, .inl (by rw [hfront]; rfl)⟩⟩
  · exact ⟨_, rfl, .inr ⟨hnot, .inr (by rw [hfront]; rfl)⟩⟩

/-! ### Routes -/

/-- Follow a part of a path; what was passed so far is given by its names, the last one first. -/
def walk (passed : List String) : Part → List String
  | .root => []
  | .here => passed
  | .up => passed.tail
  | .name s => s :: passed

/-- The names that lead from the root to where a path leads from a folder. -/
def routeFrom (dir : List String) (p : Path) : List String :=
  (p.parts.foldl walk dir.reverse).reverse

theorem routeFrom_eq (dir : List String) (p : Path) :
    p.routeFrom dir = ((p.counted.map part).foldl walk
      (if p.isAbsolute then [] else dir.reverse)).reverse := by
  obtain ⟨front, hparts, ⟨habsolute, rfl⟩ | ⟨hnot, rfl | rfl⟩⟩ := p.parts_eq
  · simp [routeFrom, hparts, habsolute, walk]
  · simp [routeFrom, hparts, hnot, walk]
  · simp [routeFrom, hparts, hnot]

/-- Paths that say the same lead to the same place. -/
theorem routeFrom_of_same (h : p.same q) : p.routeFrom dir = q.routeFrom dir := by
  have hparts : p.parts = q.parts := by simpa [same] using h
  rw [routeFrom, routeFrom, hparts]

/-! ### Joining -/

theorem counted_empty : (⟨""⟩ : Path).counted = [] := by
  simp [counted, segments, pieces, counts]

/-- What counts of a joined path is what counts of its base and then what counts behind. -/
theorem counted_join (h : ¬ q.isAbsolute) (p : Path) :
    (p.join q).counted = p.counted ++ q.counted := by
  unfold join
  rw [if_neg h]
  by_cases hslash : needsSlash p.text
  · rw [if_pos hslash, counted, segments_slash, List.filter_append]
    rfl
  · rw [if_neg hslash]
    rcases htext : p.text.toList.getLast? with - | c
    · have hempty : p.text = "" := by simpa using htext
      have hp : p = ⟨""⟩ := congrArg Path.mk hempty
      rw [hp, counted_empty]
      simp
    · -- the base ends with the slash that divides it from what is behind
      obtain rfl : c = '/' := by simpa [needsSlash, htext] using hslash
      obtain ⟨cs, hcs⟩ := List.getLast?_eq_some_iff.1 htext
      have hbase : p.text = String.ofList cs ++ "/" ++ "" := by
        rw [← String.ofList_toList (s := p.text), hcs]
        simp [String.ofList_append]
      have hjoined : p.text ++ q.text = String.ofList cs ++ "/" ++ q.text := by
        rw [hbase]
        simp
      have hp : p = ⟨String.ofList cs ++ "/" ++ ""⟩ := congrArg Path.mk hbase
      rw [hjoined, counted, segments_slash, List.filter_append]
      conv_rhs => rw [hp, counted, segments_slash, List.filter_append]
      simp [segments, pieces, counts, counted]

theorem isAbsolute_join (h : ¬ q.isAbsolute) (hp : p.text ≠ "") :
    (p.join q).isAbsolute = p.isAbsolute := by
  have hne : p.text.toList ≠ [] := by simpa using hp
  obtain ⟨c, cs, hcs⟩ := List.exists_cons_of_ne_nil hne
  unfold join
  rw [if_neg h]
  split <;> simp [isAbsolute, hcs]

/-- A joined path leads on from where its base leads to. -/
theorem routeFrom_join (p q : Path) :
    (p.join q).routeFrom dir = q.routeFrom (p.routeFrom dir) := by
  by_cases habsolute : q.isAbsolute
  · rw [join_of_isAbsolute habsolute, routeFrom_eq, routeFrom_eq, if_pos habsolute, if_pos habsolute]
  · by_cases hempty : p.text = ""
    · have hp : p = ⟨""⟩ := congrArg Path.mk hempty
      have hself : (⟨""⟩ : Path).routeFrom dir = dir := by
        rw [routeFrom_eq, counted_empty]
        simp [isAbsolute]
      rw [hp, join_empty_base, hself]
    · rw [routeFrom_eq, routeFrom_eq dir p, routeFrom_eq _ q, counted_join habsolute,
        isAbsolute_join habsolute hempty, if_neg habsolute, List.map_append, List.foldl_append,
        List.reverse_reverse]

/-! ### Cutting -/

theorem not_mem_of_mem_pieces {cs piece : List Char} (h : piece ∈ pieces cs) : '/' ∉ piece := by
  induction cs generalizing piece with
  | nil =>
    obtain rfl : piece = [] := by simpa [pieces] using h
    simp
  | cons c rest ih =>
    by_cases hc : c = '/'
    · rcases List.mem_cons.1 (by simpa [pieces, hc] using h : piece ∈ [] :: pieces rest) with rfl | h
      · simp
      · exact ih h
    · rcases hp : pieces rest with - | ⟨first, others⟩
      · exact absurd hp (pieces_ne_nil rest)
      · rw [hp] at ih
        have hpieces : piece ∈ (c :: first) :: others := by simpa [pieces, hc, hp] using h
        rcases List.mem_cons.1 hpieces with rfl | h
        · simpa [Ne.symm hc] using ih List.mem_cons_self
        · exact ih (List.mem_cons_of_mem _ h)

/-- No segment has a slash. -/
theorem not_mem_of_mem_segments {segment : String} (h : segment ∈ p.segments) :
    '/' ∉ segment.toList := by
  obtain ⟨piece, hpiece, rfl⟩ := List.mem_map.1 h
  simpa using not_mem_of_mem_pieces hpiece

theorem segments_of_not_mem {s : String} (h : '/' ∉ s.toList) : (⟨s⟩ : Path).segments = [s] := by
  simp [segments, pieces_of_not_mem h]

/-- What is put together from segments has these segments. -/
theorem segments_intercalate {segments : List String} (h : ∀ s ∈ segments, '/' ∉ s.toList)
    (hne : segments ≠ []) : (⟨"/".intercalate segments⟩ : Path).segments = segments := by
  induction segments with
  | nil => exact absurd rfl hne
  | cons s rest ih =>
    have hs := segments_of_not_mem (h s List.mem_cons_self)
    by_cases hrest : rest = []
    · rw [hrest, String.intercalate_singleton]
      exact hs
    · rw [String.intercalate_cons_of_ne_nil hrest, segments_slash, hs,
        ih (fun s hs => h s (List.mem_cons_of_mem _ hs)) hrest]
      rfl

theorem counted_intercalate {segments : List String} (h : ∀ s ∈ segments, '/' ∉ s.toList) :
    (⟨"/".intercalate segments⟩ : Path).counted = segments.filter counts := by
  by_cases hne : segments = []
  · rw [hne, String.intercalate_nil]
    exact counted_empty
  · rw [counted, segments_intercalate h hne]

/-- Behind the root or a point in front, the same counts. -/
theorem counted_front {segments : List String} (h : ∀ s ∈ segments, '/' ∉ s.toList)
    {front : String} (hfront : front = "/" ∨ front = "." ∧ (∀ s, segments.head? = some s → s = "") ∨
      front = "") :
    (⟨front ++ "/".intercalate segments⟩ : Path).counted = segments.filter counts := by
  rcases hfront with rfl | ⟨rfl, hhead⟩ | rfl
  · have htext : "/" ++ "/".intercalate segments = "" ++ "/" ++ "/".intercalate segments := by simp
    rw [htext, counted, segments_slash, List.filter_append, ← counted_intercalate h]
    simp [Path.segments, pieces, counts, counted]
  · rcases segments with - | ⟨first, rest⟩
    · simp [counted, Path.segments, pieces, counts]
    · obtain rfl := hhead first rfl
      by_cases hrest : rest = []
      · simp [hrest, counted, Path.segments, pieces, counts]
      · have htext : "." ++ "/".intercalate ("" :: rest) = "." ++ "/" ++ "/".intercalate rest := by
          rw [String.intercalate_cons_of_ne_nil hrest, ← String.toList_inj]
          simp
        rw [htext, counted, segments_slash, List.filter_append]
        have hcounted := counted_intercalate fun s hs => h s (List.mem_cons_of_mem _ hs)
        rw [counted] at hcounted
        rw [hcounted]
        simp [Path.segments, pieces, counts]
  · rw [String.empty_append]
    exact counted_intercalate h

theorem filter_rdropWhile {α : Type} (f : α → Bool) (l : List α) :
    (l.rdropWhile fun a => !f a).filter f = l.filter f := by
  have hdrop (l : List α) : (l.dropWhile fun a => !f a).filter f = l.filter f := by
    induction l with
    | nil => rfl
    | cons a l ih =>
      by_cases ha : f a
      · rw [List.dropWhile_cons_of_neg (by simp [ha])]
      · rw [List.dropWhile_cons_of_pos (by simp [ha]), ih, List.filter_cons_of_neg ha]
  rw [List.rdropWhile, List.filter_reverse, hdrop, List.filter_reverse, List.reverse_reverse]

/-- If nothing stands before the first slash of a path, it starts there. -/
theorem isAbsolute_of_segments {s : String} {rest : List String}
    (h : p.segments = "" :: s :: rest) : p.isAbsolute := by
  rcases htext : p.text.toList with - | ⟨c, cs⟩
  · simp [segments, htext, pieces] at h
  · by_cases hc : c = '/'
    · rw [isAbsolute_iff, htext, hc]
      exact ⟨cs, rfl⟩
    · rcases hp : pieces cs with - | ⟨first, others⟩
      · exact absurd hp (pieces_ne_nil cs)
      · simp [segments, htext, pieces, hc, hp] at h

theorem not_mem_of_segments {s : String} (h : p.segments = [s]) : '/' ∉ p.text.toList := by
  intro hslash
  obtain ⟨before, behind, htext⟩ := List.append_of_mem hslash
  have hlength := congrArg List.length h
  rw [segments, htext, pieces_append_slash, List.map_append] at hlength
  have hbefore := List.length_pos_of_ne_nil (pieces_ne_nil before)
  have hbehind := List.length_pos_of_ne_nil (pieces_ne_nil behind)
  simp at hlength
  omega

/-- The last segment of a path is a name. -/
def EndsIn (p : Path) (name : String) : Prop :=
  (∃ before, p.segments = before ++ [name]) ∧ counts name ∧ name ≠ ".."

/-- If it ends in a name, so does its body; behind a point in front the body begins with a slash. -/
theorem EndsIn.body {name : String} (h : p.EndsIn name) :
    ∃ inner, p.body = inner ++ [name] ∧ (p.front = "." → ∃ rest, inner = "" :: rest) ∧
      (p.front = "" → p.segments = inner ++ [name]) ∧ ∀ s ∈ inner, '/' ∉ s.toList := by
  obtain ⟨⟨before, hbefore⟩, hcounts, -⟩ := h
  have hslash : ∀ s ∈ before, '/' ∉ s.toList := fun s hs =>
    not_mem_of_mem_segments (p := p) (by rw [hbefore]; exact List.mem_append_left _ hs)
  have htail {first : String} {rest : List String} (hfirst : counts first = false)
      (hrest : p.segments = first :: rest) : ∃ inner, before = first :: inner ∧
        rest = inner ++ [name] := by
    rw [hbefore] at hrest
    rcases before with - | ⟨s, inner⟩
    · obtain ⟨rfl, -⟩ := List.cons.inj hrest
      cases hfirst.symm.trans hcounts
    · obtain ⟨rfl, rfl⟩ := List.cons.inj hrest
      exact ⟨inner, rfl, rfl⟩
  rcases p.front_cases with ⟨habsolute, hfront⟩ | ⟨-, hfront, rest, hrest⟩ | ⟨-, hfront, -⟩
  · obtain ⟨rest, hrest⟩ := segments_of_isAbsolute habsolute
    obtain ⟨inner, rfl, rfl⟩ := htail rfl hrest
    refine ⟨inner, by simp [Path.body, hfront, hrest], by simp [hfront], by simp [hfront], ?_⟩
    exact fun s hs => hslash s (List.mem_cons_of_mem _ hs)
  · obtain ⟨inner, rfl, rfl⟩ := htail rfl hrest
    refine ⟨"" :: inner, by simp [Path.body, hfront, hrest], fun _ => ⟨inner, rfl⟩, by simp [hfront],
      ?_⟩
    intro s hs
    rcases List.mem_cons.1 hs with rfl | hs
    · simp
    · exact hslash s (List.mem_cons_of_mem _ hs)
  · exact ⟨before, by simp [Path.body, hfront, hbefore], by simp [hfront], fun _ => hbefore, hslash⟩

/-- What is kept ends with what counts; so if nothing is written, nothing is kept. -/
theorem eq_nil_of_intercalate {inner kept : List String}
    (hkept : kept = inner.rdropWhile fun s => !counts s) (hslash : ∀ s ∈ kept, '/' ∉ s.toList)
    (hempty : "/".intercalate kept = "") : kept = [] := by
  by_contra hne
  have hsegments := segments_intercalate hslash hne
  rw [hempty] at hsegments
  obtain rfl : kept = [""] := hsegments.symm
  have hlast := List.rdropWhile_last_not (fun s => !counts s) inner (hkept ▸ hne)
  simp only [← hkept] at hlast
  exact hlast rfl

/-- A path without a front has no slash if nothing counts before its last name. -/
theorem not_mem_of_plain {inner : List String} {name : String} (hfront : p.front = "")
    (hsegments : p.segments = inner ++ [name]) (hinner : ∀ s ∈ inner, counts s = false) :
    '/' ∉ p.text.toList := by
  rcases inner with - | ⟨first, more⟩
  · exact not_mem_of_segments hsegments
  · exfalso
    have hfirst : first = "" ∨ first = "." := by
      simpa [counts, Classical.or_iff_not_imp_left] using hinner first List.mem_cons_self
    rcases p.front_cases with ⟨-, hroot⟩ | ⟨-, hpoint, -⟩ | ⟨hnot, -, hhead⟩
    · exact absurd (hroot.symm.trans hfront) (by decide)
    · exact absurd (hpoint.symm.trans hfront) (by decide)
    · rcases hfirst with rfl | rfl
      · rcases hmore : more ++ [name] with - | ⟨s, rest⟩
        · simp at hmore
        · rw [List.cons_append, hmore] at hsegments
          exact hnot (isAbsolute_of_segments hsegments)
      · rw [hsegments] at hhead
        exact hhead rfl

/-- The folder of a path that ends in a name. -/
theorem EndsIn.parent? {name : String} (h : p.EndsIn name) :
    ∃ folder, p.parent? = some folder ∧ p.counted = folder.counted ++ [name] ∧
      (p.isAbsolute → folder.isAbsolute) ∧ (folder.text = "" → '/' ∉ p.text.toList) := by
  obtain ⟨inner, hbody, hpoint, hplain, hslash⟩ := h.body
  have hcounts := h.2.1
  obtain ⟨kept, hkept⟩ : ∃ kept, kept = inner.rdropWhile fun s => !counts s := ⟨_, rfl⟩
  have hparent : p.parent? = some ⟨p.front ++ "/".intercalate kept⟩ := by
    have htrim : trim p.body.reverse = name :: inner.reverse := by
      rw [hbody, List.reverse_append]
      simp [trim, hcounts]
    rw [Path.parent?, htrim, hkept]
    rfl
  have hprefix : kept <+: inner := hkept ▸ List.rdropWhile_prefix _ _
  obtain ⟨dropped, hdropped⟩ := hprefix
  have hfilter : kept.filter counts = inner.filter counts := hkept ▸ filter_rdropWhile counts inner
  have hkeptSlash : ∀ s ∈ kept, '/' ∉ s.toList := fun s hs =>
    hslash s (hdropped ▸ List.mem_append_left _ hs)
  have hfront : p.front = "/" ∨ p.front = "." ∧ (∀ s, kept.head? = some s → s = "") ∨
      p.front = "" := by
    rcases p.front_cases with ⟨-, hfront⟩ | ⟨-, hfront, -⟩ | ⟨-, hfront, -⟩
    · exact .inl hfront
    · refine .inr (.inl ⟨hfront, fun s hs => ?_⟩)
      obtain ⟨rest, rfl⟩ := hpoint hfront
      obtain ⟨more, rfl⟩ := List.head?_eq_some_iff.1 hs
      exact (List.cons.inj hdropped).1
    · exact .inr (.inr hfront)
  refine ⟨_, hparent, ?_, ?_, ?_⟩
  · rw [counted_front hkeptSlash hfront, hfilter, ← filter_body, hbody, List.filter_append]
    simp [hcounts]
  · intro habsolute
    have hroot : p.front = "/" := if_pos habsolute
    simp [isAbsolute, hroot]
  · intro hempty
    obtain ⟨hnone, hrest⟩ : p.front = "" ∧ "/".intercalate kept = "" :=
      String.append_eq_empty_iff.1 hempty
    obtain rfl := eq_nil_of_intercalate hkept hkeptSlash hrest
    exact not_mem_of_plain hnone (hplain hnone) fun s hs =>
      Bool.eq_false_iff.2 (List.filter_eq_nil_iff.1 hfilter.symm s hs)

/-- The folder of a file is where the route to the file leads without its last name. -/
theorem EndsIn.routeFrom_parent {name : String} (h : p.EndsIn name) {folder : Path}
    (hfolder : p.parent? = some folder) :
    p.routeFrom [] = folder.routeFrom [] ++ [name] := by
  obtain ⟨folder', hparent, hcounted, -, -⟩ := h.parent?
  obtain rfl := Option.some.inj (hfolder.symm.trans hparent)
  have hstart (q : Path) : (if q.isAbsolute then [] else ([] : List String).reverse) = [] := by
    split <;> rfl
  rw [routeFrom_eq, routeFrom_eq, hstart, hstart, hcounted, List.map_append, List.foldl_append]
  simp [part, h.2.2, walk]

end Path

end Timeline
