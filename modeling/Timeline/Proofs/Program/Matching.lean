/-
Timeline/Proofs/Program/Matching.lean

The check of brackets and the skipping of branches see the same conditionals.

The check goes through a program from its start with a stack of open conditionals
(`Program.pendingBefore`); whoever skips a branch starts in the middle and has a counter
only.  `Program.Scans` is the scan for the end of a branch with a counter that is free to
become negative.  As long as it goes on, what the stack has above its height at the start
is counted (`Scans.openBefore`), so it stops where the conditional that it started in is
met as the innermost one.

Main result (`Program.skipBranch_meets`): in every program, a conditional that is not taken
is left behind the first divider, or else the closing, that the check meets for it, and its
first branch is left behind that closing; without one the end of the program is reached,
and the conditional is reported.
-/
import Timeline.Proofs.Program.Brackets
import Timeline.Proofs.Program.Mismatches

namespace Timeline.Program

variable {p : Program} {start i j k e m : Nat} {atElse : Bool} {b : Bracket} {d : Int}

/-! ### The stack of the check -/

/-- The open conditionals that the check holds when it comes to an index. -/
def pendingBefore (p : Program) : Nat → List OpenIf
  | 0 => []
  | index + 1 =>
    match p.steps[index]? with
    | some s => follow (p.pendingBefore index) index s
    | none => p.pendingBefore index

/-- The check goes on from an index with the conditionals that it holds there. -/
theorem unbalanced_eq_append {index : Nat} (h : index ≤ p.length) : ∃ errors, p.unbalanced
    = errors ++ checkBrackets index (p.steps.drop index) (p.pendingBefore index) := by
  induction index with
  | zero => exact ⟨[], rfl⟩
  | succ index ih =>
    obtain ⟨errors, herrors⟩ := ih (by omega)
    have hs : p.steps[index]? = some p.steps[index] := List.getElem?_eq_getElem h
    rw [List.drop_eq_getElem_cons h, checkBrackets_cons, ← List.append_assoc] at herrors
    refine ⟨_, herrors.trans (congrArg _ ?_)⟩
    rw [pendingBefore, hs]

theorem tracks_pendingBefore {index : Nat} (h : index ≤ p.length) :
    p.Tracks index (p.pendingBefore index) := by
  induction index with
  | zero => exact p.tracks_zero
  | succ index ih =>
    have hs : p.steps[index]? = some p.steps[index] := List.getElem?_eq_getElem h
    rw [pendingBefore, hs]
    exact (ih (by omega)).step hs

/-- The check comes to a bracket while the conditional that is opened at `i` is the innermost one. -/
def Meets (p : Program) (i : Nat) (b : Bracket) (j : Nat) : Prop :=
  p.bracketAt? j = some b ∧ ∃ o, (p.pendingBefore j).head? = some o ∧ o.location.index = i

theorem lt_length_of_bracketAt? (h : p.bracketAt? j = some b) : j < p.length := by
  refine Nat.lt_of_not_le fun hle => ?_
  rw [bracketAt?, step?_eq_none_iff.2 hle] at h
  cases h

theorem meets_iff :
    p.Meets i b j ↔ p.bracketAt? j = some b ∧ (p.openBefore j).head? = some i := by
  refine and_congr_right fun hb => ?_
  rw [← (tracks_pendingBefore (Nat.le_of_lt (lt_length_of_bracketAt? hb))).indices, List.head?_map,
    Option.map_eq_some_iff]

/-! ### Open until closed -/

/-- Once a conditional is not open any more, it stays so. -/
theorem not_mem_openBefore_of_le (hlt : i < j) (h : i ∉ p.openBefore j) (hle : j ≤ k) :
    i ∉ p.openBefore k := by
  induction hle with
  | refl => exact h
  | @step k hle ih =>
    have hle : j ≤ k := hle
    rw [openBefore]
    split
    · intro hmem
      rcases List.mem_cons.1 hmem with rfl | hmem
      · omega
      · exact ih hmem
    · exact fun hmem => ih (List.mem_of_mem_tail hmem)
    · exact ih

theorem Meets.mem (h : p.Meets i b j) : i ∈ p.openBefore j :=
  List.mem_of_head? (meets_iff.1 h).2

theorem Meets.lt (h : p.Meets i b j) : i < j :=
  ((p.openBefore_spec j).2 i h.mem).1

/-- A conditional is not open behind its closing. -/
theorem Meets.not_mem_openBefore (h : p.Meets i .closing e) (hlt : e < j) :
    i ∉ p.openBefore j := by
  refine not_mem_openBefore_of_le (Nat.lt_succ_of_lt h.lt) ?_ hlt
  obtain ⟨hb, hhead⟩ := meets_iff.1 h
  obtain ⟨outer, houter⟩ : ∃ outer, p.openBefore e = i :: outer := List.head?_eq_some_iff.1 hhead
  have hsorted := (p.openBefore_spec e).1
  rw [houter] at hsorted
  rw [openBefore, hb, houter]
  exact fun hmem => Nat.lt_irrefl i (List.rel_of_pairwise_cons hsorted hmem)

theorem Meets.closing_unique (h : p.Meets i .closing e) (h' : p.Meets i .closing k) : e = k := by
  rcases Nat.lt_trichotomy e k with hlt | heq | hgt
  · exact absurd h'.mem (h.not_mem_openBefore hlt)
  · exact heq
  · exact absurd h.mem (h'.not_mem_openBefore hgt)

theorem mem_openBefore_succ (h : p.bracketAt? i = some .opening) : i ∈ p.openBefore (i + 1) := by
  rw [openBefore, h]
  exact List.mem_cons_self

/-- A conditional is open until it is closed. -/
theorem mem_openBefore_of_not_meets (h : p.bracketAt? i = some .opening) (hlt : i < j)
    (hnot : ∀ e < j, ¬ p.Meets i .closing e) : i ∈ p.openBefore j := by
  induction hlt with
  | refl => exact mem_openBefore_succ h
  | @step j hlt ih =>
    have hmem := ih fun e he => hnot e (by omega)
    rw [openBefore]
    split
    · exact List.mem_cons_of_mem _ hmem
    · rename_i hb
      rcases hopen : p.openBefore j with - | ⟨first, outer⟩
      · rw [hopen] at hmem
        cases hmem
      · rw [hopen] at hmem
        refine (List.mem_cons.1 hmem).resolve_left ?_
        rintro rfl
        exact hnot j (by omega) (meets_iff.2 ⟨hb, by rw [hopen]; rfl⟩)
    · exact hmem

/-- A conditional is reported exactly if it is never closed. -/
theorem unclosed_iff (h : p.bracketAt? i = some .opening) :
    (∃ e ∈ p.unbalanced, e.fault = .unclosedIf ∧ e.location.index = i) ↔
      ∀ e, ¬ p.Meets i .closing e := by
  have hopen : (∃ e ∈ p.unbalanced, e.fault = .unclosedIf ∧ e.location.index = i) ↔
      i ∈ p.openBefore p.length := by
    constructor
    · rintro ⟨e, he, hfault, hindex⟩
      obtain ⟨i', s, hs, hlocation, hmismatched⟩ := mem_unbalanced_iff.1 he
      obtain rfl : i' = i := by rw [← hindex, hlocation]; rfl
      rw [hfault] at hmismatched
      rcases hmismatched with hstray | ⟨-, hmem, -⟩
      · cases hstray
      · exact hmem
    · intro hmem
      obtain ⟨step, hstep, -⟩ := Option.bind_eq_some_iff.1 h
      obtain ⟨s, hs, -⟩ := Option.map_eq_some_iff.1 hstep
      exact ⟨⟨s.locate i, .unclosedIf⟩,
        mem_unbalanced_iff.2 ⟨i, s, hs, rfl, .inr ⟨h, hmem, rfl⟩⟩, rfl, rfl⟩
  rw [hopen]
  constructor
  · intro hmem e he
    exact he.not_mem_openBefore (lt_length_of_bracketAt? he.1) hmem
  · intro hnot
    exact mem_openBefore_of_not_meets h (lt_length_of_bracketAt? h) fun e _ => hnot e

/-! ### The scan -/

/-- By how much a bracket changes the number of open conditionals. -/
def weight : Option Bracket → Int
  | some .opening => 1
  | some .closing => -1
  | _ => 0

/-- A scan ends a branch at an index. -/
def Stops (p : Program) (atElse : Bool) (j : Nat) (d : Int) : Prop :=
  (p.bracketAt? j = some .closing ∨ p.bracketAt? j = some .divider ∧ atElse) ∧ d = 0

/-- The scan for the end of the branch after `start` comes to an index, with a counter of the
conditionals that opened on the way. -/
inductive Scans (p : Program) (start : Nat) (atElse : Bool) : Nat → Int → Prop
  | first : Scans p start atElse (start + 1) 0
  | next {j : Nat} {d : Int} : Scans p start atElse j d → j < p.length → ¬ p.Stops atElse j d →
      Scans p start atElse (j + 1) (d + weight (p.bracketAt? j))

/-- A scan that comes to an index leads to a target: it ends there, or the program does. -/
def Ends (p : Program) (atElse : Bool) (j : Nat) (d : Int) (target : Nat) : Prop :=
  p.Stops atElse j d ∧ target = j + 1 ∨ j = p.length ∧ target = p.length

namespace Scans

theorem lt (h : p.Scans start atElse j d) : start < j := by
  induction h with
  | first => omega
  | next _ _ _ ih => omega

/-- A scan comes to every index on the way, and does not stop there. -/
theorem before (h : p.Scans start atElse j d) (hlt : start < k) (hk : k < j) :
    ∃ d', p.Scans start atElse k d' ∧ ¬ p.Stops atElse k d' := by
  induction h with
  | first => omega
  | next h _ hgoes ih =>
    rcases Nat.lt_succ_iff_lt_or_eq.1 hk with hk | rfl
    · exact ih hk
    · exact ⟨_, h, hgoes⟩

/-- **The counter of a scan is the height of the stack** above the conditionals that were open at
its start. -/
theorem openBefore (h : p.Scans start atElse j d) :
    ∃ inner, p.openBefore j = inner ++ p.openBefore (start + 1) ∧ d = inner.length ∧
      ∀ k ∈ inner, start < k := by
  induction h with
  | first => exact ⟨[], rfl, rfl, nofun⟩
  | @next j d h hlt hgoes ih =>
    obtain ⟨inner, hinner, hd, hlater⟩ := ih
    rw [Program.openBefore]
    rcases hb : p.bracketAt? j with - | ⟨- | - | -⟩
    · exact ⟨inner, hinner, by simpa [weight] using hd, hlater⟩
    · refine ⟨j :: inner, by simp [hinner], by simp [weight, hd], ?_⟩
      intro k hk
      rcases List.mem_cons.1 hk with rfl | hk
      · exact h.lt
      · exact hlater k hk
    · exact ⟨inner, hinner, by simpa [weight] using hd, hlater⟩
    · -- the scan would have stopped at a closing for none of the inner conditionals
      rcases inner with - | ⟨first, inner⟩
      · exact absurd ⟨.inl hb, by simpa using hd⟩ hgoes
      · refine ⟨inner, by simp [hinner], ?_, fun k hk => hlater k (List.mem_cons_of_mem _ hk)⟩
        rw [hd, List.length_cons]
        simp only [weight]
        omega

/-- The counter does not fall below zero. -/
theorem nonneg (h : p.Scans start atElse j d) : 0 ≤ d := by
  obtain ⟨inner, -, hd, -⟩ := h.openBefore
  omega

/-- The conditional in which a scan starts is the innermost one where nothing is counted. -/
theorem head?_iff (h : p.Scans start atElse j d)
    (hinside : (p.openBefore (start + 1)).head? = some i) :
    (p.openBefore j).head? = some i ↔ d = 0 := by
  obtain ⟨inner, hinner, hd, hlater⟩ := h.openBefore
  have hle : i ≤ start :=
    Nat.le_of_lt_succ ((p.openBefore_spec _).2 i (List.mem_of_head? hinside)).1
  rcases inner with - | ⟨first, inner⟩
  · rw [List.nil_append] at hinner
    exact iff_of_true (hinner ▸ hinside) hd
  · refine iff_of_false (fun hhead => ?_) (by simp at hd; omega)
    rw [hinner, List.cons_append, List.head?_cons, Option.some.injEq] at hhead
    have := hlater first List.mem_cons_self
    omega

/-- Wherever a scan has gone on, it has not met what it looks for. -/
theorem not_meets (h : p.Scans start atElse j d)
    (hinside : (p.openBefore (start + 1)).head? = some i) (hlt : start < k) (hk : k < j) :
    ¬ p.Meets i .closing k ∧ (atElse → ¬ p.Meets i .divider k) := by
  obtain ⟨d', hscans, hgoes⟩ := h.before hlt hk
  refine ⟨fun hmeets => ?_, fun hatElse hmeets => ?_⟩
  · obtain ⟨hb, hhead⟩ := meets_iff.1 hmeets
    exact hgoes ⟨.inl hb, (hscans.head?_iff hinside).1 hhead⟩
  · obtain ⟨hb, hhead⟩ := meets_iff.1 hmeets
    exact hgoes ⟨.inr ⟨hb, hatElse⟩, (hscans.head?_iff hinside).1 hhead⟩

/-- Where a scan stops, it has met what it looks for. -/
theorem meets_of_stops (h : p.Scans start atElse j d)
    (hinside : (p.openBefore (start + 1)).head? = some i) (hstops : p.Stops atElse j d) :
    p.Meets i .closing j ∨ p.Meets i .divider j ∧ atElse := by
  have hhead := (h.head?_iff hinside).2 hstops.2
  rcases hstops.1 with hb | ⟨hb, hatElse⟩
  · exact .inl (meets_iff.2 ⟨hb, hhead⟩)
  · exact .inr ⟨meets_iff.2 ⟨hb, hhead⟩, hatElse⟩

/-- A scan comes to an end, where whoever skips a branch goes on. -/
theorem exists_ends {n : Nat} (h : p.Scans start atElse j n) (hle : j ≤ p.length) :
    ∃ k d, p.Scans start atElse k d ∧
      p.Ends atElse k d (branchEnd atElse j (p.steps.drop j) n) := by
  induction hleft : p.length - j generalizing j n with
  | zero =>
    obtain rfl : j = p.length := by omega
    refine ⟨_, _, h, .inr ⟨rfl, ?_⟩⟩
    rw [length, List.drop_length]
    rfl
  | succ left ih =>
    have hlt : j < p.length := by omega
    have hb := bracketAt?_eq (List.getElem?_eq_getElem hlt)
    -- what is left, if the scan goes on with another number
    have hgo {n' : Nat} (hgoes : ¬ p.Stops atElse j n)
        (hn' : (n : Int) + weight (p.bracketAt? j) = n') : ∃ k d, p.Scans start atElse k d ∧
          p.Ends atElse k d (branchEnd atElse (j + 1) (p.steps.drop (j + 1)) n') := by
      have hnext := h.next hlt hgoes
      rw [hn'] at hnext
      exact ih hnext hlt (by omega)
    rw [List.drop_eq_getElem_cons hlt]
    rcases hbracket : p.steps[j].step.bracket? with - | ⟨- | - | -⟩ <;> rw [hbracket] at hb <;>
      simp only [branchEnd, hbracket]
    case none => exact hgo (by simp [Stops, hb]) (by simp [weight, hb])
    case some.opening => exact hgo (by simp [Stops, hb]) (by simp [weight, hb])
    case some.divider =>
      rcases n with - | n
      · cases atElse with
        | true => exact ⟨j, 0, h, .inl ⟨⟨.inr ⟨hb, rfl⟩, rfl⟩, rfl⟩⟩
        | false => exact hgo (by simp [Stops, hb]) (by rw [hb]; rfl)
      · refine hgo (fun hstops => ?_) (by simp [weight, hb])
        have := hstops.2
        omega
    case some.closing =>
      rcases n with - | n
      · exact ⟨j, 0, h, .inl ⟨⟨.inl hb, rfl⟩, rfl⟩⟩
      · refine hgo (fun hstops => ?_) ?_
        · have := hstops.2
          omega
        · rw [hb]
          simp only [weight]
          omega

end Scans

/-! ### Skipping -/

theorem exists_skip (hstart : start < p.length) (atElse : Bool) :
    ∃ j d, p.Scans start atElse j d ∧ p.Ends atElse j d (p.skipBranch start atElse) :=
  Scans.exists_ends .first hstart

/-- Skipping leads onwards, at most to the end of the program. -/
theorem skipBranch_mem_Ioc (hstart : start < p.length) :
    start < p.skipBranch start atElse ∧ p.skipBranch start atElse ≤ p.length := by
  refine ⟨lt_skipBranch .., ?_⟩
  obtain ⟨j, d, -, ⟨hstops, htarget⟩ | ⟨-, htarget⟩⟩ := exists_skip hstart atElse
  · have hlt : j < p.length := by
      rcases hstops.1 with hb | ⟨hb, -⟩
      · exact lt_length_of_bracketAt? hb
      · exact lt_length_of_bracketAt? hb
    omega
  · exact Nat.le_of_eq htarget

section

variable (hinside : (p.openBefore (start + 1)).head? = some i)
include hinside

/-- From inside a conditional, skipping leads behind its closing, if no divider is met before. -/
theorem skipBranch_of_closing (hstart : start < e) (he : p.Meets i .closing e)
    (hnot : atElse → ∀ m, start < m → ¬ p.Meets i .divider m) :
    p.skipBranch start atElse = e + 1 := by
  have hlt := lt_length_of_bracketAt? he.1
  obtain ⟨j, d, hscans, ⟨hstops, htarget⟩ | ⟨hend, -⟩⟩ :=
    exists_skip (Nat.lt_trans hstart hlt) atElse
  · rcases hscans.meets_of_stops hinside hstops with hmeets | ⟨hmeets, hatElse⟩
    · rw [htarget, he.closing_unique hmeets]
    · exact absurd hmeets (hnot hatElse j hscans.lt)
  · exact absurd he (hscans.not_meets hinside hstart (hend ▸ hlt)).1

/-- From inside a conditional, skipping leads behind the first divider that is met. -/
theorem skipBranch_of_divider (hstart : start < m) (hm : p.Meets i .divider m)
    (hfirst : ∀ k < m, ¬ p.Meets i .divider k) : p.skipBranch start true = m + 1 := by
  have hlt := lt_length_of_bracketAt? hm.1
  obtain ⟨j, d, hscans, ⟨hstops, htarget⟩ | ⟨hend, -⟩⟩ :=
    exists_skip (Nat.lt_trans hstart hlt) true
  · -- the scan does not pass the divider
    have hle : j ≤ m := Nat.le_of_not_lt fun hgt => (hscans.not_meets hinside hstart hgt).2 rfl hm
    rcases hscans.meets_of_stops hinside hstops with hmeets | ⟨hmeets, -⟩
    · rcases Nat.lt_or_eq_of_le hle with hlt | rfl
      · exact absurd hm.mem (hmeets.not_mem_openBefore hlt)
      · cases hmeets.1.symm.trans hm.1
    · rcases Nat.lt_or_eq_of_le hle with hlt | rfl
      · exact absurd hmeets (hfirst j hlt)
      · exact htarget
  · exact absurd hm ((hscans.not_meets hinside hstart (hend ▸ hlt)).2 rfl)

/-- From inside a conditional that has no end, skipping leads to the end of the program. -/
theorem skipBranch_of_open (hstart : start < p.length) (hopen : ∀ e, ¬ p.Meets i .closing e)
    (hnot : atElse → ∀ m, ¬ p.Meets i .divider m) : p.skipBranch start atElse = p.length := by
  obtain ⟨j, d, hscans, ⟨hstops, -⟩ | ⟨-, htarget⟩⟩ := exists_skip hstart atElse
  · rcases hscans.meets_of_stops hinside hstops with hmeets | ⟨hmeets, hatElse⟩
    · exact absurd hmeets (hopen j)
    · exact absurd hmeets (hnot hatElse j)
  · exact htarget

end

/-- The first divider that the check meets for a conditional. -/
def FirstDivider (p : Program) (i m : Nat) : Prop :=
  p.Meets i .divider m ∧ ∀ k < m, ¬ p.Meets i .divider k

/-- **The check and the scan agree** on every conditional of every program.  With what the check
holds at each index, a conditional is reported exactly if it is never closed.  One that is closed is
left behind its first divider, or else behind its closing; from any of its dividers on, it is left
behind the closing.  One that is never closed is left behind its first divider, or else at the end of
the program.  A scan counts down to zero at most, and leads onwards within the program. -/
theorem skipBranch_meets (h : p.bracketAt? i = some .opening) :
    (∀ index ≤ p.length, ∃ errors, p.unbalanced
      = errors ++ checkBrackets index (p.steps.drop index) (p.pendingBefore index)) ∧
    ((∃ e ∈ p.unbalanced, e.fault = .unclosedIf ∧ e.location.index = i) ↔
      ∀ e, ¬ p.Meets i .closing e) ∧
    (∀ e, p.Meets i .closing e →
      (∀ m, p.FirstDivider i m → p.skipBranch i true = m + 1) ∧
      ((∀ m, ¬ p.Meets i .divider m) → p.skipBranch i true = e + 1) ∧
      ∀ m, p.Meets i .divider m → p.skipBranch m false = e + 1) ∧
    ((∀ e, ¬ p.Meets i .closing e) →
      (∀ m, p.FirstDivider i m → p.skipBranch i true = m + 1) ∧
      ((∀ m, ¬ p.Meets i .divider m) → p.skipBranch i true = p.length)) ∧
    ∀ start < p.length, ∀ atElse,
      (start < p.skipBranch start atElse ∧ p.skipBranch start atElse ≤ p.length) ∧
      (∀ j d, p.Scans start atElse j d → 0 ≤ d) ∧
      ∃ j d, p.Scans start atElse j d ∧ p.Ends atElse j d (p.skipBranch start atElse) := by
  have hinside : (p.openBefore (i + 1)).head? = some i := by
    rw [openBefore, h]
    rfl
  have hdivider (m : Nat) (hm : p.FirstDivider i m) : p.skipBranch i true = m + 1 :=
    skipBranch_of_divider hinside hm.1.lt hm.1 hm.2
  refine ⟨fun index => unbalanced_eq_append, unclosed_iff h,
    fun e he => ⟨hdivider, fun hnot => ?_, fun m hm => ?_⟩,
    fun hopen => ⟨hdivider, fun hnot => ?_⟩, fun start hstart atElse => ⟨?_, ?_, ?_⟩⟩
  · exact skipBranch_of_closing hinside he.lt he fun _ m _ => hnot m
  · -- a divider leaves the conditionals as they are
    obtain ⟨hb, hhead⟩ := meets_iff.1 hm
    have hinside' : (p.openBefore (m + 1)).head? = some i := by
      rw [openBefore, hb]
      exact hhead
    have hlt : m < e := by
      rcases Nat.lt_trichotomy m e with hlt | rfl | hgt
      · exact hlt
      · cases hb.symm.trans he.1
      · exact absurd hm.mem (he.not_mem_openBefore hgt)
    exact skipBranch_of_closing hinside' hlt he fun hfalse => absurd hfalse Bool.false_ne_true
  · exact skipBranch_of_open hinside (lt_length_of_bracketAt? h) hopen fun _ => hnot
  · exact skipBranch_mem_Ioc hstart
  · exact fun j d hscans => hscans.nonneg
  · exact exists_skip hstart atElse

/-- A conditional with two dividers and another conditional in it, and one without an end. -/
def twoDividers : Program where
  steps := [
    ⟨{ action := .ifThen (.literal (.bool true)) }, none⟩,
    ⟨{ action := .ifThen (.literal (.bool true)) }, none⟩, ⟨{ action := .ifElse }, none⟩,
    ⟨{ action := .ifEnd }, none⟩, ⟨{ action := .ifElse }, none⟩, ⟨{ action := .ifElse }, none⟩,
    ⟨{ action := .ifEnd }, none⟩, ⟨{ action := .ifThen (.literal (.bool true)) }, none⟩]
  labels := {}

theorem skipBranch_meets_twoDividers :
    (twoDividers.bracketAt? 0 = some .opening ∧ twoDividers.Meets 0 .closing 6 ∧
      twoDividers.FirstDivider 0 4 ∧ twoDividers.Meets 0 .divider 5) ∧
    twoDividers.skipBranch 0 true = 5 ∧ twoDividers.skipBranch 5 false = 7 ∧
    twoDividers.bracketAt? 7 = some .opening ∧ (∀ e, ¬ twoDividers.Meets 7 .closing e) ∧
    twoDividers.skipBranch 7 true = 8 := by
  have hclosing : twoDividers.Meets 0 .closing 6 := meets_iff.2 ⟨by decide, by decide⟩
  have hfirst : twoDividers.FirstDivider 0 4 := by
    refine ⟨meets_iff.2 ⟨by decide, by decide⟩, fun k hk hmeets => ?_⟩
    have hnot : ∀ k < 4, ¬ (twoDividers.bracketAt? k = some .divider ∧
      (twoDividers.openBefore k).head? = some 0) := by decide
    exact hnot k hk (meets_iff.1 hmeets)
  have hsecond : twoDividers.Meets 0 .divider 5 := meets_iff.2 ⟨by decide, by decide⟩
  have hnever (b : Bracket) (j : Nat) : ¬ twoDividers.Meets 7 b j := fun hmeets => by
    have hgt := hmeets.lt
    have hlt : j < 8 := lt_length_of_bracketAt? hmeets.1
    omega
  obtain ⟨-, -, hclosed, -⟩ :=
    skipBranch_meets (show twoDividers.bracketAt? 0 = some .opening by decide)
  obtain ⟨hdivider, -, hbehind⟩ := hclosed 6 hclosing
  obtain ⟨-, -, -, hopen, -⟩ :=
    skipBranch_meets (show twoDividers.bracketAt? 7 = some .opening by decide)
  exact ⟨⟨by decide, hclosing, hfirst, hsecond⟩, hdivider 4 hfirst, hbehind 5 hsecond, by decide,
    hnever .closing, (hopen (hnever .closing)).2 (hnever .divider)⟩

end Timeline.Program
