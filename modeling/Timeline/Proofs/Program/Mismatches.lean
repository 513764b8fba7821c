/-
Timeline/Proofs/Program/Mismatches.lean

Which brackets of a program are reported.

The check of a program keeps a stack with a location and a flag for each open
conditional.  Here the conditionals that are open before an index are known by their
indices only (`Program.openBefore`), and whether one is divided is read off the program
(`Program.DividedBefore`).  `Program.Tracks` says that the stack agrees with that, and one
step of the check keeps it (`Program.Tracks.follow`).

Main result (`Program.mem_unbalanced_iff`): the errors of the check are exactly the
dividers and closings that belong to no conditional, the second dividers, and the
conditionals that are open in the end, each at its own step.
-/
import Timeline.Program.Brackets

namespace Timeline.Program

variable {p : Program} {index i j : Nat} {s : FlatStep} {pending : List OpenIf} {fault : Fault}

/-! ### Open conditionals -/

/-- The bracket at an index. -/
def bracketAt? (p : Program) (index : Nat) : Option Bracket :=
  (p.step? index).bind Step.bracket?

theorem bracketAt?_eq (hs : p.steps[index]? = some s) : p.bracketAt? index = s.step.bracket? := by
  simp only [bracketAt?, step?, hs, Option.map_some, Option.bind_some]

/-- The conditionals that are open before an index, each by the index of the step that opens it, the
innermost first. -/
def openBefore (p : Program) : Nat → List Nat
  | 0 => []
  | index + 1 =>
    match p.bracketAt? index with
    | some .opening => index :: p.openBefore index
    | some .closing => (p.openBefore index).tail
    | _ => p.openBefore index

/-- The conditional that is opened at `j` is divided before an index. -/
def DividedBefore (p : Program) (index j : Nat) : Prop :=
  ∃ i < index, p.bracketAt? i = some .divider ∧ (p.openBefore i).head? = some j

/-- A divider or closing bracket that has no place where it stands. -/
def Stray (p : Program) (index : Nat) : Fault → Prop
  | .unmatchedElse => p.bracketAt? index = some .divider ∧ p.openBefore index = []
  | .duplicateElse => p.bracketAt? index = some .divider ∧
      ∃ j, (p.openBefore index).head? = some j ∧ p.DividedBefore index j
  | .unmatchedEnd => p.bracketAt? index = some .closing ∧ p.openBefore index = []
  | _ => False

/-- A bracket that does not match: a stray one, or the opening of a conditional that is open in the
end. -/
def Mismatched (p : Program) (index : Nat) (fault : Fault) : Prop :=
  p.Stray index fault ∨
    p.bracketAt? index = some .opening ∧ index ∈ p.openBefore p.length ∧ fault = .unclosedIf

/-- Conditionals are opened at openings, one after the other. -/
theorem openBefore_spec (p : Program) (index : Nat) :
    (p.openBefore index).Pairwise (· > ·) ∧
      ∀ j ∈ p.openBefore index, j < index ∧ p.bracketAt? j = some .opening := by
  induction index with
  | zero => exact ⟨.nil, fun j hj => absurd hj List.not_mem_nil⟩
  | succ index ih =>
    obtain ⟨hsorted, hall⟩ := ih
    have hlater : ∀ j ∈ p.openBefore index, j < index + 1 ∧ p.bracketAt? j = some .opening :=
      fun j hj => ⟨by have := (hall j hj).1; omega, (hall j hj).2⟩
    rw [openBefore]
    split
    · rename_i hopening
      refine ⟨hsorted.cons fun j hj => (hall j hj).1, ?_⟩
      intro j hj
      rcases List.mem_cons.1 hj with rfl | hj
      · exact ⟨by omega, hopening⟩
      · exact hlater j hj
    · exact ⟨hsorted.tail, fun j hj => hlater j (List.mem_of_mem_tail hj)⟩
    · exact ⟨hsorted, hlater⟩

/-! ### One step of the check -/

/-- What is wrong with a bracket when the given conditionals are open. -/
def bracketFaults (pending : List OpenIf) (s : FlatStep) : List Fault :=
  match s.step.bracket?, pending with
  | some .divider, [] => [.unmatchedElse]
  | some .divider, o :: _ => if o.divided then [.duplicateElse] else []
  | some .closing, [] => [.unmatchedEnd]
  | _, _ => []

/-- The open conditionals after a step. -/
def follow (pending : List OpenIf) (index : Nat) (s : FlatStep) : List OpenIf :=
  match s.step.bracket?, pending with
  | some .opening, pending => ⟨s.locate index, false⟩ :: pending
  | some .divider, o :: outer => { o with divided := true } :: outer
  | some .closing, pending => pending.tail
  | _, pending => pending

theorem checkBrackets_cons (index : Nat) (s : FlatStep) (rest : List FlatStep)
    (pending : List OpenIf) :
    checkBrackets index (s :: rest) pending
      = (bracketFaults pending s).map (fun fault => ⟨s.locate index, fault⟩)
        ++ checkBrackets (index + 1) rest (follow pending index s) := by
  rcases hb : s.step.bracket? with - | ⟨- | - | -⟩ <;> rcases pending with - | ⟨o, outer⟩ <;>
    simp only [checkBrackets, bracketFaults, follow, hb, List.map_cons, List.map_nil,
      List.nil_append, List.cons_append, List.tail_cons, List.tail_nil]
  obtain ⟨location, divided⟩ := o
  cases divided <;> rfl

/-! ### What the stack knows -/

/-- A stack of open conditionals agrees with the program up to an index. -/
structure Tracks (p : Program) (index : Nat) (pending : List OpenIf) : Prop where
  indices : pending.map (fun o => o.location.index) = p.openBefore index
  located : ∀ o ∈ pending, ∃ s, p.steps[o.location.index]? = some s ∧
    o.location = s.locate o.location.index
  divided : ∀ o ∈ pending, o.divided ↔ p.DividedBefore index o.location.index

theorem tracks_zero : p.Tracks 0 [] where
  indices := rfl
  located _ ho := absurd ho List.not_mem_nil
  divided _ ho := absurd ho List.not_mem_nil

/-- What is divided before the next index was divided before, or is the innermost conditional at a
divider. -/
theorem dividedBefore_succ : p.DividedBefore (index + 1) j ↔ p.DividedBefore index j ∨
    p.bracketAt? index = some .divider ∧ (p.openBefore index).head? = some j := by
  constructor
  · rintro ⟨i, hi, h⟩
    rcases Nat.lt_succ_iff_lt_or_eq.1 hi with hi | rfl
    · exact .inl ⟨i, hi, h⟩
    · exact .inr h
  · rintro (⟨i, hi, h⟩ | h)
    · exact ⟨i, by omega, h⟩
    · exact ⟨index, by omega, h⟩

theorem DividedBefore.lt (h : p.DividedBefore index j) : j < index := by
  obtain ⟨i, hi, -, hhead⟩ := h
  have := ((p.openBefore_spec i).2 j (List.mem_of_head? hhead)).1
  omega

namespace Tracks

/-- A bracket is reported exactly if it is stray. -/
theorem mem_bracketFaults_iff (h : p.Tracks index pending) (hs : p.steps[index]? = some s) :
    fault ∈ bracketFaults pending s ↔ p.Stray index fault := by
  have hb := bracketAt?_eq hs
  have hindices := h.indices
  rcases hbracket : s.step.bracket? with - | ⟨- | - | -⟩ <;> rcases pending with - | ⟨o, outer⟩ <;>
    simp only [bracketFaults, hbracket] <;> cases fault <;>
    simp [Stray, hb, hbracket, ← hindices]
  exact h.divided o List.mem_cons_self

/-- **One step of the check keeps the stack up to date.** -/
theorem step (h : p.Tracks index pending) (hs : p.steps[index]? = some s) :
    p.Tracks (index + 1) (follow pending index s) := by
  have hb := bracketAt?_eq hs
  obtain ⟨hsorted, hall⟩ := p.openBefore_spec index
  have hindices := h.indices
  -- a step other than a divider divides nothing
  have hstays (hnot : s.step.bracket? ≠ some .divider) : ∀ o ∈ pending,
      (o.divided ↔ p.DividedBefore (index + 1) o.location.index) := by
    intro o ho
    rw [dividedBefore_succ, hb]
    exact (h.divided o ho).trans (or_iff_left fun hdivider => hnot hdivider.1).symm
  rcases hbracket : s.step.bracket? with - | ⟨- | - | -⟩ <;> rw [hbracket] at hb hstays
  case none =>
    simp only [follow, hbracket]
    refine ⟨?_, h.located, hstays nofun⟩
    rw [hindices, openBefore, hb]
  case some.opening =>
    simp only [follow, hbracket]
    refine ⟨?_, ?_, ?_⟩
    · rw [List.map_cons, hindices, openBefore, hb]
      rfl
    · intro o ho
      rcases List.mem_cons.1 ho with rfl | ho
      · exact ⟨s, hs, rfl⟩
      · exact h.located o ho
    · intro o ho
      rcases List.mem_cons.1 ho with rfl | ho
      · -- nothing divides a conditional before it is opened
        refine iff_of_false Bool.false_ne_true fun hdivided => ?_
        rcases dividedBefore_succ.1 hdivided with hbefore | ⟨hdivider, -⟩
        · exact Nat.lt_irrefl _ hbefore.lt
        · rw [hb] at hdivider
          cases hdivider
      · exact hstays nofun o ho
  case some.divider =>
    rcases pending with - | ⟨o, outer⟩ <;> simp only [follow, hbracket]
    · refine ⟨?_, h.located, fun o ho => absurd ho List.not_mem_nil⟩
      rw [hindices, openBefore, hb]
    · have hhead : (p.openBefore index).head? = some o.location.index := by
        rw [← hindices]
        rfl
      refine ⟨?_, ?_, ?_⟩
      · rw [openBefore, hb, ← hindices]
        rfl
      · intro o' ho'
        rcases List.mem_cons.1 ho' with rfl | ho'
        · exact h.located o List.mem_cons_self
        · exact h.located o' (List.mem_cons_of_mem _ ho')
      · intro o' ho'
        rw [dividedBefore_succ]
        rcases List.mem_cons.1 ho' with rfl | ho'
        · exact iff_of_true rfl (.inr ⟨hb, hhead⟩)
        · -- the other conditionals were opened before the innermost one
          have hlt : o'.location.index < o.location.index := by
            rw [← hindices, List.map_cons, List.pairwise_cons] at hsorted
            exact hsorted.1 _ (List.mem_map_of_mem ho')
          refine (h.divided o' (List.mem_cons_of_mem _ ho')).trans (or_iff_left ?_).symm
          rintro ⟨-, hhead'⟩
          have := Option.some.inj (hhead.symm.trans hhead')
          omega
  case some.closing =>
    simp only [follow, hbracket]
    refine ⟨?_, fun o ho => h.located o (List.mem_of_mem_tail ho),
      fun o ho => hstays nofun o (List.mem_of_mem_tail ho)⟩
    rw [List.map_tail, hindices, openBefore, hb]

/-- The errors of the check of what is left of a program. -/
theorem mem_checkBrackets_iff {location : Location} {past rest : List FlatStep}
    (h : p.Tracks past.length pending) (hsteps : p.steps = past ++ rest) :
    ⟨location, fault⟩ ∈ checkBrackets past.length rest pending ↔
      (∃ i s, past.length ≤ i ∧ p.steps[i]? = some s ∧ location = s.locate i ∧ p.Stray i fault) ∨
      ∃ i s, p.steps[i]? = some s ∧ location = s.locate i ∧ i ∈ p.openBefore p.length ∧
        fault = .unclosedIf := by
  induction rest generalizing past pending with
  | nil =>
    -- all steps have been checked, and what is left are the conditionals that are still open
    have hlength : p.length = past.length := by rw [length, hsteps, List.append_nil]
    have hnone : ¬∃ i s, past.length ≤ i ∧ p.steps[i]? = some s ∧ location = s.locate i ∧
        p.Stray i fault := by
      rintro ⟨i, s, hi, hs, -⟩
      have := (List.getElem?_eq_some_iff.1 hs).1
      rw [hsteps, List.append_nil] at this
      omega
    rw [or_iff_right hnone, checkBrackets, hlength, ← h.indices]
    simp only [List.mem_map, List.mem_reverse, CompileError.mk.injEq]
    constructor
    · rintro ⟨o, ho, rfl, rfl⟩
      obtain ⟨s, hs, hlocation⟩ := h.located o ho
      exact ⟨_, s, hs, hlocation, ⟨o, ho, rfl⟩, rfl⟩
    · rintro ⟨i, s, hs, rfl, ⟨o, ho, rfl⟩, rfl⟩
      obtain ⟨s', hs', hlocation⟩ := h.located o ho
      cases hs.symm.trans hs'
      exact ⟨o, ho, hlocation, rfl⟩
  | cons s rest ih =>
    have hs : p.steps[past.length]? = some s := by simp [hsteps]
    have hlength : (past ++ [s]).length = past.length + 1 := List.length_append
    have hnext := h.step hs
    rw [← hlength] at hnext
    have hrest := ih hnext (by rw [hsteps, List.append_assoc, List.singleton_append])
    rw [hlength] at hrest
    -- the faults of the first step come before those of the others
    rw [checkBrackets_cons, List.mem_append, hrest, ← or_assoc]
    refine or_congr_left ?_
    simp only [List.mem_map, CompileError.mk.injEq]
    constructor
    · rintro (⟨fault, hfault, rfl, rfl⟩ | ⟨i, t, hi, ht, hlocation, hstray⟩)
      · exact ⟨past.length, s, Nat.le_refl _, hs, rfl, (h.mem_bracketFaults_iff hs).1 hfault⟩
      · exact ⟨i, t, by omega, ht, hlocation, hstray⟩
    · rintro ⟨i, t, hi, ht, rfl, hstray⟩
      rcases Nat.eq_or_lt_of_le hi with rfl | hi
      · cases hs.symm.trans ht
        exact .inl ⟨fault, (h.mem_bracketFaults_iff hs).2 hstray, rfl, rfl⟩
      · exact .inr ⟨i, t, hi, ht, rfl, hstray⟩

end Tracks

/-- **The reported brackets are those that do not match**, each at its own step. -/
theorem mem_unbalanced_iff {e : CompileError} : e ∈ p.unbalanced ↔
    ∃ i s, p.steps[i]? = some s ∧ e.location = s.locate i ∧ p.Mismatched i e.fault := by
  have h : e ∈ checkBrackets ([] : List FlatStep).length p.steps [] ↔ _ :=
    Tracks.mem_checkBrackets_iff p.tracks_zero rfl
  refine h.trans ?_
  constructor
  · rintro (⟨i, s, -, hs, hlocation, hstray⟩ | ⟨i, s, hs, hlocation, hopen, hfault⟩)
    · exact ⟨i, s, hs, hlocation, .inl hstray⟩
    · exact ⟨i, s, hs, hlocation, .inr ⟨((p.openBefore_spec _).2 i hopen).2, hopen, hfault⟩⟩
  · rintro ⟨i, s, hs, hlocation, hstray | ⟨-, hopen, hfault⟩⟩
    · exact .inl ⟨i, s, Nat.zero_le i, hs, hlocation, hstray⟩
    · exact .inr ⟨i, s, hs, hlocation, hopen, hfault⟩

end Timeline.Program
