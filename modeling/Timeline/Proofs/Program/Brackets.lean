/-
Timeline/Proofs/Program/Brackets.lean

Where a branch ends in a balanced program.

The scan for the end of a branch counts conditionals and does not look back; the
check of a program keeps a stack of all open conditionals.  `branchEnd?` is the
scan that says when it finds no end (`branchEnd_eq`).

Main result (`Program.isSome_skip?_of_balanced`): in a program without
unmatched brackets every branch that can be skipped has an end.
-/
import Timeline.Program.Brackets

namespace Timeline.Program

variable {atElse : Bool}

/-- The index after the bracket that ends a branch; absent if the branch has no end. -/
def branchEnd? (atElse : Bool) : Nat → List FlatStep → Nat → Option Nat
  | _, [], _ => none
  | index, s :: rest, depth =>
    match s.step.bracket?, depth with
    | some .opening, depth => branchEnd? atElse (index + 1) rest (depth + 1)
    | some .divider, 0 => if atElse then some (index + 1) else branchEnd? atElse (index + 1) rest 0
    | some .closing, 0 => some (index + 1)
    | some .closing, depth + 1 => branchEnd? atElse (index + 1) rest depth
    | _, depth => branchEnd? atElse (index + 1) rest depth

/-- A branch without an end reaches to the end of the program. -/
theorem branchEnd_eq (index : Nat) (steps : List FlatStep) (depth : Nat) :
    branchEnd atElse index steps depth
      = (branchEnd? atElse index steps depth).getD (index + steps.length) := by
  induction steps generalizing index depth with
  | nil => rfl
  | cons s rest ih =>
    have hlength : index + (s :: rest).length = index + 1 + rest.length := by
      simp only [List.length_cons]
      omega
    rcases hb : s.step.bracket? with - | ⟨- | - | -⟩ <;> rcases depth with - | depth <;>
      simp only [branchEnd, branchEnd?, hb, ih, hlength]
    · cases atElse <;> rfl
    · rfl

theorem le_branchEnd (index : Nat) (steps : List FlatStep) (depth : Nat) :
    index ≤ branchEnd atElse index steps depth := by
  induction steps generalizing index depth with
  | nil => exact Nat.le_refl _
  | cons s rest ih =>
    have hnext (depth : Nat) : index ≤ branchEnd atElse (index + 1) rest depth :=
      Nat.le_of_succ_le (ih (index + 1) depth)
    rcases hb : s.step.bracket? with - | ⟨- | - | -⟩ <;> rcases depth with - | depth <;>
      simp only [branchEnd, hb]
    case some.divider.zero =>
      split
      · exact Nat.le_succ _
      · exact hnext 0
    case some.closing.zero => exact Nat.le_succ _
    all_goals exact hnext _

/-- Whoever skips a branch goes forward. -/
theorem lt_skipBranch (p : Program) (start : Nat) (atElse : Bool) :
    start < p.skipBranch start atElse :=
  le_branchEnd ..

/-- Where the branch after the step at `start` ends, if it does. -/
def skip? (p : Program) (start : Nat) (atElse : Bool) : Option Nat :=
  branchEnd? atElse (start + 1) (p.steps.drop (start + 1)) 0

/-- Whoever skips a branch that has an end goes on after its end. -/
theorem skip?_eq_some {p : Program} {start : Nat} (h : (p.skip? start atElse).isSome) :
    p.skip? start atElse = some (p.skipBranch start atElse) := by
  obtain ⟨target, htarget⟩ := Option.isSome_iff_exists.1 h
  have hskip : p.skipBranch start atElse = target := by
    rw [skipBranch, branchEnd_eq]
    rw [skip?] at htarget
    rw [htarget]
    rfl
  rw [htarget, hskip]

/-- As long as the check has not failed, every open conditional is closed later. -/
theorem isSome_branchEnd?_of_pending {index : Nat} {steps : List FlatStep} {pending : List OpenIf}
    (h : checkBrackets index steps pending = []) {depth : Nat} (hdepth : depth < pending.length) :
    (branchEnd? atElse index steps depth).isSome := by
  induction steps generalizing index pending depth with
  | nil =>
    obtain rfl : pending = [] := by simpa [checkBrackets] using h
    simp at hdepth
  | cons s rest ih =>
    rcases hb : s.step.bracket? with - | ⟨- | - | -⟩ <;>
      simp only [checkBrackets, hb] at h <;> simp only [branchEnd?, hb]
    · exact ih h hdepth
    · exact ih h (by simpa using hdepth)
    · rcases pending with - | ⟨o, outer⟩
      · simp at hdepth
      · by_cases hdivided : o.divided
        · simp [hdivided] at h
        · simp only [hdivided] at h
          rcases depth with - | depth
          · cases atElse with
            | true => rfl
            | false => exact ih h (by simp)
          · exact ih h (by simpa using hdepth)
    · rcases pending with - | ⟨o, outer⟩
      · simp at hdepth
      · rcases depth with - | depth
        · rfl
        · exact ih h (by simpa using hdepth)

/-- After a conditional was opened or divided at least one is open. -/
theorem isSome_branchEnd?_of_checkBrackets {index : Nat} {steps : List FlatStep}
    {pending : List OpenIf} (h : checkBrackets index steps pending = []) {offset : Nat}
    {s : FlatStep} (hs : steps[offset]? = some s)
    (hb : s.step.bracket? = some .opening ∨ s.step.bracket? = some .divider) :
    (branchEnd? atElse (index + offset + 1) (steps.drop (offset + 1)) 0).isSome := by
  induction steps generalizing index pending offset with
  | nil => simp at hs
  | cons t rest ih =>
    rcases offset with - | offset
    · obtain rfl : t = s := by simpa using hs
      rcases hb with hb | hb <;> simp only [checkBrackets, hb] at h
      · exact isSome_branchEnd?_of_pending h (by simp)
      · rcases pending with - | ⟨o, outer⟩
        · simp at h
        · by_cases hdivided : o.divided
          · simp [hdivided] at h
          · simp only [hdivided] at h
            exact isSome_branchEnd?_of_pending h (by simp)
    · -- the check goes on after the first step, whatever it is
      have hrest : ∃ pending', checkBrackets (index + 1) rest pending' = [] := by
        rcases hb : t.step.bracket? with - | ⟨- | - | -⟩ <;> simp only [checkBrackets, hb] at h
        · exact ⟨_, h⟩
        · exact ⟨_, h⟩
        · rcases pending with - | ⟨o, outer⟩
          · simp at h
          · by_cases hdivided : o.divided
            · simp [hdivided] at h
            · simp only [hdivided] at h
              exact ⟨_, h⟩
        · rcases pending with - | ⟨o, outer⟩
          · simp at h
          · exact ⟨_, h⟩
      obtain ⟨pending', h'⟩ := hrest
      have := ih h' (by simpa using hs)
      rwa [show index + (offset + 1) + 1 = index + 1 + offset + 1 by omega]

/-- **In a balanced program every branch that can be skipped has an end.** -/
theorem isSome_skip?_of_balanced {p : Program} (h : p.unbalanced = []) {index : Nat} {step : Step}
    (hstep : p.step? index = some step)
    (hb : step.bracket? = some .opening ∨ step.bracket? = some .divider) :
    (p.skip? index atElse).isSome := by
  obtain ⟨s, hs, rfl⟩ := Option.map_eq_some_iff.1 hstep
  have hend : (branchEnd? atElse (0 + index + 1) (p.steps.drop (index + 1)) 0).isSome :=
    isSome_branchEnd?_of_checkBrackets h hs hb
  rwa [Nat.zero_add] at hend

end Timeline.Program
