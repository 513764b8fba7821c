/-
Timeline/Program/Basic.lean

Programs: the flat list of steps that a scenario comes to once its blocks are
expanded, with the labels that can be jumped to.  Labels inside of blocks are
steps like any other and cannot be jumped to.
-/
import Timeline.Scenario.Step
import Timeline.Table

namespace Timeline

/-- A step of a program, with the innermost block that it comes from. -/
structure FlatStep where
  step : Step
  block : Option String

/-- A flat program and the positions of its labels. -/
structure Program where
  steps : List FlatStep
  labels : Table Nat

namespace Program

/-- The number of steps. -/
def length (p : Program) : Nat :=
  p.steps.length

/-- The step at an index. -/
def step? (p : Program) (index : Nat) : Option Step :=
  p.steps[index]?.map FlatStep.step

/-- The position of a label. -/
def labelIndex? (p : Program) (label : String) : Option Nat :=
  p.labels.get? label

/-- The text that the step at an index is shown with. -/
def display? (p : Program) (index : Nat) : Option String :=
  (p.step? index).map fun step => step.display index

theorem step?_eq_none_iff {p : Program} {index : Nat} :
    p.step? index = none ↔ p.length ≤ index := by
  simp [step?, length]

end Program

end Timeline
