/-
Timeline/Program/References.lean

References of a program: the targets it writes must have initial values, the
functions it calls by name must be known, and the labels it jumps to must be
defined outside of all blocks.
-/
import Timeline.Program.Basic
import Timeline.Program.Error

namespace Timeline

/-- Where the step at an index is found. -/
def FlatStep.locate (s : FlatStep) (index : Nat) : Location :=
  ⟨index, s.block, none⟩

/-- The function that a `callback` step calls. -/
def Step.callee? (s : Step) : Option String :=
  match s.action with
  | .callback name _ => some name
  | _ => none

namespace Program

/-- The references of a step that lead nowhere. -/
def danglingOf (p : Program) (values : Table Float) (functions : List String) (step : Step) :
    List Fault :=
  (step.targets.filter fun t => !values.contains t).map .missingInitialValue ++
  (step.callee?.toList.filter fun name => name ∉ functions).map .missingCallback ++
  (step.labelRefs.filter fun label => (p.labelIndex? label).isNone).map .unresolvedLabel

/-- The references of a program that lead nowhere. -/
def dangling (p : Program) (values : Table Float) (functions : List String) :
    List CompileError :=
  p.steps.zipIdx.flatMap fun (s, index) =>
    (p.danglingOf values functions s.step).map fun fault => ⟨s.locate index, fault⟩

end Program

end Timeline
