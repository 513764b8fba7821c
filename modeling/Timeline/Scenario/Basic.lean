/-
Timeline/Scenario/Basic.lean

Scenarios and blocks.  A scenario is a list of entries: steps, or data that is
read as a step when the scenario is compiled.  Blocks are named scenarios that a
`use` step stands for.
-/
import Timeline.Scenario.Step
import Timeline.Table

namespace Timeline

/-- An entry of a scenario. -/
inductive Entry where
  | step (step : Step)
  /-- Data that has still to be read as a step. -/
  | raw (value : Json)

/-- The entries of a timeline, in order. -/
abbrev Scenario := List Entry

/-- Named scenarios, in the order of registration. -/
abbrev Blocks := Table Scenario

end Timeline
