/-
Timeline/Scenario/Step.lean

Steps: the instructions of a timeline.  Their operands are values, names of
functions, or functions themselves, and are looked at only when the step is
executed.  A destination is absolute or relative to the value at that moment.

A step may carry a tag for display; for `label` and `goto` steps the name of
the label stands in its place.
-/
import Timeline.Functions.Routine
import Timeline.Values.Easing

namespace Timeline

/-- A field of a step that is resolved when the step is executed. -/
inductive Operand where
  /-- The value itself. -/
  | literal (value : Json)
  /-- The result of calling the named function. -/
  | named (name : String)
  /-- The result of a function of its own. -/
  | function (body : Routine)

namespace Operand

/-- Whether an operand is a value. -/
def isLiteral : Operand → Bool
  | literal _ => true
  | named _ => false
  | function _ => false

/-- The name of the function that an operand refers to. -/
def name? : Operand → Option String
  | named name => some name
  | _ => none

/-- A text in a scenario names a function, all else is a value. -/
def ofJson : Json → Operand
  | .str name => named name
  | value => literal value

end Operand

/-- Where a value is to go. -/
inductive Destination where
  | absolute (operand : Operand)
  /-- The value at the moment of execution plus the operand. -/
  | inc (operand : Operand)
  /-- The value at the moment of execution minus the operand. -/
  | dec (operand : Operand)

namespace Destination

/-- The operand of a destination. -/
def operand : Destination → Operand
  | absolute o => o
  | inc o => o
  | dec o => o

/-- An object with the one field `inc` or `dec` is relative, all else absolute. -/
def ofJson : Json → Destination
  | .obj [("inc", delta)] => inc (.ofJson delta)
  | .obj [("dec", delta)] => dec (.ofJson delta)
  | value => absolute (.ofJson value)

/-- The number that a destination comes to for an amount, given the value at the moment; absent
when that value is needed and missing. -/
def against? {α : Type} [Scalar α] (current : Option α) (amount : α) : Destination → Option α
  | absolute _ => some amount
  | inc _ => current.map (· + amount)
  | dec _ => current.map (· - amount)

end Destination

/-- A change of one value over time. -/
structure Tween where
  target : String
  destination : Destination
  /-- Milliseconds. -/
  duration : Operand
  easing : Option Easing := none
  /-- Hint that the driver may animate off the main loop. -/
  native : Bool := false

/-- What a step does. -/
inductive Action where
  /-- Animate a value and wait for it. -/
  | move (tween : Tween)
  /-- Wait. -/
  | delay (duration : Operand)
  /-- Animate several values at once and wait for all of them. -/
  | parallel (tweens : List Tween)
  /-- Fire haptic feedback. -/
  | vibrate
  /-- Call a function. -/
  | callback (name : String) (value : Option Operand)
  /-- Wait until released from outside. -/
  | hold
  /-- A position that can be jumped to. -/
  | label (name : String)
  /-- A note of the author. -/
  | comment (text : String)
  /-- Stands for the steps of a block. -/
  | use (block : String)
  /-- Jump to a label and remember where to return. -/
  | goto (label : String)
  /-- Write a value at once. -/
  | set (target : String) (value : Operand)
  /-- Return to the step after the last `goto`. -/
  | resume
  /-- End the run after this step. -/
  | stop
  /-- Jump if a condition holds, and perhaps elsewhere if not. -/
  | ifJump (condition : Operand) (onTrue : String) (onFalse : Option String)
  /-- Open a conditional. -/
  | ifThen (condition : Operand)
  /-- The other branch of the innermost open conditional. -/
  | ifElse
  /-- Close the innermost open conditional. -/
  | ifEnd

/-- The word for what an action does. -/
def Action.kind : Action → String
  | move _ => "move"
  | delay _ => "delay"
  | parallel _ => "parallel"
  | vibrate => "vibrate"
  | callback _ _ => "callback"
  | hold => "hold"
  | label _ => "label"
  | comment _ => "comment"
  | use _ => "use"
  | goto _ => "goto"
  | set _ _ => "set"
  | resume => "resume"
  | stop => "stop"
  | ifJump _ _ _ => "ifJump"
  | ifThen _ => "ifThen"
  | ifElse => "ifElse"
  | ifEnd => "ifEnd"

/-- A step: what it does, and the tag it is shown with. -/
structure Step where
  action : Action
  given : Option String := none

namespace Step

/-- The tag of a step; the name of the label for `label` and `goto`. -/
def tag (s : Step) : Option String :=
  match s.action with
  | .label name => some name
  | .goto name => some name
  | _ => s.given

/-- The step with another tag. -/
def tagged (s : Step) (tag : String) : Step :=
  { s with given := some tag }

/-- The text that a step at `index` is shown with: its tag, else the name of the function it
calls, else its kind and its index. -/
def display (s : Step) (index : Nat) : String :=
  match s.tag.filter (· ≠ "") with
  | some tag => tag
  | none =>
    match s.action with
    | .callback name _ => name
    | action => action.kind ++ "-" ++ toString index

/-- The label that a step defines. -/
def labelName? (s : Step) : Option String :=
  match s.action with
  | .label name => some name
  | _ => none

/-- The targets that a step writes. -/
def targets (s : Step) : List String :=
  match s.action with
  | .move tween => [tween.target]
  | .set target _ => [target]
  | .parallel tweens => tweens.map Tween.target
  | _ => []

/-- The labels that a step may jump to. -/
def labelRefs (s : Step) : List String :=
  match s.action with
  | .goto label => [label]
  | .ifJump _ onTrue onFalse => onTrue :: onFalse.toList
  | _ => []

end Step

end Timeline
