/-
Timeline/Stage/Event.lean

What happens on the stage, as the journal records it: the calls, writes and
animations that the surroundings notice, and the begin and end of steps and of
the calls that drive a machine.
-/
import Timeline.Functions.Routine
import Timeline.Json.Printer
import Timeline.Values.Animation

namespace Timeline

/-- Where a run goes on after a step. -/
inductive Flow where
  | advance
  | jump (index : Nat)
deriving DecidableEq, Repr

/-- Why a step failed. -/
inductive StepError where
  | unknownLabel (label : String)
  | unknownTarget (target : String)
  /-- The value of an operand cannot stand in a field. -/
  | invalidOperand (field : String) (value : Json)
  | call (error : CallError)
deriving Repr

/-- The text of an error. -/
def StepError.message : StepError → String
  | unknownLabel label => "unknown label: " ++ label
  | unknownTarget target => "unknown value target: " ++ target
  | invalidOperand field value => "invalid " ++ field ++ ": " ++ value.render
  | call e => e.message

/-- How a parked hold is let go. -/
inductive Release where
  /-- By a call for a step, which may say where to go on. -/
  | resumed (seek : Option Nat)
  /-- By a rewind. -/
  | dropped
deriving DecidableEq, Repr

/-- Where a run goes on after a hold. -/
def Release.flow : Release → Flow
  | resumed (some index) => .jump index
  | resumed none => .advance
  | dropped => .advance

/-- A step of the program, by its index and the text that it is shown with. -/
structure Position where
  index : Nat
  label : String
deriving DecidableEq, Repr

/-- Something that happens.  Those who drive a machine are told apart by numbers. -/
inductive Event where
  /-- A registered function is called. -/
  | called (name : String) (arg : Option Json)
  /-- A function is looked for under a name that is not registered. -/
  | missed (name : String)
  /-- The machine writes a value; the target may be unknown. -/
  | set (target : String) (value : Float) (known : Bool)
  /-- The machine asks for an animation. -/
  | animate (target : String) (animation : Animation Float)
  /-- An animation of the machine is over. -/
  | animated (target : String) (known : Bool)
  | vibrated
  /-- A target takes a value, whoever wrote it. -/
  | wrote (target : String) (value : Float)
  | published (position : Position)
  /-- A step begins. -/
  | began (call : Nat) (index : Nat)
  /-- A step is over. -/
  | ended (call : Nat) (index : Nat) (flow : Flow)
  /-- A step fails. -/
  | failed (call : Nat) (index : Nat) (error : StepError)
  /-- A hold is parked. -/
  | parked (call : Nat)
  /-- A call releases the hold that another one has parked. -/
  | released (call : Nat) (holder : Nat) (release : Release)
  /-- A run starts over at the end of the program. -/
  | restarted (call : Nat)
  /-- The registers and the values are as they were in the beginning. -/
  | rewound (call : Nat)
  /-- A call is over. -/
  | returned (call : Nat) (result : Except StepError Unit)

/-- An event, with its time and the position of the machine. -/
structure Record where
  time : Nat
  index : Nat
  event : Event

end Timeline
