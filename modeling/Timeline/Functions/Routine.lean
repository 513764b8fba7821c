/-
Timeline/Functions/Routine.lean

Routines: what a function of the surroundings does when it is called.  It
waits, reads and writes values, and in the end gives a value or fails.  What it
does next may depend on what it has read.
-/
import Timeline.Duration
import Timeline.Json.Basic

namespace Timeline

/-- Why a call gave no value. -/
inductive CallError where
  | notFound (name : String)
  | failed (reason : String)
deriving DecidableEq, Repr

namespace CallError

/-- The text of an error. -/
def message : CallError → String
  | notFound name => "callback not found: " ++ name
  | failed reason => "callback failed: " ++ reason

end CallError

/-- What a called function still has to do. -/
inductive Routine where
  /-- The call is over. -/
  | done (result : Except CallError Json)
  /-- Wait, then go on. -/
  | sleep (time : Duration) (rest : Routine)
  /-- Write a value, if the target is known, then go on. -/
  | write (target : String) (value : Float) (rest : Routine)
  /-- Go on as the value of a target tells. -/
  | read (target : String) (rest : Option Float → Routine)

/-- A function: what the call with this number does with an argument that may be missing.  Calls
are numbered from one on. -/
abbrev Handler := Nat → Option Json → Routine

namespace Routine

/-- Give a value at once. -/
def value (v : Json) : Routine := done (.ok v)

/-- Fail at once. -/
def fail (e : CallError) : Routine := done (.error e)

/-- A routine that gives its result without waiting and without writing. -/
inductive Prompt : Routine → Prop where
  | done (result : Except CallError Json) : Prompt (.done result)
  | read (target : String) (rest : Option Float → Routine) :
      (∀ v, Prompt (rest v)) → Prompt (.read target rest)

end Routine

end Timeline
