/-
Timeline/Values/Animation.lean

Animations: where a value goes, how long it takes and along which curve.  At
every frame the progress is the elapsed part of the whole duration, at most one.
-/
import Timeline.Values.Easing

namespace Timeline

/-- A request to animate a value. -/
structure Animation (α : Type) where
  destination : α
  duration : Duration
  easing : Easing := .linear
  /-- Hint that the animation may run off the main loop. -/
  native : Bool := false
deriving Repr

namespace Animation

variable {α : Type} [Scalar α]

open Scalar

/-- How far an animation has come after `elapsed` milliseconds. -/
def progress (a : Animation α) (elapsed : Nat) : α :=
  let t := quotient (.ofMillis elapsed) a.duration
  if less t (whole 1) then t else whole 1

/-- Whether the animation is over at a progress. -/
def isOver (t : α) : Bool :=
  !less t (whole 1)

/-- The value at a progress, starting from `origin`. -/
def valueAt (a : Animation α) (origin t : α) : α :=
  lerp origin a.destination (a.easing.ease t)

end Animation

end Timeline
