/-
Timeline/Values/Easing.lean

Easing curves.  A curve maps progress between zero and one to eased progress;
progress outside is first brought to the nearer end.
-/
import Timeline.Values.Scalar

namespace Timeline

/-- The curve along which a value moves. -/
inductive Easing where
  | linear
  | easeIn
  | easeOut
  | easeInOut
  | cubicIn
  | cubicOut
  | cubicInOut
deriving DecidableEq, Repr, Inhabited

namespace Easing

/-- All curves. -/
def all : List Easing :=
  [linear, easeIn, easeOut, easeInOut, cubicIn, cubicOut, cubicInOut]

/-- The name of a curve in a scenario. -/
def name : Easing → String
  | linear => "linear"
  | easeIn => "easeIn"
  | easeOut => "easeOut"
  | easeInOut => "easeInOut"
  | cubicIn => "cubicIn"
  | cubicOut => "cubicOut"
  | cubicInOut => "cubicInOut"

/-- The curve of a name. -/
def ofName? (text : String) : Option Easing :=
  all.find? fun e => e.name == text

theorem ofName?_name (e : Easing) : ofName? e.name = some e := by
  cases e <;> decide

variable {α : Type} [Scalar α]

open Scalar

/-- The value of a curve at a progress between zero and one. -/
def curve : Easing → α → α
  | linear, t => t
  | easeIn, t => t * t
  | easeOut, t => t * (whole 2 - t)
  | easeInOut, t =>
    if less t half then whole 2 * t * t
    else (whole 4 - whole 2 * t) * t - whole 1
  | cubicIn, t => t * t * t
  | cubicOut, t =>
    let u := t - whole 1
    u * u * u + whole 1
  | cubicInOut, t =>
    if less t half then whole 4 * t * t * t
    else
      let u := whole 2 * t - whole 2
      half * u * u * u + whole 1

/-- The nearest number between zero and one. -/
def clamp (t : α) : α :=
  if less t (whole 0) then whole 0 else if less (whole 1) t then whole 1 else t

/-- The value of a curve at any progress. -/
def ease (e : Easing) (t : α) : α :=
  e.curve (clamp t)

end Easing

/-- The number that lies between `a` and `b` as `t` lies between zero and one. -/
def lerp {α : Type} [Scalar α] (a b t : α) : α :=
  a + (b - a) * t

end Timeline
