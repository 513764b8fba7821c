/-
Timeline/Values/Scalar.lean

Scalars: the numbers that are animated.  Curves, tweens and the driver need
no more than addition, subtraction, multiplication, a test for less, the small
whole numbers, one half, and the quotient of two spans of time; they run on
binary64 numbers, and are as well defined on the rationals.
-/
import Timeline.Duration

namespace Timeline

/-- Numbers that can be animated. -/
class Scalar (α : Type) extends Add α, Sub α, Mul α where
  /-- A small whole number. -/
  whole : Nat → α
  /-- One half. -/
  half : α
  /-- Whether the first number is less than the second. -/
  less : α → α → Bool
  /-- The quotient of two spans of time. -/
  quotient : Duration → Duration → α

/-- Binary64 numbers; the quotient is that of the two spans in seconds. -/
instance : Scalar Float where
  whole n := Float.ofNat n
  half := 0.5
  less x y := decide (x < y)
  quotient a b := a.toSeconds / b.toSeconds

end Timeline
