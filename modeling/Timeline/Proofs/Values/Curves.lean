/-
Timeline/Proofs/Values/Curves.lean

Curves on the rationals.

The curves, the way between two values and the progress of an animation are defined
for all scalars.  On the rationals, where nothing is rounded, every curve goes from
zero to one without ever turning back (`Easing.monotone_ease`), the way between two
values leads from the one to the other in the same sense (`monotone_lerp`,
`antitone_lerp`), and the progress of an animation is one from its end on and not
before (`Animation.progress_eq_one_iff`).
-/
import Mathlib.Algebra.Order.Field.Rat
import Mathlib.Order.Interval.Set.UnorderedInterval
import Mathlib.Tactic.FieldSimp
import Mathlib.Tactic.Linarith
import Mathlib.Tactic.Positivity
import Mathlib.Tactic.Ring
import Timeline.Values.Animation

namespace Timeline

open Scalar

/-! ### The scalars -/

/-- The duration in seconds: the whole seconds, plus the rest of the nanoseconds as a fraction. -/
def Duration.seconds (d : Duration) : ℚ :=
  (d.nanos / 1000000000 : Nat) + (d.nanos % 1000000000 : Nat) / 1000000000

theorem Duration.seconds_eq (d : Duration) : d.seconds = d.nanos / 1000000000 := by
  have h : (d.nanos : ℚ)
      = 1000000000 * (d.nanos / 1000000000 : Nat) + (d.nanos % 1000000000 : Nat) := by
    exact_mod_cast (Nat.div_add_mod d.nanos 1000000000).symm
  rw [Duration.seconds, h]
  ring

/-- The rationals; the quotient is that of the two spans in seconds. -/
instance : Scalar ℚ where
  whole n := n
  half := 1 / 2
  less x y := decide (x < y)
  quotient a b := a.seconds / b.seconds

/-! ### Curves -/

namespace Easing

variable {e : Easing} {s t : ℚ}

theorem curve_zero : e.curve (0 : ℚ) = 0 := by
  cases e <;> decide +kernel

theorem curve_one : e.curve (1 : ℚ) = 1 := by
  cases e <;> decide +kernel

/-- The two halves of `easeInOut`, which meet at one half. -/
theorem curve_easeInOut : easeInOut.curve t
    = if t < 1 / 2 then 2 * t * t else (4 - 2 * t) * t - 1 := by
  show (if decide (t < 1 / 2) = true then _ else _) = _
  simp only [decide_eq_true_eq]
  rfl

/-- The two halves of `cubicInOut`, which meet at one half. -/
theorem curve_cubicInOut : cubicInOut.curve t
    = if t < 1 / 2 then 4 * t * t * t else 1 / 2 * (2 * t - 2) * (2 * t - 2) * (2 * t - 2) + 1 := by
  show (if decide (t < 1 / 2) = true then _ else _) = _
  simp only [decide_eq_true_eq]
  rfl

/-- **No curve turns back** between zero and one. -/
theorem curve_le_curve (h₀ : 0 ≤ s) (hst : s ≤ t) (h₁ : t ≤ 1) :
    e.curve (s : ℚ) ≤ e.curve t := by
  have hsq : s * s ≤ t * t := mul_self_le_mul_self h₀ hst
  have hcube {x y : ℚ} (hxy : x ≤ y) : x * x * x ≤ y * y * y := by
    nlinarith [sq_nonneg (x + y), sq_nonneg x, sq_nonneg y, sq_nonneg (x - y)]
  cases e with
  | linear => exact hst
  | easeIn => exact hsq
  | easeOut =>
    show s * (2 - s) ≤ t * (2 - t)
    nlinarith
  | easeInOut =>
    rw [curve_easeInOut, curve_easeInOut]
    split_ifs with hs ht
    · nlinarith
    · -- the two halves meet at one half, and their values too
      have hbelow : 2 * s * s ≤ 1 / 2 := by nlinarith
      have habove : 1 / 2 ≤ (4 - 2 * t) * t - 1 := by nlinarith
      exact hbelow.trans habove
    · linarith
    · nlinarith
  | cubicIn => exact hcube hst
  | cubicOut =>
    show (s - 1) * (s - 1) * (s - 1) + 1 ≤ (t - 1) * (t - 1) * (t - 1) + 1
    linarith [hcube (sub_le_sub_right hst 1)]
  | cubicInOut =>
    have hhalf (x : ℚ) : 4 * x * x * x = 1 / 2 * ((2 * x) * (2 * x) * (2 * x)) := by ring
    rw [curve_cubicInOut, curve_cubicInOut]
    split_ifs with hs ht
    · linarith [hcube hst]
    · have hbelow := hcube (show 2 * s ≤ 1 by linarith)
      have habove := hcube (show -1 ≤ 2 * t - 2 by linarith)
      linarith [hhalf s]
    · linarith
    · linarith [hcube (show 2 * s - 2 ≤ 2 * t - 2 by linarith)]

/-- Progress outside is brought to the nearer end. -/
theorem clamp_eq (t : ℚ) : clamp t = max 0 (min t 1) := by
  show (if decide (t < ((0 : ℕ) : ℚ)) = true then ((0 : ℕ) : ℚ)
    else if decide (((1 : ℕ) : ℚ) < t) = true then ((1 : ℕ) : ℚ) else t) = _
  simp only [decide_eq_true_eq, Nat.cast_zero, Nat.cast_one]
  split_ifs with h₀ h₁
  · rw [min_eq_left (by linarith), max_eq_left h₀.le]
  · rw [min_eq_right h₁.le, max_eq_right zero_le_one]
  · rw [min_eq_left (not_lt.1 h₁), max_eq_right (not_lt.1 h₀)]

theorem ease_zero : e.ease (0 : ℚ) = 0 := by
  rw [ease, clamp_eq, min_eq_left zero_le_one, max_self, curve_zero]

theorem ease_one : e.ease (1 : ℚ) = 1 := by
  rw [ease, clamp_eq, min_self, max_eq_right zero_le_one, curve_one]

/-- **A curve never turns back.** -/
theorem monotone_ease (e : Easing) : Monotone (e.ease : ℚ → ℚ) := by
  intro s t hst
  rw [ease, ease, clamp_eq, clamp_eq]
  exact curve_le_curve (le_max_left 0 _) (max_le_max_left 0 (min_le_min_right 1 hst))
    (max_le zero_le_one (min_le_right t 1))

end Easing

/-! ### The way between two values -/

section Lerp

variable {a b : ℚ}

theorem lerp_eq (a b t : ℚ) : lerp a b t = a + (b - a) * t := rfl

theorem lerp_zero : lerp a b 0 = a := by
  rw [lerp_eq, mul_zero, add_zero]

theorem lerp_one : lerp a b 1 = b := by
  rw [lerp_eq, mul_one, add_sub_cancel]

theorem monotone_lerp (h : a ≤ b) : Monotone (lerp a b) := fun _ _ hst =>
  add_le_add_right (mul_le_mul_of_nonneg_left hst (sub_nonneg.2 h)) a

theorem antitone_lerp (h : b ≤ a) : Antitone (lerp a b) := fun _ _ hst =>
  add_le_add_right (mul_le_mul_of_nonpos_left hst (sub_nonpos.2 h)) a

end Lerp

/-! ### Progress -/

namespace Animation

variable {a : Animation ℚ} {elapsed : Nat}

/-- The progress is the elapsed part of the duration, at most one. -/
theorem progress_eq (a : Animation ℚ) (elapsed : Nat) :
    a.progress elapsed = min ((elapsed * 1000000 : Nat) / a.duration.nanos : ℚ) 1 := by
  have hquotient : (quotient (.ofMillis elapsed) a.duration : ℚ)
      = (elapsed * 1000000 : Nat) / a.duration.nanos := by
    show (Duration.ofMillis elapsed).seconds / a.duration.seconds = _
    rw [Duration.seconds_eq, Duration.seconds_eq, div_div_div_cancel_right₀ (by norm_num)]
    rfl
  show (if decide (quotient (.ofMillis elapsed) a.duration < ((1 : ℕ) : ℚ)) = true
    then quotient (.ofMillis elapsed) a.duration else ((1 : ℕ) : ℚ)) = _
  simp only [decide_eq_true_eq, hquotient, Nat.cast_one]
  split_ifs with h
  · exact (min_eq_left h.le).symm
  · exact (min_eq_right (not_lt.1 h)).symm

theorem progress_zero : a.progress 0 = 0 := by
  rw [progress_eq, Nat.zero_mul, Nat.cast_zero, zero_div, min_eq_left zero_le_one]

theorem monotone_progress (a : Animation ℚ) : Monotone a.progress := by
  intro s t hst
  rw [progress_eq, progress_eq]
  refine min_le_min_right 1 (div_le_div_of_nonneg_right ?_ (Nat.cast_nonneg _))
  exact Nat.cast_le.2 (Nat.mul_le_mul_right _ hst)

/-- **An animation is over** from its end on, and not before. -/
theorem progress_eq_one_iff (hduration : 0 < a.duration.nanos) :
    a.progress elapsed = 1 ↔ a.duration.nanos ≤ (Duration.ofMillis elapsed).nanos := by
  rw [Duration.ofMillis, progress_eq, min_eq_right_iff, one_le_div (Nat.cast_pos.2 hduration),
    Nat.cast_le]

theorem isOver_iff {t : ℚ} : isOver t = true ↔ 1 ≤ t := by
  show (!decide (t < ((1 : ℕ) : ℚ))) = true ↔ _
  simp

end Animation

end Timeline
