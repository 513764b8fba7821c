/-
Timeline/Proofs/Values/Overflow.lean

Every animation is over some time.

The progress of an animation is a quotient of two spans of time in seconds, rounded
again and again, so that it need not come to one in the millisecond in which the
animation should be over.  But a span that is long enough overflows: its number of
seconds is infinite (`toSeconds_overflows`), and so is its quotient by any other span,
if it is a number at all.  All that is needed of the other span is that its number of
seconds has no negative sign (`unsigned_toSeconds`).

Main result (`Animation.isOver_progress`): after `Animation.longest` milliseconds at
the latest an animation is over, whatever its duration.
-/
import Mathlib
import Timeline.Values.Animation

namespace Timeline

open Float.Model Float.Model.UnpackedFloat

/-! ### Numbers without a negative sign -/

/-- No number at all, or one without a negative sign. -/
inductive Unsigned : UnpackedFloat → Prop
  | notANumber : Unsigned .notANumber
  | infinity : Unsigned (.infinity .positive)
  | zero : Unsigned (.zero .positive)
  | finite (m : Nat) (e : Int) (hm : 0 < m) : Unsigned (.finite .positive m e hm)

theorem unpackSign_packComponents (spec : Format) (sign : Sign) (e : BitVec spec.exponentBits)
    (m : BitVec spec.mantissaBitsWithoutImplicit) :
    unpackSign (packComponents spec sign e m) = sign.toBitVec := by
  ext i hi
  obtain rfl : i = 0 := by omega
  simp [unpackSign, packComponents, BitVec.getLsbD_append, BitVec.getElem_append]

theorem unsigned_unpack_packComponents (spec : Format) (e : BitVec spec.exponentBits)
    (m : BitVec spec.mantissaBitsWithoutImplicit) :
    Unsigned (UnpackedFloat.unpack spec (packComponents spec .positive e m)) := by
  have hsign : Sign.ofBitVec (unpackSign (packComponents spec .positive e m)) = .positive := by
    rw [unpackSign_packComponents]
    rfl
  rw [UnpackedFloat.unpack.eq_def]
  dsimp only
  rw [hsign]
  split
  · split
    · exact .infinity
    · exact .notANumber
  · split
    · split
      · exact .zero
      · exact .finite ..
    · exact .finite ..

theorem unsigned_roundWithAccuracy (spec : Format) (m : Nat) (e : Int) (a : Accuracy) :
    Unsigned (roundWithAccuracy spec .positive m e a) := by
  unfold roundWithAccuracy
  dsimp only
  split
  · exact .zero
  · exact .finite ..

theorem unsigned_normalize (spec : Format) {m : Int} (hm : 0 ≤ m) (e : Int) :
    Unsigned (UnpackedFloat.normalize spec m e .positive) := by
  unfold UnpackedFloat.normalize
  split
  · rename_i h
    rw [Int.compare_eq_lt] at h
    omega
  · exact .zero
  · exact unsigned_roundWithAccuracy ..

namespace Unsigned

variable {spec : Format} {x y : UnpackedFloat}

/-- What is packed and unpacked again keeps its sign. -/
theorem unpack_pack (h : Unsigned x) : Unsigned (Float.Model.pack x).unpack := by
  show Unsigned (UnpackedFloat.unpack .binary64 (UnpackedFloat.pack .binary64 x))
  cases h with
  | notANumber => exact unsigned_unpack_packComponents ..
  | infinity => exact unsigned_unpack_packComponents ..
  | zero => exact unsigned_unpack_packComponents ..
  | finite m e hm =>
    rw [UnpackedFloat.pack]
    dsimp only
    split
    · exact unsigned_unpack_packComponents ..
    · split
      · exact unsigned_unpack_packComponents ..
      · exact unsigned_unpack_packComponents ..

theorem mul (hx : Unsigned x) (hy : Unsigned y) : Unsigned (UnpackedFloat.mul spec x y) := by
  cases hx <;> cases hy <;> first | constructor | exact unsigned_roundWithAccuracy ..

theorem div (hx : Unsigned x) (hy : Unsigned y) : Unsigned (UnpackedFloat.div spec x y) := by
  cases hx <;> cases hy <;> first | constructor | exact unsigned_roundWithAccuracy ..

theorem add (hx : Unsigned x) (hy : Unsigned y) : Unsigned (UnpackedFloat.add spec x y) := by
  have hsum (m n : Nat) : 0 ≤ Sign.positive.apply m + Sign.positive.apply n :=
    Int.add_nonneg (Int.natCast_nonneg m) (Int.natCast_nonneg n)
  cases hx <;> cases hy <;> first | constructor | exact unsigned_normalize spec (hsum ..) _

end Unsigned

/-! ### Whole numbers -/

/-- A whole number is zero or is rounded once. -/
theorem ofScientific_zero_exponent {n : Nat} (hn : n ≠ 0) :
    UnpackedFloat.ofScientific .binary64 n 0
      = roundWithAccuracy .binary64 .positive (n <<< 53 * 1) (-53) .exact := by
  unfold UnpackedFloat.ofScientific
  have hlow : ¬ (0 : Int) < -((2 ^ Format.binary64.exponentBits : Int) + n.log2) := by
    have hpow : (0 : Int) < 2 ^ Format.binary64.exponentBits := by decide
    omega
  rw [dif_neg hn, if_neg (by decide), if_neg hlow, if_pos (Int.le_refl 0)]
  rfl

/-- Whole numbers have no negative sign. -/
theorem unsigned_ofNat (n : Nat) : Unsigned (Float.ofNat n).toModel.unpack := by
  show Unsigned (Float.ofScientific n false 0).toModel.unpack
  unfold Float.ofScientific
  split
  · have hone : Unsigned (Float.exactlyRepresentablePowersOfTen[0]).toModel.unpack := by
      have hentry : Float.exactlyRepresentablePowersOfTen[0].toModel.unpack
          = .finite .positive 4503599627370496 (-52) (by decide) := rfl
      rw [hentry]
      exact .finite ..
    have hn : Unsigned n.toUInt64.toFloat.toModel.unpack :=
      (unsigned_normalize _ (Int.natCast_nonneg _) _).unpack_pack
    rw [if_neg (by decide)]
    exact Unsigned.unpack_pack (hn.mul hone)
  · rename_i hlarge
    refine Unsigned.unpack_pack (x := UnpackedFloat.ofScientific .binary64 n 0) ?_
    rw [ofScientific_zero_exponent (by omega)]
    exact unsigned_roundWithAccuracy _ _ _ _

theorem unsigned_billion : Unsigned (1000000000.0 : Float).toModel.unpack := by
  have heq : (1000000000.0 : Float).toModel.unpack
      = .finite .positive 8388608000000000 (-23) (by decide) := rfl
  rw [heq]
  exact .finite ..

/-- The number of seconds of a span of time has no negative sign. -/
theorem unsigned_toSeconds (d : Duration) : Unsigned d.toSeconds.toModel.unpack :=
  ((unsigned_ofNat _).add ((unsigned_ofNat _).div unsigned_billion).unpack_pack).unpack_pack

/-! ### Numbers that are too large -/

theorem mantissa_shiftRight (em : ExtendedMantissa) (n : Nat) :
    (em >>> n).mantissa = em.mantissa / 2 ^ n := by
  induction n with
  | zero => exact (Nat.div_one _).symm
  | succ n ih =>
    show (em >>> n).mantissa / 2 = _
    rw [ih, Nat.div_div_eq_div_mul, Nat.pow_succ]

theorem le_roundedMantissa (em : ExtendedMantissa) : em.mantissa ≤ em.roundedMantissa := by
  obtain ⟨m, _ | _, _ | _⟩ := em
  · exact Nat.le_refl m
  · exact Nat.le_refl m
  · exact Nat.le_add_right m _
  · exact Nat.le_succ m

/-- A shift leaves something of the mantissa, and an exponent that is large enough. -/
theorem shiftToTargetExponent_spec {m : Nat} {e : Int} (a : Accuracy) (hm : 0 < m)
    (he : Format.binary64.minExponent ≤ e) :
    0 < (shiftToTargetExponent .binary64 m e a).1.mantissa ∧
      totalExponent m e - 53 ≤ (shiftToTargetExponent .binary64 m e a).2 ∧
      e ≤ (shiftToTargetExponent .binary64 m e a).2 := by
  have hmantissa : (ExtendedMantissa.ofMantissaAndAccuracy m a).mantissa = m := by
    obtain - | ⟨_ | _ | _⟩ := a <;> rfl
  obtain ⟨shift, hshift⟩ : ∃ shift, shift
      = (Format.binary64.targetExponent (totalExponent m e) - e).toNat := ⟨_, rfl⟩
  have htarget : Format.binary64.targetExponent (totalExponent m e)
      = max (totalExponent m e - 53) Format.binary64.minExponent := rfl
  have htotal : totalExponent m e = m.log2 + 1 + e := rfl
  have hle : shift ≤ m.log2 := by omega
  show 0 < (ExtendedMantissa.ofMantissaAndAccuracy m a >>>
      (Format.binary64.targetExponent (totalExponent m e) - e).toNat).mantissa ∧
    _ ≤ e + ((Format.binary64.targetExponent (totalExponent m e) - e).toNat : Int) ∧
    _ ≤ e + ((Format.binary64.targetExponent (totalExponent m e) - e).toNat : Int)
  rw [← hshift, mantissa_shiftRight, hmantissa]
  refine ⟨Nat.div_pos ?_ (Nat.two_pow_pos _), by omega, by omega⟩
  calc 2 ^ shift ≤ 2 ^ m.log2 := Nat.pow_le_pow_right (by decide) hle
    _ ≤ m := Nat.log2_self_le (by omega)

/-- No number, or one that is larger than all others. -/
inductive Unbounded : UnpackedFloat → Prop
  | notANumber : Unbounded .notANumber
  | infinity : Unbounded (.infinity .positive)

/-- What is too large for the format is packed as infinity. -/
theorem pack_roundWithAccuracy {m : Nat} {e : Int} (a : Accuracy) (hm : 0 < m)
    (he : Format.binary64.minExponent ≤ e) (hlarge : 1025 ≤ totalExponent m e) :
    Float.Model.pack (roundWithAccuracy .binary64 .positive m e a)
      = Float.Model.pack (.infinity .positive) := by
  obtain ⟨hpos, hexp, -⟩ := shiftToTargetExponent_spec a hm he
  obtain ⟨em, e₁, hfirst⟩ : ∃ em e₁, shiftToTargetExponent .binary64 m e a = (em, e₁) := ⟨_, _, rfl⟩
  rw [hfirst] at hpos hexp
  dsimp only at hpos hexp
  have hmin : Format.binary64.minExponent = -1074 := rfl
  obtain ⟨hpos', -, hexp'⟩ := shiftToTargetExponent_spec (m := em.roundedMantissa) (e := e₁) .exact
    (Nat.lt_of_lt_of_le hpos (le_roundedMantissa em)) (by omega)
  unfold roundWithAccuracy
  rw [hfirst]
  dsimp only
  rw [dif_neg (Nat.ne_of_gt hpos')]
  unfold Float.Model.pack
  congr 2
  unfold UnpackedFloat.pack
  dsimp only
  rw [if_pos]
  have hbias : (Format.binary64.exponentBias : Int) = 1023 := rfl
  show 2048 ≤ (_ + (Format.binary64.exponentBias : Int) + (52 : Int)).toNat + 1
  omega

namespace Unbounded

variable {spec : Format} {x y : UnpackedFloat}

theorem unpack_pack (h : Unbounded x) : Unbounded (Float.Model.pack x).unpack := by
  cases h with
  | notANumber =>
    have heq : (Float.Model.pack .notANumber).unpack = .notANumber := rfl
    rw [heq]
    exact .notANumber
  | infinity =>
    have heq : (Float.Model.pack (.infinity .positive)).unpack = .infinity .positive := rfl
    rw [heq]
    exact .infinity

theorem add (hx : Unbounded x) (hy : Unsigned y) : Unbounded (UnpackedFloat.add spec x y) := by
  cases hx <;> cases hy <;> constructor

theorem div (hx : Unbounded x) (hy : Unsigned y) : Unbounded (UnpackedFloat.div spec x y) := by
  cases hx <;> cases hy <;> constructor

theorem not_lt (h : Unbounded x) : x.lt y = false := by
  cases h with
  | notANumber => rfl
  | infinity => rcases y with (_ | _) | - | _ | _ <;> rfl

end Unbounded

/-- The least power of two that is too large for a binary64 number. -/
@[irreducible]
def tooLarge : Nat := 2 ^ 1024

theorem unbounded_ofNat {n : Nat} (hn : tooLarge ≤ n) : Unbounded (Float.ofNat n).toModel.unpack := by
  unfold tooLarge at hn
  have hsafe : 2 ^ 53 ≤ n :=
    Nat.le_trans (Nat.pow_le_pow_right (by decide) (by decide)) hn
  have hshift : n <<< 53 * 1 = n * 2 ^ 53 := by rw [Nat.mul_one, Nat.shiftLeft_eq]
  have hlog : 1024 + 53 ≤ (n * 2 ^ 53).log2 := by
    rw [Nat.le_log2 (by omega)]
    calc 2 ^ (1024 + 53) = 2 ^ 1024 * 2 ^ 53 := Nat.pow_add ..
      _ ≤ n * 2 ^ 53 := Nat.mul_le_mul_right _ hn
  have heq : (Float.ofNat n).toModel = Float.Model.pack (.infinity .positive) := by
    show (Float.ofScientific n false 0).toModel = _
    unfold Float.ofScientific
    rw [dif_neg (by omega)]
    show Float.Model.pack (UnpackedFloat.ofScientific .binary64 n 0) = _
    rw [ofScientific_zero_exponent (by omega), hshift]
    refine pack_roundWithAccuracy _ (by omega) (by decide) ?_
    rw [totalExponent]
    omega
  rw [heq]
  exact Unbounded.infinity.unpack_pack

theorem le_seconds_ofMillis {k ms : Nat} (h : k * 1000 ≤ ms) :
    k ≤ (Duration.ofMillis ms).nanos / 1000000000 := by
  show k ≤ ms * 1000000 / 1000000000
  omega

/-- **A span of time that is long enough overflows.** -/
theorem Duration.toSeconds_overflows {ms : Nat} (h : tooLarge * 1000 ≤ ms) :
    Unbounded (ofMillis ms).toSeconds.toModel.unpack :=
  ((unbounded_ofNat (le_seconds_ofMillis h)).add
    ((unsigned_ofNat _).div unsigned_billion).unpack_pack).unpack_pack

namespace Animation

/-- So many milliseconds that their number of seconds is too large. -/
def longest : Nat := tooLarge * 1000

/-- **Every animation is over some time**, whatever its duration and the errors of rounding. -/
theorem isOver_progress (a : Animation Float) {elapsed : Nat} (h : longest ≤ elapsed) :
    isOver (a.progress elapsed) = true := by
  have hquotient : Scalar.less (Scalar.quotient (.ofMillis elapsed) a.duration)
      (Scalar.whole 1 : Float)
      = false := by
    refine decide_eq_false fun hlt => ?_
    have hunbounded : Unbounded (UnpackedFloat.div .binary64 _ _) :=
      (Duration.toSeconds_overflows h).div (unsigned_toSeconds a.duration)
    have hnot := hunbounded.unpack_pack.not_lt (y := (Float.ofNat 1).toModel.unpack)
    have hlt' := of_decide_eq_true hlt
    exact Bool.noConfusion (hnot.symm.trans hlt')
  have hone : Scalar.less (Scalar.whole 1) (Scalar.whole 1 : Float) = false := by decide
  unfold isOver progress
  dsimp only
  rw [hquotient, if_neg (by decide), hone]
  rfl

end Animation

end Timeline
