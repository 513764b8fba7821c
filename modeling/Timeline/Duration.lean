/-
Timeline/Duration.lean

Durations in whole nanoseconds.  A number of milliseconds is turned into one
exactly: divided by a thousand as a binary64 number, then rounded to the nearest
nanosecond, a half to the even one.  The clock stands at whole milliseconds, so a
wait ends at the first millisecond that is not before its end.
-/
import Timeline.Decimal.Shortest

namespace Timeline

/-- A span of time. -/
structure Duration where
  nanos : Nat
deriving DecidableEq, Repr, Inhabited

/-- The whole number nearest to `n / d`, a half to the even one. -/
def roundDivEven (n d : Nat) : Nat :=
  let below := n / d
  let rest := n % d
  if d < 2 * rest || (2 * rest = d && below % 2 = 1) then below + 1 else below

namespace Duration

/-- No time at all. -/
def zero : Duration := ⟨0⟩

/-- The duration of a number of seconds; absent for negative numbers, for numbers from `2^64` on
and for what is no number. -/
def ofSeconds? (seconds : Float) : Option Duration :=
  if seconds < 0.0 || !(seconds < 18446744073709551616.0) then none
  else
    let b := Decimal.Binary.ofFloat seconds
    some ⟨roundDivEven
      (b.mantissa * 1000000000 * Nat.pow 2 b.exponent.toNat)
      (Nat.pow 2 (-b.exponent).toNat)⟩

/-- The duration of a number of milliseconds. -/
def ofMillis? (ms : Float) : Option Duration :=
  ofSeconds? (ms / 1000.0)

/-- A whole number of milliseconds. -/
def ofMillis (ms : Nat) : Duration := ⟨ms * 1000000⟩

/-- The duration in seconds: the whole seconds, plus the rest of the nanoseconds as a fraction. -/
def toSeconds (d : Duration) : Float :=
  Float.ofNat (d.nanos / 1000000000) + Float.ofNat (d.nanos % 1000000000) / 1000000000.0

/-- The number of milliseconds that have begun when the duration is over. -/
def ceilMillis (d : Duration) : Nat :=
  d.nanos / 1000000 + if d.nanos % 1000000 = 0 then 0 else 1

/-- A duration a number of times. -/
def times (d : Duration) (n : Nat) : Duration := ⟨n * d.nanos⟩

/-- What is left, after a time, of the last one of the periods that have begun. -/
def rest (period elapsed : Duration) : Duration := ⟨period.nanos - elapsed.nanos % period.nanos⟩

theorem ceilMillis_ofMillis (ms : Nat) : (ofMillis ms).ceilMillis = ms := by
  simp [ofMillis, ceilMillis]

theorem ceilMillis_le_iff {d : Duration} {ms : Nat} :
    d.ceilMillis ≤ ms ↔ d.nanos ≤ (ofMillis ms).nanos := by
  simp only [ceilMillis, ofMillis]
  split <;> omega

theorem le_ofMillis_ceilMillis (d : Duration) : d.nanos ≤ (ofMillis d.ceilMillis).nanos :=
  ceilMillis_le_iff.1 (Nat.le_refl _)

theorem ceilMillis_pos_iff {d : Duration} : 0 < d.ceilMillis ↔ 0 < d.nanos := by
  rw [← Nat.not_le, ceilMillis_le_iff, ofMillis, Nat.zero_mul, Nat.not_le]

theorem ceilMillis_mono {d d' : Duration} (h : d.nanos ≤ d'.nanos) :
    d.ceilMillis ≤ d'.ceilMillis :=
  ceilMillis_le_iff.2 (Nat.le_trans h d'.le_ofMillis_ceilMillis)

/-- Whole milliseconds before a duration put its end off. -/
theorem ceilMillis_add (ms nanos : Nat) :
    (⟨(ofMillis ms).nanos + nanos⟩ : Duration).ceilMillis = ms + ceilMillis ⟨nanos⟩ := by
  rw [ceilMillis, ceilMillis, ofMillis, Nat.mul_comm, Nat.mul_add_mod, Nat.mul_add_div (by decide),
    Nat.add_assoc]

/-- The last millisecond begins before the duration is over. -/
theorem ofMillis_ceilMillis_lt (d : Duration) :
    (ofMillis d.ceilMillis).nanos < d.nanos + (ofMillis 1).nanos := by
  simp only [ceilMillis, ofMillis]
  split <;> omega

theorem rest_pos {period : Duration} (hperiod : 0 < period.nanos) (elapsed : Duration) :
    0 < (period.rest elapsed).nanos :=
  Nat.sub_pos_of_lt (Nat.mod_lt _ hperiod)

theorem rest_le (period elapsed : Duration) : (period.rest elapsed).nanos ≤ period.nanos :=
  Nat.sub_le ..

/-- A period is over after what is left of it. -/
theorem ceilMillis_rest {period : Duration} (hperiod : 0 < period.nanos) (ms : Nat) :
    ms + (period.rest (ofMillis ms)).ceilMillis
      = (period.times ((ofMillis ms).nanos / period.nanos + 1)).ceilMillis := by
  have hrest := Nat.mod_lt (ofMillis ms).nanos hperiod
  have hwhole : ((ofMillis ms).nanos / period.nanos + 1) * period.nanos
      = (ofMillis ms).nanos + (period.nanos - (ofMillis ms).nanos % period.nanos) := by
    have hsplit := Nat.div_add_mod (ofMillis ms).nanos period.nanos
    rw [Nat.mul_comm] at hsplit
    rw [Nat.succ_mul]
    omega
  rw [times, hwhole, ceilMillis_add, rest]

end Duration

end Timeline
