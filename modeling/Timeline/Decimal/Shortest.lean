/-
Timeline/Decimal/Shortest.lean

Shortest decimals: the fewest digits that read back as a given binary64
number, and among those the digits nearest to it.

A positive finite number is `m · 2^q`.  The reals that round to it form an
interval around it, whose ends belong to it exactly when `m` is even.  For
one digit, two digits, … the two neighbours of the number on that decimal grid
are tested against the interval in natural number arithmetic; the first grid
with a hit wins, of two hits the nearer, and of two equally near ones the even.
Seventeen digits always suffice.

How the digits are laid out (positional or with an exponent) is a `Layout`.
-/
namespace Timeline.Decimal

/-- A positive binary64 number `mantissa · 2^exponent`. -/
structure Binary where
  mantissa : Nat
  exponent : Int
  /-- The next number below is only half as far away as the next above. -/
  narrowBelow : Bool

/-- The magnitude of a finite number. -/
def Binary.ofFloat (x : Float) : Binary :=
  let bits := x.toBits.toNat
  let fraction : Nat := bits % Nat.pow 2 52
  let power : Nat := bits / Nat.pow 2 52 % Nat.pow 2 11
  if power = 0 then ⟨fraction, -1074, false⟩
  else ⟨fraction + Nat.pow 2 52, (power : Int) - 1075, fraction = 0 && power > 1⟩

/-- The number of decimal digits of `n`; zero has one. -/
def digitCount (n : Nat) : Nat :=
  (Nat.toDigits 10 n).length

/-- The power `e` with `10^(e-1) ≤ a/b < 10^e`, for positive `a` and `b`. -/
def decimalPoint (a b : Nat) : Int :=
  if b ≤ a then digitCount (a / b)
  else 1 - (digitCount ((b + a - 1) / a - 1) : Int)

/-- Digits and the place of the point: `digits · 10^place`. -/
structure Scientific where
  digits : Nat
  place : Int

/-- An interval of rationals over one denominator, around a value. -/
structure Interval where
  value : Nat
  low : Nat
  high : Nat
  den : Nat
  /-- Whether the ends belong to the interval. -/
  closed : Bool

/-- The reals that round to a number. -/
def Binary.interval (b : Binary) : Interval :=
  let scale := Nat.pow 2 (b.exponent - 2).toNat
  { value := 4 * b.mantissa * scale
    low := (4 * b.mantissa - if b.narrowBelow then 1 else 2) * scale
    high := (4 * b.mantissa + 2) * scale
    den := Nat.pow 2 (2 - b.exponent).toNat
    closed := b.mantissa % 2 = 0 }

/-- Whether `digits · 10^place` lies in the interval. -/
def Interval.holds (i : Interval) (s : Scientific) : Bool :=
  let here := s.digits * Nat.pow 10 s.place.toNat * i.den
  let grid := Nat.pow 10 (-s.place).toNat
  if i.closed then i.low * grid ≤ here && here ≤ i.high * grid
  else i.low * grid < here && here < i.high * grid

/-- The neighbour of the value on the grid `10^place` that lies in the interval, if any:
the nearer of the two, and of two equally near ones the even. -/
def Interval.onGrid (i : Interval) (place : Int) : Option Scientific :=
  let scaled := i.value * Nat.pow 10 (-place).toNat
  let unit := i.den * Nat.pow 10 place.toNat
  let below := scaled / unit
  let rest := scaled % unit
  let lower : Scientific := ⟨below, place⟩
  let upper : Scientific := ⟨below + 1, place⟩
  let preferUpper := unit < 2 * rest || (unit = 2 * rest && below % 2 = 1)
  match i.holds lower && below != 0, i.holds upper with
  | true, true => some (if preferUpper then upper else lower)
  | true, false => some lower
  | false, true => some upper
  | false, false => none

/-- The first grid, from `digits` digits on, that has a point in the interval. -/
def Interval.search (i : Interval) (point : Int) (digits : Nat) : Nat → Scientific
  | 0 => ⟨i.value / i.den, 0⟩
  | tries + 1 =>
    match i.onGrid (point - digits) with
    | some s => s
    | none => i.search point (digits + 1) tries

/-- The shortest decimal of a positive finite number. -/
def shortest (x : Float) : Scientific :=
  let i := (Binary.ofFloat x).interval
  i.search (decimalPoint i.value i.den) 1 17

/-- Which decimal exponents are written positionally, and how an exponent is written. -/
structure Layout where
  /-- The least exponent written positionally; absent: all small ones. -/
  least : Option Int
  /-- The first exponent that is no longer written positionally; absent: none. -/
  most : Option Int
  /-- Whether a positive exponent has a sign. -/
  plus : Bool

/-- The digits of `s` without trailing zeros, and the exponent of the first digit. -/
def Scientific.normalize (s : Scientific) : List Char × Int :=
  let all := Nat.toDigits 10 s.digits
  let kept := (all.reverse.dropWhile (· = '0')).reverse
  (if kept.isEmpty then ['0'] else kept, s.place + all.length - 1)

/-- Whether the layout writes numbers of this exponent positionally. -/
def Layout.positional (l : Layout) (exponent : Int) : Bool :=
  l.least.all (· ≤ exponent) && l.most.all (exponent < ·)

/-- The text of a positive decimal, always with a point or an exponent. -/
def Layout.render (l : Layout) (s : Scientific) : List Char :=
  let (digits, exponent) := s.normalize
  if l.positional exponent then
    if exponent < 0 then
      '0' :: '.' :: (List.replicate (-exponent - 1).toNat '0' ++ digits)
    else
      let whole := exponent.toNat + 1
      let front := digits.take whole ++ List.replicate (whole - digits.length) '0'
      let back := digits.drop whole
      front ++ '.' :: (if back.isEmpty then ['0'] else back)
  else
    let front := match digits with
      | [] => []
      | [d] => [d]
      | d :: rest => d :: '.' :: rest
    let sign := if exponent < 0 then ['-'] else if l.plus then ['+'] else []
    front ++ 'e' :: (sign ++ Nat.toDigits 10 exponent.natAbs)

/-- The text of a finite number: its sign, then the shortest decimal of its magnitude. -/
def Layout.text (l : Layout) (x : Float) : String :=
  let negative := Nat.pow 2 63 ≤ x.toBits.toNat
  let magnitude := x.toBits.toNat % Nat.pow 2 63
  let body := if magnitude = 0 then ['0', '.', '0'] else l.render (shortest x)
  String.ofList (if negative then '-' :: body else body)

end Timeline.Decimal
