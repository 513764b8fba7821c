/-
Timeline/Decimal/Reading.lean

Reading decimals: the binary64 number nearest to `digits · 10^exponent`, and
the grammar of numbers written as text: a sign, digits with an optional
point on either side of which digits may be missing (not on both), an optional
exponent; or the words for infinity and for no number, in any case.
-/
import Timeline.Text.Blank

namespace Timeline.Decimal

/-- The number nearest to `± digits · 10^exponent`. -/
def toFloat (negative : Bool) (digits : Nat) (exponent : Int) : Float :=
  let size : Int := exponent + (Nat.toDigits 10 digits).length
  let magnitude : Float :=
    if digits = 0 then 0.0
    else if 400 < size then 1.0 / 0.0
    else if size < -400 then 0.0
    else if exponent < 0 then Float.ofScientific digits true exponent.natAbs
    else Float.ofScientific digits false exponent.natAbs
  if negative then -magnitude else magnitude

/-- The value of a list of decimal digits. -/
def valueOf (digits : List Char) : Nat :=
  digits.foldl (fun n c => 10 * n + (c.toNat - '0'.toNat)) 0

/-- A sign in front, if there is one, and the rest. -/
def splitSign : List Char → Bool × List Char
  | '-' :: rest => (true, rest)
  | '+' :: rest => (false, rest)
  | text => (false, text)

/-- The exponent that ends a number: nothing, or `e`, a sign and digits. -/
def exponentOf? : List Char → Option Int
  | [] => some 0
  | c :: rest =>
    if c = 'e' || c = 'E' then
      let (negative, digits) := splitSign rest
      if digits.isEmpty || !digits.all Char.isDigit then none
      else some (if negative then -(valueOf digits : Int) else valueOf digits)
    else none

/-- A number without a sign. -/
def unsigned? (negative : Bool) (text : List Char) : Option Float :=
  let whole := text.takeWhile Char.isDigit
  let afterWhole := text.dropWhile Char.isDigit
  let (fraction, tail) := match afterWhole with
    | '.' :: rest => (rest.takeWhile Char.isDigit, rest.dropWhile Char.isDigit)
    | _ => ([], afterWhole)
  if whole.isEmpty && fraction.isEmpty then none
  else (exponentOf? tail).map fun exponent =>
    toFloat negative (valueOf (whole ++ fraction)) (exponent - fraction.length)

/-- The number that a text writes, infinities and the word for no number included. -/
def float? (text : List Char) : Option Float :=
  let (negative, rest) := splitSign text
  let word := String.ofList (rest.map Char.toLower)
  if word = "inf" || word = "infinity" then some (if negative then -(1.0 / 0.0) else 1.0 / 0.0)
  else if word = "nan" then some (0.0 / 0.0)
  else unsigned? negative rest

/-- The number that a text writes between blanks. -/
def trimmed? (text : String) : Option Float :=
  float? (Text.trim text.toList)

end Timeline.Decimal
