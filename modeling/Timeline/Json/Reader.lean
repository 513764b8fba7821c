/-
Timeline/Json/Reader.lean

Reading JSON texts.  Each reader takes the characters that are left and gives
a value and what is left after it.  The fuel bounds the nesting and the number of
items; the length of the text is enough, since every value and every comma takes
a character.
-/
import Timeline.Json.Basic

namespace Timeline.Json

/-- The characters after the blanks that JSON allows between its tokens. -/
def skipBlanks (text : List Char) : List Char :=
  text.dropWhile fun c => c = ' ' || c = '\t' || c = '\n' || c = '\r'

/-- The value of a hexadecimal digit. -/
def hexValue? (c : Char) : Option Nat :=
  if c.isDigit then some (c.toNat - '0'.toNat)
  else if 'a' ≤ c && c ≤ 'f' then some (c.toNat - 'a'.toNat + 10)
  else if 'A' ≤ c && c ≤ 'F' then some (c.toNat - 'A'.toNat + 10)
  else none

/-- The value of four hexadecimal digits. -/
def fourHex? : List Char → Option (Nat × List Char)
  | a :: b :: c :: d :: rest => do
    let a ← hexValue? a
    let b ← hexValue? b
    let c ← hexValue? c
    let d ← hexValue? d
    return (((a * 16 + b) * 16 + c) * 16 + d, rest)
  | _ => none

/-- The character of an escape by number: one unit, or a high unit and the low unit after it. -/
def escapedUnit? (text : List Char) : Option (Char × List Char) := do
  let (high, rest) ← fourHex? text
  if 0xD800 ≤ high && high < 0xDC00 then
    match rest with
    | '\\' :: 'u' :: rest => do
      let (low, rest) ← fourHex? rest
      if 0xDC00 ≤ low && low < 0xE000 then
        return (Char.ofNat (0x10000 + (high - 0xD800) * 0x400 + (low - 0xDC00)), rest)
      else none
    | _ => none
  else if 0xDC00 ≤ high && high < 0xE000 then none
  else return (Char.ofNat high, rest)

/-- The rest of a string, up to its closing quote; `done` holds what was read, last first. -/
def readString? (fuel : Nat) (done : List Char) (text : List Char) :
    Option (String × List Char) :=
  match fuel with
  | 0 => none
  | fuel + 1 =>
    match text with
    | [] => none
    | '"' :: rest => some (String.ofList done.reverse, rest)
    | '\\' :: 'u' :: rest => do
      let (c, rest) ← escapedUnit? rest
      readString? fuel (c :: done) rest
    | '\\' :: c :: rest =>
      match c with
      | '"' => readString? fuel ('"' :: done) rest
      | '\\' => readString? fuel ('\\' :: done) rest
      | '/' => readString? fuel ('/' :: done) rest
      | 'b' => readString? fuel ('\x08' :: done) rest
      | 'f' => readString? fuel ('\x0c' :: done) rest
      | 'n' => readString? fuel ('\n' :: done) rest
      | 'r' => readString? fuel ('\r' :: done) rest
      | 't' => readString? fuel ('\t' :: done) rest
      | _ => none
    | c :: rest => if c.toNat < 0x20 then none else readString? fuel (c :: done) rest

/-- A number without a sign.  Without a point and an exponent it is an integer when it fits. -/
def readUnsigned? (negative : Bool) (text : List Char) : Option (Number × List Char) :=
  let whole := text.takeWhile Char.isDigit
  let afterWhole := text.dropWhile Char.isDigit
  if whole.isEmpty || (whole.head? = some '0' && 1 < whole.length) then none
  else
    let point := afterWhole.head? = some '.'
    let afterPoint := if point then afterWhole.drop 1 else afterWhole
    let fraction := if point then afterPoint.takeWhile Char.isDigit else []
    let afterFraction := if point then afterPoint.dropWhile Char.isDigit else afterWhole
    if point && fraction.isEmpty then none
    else
      match afterFraction with
      | c :: rest =>
        if c = 'e' || c = 'E' then
          let (down, digits) := Decimal.splitSign rest
          let power := Decimal.valueOf (digits.takeWhile Char.isDigit)
          if (digits.takeWhile Char.isDigit).isEmpty then none
          else
            let exponent : Int := if down then -(power : Int) else power
            some (.float (Decimal.toFloat negative (Decimal.valueOf (whole ++ fraction))
              (exponent - fraction.length)), digits.dropWhile Char.isDigit)
        else some (finish whole point fraction, afterFraction)
      | [] => some (finish whole point fraction, [])
where
  finish (whole : List Char) (point : Bool) (fraction : List Char) : Number :=
    let magnitude := Decimal.valueOf whole
    let n : Int := if negative then -(magnitude : Int) else magnitude
    if !point && fits n && !(negative && magnitude = 0) then .int n
    else .float (Decimal.toFloat negative (Decimal.valueOf (whole ++ fraction)) (-fraction.length))

/-- A number. -/
def readNumber? : List Char → Option (Number × List Char)
  | '-' :: rest => readUnsigned? true rest
  | text => readUnsigned? false text

mutual

/-- A value. -/
def readValue? (fuel : Nat) (text : List Char) : Option (Json × List Char) :=
  match fuel with
  | 0 => none
  | fuel + 1 =>
    match skipBlanks text with
    | 'n' :: 'u' :: 'l' :: 'l' :: rest => some (.null, rest)
    | 't' :: 'r' :: 'u' :: 'e' :: rest => some (.bool true, rest)
    | 'f' :: 'a' :: 'l' :: 's' :: 'e' :: rest => some (.bool false, rest)
    | '"' :: rest => (readString? (rest.length + 1) [] rest).map fun (s, rest) => (.str s, rest)
    | '[' :: rest =>
      match skipBlanks rest with
      | ']' :: rest => some (.arr [], rest)
      | rest => (readItems? fuel [] rest).map fun (items, rest) => (.arr items, rest)
    | '\x7b' :: rest =>
      match skipBlanks rest with
      | '\x7d' :: rest => some (.obj [], rest)
      | rest => (readFields? fuel [] rest).map fun (fields, rest) => (ofFields fields, rest)
    | rest => (readNumber? rest).map fun (n, rest) => (.num n, rest)

/-- The items of an array, up to its closing bracket. -/
def readItems? (fuel : Nat) (done : List Json) (text : List Char) :
    Option (List Json × List Char) :=
  match fuel with
  | 0 => none
  | fuel + 1 => do
    let (v, rest) ← readValue? fuel text
    match skipBlanks rest with
    | ',' :: rest => readItems? fuel (v :: done) rest
    | ']' :: rest => some ((v :: done).reverse, rest)
    | _ => none

/-- The fields of an object, up to its closing brace. -/
def readFields? (fuel : Nat) (done : List (String × Json)) (text : List Char) :
    Option (List (String × Json) × List Char) :=
  match fuel with
  | 0 => none
  | fuel + 1 =>
    match skipBlanks text with
    | '"' :: rest => do
      let (name, rest) ← readString? (rest.length + 1) [] rest
      match skipBlanks rest with
      | ':' :: rest => do
        let (v, rest) ← readValue? fuel rest
        match skipBlanks rest with
        | ',' :: rest => readFields? fuel ((name, v) :: done) rest
        | '\x7d' :: rest => some (((name, v) :: done).reverse, rest)
        | _ => none
      | _ => none
    | _ => none

end

/-- The value of a whole text. -/
def ofText? (text : String) : Option Json :=
  let chars := text.toList
  match readValue? (chars.length + 1) chars with
  | some (v, rest) => if (skipBlanks rest).isEmpty then some v else none
  | none => none

end Timeline.Json
