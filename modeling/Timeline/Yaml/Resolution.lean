/-
Timeline/Yaml/Resolution.lean

Which value a plain scalar stands for: nothing, a truth value, an integer in one
of four bases, a floating number, or else a text.  Digits with a zero in front of
them are a text.  Integers that need more than 64 bits are refused, unless they
need more than 128: those are floating numbers.
-/
import Timeline.Decimal.Reading
import Timeline.Yaml.Value

namespace Timeline.Yaml

/-- The words for nothing. -/
def isNull (word : String) : Bool :=
  word ∈ ["null", "Null", "NULL", "~"]

/-- The words for truth values. -/
def bool? (word : String) : Option Bool :=
  if word ∈ ["true", "True", "TRUE"] then some true
  else if word ∈ ["false", "False", "FALSE"] then some false
  else none

/-- Whether a word is digits, perhaps after a sign, of which there are several and the first one is
a zero. -/
def hasLeadingZero (word : List Char) : Bool :=
  match (Decimal.splitSign word).2 with
  | '0' :: rest => !rest.isEmpty && rest.all Char.isDigit
  | _ => false

/-- The value of a digit in bases up to sixteen. -/
def digitIn? (base : Nat) (c : Char) : Option Nat :=
  (hexDigit c).filter (· < base)
where
  /-- The value of a hexadecimal digit. -/
  hexDigit (c : Char) : Option Nat :=
    if c.isDigit then some (c.toNat - '0'.toNat)
    else if 'a' ≤ c && c ≤ 'f' then some (c.toNat - 'a'.toNat + 10)
    else if 'A' ≤ c && c ≤ 'F' then some (c.toNat - 'A'.toNat + 10)
    else none

/-- The number that some digits write in a base. -/
def natural? (base : Nat) (digits : List Char) : Option Nat :=
  if digits.isEmpty then none
  else digits.foldlM (fun n d => (digitIn? base d).map (n * base + ·)) 0

/-- The magnitude of a number without a sign, with the mark of its base. -/
def magnitude? : List Char → Option Nat
  | '0' :: 'x' :: digits => natural? 16 digits
  | '0' :: 'o' :: digits => natural? 8 digits
  | '0' :: 'b' :: digits => natural? 2 digits
  | digits => natural? 10 digits

/-- The integer that a word writes. -/
def int? (word : List Char) : Option Int :=
  if hasLeadingZero word then none
  else
    match word with
    | '-' :: rest => (magnitude? rest).map fun n => -(n : Int)
    | '+' :: rest => (magnitude? rest).map Int.ofNat
    | rest => (magnitude? rest).map Int.ofNat

/-- The floating number that a word writes; one that is too large is none. -/
def float? (word : List Char) : Option Float :=
  let unsigned := match word with
    | '+' :: rest => rest
    | rest => rest
  if word.head? = some '+' && (unsigned.head? = some '+' || unsigned.head? = some '-') then none
  else if unsigned ∈ [".inf".toList, ".Inf".toList, ".INF".toList] then some (1.0 / 0.0)
  else if word ∈ ["-.inf".toList, "-.Inf".toList, "-.INF".toList] then some (-1.0 / 0.0)
  else if word ∈ [".nan".toList, ".NaN".toList, ".NAN".toList] then some (0.0 / 0.0)
  else (Decimal.float? unsigned).filter Float.isFinite

/-- An integer as a value, if 64 bits are enough for it. -/
def ofInt? (n : Int) : Option Yaml :=
  if Json.fits n then some (.int n) else none

/-- Whether 128 bits are enough for an integer. -/
def fitsTwice (n : Int) : Bool :=
  -(Nat.pow 2 127 : Int) ≤ n && n < (Nat.pow 2 128 : Int)

/-- The value of a plain scalar. -/
def ofPlain? (word : String) : Option Yaml :=
  if word = "" || isNull word then some .null
  else
    match bool? word with
    | some b => some (.bool b)
    | none =>
      match (int? word.toList).filter fitsTwice with
      | some n => ofInt? n
      | none =>
        match if hasLeadingZero word.toList then none else float? word.toList with
        | some x => some (.float x)
        | none => some (.text word)

/-- The tags of the core schema start with this. -/
def coreTag (name : String) : String :=
  "tag:yaml.org,2002:" ++ name

/-- The value of a scalar with a tag of the core schema; all else is a text. -/
def ofCoreTag? (tag : String) (word : String) : Option Yaml :=
  if tag = coreTag "bool" then (bool? word).map .bool
  else if tag = coreTag "int" then (int? word.toList).bind ofInt?
  else if tag = coreTag "float" then (float? word.toList).map .float
  else if tag = coreTag "null" then (if isNull word then some .null else none)
  else some (.text word)

end Timeline.Yaml
