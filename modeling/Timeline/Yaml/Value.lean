/-
Timeline/Yaml/Value.lean

YAML values.  The keys of a mapping may be any values, in the order of the text;
two keys are the same if they are equal as values: floating numbers by their
value, mappings without regard to the order of their pairs.
-/
import Timeline.Data.Basic
import Timeline.Json.Printer
import Timeline.Text.Quoted

namespace Timeline

/-- A YAML value. -/
inductive Yaml where
  | null
  | bool (value : Bool)
  | int (value : Int)
  | float (value : Float)
  | text (value : String)
  | seq (items : List Yaml)
  | map (pairs : List (Yaml × Yaml))
  | tagged (tag : String) (value : Yaml)
deriving Inhabited, Repr

namespace Yaml

/-- Floating numbers that are equal, or that are both none. -/
def sameFloat (x y : Float) : Bool :=
  x == y || (x.isNaN && y.isNaN)

mutual

/-- Whether two values are equal. -/
def same : Yaml → Yaml → Bool
  | null, null => true
  | bool a, bool b => a == b
  | int a, int b => a == b
  | float x, float y => sameFloat x y
  | text a, text b => a == b
  | seq as, seq bs => sameItems as bs
  | map as, map bs => as.length == bs.length && samePairs as bs
  | tagged t a, tagged u b => t == u && same a b
  | _, _ => false

/-- Whether two sequences are equal. -/
def sameItems : List Yaml → List Yaml → Bool
  | [], [] => true
  | a :: as, b :: bs => same a b && sameItems as bs
  | _, _ => false

/-- Whether all pairs of a mapping are pairs of another one too. -/
def samePairs : List (Yaml × Yaml) → List (Yaml × Yaml) → Bool
  | [], _ => true
  | (key, a) :: as, bs => bs.any (fun (other, b) => same key other && same a b) && samePairs as bs

end

/-- Whether a value is among the keys of some pairs. -/
def hasKey (key : Yaml) (pairs : List (Yaml × Yaml)) : Bool :=
  pairs.any fun pair => key.same pair.1

/-- Put a value under a key: in place of an earlier one, or at the end. -/
def insert (key value : Yaml) : List (Yaml × Yaml) → List (Yaml × Yaml)
  | [] => [(key, value)]
  | (other, old) :: rest =>
    if key.same other then (other, value) :: rest else (other, old) :: insert key value rest

/-! ### Texts -/

/-- Floating numbers as in JSON, but without the sign of a positive exponent. -/
def floatLayout : Decimal.Layout := { Json.floatLayout with plus := false }

/-- The text of a floating number. -/
def floatText (x : Float) : String :=
  if x.isNaN then ".nan"
  else if x.isInf then (if x < 0.0 then "-.inf" else ".inf")
  else floatLayout.text x

mutual

/-- A value with the kinds of its parts; a tag stands before what is tagged. -/
def inspect : Yaml → String
  | null => "Null"
  | bool b => "Bool(" ++ toString b ++ ")"
  | int n => "Number(" ++ toString n ++ ")"
  | float x => "Number(" ++ floatText x ++ ")"
  | text s => "String(" ++ Text.quote s ++ ")"
  | seq items => "Sequence [" ++ ", ".intercalate (inspectItems items) ++ "]"
  | map pairs => "Mapping \x7b" ++ ", ".intercalate (inspectPairs pairs) ++ "\x7d"
  | tagged tag value =>
    "TaggedValue \x7b tag: " ++ tag ++ ", value: " ++ inspect value ++ " \x7d"

/-- Some values with the kinds of their parts. -/
def inspectItems : List Yaml → List String
  | [] => []
  | v :: rest => inspect v :: inspectItems rest

/-- Some pairs with the kinds of their parts; a text as a key stands for itself. -/
def inspectPairs : List (Yaml × Yaml) → List String
  | [] => []
  | (key, v) :: rest =>
    (inspectKey key ++ ": " ++ inspect v) :: inspectPairs rest

/-- A key with the kinds of its parts. -/
def inspectKey : Yaml → String
  | text s => Text.quote s
  | bool b => toString b
  | int n => toString n
  | float x => floatText x
  | key => inspect key

end

/-! ### Plain data -/

mutual

/-- A value as plain data; tags are dropped. -/
def datum : Yaml → Datum
  | null => .null
  | bool b => .bool b
  | int n => .int n
  | float x => .float x
  | text s => .text s
  | seq items => .seq (datumItems items)
  | map pairs => .map (datumPairs pairs)
  | tagged _ value => datum value

/-- Values as plain data. -/
def datumItems : List Yaml → List Datum
  | [] => []
  | v :: rest => datum v :: datumItems rest

/-- Pairs as plain data. -/
def datumPairs : List (Yaml × Yaml) → List (Datum × Datum)
  | [] => []
  | (key, v) :: rest => (datum key, datum v) :: datumPairs rest

end

end Yaml

end Timeline
