/-
Timeline/Json/Basic.lean

JSON values.  A number is an integer of at most 64 bits or a finite binary64
number, and the two kinds are told apart; the fields of an object stand in
ascending order of their names, one field a name.
-/
import Timeline.Decimal.Reading

namespace Timeline

/-- A number of a JSON text. -/
inductive Json.Number where
  | int (value : Int)
  | float (value : Float)
deriving DecidableEq, Repr

/-- A JSON value. -/
inductive Json where
  | null
  | bool (value : Bool)
  | num (value : Json.Number)
  | str (value : String)
  | arr (items : List Json)
  | obj (fields : List (String × Json))
deriving Inhabited, Repr

namespace Json

/-- Whether an integer can stand in a JSON value: 64 bits, with or without a sign. -/
def fits (n : Int) : Bool :=
  -(Nat.pow 2 63 : Int) ≤ n && n < (Nat.pow 2 64 : Int)

/-- The number as a binary64 number. -/
def Number.toFloat : Number → Float
  | .int n => Decimal.toFloat (n < 0) n.natAbs 0
  | .float x => x

/-- A binary64 number as a JSON value; infinities and no number are `null`. -/
def ofFloat (x : Float) : Json :=
  if x.isFinite then .num (.float x) else .null

/-- Set a field, keeping the names in ascending order. -/
def insertField (name : String) (value : Json) : List (String × Json) → List (String × Json)
  | [] => [(name, value)]
  | (n, v) :: rest =>
    if name < n then (name, value) :: (n, v) :: rest
    else if name = n then (name, value) :: rest
    else (n, v) :: insertField name value rest

/-- An object with the given fields; of two fields of one name the later stands. -/
def ofFields (fields : List (String × Json)) : Json :=
  .obj (fields.foldl (fun done f => insertField f.1 f.2 done) [])

/-- A field of an object. -/
def field? (name : String) : Json → Option Json
  | .obj fields => fields.lookup name
  | _ => none

/-- The number that a value stands for: a number, or a text that writes one between blanks. -/
def float? : Json → Option Float
  | .num n => some n.toFloat
  | .str s => Decimal.trimmed? s
  | _ => none

/-- Whether a value counts as true: all but `null`, `false`, zero and the empty text. -/
def truthy : Json → Bool
  | .null => false
  | .bool b => b
  | .num n => n.toFloat != 0.0 && !n.toFloat.isNaN
  | .str s => s != ""
  | .arr _ => true
  | .obj _ => true

end Json

end Timeline
