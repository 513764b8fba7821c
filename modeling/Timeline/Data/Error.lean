/-
Timeline/Data/Error.lean

Why data is not what it is read as, and how that is said.  Two manners of
speaking differ in their words for nothing at all and for floating numbers.
-/
import Timeline.Data.Basic
import Timeline.Json.Printer
import Timeline.Text.Quoted

namespace Timeline

/-- The form that data came in: JSON text read directly, JSON data that was set aside until the
kind of a step was known, or YAML. -/
inductive Form where
  | json
  | buffered
  | yaml
deriving DecidableEq, Repr

/-- Why data cannot be read. -/
inductive DataError where
  /-- Something else was expected in the place of a datum. -/
  | invalidType (found : String) (expected : String)
  /-- A datum of the right type does not fit. -/
  | invalidValue (found : String) (expected : String)
  /-- A sequence has too few or too many items. -/
  | invalidLength (length : Nat) (expected : String)
  | missingField (name : String)
  | duplicateField (name : String)
  /-- A word is none of those that are known. -/
  | unknownVariant (word : String) (known : List String)
deriving DecidableEq, Repr

namespace DataError

/-- A word between backquotes. -/
def ticked (word : String) : String :=
  "`" ++ word ++ "`"

/-- The words to choose from. -/
def choices : List String → String
  | [a, b] => ticked a ++ " or " ++ ticked b
  | words => "one of " ++ ", ".intercalate (words.map ticked)

/-- The text of an error. -/
def message : DataError → String
  | invalidType found expected => "invalid type: " ++ found ++ ", expected " ++ expected
  | invalidValue found expected => "invalid value: " ++ found ++ ", expected " ++ expected
  | invalidLength n expected => "invalid length " ++ toString n ++ ", expected " ++ expected
  | missingField name => "missing field " ++ ticked name
  | duplicateField name => "duplicate field " ++ ticked name
  | unknownVariant word known =>
    "unknown variant " ++ ticked word ++ ", expected " ++ choices known

end DataError

/-- Floating numbers in plain notation, always with a point. -/
def plainLayout : Decimal.Layout := ⟨none, none, false⟩

namespace Form

/-- The text of a floating number that was found where it does not belong. -/
def foundFloat (form : Form) (x : Float) : String :=
  match form with
  | yaml =>
    if x.isNaN then "NaN"
    else if x.isInf then (if x < 0.0 then "-inf" else "inf")
    else plainLayout.text x
  | _ => Json.floatLayout.text x

/-- The words for a datum that was found where it does not belong. -/
def found (form : Form) : Datum → String
  | .null => if form = yaml then "unit value" else "null"
  | .bool b => "boolean " ++ DataError.ticked (toString b)
  | .int n => "integer " ++ DataError.ticked (toString n)
  | .float x => "floating point " ++ DataError.ticked (form.foundFloat x)
  | .text s => "string " ++ Text.quote s
  | .seq _ => "sequence"
  | .map _ => "map"

/-- The error that a datum is not what was expected. -/
def mismatch (form : Form) (d : Datum) (expected : String) : DataError :=
  .invalidType (form.found d) expected

end Form

end Timeline
