/-
Timeline/Data/Basic.lean

Plain data, as it stands in a document before anybody knows what it is meant
to be: JSON values, and more generally values whose mappings may have any keys.
-/
import Timeline.Json.Basic

namespace Timeline

/-- A piece of plain data. -/
inductive Datum where
  | null
  | bool (value : Bool)
  | int (value : Int)
  | float (value : Float)
  | text (value : String)
  | seq (items : List Datum)
  | map (pairs : List (Datum × Datum))
deriving Inhabited, Repr

namespace Datum

mutual

/-- A JSON value as plain data. -/
def ofJson : Json → Datum
  | .null => null
  | .bool b => bool b
  | .num (.int n) => int n
  | .num (.float x) => float x
  | .str s => text s
  | .arr items => seq (ofItems items)
  | .obj fields => map (ofFields fields)

/-- JSON values as plain data. -/
def ofItems : List Json → List Datum
  | [] => []
  | v :: rest => ofJson v :: ofItems rest

/-- The fields of an object as plain data. -/
def ofFields : List (String × Json) → List (Datum × Datum)
  | [] => []
  | (name, v) :: rest => (text name, ofJson v) :: ofFields rest

end

end Datum

end Timeline
