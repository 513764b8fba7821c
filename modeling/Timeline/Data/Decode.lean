/-
Timeline/Data/Decode.lean

Decoding plain data: truth values, texts, numbers, words out of a choice, and
records.  A record is read from a mapping, whose entries are visited in their
order, so that of several wrong fields the first one is reported and missing
fields only after that; or, where the form of the data allows it, from a sequence
of its fields in the order of their declaration.
-/
import Timeline.Data.Error

namespace Timeline

/-- The result of decoding. -/
abbrev Decoded (α : Type) := Except DataError α

namespace Form

/-- A truth value. -/
def bool (form : Form) : Datum → Decoded Bool
  | .bool b => .ok b
  | d => .error (form.mismatch d "a boolean")

/-- A text. -/
def text (form : Form) : Datum → Decoded String
  | .text s => .ok s
  | d => .error (form.mismatch d "a string")

/-- A number. -/
def float (form : Form) : Datum → Decoded Float
  | .int n => .ok (Json.Number.int n).toFloat
  | .float x => .ok x
  | d => .error (form.mismatch d "f64")

/-- Nothing, or something that is read by `read`. -/
def optional {α : Type} (read : Datum → Decoded α) : Datum → Decoded (Option α)
  | .null => .ok none
  | d => (read d).map some

/-- The items of a sequence; in YAML nothing stands for no items. -/
def seq (form : Form) : Datum → Decoded (List Datum)
  | .seq items => .ok items
  | .null => if form = yaml then .ok [] else .error (form.mismatch .null "a sequence")
  | d => .error (form.mismatch d "a sequence")

/-- The entries of a mapping; in YAML nothing stands for no entries. -/
def map (form : Form) : Datum → Decoded (List (Datum × Datum))
  | .map pairs => .ok pairs
  | .null => if form = yaml then .ok [] else .error (form.mismatch .null "a map")
  | d => .error (form.mismatch d "a map")

/-- One of some words. -/
def word {α : Type} (known : List (String × α)) (s : String) : Decoded α :=
  match known.lookup s with
  | some a => .ok a
  | none => .error (.unknownVariant s (known.map Prod.fst))

/-- Nothing, as the content of a word that is written as a mapping. -/
def unit (form : Form) : Datum → Decoded Unit
  | .null => .ok ()
  | .map [] => if form = buffered then .ok () else .error (form.mismatch (.map []) "unit")
  | d => .error (form.mismatch d "unit")

/-- A word out of a choice: a text, or in JSON also a mapping of the word to nothing. -/
def choice {α : Type} (form : Form) (known : List (String × α)) : Datum → Decoded α
  | .text s => word known s
  | .map pairs =>
    if form = yaml then .error (form.mismatch (.map pairs) "a Value::Tagged enum")
    else
      match pairs with
      | [(.text s, content)] => do
        let a ← word known s
        form.unit content
        return a
      | _ => .error (.invalidValue "map" "map with a single key")
  | d =>
    .error (form.mismatch d (if form = yaml then "a Value::Tagged enum" else "string or map"))

mutual

/-- Data as a JSON value.  The keys of a mapping must be texts; what is wrong with the first key
is said in other words than what is wrong with a later one. -/
def value (form : Form) : Datum → Decoded Json
  | .null => .ok .null
  | .bool b => .ok (.bool b)
  | .int n => .ok (.num (.int n))
  | .float x => .ok (.ofFloat x)
  | .text s => .ok (.str s)
  | .seq items => (form.valueItems items).map .arr
  | .map pairs => (form.valueFields "a string key" pairs).map .ofFields

/-- Items as JSON values. -/
def valueItems (form : Form) : List Datum → Decoded (List Json)
  | [] => .ok []
  | d :: rest => do
    let v ← form.value d
    let vs ← form.valueItems rest
    return v :: vs

/-- Entries as fields of an object. -/
def valueFields (form : Form) (expected : String) :
    List (Datum × Datum) → Decoded (List (String × Json))
  | [] => .ok []
  | (key, d) :: rest =>
    match key with
    | .text name => do
      let v ← form.value d
      let vs ← form.valueFields "a string" rest
      return (name, v) :: vs
    | key => .error (form.mismatch key expected)

end

end Form

/-- A field of a record that is filled in bit by bit. -/
structure Field (σ : Type) where
  name : String
  /-- Another name of the field. -/
  alias? : Option String := none
  required : Bool := false
  /-- Read the field into the record. -/
  read : Datum → σ → Decoded σ

/-- How a record is read. -/
structure RecordShape (σ : Type) where
  /-- What is expected in its place. -/
  name : String
  /-- The fields in the order of declaration. -/
  fields : List (Field σ)

namespace RecordShape

variable {σ : Type}

/-- A number of items. -/
def elements (n : Nat) : String :=
  toString n ++ (if n = 1 then " element" else " elements")

/-- The field that a key stands for. -/
def field? (shape : RecordShape σ) (key : String) : Option (Field σ) :=
  shape.fields.find? fun f => f.name == key || f.alias? == some key

/-- Read the entries of a mapping in order.  Unknown keys are passed over. -/
def readEntries (shape : RecordShape σ) (form : Form) (seen : List String) :
    List (Datum × Datum) → σ → Decoded σ
  | [], record => .ok record
  | (.text key, d) :: rest, record =>
    match shape.field? key with
    | none => shape.readEntries form seen rest record
    | some f =>
      if f.name ∈ seen then .error (.duplicateField f.name)
      else do
        let record ← f.read d record
        shape.readEntries form (f.name :: seen) rest record
  | (key, _) :: _, _ => .error (form.mismatch key "field identifier")

/-- Read the items of a sequence into the fields; `index` items are read already. -/
def readItems (shape : RecordShape σ) (form : Form) (total index : Nat) :
    List (Field σ) → List Datum → σ → Decoded σ
  | [], [], record => .ok record
  | [], _ :: _, _ =>
    .error (.invalidLength total
      (if form = .buffered then elements index ++ " in sequence" else "fewer elements in array"))
  | f :: fields, [], record =>
    if f.required then
      .error (.invalidLength index
        (shape.name ++ " with " ++ elements shape.fields.length))
    else shape.readItems form total (index + 1) fields [] record
  | f :: fields, d :: rest, record => do
    let record ← f.read d record
    shape.readItems form total (index + 1) fields rest record

/-- Read a record, starting from one without fields. -/
def read (shape : RecordShape σ) (form : Form) (start : σ) : Datum → Decoded σ
  | .map pairs => shape.readEntries form [] pairs start
  | .seq items =>
    if form = .yaml then .error (form.mismatch (.seq items) shape.name)
    else shape.readItems form items.length 0 shape.fields items start
  | .null => if form = .yaml then .ok start else .error (form.mismatch .null shape.name)
  | d => .error (form.mismatch d shape.name)

end RecordShape

/-- A field that must have been there. -/
def need {α : Type} (name : String) : Option α → Decoded α
  | some a => .ok a
  | none => .error (.missingField name)

end Timeline
