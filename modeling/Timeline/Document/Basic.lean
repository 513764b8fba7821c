/-
Timeline/Document/Basic.lean

Documents: everything that is needed to compile and to run a timeline.
-/
import Timeline.Machine.Settings
import Timeline.Program.Compile

namespace Timeline

/-- A timeline with all that belongs to it. -/
structure Document where
  settings : Settings := {}
  /-- The initial value of every target. -/
  values : Table Float := {}
  blocks : Blocks := {}
  scenario : Scenario := []

namespace Document

/-- Read the initial values. -/
def decodeValues (form : Form) (d : Datum) : Decoded (Table Float) := do
  let pairs ← form.map d
  let named ← pairs.mapM fun (key, value) => do
    let name ← form.text key
    let x ← form.float value
    return (name, x)
  return .ofList named

/-- How a document is read. -/
def shape (form : Form) : RecordShape Document where
  name := "struct ScenarioDocument"
  fields := [
    { name := "config"
      read := fun d r => do return { r with settings := ← Settings.decode form d } },
    { name := "initial_values", alias? := some "initialValues"
      read := fun d r => do return { r with values := ← decodeValues form d } },
    { name := "blocks"
      read := fun d r => do return { r with blocks := ← Blocks.decode form d } },
    { name := "scenario"
      read := fun d r => do return { r with scenario := ← Scenario.decode form d } }]

/-- Read a document; what is not given is empty. -/
def decode (form : Form) (d : Datum) : Decoded Document :=
  (shape form).read form {} d

/-- The first initial value that is not finite. -/
def badValue? (doc : Document) : Option (String × Float) :=
  doc.values.entries.find? fun entry => !entry.2.isFinite

/-- The options to compile a document, given the names of the functions. -/
def options (doc : Document) (functions : List String) : CompileOptions :=
  { blocks := doc.blocks, values := doc.values, functions }

/-- Compile the scenario of a document. -/
def compile (doc : Document) (functions : List String) : Except (List CompileError) Compilation :=
  doc.scenario.compile? (doc.options functions)

end Document

end Timeline
