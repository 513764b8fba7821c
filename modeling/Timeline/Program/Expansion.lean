/-
Timeline/Program/Expansion.lean

Expanding a scenario.  Its entries are read in order; steps are appended to the
program, and a `use` step is replaced by the steps of its block, which may use
further blocks but none that is being expanded already.  An entry that is no
step, or that has not the shape of one, is reported and left out.

Every label may be defined once; only the labels outside of all blocks get into
the table of the program.
-/
import Timeline.Program.Basic
import Timeline.Program.Error
import Timeline.Scenario.Decode

namespace Timeline

/-! ### Entries -/

/-- The words for what stands in the place of an object. -/
def Json.noun : Json → String
  | .null => "null"
  | .bool _ => "a boolean"
  | .num _ => "a number"
  | .str _ => "a string"
  | .arr _ => "an array"
  | .obj _ => "an object"

/-- The fault of an object that cannot be read as a step, by the kind it claims to be. -/
def Fault.ofUnreadable (v : Json) (reason : String) : Fault :=
  match v.field? "type" with
  | some (.str "label") => .missingLabel
  | some (.str "ifJump") => .invalidIfJump reason
  | some (.str "parallel") => .invalidParallel reason
  | _ => .invalidStep reason

/-- The step of an entry. -/
def Entry.read : Entry → Except Fault Step
  | .step s => .ok s
  | .raw (.obj fields) =>
    match Step.ofJson (.obj fields) with
    | .ok s => .ok s
    | .error e => .error (.ofUnreadable (.obj fields) e.message)
  | .raw v => .error (.invalidStep ("expected an object, found " ++ v.noun))

/-- What is wrong with a step that could be read. -/
def Step.shapeFaults (s : Step) : List Fault :=
  match s.action with
  | .label name => if name = "" then [.missingLabel] else []
  | .ifJump condition onTrue _ =>
    (if condition.isLiteral then
      [.invalidIfJump "condition must be a function or a named reference"] else []) ++
    (if onTrue = "" then [.invalidIfJump "labelTrue must be a non-empty string"] else [])
  | .parallel tweens =>
    (if tweens = [] then [.invalidParallel "targets must not be empty"] else []) ++
    tweens.zipIdx.filterMap fun (tween, i) =>
      if tween.target = "" then
        some (.invalidParallel ("entry " ++ toString i ++ " has an empty target"))
      else none
  | _ => []

/-! ### The draft of a program -/

/-- A program under construction. -/
structure Draft where
  steps : List FlatStep := []
  labels : Table Nat := {}
  /-- The labels that were defined so far, in blocks or outside. -/
  seen : List String := []
  errors : List CompileError := []

namespace Draft

/-- Where the entry at a position of the innermost open block is found. -/
def locate (d : Draft) (path : List String) (position : Nat) : Location :=
  ⟨d.steps.length, path.head?, some position⟩

/-- Report faults. -/
def report (d : Draft) (location : Location) (faults : List Fault) : Draft :=
  { d with errors := d.errors ++ faults.map fun fault => ⟨location, fault⟩ }

/-- Append a step. -/
def push (d : Draft) (step : Step) (path : List String) : Draft :=
  { d with steps := d.steps ++ [⟨step, path.head?⟩] }

/-- Define a label at the end of the program. -/
def define (d : Draft) (name : String) (path : List String) (location : Location) : Draft :=
  if name ∈ d.seen then d.report location [.duplicateLabel name]
  else
    let d := { d with seen := name :: d.seen }
    if path = [] then { d with labels := d.labels.put name d.steps.length } else d

/-- The program as far as it is known. -/
def program (d : Draft) : Program :=
  ⟨d.steps, d.labels⟩

end Draft

/-! ### Expansion -/

namespace Blocks

/-- The number of blocks that are not open. -/
def closed (blocks : Blocks) (path : List String) : Nat :=
  (blocks.names.filter fun name => name ∉ path).length

/-- Opening a registered block leaves fewer that are not open. -/
theorem closed_cons_lt {blocks : Blocks} {path : List String} {name : String}
    (hopen : name ∉ path) (h : name ∈ blocks.names) :
    blocks.closed (name :: path) < blocks.closed path := by
  have sub : ∀ names : List String, name ∈ names →
      (names.filter fun n => n ∉ name :: path).length
        < (names.filter fun n => n ∉ path).length := by
    intro names hmem
    have split : (names.filter fun n => n ∉ name :: path)
        = (names.filter fun n => n ∉ path).filter fun n => n ≠ name := by
      rw [List.filter_filter]
      congr 1
      funext n
      simp
    rw [split]
    refine List.length_filter_lt_length_iff_exists.2 ⟨name, ?_, ?_⟩
    · simp [hmem, hopen]
    · simp
  exact sub blocks.names h

/-- Expand the entries from a position on of the innermost open block; `path` holds the names of
the open blocks, the innermost first. -/
def expand (blocks : Blocks) (path : List String) (position : Nat) (entries : List Entry)
    (d : Draft) : Draft :=
  match entries with
  | [] => d
  | entry :: rest =>
    let location := d.locate path position
    let d := match entry.read with
      | .error fault => d.report location [fault]
      | .ok step =>
        if step.shapeFaults ≠ [] then d.report location step.shapeFaults
        else
          match step.action with
          | .use block =>
            if _open : block ∈ path then d.report location [.circularBlock block]
            else
              match _found : blocks.get? block with
              | none => d.report location [.blockNotFound block]
              | some scenario => blocks.expand (block :: path) 0 scenario d
          | .label name => (d.define name path location).push step path
          | _ => d.push step path
    blocks.expand path (position + 1) rest d
termination_by (blocks.closed path, entries.length)
decreasing_by
  · exact .left _ _ (closed_cons_lt _open (Table.mem_names_of_get? _found))
  · exact .right _ (by simp)

end Blocks

/-- The draft of the program of a scenario. -/
def Scenario.draft (scenario : Scenario) (blocks : Blocks) : Draft :=
  blocks.expand [] 0 scenario {}

end Timeline
