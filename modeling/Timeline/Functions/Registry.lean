/-
Timeline/Functions/Registry.lean

The registry of functions: every name stands for a function, and for every
function the calls since it was registered are counted.
-/
import Timeline.Functions.Routine
import Timeline.Table

namespace Timeline

/-- A registered function and the number of its calls. -/
structure Registered where
  handler : Handler
  calls : Nat := 0

/-- The functions of the surroundings, by name. -/
structure Registry where
  functions : Table Registered := {}

namespace Registry

/-- The registry without functions. -/
def empty : Registry := {}

/-- Register a function under a name, in place of any other, with no calls counted. -/
def register (r : Registry) (name : String) (handler : Handler) : Registry :=
  ⟨r.functions.put name ⟨handler, 0⟩⟩

/-- Remove a function. -/
def unregister (r : Registry) (name : String) : Registry :=
  ⟨r.functions.erase name⟩

/-- A registry of some functions; of two of one name the later stands. -/
def ofList (functions : List (String × Handler)) : Registry :=
  functions.foldl (fun r f => r.register f.1 f.2) empty

/-- Whether a name is registered. -/
def contains (r : Registry) (name : String) : Bool :=
  r.functions.contains name

/-- The registered names, in ascending order. -/
def names (r : Registry) : List String :=
  r.functions.sortedNames

/-- The number of functions. -/
def size (r : Registry) : Nat :=
  r.functions.size

/-- Call a function: what the call does, and the registry with the call counted.  Absent for a
name that is not registered. -/
def call? (r : Registry) (name : String) (arg : Option Json) : Option (Routine × Registry) :=
  (r.functions.get? name).map fun f =>
    (f.handler (f.calls + 1) arg, ⟨r.functions.put name ⟨f.handler, f.calls + 1⟩⟩)

end Registry

end Timeline
