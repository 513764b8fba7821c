/-
Timeline/Machine/Basic.lean

Machines: a program with its settings, the values that a rewind restores, and the
time that a vibration takes.  What changes while a machine is driven are its
registers, which one step at a time owns.
-/
import Timeline.Machine.Settings
import Timeline.Program.Brackets
import Timeline.Stage.Ride

namespace Timeline

/-- What stays the same while a machine is driven. -/
structure Machine where
  program : Program
  settings : Settings := {}
  /-- The values that a rewind restores. -/
  initial : Table Float := {}
  /-- The time that a vibration takes; absent if there is nothing that can vibrate. -/
  haptics : Option Duration := none

/-- The registers of a machine. -/
structure Registers where
  /-- The index of the step to execute next. -/
  cursor : Nat := 0
  /-- Where the step after the last `goto` is, until a `resume` takes it. -/
  returnTo : Option Nat := none
  /-- Whether a vibration was felt in this pass. -/
  vibrated : Bool := false
  /-- Whether a `stop` step has ended the run. -/
  stopped : Bool := false
deriving DecidableEq, Repr

namespace Registers

/-- The registers at the begin of another pass. -/
def restart (r : Registers) : Registers :=
  { r with cursor := 0, returnTo := none, vibrated := false }

end Registers

namespace Machine

/-- A machine on the values that a driver holds. -/
def ofDriver (program : Program) (settings : Settings) (driver : Driver Float) : Machine :=
  { program, settings, initial := ⟨driver.values⟩ }

/-- The position at an index. -/
def position (m : Machine) (index : Nat) : Position :=
  ⟨index, (m.program.display? index).getD ""⟩

end Machine

end Timeline
