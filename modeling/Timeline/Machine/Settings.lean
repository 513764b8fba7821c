/-
Timeline/Machine/Settings.lean

Settings of a machine: whether a run starts over at the end, which vibrations are
felt, and whether the machine runs by itself or step by step.
-/
import Timeline.Data.Decode

namespace Timeline

/-- Which `vibrate` steps are felt. -/
inductive Vibration where
  /-- The first one of every pass. -/
  | once
  | always
deriving DecidableEq, Repr, Inhabited

/-- How a machine is driven. -/
inductive Drive where
  /-- A run executes step after step. -/
  | auto
  /-- Every call for a step executes one. -/
  | manual
deriving DecidableEq, Repr, Inhabited

/-- The settings of a machine. -/
structure Settings where
  looping : Bool := false
  vibration : Vibration := .once
  drive : Drive := .auto
deriving DecidableEq, Repr, Inhabited

/-- The word for a manner of vibration. -/
def Vibration.name : Vibration → String
  | once => "once"
  | always => "always"

/-- The word for a manner of driving. -/
def Drive.name : Drive → String
  | auto => "auto"
  | manual => "manual"

namespace Settings

/-- How settings are read. -/
def shape (form : Form) : RecordShape Settings where
  name := "struct MachineConfig"
  fields := [
    { name := "loop"
      read := fun d s => do return { s with looping := ← form.bool d } },
    { name := "vibration_mode", alias? := some "vibrationMode"
      read := fun d s => do
        let vibration ← form.choice ([.once, .always].map fun v => (Vibration.name v, v)) d
        return { s with vibration } },
    { name := "mode"
      read := fun d s => do
        let drive ← form.choice ([.auto, .manual].map fun m => (Drive.name m, m)) d
        return { s with drive } }]

/-- Read settings; what is not given has its default. -/
def decode (form : Form) (d : Datum) : Decoded Settings :=
  (shape form).read form {} d

end Settings

end Timeline
