/-
Timeline/Machine/Clock.lean

The clock of a machine.  Time stands still while somebody can go on, and then
moves on to the next alarm; the calls whose alarms go off go on in the order in
which the alarms were set.
-/
import Timeline.Machine.Drive

namespace Timeline.Config

/-- The alarms of all calls. -/
def alarms (c : Config) : List (Alarm × Nat) :=
  c.tasks.filterMap fun (id, phase) => phase.alarm?.map fun alarm => (alarm, id)

/-- The time of the next alarm. -/
def nextDue? (c : Config) : Option Nat :=
  (Alarm.first? (c.alarms.map Prod.fst)).map Alarm.due

/-- Set the clock to a time, and wake those whose alarms are due. -/
def tick (c : Config) (time : Nat) : Config :=
  let due := (c.alarms.filter fun a => a.1.due ≤ time).mergeSort fun a b => !b.1.before a.1
  due.foldl (fun c a => c.wake a.2) { c with stage := { c.stage with now := time } }

/-- Let the time pass up to a limit, alarm by alarm; `rounds` bounds the number of alarms. -/
def pass (m : Machine) (fuel limit : Nat) : Nat → Config → Config
  | 0, c => c
  | rounds + 1, c =>
    match c.nextDue? with
    | none => { c with stage := { c.stage with now := limit } }
    | some due =>
      if due ≤ limit then pass m fuel limit rounds ((c.tick due).settle m fuel)
      else { c with stage := { c.stage with now := limit } }

/-- Let a number of milliseconds pass.  Every alarm moves the clock on, so that there is at most
one round for every millisecond. -/
def wait (m : Machine) (fuel : Nat) (ms : Nat) (c : Config) : Config :=
  c.pass m fuel (c.stage.now + ms) (ms + 1)

end Timeline.Config
