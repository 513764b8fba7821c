/-
Timeline/Stage/Basic.lean

The stage: the surroundings in which steps act.  It holds the clock, the driver of
the values, the registry of functions, the published position, and the journal of
all that has happened.  Time is counted in whole milliseconds; who waits sets an
alarm, and alarms of one moment go off in the order in which they were set.

Those who act on the stage take turns.  A turn is over when the one whose turn it
is has to wait, but also when so many of his waits have come to an end that he has
to let others go first: then no alarm goes off for him before his next turn.
-/
import Timeline.Functions.Registry
import Timeline.Stage.Event
import Timeline.Values.Motion

namespace Timeline

/-- When somebody who waits is woken. -/
structure Alarm where
  due : Nat
  /-- The number of alarms that were set before. -/
  ticket : Nat := 0
  /-- Whether the alarm is set; it is not set as long as there is no turn left to set it in. -/
  isSet : Bool := false
deriving DecidableEq, Repr

namespace Alarm

/-- Whether an alarm goes off before another one. -/
def before (a b : Alarm) : Bool :=
  a.due < b.due || (a.due == b.due && a.ticket < b.ticket)

/-- The first one of some alarms. -/
def first? : List Alarm → Option Alarm
  | [] => none
  | a :: rest =>
    match first? rest with
    | none => some a
    | some b => some (if b.before a then b else a)

end Alarm

/-- The number of waits that come to an end in one turn at most. -/
def Stage.fullTurn : Nat := 128

/-- The surroundings in which steps act. -/
structure Stage where
  now : Nat := 0
  driver : Driver Float
  functions : Registry
  position : Position
  /-- The number of alarms that were set. -/
  tickets : Nat := 0
  /-- How many more waits may come to an end in this turn. -/
  turn : Nat := Stage.fullTurn
  /-- What has happened, the latest first. -/
  journal : List Record := []

namespace Stage

/-- Record an event. -/
def note (s : Stage) (event : Event) : Stage :=
  { s with journal := ⟨s.now, s.position.index, event⟩ :: s.journal }

/-- The turn of somebody else begins. -/
def nextTurn (s : Stage) : Stage :=
  { s with turn := fullTurn }

/-- A wait has come to an end. -/
def spend (s : Stage) : Stage :=
  { s with turn := s.turn - 1 }

/-- An alarm for the end of a span of time, which is still to be set. -/
def alarmAfter (s : Stage) (time : Duration) : Alarm :=
  { due := s.now + time.ceilMillis }

/-- Set an alarm, if there is a turn left to set it in. -/
def setAlarm (s : Stage) (a : Alarm) : Alarm × Stage :=
  (⟨a.due, s.tickets, 0 < s.turn⟩, { s with tickets := s.tickets + 1 })

/-- Wait for an alarm: what there is still to wait for, which is nothing if the alarm goes off. -/
def await (s : Stage) (a : Alarm) : Option Alarm × Stage :=
  if a.due ≤ s.now && 0 < s.turn then (none, s.spend)
  else if s.now < a.due && a.isSet then (some a, s)
  else
    let (a, s) := s.setAlarm a
    (some a, s)

/-- An alarm goes off when its time has come, for those who still have a turn. -/
theorem await_fst_eq_none_iff {s : Stage} {a : Alarm} :
    (s.await a).1 = none ↔ a.due ≤ s.now ∧ 0 < s.turn := by
  simp only [await, Bool.and_eq_true, decide_eq_true_eq]
  split
  · simp_all
  · split <;> simp_all

/-- Write a target at once, if it is known. -/
def set (s : Stage) (target : String) (value : Float) : Bool × Stage :=
  match s.driver.set? target value with
  | some driver => (true, { s with driver }.note (.wrote target value))
  | none => (false, s)

@[simp] theorem turn_set (s : Stage) (target : String) (value : Float) :
    (s.set target value).2.turn = s.turn := by
  unfold set
  split <;> rfl

@[simp] theorem functions_set (s : Stage) (target : String) (value : Float) :
    (s.set target value).2.functions = s.functions := by
  unfold set
  split <;> rfl

/-- Publish a position. -/
def publish (s : Stage) (position : Position) : Stage :=
  { s with position }.note (.published position)

/-- Call a registered function. -/
def call? (s : Stage) (name : String) (arg : Option Json) : Option (Routine × Stage) :=
  (s.functions.call? name arg).map fun (routine, functions) =>
    (routine, { s with functions }.note (.called name arg))

theorem call?_eq_some {s s' : Stage} {name : String} {arg : Option Json} {routine : Routine}
    (h : s.call? name arg = some (routine, s')) :
    ∃ functions, s.functions.call? name arg = some (routine, functions) ∧
      s' = { s with functions }.note (.called name arg) := by
  obtain ⟨⟨_, functions⟩, hcall, he⟩ := Option.map_eq_some_iff.1 h
  obtain ⟨rfl, rfl⟩ := Prod.mk.inj he
  exact ⟨functions, hcall, rfl⟩

end Stage

end Timeline
