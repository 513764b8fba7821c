/-
Timeline/Machine/Config.lean

Configurations: a machine that is being driven, together with the calls that
drive it.

The registers are owned by one call at a time.  Others queue for them, first come
first served; who gives them up hands them to the first one in the queue.  A
`hold` step keeps the registers while it is parked, so whoever has the power to
let it go does not only queue for the registers but also listens for a signal
that a hold was parked.  The signal wakes one listener; if there is none, it is
kept for the next one that comes.

Calls that can go on stand in a list and go on one after the other; each goes on
until it has to wait or until its turn is used up.  Then it goes on once nobody
else can.  To take the registers is a wait that comes to an end, like an alarm that
goes off.
-/
import Timeline.Machine.Execution

namespace Timeline

/-- A call from outside. -/
inductive Call where
  /-- Run the program from the cursor on. -/
  | start
  /-- Execute one step, perhaps the one at a label; or release a parked hold. -/
  | next (label : Option String)
  /-- End the run, and rewind. -/
  | stop
  /-- Rewind: begin anew with the initial values. -/
  | reset
  /-- Animate values directly. -/
  | animate (batch : List (String × Animation Float))

/-- What a call wants the registers for. -/
inductive Purpose where
  /-- To take back an earlier `stop` step before a run begins. -/
  | clear (epoch : Nat)
  /-- To execute the next step of a run. -/
  | step (epoch : Nat)
  /-- To begin another pass of a run. -/
  | restart (epoch : Nat)
  /-- To execute one step. -/
  | next (seek : Option Nat)
  | rewind
deriving DecidableEq, Repr

/-- How a call lets a parked hold go, if it has the power to. -/
def Purpose.release? : Purpose → Option Release
  | next seek => some (.resumed seek)
  | rewind => some .dropped
  | _ => none

/-- Who executes a step. -/
inductive Stepper where
  | run (epoch : Nat)
  | next
deriving DecidableEq, Repr

/-- How far a call has come. -/
inductive Phase where
  | issued (call : Call)
  /-- About to ask for the registers. -/
  | seeking (purpose : Purpose)
  /-- In the queue for the registers. -/
  | queued (purpose : Purpose)
  /-- Executing a step, as the owner of the registers. -/
  | stepping (who : Stepper) (index : Nat) (activity : Activity)
  /-- Waiting for animations. -/
  | moving (convoy : Convoy)

/-- The alarm that wakes a call. -/
def Phase.alarm? : Phase → Option Alarm
  | stepping _ _ activity => Alarm.first? activity.alarms
  | moving convoy => Alarm.first? convoy.alarms
  | _ => none

/-- The owner of the registers, and those who queue for them. -/
structure Lock where
  owner : Option Nat := none
  queue : List Nat := []
deriving DecidableEq, Repr

/-- The signal that a hold was parked. -/
structure Signal where
  /-- Whether a signal is kept for the next listener. -/
  permit : Bool := false
  listeners : List Nat := []
  /-- Listeners that the signal has reached, but that have not gone on yet. -/
  notified : List Nat := []
deriving DecidableEq, Repr

/-- A machine that is being driven. -/
structure Config where
  stage : Stage
  registers : Registers := {}
  lock : Lock := {}
  /-- The call whose hold is parked. -/
  hold : Option Nat := none
  signal : Signal := {}
  /-- The number of calls to stop. -/
  epoch : Nat := 0
  /-- Whether a run is active. -/
  running : Bool := false
  /-- The number of calls that were issued. -/
  calls : Nat := 0
  /-- The calls that are not over. -/
  tasks : List (Nat × Phase) := []
  /-- The calls that can go on, in order; the first one is going on. -/
  ready : List Nat := []
  /-- The calls that go on once nobody else can. -/
  yielded : List Nat := []

namespace Config

/-- The phase of a call that is not over. -/
def phase? (c : Config) (id : Nat) : Option Phase :=
  c.tasks.lookup id

/-- Replace the phase of a call. -/
def setPhase (c : Config) (id : Nat) (phase : Phase) : Config :=
  { c with tasks := c.tasks.map fun t => if t.1 = id then (id, phase) else t }

/-- Record an event. -/
def note (c : Config) (event : Event) : Config :=
  { c with stage := c.stage.note event }

/-- Let a call go on after all others that can, if it does not go on anyway. -/
def wake (c : Config) (id : Nat) : Config :=
  if id ∈ c.ready || id ∈ c.yielded then c else { c with ready := c.ready ++ [id] }

/-- The turn of the call that is going on is over: it has to wait. -/
def block (c : Config) : Config :=
  { c with ready := c.ready.tail, stage := c.stage.nextTurn }

/-- The call that is going on lets all others go first. -/
def yield (c : Config) (id : Nat) : Config :=
  { c with yielded := c.yielded ++ [id] }.block

/-- The call that is going on comes to no result: it waits for what it is busy with, or for its next
turn if this one is used up. -/
def pause (c : Config) (id : Nat) : Config :=
  if c.stage.turn = 0 then c.yield id else c.block

/-- The call that is going on is over. -/
def finish (c : Config) (id : Nat) (result : Except StepError Unit) : Config :=
  { c with tasks := c.tasks.filter fun t => t.1 ≠ id }.block.note (.returned id result)

/-- The run that is going on is over. -/
def finishRun (c : Config) (id : Nat) (result : Except StepError Unit) : Config :=
  { c with running := false }.finish id result

/-- Hand the registers to the first one in the queue. -/
def unlock (c : Config) : Config :=
  match c.lock.queue with
  | [] => { c with lock := {} }
  | id :: queue => { c with lock := ⟨some id, queue⟩ }.wake id

/-- Signal that a hold was parked. -/
def notify (c : Config) : Config :=
  match c.signal.listeners with
  | [] => { c with signal := { c.signal with permit := true } }
  | id :: listeners =>
    { c with
      signal := { c.signal with listeners, notified := c.signal.notified ++ [id] } }.wake id

/-- Stop listening; a signal that has come already goes to somebody else. -/
def unlisten (c : Config) (id : Nat) : Config :=
  if id ∈ c.signal.notified then
    { c with signal := { c.signal with notified := c.signal.notified.erase id } }.notify
  else
    { c with signal := { c.signal with listeners := c.signal.listeners.erase id } }

/-- Let a parked hold go. -/
def releaseHold (c : Config) (id holder : Nat) (release : Release) : Config :=
  let c := { c with hold := none }
  let c := match c.phase? holder with
    | some (.stepping who index (.holding none)) =>
      c.setPhase holder (.stepping who index (.holding (some release)))
    | _ => c
  (c.note (.released id holder release)).wake holder

/-- Issue a call. -/
def issue (c : Config) (call : Call) : Config :=
  { c with
    calls := c.calls + 1
    tasks := c.tasks ++ [(c.calls, .issued call)]
    ready := c.ready ++ [c.calls] }

/-- Nobody can go on. -/
def quiet (c : Config) : Bool :=
  c.ready.isEmpty && c.yielded.isEmpty

/-- The registers, if nobody owns them and nobody queues for them. -/
def registers? (c : Config) : Option Registers :=
  if c.lock.owner = none ∧ c.lock.queue = [] then some c.registers else none

/-- A machine that nobody drives, on a stage. -/
def ofStage (stage : Stage) : Config where
  stage := stage

end Config

end Timeline
