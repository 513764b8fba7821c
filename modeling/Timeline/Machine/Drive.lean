/-
Timeline/Machine/Drive.lean

How the calls drive a machine, one small step at a time.  The first one of the
calls that can go on does its next small step; it stays the first one until its
turn is over.

A run takes the registers for every step anew, so that other calls come in
between.  It ends when the program ends, when a `stop` step was executed, or when
the machine was stopped after the run began; at the end of a program that loops
it begins another pass.
-/
import Timeline.Machine.Config

namespace Timeline.Config

/-- Execute the step at the cursor, as the owner of the registers. -/
def beginStep (m : Machine) (c : Config) (id : Nat) (who : Stepper) : Config :=
  let index := c.registers.cursor
  match m.program.step? index with
  | none => c.unlock.finish id (.ok ())
  | some step =>
    let c := { c with stage := c.stage.publish (m.position index) }.note (.began id index)
    let (registers, activity) := m.begin index step.action c.registers
    let c := { c with registers }.setPhase id (.stepping who index activity)
    match activity with
    | .holding _ => ({ c with hold := some id }.note (.parked id)).notify
    | _ => c

/-- A step is over: move the cursor and give the registers up. -/
def endStep (m : Machine) (c : Config) (id : Nat) (who : Stepper) (index : Nat) (flow : Flow) :
    Config :=
  let cursor := flow.next index
  let wraps := who = .next && m.settings.drive = .manual && m.program.length ≤ cursor
  let c := { c with registers := { c.registers with cursor := if wraps then 0 else cursor } }
  let c := (c.note (.ended id index flow)).unlock
  match who with
  | .run epoch => c.setPhase id (.seeking (.step epoch))
  | .next => c.finish id (.ok ())

/-- A step fails: give the registers up as they are. -/
def failStep (c : Config) (id : Nat) (who : Stepper) (index : Nat) (e : StepError) : Config :=
  let c := (c.note (.failed id index e)).unlock
  match who with
  | .run _ => c.finishRun id (.error e)
  | .next => c.finish id (.error e)

/-- Begin anew with the initial values. -/
def rewind (m : Machine) (c : Config) (id : Nat) : Config :=
  let restore (s : Stage) (entry : String × Float) : Stage :=
    let (known, s) := s.set entry.1 entry.2
    s.note (.set entry.1 entry.2 known)
  let stage := (m.initial.entries.foldl restore c.stage).publish (m.position 0)
  ({ c with registers := {}, stage }.note (.rewound id)).unlock.finish id (.ok ())

/-- Do what the registers were wanted for, as their new owner. -/
def enter (m : Machine) (c : Config) (id : Nat) : Purpose → Config
  | .clear epoch =>
    let c := { c with registers := { c.registers with stopped := false } }
    c.unlock.setPhase id (.seeking (.step epoch))
  | .step epoch =>
    if c.epoch ≠ epoch || c.registers.stopped then c.unlock.finishRun id (.ok ())
    else if m.program.length ≤ c.registers.cursor then
      if m.settings.looping && 0 < m.program.length then
        c.unlock.setPhase id (.seeking (.restart epoch))
      else c.unlock.finishRun id (.ok ())
    else c.beginStep m id (.run epoch)
  | .restart epoch =>
    if c.epoch ≠ epoch then c.unlock.finishRun id (.ok ())
    else
      let c := { c with registers := c.registers.restart }.note (.restarted id)
      (c.unlock.setPhase id (.seeking (.step epoch))).yield id
  | .next seek =>
    let cursor := seek.getD c.registers.cursor
    let cursor := if m.program.length ≤ cursor then 0 else cursor
    { c with registers := { c.registers with cursor } }.beginStep m id .next
  | .rewind => c.rewind m id

/-- Ask for the registers.  Who has the power to release a hold does that first: a call for a step
is over then, a rewind goes on. -/
def seek (m : Machine) (c : Config) (id : Nat) (purpose : Purpose) : Config :=
  match purpose.release?, c.hold with
  | some release, some holder =>
    let c := c.releaseHold id holder release
    if purpose = .rewind then c else c.finish id (.ok ())
  | release?, _ =>
    if c.stage.turn = 0 then c.yield id
    else if c.lock.owner = none then
      { c with
        lock := { c.lock with owner := some id }, stage := c.stage.spend }.enter m id purpose
    else if release?.isSome && c.signal.permit then
      { c with signal := { c.signal with permit := false } }
    else
      let c := { c with lock := { c.lock with queue := c.lock.queue ++ [id] } }
      let c := if release?.isSome then
          { c with signal := { c.signal with listeners := c.signal.listeners ++ [id] } }
        else c
      (c.setPhase id (.queued purpose)).block

/-- Go on in the queue for the registers: as their new owner, or to release a hold. -/
def leaveQueue (m : Machine) (c : Config) (id : Nat) (purpose : Purpose) : Config :=
  if c.lock.owner = some id then
    let c := { c with stage := c.stage.spend }
    (if purpose.release?.isSome then c.unlisten id else c).enter m id purpose
  else if id ∈ c.signal.notified then
    { c with
      lock := { c.lock with queue := c.lock.queue.erase id }
      signal := { c.signal with notified := c.signal.notified.erase id }
    }.setPhase id (.seeking purpose)
  else c.block

/-- A call has just been issued. -/
def accept (m : Machine) (c : Config) (id : Nat) : Call → Config
  | .start =>
    if m.settings.drive = .manual || c.running then c.finish id (.ok ())
    else { c with running := true }.setPhase id (.seeking (.clear c.epoch))
  | .next none =>
    if m.program.length = 0 then c.finish id (.ok ())
    else c.setPhase id (.seeking (.next none))
  | .next (some label) =>
    match m.program.labelIndex? label with
    | none => c.finish id (.error (.unknownLabel label))
    | some index =>
      if m.program.length = 0 then c.finish id (.ok ())
      else c.setPhase id (.seeking (.next (some index)))
  | .stop => { c with epoch := c.epoch + 1 }.setPhase id (.seeking .rewind)
  | .reset => c.setPhase id (.seeking .rewind)
  | .animate batch => c.setPhase id (.moving (.ofBatch batch))

/-- The next small step of a call in a phase. -/
def advance (m : Machine) (c : Config) (id : Nat) : Phase → Config
  | .issued call => c.accept m id call
  | .seeking purpose => c.seek m id purpose
  | .queued purpose => c.leaveQueue m id purpose
  | .stepping who index activity =>
    match activity.poll c.stage with
    | (stage, .busy activity) =>
      ({ c with stage }.setPhase id (.stepping who index activity)).pause id
    | (stage, .finished (.ok flow)) => { c with stage }.endStep m id who index flow
    | (stage, .finished (.error e)) => { c with stage }.failStep id who index e
  | .moving convoy =>
    match convoy.poll false c.stage with
    | (stage, .busy convoy) => ({ c with stage }.setPhase id (.moving convoy)).pause id
    | (stage, .finished result) => { c with stage }.finish id result

/-- The next small step. -/
def step (m : Machine) (c : Config) : Config :=
  match c.ready with
  | [] => { c with ready := c.yielded, yielded := [] }
  | id :: _ =>
    match c.phase? id with
    | some phase => c.advance m id phase
    | none => c.block

/-- Go on until nobody can, for a number of small steps at most. -/
def settle (m : Machine) : Nat → Config → Config
  | 0, c => c
  | fuel + 1, c => if c.quiet then c else settle m fuel (c.step m)

end Timeline.Config
