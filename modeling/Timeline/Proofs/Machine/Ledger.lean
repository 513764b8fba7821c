/-
Timeline/Proofs/Machine/Ledger.lean

What one small step of a call can do, said once.

The ledger of a configuration is all of it but the lists of those who can go on.
`Ledger.Deed` has one constructor for every thing that a call can do in one small
step, with all that must be so for it and all that changes; `Ledger.Entry` and
`Ledger.Begins` do the same for a call that has just become the owner of the
registers, and for a step that begins.  Every deed comes with its milestones, which
are the events that whoever drives a machine records.

Main results: a small step of an orderly configuration is a deed
(`Config.Ordered.deed`), and whatever happens is a deed, a new call, or something
outside that leaves everything but the stage alone (`Config.Ordered.turn`).
-/
import Timeline.Proofs.Machine.Underway

namespace Timeline

open Relation

/-! ### Milestones -/

/-- Whether an event is recorded by whoever drives a machine; all others are recorded by those who
act on the stage. -/
def Event.isMilestone : Event → Bool
  | .called _ _ | .missed _ | .set _ _ _ | .animate _ _ | .animated _ _ | .vibrated
  | .wrote _ _ => false
  | _ => true

/-- The call that records a milestone. -/
def Event.call? : Event → Option Nat
  | .began call _ | .ended call _ _ | .failed call _ _ | .parked call | .released call _ _
  | .restarted call | .rewound call | .returned call _ => some call
  | _ => none

namespace Stage

variable {s s' : Stage}

/-- The milestones in the journal, the latest first. -/
def milestones (s : Stage) : List Event :=
  (s.journal.map Record.event).filter Event.isMilestone

theorem mem_milestones_iff {e : Event} :
    e ∈ s.milestones ↔ e.isMilestone = true ∧ ∃ r ∈ s.journal, r.event = e := by
  simp [milestones, and_comm]

/-- Nobody who acts on the stage records a milestone. -/
theorem milestones_of_acts {B : Bounds} (h : Acts B s s') : s'.milestones = s.milestones := by
  obtain ⟨new, hnew, hall⟩ := h.frame.journal
  have hnone : (new.map Record.event).filter Event.isMilestone = [] := by
    rw [List.filter_eq_nil_iff]
    intro e he
    obtain ⟨r, hr, rfl⟩ := List.mem_map.1 he
    obtain ⟨-, -, hpermits⟩ := hall r hr
    cases hevent : r.event <;> rw [hevent] at hpermits <;>
      first | exact hpermits.elim | simp [Event.isMilestone]
  rw [milestones, hnew, List.map_append, List.filter_append, hnone]
  rfl

end Stage

/-- How a stage is changed by a rewind. -/
def Machine.restored (m : Machine) (s : Stage) : Stage :=
  m.initial.entries.foldl (fun (s : Stage) entry =>
    let (known, s) := s.set entry.1 entry.2
    s.note (.set entry.1 entry.2 known)) s

/-- The cursor after a step that was executed. -/
def Machine.cursorAfter (m : Machine) (who : Stepper) (index : Nat) (flow : Flow) : Nat :=
  if who = .next ∧ m.settings.drive = .manual ∧ m.program.length ≤ flow.next index then 0
  else flow.next index

/-- The index of the step that a call for one step executes. -/
def Machine.wrap (m : Machine) (index : Nat) : Nat :=
  if m.program.length ≤ index then 0 else index

/-- The signal once somebody does not listen any more; if it has come already it goes to somebody
else. -/
def Signal.without (signal : Signal) (id : Nat) : Signal :=
  if id ∈ signal.notified then { signal with notified := signal.notified.erase id }.sent
  else { signal with listeners := signal.listeners.erase id }

/-! ### Ledgers -/

/-- All of a configuration but the lists of those who can go on. -/
structure Ledger where
  stage : Stage
  registers : Registers
  lock : Lock
  hold : Option Nat
  signal : Signal
  epoch : Nat
  running : Bool
  calls : Nat
  phases : Nat → Option Phase

/-- The ledger of a configuration. -/
def Config.ledger (c : Config) : Ledger :=
  ⟨c.stage, c.registers, c.lock, c.hold, c.signal, c.epoch, c.running, c.calls, c.phase?⟩

namespace Ledger

/-- A call goes over to another phase. -/
def setPhase (l : Ledger) (id : Nat) (phase : Phase) : Ledger :=
  { l with phases := Function.update l.phases id (some phase) }

/-- Record an event. -/
def note (l : Ledger) (e : Event) : Ledger :=
  { l with stage := l.stage.note e }

/-- The turn of whoever is going on is over. -/
def block (l : Ledger) : Ledger :=
  { l with stage := l.stage.nextTurn }

/-- The first one in the queue gets the registers. -/
def unlock (l : Ledger) : Ledger :=
  { l with lock := ⟨l.lock.queue.head?, l.lock.queue.tail⟩ }

/-- A call is over. -/
def finish (l : Ledger) (id : Nat) (result : Except StepError Unit) : Ledger :=
  { l with phases := Function.update l.phases id none }.block.note (.returned id result)

/-- A run is over. -/
def finishRun (l : Ledger) (id : Nat) (result : Except StepError Unit) : Ledger :=
  { l with running := false }.finish id result

/-- A parked hold is let go. -/
def letGo (l : Ledger) (id holder : Nat) (who : Stepper) (index : Nat) (release : Release) :
    Ledger :=
  ({ l with hold := none }.setPhase holder (.stepping who index (.holding (some release)))).note
    (.released id holder release)

section Phases

variable {l : Ledger} {id j : Nat} {phase : Phase} {result : Except StepError Unit}

theorem setPhase_self : (l.setPhase id phase).phases id = some phase :=
  Function.update_self ..

theorem setPhase_of_ne (h : j ≠ id) : (l.setPhase id phase).phases j = l.phases j :=
  Function.update_of_ne h ..

theorem finish_self : (l.finish id result).phases id = none :=
  Function.update_self ..

theorem finish_of_ne (h : j ≠ id) : (l.finish id result).phases j = l.phases j :=
  Function.update_of_ne h ..

theorem letGo_of_ne {holder index : Nat} {who : Stepper} {release : Release} (h : j ≠ holder) :
    (l.letGo id holder who index release).phases j = l.phases j :=
  Function.update_of_ne h ..

end Phases

/-- The step at the cursor begins. -/
inductive Begins (m : Machine) (id : Nat) (who : Stepper) (l : Ledger) :
    List Event → Ledger → Prop
  /-- A hold is parked. -/
  | hold {step : Step} : m.program.step? l.registers.cursor = some step → step.action = .hold →
      Begins m id who l
        [.parked id, .began id l.registers.cursor, .published (m.position l.registers.cursor)]
        ({ l with
            stage := (((l.stage.publish (m.position l.registers.cursor)).note
              (.began id l.registers.cursor)).note (.parked id))
            hold := some id
            signal := l.signal.sent }.setPhase id
          (.stepping who l.registers.cursor (.holding none)))
  /-- Any other step goes over to its activity. -/
  | step {step : Step} {r : Registers} {activity : Activity} :
      m.program.step? l.registers.cursor = some step → step.action ≠ .hold →
      m.begin l.registers.cursor step.action l.registers = (r, activity) →
      Begins m id who l
        [.began id l.registers.cursor, .published (m.position l.registers.cursor)]
        ({ l with
            stage := (l.stage.publish (m.position l.registers.cursor)).note
              (.began id l.registers.cursor)
            registers := r }.setPhase id (.stepping who l.registers.cursor activity))

/-- What a call does that has just become the owner of the registers. -/
inductive Entry (m : Machine) (id : Nat) (l : Ledger) : Purpose → List Event → Ledger → Prop
  /-- A run takes back an earlier `stop` step. -/
  | clear {epoch : Nat} : Entry m id l (.clear epoch) []
      ({ l with registers := { l.registers with stopped := false } }.unlock.setPhase id
        (.seeking (.step epoch)))
  /-- A run is over because it was cancelled, or because of a `stop` step. -/
  | stopped {epoch : Nat} : l.epoch ≠ epoch ∨ l.registers.stopped = true →
      Entry m id l (.step epoch) [.returned id (.ok ())] (l.unlock.finishRun id (.ok ()))
  /-- A run is over at the end of the program. -/
  | finished {epoch : Nat} : l.epoch = epoch → l.registers.stopped = false →
      m.program.length ≤ l.registers.cursor →
      ¬ (m.settings.looping = true ∧ 0 < m.program.length) →
      Entry m id l (.step epoch) [.returned id (.ok ())] (l.unlock.finishRun id (.ok ()))
  /-- A run that loops has come to the end of the program. -/
  | around {epoch : Nat} : l.epoch = epoch → l.registers.stopped = false →
      m.program.length ≤ l.registers.cursor → m.settings.looping = true →
      0 < m.program.length →
      Entry m id l (.step epoch) [] (l.unlock.setPhase id (.seeking (.restart epoch)))
  /-- A run begins a step. -/
  | step {epoch : Nat} {events : List Event} {l' : Ledger} : l.epoch = epoch →
      l.registers.stopped = false → Begins m id (.run epoch) l events l' →
      Entry m id l (.step epoch) events l'
  /-- A run was cancelled before it began another pass. -/
  | cancelled {epoch : Nat} : l.epoch ≠ epoch →
      Entry m id l (.restart epoch) [.returned id (.ok ())] (l.unlock.finishRun id (.ok ()))
  /-- A run begins another pass. -/
  | restart {epoch : Nat} : l.epoch = epoch →
      Entry m id l (.restart epoch) [.restarted id]
        (({ l with registers := l.registers.restart }.note (.restarted id)).unlock.setPhase id
          (.seeking (.step epoch))).block
  /-- A call for one step begins it. -/
  | next {seek : Option Nat} {events : List Event} {l' : Ledger} :
      Begins m id .next
        { l with registers :=
          { l.registers with cursor := m.wrap (seek.getD l.registers.cursor) } } events l' →
      Entry m id l (.next seek) events l'
  /-- There is no step to begin. -/
  | vain {seek : Option Nat} : m.program.length = 0 →
      Entry m id l (.next seek) [.returned id (.ok ())]
        ({ l with registers :=
          { l.registers with
            cursor := m.wrap (seek.getD l.registers.cursor) } }.unlock.finish id (.ok ()))
  | rewind : Entry m id l .rewind
      [.returned id (.ok ()), .rewound id, .published (m.position 0)]
      (({ l with
          registers := {}
          stage := (m.restored l.stage).publish (m.position 0) }.note
        (.rewound id)).unlock.finish id (.ok ()))

/-- What a call can do in one small step. -/
inductive Deed (m : Machine) (id : Nat) (l : Ledger) : List Event → Ledger → Prop
  /-- A run is started. -/
  | start : l.phases id = some (.issued .start) → m.settings.drive = .auto → l.running = false →
      Deed m id l []
        ({ l with running := true }.setPhase id (.seeking (.clear l.epoch)))
  /-- There is nothing to start. -/
  | idle : l.phases id = some (.issued .start) → m.settings.drive = .manual ∨ l.running = true →
      Deed m id l [.returned id (.ok ())] (l.finish id (.ok ()))
  /-- A call for one step knows where to go. -/
  | ask {label : Option String} {seek : Option Nat} :
      l.phases id = some (.issued (.next label)) → 0 < m.program.length →
      label.map m.program.labelIndex? = seek.map some →
      Deed m id l [] (l.setPhase id (.seeking (.next seek)))
  /-- There is no step to execute. -/
  | empty {label : Option String} :
      l.phases id = some (.issued (.next label)) → m.program.length = 0 →
      Deed m id l [.returned id (.ok ())] (l.finish id (.ok ()))
  /-- There is no such label. -/
  | lost {label : String} : l.phases id = some (.issued (.next (some label))) →
      m.program.labelIndex? label = none →
      Deed m id l [.returned id (.error (.unknownLabel label))]
        (l.finish id (.error (.unknownLabel label)))
  | stop : l.phases id = some (.issued .stop) →
      Deed m id l [] ({ l with epoch := l.epoch + 1 }.setPhase id (.seeking .rewind))
  | reset : l.phases id = some (.issued .reset) →
      Deed m id l [] (l.setPhase id (.seeking .rewind))
  | animate {batch : List (String × Animation Float)} :
      l.phases id = some (.issued (.animate batch)) →
      Deed m id l [] (l.setPhase id (.moving (.ofBatch batch)))
  /-- A rewind lets a parked hold go. -/
  | drop {holder index : Nat} {who : Stepper} : l.phases id = some (.seeking .rewind) →
      l.hold = some holder → holder ≠ id →
      l.phases holder = some (.stepping who index (.holding none)) →
      Deed m id l [.released id holder .dropped] (l.letGo id holder who index .dropped)
  /-- A call for one step lets a parked hold go, and is over. -/
  | resume {holder index : Nat} {who : Stepper} {seek : Option Nat} :
      l.phases id = some (.seeking (.next seek)) → l.hold = some holder → holder ≠ id →
      l.phases holder = some (.stepping who index (.holding none)) →
      Deed m id l [.returned id (.ok ()), .released id holder (.resumed seek)]
        ((l.letGo id holder who index (.resumed seek)).finish id (.ok ()))
  /-- A call has to let others go first. -/
  | rest {purpose : Purpose} : l.phases id = some (.seeking purpose) → l.stage.turn = 0 →
      purpose.release? = none ∨ l.hold = none → Deed m id l [] l.block
  /-- A signal that is kept is used up. -/
  | permit {purpose : Purpose} : l.phases id = some (.seeking purpose) → l.stage.turn ≠ 0 →
      l.lock.owner ≠ none → l.hold = none → purpose.release?.isSome = true →
      l.signal.permit = true →
      Deed m id l [] { l with signal := { l.signal with permit := false } }
  /-- A call queues for the registers, and listens if it can let a hold go. -/
  | queue {purpose : Purpose} : l.phases id = some (.seeking purpose) → l.stage.turn ≠ 0 →
      l.lock.owner ≠ none →
      purpose.release? = none ∨ l.hold = none ∧ l.signal.permit = false →
      Deed m id l []
        ({ l with
            lock := { l.lock with queue := l.lock.queue ++ [id] }
            signal := if purpose.release?.isSome then
                { l.signal with listeners := l.signal.listeners ++ [id] }
              else l.signal }.setPhase id (.queued purpose)).block
  /-- A call takes the registers that nobody owns. -/
  | take {purpose : Purpose} {events : List Event} {l' : Ledger} :
      l.phases id = some (.seeking purpose) → l.stage.turn ≠ 0 → l.lock.owner = none →
      l.hold = none →
      Entry m id { l with lock := { l.lock with owner := some id }, stage := l.stage.spend }
        purpose events l' →
      Deed m id l events l'
  /-- A call has been handed the registers. -/
  | enter {purpose : Purpose} {events : List Event} {l' : Ledger} :
      l.phases id = some (.queued purpose) → l.lock.owner = some id → l.hold = none →
      Entry m id { l with
          stage := l.stage.spend
          signal := if purpose.release?.isSome then l.signal.without id else l.signal }
        purpose events l' →
      Deed m id l events l'
  /-- Whom the signal has reached leaves the queue. -/
  | withdraw {purpose : Purpose} : l.phases id = some (.queued purpose) →
      l.lock.owner ≠ some id → id ∈ l.signal.notified →
      Deed m id l []
        ({ l with
            lock := { l.lock with queue := l.lock.queue.erase id }
            signal := { l.signal with notified := l.signal.notified.erase id } }.setPhase id
          (.seeking purpose))
  /-- A call goes on waiting in the queue. -/
  | wait {purpose : Purpose} : l.phases id = some (.queued purpose) →
      l.lock.owner ≠ some id → id ∉ l.signal.notified → Deed m id l [] l.block
  /-- A step goes on. -/
  | busy {who : Stepper} {index : Nat} {activity activity' : Activity} {s : Stage} :
      l.phases id = some (.stepping who index activity) →
      activity.poll l.stage = (s, .busy activity') →
      Deed m id l [] ({ l with stage := s }.setPhase id (.stepping who index activity')).block
  /-- A step of a run is over. -/
  | ended {epoch index : Nat} {activity : Activity} {s : Stage} {flow : Flow} :
      l.phases id = some (.stepping (.run epoch) index activity) →
      activity.poll l.stage = (s, .finished (.ok flow)) →
      Deed m id l [.ended id index flow]
        (({ l with
            stage := s
            registers := { l.registers with
              cursor := m.cursorAfter (.run epoch) index flow } }.note
          (.ended id index flow)).unlock.setPhase id (.seeking (.step epoch)))
  /-- The step of a call for one step is over. -/
  | executed {index : Nat} {activity : Activity} {s : Stage} {flow : Flow} :
      l.phases id = some (.stepping .next index activity) →
      activity.poll l.stage = (s, .finished (.ok flow)) →
      Deed m id l [.returned id (.ok ()), .ended id index flow]
        (({ l with
            stage := s
            registers := { l.registers with cursor := m.cursorAfter .next index flow } }.note
          (.ended id index flow)).unlock.finish id (.ok ()))
  /-- A step of a run fails. -/
  | crashed {epoch index : Nat} {activity : Activity} {s : Stage} {e : StepError} :
      l.phases id = some (.stepping (.run epoch) index activity) →
      activity.poll l.stage = (s, .finished (.error e)) →
      Deed m id l [.returned id (.error e), .failed id index e]
        (({ l with stage := s }.note (.failed id index e)).unlock.finishRun id (.error e))
  /-- The step of a call for one step fails. -/
  | failed {index : Nat} {activity : Activity} {s : Stage} {e : StepError} :
      l.phases id = some (.stepping .next index activity) →
      activity.poll l.stage = (s, .finished (.error e)) →
      Deed m id l [.returned id (.error e), .failed id index e]
        (({ l with stage := s }.note (.failed id index e)).unlock.finish id (.error e))
  /-- Animations go on. -/
  | move {convoy convoy' : Convoy} {s : Stage} : l.phases id = some (.moving convoy) →
      convoy.poll false l.stage = (s, .busy convoy') →
      Deed m id l [] ({ l with stage := s }.setPhase id (.moving convoy')).block
  /-- Animations are over. -/
  | moved {convoy : Convoy} {s : Stage} {result : Except StepError Unit} :
      l.phases id = some (.moving convoy) →
      convoy.poll false l.stage = (s, .finished result) →
      Deed m id l [.returned id result] ({ l with stage := s }.finish id result)

end Ledger

namespace Config

variable {m : Machine} {c : Config} {id : Nat} {who : Stepper}

/-! ### The ledger after an operation -/

theorem ledger_setPhase (h : (c.phase? id).isSome) (phase : Phase) :
    (c.setPhase id phase).ledger = c.ledger.setPhase id phase := by
  show (⟨_, _, _, _, _, _, _, _, (c.setPhase id phase).phase?⟩ : Ledger) = _
  rw [phase?_setPhase h]
  rfl

theorem ledger_block : c.block.ledger = c.ledger.block := rfl

theorem ledger_yield : (c.yield id).ledger = c.ledger.block := rfl

theorem ledger_pause : (c.pause id).ledger = c.ledger.block := by
  unfold pause
  split <;> rfl

theorem ledger_unlock : c.unlock.ledger = c.ledger.unlock := by
  rw [unlock_eq]
  rfl

theorem ledger_finish (result : Except StepError Unit) :
    (c.finish id result).ledger = c.ledger.finish id result := by
  show (⟨_, _, _, _, _, _, _, _, (c.finish id result).phase?⟩ : Ledger) = _
  rw [phase?_finish]
  rfl

theorem ledger_finishRun (result : Except StepError Unit) :
    (c.finishRun id result).ledger = c.ledger.finishRun id result :=
  ledger_finish result

theorem ledger_notify : c.notify.ledger = { c.ledger with signal := c.signal.sent } := by
  rw [notify_eq]
  rfl

theorem ledger_unlisten :
    (c.unlisten id).ledger = { c.ledger with signal := c.signal.without id } := by
  unfold unlisten Signal.without
  split
  · rw [ledger_notify]
    rfl
  · rfl

theorem ledger_releaseHold {holder index : Nat} {release : Release}
    (h : c.phase? holder = some (.stepping who index (.holding none))) :
    (c.releaseHold id holder release).ledger = c.ledger.letGo id holder who index release := by
  have hpresent : (c.phase? holder).isSome := by
    rw [h]
    rfl
  rw [releaseHold_eq h]
  show (⟨_, _, _, _, _, _, _, _, (c.setPhase holder _).phase?⟩ : Ledger) = _
  rw [phase?_setPhase hpresent]
  rfl

/-! ### Small steps are deeds -/

theorem endStep_run {epoch index : Nat} {flow : Flow} : c.endStep m id (.run epoch) index flow
    = ({ c with
        registers := { c.registers with cursor := m.cursorAfter (.run epoch) index flow } }.note
        (.ended id index flow)).unlock.setPhase id (.seeking (.step epoch)) := by
  simp [endStep, Machine.cursorAfter]

theorem endStep_next {index : Nat} {flow : Flow} : c.endStep m id .next index flow
    = ({ c with
        registers := { c.registers with cursor := m.cursorAfter .next index flow } }.note
        (.ended id index flow)).unlock.finish id (.ok ()) := by
  simp [endStep, Machine.cursorAfter]

/-- The step at the cursor begins, if there is one. -/
theorem begins (who : Stepper) {step : Step} (hstep : m.program.step? c.registers.cursor = some step)
    (hpresent : (c.phase? id).isSome) :
    ∃ events, Ledger.Begins m id who c.ledger events (c.beginStep m id who).ledger := by
  by_cases hhold : step.action = .hold
  · apply Exists.intro
    rw [beginStep_of_hold hstep hhold, ledger_setPhase, ledger_notify]
    · exact .hold hstep hhold
    · rw [phase?_notify]
      exact hpresent
  · rcases hbegin : m.begin c.registers.cursor step.action c.registers with ⟨r, activity⟩
    apply Exists.intro
    rw [beginStep_of_ne_hold hstep hhold hbegin, ledger_setPhase]
    · exact .step hstep hhold hbegin
    · exact hpresent

theorem isSome_phase?_unlock {c' : Config} (htasks : c'.tasks = c.tasks)
    (hpresent : (c.phase? id).isSome) : (c'.unlock.phase? id).isSome := by
  rw [phase?_unlock, phase?, htasks]
  exact hpresent

/-- A run that was not cancelled has come to the end of the program. -/
theorem entry_end {epoch : Nat} (hpresent : (c.phase? id).isSome) (hepoch : c.epoch = epoch)
    (hstopped : c.registers.stopped = false) (hend : m.program.length ≤ c.registers.cursor) :
    ∃ events, Ledger.Entry m id c.ledger (.step epoch) events
      (if m.settings.looping = true ∧ 0 < m.program.length then
        c.unlock.setPhase id (.seeking (.restart epoch))
      else c.unlock.finishRun id (.ok ())).ledger := by
  split
  · rename_i hloop
    apply Exists.intro
    rw [ledger_setPhase (isSome_phase?_unlock rfl hpresent), ledger_unlock]
    exact .around hepoch hstopped hend hloop.1 hloop.2
  · rename_i hloop
    apply Exists.intro
    rw [ledger_finishRun, ledger_unlock]
    exact .finished hepoch hstopped hend hloop

theorem entry_step (hpresent : (c.phase? id).isSome) (epoch : Nat) :
    ∃ events, Ledger.Entry m id c.ledger (.step epoch) events
      (c.enter m id (.step epoch)).ledger := by
  simp only [Config.enter, Bool.or_eq_true, decide_eq_true_eq, Bool.and_eq_true]
  split
  · rename_i hstopped
    apply Exists.intro
    rw [ledger_finishRun, ledger_unlock]
    exact .stopped hstopped
  · rename_i hgo
    rw [not_or, not_not, Bool.not_eq_true] at hgo
    split
    · rename_i hend
      exact entry_end hpresent hgo.1 hgo.2 hend
    · rename_i hend
      obtain ⟨step, hstep⟩ : ∃ step, m.program.step? c.registers.cursor = some step := by
        rw [← Option.ne_none_iff_exists', ne_eq, Program.step?_eq_none_iff]
        exact hend
      obtain ⟨events, hbegins⟩ := begins (.run epoch) hstep hpresent
      exact ⟨events, .step hgo.1 hgo.2 hbegins⟩

theorem entry_restart (hpresent : (c.phase? id).isSome) (epoch : Nat) :
    ∃ events, Ledger.Entry m id c.ledger (.restart epoch) events
      (c.enter m id (.restart epoch)).ledger := by
  simp only [Config.enter]
  split
  · rename_i hcancelled
    apply Exists.intro
    rw [ledger_finishRun, ledger_unlock]
    exact .cancelled hcancelled
  · rename_i hgo
    apply Exists.intro
    rw [ledger_yield, ledger_setPhase, ledger_unlock]
    · exact .restart (not_not.1 hgo)
    · exact isSome_phase?_unlock rfl hpresent

theorem entry_next (hpresent : (c.phase? id).isSome) (seek : Option Nat) :
    ∃ events, Ledger.Entry m id c.ledger (.next seek) events
      (c.enter m id (.next seek)).ledger := by
  obtain ⟨c', hc'⟩ : ∃ c' : Config, c' = { c with registers :=
    { c.registers with cursor := m.wrap (seek.getD c.registers.cursor) } } := ⟨_, rfl⟩
  have henter : c.enter m id (.next seek) = c'.beginStep m id .next := by
    rw [hc']
    rfl
  rw [henter]
  rcases hstep : m.program.step? c'.registers.cursor with - | step
  · apply Exists.intro
    -- a cursor within the program always has a step
    have hlength : m.program.length = 0 := by
      rw [Program.step?_eq_none_iff, hc'] at hstep
      simp only [Machine.wrap] at hstep
      split at hstep <;> omega
    rw [beginStep_of_none hstep, ledger_finish, ledger_unlock, hc']
    exact .vain hlength
  · have hpresent' : (c'.phase? id).isSome := by
      rw [hc']
      exact hpresent
    obtain ⟨events, hbegins⟩ := begins .next hstep hpresent'
    refine ⟨events, .next ?_⟩
    rw [hc'] at hbegins ⊢
    exact hbegins

/-- Whoever has become the owner of the registers does what they were wanted for. -/
theorem entry (hpresent : (c.phase? id).isSome) (purpose : Purpose) :
    ∃ events, Ledger.Entry m id c.ledger purpose events (c.enter m id purpose).ledger := by
  cases purpose with
  | clear epoch =>
    apply Exists.intro
    rw [Config.enter, ledger_setPhase, ledger_unlock]
    · exact .clear
    · exact isSome_phase?_unlock rfl hpresent
  | step epoch => exact entry_step hpresent epoch
  | restart epoch => exact entry_restart hpresent epoch
  | next seek => exact entry_next hpresent seek
  | rewind =>
    apply Exists.intro
    rw [Config.enter, Config.rewind, ledger_finish, ledger_unlock]
    exact .rewind

section Seek

variable {purpose : Purpose} (h : c.Going id (.aside purpose.release?.isSome false))
  (hphase : c.phase? id = some (.seeking purpose))

include h hphase

/-- Nobody owns the registers, so that no hold is parked. -/
theorem deed_take (hturn : c.stage.turn ≠ 0) (hfree : c.lock.owner = none) :
    ∃ events, Ledger.Deed m id c.ledger events
      ({ c with lock := { c.lock with owner := some id }, stage := c.stage.spend }.enter m id
        purpose).ledger := by
  have hnone : c.hold = none := h.orderly.hold_eq_none fun o ho => by
    have howns : c.lock.owner = some o := ho
    rw [hfree] at howns
    cases howns
  obtain ⟨events, hentry⟩ := entry (m := m)
    (c := { c with lock := { c.lock with owner := some id }, stage := c.stage.spend })
    h.present purpose
  exact ⟨events, .take hphase hturn hfree hnone hentry⟩

/-- Somebody else owns the registers, and there is no signal that is kept. -/
theorem deed_queue (hturn : c.stage.turn ≠ 0) (howned : c.lock.owner ≠ none)
    (hsilent : purpose.release? = none ∨ c.hold = none ∧ c.signal.permit = false) :
    ∃ events, Ledger.Deed m id c.ledger events
      ((if purpose.release?.isSome then
          { c with
            lock := { c.lock with queue := c.lock.queue ++ [id] }
            signal := { c.signal with listeners := c.signal.listeners ++ [id] } }
        else { c with lock := { c.lock with queue := c.lock.queue ++ [id] } }).setPhase id
        (.queued purpose)).block.ledger := by
  have hqueue : Ledger.Deed m id c.ledger _ _ := .queue hphase hturn howned hsilent
  apply Exists.intro
  cases hrelease : purpose.release?.isSome <;> rw [hrelease] at hqueue <;>
    simp only [Bool.false_eq_true, if_true, if_false] at hqueue ⊢ <;>
    rw [ledger_block, ledger_setPhase]
  · exact hqueue
  · exact h.present
  · exact hqueue
  · exact h.present

/-- A call asks for the registers while it has no hold to let go. -/
theorem deed_ask (hno : purpose.release? = none ∨ c.hold = none) :
    ∃ events, Ledger.Deed m id c.ledger events (c.seek m id purpose).ledger := by
  rw [seek_eq hno]
  split
  · exact ⟨_, .rest hphase ‹_› hno⟩
  · rename_i hturn
    split
    · rename_i hfree
      exact deed_take h hphase hturn hfree
    · rename_i howned
      split
      · rename_i hpermit
        rw [Bool.and_eq_true] at hpermit
        refine ⟨_, .permit hphase hturn howned (hno.resolve_left fun hnone => ?_) hpermit.1
          hpermit.2⟩
        simp [hnone] at hpermit
      · rename_i hpermit
        refine deed_queue h hphase hturn howned ?_
        rcases hrelease : purpose.release? with - | release
        · exact .inl rfl
        · exact .inr ⟨hno.resolve_left (by simp [hrelease]), by simpa [hrelease] using hpermit⟩

/-- A call lets the parked hold go. -/
theorem deed_release {release : Release} {holder : Nat} (hrelease : purpose.release? = some release)
    (hhold : c.hold = some holder) :
    ∃ events, Ledger.Deed m id c.ledger events (c.seek m id purpose).ledger := by
  obtain ⟨rests, hrole⟩ := h.orderly.owner_of_hold hhold
  have hne := h.ne_of_hold hhold
  rw [Function.update_of_ne hne] at hrole
  obtain ⟨who, index, hholder⟩ := phase?_of_role_parked hrole
  rw [seek_of_hold hrelease hhold]
  cases purpose with
  | clear _ => cases hrelease
  | step _ => cases hrelease
  | restart _ => cases hrelease
  | next seek =>
    obtain rfl := Option.some.inj hrelease
    apply Exists.intro
    rw [if_neg (by simp), ledger_finish, ledger_releaseHold hholder]
    exact .resume hphase hhold hne hholder
  | rewind =>
    obtain rfl := Option.some.inj hrelease
    apply Exists.intro
    rw [if_pos rfl, ledger_releaseHold hholder]
    exact .drop hphase hhold hne hholder

theorem deed_seek : ∃ events, Ledger.Deed m id c.ledger events (c.seek m id purpose).ledger := by
  rcases hrelease : purpose.release? with - | release
  · exact deed_ask h hphase (.inl hrelease)
  · rcases hhold : c.hold with - | holder
    · exact deed_ask h hphase (.inr hhold)
    · exact deed_release h hphase hrelease hhold

end Seek

/-- A call in the queue has been handed the registers. -/
theorem deed_enter {purpose : Purpose} (h : c.Going id (.queued purpose.release?.isSome))
    (hphase : c.phase? id = some (.queued purpose)) (howner : c.lock.owner = some id) :
    ∃ events, Ledger.Deed m id c.ledger events
      ((if purpose.release?.isSome then { c with stage := c.stage.spend }.unlisten id
        else { c with stage := c.stage.spend }).enter m id purpose).ledger := by
  have hnone := h.orderly.hold_eq_none_of_queued (Function.update_self ..) howner
  have hspent : { c with stage := c.stage.spend }.Going id
      (.queued purpose.release?.isSome) := h.congr rfl rfl
  obtain ⟨events, hentry⟩ := entry (m := m) (hspent.own howner).present purpose
  refine ⟨events, .enter hphase howner hnone ?_⟩
  cases hrelease : purpose.release?.isSome <;> rw [hrelease] at hentry <;>
    simp only [Bool.false_eq_true, if_true, if_false] at hentry ⊢
  · exact hentry
  · rw [ledger_unlisten] at hentry
    exact hentry

/-- A call in the queue goes on. -/
theorem deed_leaveQueue {purpose : Purpose} (h : c.Going id (.queued purpose.release?.isSome))
    (hphase : c.phase? id = some (.queued purpose)) :
    ∃ events, Ledger.Deed m id c.ledger events (c.leaveQueue m id purpose).ledger := by
  unfold Config.leaveQueue
  split
  · exact deed_enter h hphase ‹_›
  · rename_i hother
    split
    · rename_i hnotified
      apply Exists.intro
      rw [ledger_setPhase]
      · exact .withdraw hphase hother hnotified
      · exact h.present
    · rename_i hnotified
      exact ⟨_, .wait hphase hother hnotified⟩

theorem deed_start (hphase : c.phase? id = some (.issued .start)) :
    ∃ events, Ledger.Deed m id c.ledger events (c.accept m id .start).ledger := by
  simp only [Config.accept, Bool.or_eq_true, decide_eq_true_eq]
  split
  · apply Exists.intro
    rw [ledger_finish]
    exact .idle hphase ‹_›
  · rename_i hgo
    rw [not_or, Bool.not_eq_true] at hgo
    have hdrive : m.settings.drive = .auto := by
      cases hd : m.settings.drive with
      | auto => rfl
      | manual => exact absurd hd hgo.1
    apply Exists.intro
    rw [ledger_setPhase]
    · exact .start hphase hdrive hgo.2
    · exact Option.isSome_of_eq_some hphase

theorem deed_next {label : Option String} (hphase : c.phase? id = some (.issued (.next label))) :
    ∃ events, Ledger.Deed m id c.ledger events (c.accept m id (.next label)).ledger := by
  have hpresent := Option.isSome_of_eq_some hphase
  -- the call is over at once if there is nothing to execute
  have hfound {seek : Option Nat} (hseek : label.map m.program.labelIndex? = seek.map some) :
      ∃ events, Ledger.Deed m id c.ledger events
        (if m.program.length = 0 then c.finish id (.ok ())
          else c.setPhase id (.seeking (.next seek))).ledger := by
    split
    · apply Exists.intro
      rw [ledger_finish]
      exact .empty hphase ‹_›
    · apply Exists.intro
      rw [ledger_setPhase hpresent]
      exact .ask hphase (Nat.pos_of_ne_zero ‹_›) hseek
  cases label with
  | none => exact hfound rfl
  | some label =>
    simp only [Config.accept]
    split
    · apply Exists.intro
      rw [ledger_finish]
      exact .lost hphase ‹_›
    · rename_i index hindex
      exact hfound (by simp [hindex])

/-- A call has just been issued. -/
theorem deed_accept {call : Call} (hphase : c.phase? id = some (.issued call)) :
    ∃ events, Ledger.Deed m id c.ledger events (c.accept m id call).ledger := by
  have hpresent := Option.isSome_of_eq_some hphase
  cases call with
  | start => exact deed_start hphase
  | next label => exact deed_next hphase
  | stop =>
    apply Exists.intro
    rw [Config.accept, ledger_setPhase]
    · exact .stop hphase
    · exact hpresent
  | reset =>
    apply Exists.intro
    rw [Config.accept, ledger_setPhase hpresent]
    exact .reset hphase
  | animate batch =>
    apply Exists.intro
    rw [Config.accept, ledger_setPhase hpresent]
    exact .animate hphase

/-- A step has ended. -/
theorem deed_endStep {index : Nat} {activity : Activity} {s : Stage} {flow : Flow}
    (hphase : c.phase? id = some (.stepping who index activity))
    (hp : activity.poll c.stage = (s, .finished (.ok flow))) :
    ∃ events, Ledger.Deed m id c.ledger events
      ({ c with stage := s }.endStep m id who index flow).ledger := by
  cases who with
  | run epoch =>
    apply Exists.intro
    rw [endStep_run, ledger_setPhase, ledger_unlock]
    · exact .ended hphase hp
    · exact isSome_phase?_unlock rfl (Option.isSome_of_eq_some hphase)
  | next =>
    apply Exists.intro
    rw [endStep_next, ledger_finish, ledger_unlock]
    exact .executed hphase hp

/-- A step has failed. -/
theorem deed_failStep {index : Nat} {activity : Activity} {s : Stage} {e : StepError}
    (hphase : c.phase? id = some (.stepping who index activity))
    (hp : activity.poll c.stage = (s, .finished (.error e))) :
    ∃ events, Ledger.Deed m id c.ledger events
      ({ c with stage := s }.failStep id who index e).ledger := by
  cases who with
  | run epoch =>
    apply Exists.intro
    rw [Config.failStep, ledger_finishRun, ledger_unlock]
    exact .crashed hphase hp
  | next =>
    apply Exists.intro
    rw [Config.failStep, ledger_finish, ledger_unlock]
    exact .failed hphase hp

theorem deed_stepping {index : Nat} {activity : Activity}
    (hphase : c.phase? id = some (.stepping who index activity)) :
    ∃ events, Ledger.Deed m id c.ledger events
      (c.advance m id (.stepping who index activity)).ledger := by
  simp only [Config.advance]
  rcases hp : activity.poll c.stage with ⟨s, activity' | e | flow⟩ <;> dsimp only
  · apply Exists.intro
    rw [ledger_pause, ledger_setPhase]
    · exact .busy hphase hp
    · exact Option.isSome_of_eq_some hphase
  · exact deed_failStep hphase hp
  · exact deed_endStep hphase hp

theorem deed_moving {convoy : Convoy} (hphase : c.phase? id = some (.moving convoy)) :
    ∃ events, Ledger.Deed m id c.ledger events (c.advance m id (.moving convoy)).ledger := by
  simp only [Config.advance]
  rcases hp : convoy.poll false c.stage with ⟨s, convoy' | result⟩ <;> dsimp only
  · apply Exists.intro
    rw [ledger_pause, ledger_setPhase]
    · exact .move hphase hp
    · exact Option.isSome_of_eq_some hphase
  · apply Exists.intro
    rw [ledger_finish]
    exact .moved hphase hp

/-- **One small step of a call is a deed.** -/
theorem Going.deed {phase : Phase} (h : c.Going id phase.role)
    (hphase : c.phase? id = some phase) :
    ∃ events, Ledger.Deed m id c.ledger events (c.advance m id phase).ledger := by
  cases phase with
  | issued call => exact deed_accept hphase
  | seeking purpose => exact deed_seek h hphase
  | queued purpose => exact deed_leaveQueue h hphase
  | stepping who index activity => exact deed_stepping hphase
  | moving convoy => exact deed_moving hphase

end Config

/-! ### Milestones of a deed -/

namespace Ledger

variable {m : Machine} {l l' : Ledger} {id : Nat} {who : Stepper} {events : List Event}

theorem Begins.milestones (h : Begins m id who l events l') :
    l'.stage.milestones = events ++ l.stage.milestones := by
  cases h with
  | hold _ _ => rfl
  | step _ _ _ => rfl

theorem milestones_restored (m : Machine) (s : Stage) :
    (m.restored s).milestones = s.milestones :=
  Stage.milestones_of_acts (Stage.Acts.restore (B := .free) m.initial.entries s)

theorem Entry.milestones {purpose : Purpose} (h : Entry m id l purpose events l') :
    l'.stage.milestones = events ++ l.stage.milestones := by
  cases h with
  | step _ _ hbegins => exact hbegins.milestones
  | next hbegins => exact hbegins.milestones
  | rewind =>
    show _ :: _ :: _ :: (m.restored l.stage).milestones = _
    rw [milestones_restored]
    rfl
  | _ => rfl

/-- The milestones of a deed are recorded. -/
theorem Deed.milestones (h : Deed m id l events l') :
    l'.stage.milestones = events ++ l.stage.milestones := by
  have hactivity {activity : Activity} {s : Stage} {p : Progress Activity _}
      (hp : activity.poll l.stage = (s, p)) : s.milestones = l.stage.milestones :=
    Stage.milestones_of_acts (Activity.poll_acts hp)
  have hconvoy {convoy : Convoy} {s : Stage} {p : Progress Convoy _}
      (hp : convoy.poll false l.stage = (s, p)) : s.milestones = l.stage.milestones :=
    Stage.milestones_of_acts (Convoy.poll_acts hp)
  cases h with
  | take _ _ _ _ hentry => exact hentry.milestones
  | enter _ _ _ hentry => exact hentry.milestones
  | busy _ hp =>
    have hs := hactivity hp
    exact hs
  | ended _ hp => exact congrArg (_ :: ·) (hactivity hp)
  | executed _ hp => exact congrArg (_ :: _ :: ·) (hactivity hp)
  | crashed _ hp => exact congrArg (_ :: _ :: ·) (hactivity hp)
  | failed _ hp => exact congrArg (_ :: _ :: ·) (hactivity hp)
  | move _ hp =>
    have hs := hconvoy hp
    exact hs
  | moved _ hp =>
    have hs := hconvoy hp
    exact congrArg (_ :: ·) hs
  | _ => rfl

theorem Begins.began (h : Begins m id who l events l') :
    .began id l.registers.cursor ∈ events := by
  cases h <;> simp

theorem Begins.call? (h : Begins m id who l events l') :
    ∀ e ∈ events, e.call? = some id ∨ ∃ position, e = .published position := by
  cases h <;> simp [Event.call?]

theorem Entry.call? {purpose : Purpose} (h : Entry m id l purpose events l') :
    ∀ e ∈ events, e.call? = some id ∨ ∃ position, e = .published position := by
  cases h with
  | step _ _ hbegins => exact hbegins.call?
  | next hbegins => exact hbegins.call?
  | _ => simp [Event.call?]

/-- All milestones of a deed are those of the call that does it, but for a position that is
published. -/
theorem Deed.call? (h : Deed m id l events l') :
    ∀ e ∈ events, e.call? = some id ∨ ∃ position, e = .published position := by
  cases h with
  | take _ _ _ _ hentry => exact hentry.call?
  | enter _ _ _ hentry => exact hentry.call?
  | _ => simp [Event.call?]

/-- Only a call that is not over does something. -/
theorem Deed.present (h : Deed m id l events l') : ∃ phase, l.phases id = some phase := by
  cases h <;> exact ⟨_, ‹_›⟩

/-! ### Whoever does not own the registers -/

/-- Whoever executes a step owns the registers, the parked hold is a step that waits to be
released, and who stands in the queue waits there. -/
structure Kept (l : Ledger) : Prop where
  owner : ∀ {id who index activity}, l.phases id = some (.stepping who index activity) →
    l.lock.owner = some id
  hold : ∀ {id}, l.hold = some id ↔
    ∃ who index, l.phases id = some (.stepping who index (.holding none))
  queued : ∀ {id}, id ∈ l.lock.queue → ∃ purpose, l.phases id = some (.queued purpose)
  apart : ∀ {id}, l.lock.owner = some id → id ∉ l.lock.queue

/-- As long as somebody else owns the registers, a deed leaves them and their owner alone; it
begins, ends and fails no step. -/
theorem Deed.bystander (h : Deed m id l events l') (hkept : l.Kept) {owner : Nat}
    (howner : l.lock.owner = some owner) (hne : owner ≠ id) :
    l'.registers = l.registers ∧ l'.lock.owner = some owner ∧
      ∀ e ∈ events, (∃ result, e = .returned id result) ∨
        ∃ holder release, e = .released id holder release := by
  have hnot {who : Stepper} {index : Nat} {activity : Activity}
      (hphase : l.phases id = some (.stepping who index activity)) : False :=
    hne (Option.some.inj (howner.symm.trans (hkept.owner hphase)))
  cases h with
  | take _ _ hfree _ _ => cases howner.symm.trans hfree
  | enter _ hown _ _ => exact (hne (Option.some.inj (howner.symm.trans hown))).elim
  | ended hphase _ => exact (hnot hphase).elim
  | executed hphase _ => exact (hnot hphase).elim
  | crashed hphase _ => exact (hnot hphase).elim
  | failed hphase _ => exact (hnot hphase).elim
  | _ => exact ⟨rfl, howner, by simp⟩

/-! ### How the phase of a call changes -/

/-- How a call changes its phase while it records nothing and leaves the registers alone. -/
inductive Passes (m : Machine) : Phase → Phase → Prop
  | start {epoch : Nat} : m.settings.drive = .auto →
      Passes m (.issued .start) (.seeking (.clear epoch))
  | ask {label : Option String} {seek : Option Nat} :
      label.map m.program.labelIndex? = seek.map some →
      Passes m (.issued (.next label)) (.seeking (.next seek))
  | rewind {call : Call} : call = .stop ∨ call = .reset →
      Passes m (.issued call) (.seeking .rewind)
  | animate {batch : List (String × Animation Float)} :
      Passes m (.issued (.animate batch)) (.moving (.ofBatch batch))
  | seek {purpose : Purpose} : Passes m (.seeking purpose) (.seeking purpose)
  | queue {purpose : Purpose} : Passes m (.seeking purpose) (.queued purpose)
  | wait {purpose : Purpose} : Passes m (.queued purpose) (.queued purpose)
  | withdraw {purpose : Purpose} : Passes m (.queued purpose) (.seeking purpose)

/-- A call has become the owner of the registers, which it wanted for a purpose. -/
structure Owns (l : Ledger) (id : Nat) (purpose : Purpose) (l₁ : Ledger) : Prop where
  registers : l₁.registers = l.registers
  queue : l₁.lock.queue = l.lock.queue
  epoch : l₁.epoch = l.epoch
  /-- It has taken them, or was handed them. -/
  owner : l.phases id = some (.seeking purpose) ∧ l.stage.turn ≠ 0 ∧ l.lock.owner = none ∨
    l.phases id = some (.queued purpose) ∧ l.lock.owner = some id

/-- How a call that goes on after a deed has come from one phase to another. -/
inductive Shift (m : Machine) (id : Nat) (l : Ledger) (events : List Event) (l' : Ledger) :
    Phase → Phase → Prop
  | quiet {phase phase' : Phase} : Passes m phase phase' → events = [] →
      l'.registers = l.registers → Shift m id l events l' phase phase'
  /-- A rewind has let a hold go. -/
  | drop : Shift m id l events l' (.seeking .rewind) (.seeking .rewind)
  | entry {l₁ : Ledger} {purpose : Purpose} {phase phase' : Phase} :
      Entry m id l₁ purpose events l' → Owns l id purpose l₁ →
      phase = .seeking purpose ∨ phase = .queued purpose → Shift m id l events l' phase phase'
  | busy {who : Stepper} {index : Nat} {activity activity' : Activity} {s : Stage} :
      activity.poll l.stage = (s, .busy activity') → l'.registers = l.registers →
      Shift m id l events l' (.stepping who index activity) (.stepping who index activity')
  | ended {epoch index : Nat} {activity : Activity} :
      Shift m id l events l' (.stepping (.run epoch) index activity) (.seeking (.step epoch))
  | move {convoy convoy' : Convoy} {s : Stage} : convoy.poll false l.stage = (s, .busy convoy') →
      l'.stage = s.nextTurn → Shift m id l events l' (.moving convoy) (.moving convoy')

theorem eq_of_setPhase {phase phase' : Phase}
    (h : (l.setPhase id phase).phases id = some phase') : phase = phase' :=
  Option.some.inj (setPhase_self.symm.trans h)

theorem Deed.shift (h : Deed m id l events l') {phase' : Phase}
    (hphase' : l'.phases id = some phase') :
    ∃ phase, l.phases id = some phase ∧ Shift m id l events l' phase phase' := by
  have hstay {phase : Phase} (hphase : l.phases id = some phase) (hx : l.phases id = some phase') :
      phase = phase' :=
    Option.some.inj (hphase.symm.trans hx)
  cases h with
  | start hphase hdrive _ =>
    obtain rfl := eq_of_setPhase hphase'
    exact ⟨_, hphase, .quiet (.start hdrive) rfl rfl⟩
  | ask hphase _ hlabel =>
    obtain rfl := eq_of_setPhase hphase'
    exact ⟨_, hphase, .quiet (.ask hlabel) rfl rfl⟩
  | stop hphase =>
    obtain rfl := eq_of_setPhase hphase'
    exact ⟨_, hphase, .quiet (.rewind (.inl rfl)) rfl rfl⟩
  | reset hphase =>
    obtain rfl := eq_of_setPhase hphase'
    exact ⟨_, hphase, .quiet (.rewind (.inr rfl)) rfl rfl⟩
  | animate hphase =>
    obtain rfl := eq_of_setPhase hphase'
    exact ⟨_, hphase, .quiet .animate rfl rfl⟩
  | drop hphase _ hne _ =>
    obtain rfl := hstay hphase ((letGo_of_ne hne.symm).symm.trans hphase')
    exact ⟨_, hphase, .drop⟩
  | rest hphase _ _ =>
    obtain rfl := hstay hphase hphase'
    exact ⟨_, hphase, .quiet .seek rfl rfl⟩
  | permit hphase _ _ _ _ _ =>
    obtain rfl := hstay hphase hphase'
    exact ⟨_, hphase, .quiet .seek rfl rfl⟩
  | queue hphase _ _ _ =>
    obtain rfl := eq_of_setPhase hphase'
    exact ⟨_, hphase, .quiet .queue rfl rfl⟩
  | take hphase hturn hfree _ hb =>
    exact ⟨_, hphase, .entry hb ⟨rfl, rfl, rfl, .inl ⟨hphase, hturn, hfree⟩⟩ (.inl rfl)⟩
  | enter hphase howner _ hb =>
    exact ⟨_, hphase, .entry hb ⟨rfl, rfl, rfl, .inr ⟨hphase, howner⟩⟩ (.inr rfl)⟩
  | withdraw hphase _ _ =>
    obtain rfl := eq_of_setPhase hphase'
    exact ⟨_, hphase, .quiet .withdraw rfl rfl⟩
  | wait hphase _ _ =>
    obtain rfl := hstay hphase hphase'
    exact ⟨_, hphase, .quiet .wait rfl rfl⟩
  | busy hphase hp =>
    obtain rfl := eq_of_setPhase hphase'
    exact ⟨_, hphase, .busy hp rfl⟩
  | ended hphase _ =>
    obtain rfl := eq_of_setPhase hphase'
    exact ⟨_, hphase, .ended⟩
  | move hphase hp =>
    obtain rfl := eq_of_setPhase hphase'
    exact ⟨_, hphase, .move hp rfl⟩
  | _ => cases finish_self.symm.trans hphase'

theorem Begins.steps (h : Begins m id who l events l') {index : Nat} {activity : Activity}
    {who' : Stepper} (hphase' : l'.phases id = some (.stepping who' index activity)) :
    ∃ step, m.program.step? index = some step ∧ index = l.registers.cursor ∧
      m.begin index step.action l.registers = (l'.registers, activity) ∧
      .began id index ∈ events := by
  cases h with
  | @hold step hstep hhold =>
    cases setPhase_self.symm.trans hphase'
    refine ⟨step, hstep, rfl, ?_, by simp⟩
    rw [hhold]
    rfl
  | @step step r activity hstep _ hbegin =>
    cases setPhase_self.symm.trans hphase'
    exact ⟨step, hstep, rfl, hbegin, by simp⟩

/-- What an owner of the registers does next: it executes a step, or is a run that asks again. -/
theorem Entry.phase_cases {purpose : Purpose} (h : Entry m id l purpose events l') {phase' : Phase}
    (hphase' : l'.phases id = some phase') :
    (∃ who index activity, phase' = .stepping who index activity) ∨
    ∃ epoch, phase' = .seeking (.step epoch) ∨ phase' = .seeking (.restart epoch) := by
  have hbegins {l₁ : Ledger} {who : Stepper} (hb : Begins m id who l₁ events l') :
      ∃ who index activity, phase' = .stepping who index activity := by
    cases hb with
    | hold _ _ => exact ⟨_, _, _, (eq_of_setPhase hphase').symm⟩
    | step _ _ _ => exact ⟨_, _, _, (eq_of_setPhase hphase').symm⟩
  cases h with
  | step _ _ hb => exact .inl (hbegins hb)
  | next hb => exact .inl (hbegins hb)
  | clear => exact .inr ⟨_, .inl (eq_of_setPhase hphase').symm⟩
  | around _ _ _ _ _ => exact .inr ⟨_, .inr (eq_of_setPhase hphase').symm⟩
  | restart _ => exact .inr ⟨_, .inl (eq_of_setPhase hphase').symm⟩
  | _ => cases finish_self.symm.trans hphase'

theorem Entry.steps {purpose : Purpose} (h : Entry m id l purpose events l') {index : Nat}
    {activity : Activity} (hphase' : l'.phases id = some (.stepping who index activity)) :
    ∃ step r, m.program.step? index = some step ∧
      m.begin index step.action r = (l'.registers, activity) ∧ .began id index ∈ events := by
  have hbegins {l₁ : Ledger} {who' : Stepper} (hb : Begins m id who' l₁ events l') :
      ∃ step r, m.program.step? index = some step ∧
        m.begin index step.action r = (l'.registers, activity) ∧ .began id index ∈ events := by
    obtain ⟨step, hstep, -, hbegin, hmem⟩ := hb.steps hphase'
    exact ⟨step, _, hstep, hbegin, hmem⟩
  cases h with
  | step _ _ hb => exact hbegins hb
  | next hb => exact hbegins hb
  | clear => cases eq_of_setPhase hphase'
  | around _ _ _ _ _ => cases eq_of_setPhase hphase'
  | restart _ => cases eq_of_setPhase hphase'
  | _ => cases finish_self.symm.trans hphase'

/-- Whoever executes a step after a deed did so before, or has just begun it. -/
theorem Deed.steps (h : Deed m id l events l') {index : Nat} {activity : Activity}
    (hphase' : l'.phases id = some (.stepping who index activity)) :
    (∃ before, l.phases id = some (.stepping who index before)) ∧ l'.registers = l.registers ∨
    ∃ step r, m.program.step? index = some step ∧
      m.begin index step.action r = (l'.registers, activity) ∧ .began id index ∈ events := by
  obtain ⟨phase, hphase, hshift⟩ := h.shift hphase'
  cases hshift with
  | quiet hpasses _ _ => cases hpasses
  | entry hb _ _ => exact .inr (hb.steps hphase')
  | busy _ hregisters => exact .inl ⟨⟨_, hphase⟩, hregisters⟩

theorem Begins.not_ended (h : Begins m id who l events l') {i index : Nat} {flow : Flow} :
    .ended i index flow ∉ events := by
  cases h <;> simp

theorem Entry.not_ended {purpose : Purpose} (h : Entry m id l purpose events l') {i index : Nat}
    {flow : Flow} : .ended i index flow ∉ events := by
  cases h with
  | step _ _ hb => exact hb.not_ended
  | next hb => exact hb.not_ended
  | _ => simp

/-- A step is ended by the call that executes it, which moves the cursor on. -/
theorem Deed.ends (h : Deed m id l events l') {i index : Nat} {flow : Flow}
    (hmem : .ended i index flow ∈ events) :
    i = id ∧ ∃ who activity, l.phases id = some (.stepping who index activity) ∧
      l'.registers = { l.registers with cursor := m.cursorAfter who index flow } ∧
      ∀ phase, l'.phases id = some phase → ∃ epoch, who = .run epoch ∧
        phase = .seeking (.step epoch) := by
  cases h with
  | take _ _ _ _ hb => exact absurd hmem hb.not_ended
  | enter _ _ _ hb => exact absurd hmem hb.not_ended
  | @ended epoch _ activity _ _ hphase _ =>
    cases List.mem_singleton.1 hmem
    refine ⟨rfl, _, activity, hphase, rfl, fun phase hphase' => ⟨epoch, rfl, ?_⟩⟩
    exact (eq_of_setPhase hphase').symm
  | @executed _ activity _ _ hphase _ =>
    obtain ⟨rfl, rfl, rfl⟩ : i = id ∧ _ ∧ _ := by simpa using hmem
    refine ⟨rfl, _, activity, hphase, rfl, fun phase hphase' => ?_⟩
    cases finish_self.symm.trans hphase'
  | _ => simp at hmem

/-! ### Whatever happens -/

/-- One thing that happens: a deed, a new call, or something outside. -/
inductive Turn (m : Machine) (l : Ledger) : List Event → Ledger → Prop
  | deed {id : Nat} {events : List Event} {l' : Ledger} : Deed m id l events l' →
      Turn m l events l'
  | issue (call : Call) : l.phases l.calls = none →
      Turn m l [] ({ l with calls := l.calls + 1 }.setPhase l.calls (.issued call))
  | outside {s : Stage} : s.milestones = l.stage.milestones → s.position = l.stage.position →
      s.turn = l.stage.turn → Turn m l [] { l with stage := s }

theorem Turn.milestones (h : Turn m l events l') :
    l'.stage.milestones = events ++ l.stage.milestones := by
  cases h with
  | deed h => exact h.milestones
  | issue _ _ => rfl
  | outside h _ _ => exact h

end Ledger

namespace Config

variable {m : Machine} {c c' : Config} {id : Nat}

theorem ledger_issue (h : c.phase? c.calls = none) (call : Call) :
    (c.issue call).ledger
      = { c.ledger with calls := c.calls + 1 }.setPhase c.calls (.issued call) := by
  show (⟨_, _, _, _, _, _, _, _, (c.issue call).phase?⟩ : Ledger) = _
  rw [phase?_issue h]
  rfl

namespace Ordered

/-- **A small step is a deed of the call that is going on.** -/
theorem deed (h : c.Ordered) {rest : List Nat} (hready : c.ready = id :: rest) :
    ∃ events, Ledger.Deed m id c.ledger events (c.step m).ledger := by
  obtain ⟨phase, hphase⟩ := Option.isSome_iff_exists.1
    (h.isSome_phase? (hready ▸ List.mem_cons_self : id ∈ c.ready))
  have hhead : c.ready.head? = some id := by
    rw [hready]
    rfl
  rw [step_of_ready hready hphase]
  exact (h.going hhead hphase).deed hphase

/-- **Whatever happens is a deed, a new call, or something outside.** -/
theorem turn (h : c.Ordered) (hmove : Move m c c') :
    ∃ events, Ledger.Turn m c.ledger events c'.ledger := by
  cases hmove with
  | step =>
    rcases hready : c.ready with - | ⟨id, rest⟩
    · rw [step_of_idle hready]
      exact ⟨[], .outside rfl rfl rfl⟩
    · obtain ⟨events, hdeed⟩ := h.deed (m := m) hready
      exact ⟨events, .deed hdeed⟩
  | issue call =>
    have hnone : c.phase? c.calls = none := role_eq_absent_iff.1 (h.fresh _ (Nat.le_refl _))
    rw [ledger_issue hnone]
    exact ⟨[], .issue call hnone⟩
  | @tick due _ _ =>
    obtain ⟨ready, hready⟩ := c.tick_eq due
    rw [hready]
    exact ⟨[], .outside rfl rfl rfl⟩
  | wait _ _ _ => exact ⟨[], .outside rfl rfl rfl⟩
  | write target value =>
    have hacts := Stage.Acts.set (B := .free) c.stage target value
    exact ⟨[], .outside (Stage.milestones_of_acts hacts) hacts.frame.position
      (c.stage.turn_set target value)⟩
  | register _ => exact ⟨[], .outside rfl rfl rfl⟩

/-- Whoever executes a step owns the registers. -/
theorem owner_of_stepping (h : c.Ordered) {who : Stepper} {index : Nat} {activity : Activity}
    (hphase : c.phase? id = some (.stepping who index activity)) : c.lock.owner = some id := by
  by_cases hhold : activity = .holding none
  · subst hhold
    exact (h.owner (role_of_phase? hphase)).owner
  · exact (h.owner ((role_of_phase? hphase).trans (Phase.role_stepping hhold))).owner

/-- A step that waits to be released is the parked hold. -/
theorem hold_iff (h : c.Ordered) :
    c.hold = some id ↔ ∃ who index, c.phase? id = some (.stepping who index (.holding none)) := by
  constructor
  · intro hhold
    obtain ⟨rests, hrole⟩ := Roster.Orderly.owner_of_hold h hhold
    exact phase?_of_role_parked hrole
  · rintro ⟨who, index, hphase⟩
    exact (h.owner (role_of_phase? hphase)).parked.2 rfl

/-- Whoever stands in the queue waits there, and is not the owner. -/
theorem queued_of_mem (h : c.Ordered) (hid : id ∈ c.lock.queue) :
    (∃ purpose, c.phase? id = some (.queued purpose)) ∧ c.lock.owner ≠ some id := by
  have hfits := h.fits id
  rcases hphase : c.phase? id with - | phase
  · rw [role_eq_absent_iff.2 hphase] at hfits
    exact absurd hid hfits.2.2.queued
  · rw [role_of_phase? hphase] at hfits
    cases phase with
    | issued _ => exact absurd hid hfits.2.queued
    | seeking _ => exact absurd hid hfits.2.queued
    | queued purpose =>
      refine ⟨⟨purpose, rfl⟩, fun howner => ?_⟩
      rcases hfits.waits with hw | hw
      · exact hw.2.2 hid
      · exact hw.1 howner
    | stepping who index activity =>
      by_cases hhold : activity = .holding none
      · subst hhold
        exact absurd hid hfits.queued
      · rw [Phase.role_stepping hhold] at hfits
        exact absurd hid hfits.queued
    | moving _ => exact absurd hid hfits.2.queued

theorem kept (h : c.Ordered) : c.ledger.Kept where
  owner hphase := h.owner_of_stepping hphase
  hold := h.hold_iff
  queued hid := (h.queued_of_mem hid).1
  apart howner hid := (h.queued_of_mem hid).2 howner

end Ordered

/-- **Whatever turns keep** holds after all that happens to a reachable configuration in which it
holds. -/
theorem Reachable.keeps {P : Ledger → Prop} (h : c.Reachable m)
    (hmoves : ReflTransGen (Move m) c c') (hstart : P c.ledger)
    (hturn : ∀ {l l' events}, P l → l.Kept → Ledger.Turn m l events l' → P l') :
    P c'.ledger := by
  induction hmoves with
  | refl => exact hstart
  | tail hmoves hmove ih =>
    have hordered := (h.moves hmoves).ordered
    obtain ⟨events, hstep⟩ := hordered.turn hmove
    exact hturn ih hordered.kept hstep

/-- The same for all that happens to a machine that nobody drives yet. -/
theorem Reachable.induction {P : Ledger → Prop} (h : c.Reachable m)
    (hfresh : ∀ driver functions, P (Config.fresh m driver functions).ledger)
    (hturn : ∀ {l l' events}, P l → l.Kept → Ledger.Turn m l events l' → P l') : P c.ledger := by
  obtain ⟨driver, functions, hmoves⟩ := h
  exact (Reachable.fresh driver functions).keeps hmoves (hfresh driver functions) hturn

end Config

end Timeline
