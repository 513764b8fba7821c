/-
Timeline/Proofs/Machine/Drive.lean

What the small steps of a machine come to, case by case: how a step begins, and
which steps park a hold.
-/
import Timeline.Proofs.Machine.Roster

namespace Timeline

variable {m : Machine}

/-- A step that holds parks its hold at once, and no other step does. -/
theorem Machine.begin_holding {index : Nat} {action : Action} {r r' : Registers}
    {release : Option Release} (h : m.begin index action r = (r', .holding release)) :
    action = .hold ∧ r' = r ∧ release = none := by
  cases action <;> simp only [begin, Activity.tweens, Activity.finished, Activity.failed] at h
  case hold =>
    cases h
    exact ⟨rfl, rfl, rfl⟩
  all_goals try split at h
  all_goals cases h

namespace Config

variable {c : Config} {id : Nat} {who : Stepper}

/-! ### The begin of a step -/

/-- The stage on which the step at the cursor begins. -/
def atCursor (m : Machine) (c : Config) (id : Nat) : Stage :=
  (c.stage.publish (m.position c.registers.cursor)).note (.began id c.registers.cursor)

theorem beginStep_of_none (h : m.program.step? c.registers.cursor = none) :
    c.beginStep m id who = c.unlock.finish id (.ok ()) := by
  simp only [beginStep, h]

/-- A step that holds keeps the registers as they are, and signals that it is parked. -/
theorem beginStep_of_hold {step : Step} (h : m.program.step? c.registers.cursor = some step)
    (hhold : step.action = .hold) :
    c.beginStep m id who
      = ({ c with
          stage := (c.atCursor m id).note (.parked id)
          hold := some id }.notify).setPhase id
          (.stepping who c.registers.cursor (.holding none)) := by
  simp only [beginStep, h, hhold, Machine.begin, notify_eq]
  rfl

/-- Any other step begins its activity. -/
theorem beginStep_of_ne_hold {step : Step} (h : m.program.step? c.registers.cursor = some step)
    (hhold : step.action ≠ .hold) {r : Registers} {activity : Activity}
    (hbegin : m.begin c.registers.cursor step.action c.registers = (r, activity)) :
    c.beginStep m id who
      = { c with stage := c.atCursor m id, registers := r }.setPhase id
          (.stepping who c.registers.cursor activity) := by
  simp only [beginStep, h]
  have hbegin' : m.begin c.registers.cursor step.action
      ({ c with stage := c.stage.publish (m.position c.registers.cursor) }.note
        (.began id c.registers.cursor)).registers = (r, activity) := hbegin
  rw [hbegin']
  cases activity with
  | holding release => exact absurd (Machine.begin_holding hbegin).1 hhold
  | _ => rfl

/-! ### Asking for the registers -/

section Seek

variable {purpose : Purpose}

theorem seek_of_hold {holder : Nat} {release : Release} (hrelease : purpose.release? = some release)
    (hhold : c.hold = some holder) :
    c.seek m id purpose
      = if purpose = .rewind then c.releaseHold id holder release
        else (c.releaseHold id holder release).finish id (.ok ()) := by
  simp only [seek, hrelease, hhold]

/-- Without a hold to release, a call takes free registers, uses up a signal that is kept, or
queues. -/
theorem seek_eq (h : purpose.release? = none ∨ c.hold = none) :
    c.seek m id purpose
      = if c.stage.turn = 0 then c.yield id
        else if c.lock.owner = none then
          { c with
            lock := { c.lock with owner := some id }, stage := c.stage.spend }.enter m id purpose
        else if purpose.release?.isSome && c.signal.permit then
          { c with signal := { c.signal with permit := false } }
        else
          ((if purpose.release?.isSome then
              { c with
                lock := { c.lock with queue := c.lock.queue ++ [id] }
                signal := { c.signal with listeners := c.signal.listeners ++ [id] } }
            else { c with lock := { c.lock with queue := c.lock.queue ++ [id] } }).setPhase id
            (.queued purpose)).block := by
  rcases hrelease : purpose.release? with - | release <;> rcases hhold : c.hold with - | holder
  · simp only [seek, hrelease, hhold]
  · simp only [seek, hrelease, hhold]
  · simp only [seek, hrelease, hhold]
  · simp [hrelease, hhold] at h

end Seek

/-! ### Whose step it is -/

theorem step_of_ready {rest : List Nat} {phase : Phase} (hready : c.ready = id :: rest)
    (hphase : c.phase? id = some phase) : c.step m = c.advance m id phase := by
  simp only [step, hready, hphase]

theorem step_of_idle (h : c.ready = []) :
    c.step m = { c with ready := c.yielded, yielded := [] } := by
  simp only [step, h]

end Config

end Timeline
