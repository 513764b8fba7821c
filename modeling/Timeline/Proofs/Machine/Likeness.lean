/-
Timeline/Proofs/Machine/Likeness.lean

Machines that are alike but for their counters.

`Config.Mirrors` says that nothing but the counters of an `Offset` tells two driven
machines apart, and perhaps a signal that is kept for somebody who listens for a
hold.  Main result (`Config.Mirrors.step`): the next small step leads to machines
that are alike again; but it may be one in which such a signal is used up, and then
the other machine is not to take a step.
-/
import Mathlib.Data.List.Basic
import Timeline.Proofs.Machine.Ledger
import Timeline.Proofs.Stage.Offset

namespace Timeline

open Relation

namespace Offset

variable (d : Offset)

/-- What the same call wants the registers for. -/
def purpose : Purpose → Purpose
  | .clear epoch => .clear (epoch + d.epoch)
  | .step epoch => .step (epoch + d.epoch)
  | .restart epoch => .restart (epoch + d.epoch)
  | .next seek => .next seek
  | .rewind => .rewind

/-- Who executes the same step. -/
def stepper : Stepper → Stepper
  | .run epoch => .run (epoch + d.epoch)
  | .next => .next

/-- How far the same call has come. -/
def phase : Phase → Phase
  | .issued call => .issued call
  | .seeking purpose => .seeking (d.purpose purpose)
  | .queued purpose => .queued (d.purpose purpose)
  | .stepping who index activity => .stepping (d.stepper who) index (d.activity activity)
  | .moving convoy => .moving (d.convoy convoy)

/-- The same call with its phase. -/
def task (t : Nat × Phase) : Nat × Phase :=
  (d.call t.1, d.phase t.2)

theorem call_inj {i j : Nat} : d.call i = d.call j ↔ i = j :=
  Nat.add_right_cancel_iff

theorem call_injective : Function.Injective d.call :=
  fun _ _ => d.call_inj.1

theorem mem_map_call {id : Nat} {ids : List Nat} : d.call id ∈ ids.map d.call ↔ id ∈ ids :=
  List.mem_map_of_injective d.call_injective

theorem map_call_eq_some {x : Option Nat} {id : Nat} :
    x.map d.call = some (d.call id) ↔ x = some id := by
  rw [← Option.map_some, (Option.map_injective d.call_injective).eq_iff]

theorem release?_purpose (purpose : Purpose) : (d.purpose purpose).release? = purpose.release? := by
  cases purpose <;> rfl

theorem alarm?_phase (phase : Phase) : (d.phase phase).alarm? = phase.alarm?.map d.alarm := by
  cases phase with
  | stepping who index activity =>
    show Alarm.first? (d.activity activity).alarms = _
    rw [d.alarms_activity, d.first?_map]
    rfl
  | moving convoy =>
    show Alarm.first? (d.convoy convoy).alarms = _
    rw [d.alarms_convoy, d.first?_map]
    rfl
  | _ => rfl

/-- A step begins with an activity that waits for no alarm yet. -/
theorem activity_begin (m : Machine) (index : Nat) (action : Action) (r : Registers) :
    d.activity (m.begin index action r).2 = (m.begin index action r).2 := by
  have htweens (ts : List Tween) : d.activity (.tweens ts) = .tweens ts := by
    simp [Activity.tweens, activity, Progress.map, course]
  cases action <;> simp only [Machine.begin]
  case move tween => exact htweens [tween]
  case parallel tweens => exact htweens tweens
  all_goals try split
  all_goals rfl

end Offset

/-! ### Those who go on -/

section Lists

variable (d : Offset)

theorem map_woken (ready yielded : List Nat) (id : Nat) :
    woken (ready.map d.call) (yielded.map d.call) (d.call id)
      = (woken ready yielded id).map d.call := by
  unfold woken
  simp only [d.mem_map_call]
  split
  · rfl
  · rw [List.map_append]
    rfl

theorem map_handed (others ready yielded : List Nat) :
    handed (others.map d.call) (ready.map d.call) (yielded.map d.call)
      = (handed others ready yielded).map d.call := by
  cases others with
  | nil => rfl
  | cons id rest => exact map_woken d ready yielded id

end Lists

namespace Config

/-- The later machine is as the earlier one, but for counters that are ahead, and perhaps a signal
that is kept. -/
structure Mirrors (d : Offset) (c c' : Config) : Prop where
  stage : c.stage.Mirrors d c'.stage
  registers : c'.registers = c.registers
  owner : c'.lock.owner = c.lock.owner.map d.call
  queue : c'.lock.queue = c.lock.queue.map d.call
  hold : c'.hold = c.hold.map d.call
  permit : c.signal.permit = true → c'.signal.permit = true
  listeners : c'.signal.listeners = c.signal.listeners.map d.call
  notified : c'.signal.notified = c.signal.notified.map d.call
  epoch : c'.epoch = c.epoch + d.epoch
  running : c'.running = c.running
  calls : c'.calls = d.call c.calls
  tasks : c'.tasks = c.tasks.map d.task
  ready : c'.ready = c.ready.map d.call
  yielded : c'.yielded = c.yielded.map d.call

namespace Mirrors

variable {m : Machine} {d : Offset} {c c' : Config}

theorem phase? (h : Mirrors d c c') (id : Nat) :
    c'.phase? (d.call id) = (c.phase? id).map d.phase := by
  rw [Config.phase?, Config.phase?, h.tasks]
  induction c.tasks with
  | nil => rfl
  | cons t rest ih =>
    obtain ⟨j, phase⟩ := t
    rw [List.map_cons, Offset.task, List.lookup_cons, List.lookup_cons, ih]
    by_cases hj : id = j
    · rw [hj, beq_self_eq_true, beq_self_eq_true]
      rfl
    · rw [beq_false_of_ne hj, beq_false_of_ne fun he => hj (d.call_inj.1 he)]

/-! ### Operations -/

theorem note (h : Mirrors d c c') (e : Event) :
    Mirrors d (c.note e) (c'.note (e.mapCalls d.call)) :=
  { h with stage := h.stage.note e }

theorem withStage (h : Mirrors d c c') {s s' : Stage} (hs : s.Mirrors d s') :
    Mirrors d { c with stage := s } { c' with stage := s' } :=
  { h with stage := hs }

theorem withRegisters (h : Mirrors d c c') (r : Registers) :
    Mirrors d { c with registers := r } { c' with registers := r } :=
  { h with registers := rfl }

theorem setPhase (h : Mirrors d c c') (id : Nat) (phase : Phase) :
    Mirrors d (c.setPhase id phase) (c'.setPhase (d.call id) (d.phase phase)) := by
  refine { h with tasks := ?_ }
  show c'.tasks.map _ = (c.tasks.map _).map d.task
  rw [h.tasks, List.map_map, List.map_map]
  refine List.map_congr_left fun t _ => ?_
  show (if d.call t.1 = d.call id then _ else d.task t) = d.task (if t.1 = id then _ else t)
  simp only [d.call_inj]
  split <;> rfl

theorem wake (h : Mirrors d c c') (id : Nat) : Mirrors d (c.wake id) (c'.wake (d.call id)) := by
  rw [wake_eq, wake_eq]
  refine { h with ready := ?_ }
  show woken c'.ready c'.yielded _ = _
  rw [h.ready, h.yielded]
  exact map_woken d ..

theorem block (h : Mirrors d c c') : Mirrors d c.block c'.block := by
  refine { h with stage := h.stage.nextTurn, ready := ?_ }
  show c'.ready.tail = c.ready.tail.map d.call
  rw [h.ready, List.map_tail]

theorem yield (h : Mirrors d c c') (id : Nat) : Mirrors d (c.yield id) (c'.yield (d.call id)) := by
  have hlast : Mirrors d { c with yielded := c.yielded ++ [id] }
      { c' with yielded := c'.yielded ++ [d.call id] } := by
    refine { h with yielded := ?_ }
    show c'.yielded ++ _ = (c.yielded ++ [id]).map d.call
    rw [h.yielded, List.map_append]
    rfl
  exact hlast.block

theorem pause (h : Mirrors d c c') (id : Nat) : Mirrors d (c.pause id) (c'.pause (d.call id)) := by
  unfold Config.pause
  rw [h.stage.turn]
  split
  · exact h.yield id
  · exact h.block

theorem finish (h : Mirrors d c c') (id : Nat) (result : Except StepError Unit) :
    Mirrors d (c.finish id result) (c'.finish (d.call id) result) := by
  have hover : Mirrors d { c with tasks := c.tasks.filter fun t => t.1 ≠ id }
      { c' with tasks := c'.tasks.filter fun t => t.1 ≠ d.call id } := by
    refine { h with tasks := ?_ }
    show c'.tasks.filter _ = (c.tasks.filter _).map d.task
    rw [h.tasks, List.filter_map]
    congr 1
    refine List.filter_congr fun t _ => ?_
    show decide (d.call t.1 ≠ d.call id) = decide (t.1 ≠ id)
    simp only [ne_eq, d.call_inj]
  exact hover.block.note (.returned id result)

theorem finishRun (h : Mirrors d c c') (id : Nat) (result : Except StepError Unit) :
    Mirrors d (c.finishRun id result) (c'.finishRun (d.call id) result) := by
  have hover : Mirrors d { c with running := false } { c' with running := false } :=
    { h with running := rfl }
  exact hover.finish id result

theorem unlock (h : Mirrors d c c') : Mirrors d c.unlock c'.unlock := by
  rw [unlock_eq, unlock_eq]
  refine { h with owner := ?_, queue := ?_, ready := ?_ }
  · show c'.lock.queue.head? = _
    rw [h.queue, List.head?_map]
  · show c'.lock.queue.tail = c.lock.queue.tail.map d.call
    rw [h.queue, List.map_tail]
  · show handed c'.lock.queue c'.ready c'.yielded = _
    rw [h.queue, h.ready, h.yielded]
    exact map_handed d ..

theorem notify (h : Mirrors d c c') : Mirrors d c.notify c'.notify := by
  have hl := h.listeners
  unfold Config.notify
  rcases hfirst : c.signal.listeners with - | ⟨first, rest⟩ <;> rw [hfirst] at hl <;> rw [hl]
  · exact { h with permit := fun _ => rfl }
  · have hsent : Mirrors d
        { c with signal := { c.signal with
          listeners := rest, notified := c.signal.notified ++ [first] } }
        { c' with signal := { c'.signal with
          listeners := rest.map d.call, notified := c'.signal.notified ++ [d.call first] } } := by
      refine { h with listeners := rfl, notified := ?_ }
      show c'.signal.notified ++ _ = (c.signal.notified ++ [first]).map d.call
      rw [h.notified, List.map_append]
      rfl
    exact hsent.wake first

theorem unlisten (h : Mirrors d c c') (id : Nat) :
    Mirrors d (c.unlisten id) (c'.unlisten (d.call id)) := by
  have herase {ids ids' : List Nat} (hids : ids' = ids.map d.call) :
      ids'.erase (d.call id) = (ids.erase id).map d.call := by
    rw [hids, List.map_erase d.call_injective]
  have hmem : d.call id ∈ c'.signal.notified ↔ id ∈ c.signal.notified := by
    rw [h.notified]
    exact d.mem_map_call
  unfold Config.unlisten
  simp only [hmem]
  split
  · have hnotified : Mirrors d
        { c with signal := { c.signal with notified := c.signal.notified.erase id } }
        { c' with signal := { c'.signal with notified := c'.signal.notified.erase (d.call id) } } :=
      { h with notified := herase h.notified }
    exact hnotified.notify
  · exact { h with listeners := herase h.listeners }

theorem releaseHold (h : Mirrors d c c') (id holder : Nat) (release : Release) :
    Mirrors d (c.releaseHold id holder release)
      (c'.releaseHold (d.call id) (d.call holder) release) := by
  have hfree : Mirrors d { c with hold := none } { c' with hold := none } := { h with hold := rfl }
  have hphase := hfree.phase? holder
  unfold Config.releaseHold
  dsimp only at hphase ⊢
  refine wake (note ?_ (.released id holder release)) holder
  rw [hphase]
  rcases ({ c with hold := none } : Config).phase? holder with
    - | ⟨_ | _ | _ | ⟨who, index, _ | _ | _ | ⟨_ | _⟩⟩ | _⟩
  · exact hfree
  · exact hfree
  · exact hfree
  · exact hfree
  · exact hfree
  · exact hfree
  · exact hfree
  · exact hfree.setPhase holder (.stepping who index (.holding (some release)))
  · exact hfree
  · exact hfree

theorem issue (h : Mirrors d c c') (call : Call) : Mirrors d (c.issue call) (c'.issue call) where
  stage := h.stage
  registers := h.registers
  owner := h.owner
  queue := h.queue
  hold := h.hold
  permit := h.permit
  listeners := h.listeners
  notified := h.notified
  epoch := h.epoch
  running := h.running
  calls := by
    show c'.calls + 1 = c.calls + 1 + d.calls
    rw [h.calls, Offset.call, Nat.add_right_comm]
  tasks := by
    show c'.tasks ++ [(c'.calls, .issued call)] = (c.tasks ++ [_]).map d.task
    rw [h.tasks, h.calls, List.map_append]
    rfl
  ready := by
    show c'.ready ++ [c'.calls] = (c.ready ++ [_]).map d.call
    rw [h.ready, h.calls, List.map_append]
    rfl
  yielded := h.yielded

/-! ### Steps of the program -/

variable {id : Nat}

theorem beginStep (h : Mirrors d c c') (who : Stepper) :
    Mirrors d (c.beginStep m id who) (c'.beginStep m (d.call id) (d.stepper who)) := by
  rcases hstep : m.program.step? c.registers.cursor with - | step
  · have hstep' : m.program.step? c'.registers.cursor = none := h.registers ▸ hstep
    rw [beginStep_of_none hstep, beginStep_of_none hstep']
    exact h.unlock.finish id (.ok ())
  have hcursor : c'.registers.cursor = c.registers.cursor := by rw [h.registers]
  have hstep' : m.program.step? c'.registers.cursor = some step := hcursor ▸ hstep
  have hat : (c.atCursor m id).Mirrors d (c'.atCursor m (d.call id)) := by
    unfold Config.atCursor
    rw [h.registers]
    exact (h.stage.publish _).note (.began id c.registers.cursor)
  by_cases hhold : step.action = .hold
  · rw [beginStep_of_hold hstep hhold, beginStep_of_hold hstep' hhold, hcursor]
    have hparked : Mirrors d
        { c with stage := (c.atCursor m id).note (.parked id), hold := some id }
        { c' with
          stage := (c'.atCursor m (d.call id)).note (.parked (d.call id))
          hold := some (d.call id) } :=
      { h with stage := hat.note (.parked id), hold := rfl }
    exact hparked.notify.setPhase id (.stepping who c.registers.cursor (.holding none))
  · rcases hbegin : m.begin c.registers.cursor step.action c.registers with ⟨r, activity⟩
    have hbegin' : m.begin c'.registers.cursor step.action c'.registers = (r, activity) :=
      h.registers ▸ hbegin
    rw [beginStep_of_ne_hold hstep hhold hbegin, beginStep_of_ne_hold hstep' hhold hbegin',
      hcursor]
    have hactivity := d.activity_begin m c.registers.cursor step.action c.registers
    rw [hbegin] at hactivity
    have hbegun := ((h.withStage hat).withRegisters r).setPhase id
      (.stepping who c.registers.cursor activity)
    rw [Offset.phase, hactivity] at hbegun
    exact hbegun

theorem endStep (h : Mirrors d c c') (who : Stepper) (index : Nat) (flow : Flow) :
    Mirrors d (c.endStep m id who index flow)
      (c'.endStep m (d.call id) (d.stepper who) index flow) := by
  have hended (cursor : Nat) : Mirrors d
      ({ c with registers := { c.registers with cursor } }.note (.ended id index flow)).unlock
      ({ c' with registers := { c'.registers with cursor } }.note
        (.ended (d.call id) index flow)).unlock := by
    rw [h.registers]
    exact ((h.withRegisters _).note (.ended id index flow)).unlock
  cases who with
  | run epoch =>
    show Mirrors d _ (c'.endStep m (d.call id) (.run (epoch + d.epoch)) index flow)
    rw [endStep_run, endStep_run]
    exact (hended _).setPhase id (.seeking (.step epoch))
  | next =>
    show Mirrors d _ (c'.endStep m (d.call id) .next index flow)
    rw [endStep_next, endStep_next]
    exact (hended _).finish id (.ok ())

theorem failStep (h : Mirrors d c c') (who : Stepper) (index : Nat) (e : StepError) :
    Mirrors d (c.failStep id who index e) (c'.failStep (d.call id) (d.stepper who) index e) := by
  have hfailed := (h.note (.failed id index e)).unlock
  cases who with
  | run epoch => exact hfailed.finishRun id (.error e)
  | next => exact hfailed.finish id (.error e)

/-! ### The owner of the registers -/

theorem restored {s s' : Stage} (h : s.Mirrors d s') (m : Machine) :
    (m.restored s).Mirrors d (m.restored s') := by
  unfold Machine.restored
  induction m.initial.entries generalizing s s' with
  | nil => exact h
  | cons entry rest ih =>
    obtain ⟨hknown, hset⟩ := h.set entry.1 entry.2
    rw [List.foldl_cons, List.foldl_cons]
    refine ih ?_
    dsimp only
    rw [hknown]
    exact hset.note (.set entry.1 entry.2 _)

theorem rewind (h : Mirrors d c c') : Mirrors d (c.rewind m id) (c'.rewind m (d.call id)) := by
  have hrestored : Mirrors d
      { c with registers := {}, stage := (m.restored c.stage).publish (m.position 0) }
      { c' with registers := {}, stage := (m.restored c'.stage).publish (m.position 0) } :=
    { h with stage := (restored h.stage m).publish (m.position 0), registers := rfl }
  exact (hrestored.note (.rewound id)).unlock.finish id (.ok ())

theorem enter (h : Mirrors d c c') (purpose : Purpose) :
    Mirrors d (c.enter m id purpose) (c'.enter m (d.call id) (d.purpose purpose)) := by
  have hepoch (epoch : Nat) : c'.epoch = epoch + d.epoch ↔ c.epoch = epoch := by
    rw [h.epoch, Nat.add_right_cancel_iff]
  cases purpose with
  | clear epoch =>
    simp only [Config.enter, Offset.purpose]
    rw [h.registers]
    exact (h.withRegisters _).unlock.setPhase id (.seeking (.step epoch))
  | step epoch =>
    simp only [Config.enter, Offset.purpose, ne_eq, hepoch, h.registers]
    split
    · exact h.unlock.finishRun id (.ok ())
    · split
      · split
        · exact h.unlock.setPhase id (.seeking (.restart epoch))
        · exact h.unlock.finishRun id (.ok ())
      · exact h.beginStep (.run epoch)
  | restart epoch =>
    simp only [Config.enter, Offset.purpose, ne_eq, hepoch, h.registers]
    split
    · exact h.unlock.finishRun id (.ok ())
    · exact (((h.withRegisters _).note (.restarted id)).unlock.setPhase id
        (.seeking (.step epoch))).yield id
  | next seek =>
    simp only [Config.enter, Offset.purpose, h.registers]
    exact (h.withRegisters _).beginStep .next
  | rewind => exact h.rewind

/-! ### Small steps -/

theorem leaveQueue (h : Mirrors d c c') (purpose : Purpose) :
    Mirrors d (c.leaveQueue m id purpose) (c'.leaveQueue m (d.call id) (d.purpose purpose)) := by
  have howner : c'.lock.owner = some (d.call id) ↔ c.lock.owner = some id := by
    rw [h.owner, d.map_call_eq_some]
  have hnotified : d.call id ∈ c'.signal.notified ↔ id ∈ c.signal.notified := by
    rw [h.notified]
    exact d.mem_map_call
  have herase {ids ids' : List Nat} (hids : ids' = ids.map d.call) :
      ids'.erase (d.call id) = (ids.erase id).map d.call := by
    rw [hids, List.map_erase d.call_injective]
  unfold Config.leaveQueue
  simp only [howner, hnotified, d.release?_purpose]
  split
  · refine enter ?_ purpose
    have hspent := h.withStage h.stage.spend
    split
    · exact hspent.unlisten id
    · exact hspent
  · split
    · have hleft : Mirrors d
          { c with
            lock := { c.lock with queue := c.lock.queue.erase id }
            signal := { c.signal with notified := c.signal.notified.erase id } }
          { c' with
            lock := { c'.lock with queue := c'.lock.queue.erase (d.call id) }
            signal := { c'.signal with notified := c'.signal.notified.erase (d.call id) } } :=
        { h with queue := herase h.queue, notified := herase h.notified }
      exact hleft.setPhase id (.seeking purpose)
    · exact h.block

theorem accept (h : Mirrors d c c') (call : Call) :
    Mirrors d (c.accept m id call) (c'.accept m (d.call id) call) := by
  cases call with
  | start =>
    simp only [Config.accept, h.running]
    split
    · exact h.finish id (.ok ())
    · have hstarted : Mirrors d { c with running := true } { c' with running := true } :=
        { h with running := rfl }
      have hseeks := hstarted.setPhase id (.seeking (.clear c.epoch))
      rw [Offset.phase, Offset.purpose, ← h.epoch] at hseeks
      exact hseeks
  | next label =>
    cases label with
    | none =>
      simp only [Config.accept]
      split
      · exact h.finish id (.ok ())
      · exact h.setPhase id (.seeking (.next none))
    | some label =>
      simp only [Config.accept]
      split
      · exact h.finish id (.error (.unknownLabel label))
      · split
        · exact h.finish id (.ok ())
        · exact h.setPhase id (.seeking (.next (some _)))
  | stop =>
    have hstopped : Mirrors d { c with epoch := c.epoch + 1 } { c' with epoch := c'.epoch + 1 } := by
      refine { h with epoch := ?_ }
      show c'.epoch + 1 = c.epoch + 1 + d.epoch
      rw [h.epoch, Nat.add_right_comm]
    exact hstopped.setPhase id (.seeking .rewind)
  | reset => exact h.setPhase id (.seeking .rewind)
  | animate batch =>
    have hbatch : d.convoy (.ofBatch batch) = .ofBatch batch := by
      simp [Offset.convoy, Convoy.ofBatch, Progress.map, Offset.ride]
    have hmoving := h.setPhase id (.moving (.ofBatch batch))
    rw [Offset.phase, hbatch] at hmoving
    exact hmoving

/-- What the next small step of the later machine comes to: a step of both machines, or a signal that
is used up. -/
def Follows (d : Offset) (c c₁ c' c₁' : Config) : Prop :=
  Mirrors d c₁ c₁' ∨
    Mirrors d c c₁' ∧ c'.signal.permit = true ∧ c₁'.signal.permit = false

theorem seek (h : Mirrors d c c') (purpose : Purpose) :
    Follows d c (c.seek m id purpose) c' (c'.seek m (d.call id) (d.purpose purpose)) := by
  have hrelease := d.release?_purpose purpose
  -- without a hold to release
  have hask (hno : purpose.release? = none ∨ c.hold = none) :
      Follows d c (c.seek m id purpose) c' (c'.seek m (d.call id) (d.purpose purpose)) := by
    have hno' : (d.purpose purpose).release? = none ∨ c'.hold = none := by
      rw [hrelease, h.hold, Option.map_eq_none_iff]
      exact hno
    have hfree : c'.lock.owner = none ↔ c.lock.owner = none := by
      rw [h.owner, Option.map_eq_none_iff]
    rw [seek_eq hno, seek_eq hno', h.stage.turn, hrelease]
    simp only [hfree]
    split
    · exact .inl (h.yield id)
    · split
      · have htaken : Mirrors d
            { c with lock := { c.lock with owner := some id }, stage := c.stage.spend }
            { c' with
              lock := { c'.lock with owner := some (d.call id) }, stage := c'.stage.spend } :=
          { h with stage := h.stage.spend, owner := rfl }
        exact .inl (htaken.enter purpose)
      · have hlast (ids : List Nat) : ids.map d.call ++ [d.call id] = (ids ++ [id]).map d.call := by
          rw [List.map_append]
          rfl
        have hqueued : Mirrors d { c with lock := { c.lock with queue := c.lock.queue ++ [id] } }
            { c' with lock := { c'.lock with queue := c'.lock.queue ++ [d.call id] } } := by
          refine { h with queue := ?_ }
          rw [h.queue]
          exact hlast _
        rcases hreleases : purpose.release?.isSome with - | -
        · exact .inl (hqueued.setPhase id (.queued purpose)).block
        have hlistens : Mirrors d
            { c with
              lock := { c.lock with queue := c.lock.queue ++ [id] }
              signal := { c.signal with listeners := c.signal.listeners ++ [id] } }
            { c' with
              lock := { c'.lock with queue := c'.lock.queue ++ [d.call id] }
              signal := { c'.signal with listeners := c'.signal.listeners ++ [d.call id] } } := by
          refine { hqueued with listeners := ?_ }
          rw [h.listeners]
          exact hlast _
        -- a signal that only one machine keeps is used up without a step of the other one
        simp only [Bool.true_and, if_true]
        by_cases hpermit : c.signal.permit = true
        · rw [if_pos hpermit, if_pos (h.permit hpermit)]
          exact .inl { h with permit := fun hfalse => (nomatch hfalse) }
        · rw [if_neg hpermit]
          by_cases hpermit' : c'.signal.permit = true
          · rw [if_pos hpermit']
            exact .inr ⟨{ h with permit := fun ht => (hpermit ht).elim }, hpermit', rfl⟩
          · rw [if_neg hpermit']
            exact .inl (hlistens.setPhase id (.queued purpose)).block
  rcases hp : purpose.release? with - | release
  · exact hask (.inl hp)
  · rcases hhold : c.hold with - | holder
    · exact hask (.inr hhold)
    · have hhold' : c'.hold = some (d.call holder) := by rw [h.hold, hhold]; rfl
      rw [seek_of_hold hp hhold, seek_of_hold (hrelease.trans hp) hhold']
      have hreleased := h.releaseHold id holder release
      cases purpose with
      | rewind => exact .inl hreleased
      | next seek => exact .inl (hreleased.finish id (.ok ()))
      | _ => cases hp

theorem advance (h : Mirrors d c c') (phase : Phase) :
    Follows d c (c.advance m id phase) c' (c'.advance m (d.call id) (d.phase phase)) := by
  cases phase with
  | issued call => exact .inl (h.accept call)
  | seeking purpose => exact h.seek purpose
  | queued purpose => exact .inl (h.leaveQueue purpose)
  | stepping who index activity =>
    left
    have hgoes := h.stage.pollActivity activity
    simp only [Config.advance, Offset.phase]
    generalize activity.poll c.stage = x, (d.activity activity).poll c'.stage = x' at hgoes
    cases hgoes with
    | @busy activity' _ _ hs =>
      exact ((h.withStage hs).setPhase id (.stepping who index activity')).pause id
    | @finished result _ _ hs =>
      cases result with
      | ok flow => exact (h.withStage hs).endStep who index flow
      | error e => exact (h.withStage hs).failStep who index e
  | moving convoy =>
    left
    have hgoes := h.stage.pollConvoy false convoy
    simp only [Config.advance, Offset.phase]
    generalize convoy.poll false c.stage = x, (d.convoy convoy).poll false c'.stage = x' at hgoes
    cases hgoes with
    | @busy convoy' _ _ hs => exact ((h.withStage hs).setPhase id (.moving convoy')).pause id
    | finished hs => exact (h.withStage hs).finish id _

/-- **Machines that are alike stay so**, small step by small step. -/
theorem step (h : Mirrors d c c') : Follows d c (c.step m) c' (c'.step m) := by
  have hready' := h.ready
  rcases hready : c.ready with - | ⟨id, rest⟩ <;> rw [hready] at hready'
  · rw [step_of_idle hready, step_of_idle hready']
    exact .inl { h with ready := h.yielded, yielded := rfl }
  · have hphase := h.phase? id
    unfold Config.step
    rw [hready, hready', List.map_cons]
    dsimp only
    rw [hphase]
    rcases c.phase? id with - | phase
    · exact .inl h.block
    · exact h.advance phase

/-! ### The clock -/

theorem quiet (h : Mirrors d c c') : c'.quiet = c.quiet := by
  rw [Config.quiet, Config.quiet, h.ready, h.yielded, List.isEmpty_map, List.isEmpty_map]

theorem alarms (h : Mirrors d c c') :
    c'.alarms = c.alarms.map fun a => (d.alarm a.1, d.call a.2) := by
  unfold Config.alarms
  rw [h.tasks, List.filterMap_map, List.map_filterMap]
  congr 1
  funext t
  show ((d.phase t.2).alarm?.map fun alarm => (alarm, d.call t.1)) = _
  rw [d.alarm?_phase, Option.map_map, Option.map_map]
  rfl

/-- The next alarm is the same one. -/
theorem nextDue? (h : Mirrors d c c') : c'.nextDue? = c.nextDue?.map (· + d.time) := by
  have hfirst : c'.alarms.map Prod.fst = (c.alarms.map Prod.fst).map d.alarm := by
    rw [h.alarms, List.map_map, List.map_map]
    rfl
  rw [Config.nextDue?, Config.nextDue?, hfirst, d.first?_map, Option.map_map, Option.map_map]
  rfl

theorem setClock (h : Mirrors d c c') (time : Nat) :
    Mirrors d { c with stage := { c.stage with now := time } }
      { c' with stage := { c'.stage with now := time + d.time } } :=
  h.withStage { h.stage with now := rfl }

/-- The clock wakes the same calls in the same order. -/
theorem tick (h : Mirrors d c c') (time : Nat) :
    Mirrors d (c.tick time) (c'.tick (time + d.time)) := by
  have hwakes {c c' : Config} (h : Mirrors d c c') (alarms : List (Alarm × Nat)) :
      Mirrors d (alarms.foldl (fun c a => c.wake a.2) c)
        ((alarms.map fun a => (d.alarm a.1, d.call a.2)).foldl (fun c a => c.wake a.2) c') := by
    induction alarms generalizing c c' with
    | nil => exact h
    | cons a rest ih => exact ih (h.wake a.2)
  have hdue : (c'.alarms.filter fun a => a.1.due ≤ time + d.time).mergeSort
        (fun a b => !b.1.before a.1)
      = ((c.alarms.filter fun a => a.1.due ≤ time).mergeSort fun a b => !b.1.before a.1).map
        fun a => (d.alarm a.1, d.call a.2) := by
    rw [h.alarms, List.filter_map, List.map_mergeSort]
    · congr 2
      refine List.filter_congr fun a _ => ?_
      exact decide_eq_decide.2 Nat.add_le_add_iff_right
    · intro a _ b _
      rw [d.before_alarm]
  unfold Config.tick
  dsimp only
  rw [hdue]
  exact hwakes (h.setClock time) _

/-! ### What comes from outside -/

theorem write (h : Mirrors d c c') (target : String) (value : Float) :
    Mirrors d { c with stage := (c.stage.set target value).2 }
      { c' with stage := (c'.stage.set target value).2 } :=
  h.withStage (h.stage.set target value).2

theorem register (h : Mirrors d c c') {functions : Registry} (hstateless : functions.Stateless) :
    Mirrors d { c with stage := { c.stage with functions } }
      { c' with stage := { c'.stage with functions } } :=
  h.withStage { h.stage with functions := fun _ => rfl, stateless := hstateless }

end Mirrors

end Config

end Timeline
