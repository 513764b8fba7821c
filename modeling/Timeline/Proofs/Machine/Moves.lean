/-
Timeline/Proofs/Machine/Moves.lean

What can happen to a machine that is being driven, and the order that its calls
keep whatever happens.

`Config.Move` is one thing that happens: a small step, a call from outside, the
clock that moves on to the next alarm or to a time before it, or somebody outside
who writes a target or changes the registry.  A configuration is reachable if any
number of moves leads to it from a machine that nobody drives yet.

Main result (`Config.Reachable.ordered`): in a reachable configuration all calls
stand as their phases ask (`Roster.Orderly`).
-/
import Mathlib.Logic.Relation
import Timeline.Proofs.Machine.Drive
import Timeline.Proofs.Machine.Order
import Timeline.Proofs.Stage.Courses

namespace Timeline

open Relation

namespace Config

/-! ### Reachable configurations -/

/-- A machine that nobody drives yet, among some targets and functions. -/
def fresh (m : Machine) (driver : Driver Float) (functions : Registry) : Config :=
  .ofStage { driver, functions, position := m.position 0 }

/-- One thing that happens. -/
inductive Move (m : Machine) (c : Config) : Config → Prop
  | step : Move m c (c.step m)
  | issue (call : Call) : Move m c (c.issue call)
  /-- Nobody can go on, and the clock moves on to the next alarm. -/
  | tick {due : Nat} : c.quiet → c.nextDue? = some due → Move m c (c.tick due)
  /-- Nobody can go on, and the clock moves on to a time before the next alarm. -/
  | wait {time : Nat} : c.quiet → c.stage.now ≤ time →
      (∀ due, c.nextDue? = some due → time < due) →
      Move m c { c with stage := { c.stage with now := time } }
  /-- Somebody outside writes a target. -/
  | write (target : String) (value : Float) :
      Move m c { c with stage := (c.stage.set target value).2 }
  /-- Somebody outside changes the registry. -/
  | register (functions : Registry) : Move m c { c with stage := { c.stage with functions } }

/-- Any number of moves lead here from a machine that nobody drives yet. -/
def Reachable (m : Machine) (c : Config) : Prop :=
  ∃ driver functions, ReflTransGen (Move m) (fresh m driver functions) c

namespace Reachable

variable {m : Machine} {c c' : Config}

theorem fresh (driver : Driver Float) (functions : Registry) :
    (fresh m driver functions).Reachable m :=
  ⟨driver, functions, .refl⟩

theorem move (h : c.Reachable m) (hmove : Move m c c') : c'.Reachable m := by
  obtain ⟨driver, functions, hmoves⟩ := h
  exact ⟨driver, functions, hmoves.tail hmove⟩

theorem moves (h : c.Reachable m) (hmoves : ReflTransGen (Move m) c c') : c'.Reachable m := by
  obtain ⟨driver, functions, hbefore⟩ := h
  exact ⟨driver, functions, hbefore.trans hmoves⟩

theorem issue (h : c.Reachable m) (call : Call) : (c.issue call).Reachable m :=
  h.move (.issue call)

theorem settle (h : c.Reachable m) (fuel : Nat) : (c.settle m fuel).Reachable m := by
  induction fuel generalizing c with
  | zero => exact h
  | succ fuel ih =>
    unfold Config.settle
    split
    · exact h
    · exact ih (h.move .step)

end Reachable

/-- The same, by moves through configurations whose stages have a property. -/
def ReachableOn (m : Machine) (S : Stage → Prop) (c : Config) : Prop :=
  ∃ driver functions, S (Config.fresh m driver functions).stage ∧
    ReflTransGen (fun c c' => Move m c c' ∧ S c'.stage) (Config.fresh m driver functions) c

namespace ReachableOn

variable {m : Machine} {S : Stage → Prop} {c c' : Config}

theorem reachable (h : c.ReachableOn m S) : c.Reachable m := by
  obtain ⟨driver, functions, -, hmoves⟩ := h
  exact ⟨driver, functions, hmoves.lift id fun _ _ hmove => hmove.1⟩

theorem stage (h : c.ReachableOn m S) : S c.stage := by
  obtain ⟨driver, functions, hfresh, hmoves⟩ := h
  rcases hmoves.cases_tail with rfl | ⟨_, _, hmove⟩
  · exact hfresh
  · exact hmove.2

theorem move (h : c.ReachableOn m S) (hmove : Move m c c') (hs : S c'.stage) :
    c'.ReachableOn m S := by
  obtain ⟨driver, functions, hfresh, hmoves⟩ := h
  exact ⟨driver, functions, hfresh, hmoves.tail ⟨hmove, hs⟩⟩

end ReachableOn

/-! ### Order -/

/-- All calls stand as their phases ask. -/
def Ordered (c : Config) : Prop :=
  c.roster.Orderly c.role

/-- In the midst of its turn a call stands as a role asks, and all others as their phases ask. -/
structure Going (c : Config) (id : Nat) (x : Role) : Prop where
  orderly : c.roster.Orderly (Function.update c.role id x)
  head : c.ready.head? = some id
  present : (c.phase? id).isSome

variable {m : Machine} {c : Config} {id : Nat} {x : Role} {phase : Phase}

theorem Ordered.going (h : c.Ordered) (hhead : c.ready.head? = some id)
    (hphase : c.phase? id = some phase) : c.Going id phase.role where
  orderly := by
    rw [← role_of_phase? hphase, Function.update_eq_self]
    exact h
  head := hhead
  present := by
    rw [hphase]
    rfl

theorem releaseHold_eq {holder index : Nat} {who : Stepper} {release : Release}
    (h : c.phase? holder = some (.stepping who index (.holding none))) :
    c.releaseHold id holder release
      = { c.setPhase holder (.stepping who index (.holding (some release))) with
          hold := none
          stage := c.stage.note (.released id holder release)
          ready := woken c.ready c.yielded holder } := by
  have h' : { c with hold := none }.phase? holder
      = some (.stepping who index (.holding none)) := h
  simp only [Config.releaseHold, h', wake_eq]
  rfl

theorem phase?_releaseHold {holder : Nat} {release : Release} (hne : holder ≠ id) :
    (c.releaseHold id holder release).phase? id = c.phase? id := by
  simp only [Config.releaseHold, wake_eq]
  split
  · rename_i who index hphase
    have hpresent : ({ c with hold := none }.phase? holder).isSome := by
      rw [hphase]
      rfl
    show ({ c with hold := none }.setPhase holder _).phase? id = _
    rw [phase?_setPhase hpresent, Function.update_of_ne hne.symm]
    rfl
  · rfl

theorem hold_releaseHold {holder : Nat} {release : Release} :
    (c.releaseHold id holder release).hold = none := by
  simp only [Config.releaseHold, wake_eq]
  split <;> rfl

namespace Going

theorem mem_ready (h : c.Going id x) : id ∈ c.ready :=
  List.mem_of_mem_head? h.head

theorem ready_eq (h : c.Going id x) : c.ready = id :: c.ready.tail := by
  obtain ⟨rest, hrest⟩ := List.head?_eq_some_iff.1 h.head
  rw [hrest]
  rfl

/-- What happens on the stage and in the registers concerns nobody. -/
theorem congr (h : c.Going id x) {c' : Config} (hroster : c'.roster = c.roster)
    (htasks : c'.tasks = c.tasks) : c'.Going id x := by
  have hphase : c'.phase? = c.phase? := by
    funext j
    rw [phase?, htasks, phase?]
  have hrole : c'.role = c.role := by
    funext j
    rw [role, hphase, role]
  refine ⟨?_, (congrArg (fun r => r.ready.head?) hroster).trans h.head, hphase ▸ h.present⟩
  rw [hrole, hroster]
  exact h.orderly

/-- The call that is going on stays the first one. -/
theorem head?_handed (h : c.Going id x) (others : List Nat) :
    (handed others c.ready c.yielded).head? = some id := by
  rw [h.ready_eq]
  exact Timeline.head?_handed others _ _ id

/-- A call takes another role that asks for the same. -/
theorem change (h : c.Going id x) {y : Role} (hx : x ≠ .absent)
    (hfits : (c.roster.standing id).Fits y)
    (hheard : c.hold = none ∨ (∀ rests, x ≠ .aside true rests) ∨ ∃ rests, y = .aside true rests) :
    c.Going id y where
  orderly := by
    have hx' : Function.update c.role id x id = x := Function.update_self ..
    have := h.orderly.change (by rwa [hx']) hfits (by rwa [hx'])
    rwa [Function.update_idem] at this
  head := h.head
  present := h.present

theorem setPhase (h : c.Going id x) (phase : Phase) : (c.setPhase id phase).Going id x where
  orderly := by
    rw [Config.role_setPhase h.present, Function.update_idem]
    exact h.orderly
  head := h.head
  present := by
    rw [phase?_setPhase h.present, Function.update_self]
    rfl

theorem role_setPhase (h : c.Going id x) (phase : Phase) :
    (c.setPhase id phase).role id = phase.role := by
  rw [Config.role_setPhase h.present, Function.update_self]

/-- A call whose phase says where it stands. -/
theorem ordered (h : c.Going id x) (hphase : c.role id = x) : c.Ordered := by
  have := h.orderly
  rwa [← hphase, Function.update_eq_self] at this

theorem ordered_setPhase (h : c.Going id phase.role) : (c.setPhase id phase).Ordered := by
  have := h.orderly
  rw [← Config.role_setPhase h.present] at this
  exact this

/-! ### The end of a turn -/

theorem block (h : c.Going id x) (hrole : c.role id = x)
    (hfits : ({ c.roster with ready := c.ready.tail }.standing id).Fits x) : c.block.Ordered :=
  (h.ordered hrole).leave h.ready_eq (.inl rfl) (hrole ▸ hfits)

/-- Who waits in the queue and was not notified need not go on. -/
theorem block_queued {releases : Bool} (h : c.Going id (.queued releases))
    (hrole : c.role id = .queued releases) (hother : c.lock.owner ≠ some id)
    (hnotified : id ∉ c.signal.notified) : c.block.Ordered := by
  have hqueued := h.orderly.queued (Function.update_self ..)
  exact h.block hrole ⟨hqueued.yielded, hqueued.parked,
    .inr (hqueued.waits.resolve_left fun hw => hother hw.1), fun hn => absurd hn hnotified,
    hqueued.listens⟩

theorem yield (h : c.Going id x) (hrole : c.role id = x) (hx : ∀ b, x ≠ .queued b)
    (habsent : x ≠ .absent) : (c.yield id).Ordered := by
  refine (h.ordered hrole).leave h.ready_eq (.inr rfl) ?_
  have hfits := (h.ordered hrole).fits id
  rw [hrole] at hfits ⊢
  have hlast : id ∈ c.yielded ++ [id] := by simp
  cases x with
  | absent => exact absurd rfl habsent
  | aside _ _ =>
    exact ⟨.inr (.inl hlast), hfits.2.owner, hfits.2.queued, hfits.2.listening, hfits.2.notified,
      hfits.2.parked⟩
  | queued b => exact absurd rfl (hx b)
  | owner _ _ =>
    exact ⟨hfits.owner, hfits.queued, hfits.listening, hfits.notified, hfits.parked,
      .inr (.inl hlast)⟩

theorem finish {releases rests : Bool} (h : c.Going id (.aside releases rests))
    (hheard : releases → c.hold = none) (result : Except StepError Unit) :
    (c.finish id result).Ordered := by
  have hover := h.orderly.finish h.ready_eq (Function.update_self ..) hheard
  have hrole : (c.finish id result).role = Function.update c.role id .absent := role_finish
  rw [Function.update_idem, ← hrole] at hover
  exact hover

/-! ### The registers change hands -/

theorem unlock {rests : Bool} (h : c.Going id (.owner false rests)) (releases rests' : Bool) :
    c.unlock.Going id (.aside releases rests') where
  orderly := by
    have := h.orderly.unlock h.mem_ready (Function.update_self ..) releases rests'
    rw [Function.update_idem] at this
    rw [unlock_eq]
    exact this
  head := by
    rw [unlock_eq]
    exact h.head?_handed _
  present := by
    rw [unlock_eq]
    exact h.present

/-- Free registers are taken. -/
theorem take {releases rests : Bool} (h : c.Going id (.aside releases rests))
    (hfree : c.lock.owner = none) :
    { c with lock := { c.lock with owner := some id } }.Going id (.owner false false) where
  orderly := by
    have := h.orderly.take h.mem_ready hfree (Function.update_self ..)
    rwa [Function.update_idem] at this
  head := h.head
  present := h.present

/-- Who is handed the registers stops listening for a hold, and passes on a signal that has come
already. -/
theorem own {purpose : Purpose} (h : c.Going id (.queued purpose.release?.isSome))
    (howner : c.lock.owner = some id) :
    (if purpose.release?.isSome then c.unlisten id else c).Going id (.owner false false) := by
  have hown := h.orderly.own h.mem_ready howner (Function.update_self ..)
  rw [Function.update_idem] at hown
  have hqueued := h.orderly.queued (Function.update_self ..)
  obtain ⟨-, -, hapart⟩ := List.nodup_append.1 h.orderly.listeners
  by_cases hrelease : purpose.release?.isSome
  · by_cases hnotified : id ∈ c.signal.notified
    · have hlistening : id ∉ c.signal.listeners := fun hl => hapart id hl id hnotified rfl
      have hnotify := hown.notify
      simp only [roster, List.erase_of_not_mem hlistening] at hnotify
      simp only [hrelease, if_true, unlisten, hnotified, notify_eq]
      exact ⟨hnotify, h.head?_handed _, h.present⟩
    · simp only [roster, List.erase_of_not_mem hnotified] at hown
      simp only [hrelease, if_true, unlisten, hnotified, if_false]
      exact ⟨hown, h.head, h.present⟩
  · have hout : ¬ (id ∈ c.signal.listeners ∨ id ∈ c.signal.notified) := fun hmem =>
      hrelease (hqueued.listens.1 hmem)
    rw [not_or] at hout
    simp only [roster, List.erase_of_not_mem hout.1, List.erase_of_not_mem hout.2] at hown
    simp only [hrelease]
    exact ⟨hown, h.head, h.present⟩

/-! ### Parked holds -/

/-- The owner of the registers parks a hold. -/
theorem park {rests : Bool} (h : c.Going id (.owner false rests)) :
    { c with hold := some id }.notify.Going id (.owner true false) where
  orderly := by
    have := h.orderly.notify.park (Function.update_self ..) fun hlisten hnone => hlisten ?_
    · rw [Function.update_idem] at this
      rw [notify_eq]
      exact this
    · exact Signal.sent_listeners_eq_nil hnone
  head := by
    rw [notify_eq]
    exact h.head?_handed _
  present := by
    rw [notify_eq]
    exact h.present

/-- Who stands aside is no parked hold. -/
theorem ne_of_hold {releases rests : Bool} {holder : Nat}
    (h : c.Going id (.aside releases rests)) (hhold : c.hold = some holder) : holder ≠ id := by
  rintro rfl
  exact (h.orderly.aside (Function.update_self ..)).parked hhold

/-- A call lets a parked hold go. -/
theorem releaseHold {releases rests : Bool} {holder : Nat}
    (h : c.Going id (.aside releases rests)) (hhold : c.hold = some holder) (release : Release) :
    (c.releaseHold id holder release).Going id (.aside releases rests) := by
  obtain ⟨rests', hrole⟩ := h.orderly.owner_of_hold hhold
  have hne := h.ne_of_hold hhold
  rw [Function.update_of_ne hne] at hrole
  obtain ⟨who, index, hphase⟩ := phase?_of_role_parked hrole
  have hwake : { c.roster with ready := woken c.ready c.yielded holder }.Orderly
      (Function.update c.role id (.aside releases rests)) :=
    h.orderly.wake (by rw [Function.update_of_ne hne, hrole]; simp)
  have hgoes : holder ∈ woken c.ready c.yielded holder ∨ holder ∈ c.yielded := by
    rw [mem_woken]
    by_cases hy : holder ∈ c.yielded
    · exact .inr hy
    · exact .inl (.inr ⟨rfl, hy⟩)
  have hrelease := hwake.release hhold hgoes
  rw [Function.update_comm hne.symm] at hrelease
  have hpresent : (c.phase? holder).isSome := by
    rw [hphase]
    rfl
  rw [releaseHold_eq hphase]
  refine ⟨?_, ?_, ?_⟩
  · show Roster.Orderly (Function.update (c.setPhase holder _).role id _) _
    rw [Config.role_setPhase hpresent]
    exact hrelease
  · exact h.head?_handed [holder]
  · show ((c.setPhase holder _).phase? id).isSome
    rw [phase?_setPhase hpresent, Function.update_of_ne hne.symm]
    exact h.present

/-! ### The queue -/

/-- A call queues for the registers. -/
theorem enqueue {purpose : Purpose} (h : c.Going id (.aside purpose.release?.isSome false))
    (howned : c.lock.owner ≠ none) (hnone : purpose.release?.isSome → c.hold = none) :
    (if purpose.release?.isSome then
      { c with
        lock := { c.lock with queue := c.lock.queue ++ [id] }
        signal := { c.signal with listeners := c.signal.listeners ++ [id] } }
      else { c with lock := { c.lock with queue := c.lock.queue ++ [id] } }).Going id
      (.queued purpose.release?.isSome) := by
  have henqueue := h.orderly.enqueue h.mem_ready (Function.update_self ..) howned hnone
  rw [Function.update_idem] at henqueue
  cases hrelease : purpose.release?.isSome <;> simp only [hrelease] at henqueue
  · exact ⟨henqueue, h.head, h.present⟩
  · exact ⟨henqueue, h.head, h.present⟩

/-- Whom the signal has reached leaves the queue. -/
theorem withdraw {purpose : Purpose} (h : c.Going id (.queued purpose.release?.isSome))
    (hnotified : id ∈ c.signal.notified) (hother : c.lock.owner ≠ some id) :
    { c with
      lock := { c.lock with queue := c.lock.queue.erase id }
      signal := { c.signal with notified := c.signal.notified.erase id } }.Going id
      (.aside purpose.release?.isSome false) := by
  have hwithdraw := h.orderly.withdraw hnotified hother (Function.update_self ..)
  have hrelease : purpose.release?.isSome = true :=
    (h.orderly.queued (Function.update_self ..)).listens.1 (.inr hnotified)
  rw [Function.update_idem, ← hrelease] at hwithdraw
  exact ⟨hwithdraw, h.head, h.present⟩

end Going

/-! ### Small steps -/

namespace Going

/-- The owner of the registers is busy with something else than a hold. -/
theorem busy {rests : Bool} (h : c.Going id (.owner false rests)) {activity : Activity}
    (hne : activity ≠ .holding none) {who : Stepper} {index : Nat} :
    c.Going id (Phase.stepping who index activity).role := by
  have howner := h.orderly.owner (Function.update_self ..)
  rw [Phase.role_stepping hne]
  exact h.change (by simp) ⟨howner.owner, howner.queued, howner.listening, howner.notified,
    howner.parked, .inl h.mem_ready⟩ (.inr (.inl (by simp)))

theorem beginStep {rests : Bool} (h : c.Going id (.owner false rests)) (who : Stepper) :
    (c.beginStep m id who).Ordered := by
  rcases hstep : m.program.step? c.registers.cursor with - | step
  · rw [beginStep_of_none hstep]
    exact (h.unlock false false).finish (by simp) _
  · by_cases hhold : step.action = .hold
    · have hparked : ({ c with
          stage := (c.atCursor m id).note (.parked id)
          hold := some id }.notify).Going id (.owner true false) :=
        Going.park (c := { c with stage := (c.atCursor m id).note (.parked id) }) (h.congr rfl rfl)
      rw [beginStep_of_hold hstep hhold]
      exact hparked.ordered_setPhase
    · rcases hbegin : m.begin c.registers.cursor step.action c.registers with ⟨r, activity⟩
      have hne : activity ≠ .holding none := by
        rintro rfl
        exact hhold (Machine.begin_holding hbegin).1
      rw [beginStep_of_ne_hold hstep hhold hbegin]
      exact Going.ordered_setPhase ((h.busy hne).congr rfl rfl)

theorem endStep {rests : Bool} (h : c.Going id (.owner false rests)) (who : Stepper) (index : Nat)
    (flow : Flow) : (c.endStep m id who index flow).Ordered := by
  cases who with
  | run epoch => exact Going.ordered_setPhase (Going.unlock (h.congr (by rfl) (by rfl)) false false)
  | next =>
    exact Going.finish (Going.unlock (h.congr (by rfl) (by rfl)) false false) (by simp) (.ok ())

theorem failStep {rests : Bool} (h : c.Going id (.owner false rests)) (who : Stepper) (index : Nat)
    (e : StepError) : (c.failStep id who index e).Ordered := by
  have hunlock : (c.note (.failed id index e)).unlock.Going id (.aside false false) :=
    Going.unlock (h.congr (by rfl) (by rfl)) false false
  cases who with
  | run epoch => exact Going.finish (hunlock.congr rfl rfl) (by simp) (.error e)
  | next => exact hunlock.finish (by simp) (.error e)

theorem rewind {rests : Bool} (h : c.Going id (.owner false rests)) :
    (c.rewind m id).Ordered :=
  Going.finish (Going.unlock (h.congr (by rfl) (by rfl)) false false) (by simp) (.ok ())

/-- Whoever has become the owner of the registers does what they were wanted for. -/
theorem enter {rests : Bool} (h : c.Going id (.owner false rests)) (purpose : Purpose) :
    (c.enter m id purpose).Ordered := by
  -- a run that is over ends in the same way whatever it wanted the registers for
  have hover : (c.unlock.finishRun id (.ok ())).Ordered :=
    Going.finish ((h.unlock false false).congr rfl rfl) (by simp) (.ok ())
  cases purpose with
  | clear epoch =>
    exact Going.ordered_setPhase (Going.unlock (h.congr (by rfl) (by rfl)) false false)
  | step epoch =>
    simp only [Config.enter]
    split
    · exact hover
    · split
      · split
        · exact (h.unlock false false).ordered_setPhase
        · exact hover
      · exact h.beginStep _
  | restart epoch =>
    simp only [Config.enter]
    split
    · exact hover
    · have hgoing : ({ c with registers := c.registers.restart }.note
          (.restarted id)).unlock.Going id (.aside false false) :=
        Going.unlock (h.congr (by rfl) (by rfl)) false false
      exact (hgoing.setPhase _).yield (hgoing.role_setPhase _) (by simp) (by simp)
  | next seek => exact Going.beginStep (h.congr (by rfl) (by rfl)) .next
  | rewind => exact h.rewind

/-- A call asks for the registers. -/
theorem seek {purpose : Purpose} (h : c.Going id (.aside purpose.release?.isSome false))
    (hphase : c.phase? id = some (.seeking purpose)) : (c.seek m id purpose).Ordered := by
  have hrole : c.role id = .aside purpose.release?.isSome false := role_of_phase? hphase
  -- without a hold to release
  have hask (hno : purpose.release? = none ∨ c.hold = none) : (c.seek m id purpose).Ordered := by
    rw [seek_eq hno]
    split
    · exact h.yield hrole (by simp) (by simp)
    · split
      · rename_i hfree
        exact Going.enter ((h.take hfree).congr (by rfl) (by rfl)) purpose
      · rename_i howned
        split
        · have hpermit := h.orderly.permit false
          exact Going.ordered ⟨hpermit, h.head, h.present⟩ hrole
        · have hqueued := h.enqueue howned fun hsome => hno.resolve_left fun hnone => by
            simp [hnone] at hsome
          refine (hqueued.setPhase _).block_queued (hqueued.role_setPhase _) ?_ ?_
          · have haside := h.orderly.aside (Function.update_self ..)
            split
            · exact haside.owner
            · exact haside.owner
          · have haside := h.orderly.aside (Function.update_self ..)
            split
            · exact haside.notified
            · exact haside.notified
  rcases hrelease : purpose.release? with - | release
  · exact hask (.inl hrelease)
  · rcases hhold : c.hold with - | holder
    · exact hask (.inr hhold)
    · have hgoing := h.releaseHold hhold release
      have hkeep : (c.releaseHold id holder release).role id = c.role id := by
        rw [role, phase?_releaseHold (h.ne_of_hold hhold), role]
      rw [seek_of_hold hrelease hhold]
      split
      · exact hgoing.ordered (hkeep.trans hrole)
      · exact hgoing.finish (fun _ => hold_releaseHold) _

/-- A call in the queue goes on. -/
theorem leaveQueue {purpose : Purpose} (h : c.Going id (.queued purpose.release?.isSome))
    (hphase : c.phase? id = some (.queued purpose)) : (c.leaveQueue m id purpose).Ordered := by
  unfold Config.leaveQueue
  split
  · rename_i howner
    have hgoing : ({ c with stage := c.stage.spend }).Going id (.queued purpose.release?.isSome) :=
      h.congr rfl rfl
    exact (hgoing.own howner).enter purpose
  · rename_i hother
    split
    · rename_i hnotified
      exact (h.withdraw hnotified hother).ordered_setPhase
    · rename_i hnotified
      exact h.block_queued (role_of_phase? hphase) hother hnotified

/-- A call has just been issued. -/
theorem accept (h : c.Going id (.aside false false)) (call : Call) :
    (c.accept m id call).Ordered := by
  -- a call may take any phase in which it stands aside
  have hset {c' : Config} (h' : c'.Going id (.aside false false)) {phase : Phase}
      {releases rests : Bool} (hrole : phase.role = .aside releases rests) :
      (c'.setPhase id phase).Ordered := by
    have haside := h'.orderly.aside (Function.update_self ..)
    refine Going.ordered_setPhase (h'.change (by simp) ?_ (.inr (.inl (by simp))))
    rw [hrole]
    exact ⟨.inl h'.mem_ready, haside⟩
  have hover (result : Except StepError Unit) : (c.finish id result).Ordered :=
    h.finish (by simp) result
  cases call with
  | start =>
    simp only [Config.accept]
    split
    · exact hover _
    · exact hset (h.congr (by rfl) (by rfl)) rfl
  | next label =>
    cases label with
    | none =>
      simp only [Config.accept]
      split
      · exact hover _
      · exact hset h rfl
    | some label =>
      simp only [Config.accept]
      split
      · exact hover _
      · split
        · exact hover _
        · exact hset h rfl
  | stop => exact hset (h.congr (by rfl) (by rfl)) rfl
  | reset => exact hset h rfl
  | animate batch => exact hset h rfl

/-- Who is busy lets the others go on. -/
theorem pause (h : c.Going id x) (hrole : c.role id = x)
    (hx : (∃ releases, x = .aside releases true) ∨
      ∃ parked rests, x = .owner parked rests ∧ (parked ∨ rests)) : (c.pause id).Ordered := by
  unfold Config.pause
  split
  · refine h.yield hrole ?_ ?_
    · rcases hx with ⟨_, rfl⟩ | ⟨_, _, rfl, _⟩ <;> simp
    · rcases hx with ⟨_, rfl⟩ | ⟨_, _, rfl, _⟩ <;> simp
  · refine h.block hrole ?_
    rcases hx with ⟨_, rfl⟩ | ⟨_, _, rfl, hrests⟩
    · have haside := h.orderly.aside (Function.update_self ..)
      exact ⟨.inr (.inr rfl), haside.owner, haside.queued, haside.listening, haside.notified,
        haside.parked⟩
    · have howner := h.orderly.owner (Function.update_self ..)
      exact ⟨howner.owner, howner.queued, howner.listening, howner.notified, howner.parked,
        .inr (.inr hrests)⟩

/-- **One small step of a call keeps the order.** -/
theorem advance {phase : Phase} (h : c.Going id phase.role) (hphase : c.phase? id = some phase) :
    (c.advance m id phase).Ordered := by
  cases phase with
  | issued call => exact h.accept call
  | seeking purpose => exact h.seek hphase
  | queued purpose => exact h.leaveQueue hphase
  | stepping who index activity =>
    simp only [Config.advance]
    obtain ⟨-, hmeets⟩ := Activity.poll_meets activity.meets_free (Bounds.free_covers c.stage)
    rcases hp : activity.poll c.stage with ⟨s, activity' | e | flow⟩ <;> rw [hp] at hmeets <;>
      dsimp only
    · rcases Activity.holding_of_poll_busy hp with ⟨rfl, rfl⟩ | ⟨hhold, hne⟩
      · exact (Going.setPhase (h.congr (by rfl) (by rfl)) _).pause
          (role_setPhase (h.congr (by rfl) (by rfl)) _)
          (.inr ⟨true, false, rfl, .inl rfl⟩)
      · have hne := hne none
        rw [Phase.role_stepping (hhold none)] at h
        have hgoing : { c with stage := s }.Going id (Phase.stepping who index activity').role :=
          Going.busy (h.congr (by rfl) (by rfl)) hne
        refine (hgoing.setPhase _).pause (hgoing.role_setPhase _)
          (.inr ⟨false, _, Phase.role_stepping hne, .inr ?_⟩)
        simpa using hmeets.2.resolve_right hne
    · rw [Phase.role_stepping (Activity.ne_holding_of_poll_finished hp)] at h
      exact Going.failStep (h.congr (by rfl) (by rfl)) who index e
    · rw [Phase.role_stepping (Activity.ne_holding_of_poll_finished hp)] at h
      exact Going.endStep (h.congr (by rfl) (by rfl)) who index flow
  | moving convoy =>
    simp only [Config.advance]
    obtain ⟨-, hmeets⟩ := Convoy.poll_meets false
      (convoy.meets_of_error fun _ => trivial) (Bounds.free_covers c.stage)
    rcases hp : convoy.poll false c.stage with ⟨s, convoy' | result⟩ <;> rw [hp] at hmeets <;>
      dsimp only
    · have haside := h.orderly.aside (Function.update_self ..)
      have hgoing : { c with stage := s }.Going id (Phase.moving convoy').role :=
        Going.congr (h.change (y := (Phase.moving convoy').role) (by simp [Phase.role])
          ⟨.inl h.mem_ready, haside⟩ (.inr (.inl (by simp [Phase.role])))) rfl rfl
      refine (hgoing.setPhase _).pause (hgoing.role_setPhase _) (.inl ⟨false, ?_⟩)
      simpa [Phase.role] using hmeets.2
    · have hgoing : { c with stage := s }.Going id (Phase.moving convoy).role := h.congr rfl rfl
      exact hgoing.finish (by simp) result

end Going

/-! ### All moves -/

theorem ready_of_quiet (h : c.quiet) : c.ready = [] ∧ c.yielded = [] := by
  simpa [quiet] using h

namespace Ordered

/-- Nobody who is over can go on. -/
theorem isSome_phase? (h : c.Ordered) (hid : id ∈ c.ready) : (c.phase? id).isSome := by
  rcases hphase : c.phase? id with - | phase
  · have hfits := h.fits id
    rw [role_eq_absent_iff.2 hphase] at hfits
    exact absurd hid hfits.1
  · rfl

/-- A small step keeps the order. -/
theorem step (h : c.Ordered) : (c.step m).Ordered := by
  rcases hready : c.ready with - | ⟨id, rest⟩
  · rw [step_of_idle hready]
    exact h.flush hready
  · obtain ⟨phase, hphase⟩ := Option.isSome_iff_exists.1
      (h.isSome_phase? (hready ▸ List.mem_cons_self : id ∈ c.ready))
    have hhead : c.ready.head? = some id := by
      rw [hready]
      rfl
    rw [step_of_ready hready hphase]
    exact (h.going hhead hphase).advance hphase

/-- A call that is issued finds its place in the order. -/
theorem issue (h : c.Ordered) (call : Call) : (c.issue call).Ordered := by
  have hissue := Roster.Orderly.issue h
  have hnone : c.phase? c.calls = none := role_eq_absent_iff.1 (h.fresh _ (Nat.le_refl _))
  have hrole : (c.issue call).role = _ := role_issue hnone
  exact Eq.mp (congrArg (fun roles => Roster.Orderly roles _) hrole.symm) hissue

/-- Waking calls that are not over keeps the order. -/
theorem wake_all (h : c.Ordered) (alarms : List (Alarm × Nat))
    (hids : ∀ a ∈ alarms, c.role a.2 ≠ .absent) :
    (alarms.foldl (fun c a => c.wake a.2) c).Ordered := by
  induction alarms generalizing c with
  | nil => exact h
  | cons a rest ih =>
    have hwake : (c.wake a.2).Ordered := by
      rw [wake_eq]
      exact Roster.Orderly.wake h (hids a List.mem_cons_self)
    refine ih hwake fun b hb => ?_
    show (c.wake a.2).role b.2 ≠ .absent
    rw [wake_eq]
    exact hids b (List.mem_cons_of_mem _ hb)

/-- The clock that moves on keeps the order. -/
theorem tick (h : c.Ordered) (time : Nat) : (c.tick time).Ordered := by
  refine wake_all (c := { c with stage := { c.stage with now := time } }) h _ ?_
  intro a ha hnone
  rw [List.mem_mergeSort, List.mem_filter] at ha
  obtain ⟨⟨j, phase⟩, hmem, hphase⟩ := List.mem_filterMap.1 ha.1
  obtain ⟨alarm, -, rfl⟩ := Option.map_eq_some_iff.1 hphase
  have hlookup : c.tasks.lookup j = none := role_eq_absent_iff.1 hnone
  rw [List.lookup_eq_none_iff] at hlookup
  simpa using hlookup (j, phase) hmem

/-- **Whatever happens keeps the order.** -/
theorem move {c' : Config} (h : c.Ordered) (hmove : Move m c c') : c'.Ordered := by
  cases hmove with
  | step => exact h.step
  | issue call => exact h.issue call
  | tick _ _ => exact h.tick _
  | wait _ _ _ => exact h
  | write _ _ => exact h
  | register _ => exact h

end Ordered

/-- A machine that nobody drives is in order. -/
theorem ordered_fresh (driver : Driver Float) (functions : Registry) :
    (fresh m driver functions).Ordered where
  fits id := by
    show (Roster.standing ⟨{}, none, {}, 0, [], []⟩ id).Fits .absent
    refine ⟨?_, ?_, ?_, ?_, ?_, ?_, ?_⟩ <;> simp [Roster.standing]
  ready := List.nodup_nil
  queue := List.nodup_nil
  listeners := List.nodup_nil
  free _ := rfl
  fresh _ _ := rfl
  heard hhold := absurd rfl hhold

/-- **Order.**  In every reachable configuration all calls stand as their phases ask. -/
theorem Reachable.ordered (h : c.Reachable m) : c.Ordered := by
  obtain ⟨driver, functions, hmoves⟩ := h
  induction hmoves with
  | refl => exact ordered_fresh driver functions
  | tail _ hmove ih => exact ih.move hmove

end Config

end Timeline
