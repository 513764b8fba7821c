/-
Timeline/Proofs/Machine/Renewal.lean

A rewound machine is as good as a new one.

A machine that has been driven, and that nobody drives any more, differs from a new
one in counters, in its clock and in its past, and perhaps in a signal that is still
kept.  What is done with a machine from some moment on and what is seen of it is a
trace (`Config.Traces`); times, calls and events are counted from that moment.  Main
result (`Config.traces_rewound_iff`): after a call to stop or to reset the machine has
the same traces as when it was new, if a rewind restores all values and no function
minds how often it was called.
-/
import Timeline.Proofs.Machine.Likeness
import Timeline.Proofs.Machine.Rewinding
import Timeline.Proofs.Machine.Turns

namespace Timeline

open Relation

/-! ### Records of calls with other numbers -/

theorem Event.mapCalls_mapCalls (f g : Nat → Nat) (e : Event) :
    (e.mapCalls f).mapCalls g = e.mapCalls fun id => g (f id) := by
  cases e <;> rfl

theorem Event.mapCalls_id (e : Event) : e.mapCalls (fun id => id) = e := by
  cases e <;> rfl

namespace Offset

variable (d : Offset)

theorem record_injective : Function.Injective d.record := by
  rintro ⟨time, index, e⟩ ⟨time', index', e'⟩ h
  obtain ⟨htime, hindex, hevent⟩ := Record.mk.inj h
  have hback (e : Event) : (e.mapCalls d.call).mapCalls (· - d.calls) = e := by
    rw [Event.mapCalls_mapCalls]
    simp only [call, Nat.add_sub_cancel, Event.mapCalls_id]
  obtain rfl : time = time' := Nat.add_right_cancel htime
  obtain rfl : index = index' := hindex
  obtain rfl : e = e' := by rw [← hback e, ← hback e', show e.mapCalls d.call = _ from hevent]
  rfl

end Offset

/-! ### Traces -/

/-- What can be seen of a machine from outside; calls and events are those since some moment. -/
structure View where
  /-- What has happened, the latest first. -/
  events : List Record
  registers : Registers
  position : Position
  values : String → Option Float
  /-- The call whose hold is parked. -/
  hold : Option Nat
  running : Bool
  /-- The calls that are not over. -/
  outstanding : List Nat

/-- What is done with a machine from outside, or seen of it. -/
inductive Interaction where
  | call (call : Call)
  | write (target : String) (value : Float)
  | register (functions : Registry)
  | look (view : View)

/-- No function is registered that minds how often it was called. -/
def Interaction.Stateless : Interaction → Prop
  | register functions => functions.Stateless
  | _ => True

namespace Config

/-- The record of what happened at a time since some moment. -/
def recordSince (base : Config) (r : Record) : Record :=
  ⟨r.time + base.stage.now, r.index, r.event.mapCalls (· + base.calls)⟩

/-- What can be seen of a machine since some moment. -/
structure Shows (base c : Config) (v : View) : Prop where
  events : c.stage.journal = v.events.map base.recordSince ++ base.stage.journal
  registers : c.registers = v.registers
  position : c.stage.position = v.position
  values : ∀ target, c.stage.driver.get? target = v.values target
  hold : c.hold = v.hold.map (· + base.calls)
  running : c.running = v.running
  outstanding : c.tasks.map Prod.fst = v.outstanding.map (· + base.calls)

/-- What is done with a machine and seen of it from some moment on, with the times since then, and
where it leads to. -/
inductive Plays (m : Machine) (base : Config) : List (Nat × Interaction) → Config → Prop
  | refl : Plays m base [] base
  | undisturbed {trace : List (Nat × Interaction)} {c c' : Config} : Plays m base trace c →
      Undisturbed m c c' → Plays m base trace c'
  | call {trace : List (Nat × Interaction)} {c : Config} {time : Nat} (call : Call) :
      Plays m base trace c → c.stage.now = time + base.stage.now →
      Plays m base (trace ++ [(time, .call call)]) (c.issue call)
  | write {trace : List (Nat × Interaction)} {c : Config} {time : Nat} (target : String)
      (value : Float) : Plays m base trace c → c.stage.now = time + base.stage.now →
      Plays m base (trace ++ [(time, .write target value)])
        { c with stage := (c.stage.set target value).2 }
  | register {trace : List (Nat × Interaction)} {c : Config} {time : Nat} (functions : Registry) :
      Plays m base trace c → c.stage.now = time + base.stage.now →
      Plays m base (trace ++ [(time, .register functions)])
        { c with stage := { c.stage with functions } }
  | look {trace : List (Nat × Interaction)} {c : Config} {time : Nat} {view : View} :
      Plays m base trace c → c.stage.now = time + base.stage.now → base.Shows c view →
      Plays m base (trace ++ [(time, .look view)]) c

/-- What can be done with a machine and seen of it from some moment on. -/
def Traces (m : Machine) (base : Config) (trace : List (Nat × Interaction)) : Prop :=
  ∃ c, Plays m base trace c

variable {m : Machine} {base c c' : Config} {trace : List (Nat × Interaction)}

theorem Plays.goesOn (h : Plays m base trace c) (hmoves : ReflTransGen (Undisturbed m) c c') :
    Plays m base trace c' := by
  induction hmoves with
  | refl => exact h
  | tail _ hmove ih => exact ih.undisturbed hmove

/-! ### Simulations -/

/-- What is related to a machine can do whatever that machine does, and looks the same. -/
structure Simulates (m : Machine) (base base' : Config) (R : Config → Config → Prop) : Prop where
  start : R base base'
  undisturbed : ∀ {c c' c₁}, R c c' → Undisturbed m c c₁ →
    ∃ c₁', ReflTransGen (Undisturbed m) c' c₁' ∧ R c₁ c₁'
  call : ∀ {c c'} call, R c c' → R (c.issue call) (c'.issue call)
  write : ∀ {c c'} target value, R c c' →
    R { c with stage := (c.stage.set target value).2 }
      { c' with stage := (c'.stage.set target value).2 }
  register : ∀ {c c'} {functions : Registry}, functions.Stateless → R c c' →
    R { c with stage := { c.stage with functions } } { c' with stage := { c'.stage with functions } }
  now : ∀ {c c' time}, R c c' → c.stage.now = time + base.stage.now →
    c'.stage.now = time + base'.stage.now
  shows : ∀ {c c' view}, R c c' → base.Shows c view → base'.Shows c' view

theorem Simulates.plays {base' : Config} {R : Config → Config → Prop} (hsim : Simulates m base base' R)
    (hstateless : ∀ i ∈ trace, i.2.Stateless) (h : Plays m base trace c) :
    ∃ c', Plays m base' trace c' ∧ R c c' := by
  have hbefore {before : List (Nat × Interaction)} {i : Nat × Interaction}
      (hall : ∀ j ∈ before ++ [i], j.2.Stateless) : ∀ j ∈ before, j.2.Stateless :=
    fun j hj => hall j (List.mem_append_left _ hj)
  induction h with
  | refl => exact ⟨base', .refl, hsim.start⟩
  | undisturbed _ hmove ih =>
    obtain ⟨c', hplays, hrelated⟩ := ih hstateless
    obtain ⟨c₁', hmoves, hrelated₁⟩ := hsim.undisturbed hrelated hmove
    exact ⟨c₁', hplays.goesOn hmoves, hrelated₁⟩
  | call call _ hnow ih =>
    obtain ⟨c', hplays, hrelated⟩ := ih (hbefore hstateless)
    exact ⟨_, .call call hplays (hsim.now hrelated hnow), hsim.call call hrelated⟩
  | write target value _ hnow ih =>
    obtain ⟨c', hplays, hrelated⟩ := ih (hbefore hstateless)
    exact ⟨_, .write target value hplays (hsim.now hrelated hnow), hsim.write target value hrelated⟩
  | @register _ _ time functions _ hnow ih =>
    obtain ⟨c', hplays, hrelated⟩ := ih (hbefore hstateless)
    have hfunctions : functions.Stateless := hstateless (time, .register functions) (by simp)
    exact ⟨_, .register functions hplays (hsim.now hrelated hnow),
      hsim.register hfunctions hrelated⟩
  | look _ hnow hshows ih =>
    obtain ⟨c', hplays, hrelated⟩ := ih (hbefore hstateless)
    exact ⟨c', .look hplays (hsim.now hrelated hnow) (hsim.shows hrelated hshows), hrelated⟩

/-! ### Machines that are alike have the same traces -/

namespace Mirrors

variable {d : Offset} {driver : Driver Float} {functions : Registry}

/-- Whatever the earlier machine does, the later one can do. -/
theorem follows (h : Mirrors d c c') {c₁ : Config} (hmove : Undisturbed m c c₁) :
    ∃ c₁', ReflTransGen (Undisturbed m) c' c₁' ∧ Mirrors d c₁ c₁' := by
  cases hmove with
  | step =>
    rcases h.step (m := m) with hone | ⟨hspent, -, hfalse⟩
    · exact ⟨_, .single .step, hone⟩
    · -- after the signal is used up, the later machine takes the same step
      rcases hspent.step (m := m) with htwo | ⟨-, htrue, -⟩
      · exact ⟨_, (ReflTransGen.single .step).tail .step, htwo⟩
      · exact (Bool.false_ne_true (hfalse.symm.trans htrue)).elim
  | @tick due hquiet hdue =>
    have hdue' : c'.nextDue? = some (due + d.time) := by
      rw [h.nextDue?, hdue]
      rfl
    exact ⟨_, .single (.tick (h.quiet.trans hquiet) hdue'), h.tick due⟩
  | @wait time hquiet hnow hdue =>
    have hnow' : c'.stage.now ≤ time + d.time := by
      rw [h.stage.now]
      exact Nat.add_le_add_right hnow _
    have hbefore : ∀ due', c'.nextDue? = some due' → time + d.time < due' := by
      intro due' hdue'
      rw [h.nextDue?] at hdue'
      obtain ⟨due, hdue₁, rfl⟩ := Option.map_eq_some_iff.1 hdue'
      exact Nat.add_lt_add_right (hdue due hdue₁) _
    exact ⟨_, .single (.wait (h.quiet.trans hquiet) hnow' hbefore), h.setClock time⟩

/-- Whatever the later machine does, the earlier one can do. -/
theorem precedes (h : Mirrors d c c') {c₁' : Config} (hmove : Undisturbed m c' c₁') :
    ∃ c₁, ReflTransGen (Undisturbed m) c c₁ ∧ Mirrors d c₁ c₁' := by
  cases hmove with
  | step =>
    rcases h.step (m := m) with hone | ⟨hspent, -, -⟩
    · exact ⟨_, .single .step, hone⟩
    · exact ⟨c, .refl, hspent⟩
  | @tick due' hquiet hdue' =>
    rw [h.nextDue?] at hdue'
    obtain ⟨due, hdue, rfl⟩ := Option.map_eq_some_iff.1 hdue'
    exact ⟨_, .single (.tick (h.quiet.symm.trans hquiet) hdue), h.tick due⟩
  | @wait time' hquiet hnow hdue' =>
    rw [h.stage.now] at hnow
    obtain ⟨time, rfl⟩ : ∃ time, time' = time + d.time :=
      ⟨time' - d.time, (Nat.sub_add_cancel (Nat.le_trans (Nat.le_add_left _ _) hnow)).symm⟩
    have hbefore : ∀ due, c.nextDue? = some due → time < due := by
      intro due hdue
      have hlt := hdue' (due + d.time) (by rw [h.nextDue?, hdue]; rfl)
      exact Nat.lt_of_add_lt_add_right hlt
    exact ⟨_, .single (.wait (h.quiet.symm.trans hquiet) (Nat.le_of_add_le_add_right hnow) hbefore),
      h.setClock time⟩

section Traces

variable (hbase : Mirrors d (fresh m driver functions) base) (h : Mirrors d c c')
include hbase h

/-- The same can be seen of machines that are alike. -/
theorem shows_iff {view : View} :
    (fresh m driver functions).Shows c view ↔ base.Shows c' view := by
  have hnow : base.stage.now = d.time := hbase.stage.now.trans (Nat.zero_add _)
  have hcalls : base.calls = d.calls := hbase.calls.trans (Nat.zero_add _)
  have hjournal : base.stage.journal = d.past := hbase.stage.journal
  have hsince : base.recordSince = d.record := by
    funext r
    rw [recordSince, hnow, hcalls]
    rfl
  have hfresh : (fresh m driver functions).recordSince = id := by
    funext r
    have hevent : r.event.mapCalls (fun id => id) = r.event := r.event.mapCalls_id
    show (⟨r.time, r.index, r.event.mapCalls fun id => id⟩ : Record) = r
    rw [hevent]
  have hcall : (fun id => id + base.calls) = d.call := by
    rw [hcalls]
    rfl
  have houtstanding : c'.tasks.map Prod.fst = (c.tasks.map Prod.fst).map d.call := by
    rw [h.tasks, List.map_map, List.map_map]
    rfl
  have hcall₀ : (fun id => id + (fresh m driver functions).calls) = id := rfl
  constructor
  · rintro ⟨hevents, hregisters, hposition, hvalues, hhold, hrunning, hout⟩
    rw [hfresh, List.map_id, show (fresh m driver functions).stage.journal = [] from rfl,
      List.append_nil] at hevents
    rw [hcall₀] at hhold hout
    refine ⟨?_, h.registers.trans hregisters, h.stage.position.trans hposition,
      fun target => (h.stage.driver.get? target).trans (hvalues target), ?_,
      h.running.trans hrunning, ?_⟩
    · rw [h.stage.journal, hevents, hsince, hjournal]
    · rw [h.hold, hhold, hcall, Option.map_id]
      rfl
    · rw [houtstanding, hout, hcall, List.map_id]
  · rintro ⟨hevents, hregisters, hposition, hvalues, hhold, hrunning, hout⟩
    rw [h.stage.journal, hsince, hjournal] at hevents
    rw [h.hold, hcall] at hhold
    rw [houtstanding, hcall] at hout
    refine ⟨?_, h.registers.symm.trans hregisters, h.stage.position.symm.trans hposition,
      fun target => (h.stage.driver.get? target).symm.trans (hvalues target), ?_,
      h.running.symm.trans hrunning, ?_⟩
    · rw [hfresh, List.map_id, List.map_injective_iff.2 d.record_injective
        (List.append_cancel_right hevents)]
      exact (List.append_nil _).symm
    · rw [hcall₀, Option.map_id, Option.map_injective d.call_injective hhold]
      rfl
    · rw [hcall₀, List.map_id, List.map_injective_iff.2 d.call_injective hout]

/-- Times are counted from the same moment. -/
theorem now_eq_iff {time : Nat} :
    c'.stage.now = time + base.stage.now ↔
      c.stage.now = time + (fresh m driver functions).stage.now := by
  have hnow : base.stage.now = d.time := hbase.stage.now.trans (Nat.zero_add _)
  rw [h.stage.now, hnow, Nat.add_right_cancel_iff]
  exact Iff.rfl

end Traces

theorem later_simulates (hbase : Mirrors d (fresh m driver functions) base) :
    Simulates m (fresh m driver functions) base (Mirrors d) where
  start := hbase
  undisturbed h hmove := h.follows hmove
  call call h := h.issue call
  write target value h := h.write target value
  register hfunctions h := h.register hfunctions
  now h hnow := (now_eq_iff hbase h).2 hnow
  shows h hshows := (shows_iff hbase h).1 hshows

theorem earlier_simulates (hbase : Mirrors d (fresh m driver functions) base) :
    Simulates m base (fresh m driver functions) (fun c' c => Mirrors d c c') where
  start := hbase
  undisturbed h hmove := h.precedes hmove
  call call h := h.issue call
  write target value h := h.write target value
  register hfunctions h := h.register hfunctions
  now h hnow := (now_eq_iff hbase h).1 hnow
  shows h hshows := (shows_iff hbase h).2 hshows

/-- **Machines that are alike have the same traces.** -/
theorem traces_iff (hbase : Mirrors d (fresh m driver functions) base)
    (hstateless : ∀ i ∈ trace, i.2.Stateless) :
    base.Traces m trace ↔ (fresh m driver functions).Traces m trace := by
  constructor
  · rintro ⟨c', hplays⟩
    obtain ⟨c, hplays', -⟩ := hbase.earlier_simulates.plays hstateless hplays
    exact ⟨c, hplays'⟩
  · rintro ⟨c, hplays⟩
    obtain ⟨c', hplays', -⟩ := hbase.later_simulates.plays hstateless hplays
    exact ⟨c', hplays'⟩

end Mirrors

/-! ### A rewind of a machine that nobody drives -/

/-- Nobody drives the machine. -/
structure Idle (c : Config) : Prop where
  tasks : c.tasks = []
  lock : c.lock = {}
  hold : c.hold = none
  listeners : c.signal.listeners = []
  notified : c.signal.notified = []
  ready : c.ready = []
  yielded : c.yielded = []
  running : c.running = false
  turn : c.stage.turn = Stage.fullTurn

/-- When all calls are over nobody stands anywhere. -/
theorem Reachable.idle (h : c.Reachable m) (htasks : c.tasks = []) : c.Idle := by
  have hphase (id : Nat) : c.phase? id = none := by
    rw [phase?, htasks]
    rfl
  have hfits (id : Nat) : (c.roster.standing id).Fits .absent := by
    rw [← role_eq_absent_iff.2 (hphase id)]
    exact h.ordered.fits id
  have hready : c.ready = [] := List.eq_nil_iff_forall_not_mem.2 fun id => (hfits id).1
  refine ⟨htasks, ?_, ?_, ?_, ?_, hready, ?_, ?_, h.paced.turn_of_idle hready⟩
  · have howner : c.lock.owner = none :=
      Option.eq_none_iff_forall_ne_some.2 fun id => (hfits id).2.2.owner
    have hqueue : c.lock.queue = [] :=
      List.eq_nil_iff_forall_not_mem.2 fun id => (hfits id).2.2.queued
    rcases hlock : c.lock with ⟨owner, queue⟩
    rw [hlock] at howner hqueue
    cases howner
    cases hqueue
    rfl
  · exact Option.eq_none_iff_forall_ne_some.2 fun id => (hfits id).2.2.parked
  · exact List.eq_nil_iff_forall_not_mem.2 fun id => (hfits id).2.2.listening
  · exact List.eq_nil_iff_forall_not_mem.2 fun id => (hfits id).2.2.notified
  · exact List.eq_nil_iff_forall_not_mem.2 fun id => (hfits id).2.1
  · rw [← Bool.not_eq_true]
    intro hrunning
    obtain ⟨id, epoch, hrun⟩ := h.runs.active hrunning
    have hnone : c.ledger.run? id = (c.phase? id).bind Phase.epoch? := rfl
    rw [hnone, hphase] at hrun
    cases hrun

/-- The stage after a rewind by a call that is alone. -/
def renewedStage (m : Machine) (id : Nat) (s : Stage) : Stage :=
  ((((m.restored s.spend).publish (m.position 0)).note (.rewound id)).nextTurn).note
    (.returned id (.ok ()))

/-- Who asks for a rewind and is alone takes the registers, and rewinds. -/
theorem step_rewind {id : Nat} (htasks : c.tasks = [(id, .seeking .rewind)])
    (hready : c.ready = [id]) (hlock : c.lock = {}) (hhold : c.hold = none)
    (hturn : c.stage.turn = Stage.fullTurn) :
    c.step m = { c with
      stage := renewedStage m id c.stage, registers := {}, tasks := [], ready := [] } := by
  have hphase : c.phase? id = some (.seeking .rewind) := by
    rw [phase?, htasks, List.lookup_cons_self]
  have hgoes : c.stage.turn ≠ 0 := by
    rw [hturn]
    decide
  rw [step_of_ready hready hphase, Config.advance, seek_eq (.inr hhold), if_neg hgoes,
    if_pos (congrArg Lock.owner hlock)]
  show (Config.unlock _).finish id (.ok ()) = _
  rw [unlock_eq]
  simp only [Config.finish, Config.note, Config.block, htasks, hready, hlock]
  simp [renewedStage, handed]
  rfl

theorem settle_of_quiet (h : c.quiet) (fuel : Nat) : c.settle m fuel = c := by
  cases fuel with
  | zero => rfl
  | succ fuel => rw [Config.settle, if_pos h]

/-- A machine that nobody drives is rewound in two small steps, and is at rest then. -/
theorem Idle.settle_rewind (h : c.Idle) {call : Call} (hcall : call = .stop ∨ call = .reset)
    (fuel : Nat) : ∃ epoch, (c.issue call).settle m (fuel + 2)
      = { c with
          stage := renewedStage m c.calls c.stage
          registers := {}
          epoch
          calls := c.calls + 1 } := by
  have hready : (c.issue call).ready = [c.calls] := by
    show c.ready ++ _ = _
    rw [h.ready]
    rfl
  have hphase : (c.issue call).phase? c.calls = some (.issued call) := by
    show (c.tasks ++ _).lookup _ = _
    rw [h.tasks]
    exact List.lookup_cons_self
  have hgoes {c : Config} {id : Nat} {rest : List Nat} (hready : c.ready = id :: rest) :
      ¬ c.quiet = true := by
    simp [Config.quiet, hready]
  obtain ⟨epoch, haccepts⟩ : ∃ epoch, (c.issue call).accept m c.calls call = { c with
      epoch, calls := c.calls + 1, tasks := [(c.calls, .seeking .rewind)], ready := [c.calls] } := by
    rcases hcall with rfl | rfl
    · exact ⟨c.epoch + 1, by simp [Config.accept, Config.setPhase, Config.issue, h.tasks, h.ready]⟩
    · exact ⟨c.epoch, by simp [Config.accept, Config.setPhase, Config.issue, h.tasks, h.ready]⟩
  refine ⟨epoch, ?_⟩
  rw [Config.settle, if_neg (hgoes hready), step_of_ready hready hphase, Config.advance, haccepts,
    Config.settle, if_neg (hgoes rfl), step_rewind rfl rfl]
  · rw [← h.tasks, ← h.ready]
    refine settle_of_quiet ?_ fuel
    show (c.ready.isEmpty && c.yielded.isEmpty) = true
    rw [h.ready, h.yielded]
    rfl
  · exact h.lock
  · exact h.hold
  · exact h.turn

/-- A rewind leaves the functions as they are. -/
theorem functions_restored (m : Machine) (s : Stage) : (m.restored s).functions = s.functions := by
  unfold Machine.restored
  induction m.initial.entries generalizing s with
  | nil => rfl
  | cons entry rest ih =>
    rw [List.foldl_cons, ih]
    exact s.functions_set entry.1 entry.2

/-- Whatever happens to a machine, its driver is claimed and written and nothing else. -/
theorem touched_of_moves {driver : Driver Float} {functions : Registry}
    (h : ReflTransGen (Move m) (fresh m driver functions) c) : driver.Touched c.stage.driver := by
  induction h with
  | refl => exact .refl
  | @tail c c' hmoves hmove ih =>
    have hordered := Reachable.ordered (m := m) ⟨driver, functions, hmoves⟩
    cases hmove with
    | step =>
      rcases hready : c.ready with - | ⟨id, rest⟩
      · rw [step_of_idle hready]
        exact ih
      · obtain ⟨events, hdeed⟩ := hordered.deed (m := m) hready
        exact ih.trans hdeed.touched
    | issue _ => exact ih
    | @tick due _ _ =>
      obtain ⟨ready, hready⟩ := c.tick_eq due
      rw [hready]
      exact ih
    | wait _ _ _ => exact ih
    | write target value =>
      exact ih.trans (Stage.Acts.set (B := .free) c.stage target value).touched
    | register _ => exact ih

/-- How far a machine that nobody drives is ahead of a new one on a driver. -/
def ahead (driver : Driver Float) (c : Config) : Offset where
  time := c.stage.now
  tickets := c.stage.tickets
  calls := c.calls
  epoch := c.epoch
  generation target :=
    (c.stage.driver.generation? target).getD 0 - (driver.generation? target).getD 0
  past := c.stage.journal

/-- If a rewind restores all values, the driver is as in the beginning, but for claims. -/
theorem mirrors_restored {driver : Driver Float} {s : Stage} {d : Offset}
    (htouched : driver.Touched s.driver) (hnames : m.initial.names.Nodup)
    (hcovers : ∀ target value, driver.get? target = some value →
      m.initial.get? target = some value)
    (hd : ∀ target, d.generation target = ((m.restored s).driver.generation? target).getD 0
      - (driver.generation? target).getD 0) : driver.Mirrors d (m.restored s).driver where
  frame := by
    have hacts := Stage.Acts.restore (B := .free) m.initial.entries s
    exact hacts.touched.frame.trans htouched.frame
  slots target := by
    have hslot := m.get?_slots_restored hnames s target
    have hgeneration := hd target
    have hknown := htouched.isSome_get? target
    have hprecedes := htouched.precedes target
    have hcovered := hcovers target
    rw [Driver.generation?, Driver.generation?, hslot] at hgeneration
    rw [Driver.get?, Driver.get?] at hknown
    rw [Driver.get?] at hcovered
    unfold Driver.generation? at hprecedes
    rw [hslot]
    rcases hbefore : driver.slots.get? target with - | slot <;>
      rcases hafter : s.driver.slots.get? target with - | slot' <;>
      rw [hbefore, hafter] at hknown hprecedes hgeneration <;> rw [hbefore] at hcovered
    · -- a target that the driver does not know stays unknown, whether or not it has an initial value
      cases m.initial.get? target <;> rfl
    · cases hknown
    · cases hknown
    · rw [hcovered slot.value rfl] at hgeneration ⊢
      obtain ⟨g, hg, hle⟩ := hprecedes slot.generation rfl
      obtain rfl : slot'.generation = g := Option.some.inj hg
      have hraised : d.generation target = slot'.generation + 1 - slot.generation := hgeneration
      have hsum : slot'.generation + 1 = slot.generation + d.generation target := by
        rw [hraised]
        omega
      show some (⟨slot.value, slot'.generation + 1⟩ : Slot Float)
        = some ⟨slot.value, slot.generation + d.generation target⟩
      rw [hsum]

/-- A machine that nobody drives is as a new one, but for its counters. -/
theorem Idle.mirrors (h : c.Idle) {driver : Driver Float} {functions : Registry}
    (hregisters : c.registers = {}) (hposition : c.stage.position = m.position 0)
    (hdriver : driver.Mirrors (ahead driver c) c.stage.driver) (hstateless : functions.Stateless)
    (hfunctions : functions.Alike c.stage.functions) :
    Mirrors (ahead driver c) (fresh m driver functions) c where
  stage := {
    now := (Nat.zero_add _).symm
    driver := hdriver
    functions := hfunctions
    stateless := hstateless
    position := hposition
    tickets := (Nat.zero_add _).symm
    turn := h.turn
    journal := rfl }
  registers := hregisters
  owner := congrArg Lock.owner h.lock
  queue := congrArg Lock.queue h.lock
  hold := h.hold
  permit hfalse := nomatch hfalse
  listeners := h.listeners
  notified := h.notified
  epoch := (Nat.zero_add _).symm
  running := h.running
  calls := (Nat.zero_add _).symm
  tasks := h.tasks
  ready := h.ready
  yielded := h.yielded

/-- **A rewound machine is as good as a new one.**  If the initial values cover all targets, then,
when all calls are over and a call to stop or to reset comes, it is over at once, and from then on
the machine has the same traces as when it was new. -/
theorem traces_rewound_iff {driver : Driver Float} {functions : Registry} {call : Call} {fuel : Nat}
    (hnames : m.initial.names.Nodup)
    (hcovers : ∀ target value, driver.get? target = some value →
      m.initial.get? target = some value)
    (hstateless : functions.Stateless)
    (hmoves : ReflTransGen (Move m) (fresh m driver functions) c) (htasks : c.tasks = [])
    (hfunctions : functions.Alike c.stage.functions) (hcall : call = .stop ∨ call = .reset)
    (hfuel : 2 ≤ fuel) :
    ((c.issue call).settle m fuel).Idle ∧
    ((c.issue call).settle m fuel).stage.milestones
      = [.returned c.calls (.ok ()), .rewound c.calls, .published (m.position 0)]
        ++ c.stage.milestones ∧
    ∀ trace, (∀ i ∈ trace, i.2.Stateless) →
      (((c.issue call).settle m fuel).Traces m trace ↔ (fresh m driver functions).Traces m trace) := by
  have hreach : c.Reachable m := ⟨driver, functions, hmoves⟩
  have hidle' : ((c.issue call).settle m fuel).tasks = [] →
      ((c.issue call).settle m fuel).Idle := ((hreach.issue call).settle fuel).idle
  obtain ⟨rest, rfl⟩ : ∃ rest, fuel = rest + 2 := ⟨fuel - 2, (Nat.sub_add_cancel hfuel).symm⟩
  obtain ⟨epoch, hu⟩ := (hreach.idle htasks).settle_rewind (m := m) hcall rest
  generalize (c.issue call).settle m (rest + 2) = u at hidle' hu ⊢
  have hidle : u.Idle := hidle' (by rw [hu]; exact htasks)
  have hdriver : u.stage.driver = (m.restored c.stage.spend).driver := by
    rw [hu]
    rfl
  have hsame : u.stage.functions = c.stage.functions := by
    rw [hu]
    exact functions_restored m c.stage.spend
  have hmirrored : driver.Mirrors (ahead driver u) u.stage.driver := by
    rw [hdriver]
    refine mirrors_restored (touched_of_moves hmoves) hnames hcovers fun target => ?_
    rw [← hdriver]
    rfl
  -- the rewound machine is ahead of a new one in its clock, its epoch, its calls and the generations
  -- of its targets, and in nothing else
  have hmirrors : Mirrors (ahead driver u) (fresh m driver functions) u := by
    refine hidle.mirrors ?_ ?_ hmirrored hstateless ?_
    · rw [hu]
    · rw [hu]
      rfl
    · rw [hsame]
      exact hfunctions
  refine ⟨hidle, ?_, fun trace htrace => hmirrors.traces_iff htrace⟩
  rw [hu]
  show _ :: _ :: _ :: (m.restored c.stage.spend).milestones = _
  rw [Ledger.milestones_restored]
  rfl

/-! ### A machine that was kept on a hold -/

/-- The machine after a run that held, while somebody wrote the target. -/
def afterHold : Config :=
  let held := ((fresh holdComment (.ofValues [("x", 1)] 16) {}).issue .start).settle holdComment 20
  ({ held with stage := (held.stage.set "x" 5).2 }.issue (.next none)).settle holdComment 20

theorem moves_afterHold :
    ReflTransGen (Move holdComment) (fresh holdComment (.ofValues [("x", 1)] 16) {}) afterHold := by
  have hsettle {c c' : Config} (h : ReflTransGen (Move holdComment) c c') (fuel : Nat) :
      ReflTransGen (Move holdComment) c (c'.settle holdComment fuel) :=
    h.trans ((undisturbed_settle .refl fuel).lift id fun _ _ hmove => hmove.move)
  exact hsettle (((hsettle (.single (.issue .start)) 20).tail (.write "x" 5)).tail
    (.issue (.next none))) 20

/-- The signal of the hold is still kept. -/
example : afterHold.signal.permit = true ∧ afterHold.registers.cursor = 2 := by cbv

theorem traces_rewound_holdComment :
    ((afterHold.issue .stop).settle holdComment 2).Traces holdComment
      [(0, .call .start), (0, .call (.next none))] := by
  have hcovers (target : String) (value : Float)
      (hvalue : (Driver.ofValues [("x", (1 : Float))] 16).get? target = some value) :
      holdComment.initial.get? target = some value := by
    obtain ⟨rfl, rfl⟩ : target = "x" ∧ value = 1 := by
      have hslot : (List.lookup target [("x", (⟨1, 0⟩ : Slot Float))]).map Slot.value
        = some value := hvalue
      rw [List.lookup_cons] at hslot
      split at hslot
      · rename_i htarget
        exact ⟨by simpa using htarget, (Option.some.inj hslot).symm⟩
      · cases hslot
    rfl
  have hstateless : ({} : Registry).Stateless := fun _ _ hf => by cases hf
  have hfunctions : ({} : Registry).Alike afterHold.stage.functions := by
    have hsame : afterHold.stage.functions = {} := by cbv
    rw [hsame]
    exact fun _ => rfl
  have hiff := (traces_rewound_iff (by simp [holdComment, Table.names]) hcovers hstateless
    moves_afterHold (by cbv) hfunctions (.inl rfl) (Nat.le_refl 2)).2.2
    [(0, .call .start), (0, .call (.next none))] (by simp [Interaction.Stateless])
  exact hiff.2 ⟨_, .call (.next none) (.call .start .refl rfl) rfl⟩

end Config

end Timeline
