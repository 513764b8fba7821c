/-
Timeline/Proofs/Machine/Cancellation.lean

How runs are cancelled.

A call to stop cancels the run that is active: whatever else happens, that run
finishes the step that is under way, if there is one, and returns
(`Ledger.WindsUp`).  A `stop` step, whoever executes it, keeps an active run from
beginning another step (`Ledger.Halts`), as long as nobody rewinds the machine.
Main result: `Config.Reachable.run_ends`.

A run that is about to begin another pass when a `stop` step ends does not look at
it, and puts the cursor back to the begin of the program before it returns:
`restarts_after_stop_step` is such a case.
-/
import Mathlib
import Timeline.Proofs.Machine.Holds
import Timeline.Proofs.Machine.Runs

namespace Timeline

open Relation

/-- The index of the step that a call executes. -/
def Phase.inFlight? : Phase → Option Nat
  | stepping _ index _ => some index
  | _ => none

/-- Whether a run is about to begin another pass. -/
def Phase.restarts : Phase → Bool
  | seeking (.restart _) | queued (.restart _) => true
  | _ => false

/-- A run that executes a step. -/
theorem Phase.eq_stepping {phase : Phase} {epoch index : Nat} (hrun : phase.epoch? = some epoch)
    (hflight : phase.inFlight? = some index) :
    ∃ activity, phase = .stepping (.run epoch) index activity := by
  rcases phase with _ | _ | _ | ⟨⟨e⟩ | _, i, activity⟩ | _ <;> cases hflight <;> cases hrun
  exact ⟨activity, rfl⟩

/-- A `stop` step stays in force while a step begins, and it is in force once it has begun. -/
theorem Machine.begin_stopped (m : Machine) (index : Nat) (action : Action) (r : Registers)
    (h : r.stopped = true ∨ action = .stop) : (m.begin index action r).1.stopped = true := by
  cases action <;> simp only [begin]
  all_goals
    rcases h with h | h
    · repeat' split
      all_goals exact h
    · cases h

namespace Ledger

variable {m : Machine} {l l' : Ledger} {id epoch : Nat} {who : Stepper} {events base : List Event}
  {phase : Phase} {inFlight : Option Nat} {restarting : Bool}

/-! ### What a run can do in one small step -/

/-- A run that is not executing a step goes on only if it was not cancelled and no `stop` step is
in force; otherwise it keeps asking for the registers, begins another pass or returns. -/
def Asking (id epoch : Nat) (restarts : Bool) (l : Ledger) (events : List Event) (l' : Ledger) :
    Prop :=
  l.epoch = epoch ∧ l.registers.stopped = false ∨
  events = [] ∧ (∃ phase', l'.phases id = some phase' ∧ phase'.epoch? = some epoch ∧
    phase'.inFlight? = none ∧ phase'.restarts = restarts) ∨
  events = [.restarted id] ∧ l.epoch = epoch ∧ restarts = true ∧
    (∃ phase', l'.phases id = some phase' ∧ phase'.epoch? = some epoch ∧
      phase'.inFlight? = none ∧ phase'.restarts = false) ∨
  events = [.returned id (.ok ())] ∧ l'.phases id = none

theorem Entry.asking {purpose : Purpose} (h : Entry m id l purpose events l')
    (hpurpose : purpose.epoch? = some epoch) :
    Asking id epoch (Phase.seeking purpose).restarts l events l' := by
  cases h with
  | clear => exact .inr (.inl ⟨rfl, _, setPhase_self, hpurpose, rfl, rfl⟩)
  | stopped _ => exact .inr (.inr (.inr ⟨rfl, finish_self⟩))
  | finished _ _ _ _ => exact .inr (.inr (.inr ⟨rfl, finish_self⟩))
  | around he hs _ _ _ => exact .inl ⟨he.trans (Option.some.inj hpurpose), hs⟩
  | step he hs _ => exact .inl ⟨he.trans (Option.some.inj hpurpose), hs⟩
  | cancelled _ => exact .inr (.inr (.inr ⟨rfl, finish_self⟩))
  | restart he =>
    exact .inr (.inr (.inl ⟨rfl, he.trans (Option.some.inj hpurpose), rfl, _, setPhase_self,
      hpurpose, rfl, rfl⟩))
  | next _ => cases hpurpose
  | vain _ => cases hpurpose
  | rewind => cases hpurpose

theorem Deed.asking (h : Deed m id l events l') (hphase : l.phases id = some phase)
    (hrun : phase.epoch? = some epoch) (hidle : phase.inFlight? = none) :
    Asking id epoch phase.restarts l events l' := by
  have hstay {phase' : Phase} (hphase' : l'.phases id = some phase')
      (hrun' : phase'.epoch? = phase.epoch?) (hidle' : phase'.inFlight? = none)
      (hrestarts : phase'.restarts = phase.restarts) :
      ∃ phase', l'.phases id = some phase' ∧ phase'.epoch? = some epoch ∧
        phase'.inFlight? = none ∧ phase'.restarts = phase.restarts :=
    ⟨phase', hphase', hrun'.trans hrun, hidle', hrestarts⟩
  have hsame {old : Phase} (hold : l.phases id = some old) : phase = old :=
    Option.some.inj (hphase.symm.trans hold)
  cases h with
  | rest _ _ _ => exact .inr (.inl ⟨rfl, hstay hphase rfl hidle rfl⟩)
  | permit _ _ _ _ _ _ => exact .inr (.inl ⟨rfl, hstay hphase rfl hidle rfl⟩)
  | wait _ _ _ => exact .inr (.inl ⟨rfl, hstay hphase rfl hidle rfl⟩)
  | @queue purpose hold _ _ _ =>
    obtain rfl := hsame hold
    refine .inr (.inl ⟨rfl, hstay setPhase_self rfl rfl ?_⟩)
    cases purpose <;> rfl
  | @withdraw purpose hold _ _ =>
    obtain rfl := hsame hold
    refine .inr (.inl ⟨rfl, hstay setPhase_self rfl rfl ?_⟩)
    cases purpose <;> rfl
  | take hold _ _ _ hb =>
    obtain rfl := hsame hold
    exact hb.asking hrun
  | @enter purpose _ _ hold _ _ hb =>
    obtain rfl := hsame hold
    have hasking := hb.asking hrun
    cases purpose <;> exact hasking
  | _ =>
    -- all others execute a step or are no runs
    cases hsame ‹l.phases id = some _›
    simp [Phase.inFlight?, Phase.epoch?, Purpose.epoch?] at hidle hrun

/-- A run that executes a step is busy with it, ends it, or returns because it has failed. -/
theorem Deed.stepping (h : Deed m id l events l') {index : Nat} {activity : Activity}
    (hphase : l.phases id = some (.stepping (.run epoch) index activity)) :
    events = [] ∧ (∃ activity', l'.phases id = some (.stepping (.run epoch) index activity')) ∨
    (∃ flow, events = [.ended id index flow]) ∧ l'.phases id = some (.seeking (.step epoch)) ∨
    (∃ e, events = [.returned id (.error e), .failed id index e]) ∧ l'.phases id = none := by
  have hsame {old : Phase} (hold : l.phases id = some old) :
      Phase.stepping (.run epoch) index activity = old :=
    Option.some.inj (hphase.symm.trans hold)
  cases h with
  | busy hold _ =>
    cases hsame hold
    exact .inl ⟨rfl, _, setPhase_self⟩
  | ended hold _ =>
    cases hsame hold
    exact .inr (.inl ⟨⟨_, rfl⟩, setPhase_self⟩)
  | crashed hold _ =>
    cases hsame hold
    exact .inr (.inr ⟨⟨_, rfl⟩, finish_self⟩)
  | _ => cases hsame ‹l.phases id = some _›

/-- A `stop` step that is in force stays so, unless the machine is rewound or a run begins. -/
theorem Deed.stopped (h : Deed m id l events l') (hstopped : l.registers.stopped = true) :
    l'.registers.stopped = true ∨ .rewound id ∈ events ∨
      ∃ phase epoch, l.phases id = some phase ∧ phase.epoch? = some epoch ∧
        phase.isEarly = true := by
  have hbegins {l₁ : Ledger} {who : Stepper} (hb : Begins m id who l₁ events l')
      (h₁ : l₁.registers.stopped = true) : l'.registers.stopped = true := by
    cases hb with
    | hold _ _ => exact h₁
    | @step step r activity _ _ hbegin =>
      have := m.begin_stopped l₁.registers.cursor step.action l₁.registers (.inl h₁)
      rw [hbegin] at this
      exact this
  have hentry {l₁ : Ledger} {purpose : Purpose} (hb : Entry m id l₁ purpose events l')
      (h₁ : l₁.registers.stopped = true)
      (hphase : l.phases id = some (.seeking purpose) ∨ l.phases id = some (.queued purpose)) :
      l'.registers.stopped = true ∨ .rewound id ∈ events ∨
        ∃ phase epoch, l.phases id = some phase ∧ phase.epoch? = some epoch ∧
          phase.isEarly = true := by
    cases hb with
    | clear =>
      rcases hphase with hphase | hphase
      · exact .inr (.inr ⟨_, _, hphase, rfl, rfl⟩)
      · exact .inr (.inr ⟨_, _, hphase, rfl, rfl⟩)
    | step _ _ hb => exact .inl (hbegins hb h₁)
    | next hb => exact .inl (hbegins hb h₁)
    | rewind => exact .inr (.inl (by simp))
    | _ => exact .inl h₁
  cases h with
  | take hphase _ _ _ hb => exact hentry hb hstopped (.inl hphase)
  | enter hphase _ _ hb => exact hentry hb hstopped (.inr hphase)
  | _ => exact .inl hstopped

/-! ### The milestones of one call -/

/-- The milestones of a call among some milestones. -/
def ofCall (id : Nat) (events : List Event) : List Event :=
  events.filter fun e => e.call? = some id

theorem ofCall_append (id : Nat) (events events' : List Event) :
    ofCall id (events ++ events') = ofCall id events ++ ofCall id events' :=
  List.filter_append ..

theorem ofCall_cons {e : Event} (he : e.call? = some id) (events : List Event) :
    ofCall id (e :: events) = e :: ofCall id events :=
  List.filter_cons_of_pos (by simpa using he)

/-- All milestones of a deed are its call's, but for a position that is published. -/
theorem Deed.ofCall_of_ne (h : Deed m id l events l') {j : Nat} (hj : j ≠ id) :
    ofCall j events = [] := by
  rw [ofCall, List.filter_eq_nil_iff]
  intro e he
  rcases h.call? e he with hcall | ⟨position, rfl⟩
  · simp [hcall, Ne.symm hj]
  · simp [Event.call?]

/-! ### A run that was cancelled -/

/-- What is left of a run that was cancelled while it executed the step at an index, or while it
executed none: it finishes the step that is under way and returns. -/
inductive WindsUp (id epoch : Nat) (inFlight : Option Nat) : Option Phase → List Event → Prop
  /-- Nothing has happened yet. -/
  | going {phase : Phase} : phase.epoch? = some epoch → phase.inFlight? = inFlight →
      WindsUp id epoch inFlight (some phase) []
  /-- The step that was under way is over. -/
  | ended {phase : Phase} {index : Nat} {flow : Flow} : inFlight = some index →
      phase.epoch? = some epoch → phase.inFlight? = none →
      WindsUp id epoch inFlight (some phase) [.ended id index flow]
  /-- The run has returned. -/
  | done : inFlight = none → WindsUp id epoch inFlight none [.returned id (.ok ())]
  /-- The run has returned after the step that was under way. -/
  | overAfter {index : Nat} {flow : Flow} : inFlight = some index →
      WindsUp id epoch inFlight none [.returned id (.ok ()), .ended id index flow]
  /-- The run has returned because that step has failed. -/
  | failed {index : Nat} {e : StepError} : inFlight = some index →
      WindsUp id epoch inFlight none [.returned id (.error e), .failed id index e]

/-- A cancelled run that does something winds up. -/
theorem WindsUp.own (h : WindsUp id epoch inFlight (l.phases id) base)
    (hcancelled : epoch < l.epoch) (hdeed : Deed m id l events l') :
    WindsUp id epoch inFlight (l'.phases id) (ofCall id events ++ base) := by
  have hgo (hgo : l.epoch = epoch ∧ l.registers.stopped = false) : False := by
    rw [hgo.1] at hcancelled
    exact Nat.lt_irrefl _ hcancelled
  generalize hphase : l.phases id = phase at h
  cases h with
  | @going phase hrun hflight =>
    rcases hidle : phase.inFlight? with - | index
    · rcases hdeed.asking hphase hrun hidle with
        hmay | ⟨rfl, phase', hphase', hrun', hidle', -⟩ | ⟨-, he, -⟩ | ⟨rfl, hover⟩
      · exact (hgo hmay).elim
      · rw [hphase']
        exact .going hrun' (hidle'.trans (hidle.symm.trans hflight))
      · rw [he] at hcancelled
        exact absurd hcancelled (Nat.lt_irrefl _)
      · rw [hover, ofCall_cons rfl]
        exact .done (hflight.symm.trans hidle)
    · -- a step is under way
      obtain ⟨activity, rfl⟩ := Phase.eq_stepping hrun hidle
      rcases hdeed.stepping hphase with ⟨rfl, activity', hphase'⟩ | ⟨⟨flow, rfl⟩, hphase'⟩ |
        ⟨⟨e, rfl⟩, hover⟩
      · rw [hphase']
        exact .going rfl hflight
      · rw [hphase', ofCall_cons rfl]
        exact .ended hflight.symm rfl rfl
      · rw [hover, ofCall_cons rfl, ofCall_cons rfl]
        exact .failed hflight.symm
  | ended hflight hrun hidle =>
    rcases hdeed.asking hphase hrun hidle with
      hmay | ⟨rfl, phase', hphase', hrun', hidle', -⟩ | ⟨-, he, -⟩ | ⟨rfl, hover⟩
    · exact (hgo hmay).elim
    · rw [hphase']
      exact .ended hflight hrun' hidle'
    · rw [he] at hcancelled
      exact absurd hcancelled (Nat.lt_irrefl _)
    · rw [hover, ofCall_cons rfl]
      exact .overAfter hflight
  | _ =>
    obtain ⟨old, hold⟩ := hdeed.present
    rw [hold] at hphase
    cases hphase

/-- A hold that is let go is still under way. -/
theorem WindsUp.released {index : Nat} {release : Release}
    (h : WindsUp id epoch inFlight (some (.stepping who index (.holding none))) base) :
    WindsUp id epoch inFlight (some (.stepping who index (.holding (some release)))) base := by
  cases h with
  | going hrun hflight => exact .going (by cases who <;> exact hrun) hflight
  | ended _ _ hidle => cases hidle

theorem WindsUp.deed {j : Nat} {since : List Event}
    (h : WindsUp id epoch inFlight (l.phases id) (ofCall id since)) (hcancelled : epoch < l.epoch)
    (hdeed : Deed m j l events l') :
    WindsUp id epoch inFlight (l'.phases id) (ofCall id (events ++ since)) := by
  rw [ofCall_append]
  by_cases hj : id = j
  · subst hj
    exact h.own hcancelled hdeed
  · rw [hdeed.ofCall_of_ne hj, List.nil_append]
    rcases hdeed.other hj with hsame | ⟨who, index, release, -, hholder, -, hreleased⟩
    · rwa [hsame]
    · rw [hholder] at h
      rw [hreleased]
      exact h.released

/-- What is left of a run that was cancelled, after some more milestones. -/
def Winding (id epoch : Nat) (inFlight : Option Nat) (base : List Event) (l : Ledger) : Prop :=
  epoch < l.epoch ∧ ∃ since, l.stage.milestones = since ++ base ∧
    WindsUp id epoch inFlight (l.phases id) (ofCall id since)

theorem Winding.turn (h : Winding id epoch inFlight base l)
    (hissued : id < l.calls) (hturn : Turn m l events l') : Winding id epoch inFlight base l' := by
  obtain ⟨hcancelled, since, hsince, hwinds⟩ := h
  have hmilestones := hturn.milestones
  rw [hsince, ← List.append_assoc] at hmilestones
  cases hturn with
  | deed hdeed =>
    exact ⟨Nat.lt_of_lt_of_le hcancelled hdeed.frame.1, _, hmilestones,
      hwinds.deed hcancelled hdeed⟩
  | issue call hnone =>
    refine ⟨hcancelled, since, hsince, ?_⟩
    rw [setPhase_of_ne (Nat.ne_of_lt hissued)]
    exact hwinds
  | outside _ _ _ => exact ⟨hcancelled, since, hmilestones, hwinds⟩

/-! ### A `stop` step -/

/-- The `stop` step that is executed is in force. -/
def StopsInForce (m : Machine) (l : Ledger) : Prop :=
  ∀ id who index activity step, l.phases id = some (.stepping who index activity) →
    m.program.step? index = some step → step.action = .stop → l.registers.stopped = true

theorem StopsInForce.deed (h : StopsInForce m l) (hkept : l.Kept) (hdeed : Deed m id l events l') :
    StopsInForce m l' := by
  intro j who index activity step hphase hstep haction
  by_cases hj : j = id
  · subst hj
    rcases hdeed.steps hphase with ⟨⟨before, hbefore⟩, hregisters⟩ | ⟨step', r, hstep', hbegin, -⟩
    · rw [hregisters]
      exact h _ _ _ _ _ hbefore hstep haction
    · cases hstep.symm.trans hstep'
      have := m.begin_stopped index step.action r (.inr haction)
      rwa [hbegin] at this
  · -- the registers belong to somebody else
    have hstepping : ∃ activity, l.phases j = some (.stepping who index activity) := by
      rcases hdeed.other hj with hsame | ⟨who', index', release, -, hholder, -, hreleased⟩
      · exact ⟨activity, hsame ▸ hphase⟩
      · cases hreleased.symm.trans hphase
        exact ⟨_, hholder⟩
    obtain ⟨activity, hbefore⟩ := hstepping
    rw [(hdeed.bystander hkept (hkept.owner hbefore) hj).1]
    exact h _ _ _ _ _ hbefore hstep haction

theorem StopsInForce.turn (h : StopsInForce m l) (hkept : l.Kept) (hturn : Turn m l events l') :
    StopsInForce m l' := by
  cases hturn with
  | deed hdeed => exact h.deed hkept hdeed
  | issue call hnone =>
    intro j who index activity step hphase hstep haction
    by_cases hj : j = l.calls
    · subst hj
      cases setPhase_self.symm.trans hphase
    · rw [setPhase_of_ne hj] at hphase
      exact h _ _ _ _ _ hphase hstep haction
  | outside _ _ _ => exact h

/-- What is left of a run that executes no step while a `stop` step is in force: it returns, but if
it was about to begin another pass it may restart the registers first. -/
inductive Halts (id epoch : Nat) (restarting : Bool) : Option Phase → List Event → Prop
  /-- Nothing has happened yet. -/
  | asking {phase : Phase} : phase.epoch? = some epoch → phase.inFlight? = none →
      phase.isEarly = false → phase.restarts = restarting →
      Halts id epoch restarting (some phase) []
  /-- The registers were restarted. -/
  | restarted {phase : Phase} : restarting = true → phase.epoch? = some epoch →
      phase.inFlight? = none → phase.isEarly = false → phase.restarts = false →
      Halts id epoch restarting (some phase) [.restarted id]
  /-- The run has returned. -/
  | done : Halts id epoch restarting none [.returned id (.ok ())]
  /-- The run has returned after the registers were restarted. -/
  | overAfter : restarting = true →
      Halts id epoch restarting none [.returned id (.ok ()), .restarted id]

/-- What is left of a run after a `stop` step, after some more milestones: if there was no rewind
the `stop` step is still in force as long as the run is not over. -/
def Halting (id epoch : Nat) (restarting : Bool) (base : List Event) (l : Ledger) : Prop :=
  ∃ since, l.stage.milestones = since ++ base ∧
    ((∃ j, .rewound j ∈ since) ∨
      Halts id epoch restarting (l.phases id) (ofCall id since) ∧
        (l.phases id ≠ none → l.registers.stopped = true))

/-- Who has not returned after a `stop` step is a run that executes no step. -/
theorem Halts.asks (h : Halts id epoch restarting (some phase) base) :
    phase.epoch? = some epoch ∧ phase.inFlight? = none ∧ phase.isEarly = false := by
  cases h with
  | asking hrun hidle hlate _ => exact ⟨hrun, hidle, hlate⟩
  | restarted _ hrun hidle hlate _ => exact ⟨hrun, hidle, hlate⟩

/-- A run that does something while a `stop` step is in force begins no step. -/
theorem Halts.own (h : Halts id epoch restarting (l.phases id) base)
    (hstopped : l.registers.stopped = true) (hdeed : Deed m id l events l') :
    Halts id epoch restarting (l'.phases id) (ofCall id events ++ base) := by
  obtain ⟨phase, hphase⟩ := hdeed.present
  rw [hphase] at h
  obtain ⟨hrun, hidle, hlate⟩ := h.asks
  -- nobody is early again
  have hlater {phase' : Phase} (hphase' : l'.phases id = some phase') : phase'.isEarly = false := by
    rw [Bool.eq_false_iff]
    intro hearly
    obtain ⟨⟨old, hold, hwas⟩, -⟩ := hdeed.early hphase' hearly
    cases hphase.symm.trans hold
    rw [hlate] at hwas
    cases hwas
  rcases hdeed.asking hphase hrun hidle with
    ⟨-, hgo⟩ | ⟨rfl, phase', hphase', hrun', hidle', hrestarts⟩ |
    ⟨rfl, -, hrestarts, phase', hphase', hrun', hidle', hdone⟩ | ⟨rfl, hover⟩
  · rw [hstopped] at hgo
    cases hgo
  · rw [hphase']
    cases h with
    | asking _ _ _ hwas => exact .asking hrun' hidle' (hlater hphase') (hrestarts.trans hwas)
    | restarted hwas _ _ _ hno =>
      exact .restarted hwas hrun' hidle' (hlater hphase') (hrestarts.trans hno)
  · rw [hphase', ofCall_cons rfl]
    cases h with
    | asking _ _ _ hwas =>
      exact .restarted (hwas.symm.trans hrestarts) hrun' hidle' (hlater hphase') hdone
    | restarted _ _ _ _ hno =>
      rw [hno] at hrestarts
      cases hrestarts
  · rw [hover, ofCall_cons rfl]
    cases h with
    | asking _ _ _ _ => exact .done
    | restarted hwas _ _ _ _ => exact .overAfter hwas

theorem Halting.deed {j : Nat} (h : Halting id epoch restarting base l) (hruns : l.Runs m)
    (hdeed : Deed m j l events l') : Halting id epoch restarting base l' := by
  obtain ⟨since, hsince, hhalts⟩ := h
  refine ⟨events ++ since, ?_, ?_⟩
  · rw [hdeed.milestones, hsince, List.append_assoc]
  rcases hhalts with ⟨i, hi⟩ | ⟨hhalts, hstopped⟩
  · exact .inl ⟨i, List.mem_append_right _ hi⟩
  · rw [ofCall_append]
    by_cases hj : id = j
    · subst hj
      obtain ⟨phase, hphase⟩ := hdeed.present
      have hforce := hstopped (by rw [hphase]; simp)
      rcases hdeed.stopped hforce with hstill | hrewound | ⟨old, _, hold, -, hearly⟩
      · exact .inr ⟨hhalts.own hforce hdeed, fun _ => hstill⟩
      · exact .inl ⟨id, List.mem_append_left _ hrewound⟩
      · rw [hold] at hhalts
        rw [hhalts.asks.2.2] at hearly
        cases hearly
    · rw [hdeed.ofCall_of_ne hj, List.nil_append]
      rcases hdeed.other hj with hsame | ⟨who, index, release, -, hholder, -, -⟩
      · rw [hsame]
        rcases hphase : l.phases id with - | phase
        · exact .inr ⟨hphase ▸ hhalts, fun hne => absurd rfl hne⟩
        · rw [hphase] at hhalts
          rcases hdeed.stopped (hstopped (by rw [hphase]; simp)) with
            hstill | hrewound | ⟨old, e, hold, hrun, -⟩
          · exact .inr ⟨hhalts, fun _ => hstill⟩
          · exact .inl ⟨j, List.mem_append_left _ hrewound⟩
          · -- there is no other run that could begin
            have hid : l.run? id = some epoch := (run?_of_phases hphase).trans hhalts.asks.1
            have hother : l.run? j = some e := (run?_of_phases hold).trans hrun
            exact absurd (hruns.unique hid hother) hj
      · rw [hholder] at hhalts
        cases hhalts.asks.2.1

theorem Halting.turn (h : Halting id epoch restarting base l) (hruns : l.Runs m)
    (hissued : id < l.calls) (hturn : Turn m l events l') :
    Halting id epoch restarting base l' := by
  cases hturn with
  | deed hdeed => exact h.deed hruns hdeed
  | issue call hnone =>
    obtain ⟨since, hsince, hhalts⟩ := h
    refine ⟨since, hsince, ?_⟩
    rw [setPhase_of_ne (Nat.ne_of_lt hissued)]
    exact hhalts
  | outside hmilestones _ _ =>
    obtain ⟨since, hsince, hhalts⟩ := h
    exact ⟨since, hmilestones.trans hsince, hhalts⟩

end Ledger

namespace Config

variable {m : Machine} {c₀ c : Config} {id epoch : Nat} {phase : Phase}

/-- While nobody can go on, a run that is not over waits for somebody who executes a step; that may
be the run itself. -/
theorem Ordered.stepping_of_quiet (h : c.Ordered) (hquiet : c.quiet)
    (hphase : c.phase? id = some phase) (hrun : phase.epoch? = some epoch) :
    ∃ owner who index activity, c.lock.owner = some owner ∧
      c.phase? owner = some (.stepping who index activity) := by
  cases phase with
  | issued _ => cases hrun
  | seeking purpose =>
    -- whoever asks for the registers can go on
    have hfits := h.fits id
    rw [role_of_phase? hphase] at hfits
    have hidle := ready_of_quiet hquiet
    rcases hfits.1 with hready | hyielded | hrests
    · exact absurd hready (by simp [Roster.standing, roster, hidle.1])
    · exact absurd hyielded (by simp [Roster.standing, roster, hidle.2])
    · cases hrests
  | queued purpose =>
    obtain ⟨-, hqueue, -, -⟩ := h.queued_of_quiet hquiet hphase
    obtain ⟨owner, who, index, activity, howner, hstepping, -⟩ := h.owner_of_quiet hquiet hqueue
    exact ⟨owner, who, index, activity, howner, hstepping⟩
  | stepping who index activity =>
    exact ⟨id, who, index, activity, h.owner_of_stepping hphase, hphase⟩
  | moving _ => cases hrun

/-- The small step in which a call to stop is heard. -/
theorem ledger_step_stop {s : Nat} {rest : List Nat} (hready : c.ready = s :: rest)
    (hs : c.phase? s = some (.issued .stop)) : (c.step m).ledger
      = { c.ledger with epoch := c.epoch + 1 }.setPhase s (.seeking .rewind) := by
  have hpresent : (c.phase? s).isSome := by
    rw [hs]
    rfl
  rw [step_of_ready hready hs]
  exact ledger_setPhase (c := { c with epoch := c.epoch + 1 }) hpresent _

/-- A run that is active when a call to stop is heard winds up. -/
theorem Reachable.winding (h : c₀.Reachable m) (hphase : (c₀.step m).phase? id = some phase)
    (hrun : phase.epoch? = some epoch) (hmoves : ReflTransGen (Move m) (c₀.step m) c)
    {s : Nat} {rest : List Nat} (hready : c₀.ready = s :: rest)
    (hs : c₀.phase? s = some (.issued .stop)) :
    Ledger.Winding id epoch phase.inFlight? (c₀.step m).stage.milestones c.ledger := by
  have hstep := ledger_step_stop (m := m) hready hs
  have hne : id ≠ s := by
    rintro rfl
    have hseeks : (c₀.step m).phase? id = some (.seeking .rewind) := by
      show (c₀.step m).ledger.phases id = _
      rw [hstep]
      exact Ledger.setPhase_self
    cases hphase.symm.trans hseeks
    cases hrun
  -- no run is ahead of the epoch that the call has raised
  have hcancelled : epoch < (c₀.step m).ledger.epoch := by
    have hbefore : c₀.ledger.run? id = some epoch := by
      have hafter : (c₀.step m).ledger.phases id = some phase := hphase
      rw [hstep, Ledger.setPhase_of_ne hne] at hafter
      exact (Ledger.run?_of_phases hafter).trans hrun
    rw [hstep]
    exact Nat.lt_succ_of_le (h.runs.epoch hbefore)
  have hstart : Ledger.Winding id epoch phase.inFlight? (c₀.step m).stage.milestones
      (c₀.step m).ledger := by
    refine ⟨hcancelled, [], rfl, ?_⟩
    show Ledger.WindsUp id epoch _ ((c₀.step m).phase? id) _
    rw [hphase]
    exact .going hrun rfl
  have hreach := h.move (m := m) .step
  exact (hreach.keeps (P := fun l => Ledger.Winding id epoch phase.inFlight?
    (c₀.step m).stage.milestones l ∧ id < l.calls) hmoves
    ⟨hstart, hreach.early.phases hphase⟩ fun hw _ hturn =>
      ⟨hw.1.turn hw.2 hturn, Nat.lt_of_lt_of_le hw.2 hturn.calls_le⟩).1

/-- A `stop` step that is executed is in force. -/
theorem Reachable.stopsInForce (h : c.Reachable m) : Ledger.StopsInForce m c.ledger :=
  h.induction (fun _ _ _ _ _ _ _ hphase => (nomatch hphase)) fun hforce hkept hturn =>
    hforce.turn hkept hturn

/-- A run that has begun a step and is active when a `stop` step ends begins no other one, unless
the machine is rewound. -/
theorem Reachable.halting (h : c₀.Reachable m) (hphase : (c₀.step m).phase? id = some phase)
    (hrun : phase.epoch? = some epoch) (hmoves : ReflTransGen (Move m) (c₀.step m) c)
    {events : List Event} (hevents : (c₀.step m).stage.milestones = events ++ c₀.stage.milestones)
    {i index k : Nat} {flow : Flow} {step : Step} (hended : .ended i index flow ∈ events)
    (hstep : m.program.step? index = some step) (haction : step.action = .stop)
    (hbegan : .began id k ∈ c₀.stage.milestones) :
    Ledger.Halting id epoch phase.restarts (c₀.step m).stage.milestones c.ledger := by
  have hreach := h.move (m := m) .step
  have hordered := h.ordered
  -- the small step is the deed of the call that executes the `stop` step
  obtain ⟨j, rest, hready⟩ : ∃ j rest, c₀.ready = j :: rest := by
    rcases hready : c₀.ready with - | ⟨j, rest⟩
    · rw [step_of_idle hready] at hevents
      rw [List.self_eq_append_left.1 hevents] at hended
      cases hended
    · exact ⟨j, rest, rfl⟩
  obtain ⟨events', hdeed⟩ := hordered.deed (m := m) hready
  obtain rfl : events' = events :=
    List.append_cancel_right (hdeed.milestones.symm.trans hevents)
  obtain ⟨rfl, who, activity, hstepping, hregisters, hover⟩ := hdeed.ends hended
  have hstopped : (c₀.step m).registers.stopped = true := by
    have hforce := h.stopsInForce _ _ _ _ _ hstepping hstep haction
    show (c₀.step m).ledger.registers.stopped = true
    rw [hregisters]
    exact hforce
  have hidle : phase.inFlight? = none := by
    by_cases hid : id = i
    · subst hid
      obtain ⟨e, -, rfl⟩ := hover phase hphase
      rfl
    · -- only one call executes a step
      rcases hflight : phase.inFlight? with - | index'
      · rfl
      · obtain ⟨activity', rfl⟩ := Phase.eq_stepping hrun hflight
        have hbefore : c₀.lock.owner = some id := by
          rcases hdeed.other hid with hsame | ⟨_, _, _, -, hholder, -, -⟩
          · exact hordered.owner_of_stepping (hsame.symm.trans hphase)
          · exact hordered.owner_of_stepping hholder
        have howner := hordered.owner_of_stepping hstepping
        exact absurd (Option.some.inj (hbefore.symm.trans howner)) hid
  have hlate : phase.isEarly = false := by
    rw [Bool.eq_false_iff]
    intro hearly
    have hnone : .began id k ∉ (c₀.step m).stage.milestones := hreach.early.early hphase hearly
    refine hnone ?_
    show _ ∈ (c₀.step m).stage.milestones
    rw [hevents]
    exact List.mem_append_right _ hbegan
  have hstart : Ledger.Halting id epoch phase.restarts (c₀.step m).stage.milestones
      (c₀.step m).ledger := by
    refine ⟨[], rfl, .inr ⟨?_, fun _ => hstopped⟩⟩
    show Ledger.Halts id epoch _ ((c₀.step m).phase? id) _
    rw [hphase]
    exact .asking hrun hidle hlate rfl
  exact (hreach.keeps (P := fun l => Ledger.Halting id epoch phase.restarts
    (c₀.step m).stage.milestones l ∧ l.Runs m ∧ id < l.calls) hmoves
    ⟨hstart, hreach.runs, hreach.early.phases hphase⟩ fun hw _ hturn =>
      ⟨hw.1.turn hw.2.1 hw.2.2 hturn, hw.2.1.turn hturn,
        Nat.lt_of_lt_of_le hw.2.2 hturn.calls_le⟩).1

/-- **How runs end.**  A run that is active when a call to stop is heard finishes at most the step
that is under way, and returns; it does not fail unless that step does.  A run that has begun a step
and is active when a `stop` step ends, whoever has executed it, executes no other step and returns,
unless the machine is rewound; if it was about to begin another pass it may restart the registers
first, and otherwise it does not.  Neither is left behind: whenever nobody can go on and the run has
not returned, somebody executes a step. -/
theorem Reachable.run_ends (h : c₀.Reachable m) (hphase : (c₀.step m).phase? id = some phase)
    (hrun : phase.epoch? = some epoch) (hmoves : ReflTransGen (Move m) (c₀.step m) c) :
    (∀ s rest, c₀.ready = s :: rest → c₀.phase? s = some (.issued .stop) →
      ∃ since, c.stage.milestones = since ++ (c₀.step m).stage.milestones ∧
        Ledger.WindsUp id epoch phase.inFlight? (c.phase? id) (Ledger.ofCall id since)) ∧
    (∀ events i index flow step k,
      (c₀.step m).stage.milestones = events ++ c₀.stage.milestones →
      .ended i index flow ∈ events → m.program.step? index = some step → step.action = .stop →
      .began id k ∈ c₀.stage.milestones →
      ∃ since, c.stage.milestones = since ++ (c₀.step m).stage.milestones ∧
        ((∃ j, .rewound j ∈ since) ∨
          Ledger.Halts id epoch phase.restarts (c.phase? id) (Ledger.ofCall id since))) ∧
    (c.quiet → ∀ phase', c.phase? id = some phase' → phase'.epoch? = some epoch →
      ∃ owner who index activity, c.lock.owner = some owner ∧
        c.phase? owner = some (.stepping who index activity)) := by
  have hreach : c.Reachable m := (h.move .step).moves hmoves
  refine ⟨fun s rest hready hs => ?_, fun events i index flow step k hevents hended hstep haction
    hbegan => ?_, fun hquiet phase' hphase' hrun' =>
      hreach.ordered.stepping_of_quiet hquiet hphase' hrun'⟩
  · exact (h.winding hphase hrun hmoves hready hs).2
  · obtain ⟨since, hsince, hhalts⟩ := h.halting hphase hrun hmoves hevents hended hstep haction hbegan
    exact ⟨since, hsince, hhalts.imp_right And.left⟩

/-! ### A `stop` step at the end of a pass -/

/-- A machine that loops over a `stop` step and two vibrations of ten milliseconds. -/
def stopLoop : Machine where
  program := ⟨[⟨{ action := .stop }, none⟩, ⟨{ action := .vibrate }, none⟩,
    ⟨{ action := .vibrate }, none⟩], {}⟩
  settings := { looping := true, vibration := .always }
  haptics := some ⟨10000000⟩

/-- A first call executes the `stop` step, a run vibrates, and another call waits to do so. -/
def vibratingInTurns : Config :=
  (((((fresh stopLoop {} {}).issue (.next none)).settle stopLoop 20).issue .start).settle
    stopLoop 20 |>.issue (.next none)).settle stopLoop 20

/-- That call vibrates while the run waits, and a third call has come. -/
def lastVibration : Config :=
  (((vibratingInTurns.tick 10).settle stopLoop 20).issue (.next none)).settle stopLoop 20

/-- The run has seen the end of the program, and the third call is about to end the `stop` step. -/
def stoppingAtEnd : Config :=
  (lastVibration.tick 20).settle stopLoop 4

theorem reachable_stoppingAtEnd : stoppingAtEnd.Reachable stopLoop := by
  have hturns : vibratingInTurns.Reachable stopLoop :=
    ((((((Reachable.fresh {} {}).issue (.next none)).settle 20).issue .start).settle
      20).issue (.next none)).settle 20
  have hlast : lastVibration.Reachable stopLoop :=
    ((((hturns.move (.tick (by cbv) (by cbv))).settle 20).issue (.next none)).settle 20)
  exact (hlast.move (.tick (by cbv) (by cbv))).settle 4

/-- The run has begun a step before. -/
theorem began_stoppingAtEnd : .began 1 1 ∈ stoppingAtEnd.stage.milestones := by
  have hat : stoppingAtEnd.stage.milestones[7]? = some (.began 1 1) := by cbv
  exact List.mem_of_getElem? hat

/-- The run that is about to begin another pass does so after the `stop` step, and puts the cursor
back. -/
theorem restarts_after_stop_step : ∃ (c₀ c : Config) (phase : Phase), c₀.Reachable stopLoop ∧
    (c₀.step stopLoop).phase? 1 = some phase ∧ phase.epoch? = some 0 ∧
    ReflTransGen (Move stopLoop) (c₀.step stopLoop) c ∧
    (c₀.step stopLoop).stage.milestones
      = [.returned 3 (.ok ()), .ended 3 0 .advance] ++ c₀.stage.milestones ∧
    stopLoop.program.step? 0 = some { action := .stop } ∧
    .began 1 1 ∈ c₀.stage.milestones ∧
    c.stage.milestones = .restarted 1 :: (c₀.step stopLoop).stage.milestones ∧
    (c₀.step stopLoop).registers.cursor = 1 ∧ c.registers.cursor = 0 := by
  refine ⟨stoppingAtEnd, (stoppingAtEnd.step stopLoop).step stopLoop, .queued (.restart 0),
    reachable_stoppingAtEnd, ?_, rfl, .single .step, ?_, rfl, began_stoppingAtEnd, ?_, ?_, ?_⟩
  · cbv
  · cbv
  · cbv
  · cbv
  · cbv

/-- A run waits in the middle of a pass when a call to stop is heard. -/
def stoppingInTurns : Config :=
  vibratingInTurns.issue .stop

theorem reachable_stoppingInTurns : stoppingInTurns.Reachable stopLoop :=
  ((((((Reachable.fresh {} {}).issue (.next none)).settle 20).issue .start).settle
    20).issue (.next none)).settle 20 |>.issue .stop

theorem run_ends_stopLoop :
    (∃ phase since, (stoppingInTurns.step stopLoop).phase? 1 = some phase ∧
      phase.inFlight? = some 1 ∧
      (stoppingInTurns.step stopLoop).stage.milestones
        = since ++ (stoppingInTurns.step stopLoop).stage.milestones ∧
      Ledger.WindsUp 1 0 (some 1) (some phase) (Ledger.ofCall 1 since)) ∧
    ∃ since, ((stoppingAtEnd.step stopLoop).step stopLoop).stage.milestones
        = since ++ (stoppingAtEnd.step stopLoop).stage.milestones ∧
      ((∃ j, .rewound j ∈ since) ∨ Ledger.Halts 1 0 true
        (((stoppingAtEnd.step stopLoop).step stopLoop).phase? 1) (Ledger.ofCall 1 since)) := by
  constructor
  · obtain ⟨phase, hphase, hrun, hflight⟩ : ∃ phase,
        (stoppingInTurns.step stopLoop).phase? 1 = some phase ∧ phase.epoch? = some 0 ∧
          phase.inFlight? = some 1 := by
      have hsome : ((stoppingInTurns.step stopLoop).phase? 1).isSome = true := by cbv
      obtain ⟨phase, hphase⟩ := Option.isSome_iff_exists.1 hsome
      have hrun : ((stoppingInTurns.step stopLoop).phase? 1).bind Phase.epoch? = some 0 := by cbv
      have hflight : ((stoppingInTurns.step stopLoop).phase? 1).bind Phase.inFlight? = some 1 := by
        cbv
      rw [hphase] at hrun hflight
      exact ⟨phase, hphase, hrun, hflight⟩
    have hready : stoppingInTurns.ready = [3] := by cbv
    have hstop : stoppingInTurns.phase? 3 = some (.issued .stop) := by cbv
    obtain ⟨since, hsince, hwinds⟩ :=
      (reachable_stoppingInTurns.run_ends hphase hrun .refl).1 3 [] hready hstop
    rw [hphase, hflight] at hwinds
    exact ⟨phase, since, hphase, hflight, hsince, hwinds⟩
  · have hphase : (stoppingAtEnd.step stopLoop).phase? 1 = some (.queued (.restart 0)) := by cbv
    exact (reachable_stoppingAtEnd.run_ends hphase rfl (.single .step)).2.1 _ 3 0 .advance
      { action := .stop } 1 (show _ = [.returned 3 (.ok ()), .ended 3 0 .advance] ++ _ by cbv)
      (by simp) rfl rfl began_stoppingAtEnd

end Config

end Timeline
