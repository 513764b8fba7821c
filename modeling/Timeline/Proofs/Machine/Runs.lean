/-
Timeline/Proofs/Machine/Runs.lean

Runs: the calls that drive a machine by themselves.

A run carries the number of calls to stop from before it began, its epoch; a later
call to stop is what tells it apart from a run that may go on.  Main result
(`Config.Reachable.runs`): in a reachable configuration there is one run at most,
there is one exactly if the machine is marked as running, and no run is ahead of the
machine's epoch.  Whoever has not come past the begin of a run or of a call has begun
no step (`Config.Reachable.early`).
-/
import Timeline.Proofs.Machine.Ledger

namespace Timeline

open Relation

/-- The epoch of a run that wants the registers. -/
def Purpose.epoch? : Purpose → Option Nat
  | clear epoch | step epoch | restart epoch => some epoch
  | next _ | rewind => none

/-- The epoch of a run in a phase. -/
def Phase.epoch? : Phase → Option Nat
  | seeking purpose | queued purpose => purpose.epoch?
  | stepping (.run epoch) _ _ => some epoch
  | _ => none

/-- Whether a call in a phase cannot have begun a step yet. -/
def Phase.isEarly : Phase → Bool
  | issued _ | seeking (.clear _) | queued (.clear _) => true
  | _ => false

namespace Ledger

variable {m : Machine} {l l' : Ledger} {id : Nat} {who : Stepper} {events : List Event}

/-- The epoch of a call, if it is a run that is not over. -/
def run? (l : Ledger) (id : Nat) : Option Nat :=
  (l.phases id).bind Phase.epoch?

theorem run?_of_phases {phase : Phase} (h : l.phases id = some phase) :
    l.run? id = phase.epoch? := by
  rw [run?, h]
  rfl

/-! ### The phases after a deed -/

theorem Begins.phases (h : Begins m id who l events l') : ∃ activity, l'.phases
    = Function.update l.phases id (some (.stepping who l.registers.cursor activity)) := by
  cases h with
  | hold _ _ => exact ⟨_, rfl⟩
  | step _ _ _ => exact ⟨_, rfl⟩

theorem Entry.phases {purpose : Purpose} (h : Entry m id l purpose events l') :
    ∃ x, l'.phases = Function.update l.phases id x := by
  cases h with
  | step _ _ hbegins =>
    obtain ⟨activity, hphases⟩ := hbegins.phases
    exact ⟨_, hphases⟩
  | next hbegins =>
    obtain ⟨activity, hphases⟩ := hbegins.phases
    exact ⟨_, hphases⟩
  | _ => exact ⟨_, rfl⟩

/-- A deed changes the phase of the call that does it, and of a hold that it lets go. -/
theorem Deed.phases (h : Deed m id l events l') :
    (∃ x, l'.phases = Function.update l.phases id x) ∨
    ∃ holder who index release x, holder ≠ id ∧ l.hold = some holder ∧
      l.phases holder = some (.stepping who index (.holding none)) ∧
      .released id holder release ∈ events ∧
      l'.phases = Function.update (Function.update l.phases holder
        (some (.stepping who index (.holding (some release))))) id x := by
  cases h with
  | @drop holder index who hphase hhold hne hholder =>
    refine .inr ⟨holder, who, index, .dropped, some (.seeking .rewind), hne, hhold, hholder,
      by simp, ?_⟩
    show _ = Function.update (Function.update l.phases holder _) id _
    rw [Function.update_comm hne, ← hphase, Function.update_eq_self]
    rfl
  | @resume holder index who seek hphase hhold hne hholder =>
    exact .inr ⟨holder, who, index, .resumed seek, none, hne, hhold, hholder, by simp, rfl⟩
  | rest _ _ _ => exact .inl ⟨l.phases id, (Function.update_eq_self ..).symm⟩
  | permit _ _ _ _ _ _ => exact .inl ⟨l.phases id, (Function.update_eq_self ..).symm⟩
  | wait _ _ _ => exact .inl ⟨l.phases id, (Function.update_eq_self ..).symm⟩
  | take _ _ _ _ hentry => exact .inl hentry.phases
  | enter _ _ _ hentry => exact .inl hentry.phases
  | _ => exact .inl ⟨_, rfl⟩

/-- All other calls stay in their phases, but for a hold that is let go. -/
theorem Deed.other (h : Deed m id l events l') {j : Nat} (hj : j ≠ id) :
    l'.phases j = l.phases j ∨
    ∃ who index release, l.hold = some j ∧
      l.phases j = some (.stepping who index (.holding none)) ∧
      .released id j release ∈ events ∧
      l'.phases j = some (.stepping who index (.holding (some release))) := by
  rcases h.phases with ⟨x, hx⟩ | ⟨holder, who, index, release, x, hne, hhold, hholder, hmem, hx⟩
  · left
    rw [hx, Function.update_of_ne hj]
  · by_cases hjh : j = holder
    · subst hjh
      refine .inr ⟨who, index, release, hhold, hholder, hmem, ?_⟩
      rw [hx, Function.update_of_ne hj, Function.update_self]
    · left
      rw [hx, Function.update_of_ne hj, Function.update_of_ne hjh]

theorem Deed.run?_of_ne (h : Deed m id l events l') {j : Nat} (hj : j ≠ id) :
    l'.run? j = l.run? j := by
  rcases h.other hj with hsame | ⟨who, index, release, -, hholder, -, hreleased⟩
  · rw [run?, hsame, run?]
  · rw [run?_of_phases hholder, run?_of_phases hreleased]
    cases who <;> rfl

/-! ### How runs begin and end -/

theorem Begins.run? (h : Begins m id who l events l') :
    l'.run? id = (Phase.stepping who 0 (.holding none)).epoch? ∧ l'.running = l.running := by
  cases h with
  | hold _ _ =>
    refine ⟨(run?_of_phases setPhase_self).trans ?_, rfl⟩
    cases who <;> rfl
  | step _ _ _ =>
    refine ⟨(run?_of_phases setPhase_self).trans ?_, rfl⟩
    cases who <;> rfl

theorem run?_setPhase (l : Ledger) (id : Nat) (phase : Phase) :
    (l.setPhase id phase).run? id = phase.epoch? :=
  run?_of_phases setPhase_self

theorem run?_finish (l : Ledger) (id : Nat) (result : Except StepError Unit) :
    (l.finish id result).run? id = none := by
  rw [run?, finish_self]
  rfl

theorem Entry.run? {purpose : Purpose} (h : Entry m id l purpose events l') :
    l'.run? id = purpose.epoch? ∧ l'.running = l.running ∨
      purpose.epoch?.isSome ∧ l'.run? id = none ∧ l'.running = false := by
  cases h with
  | clear => exact .inl ⟨run?_setPhase .., rfl⟩
  | stopped _ => exact .inr ⟨rfl, run?_finish .., rfl⟩
  | finished _ _ _ _ => exact .inr ⟨rfl, run?_finish .., rfl⟩
  | around _ _ _ _ _ => exact .inl ⟨run?_setPhase .., rfl⟩
  | step _ _ hbegins => exact .inl hbegins.run?
  | cancelled _ => exact .inr ⟨rfl, run?_finish .., rfl⟩
  | restart _ => exact .inl ⟨run?_setPhase .., rfl⟩
  | next hbegins => exact .inl hbegins.run?
  | vain _ => exact .inl ⟨run?_finish .., rfl⟩
  | rewind => exact .inl ⟨run?_finish .., rfl⟩

/-- A run goes on, or it begins while there is none, or it is over. -/
theorem Deed.run? (h : Deed m id l events l') :
    l'.run? id = l.run? id ∧ l'.running = l.running ∨
    m.settings.drive = .auto ∧ l.running = false ∧ l.epoch = l'.epoch ∧
      l'.run? id = some l.epoch ∧ l'.running = true ∨
    (l.run? id).isSome ∧ l'.run? id = none ∧ l'.running = false := by
  have hentry {l₁ : Ledger} {purpose : Purpose} (hb : Entry m id l₁ purpose events l')
      (hid : l.run? id = purpose.epoch?) (hrunning : l₁.running = l.running) :
      l'.run? id = l.run? id ∧ l'.running = l.running ∨
      m.settings.drive = .auto ∧ l.running = false ∧ l.epoch = l'.epoch ∧
        l'.run? id = some l.epoch ∧ l'.running = true ∨
      (l.run? id).isSome ∧ l'.run? id = none ∧ l'.running = false := by
    rw [hid, ← hrunning]
    rcases hb.run? with hgo | hover
    · exact .inl hgo
    · exact .inr (.inr hover)
  cases h with
  | start hphase hdrive hrunning =>
    exact .inr (.inl ⟨hdrive, hrunning, rfl, run?_setPhase .., rfl⟩)
  | idle hphase _ => exact .inl ⟨(run?_finish ..).trans (run?_of_phases hphase).symm, rfl⟩
  | ask hphase _ _ => exact .inl ⟨(run?_setPhase ..).trans (run?_of_phases hphase).symm, rfl⟩
  | empty hphase _ => exact .inl ⟨(run?_finish ..).trans (run?_of_phases hphase).symm, rfl⟩
  | lost hphase _ => exact .inl ⟨(run?_finish ..).trans (run?_of_phases hphase).symm, rfl⟩
  | stop hphase => exact .inl ⟨(run?_setPhase ..).trans (run?_of_phases hphase).symm, rfl⟩
  | reset hphase => exact .inl ⟨(run?_setPhase ..).trans (run?_of_phases hphase).symm, rfl⟩
  | animate hphase => exact .inl ⟨(run?_setPhase ..).trans (run?_of_phases hphase).symm, rfl⟩
  | @drop holder index who hphase hhold hne hholder =>
    refine .inl ⟨?_, rfl⟩
    rw [Ledger.run?, letGo_of_ne hne.symm, Ledger.run?]
  | resume hphase hhold hne hholder =>
    exact .inl ⟨(run?_finish ..).trans (run?_of_phases hphase).symm, rfl⟩
  | rest _ _ _ => exact .inl ⟨rfl, rfl⟩
  | permit _ _ _ _ _ _ => exact .inl ⟨rfl, rfl⟩
  | queue hphase _ _ _ => exact .inl ⟨(run?_setPhase ..).trans (run?_of_phases hphase).symm, rfl⟩
  | take hphase _ _ _ hb => exact hentry hb (run?_of_phases hphase) rfl
  | enter hphase _ _ hb => exact hentry hb (run?_of_phases hphase) rfl
  | withdraw hphase _ _ => exact .inl ⟨(run?_setPhase ..).trans (run?_of_phases hphase).symm, rfl⟩
  | wait _ _ _ => exact .inl ⟨rfl, rfl⟩
  | @busy who _ _ _ _ hphase _ =>
    refine .inl ⟨(run?_setPhase ..).trans ?_, rfl⟩
    rw [run?_of_phases hphase]
    cases who <;> rfl
  | ended hphase _ => exact .inl ⟨(run?_setPhase ..).trans (run?_of_phases hphase).symm, rfl⟩
  | executed hphase _ => exact .inl ⟨(run?_finish ..).trans (run?_of_phases hphase).symm, rfl⟩
  | crashed hphase _ =>
    refine .inr (.inr ⟨?_, run?_finish .., rfl⟩)
    rw [run?_of_phases hphase]
    rfl
  | failed hphase _ => exact .inl ⟨(run?_finish ..).trans (run?_of_phases hphase).symm, rfl⟩
  | move hphase _ => exact .inl ⟨(run?_setPhase ..).trans (run?_of_phases hphase).symm, rfl⟩
  | moved hphase _ => exact .inl ⟨(run?_finish ..).trans (run?_of_phases hphase).symm, rfl⟩

theorem Begins.frame (h : Begins m id who l events l') :
    l'.epoch = l.epoch ∧ l'.calls = l.calls := by
  cases h with
  | hold _ _ => exact ⟨rfl, rfl⟩
  | step _ _ _ => exact ⟨rfl, rfl⟩

theorem Entry.frame {purpose : Purpose} (h : Entry m id l purpose events l') :
    l'.epoch = l.epoch ∧ l'.calls = l.calls := by
  cases h with
  | step _ _ hbegins => exact hbegins.frame
  | next hbegins => exact hbegins.frame
  | _ => exact ⟨rfl, rfl⟩

/-- Nobody takes a call to stop back, and no call issues another one. -/
theorem Deed.frame (h : Deed m id l events l') : l.epoch ≤ l'.epoch ∧ l'.calls = l.calls := by
  cases h with
  | stop _ => exact ⟨Nat.le_succ _, rfl⟩
  | take _ _ _ _ hentry => exact ⟨Nat.le_of_eq hentry.frame.1.symm, hentry.frame.2⟩
  | enter _ _ _ hentry => exact ⟨Nat.le_of_eq hentry.frame.1.symm, hentry.frame.2⟩
  | _ => exact ⟨Nat.le_refl _, rfl⟩

theorem Turn.calls_le (h : Turn m l events l') : l.calls ≤ l'.calls := by
  cases h with
  | deed hdeed => exact Nat.le_of_eq hdeed.frame.2.symm
  | issue _ _ => exact Nat.le_succ _
  | outside _ _ _ => exact Nat.le_refl _

/-! ### One run at most -/

/-- There is one run at most, and the machine knows whether there is one. -/
structure Runs (m : Machine) (l : Ledger) : Prop where
  auto : ∀ {id epoch}, l.run? id = some epoch → m.settings.drive = .auto
  running : ∀ {id epoch}, l.run? id = some epoch → l.running = true
  active : l.running = true → ∃ id epoch, l.run? id = some epoch
  unique : ∀ {i j epoch epoch'}, l.run? i = some epoch → l.run? j = some epoch' → i = j
  epoch : ∀ {id epoch}, l.run? id = some epoch → epoch ≤ l.epoch

theorem Runs.congr (h : l.Runs m) (hrun : l'.run? = l.run?) (hrunning : l'.running = l.running)
    (hepoch : l.epoch ≤ l'.epoch) : l'.Runs m where
  auto hid := h.auto (hrun ▸ hid)
  running hid := hrunning.trans (h.running (hrun ▸ hid))
  active hr := hrun ▸ h.active (hrunning ▸ hr)
  unique hi hj := h.unique (hrun ▸ hi) (hrun ▸ hj)
  epoch hid := Nat.le_trans (h.epoch (hrun ▸ hid)) hepoch

theorem Runs.deed (h : l.Runs m) (hdeed : Deed m id l events l') : l'.Runs m := by
  rcases hdeed.run? with ⟨hrun, hrunning⟩ | ⟨hauto, hidle, hepoch, hrun, hrunning⟩ |
    ⟨hsome, hrun, hrunning⟩
  · refine h.congr (funext fun j => ?_) hrunning hdeed.frame.1
    by_cases hj : j = id
    · rw [hj, hrun]
    · exact hdeed.run?_of_ne hj
  · -- a run begins, and there was none before
    have honly {j e : Nat} (hj : l'.run? j = some e) : j = id ∧ e = l.epoch := by
      by_cases hji : j = id
      · rw [hji, hrun] at hj
        exact ⟨hji, (Option.some.inj hj).symm⟩
      · rw [hdeed.run?_of_ne hji] at hj
        rw [h.running hj] at hidle
        cases hidle
    exact ⟨fun _ => hauto, fun _ => hrunning, fun _ => ⟨id, l.epoch, hrun⟩,
      fun hi hj => (honly hi).1.trans (honly hj).1.symm, fun hj => (honly hj).2 ▸ Nat.le_of_eq hepoch⟩
  · -- the only run is over
    obtain ⟨e, he⟩ := Option.isSome_iff_exists.1 hsome
    have hnone {j e' : Nat} (hj : l'.run? j = some e') : False := by
      by_cases hji : j = id
      · rw [hji, hrun] at hj
        cases hj
      · rw [hdeed.run?_of_ne hji] at hj
        exact hji (h.unique hj he)
    refine ⟨fun hj => (hnone hj).elim, fun hj => (hnone hj).elim, fun hr => ?_,
      fun hj => (hnone hj).elim, fun hj => (hnone hj).elim⟩
    rw [hrunning] at hr
    cases hr

theorem Runs.turn (h : l.Runs m) (hturn : Turn m l events l') : l'.Runs m := by
  cases hturn with
  | deed hdeed => exact h.deed hdeed
  | issue call hnone =>
    refine h.congr (funext fun j => ?_) rfl (Nat.le_refl _)
    by_cases hj : j = l.calls
    · rw [hj, run?_of_phases setPhase_self, run?, hnone]
      rfl
    · rw [run?, setPhase_of_ne hj, run?]
  | outside _ _ _ => exact h.congr rfl rfl (Nat.le_refl _)

/-! ### Who has begun a step -/

/-- Only calls that were issued have recorded a milestone, and who is still early has begun no
step. -/
structure Early (l : Ledger) : Prop where
  issued : ∀ e ∈ l.stage.milestones, ∀ id, e.call? = some id → id < l.calls
  phases : ∀ {id phase}, l.phases id = some phase → id < l.calls
  early : ∀ {id phase index}, l.phases id = some phase → phase.isEarly = true →
    .began id index ∉ l.stage.milestones

/-- Nobody is early again. -/
theorem Deed.early (h : Deed m id l events l') {phase' : Phase}
    (hphase' : l'.phases id = some phase') (hearly : phase'.isEarly = true) :
    (∃ phase, l.phases id = some phase ∧ phase.isEarly = true) ∧
      ∀ index, .began id index ∉ events := by
  obtain ⟨phase, hphase, hshift⟩ := h.shift hphase'
  cases hshift with
  | quiet hpasses hevents _ =>
    refine ⟨⟨phase, hphase, ?_⟩, by simp [hevents]⟩
    cases hpasses with
    | start _ => rfl
    | ask _ => rfl
    | rewind _ => rfl
    | animate => rfl
    | seek => exact hearly
    | wait => exact hearly
    | @queue purpose => cases purpose <;> exact hearly
    | @withdraw purpose => cases purpose <;> exact hearly
  | entry hb _ _ =>
    -- the owner of the registers is early no more
    rcases hb.phase_cases hphase' with ⟨_, _, _, rfl⟩ | ⟨_, rfl | rfl⟩ <;> cases hearly
  | drop => cases hearly
  | busy _ _ => cases hearly
  | ended => cases hearly
  | move _ _ => cases hearly

theorem Early.deed (h : l.Early) (hdeed : Deed m id l events l') : l'.Early where
  issued e he j hj := by
    rw [hdeed.frame.2]
    rw [hdeed.milestones, List.mem_append] at he
    rcases he with he | he
    · rcases hdeed.call? e he with hcall | ⟨position, rfl⟩
      · obtain rfl : id = j := Option.some.inj (hcall.symm.trans hj)
        obtain ⟨phase, hphase⟩ := hdeed.present
        exact h.phases hphase
      · cases hj
    · exact h.issued e he j hj
  phases {j phase} hphase := by
    rw [hdeed.frame.2]
    by_cases hj : j = id
    · obtain ⟨old, hold⟩ := hdeed.present
      exact hj ▸ h.phases hold
    · rcases hdeed.other hj with hsame | ⟨who, index, release, -, hholder, -, -⟩
      · exact h.phases (hsame ▸ hphase)
      · exact h.phases hholder
  early {j phase index} hphase hearly := by
    rw [hdeed.milestones, List.mem_append, not_or]
    by_cases hj : j = id
    · subst hj
      obtain ⟨⟨old, hold, hwas⟩, hnone⟩ := hdeed.early hphase hearly
      exact ⟨hnone index, h.early hold hwas⟩
    · constructor
      · intro he
        rcases hdeed.call? _ he with hcall | ⟨position, hpublished⟩
        · exact hj (Option.some.inj hcall)
        · cases hpublished
      · rcases hdeed.other hj with hsame | ⟨who, index, release, -, -, -, hreleased⟩
        · exact h.early (hsame ▸ hphase) hearly
        · rw [hreleased] at hphase
          obtain rfl := Option.some.inj hphase
          cases hearly

theorem Early.turn (h : l.Early) (hturn : Turn m l events l') : l'.Early := by
  cases hturn with
  | deed hdeed => exact h.deed hdeed
  | issue call hnone =>
    refine ⟨fun e he id hid => Nat.lt_succ_of_lt (h.issued e he id hid), ?_, ?_⟩
    · intro id phase hphase
      by_cases hid : id = l.calls
      · exact hid ▸ Nat.lt_succ_self _
      · rw [setPhase_of_ne hid] at hphase
        exact Nat.lt_succ_of_lt (h.phases hphase)
    · intro id phase index hphase hearly hmem
      by_cases hid : id = l.calls
      · exact Nat.lt_irrefl _ (hid ▸ h.issued _ hmem id rfl)
      · rw [setPhase_of_ne hid] at hphase
        exact h.early hphase hearly hmem
  | outside hmilestones _ _ =>
    refine ⟨fun e he => h.issued e (hmilestones ▸ he), h.phases, fun hphase hearly hmem => ?_⟩
    exact h.early hphase hearly (hmilestones ▸ hmem)

end Ledger

/-! ### Reachable configurations -/

namespace Config

variable {m : Machine} {c : Config}

/-- **There is one run at most**, and the machine is marked as running exactly if there is one. -/
theorem Reachable.runs (h : c.Reachable m) : c.ledger.Runs m := by
  refine h.induction (fun driver functions => ?_) fun hruns _ hturn => hruns.turn hturn
  have hnone {id epoch : Nat} (hid : (Config.fresh m driver functions).ledger.run? id = some epoch) :
      False := by
    cases hid
  exact ⟨fun h => (hnone h).elim, fun h => (hnone h).elim, fun h => (nomatch h),
    fun h => (hnone h).elim, fun h => (hnone h).elim⟩

/-- **Whoever is early has begun no step.** -/
theorem Reachable.early (h : c.Reachable m) : c.ledger.Early :=
  h.induction (fun _ _ => ⟨fun _ he => (nomatch he), fun h => (nomatch h), fun h => (nomatch h)⟩)
    fun hearly _ hturn => hearly.turn hturn

end Config

end Timeline
