/-
Timeline/Proofs/Machine/Rewinding.lean

What a rewind leaves behind, and that it stays so.

A rewind puts the registers and the position back and sets all initial values, which
claims their targets.  Main result (`Config.Reachable.rewind_stays`): if nobody else
drives the machine at that moment but a run that the same call has stopped, then
nothing of this changes until somebody calls again, and nothing is recorded but
calls that are over and values that other targets take.  What could still write are
animations that were begun before, and these are superseded; for this all of them
must have begun and hold a claim that their target has seen (`Ledger.Claims`,
`Config.Begun`).
-/
import Timeline.Proofs.Machine.Cancellation
import Timeline.Proofs.Machine.Solo
import Timeline.Proofs.Stage.Generations

namespace Timeline

open Relation

/-! ### The values after a rewind -/

/-- **A rewind claims all initial values.**  Every target of an initial value that is known takes
that value, and its generation rises; all other targets stay as they are. -/
theorem Machine.get?_slots_restored (m : Machine) (hnames : m.initial.names.Nodup) (s : Stage)
    (target : String) : (m.restored s).driver.slots.get? target
      = match m.initial.get? target with
        | some value =>
          (s.driver.slots.get? target).map fun slot => ⟨value, slot.generation + 1⟩
        | none => s.driver.slots.get? target := by
  unfold Machine.restored Table.names at *
  rw [Table.get?.eq_def m.initial]
  generalize m.initial.entries = entries at hnames
  induction entries generalizing s with
  | nil => rfl
  | cons entry rest ih =>
    obtain ⟨hnot, hrest⟩ := List.nodup_cons.1 hnames
    rw [List.foldl_cons, ih _ hrest]
    show (match rest.lookup target with
      | some value => ((s.set entry.1 entry.2).2.driver.slots.get? target).map _
      | none => (s.set entry.1 entry.2).2.driver.slots.get? target) = _
    rw [Stage.get?_slots_set, List.lookup_cons]
    by_cases htarget : target = entry.1
    · -- the target is set by this entry, and by none after it
      have hlookup : rest.lookup target = none := by
        rw [List.lookup_eq_none_iff]
        intro other hother
        refine bne_iff_ne.2 ?_
        rintro rfl
        exact hnot (htarget ▸ List.mem_map_of_mem hother)
      rw [hlookup, if_pos htarget, htarget, beq_self_eq_true]
    · have hne : (target == entry.1) = false := by simpa using htarget
      rw [if_neg htarget, hne]

/-! ### Animations from outside -/

/-- The rides of a batch have not begun. -/
theorem Convoy.busy_ofBatch {batch : List (String × Animation Float)} {r : Ride}
    (h : .busy r ∈ Convoy.ofBatch batch) : ∃ target animation, r = .ahead target animation := by
  obtain ⟨⟨target, animation⟩, -, he⟩ := List.mem_map.1 h
  cases he
  exact ⟨target, animation, rfl⟩

namespace Ledger

variable {m : Machine} {l l' : Ledger} {id : Nat} {events : List Event}

theorem Begins.driver {who : Stepper} (h : Begins m id who l events l') :
    l'.stage.driver = l.stage.driver := by
  cases h with
  | hold _ _ => rfl
  | step _ _ _ => rfl

theorem Entry.touched {purpose : Purpose} (h : Entry m id l purpose events l') :
    l.stage.driver.Touched l'.stage.driver := by
  cases h with
  | step _ _ hb => rw [hb.driver]
  | next hb => rw [hb.driver]
  | rewind =>
    have hacts := Stage.Acts.restore (B := .free) m.initial.entries l.stage
    exact hacts.touched
  | _ => exact .refl

/-- What a deed does to the driver are claims and writes. -/
theorem Deed.touched (h : Deed m id l events l') : l.stage.driver.Touched l'.stage.driver := by
  have hactivity {activity : Activity} {s : Stage} {p : Progress Activity _}
      (hp : activity.poll l.stage = (s, p)) : l.stage.driver.Touched s.driver :=
    (Activity.poll_acts hp).touched
  have hconvoy {convoy : Convoy} {s : Stage} {p : Progress Convoy _}
      (hp : convoy.poll false l.stage = (s, p)) : l.stage.driver.Touched s.driver :=
    (Convoy.poll_acts hp).touched
  cases h with
  | take _ _ _ _ hb => exact (hb.touched :)
  | enter _ _ _ hb => exact (hb.touched :)
  | busy _ hp => exact (hactivity hp :)
  | ended _ hp => exact (hactivity hp :)
  | executed _ hp => exact (hactivity hp :)
  | crashed _ hp => exact (hactivity hp :)
  | failed _ hp => exact (hactivity hp :)
  | move _ hp => exact (hconvoy hp :)
  | moved _ hp => exact (hconvoy hp :)
  | _ => exact .refl

/-- Animations from outside are about to begin, or they are under way. -/
theorem Deed.moving (h : Deed m id l events l') {convoy' : Convoy}
    (hphase' : l'.phases id = some (.moving convoy')) :
    (∃ batch, l.phases id = some (.issued (.animate batch)) ∧ convoy' = .ofBatch batch) ∨
    ∃ convoy s, l.phases id = some (.moving convoy) ∧
      convoy.poll false l.stage = (s, .busy convoy') ∧ l'.stage = s.nextTurn := by
  obtain ⟨phase, hphase, hshift⟩ := h.shift hphase'
  cases hshift with
  | quiet hpasses _ _ =>
    cases hpasses with
    | animate => exact .inl ⟨_, hphase, rfl⟩
  | entry hb _ _ =>
    rcases hb.phase_cases hphase' with ⟨_, _, _, hx⟩ | ⟨_, hx | hx⟩ <;> cases hx
  | move hp hstage => exact .inr ⟨_, _, hphase, hp, hstage⟩

/-- All animations from outside that have begun hold claims that their targets have seen. -/
def Claims (l : Ledger) : Prop :=
  ∀ id convoy, l.phases id = some (.moving convoy) →
    ∀ r, .busy r ∈ convoy → r.Claimed l.stage.driver

theorem Claims.deed (h : l.Claims) (hdeed : Deed m id l events l') : l'.Claims := by
  intro j convoy' hphase' r hr
  by_cases hj : j = id
  · subst hj
    rcases hdeed.moving hphase' with ⟨batch, -, rfl⟩ | ⟨convoy, s, hphase, hp, hstage⟩
    · obtain ⟨target, animation, rfl⟩ := Convoy.busy_ofBatch hr
      trivial
    · have hkept := (Convoy.keeps (Ride.poll_keeps false) (h j convoy hphase)).2 convoy'
        (by rw [hp]) r hr
      rw [hp] at hkept
      rw [hstage]
      exact hkept
  · rcases hdeed.other hj with hsame | ⟨_, _, _, -, -, -, hreleased⟩
    · exact (h j convoy' (hsame ▸ hphase') r hr).mono hdeed.touched.precedes
    · cases hreleased.symm.trans hphase'

end Ledger

namespace Config

variable {m : Machine} {c c' : Config} {id : Nat}

theorem Reachable.claims (h : c.Reachable m) : c.ledger.Claims := by
  obtain ⟨driver, functions, hmoves⟩ := h
  induction hmoves with
  | refl => exact fun _ _ hphase => (nomatch hphase)
  | @tail c c' hmoves hmove ih =>
    have hordered := Reachable.ordered (m := m) ⟨driver, functions, hmoves⟩
    cases hmove with
    | step =>
      rcases hready : c.ready with - | ⟨id, rest⟩
      · rw [step_of_idle hready]
        exact ih
      · obtain ⟨events, hdeed⟩ := hordered.deed (m := m) hready
        exact ih.deed hdeed
    | issue call =>
      have hnone : c.phase? c.calls = none := role_eq_absent_iff.1 (hordered.fresh _ (Nat.le_refl _))
      rw [ledger_issue hnone]
      intro j convoy hphase r hr
      by_cases hj : j = c.calls
      · subst hj
        cases Ledger.setPhase_self.symm.trans hphase
      · rw [Ledger.setPhase_of_ne hj] at hphase
        exact ih j convoy hphase r hr
    | @tick due _ _ =>
      obtain ⟨ready, hready⟩ := c.tick_eq due
      rw [hready]
      exact ih
    | wait _ _ _ => exact ih
    | write target value =>
      exact fun j convoy hphase r hr => (ih j convoy hphase r hr).mono
        (Stage.Acts.set (B := .free) c.stage target value).touched.precedes
    | register _ => exact ih

/-- All animations from outside have begun, but for those of a call that is going on. -/
def Begun (c : Config) : Prop :=
  ∀ id convoy, c.phase? id = some (.moving convoy) → c.ready.head? ≠ some id →
    ∀ r, .busy r ∈ convoy → r.alarm?.isSome

theorem Begun.step (h : c.Begun) (hordered : c.Ordered) : (c.step m).Begun := by
  rcases hready : c.ready with - | ⟨id, rest⟩
  · rw [step_of_idle hready]
    intro j convoy hphase _ r hr
    exact h j convoy hphase (by rw [hready]; simp) r hr
  · obtain ⟨events, hdeed⟩ := hordered.deed (m := m) hready
    intro j convoy hphase hhead r hr
    by_cases hj : j = id
    · subst hj
      rcases hdeed.moving hphase with ⟨batch, hissued, rfl⟩ | ⟨before, s, hmoving, hp, -⟩
      · -- whoever has just come keeps its place
        refine absurd ?_ hhead
        rw [step_of_ready hready hissued]
        show c.ready.head? = some j
        rw [hready]
        rfl
      · have hafter : (before.poll false c.ledger.stage).2 = .busy convoy := by rw [hp]
        exact Convoy.isSome_alarm?_of_poll_busy hafter hr
    · have hnot : c.ready.head? ≠ some j := by
        rw [hready]
        exact fun he => hj (Option.some.inj he).symm
      rcases hdeed.other hj with hsame | ⟨_, _, _, -, -, -, hreleased⟩
      · exact h j convoy (hsame.symm.trans hphase) hnot r hr
      · cases hreleased.symm.trans hphase

theorem Reachable.begun (h : c.Reachable m) : c.Begun := by
  obtain ⟨driver, functions, hmoves⟩ := h
  induction hmoves with
  | refl => exact fun _ _ hphase => (nomatch hphase)
  | @tail c c' hmoves hmove ih =>
    have hordered := Reachable.ordered (m := m) ⟨driver, functions, hmoves⟩
    -- nobody is going on, so that all animations have begun
    have hquiet (hq : c.quiet) : ∀ id convoy, c.phase? id = some (.moving convoy) →
        ∀ r, .busy r ∈ convoy → r.alarm?.isSome := fun id convoy hphase =>
      ih id convoy hphase (by rw [(ready_of_quiet hq).1]; simp)
    cases hmove with
    | step => exact ih.step hordered
    | issue call =>
      have hnone : c.phase? c.calls = none := role_eq_absent_iff.1 (hordered.fresh _ (Nat.le_refl _))
      intro j convoy hphase hhead r hr
      rw [phase?_issue hnone] at hphase
      by_cases hj : j = c.calls
      · subst hj
        rw [Function.update_self] at hphase
        cases hphase
      · rw [Function.update_of_ne hj] at hphase
        refine ih j convoy hphase (fun hwas => hhead ?_) r hr
        rw [Config.issue, List.head?_append, hwas]
        rfl
    | @tick due hq _ =>
      obtain ⟨ready, hready⟩ := c.tick_eq due
      rw [hready]
      exact fun j convoy hphase _ r hr => hquiet hq j convoy hphase r hr
    | wait hq _ _ => exact fun j convoy hphase _ r hr => hquiet hq j convoy hphase r hr
    | write _ _ => exact ih
    | register _ => exact ih

end Config

/-! ### The moment of a rewind -/

namespace Ledger

variable {m : Machine} {base l l' : Ledger} {id s : Nat} {events : List Event}

/-- A ledger right after a rewind. -/
structure Rewinds (m : Machine) (id : Nat) (l l' : Ledger) : Prop where
  before : l.hold = none
  free : l.lock.owner = none ∨ l.lock.owner = some id
  registers : l'.registers = {}
  hold : l'.hold = none
  position : l'.stage.position = m.position 0
  driver : l'.stage.driver = (m.restored l.stage.spend).driver
  epoch : l'.epoch = l.epoch
  phases : l'.phases = Function.update l.phases id none

/-- A rewind is done by the call that records it, while it owns the registers. -/
theorem Deed.rewinds (h : Deed m id l events l') (hmem : .rewound s ∈ events) :
    s = id ∧ Rewinds m id l l' := by
  have hbegins {l₁ : Ledger} {who : Stepper} (hb : Begins m id who l₁ events l') : False := by
    cases hb <;> simp at hmem
  have hentry {l₁ : Ledger} {purpose : Purpose} (hb : Entry m id l₁ purpose events l')
      (hbefore : l.hold = none) (hfree : l.lock.owner = none ∨ l.lock.owner = some id)
      (hstage : l₁.stage = l.stage.spend) (hhold : l₁.hold = l.hold) (hepoch : l₁.epoch = l.epoch)
      (hphases : l₁.phases = l.phases) : s = id ∧ Rewinds m id l l' := by
    cases hb with
    | step _ _ hb => exact (hbegins hb).elim
    | next hb => exact (hbegins hb).elim
    | rewind =>
      refine ⟨by simpa using hmem, hbefore, hfree, rfl, hhold.trans hbefore, rfl, ?_, hepoch, ?_⟩
      · rw [← hstage]
        rfl
      · rw [← hphases]
        rfl
    | _ => simp at hmem
  cases h with
  | take _ _ hfree hhold hb => exact hentry hb hhold (.inl hfree) rfl rfl rfl rfl
  | enter _ howner hhold hb => exact hentry hb hhold (.inr howner) rfl rfl rfl rfl
  | _ => simp at hmem

/-! ### Whoever is left after a rewind -/

/-- Whoever may be left after a rewind: animations that are superseded, and runs that were stopped
and execute no step. -/
def Lingers (names : List String) (l : Ledger) : Phase → Prop
  | .moving convoy => ∀ r, .busy r ∈ convoy → r.Superseded names l.stage.driver
  | .seeking purpose | .queued purpose => ∃ epoch, purpose.epoch? = some epoch ∧ epoch < l.epoch
  | _ => False

theorem Lingers.mono {names : List String} {phase : Phase} (h : l.Lingers names phase)
    (hstage : l.stage.Spares names l'.stage) (hepoch : l.epoch ≤ l'.epoch) :
    l'.Lingers names phase := by
  cases phase with
  | moving convoy => exact fun r hr => (h r hr).mono hstage
  | seeking purpose =>
    obtain ⟨epoch, he, hlt⟩ := h
    exact ⟨epoch, he, Nat.lt_of_lt_of_le hlt hepoch⟩
  | queued purpose =>
    obtain ⟨epoch, he, hlt⟩ := h
    exact ⟨epoch, he, Nat.lt_of_lt_of_le hlt hepoch⟩
  | _ => exact h

/-- Nothing has changed since a rewind. -/
structure Stays (names : List String) (base l : Ledger) : Prop where
  registers : l.registers = {}
  hold : l.hold = none
  stage : base.stage.Spares names l.stage
  phases : ∀ id phase, l.phases id = some phase → l.Lingers names phase

/-- A call goes over to another phase, or is over. -/
theorem Stays.update {names : List String} (h : Stays names base l) {x : Option Phase}
    (hregisters : l'.registers = {}) (hhold : l'.hold = none)
    (hstage : l.stage.Spares names l'.stage) (hepoch : l.epoch ≤ l'.epoch)
    (hphases : l'.phases = Function.update l.phases id x)
    (hx : ∀ phase, x = some phase → l'.Lingers names phase) : Stays names base l' where
  registers := hregisters
  hold := hhold
  stage := h.stage.trans hstage
  phases j phase hphase := by
    rw [hphases] at hphase
    by_cases hj : j = id
    · subst hj
      rw [Function.update_self] at hphase
      exact hx phase hphase
    · rw [Function.update_of_ne hj] at hphase
      exact (h.phases j phase hphase).mono hstage hepoch

/-- A run that was stopped and becomes the owner of the registers leaves them as they are. -/
theorem Stays.entry {names : List String} (h : Stays names base l) {l₁ : Ledger}
    {purpose : Purpose} (hb : Entry m id l₁ purpose events l') {epoch : Nat}
    (hpurpose : purpose.epoch? = some epoch) (hlt : epoch < l.epoch)
    (hregisters : l₁.registers = l.registers) (hhold : l₁.hold = l.hold)
    (hstage : l₁.stage = l.stage.spend) (hepoch : l₁.epoch = l.epoch)
    (hphases : l₁.phases = l.phases) : Stays names base l' := by
  have hspent : l.stage.Spares names l₁.stage := by
    rw [hstage]
    exact .of_eq rfl rfl rfl
  have hclean : l₁.registers = {} := hregisters.trans h.registers
  have hfree : l₁.hold = none := hhold.trans h.hold
  have hle : l.epoch ≤ l₁.epoch := Nat.le_of_eq hepoch.symm
  -- the run is told that it was stopped
  have hnot {e : Nat} (he : l₁.epoch = e) (hp : some e = some epoch) : False := by
    cases hp
    rw [hepoch] at he
    exact Nat.lt_irrefl _ (he ▸ hlt)
  have hover : l.stage.Spares names (l₁.unlock.finishRun id (.ok ())).stage :=
    hspent.trans ⟨fun _ _ => rfl, rfl, [_], rfl, by simp⟩
  have hupdate {x : Option Phase} :
      Function.update l₁.phases id x = Function.update l.phases id x := by rw [hphases]
  cases hb with
  | clear =>
    cases hpurpose
    refine h.update ?_ hfree hspent hle hupdate fun phase hphase => ?_
    · show { l₁.registers with stopped := false } = _
      rw [hclean]
    · cases hphase
      exact ⟨epoch, rfl, Nat.lt_of_lt_of_le hlt hle⟩
  | stopped _ => exact h.update hclean hfree hover hle hupdate (by simp)
  | cancelled _ => exact h.update hclean hfree hover hle hupdate (by simp)
  | finished he _ _ _ => exact (hnot he hpurpose).elim
  | around he _ _ _ _ => exact (hnot he hpurpose).elim
  | step he _ _ => exact (hnot he hpurpose).elim
  | restart he => exact (hnot he hpurpose).elim
  | next _ => cases hpurpose
  | vain _ => cases hpurpose
  | rewind => cases hpurpose

/-- **After a rewind nothing changes** by what those do who are left. -/
theorem Stays.deed {names : List String} (h : Stays names base l) (hdeed : Deed m id l events l') :
    Stays names base l' := by
  have hturn : l.stage.Spares names l.block.stage := .of_eq rfl rfl rfl
  cases hdeed with
  | rest hphase _ _ =>
    exact h.update h.registers h.hold hturn (Nat.le_refl _) (Function.update_eq_self ..).symm
      fun phase hp => (h.phases id phase hp).mono hturn (Nat.le_refl _)
  | wait hphase _ _ =>
    exact h.update h.registers h.hold hturn (Nat.le_refl _) (Function.update_eq_self ..).symm
      fun phase hp => (h.phases id phase hp).mono hturn (Nat.le_refl _)
  | @permit purpose hphase _ _ _ hrelease _ =>
    obtain ⟨epoch, he, -⟩ := h.phases id _ hphase
    cases purpose with
    | next _ => cases he
    | rewind => cases he
    | _ => cases hrelease
  | queue hphase _ _ _ =>
    refine h.update h.registers h.hold hturn (Nat.le_refl _) rfl fun phase hp => ?_
    cases hp
    exact h.phases id _ hphase
  | withdraw hphase _ _ =>
    refine h.update h.registers h.hold (.refl names _) (Nat.le_refl _) rfl fun phase hp => ?_
    cases hp
    exact h.phases id _ hphase
  | take hphase _ _ _ hb =>
    obtain ⟨epoch, he, hlt⟩ := h.phases id _ hphase
    exact h.entry hb he hlt rfl rfl rfl rfl rfl
  | enter hphase _ _ hb =>
    obtain ⟨epoch, he, hlt⟩ := h.phases id _ hphase
    exact h.entry hb he hlt rfl rfl rfl rfl rfl
  | @move convoy convoy' s hphase hp =>
    obtain ⟨hspares, hall⟩ := Convoy.keeps (Ride.poll_spares names) (h.phases id _ hphase)
    rw [hp] at hspares hall
    refine h.update h.registers h.hold (hspares.trans (.of_eq rfl rfl rfl)) (Nat.le_refl _) rfl
      fun phase hx => ?_
    cases hx
    exact fun r hr => hall convoy' rfl r hr
  | @moved convoy s result hphase hp =>
    obtain ⟨hspares, -⟩ := Convoy.keeps (Ride.poll_spares names) (h.phases id _ hphase)
    rw [hp] at hspares
    exact h.update h.registers h.hold
      (hspares.trans ⟨fun _ _ => rfl, rfl, [_], rfl, by simp⟩) (Nat.le_refl _) rfl (by simp)
  | drop _ hsome _ _ => cases h.hold.symm.trans hsome
  | resume _ hsome _ _ => cases h.hold.symm.trans hsome
  | _ => cases h.phases id _ ‹l.phases id = some _›

end Ledger

namespace Config

variable {m : Machine} {c₀ c c' : Config} {s id : Nat} {events : List Event}

/-- What a rewind has put back is as in the beginning: the registers, the hold, the position, and
the initial values of all targets that a driver knows. -/
structure AsNew (m : Machine) (known : Driver Float) (c : Config) : Prop where
  registers : c.registers = {}
  hold : c.hold = none
  position : c.stage.position = m.position 0
  values : ∀ target value, m.initial.get? target = some value → (known.get? target).isSome →
    c.stage.driver.get? target = some value

/-- A call was an active run when another one was heard that stops the machine. -/
def StoppedBy (m : Machine) (s id : Nat) (c : Config) : Prop :=
  ∃ (c₁ : Config) (rest : List Nat), c₁.Reachable m ∧ c₁.ready = s :: rest ∧
    c₁.phase? s = some (.issued .stop) ∧ (c₁.ledger.run? id).isSome ∧
    ReflTransGen (Move m) (c₁.step m) c

/-- A run that was stopped stays so. -/
theorem StoppedBy.epoch_lt (h : c.StoppedBy m s id) {phase : Phase}
    (hphase : c.phase? id = some phase) : ∃ epoch, phase.epoch? = some epoch ∧ epoch < c.epoch := by
  obtain ⟨c₁, rest, hreach, hready, hstop, hrun, hmoves⟩ := h
  obtain ⟨epoch, hepoch⟩ := Option.isSome_iff_exists.1 hrun
  obtain ⟨before, hbefore, hactive⟩ := Option.bind_eq_some_iff.1 hepoch
  have hne : id ≠ s := by
    rintro rfl
    cases hbefore.symm.trans hstop
    cases hactive
  have hstep : (c₁.step m).phase? id = some before := by
    show (c₁.step m).ledger.phases id = _
    rw [ledger_step_stop hready hstop, Ledger.setPhase_of_ne hne]
    exact hbefore
  obtain ⟨hlt, since, -, hwinds⟩ := hreach.winding hstep hactive hmoves hready hstop
  rw [show c.ledger.phases id = some phase from hphase] at hwinds
  generalize Ledger.ofCall id since = events at hwinds
  cases hwinds with
  | going hrun _ => exact ⟨epoch, hrun, hlt⟩
  | ended _ hrun _ => exact ⟨epoch, hrun, hlt⟩

/-- What happens after a rewind while nobody calls changes nothing. -/
theorem stays_of_undisturbed {names : List String} {base : Ledger}
    (h : Ledger.Stays names base c.ledger) (hordered : c.Ordered) (hmove : Undisturbed m c c') :
    Ledger.Stays names base c'.ledger := by
  have hclock (time : Nat) {c₁ : Config}
      (hledger : c₁.ledger = { c.ledger with stage := { c.stage with now := time } }) :
      Ledger.Stays names base c₁.ledger := by
    rw [hledger]
    have hspares : c.ledger.stage.Spares names { c.stage with now := time } := .of_eq rfl rfl rfl
    exact ⟨h.registers, h.hold, h.stage.trans hspares, fun id phase hphase =>
      (h.phases id phase hphase).mono hspares (Nat.le_refl _)⟩
  cases hmove with
  | step =>
    rcases hready : c.ready with - | ⟨id, rest⟩
    · rw [step_of_idle hready]
      exact h
    · obtain ⟨events, hdeed⟩ := hordered.deed (m := m) hready
      exact h.deed hdeed
  | @tick due _ _ =>
    obtain ⟨ready, hready⟩ := c.tick_eq due
    refine hclock due ?_
    rw [hready]
    rfl
  | wait _ _ _ => exact hclock _ rfl

/-- What happens while nobody calls changes nothing. -/
theorem stays_of_moves {names : List String} {base : Ledger} (h : c₀.Reachable m)
    (hstays : Ledger.Stays names base c₀.ledger) (hmoves : ReflTransGen (Undisturbed m) c₀ c) :
    Ledger.Stays names base c.ledger := by
  induction hmoves with
  | refl => exact hstays
  | tail hmoves hmove ih =>
    have hordered := (h.moves (hmoves.lift id fun _ _ hmove => hmove.move)).ordered
    exact stays_of_undisturbed ih hordered hmove

theorem AsNew.of_stays {known : Driver Float} (h : AsNew m known c)
    (hstays : Ledger.Stays m.initial.names c.ledger c'.ledger) : AsNew m known c' where
  registers := hstays.registers
  hold := hstays.hold
  position := hstays.stage.position.trans h.position
  values target value hvalue hknown := by
    have hmem : target ∈ m.initial.names := Table.mem_names_of_get? hvalue
    rw [Driver.get?, show c'.stage.driver.slots.get? target = _ from hstays.stage.slots target hmem]
    exact h.values target value hvalue hknown

/-- A rewind is the work of the call that goes on. -/
theorem Ordered.rewinds (h : c₀.Ordered)
    (hevents : (c₀.step m).stage.milestones = events ++ c₀.stage.milestones)
    (hrewound : .rewound s ∈ events) :
    c₀.ready.head? = some s ∧ Ledger.Rewinds m s c₀.ledger (c₀.step m).ledger := by
  rcases hready : c₀.ready with - | ⟨id, rest⟩
  · rw [step_of_idle hready] at hevents
    rw [List.self_eq_append_left.1 hevents] at hrewound
    cases hrewound
  · obtain ⟨events', hdeed⟩ := h.deed (m := m) hready
    obtain rfl : events' = events :=
      List.append_cancel_right (hdeed.milestones.symm.trans hevents)
    obtain ⟨rfl, hrewinds⟩ := hdeed.rewinds hrewound
    exact ⟨rfl, hrewinds⟩

section Rewinds

variable (hrewinds : Ledger.Rewinds m s c₀.ledger (c₀.step m).ledger)

include hrewinds

theorem get?_slots_of_rewinds (hnames : m.initial.names.Nodup) (target : String) :
    (c₀.step m).stage.driver.slots.get? target
      = match m.initial.get? target with
        | some value =>
          (c₀.stage.driver.slots.get? target).map fun slot => ⟨value, slot.generation + 1⟩
        | none => c₀.stage.driver.slots.get? target := by
  have hdriver : (c₀.step m).stage.driver = (m.restored c₀.stage.spend).driver := hrewinds.driver
  rw [hdriver, m.get?_slots_restored hnames]
  rfl

theorem asNew_of_rewinds (hnames : m.initial.names.Nodup) :
    AsNew m c₀.stage.driver (c₀.step m) := by
  refine ⟨hrewinds.registers, hrewinds.hold, hrewinds.position, fun target value hvalue hknown => ?_⟩
  obtain ⟨x, hx⟩ := Option.isSome_iff_exists.1 hknown
  obtain ⟨slot, hslot, -⟩ := Option.map_eq_some_iff.1 hx
  rw [Driver.get?, get?_slots_of_rewinds hrewinds hnames, hvalue, hslot]
  rfl

/-- Animations that have begun hold older claims. -/
theorem superseded_of_rewinds (hnames : m.initial.names.Nodup) {r : Ride}
    (hclaimed : r.Claimed c₀.stage.driver) (hbegun : r.alarm?.isSome) :
    r.Superseded m.initial.names (c₀.step m).stage.driver := by
  cases r with
  | ahead _ _ => cases hbegun
  | moving motion next =>
    intro hmem g hg
    obtain ⟨g₀, hg₀, hle⟩ := hclaimed
    obtain ⟨slot, hslot, rfl⟩ := Option.map_eq_some_iff.1 hg₀
    obtain ⟨value, hvalue⟩ : ∃ value, m.initial.get? motion.target = some value := by
      rw [Table.mem_names_iff] at hmem
      exact Option.isSome_iff_exists.1 hmem
    have hraised : (c₀.step m).stage.driver.generation? motion.target
        = some (slot.generation + 1) := by
      rw [Driver.generation?, get?_slots_of_rewinds hrewinds hnames, hvalue, hslot]
      rfl
    obtain rfl := Option.some.inj (hraised.symm.trans hg)
    exact Nat.lt_succ_of_le hle

/-- A run that was stopped executes no step, since somebody else owned the registers. -/
theorem lingers_of_stoppedBy {names : List String} {phase : Phase} (hordered : c₀.Ordered)
    (hstopped : c₀.StoppedBy m s id) (hphase : c₀.phase? id = some phase) (hne : id ≠ s) :
    (c₀.step m).ledger.Lingers names phase := by
  obtain ⟨epoch, hepoch, hlt⟩ := hstopped.epoch_lt hphase
  have hlt' : epoch < (c₀.step m).ledger.epoch := hrewinds.epoch ▸ hlt
  cases phase with
  | issued _ => cases hepoch
  | moving _ => cases hepoch
  | seeking purpose => exact ⟨epoch, hepoch, hlt'⟩
  | queued purpose => exact ⟨epoch, hepoch, hlt'⟩
  | stepping who index activity =>
    have howner := hordered.owner_of_stepping hphase
    rcases hrewinds.free with hfree | hfree
    · cases howner.symm.trans hfree
    · exact absurd (Option.some.inj (howner.symm.trans hfree)) hne

/-- Whoever is left cannot change what the rewind has put back. -/
theorem Reachable.stays_of_rewinds (h : c₀.Reachable m) (hnames : m.initial.names.Nodup)
    (hhead : c₀.ready.head? = some s)
    (hleft : ∀ id phase, (c₀.step m).phase? id = some phase →
      (∃ convoy, phase = .moving convoy) ∨ c₀.StoppedBy m s id) :
    Ledger.Stays m.initial.names (c₀.step m).ledger (c₀.step m).ledger := by
  refine ⟨hrewinds.registers, hrewinds.hold, .refl _ _, fun id phase hphase => ?_⟩
  have hne : id ≠ s := by
    rintro rfl
    rw [hrewinds.phases, Function.update_self] at hphase
    cases hphase
  have hbefore : c₀.phase? id = some phase := by
    rw [hrewinds.phases, Function.update_of_ne hne] at hphase
    exact hphase
  rcases hleft id phase hphase with ⟨convoy, rfl⟩ | hstopped
  · intro r hr
    have hbegun := h.begun id convoy hbefore
      (fun he => hne (Option.some.inj (hhead.symm.trans he)).symm) r hr
    exact superseded_of_rewinds hrewinds hnames (h.claims id convoy hbefore r hr) hbegun
  · exact lingers_of_stoppedBy hrewinds h.ordered hstopped hbefore hne

end Rewinds

/-- **A rewind is complete and stays.**  When a rewind is done, the registers are as in the
beginning, no hold is parked, the position is that of the first step, and all initial values stand
again whose targets are known.  If nobody else is left then but animations from outside and runs
that were active when the same call was heard as a call to stop, none of this changes as long as
nobody calls or writes; no step begins, and nothing is recorded but calls that are over and values
that other targets take. -/
theorem Reachable.rewind_stays (h : c₀.Reachable m) (hnames : m.initial.names.Nodup)
    (hevents : (c₀.step m).stage.milestones = events ++ c₀.stage.milestones)
    (hrewound : .rewound s ∈ events) :
    AsNew m c₀.stage.driver (c₀.step m) ∧
    ((∀ id phase, (c₀.step m).phase? id = some phase →
        (∃ convoy, phase = .moving convoy) ∨ c₀.StoppedBy m s id) →
      ∀ c, ReflTransGen (Undisturbed m) (c₀.step m) c → AsNew m c₀.stage.driver c ∧
        ∃ new, c.stage.journal = new ++ (c₀.step m).stage.journal ∧
          ∀ r ∈ new, (∃ id result, r.event = .returned id result) ∨
            ∃ target value, r.event = .wrote target value ∧ target ∉ m.initial.names) := by
  obtain ⟨hhead, hrewinds⟩ := h.ordered.rewinds hevents hrewound
  have hnew := asNew_of_rewinds hrewinds hnames
  refine ⟨hnew, fun hleft c hmoves => ?_⟩
  have hstays := stays_of_moves (h.move .step)
    (h.stays_of_rewinds hrewinds hnames hhead hleft) hmoves
  exact ⟨hnew.of_stays hstays, hstays.stage.journal⟩

/-! ### A call to stop while a run holds -/

/-- A machine that holds and comments, with one value to restore and one that no driver knows. -/
def holdComment : Machine where
  program := ⟨[⟨{ action := .hold }, none⟩, ⟨{ action := .comment "held" }, none⟩], {}⟩
  initial := ⟨[("x", 1), ("y", 2)]⟩

/-- A run holds, somebody writes the target, and a call to stop has come. -/
def stoppingHold : Config :=
  let held := ((fresh holdComment (.ofValues [("x", 1)] 16) {}).issue .start).settle holdComment 20
  { held with stage := (held.stage.set "x" 5).2 }.issue .stop

/-- The hold is over, and the call to stop owns the registers. -/
def beforeRewind : Config :=
  (stoppingHold.step holdComment).settle holdComment 5

theorem reachable_stoppingHold : stoppingHold.Reachable holdComment :=
  ((((Reachable.fresh _ _).issue .start).settle 20).move (.write "x" 5)).issue .stop

/-- The call to stop was heard while the run was active. -/
theorem stoppedBy_beforeRewind : (beforeRewind.step holdComment).tasks.map Prod.fst = [0] ∧
    beforeRewind.StoppedBy holdComment 1 0 := by
  refine ⟨by cbv, stoppingHold, [], reachable_stoppingHold, by cbv, by cbv, by cbv, ?_⟩
  exact (undisturbed_settle .refl 5).lift id fun _ _ hmove => hmove.move

theorem rewind_stays_holdComment : AsNew holdComment beforeRewind.stage.driver
      ((beforeRewind.step holdComment).settle holdComment 20) ∧
    (beforeRewind.stage.driver.get? "x").isSome := by
  have hreach : beforeRewind.Reachable holdComment :=
    (reachable_stoppingHold.move .step).settle 5
  obtain ⟨htasks, hstopped⟩ := stoppedBy_beforeRewind
  have hevents : (beforeRewind.step holdComment).stage.milestones
      = [.returned 1 (.ok ()), .rewound 1, .published ⟨0, "hold-0"⟩]
        ++ beforeRewind.stage.milestones := by cbv
  have hrewound : Event.rewound 1 ∈
      [.returned 1 (.ok ()), .rewound 1, .published ⟨0, "hold-0"⟩] := by simp
  refine ⟨((hreach.rewind_stays (by simp [holdComment, Table.names]) hevents hrewound).2
    (fun id phase hphase => ?_) _ (undisturbed_settle .refl 20)).1, by cbv⟩
  obtain ⟨task, htask, hid⟩ := List.lookup_isSome_iff.1 (Option.isSome_of_eq_some hphase)
  obtain rfl : id = task.1 := by simpa using hid
  have hmem := List.mem_map_of_mem (f := Prod.fst) htask
  rw [htasks, List.mem_singleton] at hmem
  rw [hmem]
  exact .inr hstopped

end Config

end Timeline
