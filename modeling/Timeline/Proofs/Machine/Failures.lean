/-
Timeline/Proofs/Machine/Failures.lean

A step that fails leaves the machine where it was.

Between the moment at which a step begins and the one at which it fails only the call that
executes it changes the registers, and it does so only if it cannot fail any more.  `Executing`
is what is known of a step from its begin on; it holds of whatever is executed
(`Config.Reachable.executing`).  Once the step has failed nobody moves the cursor until a step
begins, a run begins another pass or the machine is rewound (`Config.Reachable.stays`).

Main result (`Config.Reachable.failure_leaves`): the registers, the position and the values after
a failure, the next step that begins, and the call for a step at an unknown label, which changes
nothing.
-/
import Timeline.Proofs.Machine.Accounting
import Timeline.Proofs.Machine.Passes
import Timeline.Proofs.Machine.Sparing
import Timeline.Proofs.Machine.Strides

namespace Timeline

open Relation

/-- Whether an event moves the cursor, or begins a step, while none is executed. -/
def Event.redirects : Event → Bool
  | .began _ _ | .restarted _ | .rewound _ => true
  | _ => false

namespace Ledger

variable {m : Machine} {l l' : Ledger} {id i : Nat} {who : Stepper} {events : List Event}

/-! ### What deeds do to the values and the position -/

theorem Begins.refrains (h : Begins m id who l events l') : l.stage.Refrains l'.stage := by
  cases h with
  | hold _ _ => exact ⟨rfl, fun _ => rfl⟩
  | step _ _ _ => exact ⟨rfl, fun _ => rfl⟩

/-- Whoever has become the owner of the registers spares the values, unless the machine is
rewound. -/
theorem Entry.refrains {purpose : Purpose} (h : Entry m id l purpose events l')
    (hrewound : .rewound id ∉ events) : l.stage.Refrains l'.stage := by
  cases h with
  | step _ _ hb => exact hb.refrains
  | next hb => exact hb.refrains
  | rewind => exact absurd (by simp) hrewound
  | _ => exact ⟨rfl, fun _ => rfl⟩

/-- Who executes no step spares the values, unless the machine is rewound. -/
theorem Deed.refrains (h : Deed m id l events l') (hidle : l.Idle id)
    (hrewound : .rewound id ∉ events) : l.stage.Refrains l'.stage := by
  have hspend : l.stage.Refrains l.stage.spend := ⟨rfl, fun _ => rfl⟩
  have hconvoy {convoy : Convoy} {s : Stage} {p : Progress Convoy _}
      (hp : convoy.poll false l.stage = (s, p)) : l.stage.Refrains s := by
    have hkept := Convoy.poll_refrains convoy l.stage
    rwa [hp] at hkept
  cases h with
  | take _ _ _ _ hb => exact hspend.trans (hb.refrains hrewound)
  | enter _ _ _ hb => exact hspend.trans (hb.refrains hrewound)
  | busy hphase _ => exact absurd hphase (hidle _ _ _)
  | ended hphase _ => exact absurd hphase (hidle _ _ _)
  | executed hphase _ => exact absurd hphase (hidle _ _ _)
  | crashed hphase _ => exact absurd hphase (hidle _ _ _)
  | failed hphase _ => exact absurd hphase (hidle _ _ _)
  | move _ hp => exact (hconvoy hp).trans ⟨rfl, fun _ => rfl⟩
  | moved _ hp => exact (hconvoy hp).trans ⟨rfl, fun _ => rfl⟩
  | _ => exact ⟨rfl, fun _ => rfl⟩

theorem Entry.position {purpose : Purpose} (h : Entry m id l purpose events l')
    (hpublished : ∀ position, .published position ∉ events) :
    l'.stage.position = l.stage.position := by
  have hbegins {l₁ : Ledger} {who : Stepper} (hb : Begins m id who l₁ events l') : False := by
    cases hb with
    | hold _ _ => exact hpublished (m.position l₁.registers.cursor) (by simp)
    | step _ _ _ => exact hpublished (m.position l₁.registers.cursor) (by simp)
  cases h with
  | step _ _ hb => exact (hbegins hb).elim
  | next hb => exact (hbegins hb).elim
  | rewind => exact absurd (by simp) (hpublished (m.position 0))
  | _ => rfl

/-- The position changes only as it is published. -/
theorem Deed.position (h : Deed m id l events l')
    (hpublished : ∀ position, .published position ∉ events) :
    l'.stage.position = l.stage.position := by
  have hactivity {activity : Activity} {s : Stage} {p : Progress Activity _}
      (hp : activity.poll l.stage = (s, p)) : s.position = l.stage.position :=
    (Activity.poll_acts hp).frame.position
  have hconvoy {convoy : Convoy} {s : Stage} {p : Progress Convoy _}
      (hp : convoy.poll false l.stage = (s, p)) : s.position = l.stage.position :=
    (Convoy.poll_acts hp).frame.position
  cases h with
  | take _ _ _ _ hb => exact (hb.position hpublished :)
  | enter _ _ _ hb => exact (hb.position hpublished :)
  | busy _ hp => exact (hactivity hp :)
  | ended _ hp => exact (hactivity hp :)
  | executed _ hp => exact (hactivity hp :)
  | crashed _ hp => exact (hactivity hp :)
  | failed _ hp => exact (hactivity hp :)
  | move _ hp => exact (hconvoy hp :)
  | moved _ hp => exact (hconvoy hp :)
  | _ => rfl

/-! ### How a step begins, goes on and fails -/

theorem Begins.position (h : Begins m id who l events l') :
    l'.stage.position = m.position l.registers.cursor := by
  cases h with
  | hold _ _ => rfl
  | step _ _ _ => rfl

/-- Nothing but the cursor is changed before a step begins. -/
theorem Aims.registers {r : Registers} (h : l.Aims m id who r) :
    r = { l.registers with cursor := r.cursor } := by
  cases h <;> rfl

/-- How a step begins. -/
theorem Deed.begins (h : Deed m id l events l') (hkept : l.Kept) {b : Nat}
    (hmem : .began b i ∈ events) : b = id ∧ l.stage.Refrains l'.stage ∧
      ∃ who l₁, l.Aims m id who l₁.registers ∧ i = l₁.registers.cursor ∧
        Begins m id who l₁ events l' := by
  rcases (h.stride hkept).mem_cases hmem with ⟨_, ⟨⟩⟩ | ⟨who, l₁, hresting, -, haims, hb⟩ |
    ⟨_, _, ⟨⟩, -⟩ | ⟨_, _, ⟨⟩⟩ | ⟨_, _, ⟨⟩, -⟩ | ⟨⟨⟩⟩ | ⟨⟨⟩⟩ | ⟨_, ⟨⟩⟩
  obtain ⟨hcall, hcursor⟩ := hb.of_began hmem
  have hrewound : .rewound id ∉ events := by
    cases hb <;> simp
  exact ⟨hcall, h.refrains (hresting id) hrewound, who, l₁, haims, hcursor, hb⟩

/-- What a call does that executes a step. -/
theorem Deed.polls (h : Deed m id l events l') {activity : Activity}
    (hphase : l.phases id = some (.stepping who i activity)) :
    (∃ s activity', activity.poll l.stage = (s, .busy activity') ∧ events = [] ∧
      l' = ({ l with stage := s }.setPhase id (.stepping who i activity')).block) ∨
    (∃ s flow, activity.poll l.stage = (s, .finished (.ok flow)) ∧ l'.Idle id) ∨
    ∃ s e, activity.poll l.stage = (s, .finished (.error e)) ∧ l'.Idle id ∧
      l'.stage.dealings = s.dealings ∧ ∀ epoch, who = .run epoch → l'.running = false := by
  have hsame {old : Phase} (hold : l.phases id = some old) : Phase.stepping who i activity = old :=
    Option.some.inj (hphase.symm.trans hold)
  cases h with
  | busy hold hp =>
    cases hsame hold
    exact .inl ⟨_, _, hp, rfl, rfl⟩
  | ended hold hp =>
    cases hsame hold
    exact .inr (.inl ⟨_, _, hp, fun _ _ _ hx => (nomatch setPhase_self.symm.trans hx)⟩)
  | executed hold hp =>
    cases hsame hold
    exact .inr (.inl ⟨_, _, hp, fun _ _ _ hx => (nomatch finish_self.symm.trans hx)⟩)
  | crashed hold hp =>
    cases hsame hold
    exact .inr (.inr ⟨_, _, hp, fun _ _ _ hx => (nomatch finish_self.symm.trans hx), rfl,
      fun _ _ => rfl⟩)
  | failed hold hp =>
    cases hsame hold
    refine .inr (.inr ⟨_, _, hp, fun _ _ _ hx => (nomatch finish_self.symm.trans hx), rfl, ?_⟩)
    rintro _ ⟨⟩
  | _ => cases hsame ‹l.phases id = some _›

/-- How a step fails. -/
theorem Deed.fails (h : Deed m id l events l') (hkept : l.Kept) {b : Nat} {e : StepError}
    (hmem : .failed b i e ∈ events) :
    b = id ∧ events = [.returned id (.error e), .failed id i e] ∧ l'.Resting ∧
      l'.registers = l.registers ∧ ∃ who activity s, l.phases id = some (.stepping who i activity) ∧
        activity.poll l.stage = (s, .finished (.error e)) ∧ l'.stage.dealings = s.dealings ∧
        ∀ epoch, who = .run epoch → l'.running = false := by
  rcases (h.stride hkept).mem_cases hmem with ⟨_, ⟨⟩⟩ | ⟨who, l₁, -, -, -, hb⟩ |
    ⟨_, _, ⟨⟩, -⟩ | ⟨_, _, ⟨⟩⟩ |
    ⟨_, _, ⟨⟩, hevents, hresting, hregisters, who, activity, s, hphase, hp⟩ |
    ⟨⟨⟩⟩ | ⟨⟨⟩⟩ | ⟨_, ⟨⟩⟩
  · cases hb <;> simp at hmem
  · refine ⟨rfl, hevents, hresting, hregisters, who, activity, s, hphase, hp, ?_⟩
    rcases h.polls hphase with ⟨_, _, hbusy, -⟩ | ⟨_, _, hok, -⟩ | ⟨_, _, herror, -, hstage, hrun⟩
    · cases hp.symm.trans hbusy
    · cases hp.symm.trans hok
    · cases hp.symm.trans herror
      exact ⟨hstage, hrun⟩

/-! ### The cursor while no step is executed -/

/-- Nobody moves the cursor while no step is executed, unless the milestones say so. -/
theorem Deed.cursor (h : Deed m id l events l') (hresting : l.Resting)
    (hlength : 0 < m.program.length) (hnone : ∀ e ∈ events, e.redirects = false) :
    l'.registers.cursor = l.registers.cursor := by
  have hentry {l₁ : Ledger} {purpose : Purpose} (hb : Entry m id l₁ purpose events l') :
      l'.registers.cursor = l₁.registers.cursor := by
    cases hb with
    | step _ _ hb => cases hnone _ hb.began
    | next hb => cases hnone _ hb.began
    | vain hempty => exact absurd hempty hlength.ne'
    | restart _ => cases hnone (.restarted id) (by simp)
    | rewind => cases hnone (.rewound id) (by simp)
    | _ => rfl
  cases h with
  | take _ _ _ _ hb => exact (hentry hb :)
  | enter _ _ _ hb => exact (hentry hb :)
  | ended hphase _ => exact absurd hphase (hresting _ _ _ _)
  | executed hphase _ => exact absurd hphase (hresting _ _ _ _)
  | _ => rfl

/-- What is known of the cursor once a step has failed: unless it has been moved since, it is where
it was. -/
def StaysAt (base : List Event) (i : Nat) (l : Ledger) : Prop :=
  ∃ since, l.stage.milestones = since ++ base ∧
    ((∀ e ∈ since, e.redirects = false) → l.Resting ∧ l.registers.cursor = i)

theorem StaysAt.turn {base : List Event} (h : l.StaysAt base i) (hlength : 0 < m.program.length)
    (hturn : Turn m l events l') : l'.StaysAt base i := by
  obtain ⟨since, hsince, hstays⟩ := h
  have hmilestones : l'.stage.milestones = (events ++ since) ++ base := by
    rw [hturn.milestones, hsince, List.append_assoc]
  refine ⟨events ++ since, hmilestones, fun hnone => ?_⟩
  obtain ⟨hresting, hcursor⟩ := hstays fun e he => hnone e (List.mem_append_right _ he)
  have hnew : ∀ e ∈ events, e.redirects = false := fun e he => hnone e (List.mem_append_left _ he)
  cases hturn with
  | deed hdeed =>
    constructor
    · refine (hdeed.resting hresting).resolve_right ?_
      rintro ⟨index, hbegan⟩
      cases hnew _ hbegan
    · exact (hdeed.cursor hresting hlength hnew).trans hcursor
  | issue call hfree =>
    refine ⟨fun j who index activity hphase => ?_, hcursor⟩
    have hidle : l.Idle l.calls := fun _ _ _ hx => by cases hfree.symm.trans hx
    exact hresting j who index activity
      ((sameSteps_of_update rfl hidle (by simp) j who index activity).1 hphase)
  | outside _ _ _ => exact ⟨hresting, hcursor⟩

end Ledger

namespace Config

variable {m : Machine} {c c' c₀ : Config} {id i : Nat} {who : Stepper}
  {activity activity' : Activity} {step : Step} {events : List Event}

/-! ### While a step is executed -/

/-- A call begins the step at an index at `c₀`, and no step has begun since. -/
structure BeganAt (m : Machine) (id i : Nat) (c₀ c : Config) : Prop where
  reachable : c₀.Reachable m
  began : ∃ events, (c₀.step m).stage.milestones = events ++ c₀.stage.milestones ∧
    .began id i ∈ events
  moves : ReflTransGen (Move m) (c₀.step m) c
  latest : ∃ since, c.stage.milestones = since ++ (c₀.step m).stage.milestones ∧
    ∀ j k, .began j k ∉ since

theorem BeganAt.move (h : BeganAt m id i c₀ c) (hmove : Move m c c')
    (hevents : c'.stage.milestones = events ++ c.stage.milestones)
    (hnone : ∀ j k, .began j k ∉ events) : BeganAt m id i c₀ c' where
  reachable := h.reachable
  began := h.began
  moves := h.moves.tail hmove
  latest := by
    obtain ⟨since, hsince, hbefore⟩ := h.latest
    refine ⟨events ++ since, by rw [hevents, hsince, List.append_assoc], fun j k hmem => ?_⟩
    rcases List.mem_append.1 hmem with hmem | hmem
    · exact hnone j k hmem
    · exact hbefore j k hmem

/-- The targets that are known. -/
def Known (c : Config) (target : String) : Prop :=
  (c.stage.driver.get? target).isSome

/-- What is known of a step that has begun at `c₀` and is executed. -/
structure Executing (m : Machine) (id i : Nat) (step : Step) (activity : Activity)
    (c₀ c : Config) : Prop where
  began : BeganAt m id i c₀ c
  position : c.stage.position = m.position i
  knows : c.stage.Knows c₀.Known
  /-- The registers are as they were, or the step cannot fail. -/
  spares : activity.Spares step.action c₀.Known
    (c.registers = { c₀.registers with cursor := i })
  untouched : activity.Animates ∨ c.stage.dealings = c₀.stage.dealings

namespace Executing

/-- Others leave it as it is. -/
theorem spared (h : Executing m id i step activity c₀ c) (hmove : Move m c c')
    (hevents : c'.stage.milestones = events ++ c.stage.milestones)
    (hnone : ∀ j k, .began j k ∉ events) (hregisters : c'.registers = c.registers)
    (hposition : c'.stage.position = c.stage.position) (hkept : c.stage.Refrains c'.stage) :
    Executing m id i step activity c₀ c' where
  began := h.began.move hmove hevents hnone
  position := hposition.trans h.position
  knows := h.knows.refrains hkept
  spares := hregisters ▸ h.spares
  untouched := h.untouched.imp_right hkept.dealings.trans

/-- A hold that is let go by others has nothing to do with the values. -/
theorem released (h : Executing m id i step (.holding none) c₀ c) (release : Release) :
    Executing m id i step (.holding (some release)) c₀ c :=
  { h with spares := trivial, untouched := .inr (h.untouched.resolve_left fun hnot => hnot) }

/-- The step goes on. -/
theorem goesOn (h : Executing m id i step activity c₀ c) {s : Stage}
    (hp : activity.poll c.stage = (s, .busy activity'))
    (hledger : (c.step m).ledger =
      ({ c.ledger with stage := s }.setPhase id (.stepping who i activity')).block) :
    Executing m id i step activity' c₀ (c.step m) := by
  have hstage : (c.step m).stage = s.nextTurn := congrArg Ledger.stage hledger
  have hregisters : (c.step m).registers = c.registers := congrArg Ledger.registers hledger
  have hacts : Stage.Acts .free c.stage s := Activity.poll_acts hp
  have hmilestones : (c.step m).stage.milestones = [] ++ c.stage.milestones := by
    rw [hstage]
    exact (Stage.milestones_of_acts hacts :)
  have hpoll := Activity.poll_spares h.spares h.knows
  rw [hp] at hpoll
  constructor
  · exact h.began.move .step hmilestones fun _ _ => List.not_mem_nil
  · rw [hstage]
    exact hacts.frame.position.trans h.position
  · rw [hstage]
    exact (h.knows.acts hacts :)
  · rw [hregisters]
    exact hpoll.1
  · rw [hstage]
    apply hpoll.2.imp_right
    rintro ⟨hnot, hkept⟩
    exact hkept.dealings.trans (h.untouched.resolve_left hnot)

end Executing

/-- A step has just begun. -/
theorem Reachable.begins (h : c.Reachable m)
    (hdeed : Ledger.Deed m id c.ledger events (c.step m).ledger) (hmem : .began id i ∈ events)
    (hphase : (c.step m).phase? id = some (.stepping who i activity)) :
    ∃ step, m.program.step? i = some step ∧ Executing m id i step activity c (c.step m) := by
  obtain ⟨-, hkept, who', l₁, haims, rfl, hb⟩ := hdeed.begins h.ordered.kept hmem
  obtain ⟨step, hstep, -, hbegin, -⟩ := hb.steps hphase
  have hspares := m.begin_spares l₁.registers.cursor step.action l₁.registers c.Known
  rw [hbegin, haims.registers] at hspares
  refine ⟨step, hstep, ?_⟩
  exact
    { began := ⟨h, ⟨events, hdeed.milestones, hmem⟩, .refl, [], rfl, fun _ _ => List.not_mem_nil⟩
      position := hb.position
      knows := Stage.Knows.refrains (fun _ => .rfl) hkept
      spares := hspares
      untouched := .inr hkept.dealings }

/-- **Whatever is executed** has begun somewhere, and spares the values as long as it may fail. -/
theorem Reachable.executing (h : c.Reachable m)
    (hphase : c.phase? id = some (.stepping who i activity)) :
    ∃ c₀ step, m.program.step? i = some step ∧ Executing m id i step activity c₀ c := by
  obtain ⟨driver, functions, hmoves⟩ := h
  induction hmoves generalizing activity with
  | refl => cases hphase
  | @tail c₁ c₂ hmoves hmove ih =>
    have hreach : c₁.Reachable m := ⟨driver, functions, hmoves⟩
    have hkept := hreach.ordered.kept
    rcases hreach.ordered.step_or_aside hmove with
      ⟨j, rest, events, hready, rfl, hdeed⟩ | ⟨hregisters, hmilestones, hphases, hspared, hposition⟩
    · by_cases hj : id = j
      · subst hj
        rcases hdeed.steps hphase with ⟨⟨before, hbefore⟩, -⟩ | ⟨-, -, -, -, hmem⟩
        · -- the call goes on with the step
          obtain ⟨c₀, step, hstep, hexecuting⟩ := ih hbefore
          rcases hdeed.polls hbefore with ⟨s, after, hp, -, hledger⟩ | ⟨-, -, -, hidle⟩ |
            ⟨-, -, -, hidle, -⟩
          · have hself : (c₁.step m).ledger.phases id = some (.stepping who i after) := by
              rw [hledger]
              exact Ledger.setPhase_self
            cases hself.symm.trans hphase
            exact ⟨c₀, step, hstep, hexecuting.goesOn hp hledger⟩
          · exact absurd hphase (hidle _ _ _)
          · exact absurd hphase (hidle _ _ _)
        · obtain ⟨step, hstep, hexecuting⟩ := hreach.begins hdeed hmem hphase
          exact ⟨c₁, step, hstep, hexecuting⟩
      · -- somebody else does something, and does not own the registers
        have hothers {before : Activity} (hbefore : c₁.phase? id = some (.stepping who i before)) :
            ∃ c₀ step, m.program.step? i = some step ∧
              Executing m id i step before c₀ (c₁.step m) := by
          obtain ⟨c₀, step, hstep, hexecuting⟩ := ih hbefore
          have howner : c₁.ledger.lock.owner = some id := hkept.owner hbefore
          obtain ⟨hregisters, -, hevents⟩ := hdeed.bystander hkept howner hj
          have hidle : c₁.ledger.Idle j := fun _ _ _ hx =>
            hj (Option.some.inj (howner.symm.trans (hkept.owner hx)))
          have hnone {e : Event} (hreturned : ∀ result, e ≠ .returned j result)
              (hreleased : ∀ holder release, e ≠ .released j holder release) : e ∉ events :=
            fun hmem => by
              rcases hevents e hmem with ⟨result, he⟩ | ⟨holder, release, he⟩
              · exact hreturned result he
              · exact hreleased holder release he
          refine ⟨c₀, step, hstep, hexecuting.spared .step hdeed.milestones ?_ hregisters ?_ ?_⟩
          · exact fun _ _ => hnone (by simp) (by simp)
          · exact hdeed.position fun _ => hnone (by simp) (by simp)
          · exact hdeed.refrains hidle (hnone (by simp) (by simp))
        rcases hdeed.other hj with hsame | ⟨who', i', release, -, hholder, -, hreleased⟩
        · exact hothers (hsame.symm.trans hphase)
        · cases hreleased.symm.trans hphase
          obtain ⟨c₀, step, hstep, hexecuting⟩ := hothers hholder
          exact ⟨c₀, step, hstep, hexecuting.released release⟩
    · rcases hphases id _ hphase with hbefore | ⟨call, hissued⟩
      · obtain ⟨c₀, step, hstep, hexecuting⟩ := ih hbefore
        have hnothing : c₂.stage.milestones = [] ++ c₁.stage.milestones := hmilestones
        exact ⟨c₀, step, hstep, hexecuting.spared hmove hnothing (fun _ _ => List.not_mem_nil)
          hregisters hposition hspared⟩
      · cases hissued

/-! ### After a step has failed -/

/-- Nobody moves the cursor while no step is executed, unless the milestones say so. -/
theorem Reachable.stays (h : c.Reachable m) (hresting : c.ledger.Resting)
    (hlength : 0 < m.program.length) (hmoves : ReflTransGen (Move m) c c') {since : List Event}
    (hsince : c'.stage.milestones = since ++ c.stage.milestones)
    (hnone : ∀ e ∈ since, e.redirects = false) : c'.registers.cursor = c.registers.cursor := by
  have hstays : c'.ledger.StaysAt c.stage.milestones c.registers.cursor :=
    h.keeps hmoves ⟨[], rfl, fun _ => ⟨hresting, rfl⟩⟩ fun hl _ hturn => hl.turn hlength hturn
  obtain ⟨since', hsince', hcursor⟩ := hstays
  obtain rfl : since' = since := List.append_cancel_right (hsince'.symm.trans hsince)
  exact (hcursor hnone).2

/-- The next step that begins is the one at an index, whether a run begins it or a call for one
step; unless the machine is rewound or a run begins another pass before, or the call asks for a
label. -/
def ResumesAt (m : Machine) (i : Nat) (c : Config) : Prop :=
  ∀ (c₁ c₂ : Config) (since new : List Event) (b j : Nat), ReflTransGen (Move m) c c₁ →
    c₁.stage.milestones = since ++ c.stage.milestones → (∀ e ∈ since, e.redirects = false) →
    Move m c₁ c₂ → c₂.stage.milestones = new ++ c₁.stage.milestones → .began b j ∈ new →
    (∀ k, ¬ c₁.ledger.Seeks b (.next (some k))) → j = i

/-- The cursor is kept until the next step begins. -/
theorem Reachable.resumesAt (h : c.Reachable m) (hresting : c.ledger.Resting)
    (hlt : c.registers.cursor < m.program.length) : c.ResumesAt m c.registers.cursor := by
  intro c₁ c₂ since new b j hmoves hsince hnone hmove hnew hmem hseeks
  have hcursor : c₁.registers.cursor = c.registers.cursor :=
    h.stays hresting (Nat.zero_lt_of_lt hlt) hmoves hsince hnone
  have hordered := (h.moves hmoves).ordered
  obtain ⟨id, hdeed⟩ := hordered.deed_of_milestones hmove hnew hmem
  obtain ⟨rfl, -, who, l₁, haims, rfl, -⟩ := hdeed.begins hordered.kept hmem
  generalize hr : l₁.registers = r at haims
  cases haims with
  | run _ => exact hcursor
  | @next seek hseek =>
    rcases seek with - | k
    · show m.wrap c₁.registers.cursor = _
      rw [hcursor]
      exact if_neg (Nat.not_le_of_lt hlt)
    · exact absurd hseek (hseeks k)

/-- What a step leaves that has begun at `c₀` and fails as `c` goes over to `c'`. -/
structure FailsAt (m : Machine) (id i : Nat) (step : Step) (e : StepError) (c₀ c c' : Config) :
    Prop where
  began : BeganAt m id i c₀ c'
  registers : c'.registers = { c₀.registers with cursor := i }
  position : c'.stage.position = m.position i
  running : ∀ epoch activity, c.phase? id = some (.stepping (.run epoch) i activity) →
    c'.running = false
  resumes : c'.ResumesAt m i
  untouched : step.action.OperandError e → c'.stage.dealings = c₀.stage.dealings

/-- **A step that fails leaves the machine where it was**, in every reachable configuration of every
program.  The registers are those with which the step began, the cursor and the position are at the
step, a run is over, and the step is the next one to begin.  If an operand could not be resolved the
machine has neither written a value nor begun an animation.

A call for a step at an unknown label returns with an error as soon as it goes on, and nothing else
is changed; a hold stays parked. -/
theorem Reachable.failure_leaves (h : c.Reachable m) :
    (∀ c' events id i e, Move m c c' → c'.stage.milestones = events ++ c.stage.milestones →
      .failed id i e ∈ events →
      ∃ c₀ step, m.program.step? i = some step ∧ FailsAt m id i step e c₀ c c') ∧
    ∀ id rest label, c.ready = id :: rest → c.phase? id = some (.issued (.next (some label))) →
      m.program.labelIndex? label = none →
      c.step m = { c with
        tasks := c.tasks.filter fun t => t.1 ≠ id
        ready := rest
        stage := c.stage.nextTurn.note (.returned id (.error (.unknownLabel label))) } := by
  constructor
  · intro c' events id i e hmove hevents hmem
    have hkept := h.ordered.kept
    obtain ⟨j, hdeed⟩ := h.ordered.deed_of_milestones hmove hevents hmem
    obtain ⟨rfl, rfl, hresting, hregisters, who, activity, s, hphase, hp, hdealings, hrun⟩ :=
      hdeed.fails hkept hmem
    -- back to where the step began: since then it has spared the values, as it may fail
    obtain ⟨c₀, step, hstep, hexecuting⟩ := h.executing hphase
    have hpoll := Activity.poll_spares hexecuting.spares hexecuting.knows
    have hp' : activity.poll c.stage = (s, .finished (.error e)) := hp
    rw [hp'] at hpoll
    obtain ⟨hbefore, huntouched⟩ := hpoll
    have hafter : c'.registers = { c₀.registers with cursor := i } := hregisters.trans hbefore
    have hlt : c'.registers.cursor < m.program.length := by
      rw [hafter, ← Nat.not_le, ← Program.step?_eq_none_iff, hstep]
      exact Option.some_ne_none step
    have hresumes := (h.move hmove).resumesAt hresting hlt
    rw [hafter] at hresumes
    refine ⟨c₀, step, hstep, ?_⟩
    exact
      { began := hexecuting.began.move hmove hevents (by simp)
        registers := hafter
        position := (hdeed.position (by simp)).trans hexecuting.position
        running := fun epoch activity' hphase' => by
          cases hphase.symm.trans hphase'
          exact hrun epoch rfl
        resumes := hresumes
        untouched := fun he => by
          obtain ⟨hnot, hspared⟩ := huntouched he
          calc c'.stage.dealings = s.dealings := hdealings
            _ = c.stage.dealings := hspared.dealings
            _ = c₀.stage.dealings := hexecuting.untouched.resolve_left hnot }
  · intro id rest label hready hphase hlabel
    rw [step_of_ready hready hphase]
    simp only [advance, accept, hlabel, finish, block, note, hready, List.tail_cons]

/-- Two animations; the first one waits for a function, the second one looks for a function that is
missing. -/
def failingPair : Step where
  action := .parallel [⟨"x", .absolute (.named "slow"), .named "slow", none, false⟩,
    ⟨"x", .inc (.named "missing"), .named "slow", none, false⟩]

/-- A machine that holds, and then begins these. -/
def holdThenFail : Machine where
  program := ⟨[⟨{ action := .hold }, none⟩, ⟨failingPair, none⟩], {}⟩
  settings := { drive := .manual }

/-- A call parks the hold, and another one asks for a label that is not there. -/
def missingLabel : Config :=
  (((fresh holdThenFail {} (.ofList [("slow", fun _ _ => .sleep ⟨1⟩ (.value .null))])).issue
    (.next none)).settle holdThenFail 20).issue (.next (some "nowhere"))

/-- The hold is let go, and the animations are about to fail. -/
def aboutToFail : Config :=
  ((((missingLabel.settle holdThenFail 20).issue (.next none)).settle holdThenFail 20).issue
    (.next none)).settle holdThenFail 2

theorem reachable_missingLabel : missingLabel.Reachable holdThenFail :=
  (((Reachable.fresh {} _).issue (.next none)).settle 20).issue (.next (some "nowhere"))

theorem reachable_aboutToFail : aboutToFail.Reachable holdThenFail :=
  ((((reachable_missingLabel.settle 20).issue (.next none)).settle 20).issue (.next none)).settle 2

theorem failure_leaves_holdThenFail :
    (∃ c₀, FailsAt holdThenFail 3 1 failingPair (.call (.notFound "missing")) c₀ aboutToFail
        (aboutToFail.step holdThenFail) ∧
      (aboutToFail.step holdThenFail).stage.dealings = c₀.stage.dealings) ∧
    (missingLabel.step holdThenFail).hold = some 0 ∧
    (missingLabel.step holdThenFail).registers = missingLabel.registers := by
  have hfailed : (aboutToFail.step holdThenFail).stage.milestones
      = [.returned 3 (.error (.call (.notFound "missing"))),
          .failed 3 1 (.call (.notFound "missing"))] ++ aboutToFail.stage.milestones := by cbv
  obtain ⟨c₀, step, hstep, hfails⟩ := reachable_aboutToFail.failure_leaves.1
    (aboutToFail.step holdThenFail) _ 3 1 (.call (.notFound "missing")) .step hfailed (by simp)
  cases hstep
  have hlost := reachable_missingLabel.failure_leaves.2 1 [] "nowhere" (by cbv) (by cbv) (by cbv)
  refine ⟨⟨c₀, hfails, hfails.untouched (.inl (.inr ⟨_, rfl⟩))⟩, ?_, ?_⟩
  · rw [hlost]
    cbv
  · rw [hlost]

end Config

end Timeline
