/-
Timeline/Proofs/Machine/Strides.lean

What a deed means for the steps of the program.

Few of the things that a call can do concern the steps.  `Ledger.Stride` has one
constructor for each of them: a step begins, goes on, is a hold that is let go, ends
or fails, and the registers are restarted or rewound.  All other deeds leave the
steps that are under way, the parked hold and what the registers remember as they
are.  Main result (`Ledger.Deed.stride`): every deed is one of these.
-/
import Timeline.Proofs.Machine.Continuation

namespace Timeline

/-- What a call records behind the end of the step that it has executed. -/
def Stepper.outro (id : Nat) : Stepper → List Event
  | run _ => []
  | next => [.returned id (.ok ())]

namespace Ledger

variable {m : Machine} {l l' : Ledger} {id : Nat} {events : List Event}

/-- A call wants the registers for a purpose. -/
def Seeks (l : Ledger) (id : Nat) (purpose : Purpose) : Prop :=
  l.phases id = some (.seeking purpose) ∨ l.phases id = some (.queued purpose)

/-- A call executes no step. -/
def Idle (l : Ledger) (id : Nat) : Prop :=
  ∀ who index activity, l.phases id ≠ some (.stepping who index activity)

/-- The same calls execute the same steps. -/
def SameSteps (l l' : Ledger) : Prop :=
  ∀ j who index activity, l'.phases j = some (.stepping who index activity) ↔
    l.phases j = some (.stepping who index activity)

/-- The registers with which a call begins a step.  A call for one step moves the cursor first. -/
inductive Aims (m : Machine) (id : Nat) (l : Ledger) : Stepper → Registers → Prop
  | run {epoch : Nat} : l.Seeks id (.step epoch) → Aims m id l (.run epoch) l.registers
  | next {seek : Option Nat} : l.Seeks id (.next seek) →
      Aims m id l .next
        { l.registers with cursor := m.wrap (seek.getD l.registers.cursor) }

/-- A step finds the address of an earlier `goto` as it was left. -/
theorem Aims.returnTo {who : Stepper} {r : Registers} (h : l.Aims m id who r) :
    r.returnTo = l.registers.returnTo := by
  cases h <;> rfl

/-- What a deed means for the steps of the program. -/
inductive Stride (m : Machine) (id : Nat) (l : Ledger) : List Event → Ledger → Prop
  /-- Nothing. -/
  | aside {events : List Event} {l' : Ledger} :
      (∀ e ∈ events, ∃ result, e = .returned id result) → events = [] ∨ l.Idle id →
      l.SameSteps l' → l'.hold = l.hold →
      l'.registers.returnTo = l.registers.returnTo →
      l'.registers.vibrated = l.registers.vibrated → Stride m id l events l'
  /-- A step begins. -/
  | begins {who : Stepper} {l₁ : Ledger} {events : List Event} {l' : Ledger} :
      l.Resting → l.hold = none → l.Aims m id who l₁.registers → l₁.phases = l.phases →
      l₁.hold = none → Begins m id who l₁ events l' → Stride m id l events l'
  /-- A step goes on. -/
  | busy {who : Stepper} {index : Nat} {activity activity' : Activity} {s : Stage} {l' : Ledger} :
      l.phases id = some (.stepping who index activity) →
      activity.poll l.stage = (s, .busy activity') →
      l'.phases = Function.update l.phases id (some (.stepping who index activity')) →
      l'.hold = l.hold → l'.registers = l.registers → Stride m id l [] l'
  /-- A parked hold is let go. -/
  | releases {purpose : Purpose} {release : Release} {holder index : Nat} {who : Stepper}
      {after : List Event} {l' : Ledger} :
      l.phases id = some (.seeking purpose) → purpose.release? = some release →
      l.hold = some holder → l.phases holder = some (.stepping who index (.holding none)) →
      (∀ e ∈ after, ∃ result, e = .returned id result) →
      l'.phases holder = some (.stepping who index (.holding (some release))) →
      (∀ j who index activity, j ≠ holder → l'.phases j ≠ some (.stepping who index activity)) →
      l'.hold = none → l'.registers = l.registers →
      Stride m id l (after ++ [.released id holder release]) l'
  /-- A step ends. -/
  | ends {who : Stepper} {index : Nat} {activity : Activity} {s : Stage} {flow : Flow}
      {l' : Ledger} :
      l.phases id = some (.stepping who index activity) →
      activity.poll l.stage = (s, .finished (.ok flow)) → l'.Resting → l'.hold = none →
      l'.registers = { l.registers with cursor := m.cursorAfter who index flow } →
      Stride m id l (who.outro id ++ [.ended id index flow]) l'
  /-- A step fails. -/
  | fails {who : Stepper} {index : Nat} {activity : Activity} {s : Stage} {e : StepError}
      {l' : Ledger} :
      l.phases id = some (.stepping who index activity) →
      activity.poll l.stage = (s, .finished (.error e)) → l'.Resting → l'.hold = none →
      l'.registers = l.registers →
      Stride m id l [.returned id (.error e), .failed id index e] l'
  /-- A run begins another pass. -/
  | restarts {l' : Ledger} : l.Resting → l.hold = none → l'.Resting → l'.hold = none →
      l'.registers = l.registers.restart → Stride m id l [.restarted id] l'
  /-- The machine is rewound. -/
  | rewinds {l' : Ledger} : l.Resting → l.hold = none → l'.Resting → l'.hold = none →
      l'.registers = {} →
      Stride m id l [.returned id (.ok ()), .rewound id, .published (m.position 0)] l'

/-! ### Calls that return -/

/-- What is no return has not come to pass where nothing but returns has. -/
theorem absurd_returned {P : Prop} {e : Event} (h : ∀ e ∈ events, ∃ result, e = .returned id result)
    (hmem : e ∈ events) (he : ∀ result, e ≠ .returned id result) : P := by
  obtain ⟨result, hresult⟩ := h e hmem
  exact absurd hresult (he result)

theorem returned_of_mem_outro {who : Stepper} :
    ∀ e ∈ who.outro id, ∃ result, e = .returned id result := by
  intro e he
  cases who with
  | run _ => cases he
  | next => exact ⟨_, List.mem_singleton.1 he⟩

/-- What a milestone tells about the stride that it comes to pass with. -/
theorem Stride.mem_cases (h : Stride m id l events l') {e : Event} (hmem : e ∈ events) :
    (∃ result, e = .returned id result) ∨
    (∃ who l₁, l.Resting ∧ l.hold = none ∧ l.Aims m id who l₁.registers ∧
      Begins m id who l₁ events l') ∨
    (∃ holder release, e = .released id holder release ∧ l.hold = some holder ∧ l'.hold = none) ∨
    (∃ index flow, e = .ended id index flow) ∨
    (∃ index error, e = .failed id index error ∧
      events = [.returned id (.error error), .failed id index error] ∧ l'.Resting ∧
      l'.registers = l.registers ∧ ∃ who activity s,
        l.phases id = some (.stepping who index activity) ∧
          activity.poll l.stage = (s, .finished (.error error))) ∨
    e = .restarted id ∨ e = .rewound id ∨ ∃ position, e = .published position := by
  cases h with
  | aside hreturned _ _ _ _ _ => exact .inl (hreturned e hmem)
  | begins hresting hhold haims _ _ hb => exact .inr (.inl ⟨_, _, hresting, hhold, haims, hb⟩)
  | busy _ _ _ _ _ => cases hmem
  | releases _ _ hhold _ hreturned _ _ hnone _ =>
    rcases List.mem_append.1 hmem with hmem | hmem
    · exact .inl (hreturned e hmem)
    · exact .inr (.inr (.inl ⟨_, _, List.mem_singleton.1 hmem, hhold, hnone⟩))
  | ends _ _ _ _ _ =>
    rcases List.mem_append.1 hmem with hmem | hmem
    · exact .inl (returned_of_mem_outro e hmem)
    · exact .inr (.inr (.inr (.inl ⟨_, _, List.mem_singleton.1 hmem⟩)))
  | fails hphase hp hresting _ hregisters =>
    rcases List.mem_cons.1 hmem with rfl | hmem
    · exact .inl ⟨_, rfl⟩
    · exact .inr (.inr (.inr (.inr (.inl ⟨_, _, List.mem_singleton.1 hmem, rfl, hresting,
        hregisters, _, _, _, hphase, hp⟩))))
  | restarts _ _ _ _ _ => simp [List.mem_singleton.1 hmem]
  | rewinds _ _ _ _ _ => rcases (by simpa using hmem) with rfl | rfl | rfl <;> simp

/-! ### Who executes a step -/

theorem sameSteps_of_eq (h : l'.phases = l.phases) : l.SameSteps l' := fun _ _ _ _ => by
  rw [h]

/-- A call that executes no step goes over to a phase in which it executes none. -/
theorem sameSteps_of_update {x : Option Phase} (hphases : l'.phases = Function.update l.phases id x)
    (hold : l.Idle id) (hnew : ∀ who index activity, x ≠ some (.stepping who index activity)) :
    l.SameSteps l' := by
  intro j who index activity
  rw [hphases]
  exact stepping_update hold hnew j who index activity

/-- Once the only one who executed a step does not do so any more, nobody does. -/
theorem resting_of_update (hkept : l.Kept) (howner : l.lock.owner = none ∨ l.lock.owner = some id)
    {x : Option Phase} (hphases : l'.phases = Function.update l.phases id x)
    (hnew : ∀ who index activity, x ≠ some (.stepping who index activity)) : l'.Resting := by
  intro j who index activity hphase
  rw [hphases] at hphase
  by_cases hj : j = id
  · subst hj
    rw [Function.update_self] at hphase
    exact hnew _ _ _ hphase
  · rw [Function.update_of_ne hj] at hphase
    have hother := hkept.owner hphase
    rcases howner with hfree | hown
    · cases hfree.symm.trans hother
    · exact hj (Option.some.inj (hother.symm.trans hown))

/-- Whoever executes a step that is no parked hold keeps others from being parked. -/
theorem Kept.hold_eq_none (h : l.Kept) {who : Stepper} {index : Nat} {activity : Activity}
    (hphase : l.phases id = some (.stepping who index activity))
    (hne : activity ≠ .holding none) : l.hold = none := by
  rcases hhold : l.hold with - | holder
  · rfl
  · obtain ⟨who', index', hholder⟩ := h.hold.1 hhold
    obtain rfl : id = holder := Option.some.inj ((h.owner hphase).symm.trans (h.owner hholder))
    cases hphase.symm.trans hholder
    exact absurd rfl hne

/-! ### Deeds -/

/-- Whoever has become the owner of the registers makes a stride. -/
theorem Entry.stride {l₁ : Ledger} {purpose : Purpose} (h : Entry m id l₁ purpose events l')
    (hkept : l.Kept) (hseeks : l.Seeks id purpose)
    (howner : l.lock.owner = none ∨ l.lock.owner = some id) (hhold : l.hold = none)
    (hregisters : l₁.registers = l.registers) (hphases : l₁.phases = l.phases)
    (hhold₁ : l₁.hold = l.hold) : Stride m id l events l' := by
  have hidle : l.Idle id := by
    intro who index activity hphase
    rcases hseeks with hseeks | hseeks <;> cases hseeks.symm.trans hphase
  have hresting : l.Resting :=
    resting_of_update hkept howner (Function.update_eq_self id l.phases).symm hidle
  have hupdate {x : Option Phase} :
      Function.update l₁.phases id x = Function.update l.phases id x := by
    rw [hphases]
  -- nothing happens to a step if the registers remember what they did
  have haside {x : Option Phase} (hphases' : l'.phases = Function.update l₁.phases id x)
      (hnew : ∀ who index activity, x ≠ some (.stepping who index activity))
      (hevents : ∀ e ∈ events, ∃ result, e = .returned id result) (hhold' : l'.hold = l₁.hold)
      (hreturn : l'.registers.returnTo = l₁.registers.returnTo)
      (hvibrated : l'.registers.vibrated = l₁.registers.vibrated) : Stride m id l events l' :=
    .aside hevents (.inr hidle) (sameSteps_of_update (hphases'.trans hupdate) hidle hnew)
      (hhold'.trans hhold₁) (hreturn.trans (congrArg Registers.returnTo hregisters))
      (hvibrated.trans (congrArg Registers.vibrated hregisters))
  cases h with
  | clear => exact haside rfl (by simp) (by simp) rfl rfl rfl
  | stopped _ => exact haside rfl (by simp) (by simp) rfl rfl rfl
  | finished _ _ _ _ => exact haside rfl (by simp) (by simp) rfl rfl rfl
  | around _ _ _ _ _ => exact haside rfl (by simp) (by simp) rfl rfl rfl
  | cancelled _ => exact haside rfl (by simp) (by simp) rfl rfl rfl
  | vain _ => exact haside rfl (by simp) (by simp) rfl rfl rfl
  | @step epoch _ _ _ _ hb =>
    have haims : l.Aims m id (.run epoch) l₁.registers := by
      rw [hregisters]
      exact .run hseeks
    exact .begins hresting hhold haims hphases (hhold₁.trans hhold) hb
  | next hb =>
    refine .begins hresting hhold ?_ ?_ ?_ hb
    · show l.Aims m id .next { l₁.registers with cursor := _ }
      rw [hregisters]
      exact .next hseeks
    · exact hphases
    · exact hhold₁.trans hhold
  | restart _ =>
    exact .restarts hresting hhold (resting_of_update hkept howner hupdate (by simp))
      (hhold₁.trans hhold) (congrArg Registers.restart hregisters)
  | rewind =>
    exact .rewinds hresting hhold (resting_of_update hkept howner hupdate (by simp))
      (hhold₁.trans hhold) rfl

/-- **A deed is a stride.** -/
theorem Deed.stride (h : Deed m id l events l') (hkept : l.Kept) : Stride m id l events l' := by
  -- a call that neither executed a step before nor does so now
  have haside {phase : Phase} {x : Option Phase} (hphase : l.phases id = some phase)
      (hphases : l'.phases = Function.update l.phases id x)
      (hold : ∀ who index activity, phase ≠ .stepping who index activity)
      (hnew : ∀ who index activity, x ≠ some (.stepping who index activity))
      (hevents : ∀ e ∈ events, ∃ result, e = .returned id result)
      (hhold : l'.hold = l.hold) (hregisters : l'.registers = l.registers) :
      Stride m id l events l' := by
    have hidle : l.Idle id := fun who index activity hx =>
      hold who index activity (Option.some.inj (hphase.symm.trans hx))
    exact .aside hevents (.inr hidle) (sameSteps_of_update hphases hidle hnew) hhold
      (by rw [hregisters]) (by rw [hregisters])
  -- the step of a call is over
  have hover {who : Stepper} {index : Nat} {activity : Activity} {x : Option Phase}
      (hphase : l.phases id = some (.stepping who index activity))
      (hphases : l'.phases = Function.update l.phases id x)
      (hnew : ∀ who index activity, x ≠ some (.stepping who index activity)) : l'.Resting :=
    resting_of_update hkept (.inr (hkept.owner hphase)) hphases hnew
  have hunparked {who : Stepper} {index : Nat} {activity : Activity} {s : Stage}
      {result : Except StepError Flow}
      (hphase : l.phases id = some (.stepping who index activity))
      (hp : activity.poll l.stage = (s, .finished result)) : l.hold = none :=
    hkept.hold_eq_none hphase (Activity.ne_holding_of_poll_finished hp)
  cases h with
  | start hphase _ _ => exact haside hphase rfl (by simp) (by simp) (by simp) rfl rfl
  | idle hphase _ => exact haside hphase rfl (by simp) (by simp) (by simp) rfl rfl
  | ask hphase _ _ => exact haside hphase rfl (by simp) (by simp) (by simp) rfl rfl
  | empty hphase _ => exact haside hphase rfl (by simp) (by simp) (by simp) rfl rfl
  | lost hphase _ => exact haside hphase rfl (by simp) (by simp) (by simp) rfl rfl
  | stop hphase => exact haside hphase rfl (by simp) (by simp) (by simp) rfl rfl
  | reset hphase => exact haside hphase rfl (by simp) (by simp) (by simp) rfl rfl
  | animate hphase => exact haside hphase rfl (by simp) (by simp) (by simp) rfl rfl
  | @drop holder index who hphase hhold hne hholder =>
    show Stride m id l ([] ++ [_]) _
    refine .releases hphase rfl hhold hholder (by simp) setPhase_self ?_ rfl rfl
    intro j who' index' activity hj hstepping
    rw [letGo_of_ne hj] at hstepping
    exact hj (Option.some.inj ((hkept.owner hstepping).symm.trans (hkept.owner hholder)))
  | @resume holder index who seek hphase hhold hne hholder =>
    show Stride m id l ([.returned id (.ok ())] ++ [_]) _
    refine .releases hphase rfl hhold hholder (by simp) ?_ ?_ rfl rfl
    · rw [finish_of_ne hne]
      exact setPhase_self
    · intro j who' index' activity hj hstepping
      by_cases hji : j = id
      · subst hji
        cases finish_self.symm.trans hstepping
      · rw [finish_of_ne hji, letGo_of_ne hj] at hstepping
        exact hj (Option.some.inj ((hkept.owner hstepping).symm.trans (hkept.owner hholder)))
  | rest hphase _ _ => exact .aside (by simp) (.inl rfl) (sameSteps_of_eq rfl) rfl rfl rfl
  | permit hphase _ _ _ _ _ => exact .aside (by simp) (.inl rfl) (sameSteps_of_eq rfl) rfl rfl rfl
  | queue hphase _ _ _ => exact haside hphase rfl (by simp) (by simp) (by simp) rfl rfl
  | take hphase _ hfree hhold hb => exact hb.stride hkept (.inl hphase) (.inl hfree) hhold rfl rfl rfl
  | enter hphase howner hhold hb =>
    exact hb.stride hkept (.inr hphase) (.inr howner) hhold rfl rfl rfl
  | withdraw hphase _ _ => exact haside hphase rfl (by simp) (by simp) (by simp) rfl rfl
  | wait _ _ _ => exact .aside (by simp) (.inl rfl) (sameSteps_of_eq rfl) rfl rfl rfl
  | busy hphase hp => exact .busy hphase hp rfl rfl rfl
  | ended hphase hp => exact .ends hphase hp (hover hphase rfl (by simp)) (hunparked hphase hp) rfl
  | executed hphase hp =>
    exact .ends hphase hp (hover hphase rfl (by simp)) (hunparked hphase hp) rfl
  | crashed hphase hp =>
    exact .fails hphase hp (hover hphase rfl (by simp)) (hunparked hphase hp) rfl
  | failed hphase hp =>
    exact .fails hphase hp (hover hphase rfl (by simp)) (hunparked hphase hp) rfl
  | move hphase _ => exact haside hphase rfl (by simp) (by simp) (by simp) rfl rfl
  | moved hphase _ => exact haside hphase rfl (by simp) (by simp) (by simp) rfl rfl

end Ledger

namespace Config

/-- The milestones of whatever happens are those of a deed. -/
theorem Ordered.deed_of_milestones {m : Machine} {c c' : Config} (h : c.Ordered)
    (hmove : Move m c c') {events : List Event} {e : Event}
    (hevents : c'.stage.milestones = events ++ c.stage.milestones) (he : e ∈ events) :
    ∃ id, Ledger.Deed m id c.ledger events c'.ledger := by
  obtain ⟨new, hturn⟩ := h.turn hmove
  have hnew : new = events := List.append_cancel_right (hturn.milestones.symm.trans hevents)
  subst hnew
  generalize c.ledger = l at hturn ⊢
  generalize c'.ledger = l' at hturn ⊢
  cases hturn with
  | deed hdeed => exact ⟨_, hdeed⟩
  | issue _ _ => cases he
  | outside _ _ _ => cases he

end Config

end Timeline
