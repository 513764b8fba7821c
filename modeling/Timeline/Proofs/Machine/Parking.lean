/-
Timeline/Proofs/Machine/Parking.lean

What becomes of a hold.

A hold is parked as soon as it begins.  From then on nothing happens to the steps of
the program until a call lets the hold go, and then nothing until it ends as that
call said; all that comes in between are calls that return.  `Machine.Custody` reads
a list of milestones in this way, with the hold that there is at its end.

Main results: the milestones of a machine that is driven by a script can be read so,
and the hold at their end is the one that is parked (`Config.Driven.guarded`); where a
hold ends it was let go by one call (`Machine.Custody.freed_of_ended`), and where a hold is let
go it ends, unless it is about to (`Machine.Custody.of_released`).
-/
import Timeline.Proofs.Machine.Strides

namespace Timeline

/-! ### Holds, read off the milestones -/

/-- All that happens is that others return. -/
def OthersReturn (id : Nat) (events : List Event) : Prop :=
  ∀ e ∈ events, ∃ j result, e = .returned j result ∧ j ≠ id

theorem OthersReturn.nil (id : Nat) : OthersReturn id [] := fun _ he => nomatch he

theorem OthersReturn.cons {id j : Nat} {result : Except StepError Unit} {events : List Event}
    (h : OthersReturn id events) (hj : j ≠ id) :
    OthersReturn id (.returned j result :: events) := by
  intro e he
  rcases List.mem_cons.1 he with rfl | he
  · exact ⟨j, result, rfl, hj⟩
  · exact h e he

namespace Machine

/-- The step at an index is a `hold`. -/
def IsHold (m : Machine) (index : Nat) : Prop :=
  ∃ step, m.program.step? index = some step ∧ step.action = .hold

/-- How a call lets a parked hold go.  A call for one step tells it where to go on, if it asks for a
label. -/
inductive Releases (m : Machine) : Call → Release → Prop
  | next {label : Option String} {seek : Option Nat} :
      label.map m.program.labelIndex? = seek.map some →
      m.Releases (.next label) (.resumed seek)
  | stop : m.Releases .stop .dropped
  | reset : m.Releases .reset .dropped

/-- A call has parked the hold at an index, and it has not been let go. -/
def Parks (m : Machine) (id index : Nat) (events : List Event) : Prop :=
  m.IsHold index ∧ ∃ waiting before,
    events = waiting ++ .parked id :: .began id index :: before ∧ OthersReturn id waiting

/-- Another call of a script has let the hold at an index go, and it has not ended. -/
def Freed (m : Machine) (calls : List Call) (id index caller : Nat) (release : Release)
    (events : List Event) : Prop :=
  caller ≠ id ∧ (∃ call, calls[caller]? = some call ∧ m.Releases call release) ∧
    ∃ waiting before, events = waiting ++ .released caller id release :: before ∧
      OthersReturn id waiting ∧ m.Parks id index before

/-- What there is of a hold. -/
inductive Parking where
  | free
  | parked (id index : Nat)
  /-- A call has let the hold go. -/
  | freed (id index caller : Nat) (release : Release)

/-- The call whose hold it is. -/
def Parking.holder? : Parking → Option Nat
  | free => none
  | parked id _ => some id
  | freed id _ _ _ => some id

/-- A milestone that is not about holds. -/
inductive Passes (m : Machine) : Event → Prop
  | published (position : Position) : m.Passes (.published position)
  | began (id index : Nat) : m.Passes (.began id index)
  | ended {id index : Nat} (flow : Flow) : ¬ m.IsHold index → m.Passes (.ended id index flow)
  | failed {id index : Nat} (e : StepError) : ¬ m.IsHold index → m.Passes (.failed id index e)
  | restarted (id : Nat) : m.Passes (.restarted id)
  | rewound (id : Nat) : m.Passes (.rewound id)

/-- Milestones, the latest first, as what they say about holds. -/
inductive Custody (m : Machine) (calls : List Call) : List Event → Parking → Prop
  | start : m.Custody calls [] .free
  | returned {events : List Event} {parking : Parking} {id : Nat}
      {result : Except StepError Unit} : m.Custody calls events parking →
      parking.holder? ≠ some id → m.Custody calls (.returned id result :: events) parking
  | passes {events : List Event} {e : Event} : m.Custody calls events .free → m.Passes e →
      m.Custody calls (e :: events) .free
  | parked {events before : List Event} {id index : Nat} : m.Custody calls events .free →
      events = .began id index :: before → m.IsHold index →
      m.Custody calls (.parked id :: events) (.parked id index)
  | released {events : List Event} {id index caller : Nat} {call : Call} {release : Release} :
      m.Custody calls events (.parked id index) → caller ≠ id → calls[caller]? = some call →
      m.Releases call release →
      m.Custody calls (.released caller id release :: events) (.freed id index caller release)
  | ended {events : List Event} {id index caller : Nat} {release : Release} {flow : Flow} :
      m.Custody calls events (.freed id index caller release) → flow = release.flow →
      m.Custody calls (.ended id index flow :: events) .free

namespace Custody

variable {m : Machine} {calls : List Call} {events later earlier : List Event}
  {parking : Parking} {id index caller : Nat} {release : Release}

/-- What came first can be read in the same way. -/
theorem suffix (h : m.Custody calls events parking) (hevents : events = later ++ earlier) :
    ∃ parking', m.Custody calls earlier parking' := by
  -- either all that there is came first, or one milestone less is to be looked at
  have hwhole {e : Event} {rest : List Event} {parking : Parking}
      (hcustody : m.Custody calls (e :: rest) parking)
      (ih : ∀ {later}, rest = later ++ earlier → ∃ parking', m.Custody calls earlier parking')
      {later : List Event} (h : e :: rest = later ++ earlier) :
      ∃ parking', m.Custody calls earlier parking' := by
    rcases List.cons_eq_append_iff.1 h with ⟨rfl, rfl⟩ | ⟨later', rfl, hrest⟩
    · exact ⟨_, hcustody⟩
    · exact ih hrest
  induction h generalizing later with
  | start =>
    obtain ⟨-, rfl⟩ := List.nil_eq_append_iff.1 hevents
    exact ⟨_, .start⟩
  | returned hbefore hother ih => exact hwhole (.returned hbefore hother) ih hevents
  | passes hbefore hpasses ih => exact hwhole (.passes hbefore hpasses) ih hevents
  | parked hfree hbegan hhold ih => exact hwhole (.parked hfree hbegan hhold) ih hevents
  | released hbefore hne hcall hreleases ih =>
    exact hwhole (.released hbefore hne hcall hreleases) ih hevents
  | ended hbefore hflow ih => exact hwhole (.ended hbefore hflow) ih hevents

/-- There is one way to read milestones. -/
theorem unique {parking' : Parking} (h : m.Custody calls events parking)
    (h' : m.Custody calls events parking') : parking = parking' := by
  induction h generalizing parking' with
  | start =>
    cases h' with
    | start => rfl
  | returned _ _ ih =>
    cases h' with
    | returned hbefore _ => exact ih hbefore
    | passes _ hpasses => cases hpasses
  | passes _ hpasses _ =>
    cases h' with
    | passes _ _ => rfl
    | ended _ _ => rfl
    | _ => cases hpasses
  | parked _ hbegan _ _ =>
    cases h' with
    | passes _ hpasses => cases hpasses
    | parked _ hbegan' _ =>
      cases hbegan.symm.trans hbegan'
      rfl
  | released _ _ _ _ ih =>
    cases h' with
    | passes _ hpasses => cases hpasses
    | released hbefore _ _ _ =>
      cases ih hbefore
      rfl
  | ended _ _ _ =>
    cases h' with
    | passes _ _ => rfl
    | ended _ _ => rfl

/-- The hold that the milestones leave parked. -/
theorem parks (h : m.Custody calls events (.parked id index)) : m.Parks id index events := by
  generalize hparking : Parking.parked id index = parking at h
  induction h with
  | returned _ hother ih =>
    subst hparking
    obtain ⟨hhold, waiting, before, rfl, hwaiting⟩ := ih rfl
    exact ⟨hhold, _ :: waiting, before, rfl, hwaiting.cons fun h => hother (congrArg some h.symm)⟩
  | parked _ hbegan hhold _ =>
    cases hparking
    subst hbegan
    exact ⟨hhold, [], _, rfl, .nil _⟩
  | _ => cases hparking

/-- The hold that the milestones leave when it was let go. -/
theorem frees (h : m.Custody calls events (.freed id index caller release)) :
    m.Freed calls id index caller release events := by
  generalize hparking : Parking.freed id index caller release = parking at h
  induction h with
  | returned _ hother ih =>
    subst hparking
    obtain ⟨hne, hcall, waiting, before, rfl, hwaiting, hparks⟩ := ih rfl
    exact ⟨hne, hcall, _ :: waiting, before, rfl,
      hwaiting.cons fun h => hother (congrArg some h.symm), hparks⟩
  | @released _ _ _ _ call _ hbefore hne hcall hreleases _ =>
    cases hparking
    exact ⟨hne, ⟨call, hcall, hreleases⟩, [], _, rfl, .nil _, hbefore.parks⟩
  | _ => cases hparking

/-- A parked hold is the one that the milestones leave. -/
theorem eq_parked (h : m.Custody calls events parking) (hparks : m.Parks id index events) :
    parking = .parked id index := by
  obtain ⟨-, waiting, before, rfl, hwaiting⟩ := hparks
  induction waiting generalizing parking with
  | nil =>
    cases h with
    | passes _ hpasses => cases hpasses
    | parked _ hbegan _ =>
      cases hbegan
      rfl
  | cons e waiting ih =>
    obtain ⟨j, result, rfl, -⟩ := hwaiting e List.mem_cons_self
    have hrest : OthersReturn id waiting := fun e he => hwaiting e (List.mem_cons_of_mem _ he)
    cases h with
    | returned hbefore _ => exact ih hrest hbefore
    | passes _ hpasses => cases hpasses

/-- A hold that ends was let go by one call, and ends as that call said. -/
theorem freed_of_ended {flow : Flow} (h : m.Custody calls (.ended id index flow :: events) parking)
    (hhold : m.IsHold index) : ∃ caller release,
      m.Freed calls id index caller release events ∧ flow = release.flow := by
  cases h with
  | passes _ hpasses =>
    cases hpasses with
    | ended _ hnot => exact absurd hhold hnot
  | ended hbefore hflow => exact ⟨_, _, hbefore.frees, hflow⟩

/-- No hold fails. -/
theorem not_isHold_of_failed {e : StepError}
    (h : m.Custody calls (.failed id index e :: events) parking) : ¬ m.IsHold index := by
  cases h with
  | passes _ hpasses =>
    cases hpasses with
    | failed _ hnot => exact hnot

/-- A hold that is let go was parked, and ends as it was told; until then nothing happens but that
others return. -/
theorem of_released (h : m.Custody calls events parking)
    (hevents : events = later ++ .released caller id release :: earlier) :
    ∃ index, m.Parks id index earlier ∧ caller ≠ id ∧
      (∃ call, calls[caller]? = some call ∧ m.Releases call release) ∧
      (parking = .freed id index caller release ∧ OthersReturn id later ∨
        ∃ after waiting, later = after ++ .ended id index release.flow :: waiting ∧
          OthersReturn id waiting) := by
  subst hevents
  induction later generalizing parking with
  | nil =>
    cases h with
    | passes _ hpasses => cases hpasses
    | @released _ _ index _ call _ hbefore hne hcall hreleases =>
      exact ⟨index, hbefore.parks, hne, ⟨call, hcall, hreleases⟩, .inl ⟨rfl, .nil _⟩⟩
  | cons e later ih =>
    obtain ⟨parking', hbefore⟩ := h.suffix (show _ = [e] ++ _ from rfl)
    obtain ⟨index, hparks, hne, hcall, hlater⟩ := ih hbefore
    refine ⟨index, hparks, hne, hcall, ?_⟩
    rcases hlater with ⟨rfl, hwaiting⟩ | ⟨after, waiting, rfl, hwaiting⟩
    · cases h with
      | @returned _ _ j result hstill hother =>
        cases hstill.unique hbefore
        exact .inl ⟨rfl, hwaiting.cons fun h => hother (congrArg some h.symm)⟩
      | passes hstill _ => cases hstill.unique hbefore
      | parked hstill _ _ => cases hstill.unique hbefore
      | released hstill _ _ _ => cases hstill.unique hbefore
      | ended hstill hflow =>
        cases hstill.unique hbefore
        subst hflow
        exact .inr ⟨[], later, rfl, hwaiting⟩
    · exact .inr ⟨e :: after, waiting, rfl, hwaiting⟩

/-- Calls that return have nothing to do with a hold of somebody else. -/
theorem after_returns (h : m.Custody calls earlier parking)
    (hlater : ∀ e ∈ later, ∃ result, e = .returned id result)
    (hother : later = [] ∨ parking.holder? ≠ some id) :
    m.Custody calls (later ++ earlier) parking := by
  rcases hother with rfl | hother
  · exact h
  · induction later with
    | nil => exact h
    | cons e later ih =>
      obtain ⟨result, rfl⟩ := hlater e List.mem_cons_self
      exact (ih fun e he => hlater e (List.mem_cons_of_mem _ he)).returned hother

end Custody

/-- Whoever wants the registers and can let a hold go does so as its call says. -/
theorem releases_of_wants {m : Machine} {call : Call} {purpose : Purpose} {release : Release}
    (hwants : m.Wants call purpose) (hrelease : purpose.release? = some release) :
    m.Releases call release := by
  cases purpose with
  | next seek =>
    obtain ⟨label, rfl, hlabel⟩ := hwants
    cases hrelease
    exact .next hlabel
  | rewind =>
    cases hrelease
    rcases hwants with rfl | rfl
    · exact .stop
    · exact .reset
  | _ => cases hrelease

end Machine

/-! ### The hold that is under way -/

namespace Ledger

variable {m : Machine} {calls : List Call} {l l' : Ledger} {id : Nat} {who : Stepper}
  {events : List Event} {parking : Machine.Parking}

/-- Who executes a `hold` holds, and nobody else does. -/
def Holding (m : Machine) (l : Ledger) : Prop :=
  ∀ {id who index activity}, l.phases id = some (.stepping who index activity) →
    (m.IsHold index ↔ ∃ release, activity = .holding release)

/-- The hold of a ledger. -/
inductive Guards (l : Ledger) : Machine.Parking → Prop
  | free : (∀ id who index release,
        l.phases id ≠ some (.stepping who index (.holding release))) → l.Guards .free
  | parked {id index : Nat} {who : Stepper} :
      l.phases id = some (.stepping who index (.holding none)) → l.Guards (.parked id index)
  | freed {id index caller : Nat} {who : Stepper} {release : Release} :
      l.phases id = some (.stepping who index (.holding (some release))) →
      l.Guards (.freed id index caller release)

/-- The milestones can be read as what becomes of holds, and leave the hold of the ledger. -/
def Guarded (m : Machine) (calls : List Call) (l : Ledger) : Prop :=
  ∃ parking, m.Custody calls l.stage.milestones parking ∧ l.Guards parking

/-- One call at most executes a step. -/
theorem Kept.unique (h : l.Kept) {j index index' : Nat} {who' : Stepper}
    {activity activity' : Activity} (hphase : l.phases id = some (.stepping who index activity))
    (hother : l.phases j = some (.stepping who' index' activity')) : id = j :=
  Option.some.inj ((h.owner hphase).symm.trans (h.owner hother))

theorem Guards.sameSteps (h : l.Guards parking) (hsteps : l.SameSteps l') :
    l'.Guards parking := by
  cases h with
  | free hnone =>
    refine .free fun id who index release hphase => ?_
    exact hnone id who index release ((hsteps _ _ _ _).1 hphase)
  | parked hphase => exact .parked ((hsteps _ _ _ _).2 hphase)
  | freed hphase => exact .freed ((hsteps _ _ _ _).2 hphase)

theorem Guards.holder?_ne_of_idle (h : l.Guards parking) (hidle : l.Idle id) :
    parking.holder? ≠ some id := by
  intro hholder
  cases h with
  | free _ => cases hholder
  | parked hphase =>
    cases hholder
    exact hidle _ _ _ hphase
  | freed hphase =>
    cases hholder
    exact hidle _ _ _ hphase

theorem Guards.eq_free_of_resting (h : l.Guards parking) (hresting : l.Resting) :
    parking = .free := by
  cases h with
  | free _ => rfl
  | parked hphase => exact absurd hphase (hresting _ _ _ _)
  | freed hphase => exact absurd hphase (hresting _ _ _ _)

theorem Guards.of_resting (h : l.Resting) : l.Guards .free :=
  .free fun _ _ _ _ hphase => h _ _ _ _ hphase

/-- Whoever is not busy with a hold is not at one. -/
theorem Guards.not_isHold (h : l.Guards .free) (hholding : l.Holding m) {index : Nat}
    {activity : Activity} (hphase : l.phases id = some (.stepping who index activity)) :
    ¬ m.IsHold index := by
  intro hhold
  obtain ⟨release, rfl⟩ := (hholding hphase).1 hhold
  cases h with
  | free hnone => exact hnone _ _ _ _ hphase

/-- A hold that begins is parked. -/
theorem Begins.guarded {l₁ : Ledger} (hb : Begins m id who l₁ events l') (hresting : l.Resting)
    (hphases : l₁.phases = l.phases) {earlier : List Event} (hfree : m.Custody calls earlier .free) :
    ∃ parking, m.Custody calls (events ++ earlier) parking ∧ l'.Guards parking := by
  have hpublished := hfree.passes (.published (m.position l₁.registers.cursor))
  have hbegan := hpublished.passes (.began id l₁.registers.cursor)
  cases hb with
  | @hold step hstep haction =>
    have hhold : m.IsHold l₁.registers.cursor := ⟨step, hstep, haction⟩
    exact ⟨_, hbegan.parked rfl hhold, .parked setPhase_self⟩
  | @step step r activity hstep haction hbegin =>
    refine ⟨_, hbegan, .free fun j who' index release hphase => ?_⟩
    by_cases hj : j = id
    · subst hj
      cases setPhase_self.symm.trans hphase
      exact haction (Machine.begin_holding hbegin).1
    · have hbefore : l.phases j = some (.stepping who' index (.holding release)) := by
        rw [← hphases]
        exact (setPhase_of_ne hj).symm.trans hphase
      exact hresting _ _ _ _ hbefore

/-- A step that goes on stays what it is. -/
theorem Guards.busy (h : l.Guards parking) (hkept : l.Kept) {index : Nat}
    {activity activity' : Activity} {s : Stage}
    (hphase : l.phases id = some (.stepping who index activity))
    (hp : activity.poll l.stage = (s, .busy activity'))
    (hphases : l'.phases = Function.update l.phases id (some (.stepping who index activity'))) :
    l'.Guards parking := by
  have hself : l'.phases id = some (.stepping who index activity') := by
    rw [hphases, Function.update_self]
  cases h with
  | free hnone =>
    refine .free fun j who' index' release hother => ?_
    by_cases hj : j = id
    · subst hj
      cases hself.symm.trans hother
      rcases Activity.holding_of_poll_busy hp with ⟨rfl, -⟩ | ⟨-, hnot⟩
      · exact hnone _ _ _ _ hphase
      · exact hnot _ rfl
    · rw [hphases, Function.update_of_ne hj] at hother
      exact hnone _ _ _ _ hother
  | parked hholder =>
    obtain rfl := hkept.unique hphase hholder
    cases hphase.symm.trans hholder
    rcases Activity.holding_of_poll_busy hp with ⟨-, rfl⟩ | ⟨hnot, -⟩
    · exact .parked hself
    · exact absurd rfl (hnot none)
  | freed hholder =>
    obtain rfl := hkept.unique hphase hholder
    cases hphase.symm.trans hholder
    cases hp

/-- A step that ends is no hold, or it is a hold that was let go and ends as it was told. -/
theorem Guards.ends (h : l.Guards parking) (hkept : l.Kept) (hholding : l.Holding m) {index : Nat}
    {activity : Activity} {s : Stage} {flow : Flow}
    (hphase : l.phases id = some (.stepping who index activity))
    (hp : activity.poll l.stage = (s, .finished (.ok flow)))
    (hcustody : m.Custody calls events parking) :
    m.Custody calls (.ended id index flow :: events) .free := by
  cases h with
  | free hnone => exact hcustody.passes (.ended flow ((Guards.free hnone).not_isHold hholding hphase))
  | parked hholder =>
    obtain rfl := hkept.unique hphase hholder
    cases hphase.symm.trans hholder
    cases hp
  | freed hholder =>
    obtain rfl := hkept.unique hphase hholder
    cases hphase.symm.trans hholder
    cases hp
    exact hcustody.ended rfl

/-- A step that fails is no hold. -/
theorem Guards.fails (h : l.Guards parking) (hkept : l.Kept) (hholding : l.Holding m) {index : Nat}
    {activity : Activity} {s : Stage} {e : StepError}
    (hphase : l.phases id = some (.stepping who index activity))
    (hp : activity.poll l.stage = (s, .finished (.error e)))
    (hcustody : m.Custody calls events parking) :
    m.Custody calls (.failed id index e :: events) .free := by
  cases h with
  | free hnone => exact hcustody.passes (.failed e ((Guards.free hnone).not_isHold hholding hphase))
  | parked hholder =>
    obtain rfl := hkept.unique hphase hholder
    cases hphase.symm.trans hholder
    cases hp
  | freed hholder =>
    obtain rfl := hkept.unique hphase hholder
    cases hphase.symm.trans hholder
    cases hp

/-- A hold that is let go was the parked one. -/
theorem Guards.releases (h : l.Guards parking) (hkept : l.Kept) {holder index : Nat}
    (hholder : l.phases holder = some (.stepping who index (.holding none))) :
    parking = .parked holder index := by
  cases h with
  | free hnone => exact absurd hholder (hnone _ _ _ _)
  | parked hother =>
    obtain rfl := hkept.unique hholder hother
    cases hholder.symm.trans hother
    rfl
  | freed hother =>
    obtain rfl := hkept.unique hholder hother
    cases hholder.symm.trans hother

/-- **A deed does with holds as it should.** -/
theorem Guarded.deed (h : l.Guarded m calls) (hkept : l.Kept) (hholding : l.Holding m)
    (hcharged : l.Charged m calls) (hdeed : Deed m id l events l') : l'.Guarded m calls := by
  obtain ⟨parking, hcustody, hguards⟩ := h
  unfold Guarded
  rw [hdeed.milestones]
  -- while no step is under way, there is no hold
  have hfree (hresting : l.Resting) : m.Custody calls l.stage.milestones .free :=
    hguards.eq_free_of_resting hresting ▸ hcustody
  cases hdeed.stride hkept with
  | aside hevents hidle hsteps _ _ _ =>
    have hother := hidle.imp_right hguards.holder?_ne_of_idle
    exact ⟨parking, hcustody.after_returns hevents hother, hguards.sameSteps hsteps⟩
  | begins hresting _ _ hphases _ hb => exact hb.guarded hresting hphases (hfree hresting)
  | busy hphase hp hphases _ _ => exact ⟨parking, hcustody, hguards.busy hkept hphase hp hphases⟩
  | @releases purpose release holder index who after _ hphase hrelease _ hholder hevents hfreed
      _ _ _ =>
    obtain rfl := hguards.releases hkept hholder
    obtain ⟨call, hcall, hwants⟩ := hcharged id _ hphase
    have hne : id ≠ holder := by
      rintro rfl
      cases hphase.symm.trans hholder
    have hreleased := hcustody.released hne hcall (Machine.releases_of_wants hwants hrelease)
    rw [List.append_assoc]
    have hother := hreleased.after_returns hevents (.inr fun h => hne (Option.some.inj h).symm)
    exact ⟨_, hother, .freed hfreed⟩
  | @ends who index activity s flow _ hphase hp hresting _ _ =>
    have hended := hguards.ends hkept hholding hphase hp hcustody
    refine ⟨.free, ?_, .of_resting hresting⟩
    cases who with
    | run epoch => exact hended
    | next => exact hended.returned (by simp [Machine.Parking.holder?])
  | fails hphase hp hresting _ _ =>
    have hfailed := hguards.fails hkept hholding hphase hp hcustody
    exact ⟨.free, hfailed.returned (by simp [Machine.Parking.holder?]), .of_resting hresting⟩
  | restarts hbefore _ hresting _ _ =>
    exact ⟨_, (hfree hbefore).passes (.restarted id), .of_resting hresting⟩
  | rewinds hbefore _ hresting _ _ =>
    have hpublished := (hfree hbefore).passes (.published (m.position 0))
    have hrewound := hpublished.passes (.rewound id)
    exact ⟨_, hrewound.returned (by simp [Machine.Parking.holder?]), .of_resting hresting⟩

end Ledger

namespace Config

variable {m : Machine} {calls : List Call} {c : Config} {id index : Nat}

theorem Reachable.holding (h : c.Reachable m) : c.ledger.Holding m := by
  intro id who index activity hphase
  obtain ⟨-, ⟨step, hstep, hholds⟩, -⟩ := h.sound.phases hphase
  constructor
  · rintro ⟨step', hstep', haction⟩
    cases hstep.symm.trans hstep'
    exact hholds.1 haction
  · intro hholding
    exact ⟨step, hstep, hholds.2 hholding⟩

/-- **The milestones say what has become of all holds.** -/
theorem Driven.guarded (h : c.Driven m calls) : c.ledger.Guarded m calls := by
  induction h with
  | fresh driver functions => exact ⟨.free, .start, .free fun _ _ _ _ hphase => nomatch hphase⟩
  | @issue c call hdriven hcall ih =>
    have hnone : c.phase? c.calls = none :=
      role_eq_absent_iff.1 (hdriven.reachable.ordered.fresh _ (Nat.le_refl _))
    obtain ⟨parking, hcustody, hguards⟩ := ih
    rw [ledger_issue hnone]
    refine ⟨parking, hcustody, hguards.sameSteps (Ledger.sameSteps_of_update rfl ?_ (by simp))⟩
    intro who index activity hphase
    cases hnone.symm.trans hphase
  | move hdriven hmove hcalls ih =>
    have hreachable := hdriven.reachable
    rcases hreachable.ordered.turn_of_calls_eq hmove hcalls with
      ⟨id, events, hdeed⟩ | ⟨s, hs, hledger⟩
    · exact ih.deed hreachable.ordered.kept hreachable.holding hdriven.charged hdeed
    · obtain ⟨parking, hcustody, hguards⟩ := ih
      rw [hledger]
      exact ⟨parking, by rw [hs]; exact hcustody,
        hguards.sameSteps (Ledger.sameSteps_of_eq rfl)⟩

end Config

end Timeline
