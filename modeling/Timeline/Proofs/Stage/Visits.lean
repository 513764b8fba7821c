/-
Timeline/Proofs/Stage/Visits.lean

What a visit to a join does member by member, and what a visit to a ride does deed
by deed.

`Join.tour` lists the visits to members that one visit to a join makes, and `Tours`
is the same as a relation, on which one does induction (`Join.tours_visit`).  A visit
to a ride is one pace or, for a ride that has not begun, two: the claim of its target
and what a ride that is under way does at that moment (`Ride.poll_paces`).  A
`Ride.Pace` says what becomes of the ride, what it does to the driver, and by which
deeds, where `Stage.deeds` reads the deeds of a visit off the stages before and after.
-/
import Timeline.Proofs.Stage.Generations

namespace Timeline

open Stage

/-! ### Visits to the members of a join -/

/-- A visit to a member of a join. -/
structure Visit (σ ρ : Type) where
  member : Nat
  state : σ
  before : Stage
  after : Stage
  /-- What becomes of the member. -/
  outcome : Progress σ (Except StepError ρ)

namespace Join

variable {σ ρ : Type} {pollOne : σ → Stage → Stage × Progress σ (Except StepError ρ)}

/-- The visits to members that a visit to a join makes, in order. -/
def tour (pollOne : σ → Stage → Stage × Progress σ (Except StepError ρ)) (large : Bool) :
    List Nat → Join σ ρ → Stage → List (Visit σ ρ)
  | [], _, _ => []
  | i :: rest, j, s =>
    match j[i]? with
    | some (.busy state) =>
      match pollOne state s with
      | (s', .busy state') =>
        ⟨i, state, s, s', .busy state'⟩ :: tour pollOne large rest (j.set i (.busy state')) s'
      | (s', .finished result) =>
        let j := j.set i (.finished result)
        ⟨i, state, s, s', .finished result⟩ ::
          if (failure? large j).isSome then [] else tour pollOne large rest j s'
    | _ => tour pollOne large rest j s

/-- Visits to members that are under way, one after the other, lead from a join on a stage to
another one. -/
inductive Tours (pollOne : σ → Stage → Stage × Progress σ (Except StepError ρ)) :
    Join σ ρ → Stage → List (Visit σ ρ) → Join σ ρ → Stage → Prop
  | done (j : Join σ ρ) (s : Stage) : Tours pollOne j s [] j s
  | visit {j j' : Join σ ρ} {s s₁ s' : Stage} {i : Nat} {state : σ}
      {p : Progress σ (Except StepError ρ)} {rest : List (Visit σ ρ)} :
      j[i]? = some (.busy state) → pollOne state s = (s₁, p) →
      Tours pollOne (j.set i p) s₁ rest j' s' →
      Tours pollOne j s (⟨i, state, s, s₁, p⟩ :: rest) j' s'

/-- A visit to a join makes the visits of its tour. -/
theorem tours_visit (large : Bool) (order : List Nat) (j : Join σ ρ) (s : Stage) :
    Tours pollOne j s (tour pollOne large order j s) (visit pollOne large order j s).2
      (visit pollOne large order j s).1 := by
  induction order generalizing j s with
  | nil => exact .done j s
  | cons i rest ih =>
    rcases hi : j[i]? with - | (state | result) <;> simp only [tour, visit, hi]
    · exact ih j s
    · rcases hp : pollOne state s with ⟨s', state' | result⟩ <;> dsimp only
      · exact .visit hi hp (ih _ s')
      · split
        · exact .visit hi hp (.done _ s')
        · exact .visit hi hp (ih _ s')
    · exact ih j s

/-- A join that fails has a member that has failed. -/
theorem exists_of_failure? {large : Bool} {j : Join σ ρ} {e : StepError}
    (h : failure? large j = some e) : ∃ i : Nat, j[i]? = some (.finished (.error e)) := by
  induction j with
  | nil => cases h
  | cons p rest ih =>
    rcases p with state | e' | r
    · cases large with
      | true => cases h
      | false =>
        obtain ⟨i, hi⟩ := ih h
        exact ⟨i + 1, hi⟩
    · obtain rfl : e' = e := Option.some.inj h
      exact ⟨0, rfl⟩
    · obtain ⟨i, hi⟩ := ih h
      exact ⟨i + 1, hi⟩

/-- In a join with results all members have ended well. -/
theorem finished_of_results? {j : Join σ ρ} {rs : List ρ} (h : results? j = some rs) (i : Nat)
    (hi : i < j.length) : ∃ r, j[i]? = some (.finished (.ok r)) := by
  obtain rfl := results?_eq_some_iff.1 h
  rw [List.length_map] at hi
  exact ⟨rs[i], by rw [List.getElem?_map, List.getElem?_eq_getElem hi]; rfl⟩

end Join

namespace Convoy

/-- The rides that a visit to a convoy comes to, in order. -/
def order (c : Convoy) (s : Stage) : List Nat :=
  if c.isLarge then c.woken Ride.alarm? s.now else List.range c.length

/-- The visits to rides that a visit to a convoy makes. -/
def tour (recorded : Bool) (c : Convoy) (s : Stage) : List (Visit Ride Unit) :=
  Join.tour (Ride.poll recorded) c.isLarge (c.order s) c s

/-- What has become of a convoy whose rides have come so far. -/
def upshot (large : Bool) (c : Convoy) : Progress Convoy (Except StepError Unit) :=
  match Join.failure? large c, Join.results? c with
  | some e, _ => .finished (.error e)
  | none, some _ => .finished (.ok ())
  | none, none => .busy c

/-- **A visit to a convoy** makes the visits of its tour, and then looks at how far its rides have
come. -/
theorem poll_tours (recorded : Bool) (c : Convoy) (s : Stage) :
    ∃ c', Join.Tours (Ride.poll recorded) c s (c.tour recorded s) c' (c.poll recorded s).1 ∧
      (c.poll recorded s).2 = upshot c.isLarge c' := by
  have htours : Join.Tours (Ride.poll recorded) c s (c.tour recorded s) _ _ :=
    Join.tours_visit c.isLarge (c.order s) c s
  simp only [poll, Join.poll]
  rw [← order.eq_def]
  rcases hv : Join.visit (Ride.poll recorded) c.isLarge (c.order s) c s with ⟨s', c'⟩
  rw [hv] at htours
  refine ⟨c', ?_⟩
  unfold upshot
  rcases hf : Join.failure? c.isLarge c' with - | e
  · rcases hr : Join.results? c' with - | rs
    · exact ⟨htours, rfl⟩
    · exact ⟨htours, rfl⟩
  · exact ⟨htours, rfl⟩

end Convoy

/-! ### Deeds -/

/-- What an operation does to a target, and its end. -/
inductive Ride.Deed where
  | claimed
  | wrote (value : Float)
  | ended (result : Except StepError Unit)

/-- The write that a record is about, with its target. -/
def Record.write? (r : Record) : Option (String × Ride.Deed) :=
  match r.event with
  | .wrote target value => some (target, .wrote value)
  | _ => none

/-- The claims and writes between two moments, seen from outside: whether the generation of a target
has changed, and the writes that the journal has recorded since, each with its target.  The latest
is the first. -/
def Stage.deeds (target : String) (s s' : Stage) : List (String × Ride.Deed) :=
  (s'.journal.take (s'.journal.length - s.journal.length)).filterMap Record.write? ++
    if s'.driver.generation? target = s.driver.generation? target then []
    else [(target, .claimed)]

/-- How an operation ends, if it does. -/
def Progress.deeds {σ : Type} : Progress σ (Except StepError Unit) → List Ride.Deed
  | busy _ => []
  | finished result => [.ended result]

/-- The target of a ride. -/
def Ride.target : Ride → String
  | ahead target _ => target
  | moving m _ => m.target

/-- All deeds of a visit to a ride, the latest first. -/
def Visit.deeds (v : Visit Ride Unit) : List (String × Ride.Deed) :=
  v.outcome.deeds.map (fun deed => (v.state.target, deed)) ++
    Stage.deeds v.state.target v.before v.after

namespace Stage

variable {target : String} {s s₁ s' : Stage}

theorem deeds_eq {new : List Record} (h : s'.journal = new ++ s.journal) (target : String) :
    deeds target s s' = new.filterMap Record.write? ++
      if s'.driver.generation? target = s.driver.generation? target then []
      else [(target, .claimed)] := by
  have hnew : s'.journal.take (s'.journal.length - s.journal.length) = new := by
    rw [h, List.length_append, Nat.add_sub_cancel]
    exact List.take_left
  rw [deeds, hnew]

/-- What follows a claim and leaves the generation as it is adds its deeds to the claim. -/
theorem deeds_of_claim {new new₁ : List Record} (h₁ : s₁.journal = new₁ ++ s.journal)
    (hsilent : new₁.filterMap Record.write? = [])
    (hclaim : s₁.driver.generation? target ≠ s.driver.generation? target)
    (h : s'.journal = new ++ s₁.journal)
    (hkept : s'.driver.generation? target = s₁.driver.generation? target) :
    deeds target s s' = deeds target s₁ s' ++ [(target, .claimed)] := by
  have hjournal : s'.journal = (new ++ new₁) ++ s.journal := by
    rw [h, h₁, List.append_assoc]
  rw [deeds_eq hjournal, deeds_eq h, if_neg (by rwa [hkept]), if_pos hkept,
    List.filterMap_append, hsilent]

/-- A wait that is not over leaves all as it is. -/
theorem await_some {a a' : Alarm} (h : s.await a = (some a', s')) :
    a'.due = a.due ∧ s'.driver = s.driver ∧ s'.now = s.now ∧ s'.journal = s.journal := by
  unfold await at h
  split at h
  · cases h
  · split at h
    · cases h
      exact ⟨rfl, rfl, rfl, rfl⟩
    · cases h
      exact ⟨rfl, rfl, rfl, rfl⟩

theorem await_none {a : Alarm} (h : s.await a = (none, s')) :
    a.due ≤ s.now ∧ s' = s.spend := by
  refine ⟨(await_fst_eq_none_iff.1 (by rw [h])).1, ?_⟩
  unfold await at h
  split at h
  · cases h
    rfl
  · split at h <;> cases h

end Stage

/-! ### Paces -/

/-- A driver with another slot for a target. -/
abbrev Driver.put {α : Type} (d : Driver α) (target : String) (slot : Slot α) : Driver α :=
  { d with slots := d.slots.put target slot }

namespace Ride

/-- One pace of a ride at a moment: what becomes of a driver and of the ride, and its deeds, the
latest first. -/
inductive Pace (now : Nat) (d : Driver Float) :
    Ride → Driver Float → List Ride.Deed → Progress Ride (Except StepError Unit) → Prop
  | refuse {target : String} {animation : Animation Float} :
      d.slots.get? target = none →
      Pace now d (.ahead target animation) d [.ended (.error (.unknownTarget target))]
        (.finished (.error (.unknownTarget target)))
  | claim {target : String} {animation : Animation Float} {slot : Slot Float} {next : Alarm} :
      d.slots.get? target = some slot → next.due = now →
      Pace now d (.ahead target animation) (d.put target ⟨slot.value, slot.generation + 1⟩)
        [.claimed]
        (.busy (.moving ⟨target, animation, slot.value, slot.generation + 1, now⟩ next))
  | wait {m : Motion Float} {next next' : Alarm} :
      next'.due = next.due →
      Pace now d (.moving m next) d [] (.busy (.moving m next'))
  | giveUp {m : Motion Float} {next : Alarm} :
      next.due ≤ now → d.generation? m.target ≠ some m.generation →
      Pace now d (.moving m next) d [.ended (.ok ())] (.finished (.ok ()))
  | frame {m : Motion Float} {next next' : Alarm} :
      next.due ≤ now → d.generation? m.target = some m.generation → (m.valueAt now).2 = false →
      next'.due = m.nextFrame d.frame now →
      Pace now d (.moving m next) (d.put m.target ⟨(m.valueAt now).1, m.generation⟩)
        [.wrote (m.valueAt now).1] (.busy (.moving m next'))
  | finish {m : Motion Float} {next : Alarm} :
      next.due ≤ now → d.generation? m.target = some m.generation → (m.valueAt now).2 = true →
      Pace now d (.moving m next) (d.put m.target ⟨(m.valueAt now).1, m.generation⟩)
        [.ended (.ok ()), .wrote (m.valueAt now).1] (.finished (.ok ()))

variable {recorded : Bool} {m : Motion Float} {next : Alarm} {s : Stage}

/-- A report records no write. -/
theorem report_journal (recorded : Bool) (s : Stage) (event : Event)
    (h : Record.write? ⟨s.now, s.position.index, event⟩ = none) :
    ∃ new, (report recorded s event).journal = new ++ s.journal ∧
      new.filterMap Record.write? = [] := by
  cases recorded with
  | false => exact ⟨[], rfl, rfl⟩
  | true => exact ⟨[⟨s.now, s.position.index, event⟩], rfl, by simp [h]⟩

@[simp] theorem report_driver (recorded : Bool) (s : Stage) (event : Event) :
    (report recorded s event).driver = s.driver := by
  cases recorded <;> rfl

@[simp] theorem report_now (recorded : Bool) (s : Stage) (event : Event) :
    (report recorded s event).now = s.now := by
  cases recorded <;> rfl

/-- A ride that is under way makes one pace, and the journal records its writes. -/
structure Makes (m : Motion Float) (next : Alarm) (s : Stage) (writes : List Ride.Deed)
    (s' : Stage) (p : Progress Ride (Except StepError Unit)) : Prop where
  now : s'.now = s.now
  generation : s'.driver.generation? m.target = s.driver.generation? m.target
  journal : ∃ new, s'.journal = new ++ s.journal ∧
    new.filterMap Record.write? = writes.map fun deed => (m.target, deed)
  pace : Pace s.now s.driver (.moving m next) s'.driver (p.deeds ++ writes) p

/-- What a ride does when its alarm has gone off. -/
theorem write_makes (s : Stage) (m : Motion Float) (recorded : Bool) (hdue : next.due ≤ s.now) :
    ∃ writes, Makes m next s writes (write recorded m s).1 (write recorded m s).2 := by
  rcases hframe : m.frame? s.driver s.now with - | d <;> simp only [write, hframe]
  · obtain ⟨new, hnew, hsilent⟩ := report_journal recorded s (.animated m.target true) rfl
    refine ⟨[], by simp, by simp, ⟨new, hnew, hsilent⟩, ?_⟩
    rw [report_driver]
    refine .giveUp hdue fun hgeneration => ?_
    obtain ⟨slot, hslot, hg⟩ := Option.map_eq_some_iff.1 hgeneration
    simp [Motion.frame?, Driver.write?, hslot, hg] at hframe
  · obtain ⟨hgeneration, rfl⟩ := Driver.write?_eq_some hframe
    obtain ⟨s₁, hs₁⟩ : ∃ s₁ : Stage, s₁ = Stage.note
        { s with driver := s.driver.put m.target ⟨(m.valueAt s.now).1, m.generation⟩ }
        (.wrote m.target (m.valueAt s.now).1) := ⟨_, rfl⟩
    have hkept : s₁.driver.generation? m.target = s.driver.generation? m.target := by
      rw [hs₁, hgeneration]
      exact (Driver.generation?_put ..).trans (if_pos rfl)
    have hjournal : s₁.journal = [⟨s.now, s.position.index, .wrote m.target (m.valueAt s.now).1⟩]
        ++ s.journal := by rw [hs₁]; rfl
    have hdriver : s₁.driver = s.driver.put m.target ⟨(m.valueAt s.now).1, m.generation⟩ := by
      rw [hs₁]
      rfl
    have hnow : s₁.now = s.now := by rw [hs₁]; rfl
    rw [← hs₁]
    refine ⟨[.wrote (m.valueAt s.now).1], ?_⟩
    split
    · rename_i hlast
      obtain ⟨new, hnew, hsilent⟩ := report_journal recorded s₁ (.animated m.target true) rfl
      refine ⟨by simp [hnow], by simp [hkept],
        ⟨_, by rw [hnew, hjournal, ← List.append_assoc], ?_⟩, ?_⟩
      · rw [List.filterMap_append, hsilent]
        rfl
      · rw [report_driver, hdriver]
        exact .finish hdue hgeneration hlast
    · rename_i hmore
      refine ⟨hnow, hkept, ⟨_, hjournal, rfl⟩, ?_⟩
      have hnext : (s₁.setAlarm { due := m.nextFrame s₁.driver.frame s₁.now }).1.due
          = m.nextFrame s.driver.frame s.now := by
        rw [hnow, hdriver]
        rfl
      have hpace := Pace.frame hdue hgeneration (by simpa using hmore) hnext
      rw [← hdriver] at hpace
      exact hpace

/-- What a ride that is under way does when it is visited. -/
theorem frame_makes (recorded : Bool) (m : Motion Float) (next : Alarm) (s : Stage) :
    ∃ writes, Makes m next s writes (frame recorded m next s).1 (frame recorded m next s).2 := by
  rcases ha : s.await next with ⟨- | a, s₁⟩ <;> simp only [frame, ha]
  · obtain ⟨hdue, rfl⟩ := Stage.await_none ha
    obtain ⟨writes, hmakes⟩ := write_makes s.spend m recorded hdue
    exact ⟨writes, hmakes.now, hmakes.generation, hmakes.journal, hmakes.pace⟩
  · obtain ⟨hdue, hdriver, hnow, hjournal⟩ := Stage.await_some ha
    refine ⟨[], hnow, by rw [hdriver], ⟨[], hjournal, rfl⟩, ?_⟩
    rw [hdriver]
    exact .wait hdue

/-- One pace, or two. -/
inductive Paces (now : Nat) (d : Driver Float) :
    Ride → Driver Float → List Ride.Deed → Progress Ride (Except StepError Unit) → Prop
  | one {r : Ride} {d' : Driver Float} {deeds : List Ride.Deed}
      {p : Progress Ride (Except StepError Unit)} :
      Pace now d r d' deeds p → Paces now d r d' deeds p
  | two {r r₁ : Ride} {d₁ d' : Driver Float} {first second : List Ride.Deed}
      {p : Progress Ride (Except StepError Unit)} :
      Pace now d r d₁ first (.busy r₁) → Pace now d₁ r₁ d' second p →
      Paces now d r d' (second ++ first) p

/-- A pace leaves a ride with its target. -/
theorem Pace.target {now : Nat} {d d' : Driver Float} {r r' : Ride} {deeds : List Ride.Deed}
    (h : Pace now d r d' deeds (.busy r')) : r'.target = r.target := by
  cases h <;> rfl

/-- A ride that is over has come to its end. -/
theorem Pace.ended {now : Nat} {d d' : Driver Float} {r : Ride} {deeds : List Ride.Deed}
    {result : Except StepError Unit} (h : Pace now d r d' deeds (.finished result)) :
    Ride.Deed.ended result ∈ deeds := by
  cases h <;> exact List.mem_cons_self

theorem Pace.finished {now : Nat} {d d' : Driver Float} {r : Ride} {deeds : List Ride.Deed}
    {p : Progress Ride (Except StepError Unit)} {result : Except StepError Unit}
    (h : Pace now d r d' deeds p) (hend : Ride.Deed.ended result ∈ deeds) : p = .finished result := by
  cases h <;> simp_all

/-- A pace leaves the time between two frames as it is. -/
theorem Pace.frame_eq {now : Nat} {d d' : Driver Float} {r : Ride} {deeds : List Ride.Deed}
    {p : Progress Ride (Except StepError Unit)} (h : Pace now d r d' deeds p) :
    d'.frame = d.frame := by
  cases h <;> rfl

/-- A ride that is superseded waits for its next frame, and then gives up. -/
theorem Pace.superseded {now : Nat} {d d' : Driver Float} {deeds : List Ride.Deed}
    {p : Progress Ride (Except StepError Unit)} (h : Pace now d (.moving m next) d' deeds p)
    (hle : now ≤ next.due) (hg : d.generation? m.target ≠ some m.generation) :
    (deeds = [] ∧ ∃ next', p = .busy (.moving m next') ∧ next'.due = next.due) ∨
      deeds = [.ended (.ok ())] ∧ p = .finished (.ok ()) ∧ now = next.due := by
  cases h with
  | wait hdue => exact .inl ⟨rfl, _, rfl, hdue⟩
  | giveUp hdue _ => exact .inr ⟨rfl, rfl, Nat.le_antisymm hle hdue⟩
  | frame _ hsame _ _ => exact absurd hsame hg
  | finish _ hsame _ => exact absurd hsame hg

theorem Makes.deeds {writes : List Ride.Deed} {s' : Stage} {p : Progress Ride (Except StepError Unit)}
    (h : Makes m next s writes s' p) (i : Nat) :
    Visit.deeds ⟨i, .moving m next, s, s', p⟩
      = (p.deeds ++ writes).map fun deed => (m.target, deed) := by
  obtain ⟨new, hnew, hwrites⟩ := h.journal
  show p.deeds.map (fun deed => (m.target, deed)) ++ Stage.deeds m.target s s' = _
  rw [Stage.deeds_eq hnew, if_pos h.generation, hwrites, List.append_nil, List.map_append]

/-- The stage after a claim, at which the alarm of a ride goes off at once. -/
structure Claims (target : String) (slot : Slot Float) (next : Alarm) (s s₁ : Stage) : Prop where
  known : s.driver.slots.get? target = some slot
  due : next.due = s.now
  now : s₁.now = s.now
  driver : s₁.driver = s.driver.put target ⟨slot.value, slot.generation + 1⟩
  journal : ∃ new, s₁.journal = new ++ s.journal ∧ new.filterMap Record.write? = []

section Claim

variable {target : String} {animation : Animation Float} {slot : Slot Float} {s₁ s' : Stage}

theorem Claims.generation?_ne (h : Claims target slot next s s₁) :
    s₁.driver.generation? target ≠ s.driver.generation? target := by
  rw [h.driver, Driver.generation?_put, if_pos rfl, Driver.generation?, h.known]
  simp

/-- A ride that claims its target and then makes a pace. -/
theorem Makes.deeds_of_claim {writes : List Ride.Deed} {p : Progress Ride (Except StepError Unit)}
    (h : Makes m next s₁ writes s' p) (hclaim : Claims m.target slot next s s₁) (i : Nat) :
    Visit.deeds ⟨i, .ahead m.target animation, s, s', p⟩
      = ((p.deeds ++ writes) ++ [Ride.Deed.claimed]).map fun deed => (m.target, deed) := by
  obtain ⟨new, hnew, hsilent⟩ := hclaim.journal
  obtain ⟨new', hnew', hwrites⟩ := h.journal
  show p.deeds.map (fun deed => (m.target, deed)) ++ Stage.deeds m.target s s' = _
  rw [Stage.deeds_of_claim hnew hsilent hclaim.generation?_ne hnew' h.generation,
    Stage.deeds_eq hnew', if_pos h.generation, hwrites]
  simp

/-- A ride that has not begun claims its target, if it is known, and makes a pace at once. -/
theorem poll_known (recorded : Bool) (animation : Animation Float)
    (hslot : s.driver.slots.get? target = some slot) :
    ∃ (next : Alarm) (s₁ : Stage) (writes : List Ride.Deed), Claims target slot next s s₁ ∧
      Makes ⟨target, animation, slot.value, slot.generation + 1, s.now⟩ next s₁ writes
        (poll recorded (.ahead target animation) s).1
        (poll recorded (.ahead target animation) s).2 := by
  obtain ⟨s₀, hs₀⟩ : ∃ s₀, s₀ = report recorded s (.animate target animation) := ⟨_, rfl⟩
  obtain ⟨new, hnew, hsilent⟩ := report_journal recorded s (.animate target animation) rfl
  have hdriver : s₀.driver = s.driver := hs₀ ▸ report_driver ..
  have hnow : s₀.now = s.now := hs₀ ▸ report_now ..
  rw [← hs₀] at hnew
  have hlaunch : s₀.driver.launch? target animation s₀.now
      = some (⟨target, animation, slot.value, slot.generation + 1, s.now⟩,
        s.driver.put target ⟨slot.value, slot.generation + 1⟩) := by
    simp [Driver.launch?, Driver.claim?, hdriver, hslot, hnow]
  obtain ⟨s₁, hs₁⟩ : ∃ s₁ : Stage,
      s₁ = { s₀ with driver := s.driver.put target ⟨slot.value, slot.generation + 1⟩ } := ⟨_, rfl⟩
  have hclaims : Claims target slot (s₁.alarmAfter .zero) s s₁ := by
    subst hs₁
    exact ⟨hslot, hnow, hnow, rfl, new, hnew, hsilent⟩
  simp only [poll, ← hs₀, hlaunch, ← hs₁]
  split
  · obtain ⟨writes, hmakes⟩ := write_makes s₁
      ⟨target, animation, slot.value, slot.generation + 1, s.now⟩ recorded
      (Nat.le_refl (s₁.alarmAfter .zero).due)
    exact ⟨_, s₁, writes, hclaims, hmakes⟩
  · obtain ⟨writes, hmakes⟩ := frame_makes recorded _ (s₁.alarmAfter .zero) s₁
    exact ⟨_, s₁, writes, hclaims, hmakes⟩

/-- A ride to an unknown target is refused. -/
theorem poll_unknown (recorded : Bool) (animation : Animation Float)
    (hslot : s.driver.slots.get? target = none) :
    (poll recorded (.ahead target animation) s).1.now = s.now ∧
    (poll recorded (.ahead target animation) s).1.driver = s.driver ∧
    (poll recorded (.ahead target animation) s).2 = .finished (.error (.unknownTarget target)) ∧
    Stage.deeds target s (poll recorded (.ahead target animation) s).1 = [] := by
  obtain ⟨s₀, hs₀⟩ : ∃ s₀, s₀ = report recorded s (.animate target animation) := ⟨_, rfl⟩
  obtain ⟨new, hnew, hsilent⟩ := report_journal recorded s (.animate target animation) rfl
  have hdriver : s₀.driver = s.driver := hs₀ ▸ report_driver ..
  have hnow : s₀.now = s.now := hs₀ ▸ report_now ..
  rw [← hs₀] at hnew
  have hlaunch : s₀.driver.launch? target animation s₀.now = none := by
    simp [Driver.launch?, Driver.claim?, hdriver, hslot]
  obtain ⟨new', hnew', hsilent'⟩ := report_journal recorded s₀ (.animated target false) rfl
  simp only [poll, ← hs₀, hlaunch]
  refine ⟨by simp [hnow], by simp [hdriver], trivial, ?_⟩
  have hjournal : (report recorded s₀ (.animated target false)).journal
      = (new' ++ new) ++ s.journal := by rw [hnew', hnew, List.append_assoc]
  rw [Stage.deeds_eq hjournal, if_pos (by rw [report_driver, hdriver]), List.filterMap_append,
    hsilent, hsilent']
  rfl

end Claim

/-- **A visit to a ride** is one pace or, for a ride that has not begun, two; what can be seen of it
from outside are its deeds, all on its own target. -/
theorem poll_paces (recorded : Bool) (r : Ride) (s : Stage) (i : Nat) :
    (poll recorded r s).1.now = s.now ∧ ∃ deeds,
      Visit.deeds ⟨i, r, s, (poll recorded r s).1, (poll recorded r s).2⟩
        = deeds.map (fun deed => (r.target, deed)) ∧
      Paces s.now s.driver r (poll recorded r s).1.driver deeds (poll recorded r s).2 := by
  cases r with
  | moving m next =>
    obtain ⟨writes, hmakes⟩ := frame_makes recorded m next s
    exact ⟨hmakes.now, _, hmakes.deeds i, .one hmakes.pace⟩
  | ahead target animation =>
    rcases hslot : s.driver.slots.get? target with - | slot
    · obtain ⟨hnow, hdriver, hp, hdeeds⟩ := poll_unknown recorded animation hslot
      refine ⟨hnow, [.ended (.error (.unknownTarget target))], ?_, ?_⟩
      · rw [Visit.deeds, hp]
        show [_] ++ Stage.deeds target s _ = _
        rw [hdeeds]
        rfl
      · rw [hdriver, hp]
        exact .one (.refuse hslot)
    · obtain ⟨next, s₁, writes, hclaims, hmakes⟩ := poll_known recorded animation hslot
      have hpace := hmakes.pace
      rw [hclaims.now, hclaims.driver] at hpace
      exact ⟨hmakes.now.trans hclaims.now, _, hmakes.deeds_of_claim hclaims i,
        .two (.claim hslot hclaims.due) hpace⟩

end Ride

end Timeline
