/-
Timeline/Proofs/Stage/Generations.lean

Generations: what a later claim on a target does to the rides that are under way.

The generation of a target never falls (`Driver.Touched.precedes`), and a ride that has
begun holds a claim of at most that generation (`Ride.Claimed`).  So whoever claims a
target supersedes all rides on it.  Main results (`Ride.poll_spares`, and for whatever
holds of each ride `Convoy.keeps`): rides that are superseded leave their targets
alone, however often they are visited, and record nothing about them.
-/
import Timeline.Proofs.Stage.Courses

namespace Timeline

open Relation Stage

/-! ### Generations only rise -/

namespace Driver

variable {α : Type} {d d' d'' : Driver α}

/-- Every target of a driver is still there, and its generation has not fallen. -/
def Precedes (d d' : Driver α) : Prop :=
  ∀ target g, d.generation? target = some g → ∃ g', d'.generation? target = some g' ∧ g ≤ g'

theorem Precedes.refl (d : Driver α) : d.Precedes d :=
  fun _ g hg => ⟨g, hg, Nat.le_refl g⟩

theorem Precedes.trans (h : d.Precedes d') (h' : d'.Precedes d'') : d.Precedes d'' := by
  intro target g hg
  obtain ⟨g', hg', hle⟩ := h target g hg
  obtain ⟨g'', hg'', hle'⟩ := h' target g' hg'
  exact ⟨g'', hg'', Nat.le_trans hle hle'⟩

theorem generation?_put (d : Driver α) (target other : String) (slot : Slot α) :
    ({ d with slots := d.slots.put target slot } : Driver α).generation? other
      = if other = target then some slot.generation else d.generation? other := by
  by_cases h : other = target <;> simp [generation?, h]

/-- A write under a generation is one of a target that has it. -/
theorem write?_eq_some {target : String} {value : α} {generation : Nat}
    (h : d.write? target value generation = some d') :
    d.generation? target = some generation ∧
      d' = { d with slots := d.slots.put target ⟨value, generation⟩ } := by
  unfold write? at h
  split at h
  · cases h
  · rename_i slot hslot
    split at h
    · rename_i hgeneration
      exact ⟨by rw [generation?, hslot, ← hgeneration]; rfl, (Option.some.inj h).symm⟩
    · cases h

theorem Touch.precedes (h : d.Touch d') : d.Precedes d' := by
  intro other g hg
  cases h with
  | claim hclaim =>
    obtain ⟨old, hold, rfl, rfl⟩ := claim?_eq_some hclaim
    rw [generation?_put]
    split
    · rename_i heq
      rw [heq, generation?, hold] at hg
      cases hg
      exact ⟨_, rfl, Nat.le_succ _⟩
    · exact ⟨g, hg, Nat.le_refl g⟩
  | write hwrite =>
    obtain ⟨hgeneration, rfl⟩ := write?_eq_some hwrite
    rw [generation?_put]
    split
    · rename_i heq
      rw [heq, hgeneration] at hg
      cases hg
      exact ⟨_, rfl, Nat.le_refl _⟩
    · exact ⟨g, hg, Nat.le_refl g⟩

theorem Touch.frame (h : d.Touch d') : d'.frame = d.frame := by
  cases h with
  | claim hclaim =>
    obtain ⟨old, -, -, rfl⟩ := claim?_eq_some hclaim
    rfl
  | write hwrite =>
    obtain ⟨-, rfl⟩ := write?_eq_some hwrite
    rfl

/-- Any number of claims and writes. -/
abbrev Touched : Driver α → Driver α → Prop :=
  ReflTransGen Touch

namespace Touched

/-- **Generations never fall**, whatever happens to a driver. -/
theorem precedes (h : d.Touched d') : d.Precedes d' := by
  induction h with
  | refl => exact .refl d
  | tail _ htouch ih => exact ih.trans htouch.precedes

theorem frame (h : d.Touched d') : d'.frame = d.frame := by
  induction h with
  | refl => rfl
  | tail _ htouch ih => exact htouch.frame.trans ih

theorem isSome_get? (h : d.Touched d') (target : String) :
    (d'.get? target).isSome = (d.get? target).isSome := by
  induction h with
  | refl => rfl
  | tail _ htouch ih => exact (htouch.isSome_get? target).trans ih

end Touched

end Driver

/-- Those who act on the stage claim and write targets, and do nothing else to the driver. -/
theorem Stage.Acts.touched {B : Bounds} {s s' : Stage} (h : Acts B s s') :
    s.driver.Touched s'.driver := by
  induction h with
  | refl => exact .refl
  | tail _ hact ih =>
    cases hact with
    | touch htouch => exact ih.tail htouch
    | note _ _ => exact ih
    | spend => exact ih
    | setAlarm _ => exact ih
    | count _ => exact ih

/-! ### What every visit to a member of a join keeps -/

namespace Join

variable {σ ρ : Type} {pollOne : σ → Stage → Stage × Progress σ (Except StepError ρ)}
  {alarm? : σ → Option Alarm} {I : Stage → σ → Prop} {K : Stage → Stage → Prop}

/-- A visit to a member changes the stage in a certain way only, and that way leaves alone what is
known of all members that are under way. -/
structure Keeps (pollOne : σ → Stage → Stage × Progress σ (Except StepError ρ))
    (I : Stage → σ → Prop) (K : Stage → Stage → Prop) : Prop where
  refl : ∀ s, K s s
  trans : ∀ {s s' s''}, K s s' → K s' s'' → K s s''
  mono : ∀ {s s' state}, K s s' → I s state → I s' state
  one : ∀ {s state}, I s state → K s (pollOne state s).1 ∧
    ∀ state', (pollOne state s).2 = .busy state' → I (pollOne state s).1 state'

theorem Keeps.set (h : Keeps pollOne I K) {s s' : Stage} {j : Join σ ρ}
    {p : Progress σ (Except StepError ρ)} (hj : ∀ state, .busy state ∈ j → I s state)
    (hs : K s s') (hp : ∀ state, p = .busy state → I s' state) (i : Nat) :
    ∀ state, .busy state ∈ j.set i p → I s' state := by
  intro state hstate
  rcases List.mem_or_eq_of_mem_set hstate with hold | hnew
  · exact h.mono hs (hj state hold)
  · exact hp state hnew.symm

theorem Keeps.visits (h : Keeps pollOne I K) (large : Bool) (order : List Nat) {j : Join σ ρ}
    {s : Stage} (hj : ∀ state, .busy state ∈ j → I s state) :
    K s (visit pollOne large order j s).1 ∧
      ∀ state, .busy state ∈ (visit pollOne large order j s).2 →
        I (visit pollOne large order j s).1 state := by
  induction order generalizing j s with
  | nil => exact ⟨h.refl s, hj⟩
  | cons i rest ih =>
    rcases hi : j[i]? with - | (state | result) <;> simp only [visit, hi]
    · exact ih hj
    · obtain ⟨hkept, hbusy⟩ := h.one (hj state (List.mem_of_getElem? hi))
      rcases hp : pollOne state s with ⟨s', state' | result⟩ <;> rw [hp] at hkept hbusy
      · obtain ⟨hrest, hall⟩ := ih (h.set hj hkept (p := .busy state')
          (fun _ he => by cases he; exact hbusy _ rfl) i)
        exact ⟨h.trans hkept hrest, hall⟩
      · have hset := h.set hj hkept (p := .finished result) (fun _ he => by cases he) i
        dsimp only
        split
        · exact ⟨hkept, hset⟩
        · obtain ⟨hrest, hall⟩ := ih hset
          exact ⟨h.trans hkept hrest, hall⟩
    · exact ih hj

theorem Keeps.poll (h : Keeps pollOne I K) (alarm? : σ → Option Alarm) {j : Join σ ρ} {s : Stage}
    (hj : ∀ state, .busy state ∈ j → I s state) :
    K s (Join.poll pollOne alarm? j s).1 ∧
      ∀ j', (Join.poll pollOne alarm? j s).2 = .busy j' → ∀ state, .busy state ∈ j' →
        I (Join.poll pollOne alarm? j s).1 state := by
  obtain ⟨hkept, hall⟩ := h.visits j.isLarge
    (if j.isLarge then j.woken alarm? s.now else List.range j.length) hj
  simp only [Join.poll]
  generalize visit pollOne j.isLarge _ j s = result at hkept hall
  obtain ⟨s', j'⟩ := result
  dsimp only at hkept hall ⊢
  split
  · exact ⟨hkept, fun _ he => by cases he⟩
  · exact ⟨hkept, fun _ he => by cases he⟩
  · refine ⟨hkept, fun _ he => ?_⟩
    cases he
    exact hall

end Join

/-! ### Rides and their claims -/

namespace Ride

variable {recorded : Bool} {motion : Motion Float} {next : Alarm} {s : Stage} {r : Ride}

theorem write_busy (h : (write recorded motion s).2 = .busy r) : ∃ next, r = .moving motion next := by
  unfold write at h
  split at h
  · cases h
  · dsimp only at h
    split at h
    · cases h
    · cases h
      exact ⟨_, rfl⟩

theorem frame_busy (h : (frame recorded motion next s).2 = .busy r) :
    ∃ next, r = .moving motion next := by
  unfold frame at h
  split at h
  · exact write_busy h
  · cases h
    exact ⟨_, rfl⟩

/-- A ride that has begun holds a claim that the target has seen. -/
def Claimed (d : Driver Float) : Ride → Prop
  | ahead _ _ => True
  | moving motion _ => ∃ g, d.generation? motion.target = some g ∧ motion.generation ≤ g

theorem Claimed.mono {d d' : Driver Float} (hd : d.Precedes d') (h : r.Claimed d) :
    r.Claimed d' := by
  cases r with
  | ahead _ _ => trivial
  | moving motion next =>
    obtain ⟨g, hg, hle⟩ := h
    obtain ⟨g', hg', hle'⟩ := hd _ g hg
    exact ⟨g', hg', Nat.le_trans hle hle'⟩

/-- **Claims stand.**  A visit to a ride leaves it with a claim that the target has seen. -/
theorem poll_keeps (recorded : Bool) :
    Join.Keeps (poll recorded) (fun s r => r.Claimed s.driver)
      (fun s s' => s.driver.Precedes s'.driver) where
  refl _ := .refl _
  trans := Driver.Precedes.trans
  mono := Claimed.mono
  one {s r} h := by
    have hprecedes : s.driver.Precedes (poll recorded r s).1.driver :=
      (poll_acts recorded r s).touched.precedes
    refine ⟨hprecedes, fun r' hr => ?_⟩
    cases r with
    | moving motion next =>
      obtain ⟨next', rfl⟩ := frame_busy hr
      exact Claimed.mono (r := .moving motion next') hprecedes h
    | ahead target animation =>
      obtain ⟨s₁, hs₁⟩ : ∃ s₁, s₁ = report recorded s (.animate target animation) := ⟨_, rfl⟩
      simp only [poll, ← hs₁] at hr ⊢
      rcases hl : s₁.driver.launch? target animation s₁.now with - | ⟨motion, d⟩ <;>
        simp only [hl] at hr ⊢
      · cases hr
      · -- the claim of the ride is the latest one
        obtain ⟨slot, hclaim, rfl⟩ := Driver.launch?_eq_some hl
        obtain ⟨old, hold, rfl, rfl⟩ := Driver.claim?_eq_some hclaim
        have hclaimed (next : Alarm) : Claimed
            { s₁.driver with
              slots := s₁.driver.slots.put target ⟨old.value, old.generation + 1⟩ }
            (.moving ⟨target, animation, old.value, old.generation + 1, s₁.now⟩ next) := by
          refine ⟨old.generation + 1, ?_, Nat.le_refl _⟩
          rw [Driver.generation?_put, if_pos rfl]
        split at hr
        · rename_i hzero
          obtain ⟨next', rfl⟩ := write_busy hr
          rw [if_pos hzero]
          exact (hclaimed next').mono (write_meets (B := .free) recorded _ _).1.touched.precedes
        · rename_i hlong
          obtain ⟨next', rfl⟩ := frame_busy hr
          rw [if_neg hlong]
          exact (hclaimed next').mono (frame_meets (B := .free) recorded _ _ _).1.touched.precedes

/-! ### Superseded rides -/

/-- A ride has begun, and if its target is one of some, a later claim has superseded it. -/
def Superseded (names : List String) (d : Driver Float) : Ride → Prop
  | ahead _ _ => False
  | moving motion _ => motion.target ∈ names →
      ∀ g, d.generation? motion.target = some g → motion.generation < g

end Ride

/-- What happens on the stage leaves some targets and the position alone, and all that is recorded
are values that other targets take and calls that are over. -/
structure Stage.Spares (names : List String) (s s' : Stage) : Prop where
  slots : ∀ target ∈ names, s'.driver.slots.get? target = s.driver.slots.get? target
  position : s'.position = s.position
  journal : ∃ new, s'.journal = new ++ s.journal ∧
    ∀ r ∈ new, (∃ call result, r.event = .returned call result) ∨
      ∃ target value, r.event = .wrote target value ∧ target ∉ names

namespace Stage.Spares

variable {names : List String} {s s' s'' : Stage}

theorem refl (names : List String) (s : Stage) : Spares names s s :=
  ⟨fun _ _ => rfl, rfl, [], rfl, by simp⟩

theorem trans (h : Spares names s s') (h' : Spares names s' s'') : Spares names s s'' where
  slots target ht := (h'.slots target ht).trans (h.slots target ht)
  position := h'.position.trans h.position
  journal := Stage.journal_trans h.journal h'.journal

/-- Nothing is touched and nothing recorded. -/
theorem of_eq (hdriver : s'.driver = s.driver) (hposition : s'.position = s.position)
    (hjournal : s'.journal = s.journal) : Spares names s s' :=
  ⟨fun _ _ => by rw [hdriver], hposition, [], hjournal, by simp⟩

theorem await (s : Stage) (a : Alarm) : Spares names s (s.await a).2 := by
  unfold Stage.await
  split
  · exact of_eq rfl rfl rfl
  · split
    · exact refl names s
    · exact of_eq rfl rfl rfl

theorem generation? (h : Spares names s s') {target : String} (ht : target ∈ names) :
    s'.driver.generation? target = s.driver.generation? target := by
  unfold Driver.generation?
  rw [h.slots target ht]

end Stage.Spares

namespace Ride

variable {names : List String} {s s' : Stage} {r : Ride}

theorem Superseded.mono (hs : s.Spares names s') (h : r.Superseded names s.driver) :
    r.Superseded names s'.driver := by
  cases r with
  | ahead _ _ => exact h
  | moving motion next =>
    intro ht g hg
    rw [hs.generation? ht] at hg
    exact h ht g hg

/-- A frame of a ride leaves alone all targets for which it is superseded. -/
theorem write_spares {motion : Motion Float} {next : Alarm}
    (h : (moving motion next).Superseded names s.driver) :
    s.Spares names (write false motion s).1 := by
  rcases hframe : motion.frame? s.driver s.now with - | d <;> simp only [write, hframe]
  · exact .refl names s
  · obtain ⟨hgeneration, rfl⟩ := Driver.write?_eq_some hframe
    have hnot : motion.target ∉ names := fun ht =>
      Nat.lt_irrefl _ (h ht _ hgeneration)
    have hwrote : s.Spares names
        ({ s with
            driver := { s.driver with
              slots := s.driver.slots.put motion.target
                ⟨(motion.valueAt s.now).1, motion.generation⟩ } }.note
          (.wrote motion.target (motion.valueAt s.now).1)) := by
      refine ⟨fun target ht => ?_, rfl, [_], rfl, fun r hr => ?_⟩
      · refine (Table.get?_put ..).trans (if_neg ?_)
        rintro rfl
        exact hnot ht
      · rw [List.mem_singleton.1 hr]
        exact .inr ⟨_, _, rfl, hnot⟩
    split
    · exact hwrote
    · exact hwrote.trans (.of_eq rfl rfl rfl)

/-- **Superseded rides leave their targets alone.** -/
theorem poll_spares (names : List String) :
    Join.Keeps (poll false) (fun s r => r.Superseded names s.driver) (Stage.Spares names) where
  refl := .refl names
  trans := .trans
  mono := Superseded.mono
  one {s r} h := by
    cases r with
    | ahead _ _ => exact h.elim
    | moving motion next =>
      have hspares : s.Spares names (frame false motion next s).1 := by
        have hawait : s.Spares names (s.await next).2 := .await s next
        rcases ha : s.await next with ⟨- | a, s'⟩ <;> rw [ha] at hawait <;> simp only [frame, ha]
        · have hsuperseded : (Ride.moving motion next).Superseded names s'.driver := h.mono hawait
          exact hawait.trans (write_spares hsuperseded)
        · exact hawait
      refine ⟨hspares, fun r' hr => ?_⟩
      obtain ⟨next', rfl⟩ := frame_busy hr
      exact Superseded.mono (r := .moving motion next') hspares h

end Ride

/-! ### Convoys -/

namespace Convoy

variable {recorded : Bool} {I : Stage → Ride → Prop} {K : Stage → Stage → Prop} {c c' : Convoy}
  {s : Stage} {names : List String}

/-- What every visit to a ride keeps, a visit to a convoy does. -/
theorem keeps (h : Join.Keeps (Ride.poll recorded) I K) (hc : ∀ r, .busy r ∈ c → I s r) :
    K s (c.poll recorded s).1 ∧
      ∀ c', (c.poll recorded s).2 = .busy c' → ∀ r, .busy r ∈ c' →
        I (c.poll recorded s).1 r := by
  obtain ⟨hkept, hall⟩ := h.poll Ride.alarm? hc
  unfold Convoy.poll
  rcases hp : Join.poll (Ride.poll recorded) Ride.alarm? c s with ⟨s', c' | result⟩ <;>
    rw [hp] at hkept hall <;> dsimp only
  · refine ⟨hkept, fun _ he => ?_⟩
    cases he
    exact hall _ rfl
  · exact ⟨hkept, fun _ he => by cases he⟩

/-- All rides of a convoy that was visited have begun. -/
theorem isSome_alarm?_of_poll_busy (h : (c.poll recorded s).2 = .busy c') {r : Ride}
    (hr : .busy r ∈ c') : r.alarm?.isSome := by
  unfold Convoy.poll at h
  rcases hp : Join.poll (Ride.poll recorded) Ride.alarm? c s with ⟨s', c₁ | result⟩ <;>
    simp only [hp] at h
  · cases h
    exact Join.isSome_alarm?_of_poll_busy (Ride.poll_meets (B := .free) recorded)
      (c.meets_of_error fun _ => trivial) (Bounds.free_covers s) (by rw [hp]) hr
  · cases h

end Convoy

/-! ### Setting a target -/

/-- Setting a target claims it. -/
theorem Stage.get?_slots_set (s : Stage) (target other : String) (value : Float) :
    (s.set target value).2.driver.slots.get? other
      = if other = target then
          (s.driver.slots.get? target).map fun slot => ⟨value, slot.generation + 1⟩
        else s.driver.slots.get? other := by
  rcases hslot : s.driver.slots.get? target with - | slot
  · have hnone : s.driver.set? target value = none := by
      simp [Driver.set?, Driver.claim?, hslot]
    simp only [Stage.set, hnone]
    split
    · rename_i heq
      rw [heq, hslot]
      rfl
    · rfl
  · have hsome : s.driver.set? target value = some { s.driver with
        slots := (s.driver.slots.put target ⟨slot.value, slot.generation + 1⟩).put target
          ⟨value, slot.generation + 1⟩ } := by
      simp [Driver.set?, Driver.claim?, Driver.write?, hslot]
    simp only [Stage.set, hsome]
    show (Table.put _ _ _).get? other = _
    rw [Table.get?_put, Table.get?_put]
    split <;> rfl

end Timeline
