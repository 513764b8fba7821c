/-
Timeline/Values/Driver.lean

The driver of the values: one number and one generation for every target.
Whoever wants to write a target claims it first, which raises its generation; a
write under an older generation is refused, so that a later claim supersedes all
that was going on before.
-/
import Timeline.Values.Animation
import Timeline.Table

namespace Timeline

/-- A value and the number of claims on it. -/
structure Slot (α : Type) where
  value : α
  generation : Nat
deriving Repr

/-- The values of all targets. -/
structure Driver (α : Type) where
  slots : Table (Slot α) := {}
  /-- The time between two frames of an animation. -/
  frame : Duration := .ofMillis 16

namespace Driver

variable {α : Type}

/-- A driver of the given targets, with so many milliseconds between two frames; of two values of one
target the later stands. -/
def ofValues (values : List (String × α)) (frame : Nat) : Driver α :=
  ⟨.ofList (values.map fun (target, value) => (target, ⟨value, 0⟩)), .ofMillis frame⟩

/-- The value of a target. -/
def get? (d : Driver α) (target : String) : Option α :=
  (d.slots.get? target).map Slot.value

/-- The generation of a target. -/
def generation? (d : Driver α) (target : String) : Option Nat :=
  (d.slots.get? target).map Slot.generation

/-- The names of all targets, in ascending order. -/
def targets (d : Driver α) : List String :=
  d.slots.sortedNames

/-- The targets with their values, by name. -/
def values (d : Driver α) : List (String × α) :=
  d.targets.filterMap fun target => (d.get? target).map fun value => (target, value)

/-- Claim a target: its value, its new generation, and the driver after the claim.  Absent for an
unknown target. -/
def claim? (d : Driver α) (target : String) : Option (Slot α × Driver α) :=
  (d.slots.get? target).map fun slot =>
    let claimed : Slot α := ⟨slot.value, slot.generation + 1⟩
    (claimed, { d with slots := d.slots.put target claimed })

/-- Write a target under a generation.  Absent when the target is unknown or a later claim has
superseded the generation. -/
def write? (d : Driver α) (target : String) (value : α) (generation : Nat) : Option (Driver α) :=
  match d.slots.get? target with
  | none => none
  | some slot =>
    if slot.generation = generation then
      some { d with slots := d.slots.put target ⟨value, generation⟩ }
    else none

/-- Claim a target and write it at once.  Absent for an unknown target. -/
def set? (d : Driver α) (target : String) (value : α) : Option (Driver α) :=
  (d.claim? target).bind fun (slot, d) => d.write? target value slot.generation

/-! ### What a claim and a write do -/

theorem claim?_eq_some {d : Driver α} {target : String} {slot : Slot α} {d' : Driver α}
    (h : d.claim? target = some (slot, d')) :
    ∃ old, d.slots.get? target = some old ∧ slot = ⟨old.value, old.generation + 1⟩ ∧
      d' = { d with slots := d.slots.put target slot } := by
  obtain ⟨old, hold, he⟩ := Option.map_eq_some_iff.1 h
  obtain ⟨rfl, rfl⟩ := Prod.mk.inj he
  exact ⟨old, hold, rfl, rfl⟩

/-- A claim leaves all values as they are. -/
theorem get?_of_claim? {d : Driver α} {target : String} {slot : Slot α} {d' : Driver α}
    (h : d.claim? target = some (slot, d')) (other : String) : d'.get? other = d.get? other := by
  obtain ⟨old, hold, rfl, rfl⟩ := claim?_eq_some h
  by_cases ho : other = target
  · simp [get?, ho, hold]
  · simp [get?, ho]

/-- A later claim supersedes all generations before it. -/
theorem write?_of_claim? {d : Driver α} {target : String} {slot : Slot α} {d' : Driver α}
    (h : d.claim? target = some (slot, d')) {generation : Nat} (hg : generation < slot.generation)
    (value : α) : d'.write? target value generation = none := by
  obtain ⟨old, hold, rfl, rfl⟩ := claim?_eq_some h
  have hne : ¬ old.generation + 1 = generation := fun he => by simp [he] at hg
  simp [write?, hne]

/-- Known targets can be set, and no others. -/
theorem set?_eq_none_iff {d : Driver α} {target : String} {value : α} :
    d.set? target value = none ↔ d.get? target = none := by
  rcases hs : d.slots.get? target with - | slot <;> simp [set?, claim?, get?, write?, hs]

/-- Setting a target changes its value and no other. -/
theorem get?_of_set? {d d' : Driver α} {target : String} {value : α}
    (h : d.set? target value = some d') (other : String) :
    d'.get? other = if other = target then some value else d.get? other := by
  rcases hs : d.slots.get? target with - | slot
  · simp [set?, claim?, hs] at h
  · obtain rfl : _ = d' := by simpa [set?, claim?, write?, hs] using h
    by_cases ho : other = target <;> simp [get?, ho]

end Driver

end Timeline
