/-
Timeline/Proofs/Stage/Acts.lean

What may happen on the stage while a step goes on.

Whatever acts on the stage does so by elementary acts: it records an event, uses
up a wait, sets an alarm, claims or writes a target, or counts the call of a
function.  `Stage.Act B` is one such act within bounds `B`, and `Stage.Acts B`
any number of them.  Bounds say which targets and functions are known to be
there, which other functions may be looked for, and which errors may come up.

Main results: acts keep the clock, the position, the known targets and the
registered names, and only add to the journal (`Stage.Acts.frame`).  Whatever
can be looked at without knowing what goes on (`Stage.Acts.set`, `.await`) is a
sequence of acts.
-/
import Mathlib.Logic.Relation
import Timeline.Machine.Execution

namespace Timeline

open Relation

/-! ### Bounds -/

/-- Bounds for what goes on on the stage. -/
structure Bounds where
  /-- Targets that the driver is known to hold. -/
  held : String → Prop
  /-- Functions that are known to be registered. -/
  registered : String → Prop
  /-- Further functions that may be looked for. -/
  optional : String → Prop
  /-- Errors that may come up. -/
  error : StepError → Prop
  /-- A function that is called may always fail. -/
  error_call : ∀ e, error (.call e)

namespace Bounds

/-- No bounds: nothing is known, and everything may happen. -/
def free : Bounds where
  held _ := False
  registered _ := False
  optional _ := True
  error _ := True
  error_call _ := trivial

/-- The stage has what is known to be there. -/
structure Covers (B : Bounds) (s : Stage) : Prop where
  held : ∀ target, B.held target → (s.driver.get? target).isSome
  registered : ∀ name, B.registered name → s.functions.contains name

theorem free_covers (s : Stage) : free.Covers s :=
  ⟨fun _ h => h.elim, fun _ h => h.elim⟩

/-- Events that those who act on the stage may record; all others are recorded by whoever drives
the machine. -/
def Permits (B : Bounds) : Event → Prop
  | .called _ _ | .set _ _ _ | .animate _ _ | .animated _ _ | .vibrated | .wrote _ _ => True
  | .missed name => B.optional name ∧ ¬ B.registered name
  | _ => False

end Bounds

/-- Whether a step failed. -/
def Event.isFailure : Event → Bool
  | .failed _ _ _ => true
  | _ => false

/-! ### Elementary acts -/

/-- A claim or a write. -/
inductive Driver.Touch {α : Type} (d : Driver α) : Driver α → Prop
  | claim {target : String} {slot : Slot α} {d' : Driver α} :
      d.claim? target = some (slot, d') → Driver.Touch d d'
  | write {target : String} {value : α} {generation : Nat} {d' : Driver α} :
      d.write? target value generation = some d' → Driver.Touch d d'

/-- A claim or a write leaves the same targets there. -/
theorem Driver.Touch.isSome_get? {α : Type} {d d' : Driver α} (h : d.Touch d') (target : String) :
    (d'.get? target).isSome = (d.get? target).isSome := by
  cases h with
  | claim hc => rw [get?_of_claim? hc]
  | @write t value generation _ hw =>
    rcases hs : d.slots.get? t with - | slot
    · simp [write?, hs] at hw
    · by_cases hg : slot.generation = generation
      · obtain rfl : _ = d' := by simpa [write?, hs, hg] using hw
        by_cases ht : target = t
        · simp [get?, ht, hs]
        · simp [get?, ht]
      · simp [write?, hs, hg] at hw

/-- Counting the call of a function leaves the same functions registered. -/
theorem Registry.contains_of_call? {r r' : Registry} {name : String} {arg : Option Json}
    {body : Routine} (h : r.call? name arg = some (body, r')) (other : String) :
    r'.contains other = r.contains other := by
  obtain ⟨f, hf, he⟩ := Option.map_eq_some_iff.1 h
  obtain ⟨-, rfl⟩ := Prod.mk.inj he
  by_cases ho : other = name
  · simp [contains, Table.contains, ho, hf]
  · simp [contains, Table.contains, ho]

/-- There is a first one of some alarms. -/
theorem Alarm.isSome_first? {alarms : List Alarm} (h : alarms ≠ []) :
    (first? alarms).isSome := by
  rcases alarms with - | ⟨a, rest⟩
  · exact absurd rfl h
  · rcases hrest : first? rest with - | b <;> simp [first?, hrest]

namespace Stage

/-- One elementary act within bounds. -/
inductive Act (B : Bounds) (s : Stage) : Stage → Prop
  | note (e : Event) : B.Permits e → Act B s (s.note e)
  | spend : Act B s s.spend
  | setAlarm (a : Alarm) : Act B s (s.setAlarm a).2
  | touch {d : Driver Float} : s.driver.Touch d → Act B s { s with driver := d }
  | count {name : String} {arg : Option Json} {body : Routine} {r : Registry} :
      s.functions.call? name arg = some (body, r) → Act B s { s with functions := r }

/-- Any number of acts. -/
abbrev Acts (B : Bounds) : Stage → Stage → Prop :=
  ReflTransGen (Act B)

/-! ### What acts leave as it is -/

/-- What is recorded in two stretches is recorded in both together. -/
theorem journal_trans {P : Record → Prop} {s s' s'' : Stage}
    (h : ∃ new, s'.journal = new ++ s.journal ∧ ∀ r ∈ new, P r)
    (h' : ∃ new, s''.journal = new ++ s'.journal ∧ ∀ r ∈ new, P r) :
    ∃ new, s''.journal = new ++ s.journal ∧ ∀ r ∈ new, P r := by
  obtain ⟨new, hnew, hall⟩ := h
  obtain ⟨new', hnew', hall'⟩ := h'
  refine ⟨new' ++ new, by rw [hnew', hnew, List.append_assoc], fun r hr => ?_⟩
  rcases List.mem_append.1 hr with hr | hr
  · exact hall' r hr
  · exact hall r hr

/-- The stage after some acts: the clock stands still, nothing has gone, and the journal has
grown by events within the bounds. -/
structure Extends (B : Bounds) (s s' : Stage) : Prop where
  now : s'.now = s.now
  position : s'.position = s.position
  held : ∀ target, (s'.driver.get? target).isSome = (s.driver.get? target).isSome
  registered : ∀ name, s'.functions.contains name = s.functions.contains name
  turn : s'.turn ≤ s.turn
  journal : ∃ new, s'.journal = new ++ s.journal ∧
    ∀ r ∈ new, r.time = s.now ∧ r.index = s.position.index ∧ B.Permits r.event

namespace Extends

variable {B : Bounds} {s s' s'' : Stage}

theorem refl (s : Stage) : Extends B s s :=
  ⟨rfl, rfl, fun _ => rfl, fun _ => rfl, Nat.le_refl _, [], rfl, by simp⟩

theorem trans (h : Extends B s s') (h' : Extends B s' s'') : Extends B s s'' where
  now := h'.now.trans h.now
  position := h'.position.trans h.position
  held t := (h'.held t).trans (h.held t)
  registered n := (h'.registered n).trans (h.registered n)
  turn := Nat.le_trans h'.turn h.turn
  journal := by
    refine journal_trans h.journal ?_
    rw [← h.now, ← h.position]
    exact h'.journal

theorem covers (h : Extends B s s') {B' : Bounds} (hc : B'.Covers s) : B'.Covers s' where
  held t ht := (h.held t).trans (hc.held t ht)
  registered n hn := (h.registered n).trans (hc.registered n hn)

end Extends

theorem Act.frame {B : Bounds} {s s' : Stage} (h : Act B s s') : Extends B s s' := by
  have same : ∀ s' : Stage, s'.now = s.now → s'.position = s.position → s'.turn ≤ s.turn →
      s'.journal = s.journal →
      (∀ t, (s'.driver.get? t).isSome = (s.driver.get? t).isSome) →
      (∀ n, s'.functions.contains n = s.functions.contains n) → Extends B s s' :=
    fun s' hn hp ht hj hh hr => ⟨hn, hp, hh, hr, ht, [], by simpa using hj, by simp⟩
  cases h with
  | note e he =>
    exact ⟨rfl, rfl, fun _ => rfl, fun _ => rfl, (Nat.le_refl _), [⟨s.now, s.position.index, e⟩], rfl,
      by simpa using he⟩
  | spend => exact same _ rfl rfl (Nat.sub_le _ _) rfl (fun _ => rfl) (fun _ => rfl)
  | setAlarm a => exact same _ rfl rfl (Nat.le_refl _) rfl (fun _ => rfl) (fun _ => rfl)
  | touch ht => exact same _ rfl rfl (Nat.le_refl _) rfl ht.isSome_get? (fun _ => rfl)
  | count hc =>
    exact same _ rfl rfl (Nat.le_refl _) rfl (fun _ => rfl) (Registry.contains_of_call? hc)

namespace Acts

variable {B : Bounds} {s s' : Stage}

/-- Acts keep the clock, the position and all that is there, and only add to the journal. -/
theorem frame (h : Acts B s s') : Extends B s s' := by
  induction h with
  | refl => exact .refl s
  | tail _ ha ih => exact ih.trans ha.frame

theorem covers (h : Acts B s s') {B' : Bounds} (hc : B'.Covers s) : B'.Covers s' :=
  h.frame.covers hc

/-! ### Acts in the operations of the stage -/

/-- Writing a target claims it, writes it and records the write. -/
theorem set (s : Stage) (target : String) (value : Float) : Acts B s (s.set target value).2 := by
  unfold Stage.set
  rcases hs : s.driver.set? target value with - | d
  · exact .refl
  · rw [Driver.set?, Option.bind_eq_some_iff] at hs
    obtain ⟨⟨slot, d₁⟩, hclaim, hwrite⟩ := hs
    exact ((ReflTransGen.single (.touch (.claim hclaim))).tail (.touch (.write hwrite))).tail
      (.note _ trivial)

/-- Waiting for an alarm uses up a wait or sets the alarm. -/
theorem await (s : Stage) (a : Alarm) : Acts B s (s.await a).2 := by
  unfold Stage.await
  split
  · exact .single .spend
  · split
    · exact .refl
    · exact .single (.setAlarm a)

/-- A called function is counted and recorded. -/
theorem call? {name : String} {arg : Option Json} {body : Routine}
    (h : s.call? name arg = some (body, s')) : Acts B s s' := by
  obtain ⟨r, hr, rfl⟩ := Stage.call?_eq_some h
  exact (ReflTransGen.single (.count hr)).tail (.note _ trivial)

end Acts

/-- Restoring values is a sequence of acts. -/
theorem Acts.restore {B : Bounds} (entries : List (String × Float)) (s : Stage) :
    Acts B s (entries.foldl (fun (s : Stage) entry =>
      let (known, s) := s.set entry.1 entry.2
      s.note (.set entry.1 entry.2 known)) s) := by
  induction entries generalizing s with
  | nil => exact .refl
  | cons entry rest ih =>
    exact ((Acts.set s entry.1 entry.2).tail (.note (.set entry.1 entry.2 _) trivial)).trans (ih _)

/-- Known targets can be set. -/
theorem set_fst (s : Stage) (target : String) (value : Float) :
    (s.set target value).1 = (s.driver.get? target).isSome := by
  have h : s.driver.set? target value = none ↔ s.driver.get? target = none :=
    Driver.set?_eq_none_iff
  unfold Stage.set
  rcases hs : s.driver.set? target value with - | d
  · rw [h.1 hs]
    rfl
  · rcases hg : s.driver.get? target with - | x
    · exact absurd (hs.symm.trans (h.2 hg)) (by simp)
    · rfl

/-- A function can be called if its name is registered. -/
theorem isSome_call? (s : Stage) (name : String) (arg : Option Json) :
    (s.call? name arg).isSome = s.functions.contains name := by
  simp [Stage.call?, Registry.call?, Registry.contains, Table.contains]

end Stage

end Timeline
