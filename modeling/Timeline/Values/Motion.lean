/-
Timeline/Values/Motion.lean

Motions: animations that are under way.  A motion begins with a claim on its
target, and from then on writes one value per frame, the first one at once, until
its time is over or a later claim has superseded it.  A motion that takes no time
writes its destination at once.

Frames are whole periods after the claim.  As the clock stands at whole milliseconds,
a frame comes at the first one that is not before its time.  Frames that are missed are
left out, and those that fall into one millisecond are one.
-/
import Timeline.Values.Driver

namespace Timeline

/-- An animation that is under way. -/
structure Motion (α : Type) where
  target : String
  animation : Animation α
  /-- The value that the target had at the claim. -/
  origin : α
  /-- The generation of the claim. -/
  generation : Nat
  /-- The time of the claim. -/
  start : Nat
deriving Repr

/-- Claim a target for an animation.  Absent for an unknown target. -/
def Driver.launch? {α : Type} (d : Driver α) (target : String) (animation : Animation α)
    (now : Nat) : Option (Motion α × Driver α) :=
  (d.claim? target).map fun (slot, d) =>
    (⟨target, animation, slot.value, slot.generation, now⟩, d)

theorem Driver.launch?_eq_some {α : Type} {d d' : Driver α} {target : String}
    {animation : Animation α} {now : Nat} {m : Motion α}
    (h : d.launch? target animation now = some (m, d')) :
    ∃ slot, d.claim? target = some (slot, d') ∧
      m = ⟨target, animation, slot.value, slot.generation, now⟩ := by
  obtain ⟨⟨slot, _⟩, hclaim, he⟩ := Option.map_eq_some_iff.1 h
  obtain ⟨rfl, rfl⟩ := Prod.mk.inj he
  exact ⟨slot, hclaim, rfl⟩

theorem Driver.frame_of_launch? {α : Type} {d d' : Driver α} {target : String}
    {animation : Animation α} {now : Nat} {m : Motion α}
    (h : d.launch? target animation now = some (m, d')) : d'.frame = d.frame := by
  obtain ⟨slot, hclaim, -⟩ := Driver.launch?_eq_some h
  obtain ⟨old, -, -, rfl⟩ := Driver.claim?_eq_some hclaim
  rfl

namespace Motion

section Frames

variable {α : Type}

/-- The time of the first frame after a time: whole periods after the claim, at the first millisecond
that is not before it. -/
def nextFrame (m : Motion α) (period : Duration) (now : Nat) : Nat :=
  now + (period.rest (.ofMillis (now - m.start))).ceilMillis

theorem le_nextFrame (m : Motion α) (period : Duration) (now : Nat) :
    now ≤ m.nextFrame period now :=
  Nat.le_add_right ..

theorem lt_nextFrame (m : Motion α) {period : Duration} (hperiod : 0 < period.nanos) (now : Nat) :
    now < m.nextFrame period now :=
  Nat.lt_add_of_pos_right (Duration.ceilMillis_pos_iff.2 (Duration.rest_pos hperiod _))

/-- The next frame comes within a period. -/
theorem nextFrame_le (m : Motion α) (period : Duration) (now : Nat) :
    m.nextFrame period now ≤ now + period.ceilMillis :=
  Nat.add_le_add_left (Duration.ceilMillis_mono (Duration.rest_le ..)) now

end Frames

variable {α : Type} [Scalar α]

/-- The value at a time, and whether it is the last one. -/
def valueAt (m : Motion α) (now : Nat) : α × Bool :=
  if m.animation.duration = .zero then (m.animation.destination, true)
  else
    let t := m.animation.progress (now - m.start)
    (m.animation.valueAt m.origin t, Animation.isOver t)

/-- Write the value of a time, if the claim still stands. -/
def frame? (m : Motion α) (d : Driver α) (now : Nat) : Option (Driver α) :=
  d.write? m.target (m.valueAt now).1 m.generation

end Motion

end Timeline
