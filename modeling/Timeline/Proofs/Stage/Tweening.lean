/-
Timeline/Proofs/Stage/Tweening.lean

Animations that nothing supersedes.

`Motion.Reaches` says what a motion has written, and what the driver is by then, if
others leave its target alone from the claim on, whatever they do with other targets.
It knows nothing of alarms and turns and is the same for all scalars; the ride of a
machine goes through it, frame by frame (`Ride.Runs.follows`).

Main result (`Driver.tweening_exact`): on the rationals a motion ends with the first
frame that is not earlier than its duration, exactly at its destination, and comes
there without turning back or leaving the interval.  So relative moves add up.
-/
import Timeline.Proofs.Stage.Frames
import Timeline.Proofs.Values.Curves

namespace Timeline

/-! ### Motions of any scalar -/

section Scalar

variable {α : Type}

/-- Whatever happens to other targets leaves one target and the frames alone. -/
structure Driver.Spares (target : String) (d d' : Driver α) : Prop where
  slot : d'.slots.get? target = d.slots.get? target
  frame : d'.frame = d.frame

namespace Motion

variable {m : Motion α} {b d d' : Driver α} {ws : List (Nat × α)} {n : Nat}

/-- The claim of a motion has just been made. -/
def Claims (m : Motion α) (b : Driver α) : Prop :=
  b.slots.get? m.target = some ⟨m.origin, m.generation⟩

/-- An animation of a known target begins with a claim. -/
theorem exists_launch? {target : String} {x : α} (hknown : d.get? target = some x)
    (a : Animation α) (now : Nat) : ∃ m b, d.launch? target a now = some (m, b) ∧ m.Claims b ∧
      b.frame = d.frame ∧ m.target = target ∧ m.animation = a ∧ m.origin = x ∧ m.start = now := by
  obtain ⟨slot, hslot, rfl⟩ := Option.map_eq_some_iff.1 hknown
  refine ⟨⟨target, a, slot.value, slot.generation + 1, now⟩,
    { d with slots := d.slots.put target ⟨slot.value, slot.generation + 1⟩ }, ?_, ?_, rfl, rfl, rfl,
    rfl, rfl⟩
  · simp [Driver.launch?, Driver.claim?, hslot]
  · simp [Claims]

variable [Scalar α]

/-- A motion is over after a number of frames: the one before was the last one. -/
def Over (m : Motion α) (period : Duration) (n : Nat) : Prop :=
  ∃ k, n = k + 1 ∧ m.isLast period k = true

/-- What a motion that began with a claim has written, the first one first, and the driver by then.
Nothing supersedes it: whatever else happens spares its target. -/
inductive Reaches (m : Motion α) (b : Driver α) : List (Nat × α) → Driver α → Prop
  | claimed : m.Reaches b [] b
  /-- Something happens to other targets. -/
  | aside {ws : List (Nat × α)} {d d' : Driver α} : m.Reaches b ws d → d.Spares m.target d' →
      m.Reaches b ws d'
  /-- A frame is written at its time. -/
  | frame {ws : List (Nat × α)} {d d' : Driver α} {v : α} : m.Reaches b ws d →
      ¬ m.Over d.frame ws.length → m.frame? d (m.frameTime d.frame ws.length) = some d' →
      d'.get? m.target = some v →
      m.Reaches b (ws ++ [(m.frameTime d.frame ws.length, v)]) d'

/-- A number of frames has been written, and none but the latest may have been the last one. -/
structure Stands (m : Motion α) (b : Driver α) (n : Nat) (d : Driver α) : Prop where
  more : ∀ k, k + 1 < n → m.isLast b.frame k = false
  slot : d.slots.get? m.target = some ⟨m.held b.frame n, m.generation⟩
  frame : d.frame = b.frame

@[simp] theorem length_frames (m : Motion α) (period : Duration) (n : Nat) :
    (m.frames period n).length = n := by
  simp [frames]

/-- Fewer frames are a beginning of more of them. -/
theorem frames_prefix (m : Motion α) (period : Duration) {n n' : Nat} (h : n ≤ n') :
    m.frames period n <+: m.frames period n' := by
  have htake : m.frames period n = (m.frames period n').take n := by
    rw [frames, frames, ← List.map_take, List.take_range, min_eq_left h]
  rw [htake]
  exact List.take_prefix n _

/-- The next frame can be written. -/
theorem Stands.frame? (h : m.Stands b n d) :
    m.frame? d (m.frameTime b.frame n)
      = some { d with slots := d.slots.put m.target ⟨m.held b.frame (n + 1), m.generation⟩ } := by
  simp only [Motion.frame?, Driver.write?, h.slot, if_pos]
  rfl

/-- **What is written are the frames**, one after the other. -/
theorem Reaches.stands (hclaims : m.Claims b) (h : m.Reaches b ws d) :
    ws = m.frames b.frame ws.length ∧ m.Stands b ws.length d := by
  induction h with
  | claimed => exact ⟨rfl, fun _ hk => absurd hk (Nat.not_lt_zero _), hclaims, rfl⟩
  | aside _ hspares ih =>
    obtain ⟨hws, hstands⟩ := ih
    exact ⟨hws, hstands.more, hspares.slot.trans hstands.slot, hspares.frame.trans hstands.frame⟩
  | @frame ws d d' v _ hover hframe hvalue ih =>
    obtain ⟨hws, hstands⟩ := ih
    rw [hstands.frame] at hframe hover ⊢
    obtain rfl := Option.some.inj (hstands.frame?.symm.trans hframe)
    obtain rfl : m.held b.frame (ws.length + 1) = v := by simpa [Driver.get?] using hvalue
    rw [List.length_append, List.length_singleton]
    refine ⟨?_, fun k hk => ?_, by simp, hstands.frame⟩
    · rw [frames_succ, ← hws]
    · by_cases hlast : k + 1 < ws.length
      · exact hstands.more k hlast
      · exact Bool.eq_false_iff.2 fun htrue => hover ⟨k, by omega, htrue⟩

/-- All that stands so has been reached. -/
theorem Stands.reaches (hclaims : m.Claims b) (h : m.Stands b n d) :
    m.Reaches b (m.frames b.frame n) d := by
  induction n generalizing d with
  | zero => exact .aside .claimed ⟨h.slot.trans hclaims.symm, h.frame⟩
  | succ n ih =>
    -- the driver as it was before the latest frame
    let before : Driver α :=
      { d with slots := d.slots.put m.target ⟨m.held b.frame n, m.generation⟩ }
    have hbefore : before.frame = b.frame := h.frame
    have hstands : m.Stands b n before :=
      ⟨fun k hk => h.more k (Nat.lt_succ_of_lt hk), by simp [before], hbefore⟩
    have hover : ¬ m.Over before.frame (m.frames b.frame n).length := by
      rw [length_frames, hbefore]
      rintro ⟨k, rfl, hlast⟩
      exact absurd ((h.more k (Nat.lt_succ_self _)).symm.trans hlast) Bool.false_ne_true
    have hframe := hstands.frame?
    rw [← hbefore, ← length_frames m b.frame n] at hframe
    have hreaches := (ih hstands).frame hover hframe
      (congrArg (Option.map Slot.value) (Table.get?_put_self ..))
    rw [length_frames, hbefore, ← frames_succ] at hreaches
    exact hreaches.aside ⟨by simp [h.slot], h.frame⟩

/-- A motion whose last frame has a number goes on until that frame is written, and no further. -/
theorem Reaches.sub_frames (hclaims : m.Claims b) (h : m.Reaches b ws d) {last : Nat}
    (hlast : m.isLast b.frame last = true) (hmore : ∀ k < last, m.isLast b.frame k = false) :
    ws <+: m.frames b.frame (last + 1) ∧
      (m.Over b.frame ws.length ↔ ws = m.frames b.frame (last + 1)) := by
  obtain ⟨hws, hstands⟩ := h.stands hclaims
  have hle : ws.length ≤ last + 1 := by
    by_contra hnot
    exact absurd ((hstands.more last (by omega)).symm.trans hlast) Bool.false_ne_true
  refine ⟨?_, fun hover => ?_, fun hall => ?_⟩
  · rw [hws]
    exact frames_prefix m b.frame hle
  · obtain ⟨k, hk, hover⟩ := hover
    have hkl : ¬ k < last := fun hlt =>
      absurd ((hmore k hlt).symm.trans hover) Bool.false_ne_true
    rw [hws]
    congr 1
    omega
  · exact ⟨last, by rw [hall, length_frames], hlast⟩

end Motion

end Scalar

/-! ### Rides -/

/-- An animation of a known target is a motion that starts on the stage. -/
theorem Motion.of_launch? {b : Stage} {target : String} {a : Animation Float} {m : Motion Float}
    {d : Driver Float} (h : b.driver.launch? target a b.now = some (m, d)) :
    m.target = target ∧ m.animation = a ∧ m.StartsOn b ∧ m.Claims d ∧
      d.frame = b.driver.frame := by
  obtain ⟨slot, hclaim, rfl⟩ := Driver.launch?_eq_some h
  obtain ⟨old, hold, rfl, rfl⟩ := Driver.claim?_eq_some hclaim
  exact ⟨rfl, rfl, ⟨⟨old, hold, rfl, rfl⟩, rfl⟩, Table.get?_put_self .., rfl⟩

namespace Ride

variable {target : String} {a : Animation Float} {m : Motion Float} {b s s' : Stage}
  {d : Driver Float} {p : Progress Ride (Except StepError Unit)}

/-- A ride that is asked for on a stage `b`.  It is visited and time passes, though not beyond its
next frame; whatever else happens leaves its target alone. -/
inductive Runs (target : String) (a : Animation Float) (b : Stage) :
    Stage → Progress Ride (Except StepError Unit) → Prop
  | asked : Runs target a b b (.busy (.ahead target a))
  | visited {s : Stage} {r : Ride} : Runs target a b s (.busy r) →
      Runs target a b (r.poll true s).1 (r.poll true s).2
  | later {s : Stage} {p : Progress Ride (Except StepError Unit)} {time : Nat} :
      Runs target a b s p → s.now ≤ time →
      (∀ r, p = .busy r → ∃ next, r.alarm? = some next ∧ time ≤ next.due) →
      Runs target a b { s with now := time } p
  | aside {s s' : Stage} {p : Progress Ride (Except StepError Unit)} :
      Runs target a b s p → s'.now = s.now → s.driver.Spares target s'.driver →
      s'.writes target = s.writes target → Runs target a b s' p

/-- What a ride has written on its target since a stage `b`, and what is still to come: either it is
over, or it waits for the next frame. -/
def Follows (m : Motion Float) (b : Stage) (d : Driver Float) (s : Stage)
    (p : Progress Ride (Except StepError Unit)) : Prop :=
  ∃ ws, m.Reaches d ws s.driver ∧ s.writes m.target = ws.reverse ++ b.writes m.target ∧
    (m.Over d.frame ws.length ∧ p = .finished (.ok ()) ∨
      ¬ m.Over d.frame ws.length ∧
        ∃ next, p = .busy (.moving m next) ∧ next.due = m.frameTime d.frame ws.length)

/-- **A ride keeps to its track** as long as it runs. -/
theorem Runs.onTrack (h : Runs m.target m.animation b s p) (hstarts : m.StartsOn b)
    (hperiod : 0 < b.driver.frame.nanos) :
    OnTrack m b s p ∧ s.driver.frame = b.driver.frame := by
  induction h with
  | asked => exact ⟨.ahead hstarts.start.symm rfl rfl, rfl⟩
  | visited _ ih =>
    obtain ⟨htrack, hframe⟩ := ih
    obtain ⟨hafter, htouches⟩ := htrack.poll hstarts hperiod hframe
    exact ⟨hafter, htouches.frame.trans hframe⟩
  | later _ hle hbusy ih => exact ⟨ih.1.later hle hbusy, ih.2⟩
  | aside _ hnow hspares hwrites ih =>
    exact ⟨ih.1.congr hnow hspares.slot hwrites, hspares.frame.trans ih.2⟩

/-- **A ride that is on track** goes through what its motion reaches. -/
theorem OnTrack.follows (h : OnTrack m b s p) (hclaims : m.Claims d)
    (hframe : d.frame = b.driver.frame) (hkept : s.driver.frame = b.driver.frame)
    (hbegun : p ≠ .busy (.ahead m.target m.animation)) : Follows m b d s p := by
  have hreaches {n : Nat} (hmore : ∀ k, k + 1 < n → m.isLast b.driver.frame k = false)
      (hw : m.Written b s n) : m.Reaches d (m.frames d.frame n) s.driver :=
    Motion.Stands.reaches hclaims ⟨hframe ▸ hmore, hframe ▸ hw.slot, hkept.trans hframe.symm⟩
  cases h with
  | ahead _ _ _ => exact absurd rfl hbegun
  | @moving n next hmore hdue _ hw =>
    refine ⟨_, hreaches (fun k hk => hmore k (by omega)) hw, hframe ▸ hw.writes, ?_⟩
    rw [Motion.length_frames, hframe]
    refine .inr ⟨?_, next, rfl, hdue⟩
    rintro ⟨k, rfl, hlast⟩
    exact absurd ((hmore k (Nat.lt_succ_self k)).symm.trans hlast) Bool.false_ne_true
  | @done n hmore hlast hw =>
    refine ⟨_, hreaches (fun k hk => hmore k (by omega)) hw, hframe ▸ hw.writes, ?_⟩
    rw [Motion.length_frames, hframe]
    exact .inl ⟨⟨n, rfl, hlast⟩, rfl⟩

/-- A visit begins a ride. -/
theorem poll_ne_ahead (r : Ride) (s : Stage) : (r.poll true s).2 ≠ .busy (.ahead target a) := by
  intro hp
  have hmeets := (poll_meets (B := .free) true r s (r.meets_of_error fun _ => trivial)
    (Bounds.free_covers s)).2
  rw [hp] at hmeets
  exact Bool.noConfusion hmeets.2

theorem Runs.follows (h : Runs target a b s p) (hperiod : 0 < b.driver.frame.nanos)
    (hlaunch : b.driver.launch? target a b.now = some (m, d)) (hbegun : p ≠ .busy (.ahead target a)) :
    Follows m b d s p := by
  obtain ⟨rfl, rfl, hstarts, hclaims, hframe⟩ := Motion.of_launch? hlaunch
  obtain ⟨htrack, hkept⟩ := h.onTrack hstarts hperiod
  exact htrack.follows hclaims hframe hkept hbegun

end Ride

/-! ### Motions on the rationals -/

/-- Values that lead from one number to another: they never turn back, and never leave the interval
between the two. -/
structure Glides (x y : ℚ) (values : List ℚ) : Prop where
  up : x ≤ y → values.Pairwise (· ≤ ·)
  down : y ≤ x → values.Pairwise (· ≥ ·)
  between : ∀ v ∈ values, v ∈ Set.uIcc x y

namespace Motion

variable {m : Motion ℚ} {period : Duration} {n elapsed : Nat}

/-- The part of its way that a motion has gone after a time. -/
def way (m : Motion ℚ) (elapsed : Nat) : ℚ :=
  if m.animation.duration = .zero then 1
  else m.animation.easing.ease (m.animation.progress elapsed)

theorem monotone_way (m : Motion ℚ) : Monotone m.way := by
  intro s t hst
  unfold way
  split
  · exact le_refl 1
  · exact m.animation.easing.monotone_ease (m.animation.monotone_progress hst)

theorem way_zero (hduration : m.animation.duration ≠ .zero) : m.way 0 = 0 := by
  rw [way, if_neg hduration, Animation.progress_zero, Easing.ease_zero]

theorem nanos_pos (hduration : m.animation.duration ≠ .zero) : 0 < m.animation.duration.nanos :=
  Nat.pos_of_ne_zero fun hzero => hduration (congrArg Duration.mk hzero)

/-- From the end of its duration on a motion has gone all of its way. -/
theorem way_eq_one (h : m.animation.duration.nanos ≤ (Duration.ofMillis elapsed).nanos) :
    m.way elapsed = 1 := by
  unfold way
  split
  · rfl
  · rename_i hduration
    rw [(Animation.progress_eq_one_iff (nanos_pos hduration)).2 h, Easing.ease_one]

theorem way_mem (m : Motion ℚ) (elapsed : Nat) : m.way elapsed ∈ Set.Icc (0 : ℚ) 1 := by
  -- a time that is late enough for the end
  have hlong : m.animation.duration.nanos
      ≤ (Duration.ofMillis (elapsed + m.animation.duration.nanos)).nanos := by
    simp only [Duration.ofMillis]
    omega
  constructor
  · by_cases hduration : m.animation.duration = .zero
    · rw [way, if_pos hduration]
      exact zero_le_one
    · rw [← way_zero hduration]
      exact m.monotone_way (Nat.zero_le elapsed)
  · rw [← way_eq_one hlong]
    exact m.monotone_way (Nat.le_add_right _ _)

/-- The value of a frame, by the part of the way that is gone. -/
theorem value_frame (m : Motion ℚ) (period : Duration) (n : Nat) :
    (m.valueAt (m.frameTime period n)).1
      = lerp m.origin m.animation.destination (m.way (period.toFrame n)) := by
  rw [valueAt, way, frameTime, Nat.add_sub_cancel_left]
  split
  · rw [lerp_one]
  · rfl

/-- **A frame is the last one** if it is not earlier than the duration. -/
theorem isLast_iff : m.isLast period n = true ↔
    m.animation.duration.nanos ≤ (Duration.ofMillis (period.toFrame n)).nanos := by
  rw [isLast, valueAt, frameTime, Nat.add_sub_cancel_left]
  split
  · rename_i hduration
    rw [hduration]
    exact iff_of_true rfl (Nat.zero_le _)
  · rename_i hduration
    rw [← Animation.progress_eq_one_iff (nanos_pos hduration), Animation.isOver_iff,
      Animation.progress_eq]
    exact ⟨fun hle => le_antisymm (min_le_right _ _) hle, fun heq => heq.symm.le⟩

/-- **The last value is the destination.** -/
theorem held_of_isLast (h : m.isLast period n = true) :
    m.held period (n + 1) = m.animation.destination := by
  show (m.valueAt (m.frameTime period n)).1 = _
  rw [value_frame, way_eq_one (isLast_iff.1 h), lerp_one]

/-- **The values of the frames** lead to the destination without turning back. -/
theorem glides_frames (m : Motion ℚ) (period : Duration) (n : Nat) :
    Glides m.origin m.animation.destination ((m.frames period n).map Prod.snd) := by
  have hvalues : (m.frames period n).map Prod.snd = (List.range n).map fun k =>
      lerp m.origin m.animation.destination (m.way (period.toFrame k)) := by
    rw [frames, List.map_map]
    exact List.map_congr_left fun k _ => m.value_frame period k
  have hway {j k : Nat} (h : j < k) : m.way (period.toFrame j) ≤ m.way (period.toFrame k) :=
    m.monotone_way (period.toFrame_mono h.le)
  rw [hvalues]
  constructor
  · intro hle
    rw [List.pairwise_map]
    exact List.pairwise_lt_range.imp fun hlt => monotone_lerp hle (hway hlt)
  · intro hle
    rw [List.pairwise_map]
    exact List.pairwise_lt_range.imp fun hlt => antitone_lerp hle (hway hlt)
  · -- every part of the way lies between none of it and all of it
    intro v hv
    obtain ⟨k, -, rfl⟩ := List.mem_map.1 hv
    obtain ⟨hzero, hone⟩ := m.way_mem (period.toFrame k)
    rcases le_total m.origin m.animation.destination with hle | hle
    · rw [Set.uIcc_of_le hle]
      constructor
      · simpa [lerp_zero] using monotone_lerp hle hzero
      · simpa [lerp_one] using monotone_lerp hle hone
    · rw [Set.uIcc_of_ge hle]
      constructor
      · simpa [lerp_one] using antitone_lerp hle hone
      · simpa [lerp_zero] using antitone_lerp hle hzero

/-- There is a first frame that is not earlier than the duration, however long that is. -/
theorem exists_isLeast (a : Animation ℚ) (period : Duration) :
    ∃ last, IsLeast {n | a.duration.nanos ≤ (Duration.ofMillis (period.toFrame n)).nanos} last := by
  have hsome : ∃ n, a.duration.nanos ≤ (Duration.ofMillis (period.toFrame n)).nanos := by
    refine ⟨a.duration.nanos, ?_⟩
    calc a.duration.nanos ≤ a.duration.nanos * period.pace.nanos :=
          Nat.le_mul_of_pos_right _ period.pace_pos
      _ ≤ (Duration.ofMillis (period.toFrame a.duration.nanos)).nanos :=
          Duration.le_ofMillis_ceilMillis _
  exact ⟨Nat.find hsome, Nat.find_spec hsome, fun n hn => Nat.find_min' hsome hn⟩

/-- What an animation writes that nothing supersedes, once its target is claimed. -/
structure Arrives (m : Motion ℚ) (b : Driver ℚ) (last : Nat) (writes : List (Nat × ℚ)) : Prop where
  /-- The last frame is the first one that is not earlier than the duration. -/
  first : IsLeast
    {n | m.animation.duration.nanos ≤ (Duration.ofMillis (b.frame.toFrame n)).nanos} last
  /-- After every frame comes the next one. -/
  next : ∀ n, m.nextFrame b.frame (m.frameTime b.frame n) = m.frameTime b.frame (n + 1)
  /-- Nothing else is written. -/
  within : ∀ ws d, m.Reaches b ws d → ws <+: writes
  /-- Until all is written the next frame can be written, whatever happens to other targets. -/
  goesOn : ∀ ws d, m.Reaches b ws d → ws ≠ writes →
    ¬ m.Over b.frame ws.length ∧ ∃ d', m.frame? d (m.frameTime b.frame ws.length) = some d'
  reached : ∃ d, m.Reaches b writes d
  /-- Then it is over, and the target is at the destination. -/
  ends : ∀ d, m.Reaches b writes d →
    m.Over b.frame writes.length ∧ d.get? m.target = some m.animation.destination
  getLast? : writes.getLast? = some (m.frameTime b.frame last, m.animation.destination)
  head? : m.animation.duration ≠ .zero → writes.head? = some (m.start, m.origin)
  /-- What takes no time writes the destination alone. -/
  atOnce : m.animation.duration = .zero → writes = [(m.start, m.animation.destination)]
  glides : Glides m.origin m.animation.destination (writes.map Prod.snd)
  /-- The same is written by a ride of a machine. -/
  track : ∀ time, m.frameTime b.frame last ≤ time → m.writesUntil b.frame time = writes

/-- After the last frame the target is at the destination. -/
theorem Reaches.destination {b d : Driver ℚ} {ws : List (Nat × ℚ)} (hclaims : m.Claims b)
    (h : m.Reaches b ws d) (hover : m.Over b.frame ws.length) :
    d.get? m.target = some m.animation.destination ∧ d.frame = b.frame := by
  obtain ⟨-, hstands⟩ := h.stands hclaims
  obtain ⟨k, hk, hlast⟩ := hover
  refine ⟨?_, hstands.frame⟩
  rw [Driver.get?, hstands.slot, hk, held_of_isLast hlast]
  rfl

/-- **Whatever its animation**, a motion arrives. -/
theorem Claims.arrives {b : Driver ℚ} (hclaims : m.Claims b) (hframe : 0 < b.frame.nanos) :
    ∃ last, m.Arrives b last (m.frames b.frame (last + 1)) := by
  obtain ⟨last, hfirst⟩ := exists_isLeast m.animation b.frame
  have hlast : m.isLast b.frame last = true := isLast_iff.2 hfirst.1
  have hmore (k : Nat) (hk : k < last) : m.isLast b.frame k = false :=
    Bool.eq_false_iff.2 fun htrue => absurd (hfirst.2 (isLast_iff.1 htrue)) (Nat.not_le.2 hk)
  have hover : m.Over b.frame (m.frames b.frame (last + 1)).length :=
    ⟨last, length_frames .., hlast⟩
  refine ⟨last, ?_⟩
  exact
    { first := hfirst
      next := m.nextFrame_frameTime hframe
      within := fun ws d h => (h.sub_frames hclaims hlast hmore).1
      goesOn := fun ws d h hne => by
        obtain ⟨-, hstands⟩ := h.stands hclaims
        exact ⟨fun hover => hne ((h.sub_frames hclaims hlast hmore).2.1 hover), _, hstands.frame?⟩
      reached := by
        let arrived : Driver ℚ :=
          { b with slots := b.slots.put m.target ⟨m.held b.frame (last + 1), m.generation⟩ }
        have hstands : m.Stands b (last + 1) arrived :=
          ⟨fun k hk => hmore k (Nat.lt_of_succ_lt_succ hk), Table.get?_put_self .., rfl⟩
        exact ⟨arrived, hstands.reaches hclaims⟩
      ends := fun d h => ⟨hover, (h.destination hclaims hover).1⟩
      getLast? := by rw [frames_succ, List.getLast?_concat, held_of_isLast hlast]
      head? := fun hduration => by
        have hvalue : (m.valueAt (m.frameTime b.frame 0)).1 = m.origin := by
          rw [value_frame, Duration.toFrame_zero, way_zero hduration, lerp_zero]
        rw [frames, List.range_succ_eq_map, List.map_cons, List.head?_cons, hvalue, frameTime_zero]
      atOnce := fun hduration => by
        -- no frame is earlier than no time at all
        have hzero : last = 0 := Nat.le_zero.1 (hfirst.2 (by simp [hduration, Duration.zero]))
        subst hzero
        rw [frames_succ, held_of_isLast hlast, frameTime_zero]
        rfl
      glides := m.glides_frames _ _
      track := fun time htime => writesUntil_of_last hmore hlast htime }

end Motion

/-! ### Relative moves -/

/-- A relative move: a target goes up or down by an amount. -/
structure Nudge where
  destination : Destination
  /-- The number that the operand of the destination comes to. -/
  amount : ℚ
  duration : Duration
  easing : Easing
  native : Bool
  relative : ∀ operand, destination ≠ .absolute operand

namespace Nudge

/-- The amount of a move upwards. -/
def inc? (n : Nudge) : Option ℚ :=
  match n.destination with
  | .inc _ => some n.amount
  | _ => none

/-- The amount of a move downwards. -/
def dec? (n : Nudge) : Option ℚ :=
  match n.destination with
  | .dec _ => some n.amount
  | _ => none

/-- The animation that a move asks for, given the value at the moment. -/
def animation? (n : Nudge) (current : Option ℚ) : Option (Animation ℚ) :=
  (n.destination.against? current n.amount).map fun destination =>
    { destination, duration := n.duration, easing := n.easing, native := n.native }

/-- Moves of a target one after the other.  Each looks at the value when it begins, and is over
before the next one; nothing else happens to the target. -/
inductive Performed (target : String) : Driver ℚ → List Nudge → Driver ℚ → Prop
  | nil {d : Driver ℚ} : Performed target d [] d
  | cons {n : Nudge} {ns : List Nudge} {d d₁ d₂ b d₃ d' : Driver ℚ} {a : Animation ℚ}
      {m : Motion ℚ} {now : Nat} {ws : List (Nat × ℚ)} :
      d.Spares target d₁ → n.animation? (d₁.get? target) = some a →
      d₁.Spares target d₂ → d₂.launch? target a now = some (m, b) →
      m.Reaches b ws d₃ → m.Over b.frame ws.length →
      Performed target d₃ ns d' → Performed target d (n :: ns) d'

variable {target : String} {d d' : Driver ℚ} {ns : List Nudge} {x : ℚ}

/-- A move of a known target asks for an animation to the sum or the difference. -/
theorem exists_animation? (n : Nudge) (x : ℚ) : ∃ a, n.animation? (some x) = some a ∧
    a.destination = x + n.inc?.getD 0 - n.dec?.getD 0 := by
  unfold animation? inc? dec?
  rcases hdestination : n.destination with operand | operand | operand
  · exact absurd hdestination (n.relative operand)
  · refine ⟨_, rfl, ?_⟩
    show x + n.amount = x + n.amount - 0
    rw [sub_zero]
  · refine ⟨_, rfl, ?_⟩
    show x - n.amount = x + 0 - n.amount
    rw [add_zero]

theorem sum_filterMap_cons (f : Nudge → Option ℚ) (n : Nudge) (ns : List Nudge) :
    ((n :: ns).filterMap f).sum = (f n).getD 0 + (ns.filterMap f).sum := by
  cases h : f n <;> simp [h]

theorem get?_of_spares (h : d.Spares target d') : d'.get? target = d.get? target := by
  rw [Driver.get?, h.slot, Driver.get?]

/-- **Relative moves add up.** -/
theorem Performed.get? (h : Performed target d ns d') (hknown : d.get? target = some x) :
    d'.get? target = some (x + (ns.filterMap inc?).sum - (ns.filterMap dec?).sum) := by
  -- every move begins with the value to which those before it have led
  induction h generalizing x with
  | nil => simpa using hknown
  | @cons n ns d d₁ d₂ b d₃ d' a m now ws hbefore hanimation hspares hlaunch hreaches hover _ ih =>
    have hknown₁ : d₁.get? target = some x := (get?_of_spares hbefore).trans hknown
    have hknown₂ : d₂.get? target = some x := (get?_of_spares hspares).trans hknown₁
    obtain ⟨a', ha', hdestination⟩ := n.exists_animation? x
    obtain rfl : a' = a := Option.some.inj (ha'.symm.trans (hknown₁ ▸ hanimation))
    obtain ⟨m', b', hlaunch', hclaims, -, rfl, hanimated, -, -⟩ := Motion.exists_launch? hknown₂ a' now
    obtain ⟨rfl, rfl⟩ := Prod.mk.inj (Option.some.inj (hlaunch'.symm.trans hlaunch))
    have harrived := (hreaches.destination hclaims hover).1
    rw [hanimated, hdestination] at harrived
    rw [ih harrived, sum_filterMap_cons, sum_filterMap_cons]
    congr 1
    ring

/-- Any moves of a known target can be made. -/
theorem exists_performed (hframe : 0 < d.frame.nanos) (hknown : d.get? target = some x)
    (ns : List Nudge) :
    ∃ d', Performed target d ns d' := by
  induction ns generalizing d x with
  | nil => exact ⟨d, .nil⟩
  | cons n ns ih =>
    obtain ⟨a, ha, -⟩ := n.exists_animation? x
    obtain ⟨m, b, hlaunch, hclaims, hkept, rfl, -⟩ := Motion.exists_launch? hknown a 0
    obtain ⟨last, harrives⟩ := hclaims.arrives (hkept ▸ hframe)
    obtain ⟨d₃, hreaches⟩ := harrives.reached
    obtain ⟨hover, hthere⟩ := harrives.ends d₃ hreaches
    have hframe₃ : 0 < d₃.frame.nanos := by
      rw [(hreaches.destination hclaims hover).2, hkept]
      exact hframe
    obtain ⟨d', hperformed⟩ := ih hframe₃ hthere
    exact ⟨d', .cons ⟨rfl, rfl⟩ (hknown ▸ ha) ⟨rfl, rfl⟩ hlaunch hreaches hover hperformed⟩

end Nudge

/-- **Tweening is exact and monotone** on the rationals, for every known target, every animation and
every time between two frames.

The motion that begins with the claim arrives, if nothing supersedes it: it ends with the first frame
that is not earlier than the duration, exactly at the destination, and what it writes leads there
from the value at the claim without turning back or leaving the interval between the two
(`Motion.Arrives`).  Relative moves can be made in any number, and come to the value at first plus
all that was to be added and minus all that was to be subtracted.

The frames are those of the rides: whenever a ride of the machine has begun, it has written what its
motion reaches, and is over with the last frame or waits for the next one. -/
theorem Driver.tweening_exact {d : Driver ℚ} {target : String} {x : ℚ} (hframe : 0 < d.frame.nanos)
    (hknown : d.get? target = some x) :
    (∀ (a : Animation ℚ) (now : Nat), ∃ m b last writes, d.launch? target a now = some (m, b) ∧
      (m.target = target ∧ m.animation = a ∧ m.origin = x ∧ m.start = now ∧ b.frame = d.frame) ∧
      m.Arrives b last writes) ∧
    (∀ ns, (∃ d', Nudge.Performed target d ns d') ∧ ∀ d', Nudge.Performed target d ns d' →
      d'.get? target
        = some (x + (ns.filterMap Nudge.inc?).sum - (ns.filterMap Nudge.dec?).sum)) ∧
    ∀ (a : Animation Float) (b s : Stage) (p : Progress Ride (Except StepError Unit))
      (m : Motion Float) (claimed : Driver Float), Ride.Runs target a b s p →
      0 < b.driver.frame.nanos → b.driver.launch? target a b.now = some (m, claimed) →
      p ≠ .busy (.ahead target a) → Ride.Follows m b claimed s p := by
  refine ⟨fun a now => ?_, fun ns => ?_, fun a b s p m claimed hruns hperiod hlaunch hbegun => ?_⟩
  · obtain ⟨m, b, hlaunch, hclaims, hkept, htarget, hanimation, horigin, hstart⟩ :=
      Motion.exists_launch? hknown a now
    obtain ⟨last, harrives⟩ := hclaims.arrives (hkept ▸ hframe)
    exact ⟨m, b, last, _, hlaunch, ⟨htarget, hanimation, horigin, hstart, hkept⟩, harrives⟩
  · exact ⟨Nudge.exists_performed hframe hknown ns, fun d' h => h.get? hknown⟩
  · exact hruns.follows hperiod hlaunch hbegun

/-- One value, with sixty frames in a second. -/
def oneTarget : Driver ℚ where
  slots := .ofList [("x", ⟨0, 0⟩)]
  frame := ⟨16666667⟩

/-- A stage with that value. -/
def oneStage : Stage where
  driver := .ofValues [("x", 0)] 16
  functions := {}
  position := ⟨0, ""⟩

/-- It goes up slowly at first, in forty milliseconds. -/
def Nudge.up : Nudge := ⟨.inc (.literal .null), 1, ⟨40000000⟩, .easeIn, false, nofun⟩

/-- It goes down by a quarter at once. -/
def Nudge.down : Nudge := ⟨.dec (.literal .null), 1 / 4, .zero, .linear, false, nofun⟩

theorem Driver.tweening_exact_oneTarget : 0 < oneTarget.frame.nanos ∧ oneTarget.get? "x" = some 0 ∧
    (∃ m b writes, oneTarget.launch? "x" ⟨1, ⟨40000000⟩, .easeIn, false⟩ 5 = some (m, b) ∧
      m.Arrives b 3 writes ∧ writes.getLast? = some (56, 1)) ∧
    (∃ d', Nudge.Performed "x" oneTarget [.up, .down, .up] d') ∧
    (∀ d', Nudge.Performed "x" oneTarget [.up, .down, .up] d' → d'.get? "x" = some (7 / 4)) ∧
    ∀ a, ∃ m claimed, oneStage.driver.launch? "x" a oneStage.now = some (m, claimed) ∧
      Ride.Follows m oneStage claimed ((Ride.ahead "x" a).poll true oneStage).1
        ((Ride.ahead "x" a).poll true oneStage).2 := by
  have hframe : 0 < oneTarget.frame.nanos := by decide
  have hknown : oneTarget.get? "x" = some 0 := rfl
  obtain ⟨harrives, hmoves, hrides⟩ := Driver.tweening_exact hframe hknown
  obtain ⟨m, b, last, writes, hlaunch, ⟨-, hanimation, -, hstart, hkept⟩, h⟩ :=
    harrives ⟨1, ⟨40000000⟩, .easeIn, false⟩ 5
  obtain ⟨hpossible, hsum⟩ := hmoves [.up, .down, .up]
  -- the frames come after 17, 34 and 51 milliseconds
  have hthree : last = 3 := by
    have hfirst := h.first
    rw [hanimation, hkept] at hfirst
    refine hfirst.unique ⟨by decide, fun n hn => Nat.le_of_not_lt fun hlt => ?_⟩
    have hearly : ∀ n < 3, ¬ 40000000 ≤ (Duration.ofMillis (oneTarget.frame.toFrame n)).nanos := by
      decide
    exact hearly n hlt hn
  subst hthree
  refine ⟨hframe, hknown, ⟨m, b, writes, hlaunch, h, ?_⟩, hpossible, fun d' hd' => ?_,
    fun a => ⟨_, _, rfl, ?_⟩⟩
  · rw [h.getLast?, hanimation, Motion.frameTime, hstart, hkept]
    rfl
  · have hvalue : (0 : ℚ) + ([.up, .down, .up].filterMap Nudge.inc?).sum
        - ([.up, .down, .up].filterMap Nudge.dec?).sum = 7 / 4 := by decide +kernel
    rw [hsum d' hd', hvalue]
  · exact hrides a oneStage _ _ _ _ (.visited .asked) (by decide) rfl
      (Ride.poll_ne_ahead _ _)

end Timeline
