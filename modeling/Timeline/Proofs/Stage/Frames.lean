/-
Timeline/Proofs/Stage/Frames.lean

The frames of animations that begin together on targets of their own.

`Motion.writesUntil` is what an animation writes up to a time while nobody claims its
target again: one value at once and one after every period, until the last one.  It
knows nothing of alarms, turns and joins.  `Ride.OnTrack` says that a ride, with all
that was written on its target since some stage, has come just so far.

Main results: rides that share a convoy do not mind each other (`Convoy.OnTrack.poll`),
and after a visit that does not use up the turn all that are under way wait for their
next frames (`Convoy.poll_waits`).
-/
import Timeline.Proofs.Stage.Tending

namespace Timeline

open Stage

/-! ### What an animation writes -/

/-- The time between two frames that are written, as those in one millisecond are one. -/
def Duration.pace (period : Duration) : Duration := ⟨max period.nanos (ofMillis 1).nanos⟩

theorem Duration.pace_pos (period : Duration) : 0 < period.pace.nanos :=
  Nat.lt_of_lt_of_le (by decide) (Nat.le_max_right ..)

/-- The time from a claim to a frame, in milliseconds; the first frame has the number zero. -/
def Duration.toFrame (period : Duration) (n : Nat) : Nat :=
  (period.pace.times n).ceilMillis

@[simp] theorem Duration.toFrame_zero (period : Duration) : period.toFrame 0 = 0 := by
  simp [toFrame, times, ceilMillis]

theorem Duration.toFrame_mono (period : Duration) : Monotone period.toFrame :=
  fun _ _ h => ceilMillis_mono (Nat.mul_le_mul_right _ h)

/-- From a frame to the next one it is as long as what is left of the period. -/
theorem Duration.toFrame_succ {period : Duration} (hperiod : 0 < period.nanos) (n : Nat) :
    period.toFrame n + (period.rest (ofMillis (period.toFrame n))).ceilMillis
      = period.toFrame (n + 1) := by
  rcases Nat.le_total (ofMillis 1).nanos period.nanos with hlong | hshort
  · -- less than a millisecond passes from the end of a period to the frame
    have hpace : period.pace = period := congrArg mk (max_eq_left hlong)
    have hpassed := (period.times n).le_ofMillis_ceilMillis
    have hsoon := (period.times n).ofMillis_ceilMillis_lt
    rw [toFrame, toFrame, hpace, ceilMillis_rest hperiod]
    refine congrArg (fun k => (period.times (k + 1)).ceilMillis) (Nat.div_eq_of_lt_le hpassed ?_)
    rw [Nat.succ_mul]
    exact Nat.lt_of_lt_of_le hsoon (Nat.add_le_add_left hlong _)
  · -- every millisecond has a frame
    have hpace : period.pace = ofMillis 1 := congrArg mk (max_eq_right hshort)
    have hwhole (k : Nat) : period.toFrame k = k := by
      rw [toFrame, hpace]
      exact ceilMillis_ofMillis k
    rw [hwhole, hwhole]
    refine congrArg (n + ·) (Nat.le_antisymm ?_ ?_)
    · exact ceilMillis_le_iff.2 (Nat.le_trans (rest_le ..) hshort)
    · exact ceilMillis_pos_iff.2 (rest_pos hperiod _)

namespace Motion

section Times

variable {α : Type}

/-- The time of a frame. -/
def frameTime (m : Motion α) (period : Duration) (n : Nat) : Nat :=
  m.start + period.toFrame n

/-- The number of frames whose time has come. -/
def frameCount (m : Motion α) (period : Duration) (now : Nat) : Nat :=
  (Duration.ofMillis (now - m.start)).nanos / period.pace.nanos + 1

variable {m : Motion α} {period : Duration} {n time : Nat}

@[simp] theorem frameTime_zero (m : Motion α) (period : Duration) :
    m.frameTime period 0 = m.start := by
  simp [frameTime]

theorem start_le_frameTime (m : Motion α) (period : Duration) (n : Nat) :
    m.start ≤ m.frameTime period n :=
  Nat.le_add_right ..

theorem frameTime_mono (m : Motion α) (period : Duration) {n' : Nat} (h : n ≤ n') :
    m.frameTime period n ≤ m.frameTime period n' :=
  Nat.add_le_add_left (period.toFrame_mono h) m.start

theorem frameTime_le_iff (hstart : m.start ≤ time) :
    m.frameTime period n ≤ time ↔ n < m.frameCount period time := by
  rw [frameTime, frameCount, Nat.lt_add_one_iff, Nat.le_div_iff_mul_le period.pace_pos,
    ← Nat.le_sub_iff_add_le' hstart, Duration.toFrame, Duration.ceilMillis_le_iff]
  rfl

/-- **After a frame comes the next one.** -/
theorem nextFrame_frameTime (m : Motion α) (hperiod : 0 < period.nanos) (n : Nat) :
    m.nextFrame period (m.frameTime period n) = m.frameTime period (n + 1) := by
  rw [nextFrame, frameTime, frameTime, Nat.add_sub_cancel_left, Nat.add_assoc,
    Duration.toFrame_succ hperiod]

end Times

section Scalar

variable {α : Type} [Scalar α]

/-- Whether the motion is over with a frame. -/
def isLast (m : Motion α) (period : Duration) (n : Nat) : Bool :=
  (m.valueAt (m.frameTime period n)).2

/-- The first frames, with their times and values. -/
def frames (m : Motion α) (period : Duration) (n : Nat) : List (Nat × α) :=
  (List.range n).map fun k =>
    (m.frameTime period k, (m.valueAt (m.frameTime period k)).1)

/-- The value of the target after a number of frames. -/
def held (m : Motion α) (period : Duration) : Nat → α
  | 0 => m.origin
  | n + 1 => (m.valueAt (m.frameTime period n)).1

/-- One write with every frame from one on, until the last one or for a number of them. -/
def track (m : Motion α) (period : Duration) : Nat → Nat → List (Nat × α)
  | 0, _ => []
  | size + 1, n =>
    (m.frameTime period n, (m.valueAt (m.frameTime period n)).1) ::
      if m.isLast period n then [] else m.track period size (n + 1)

/-- All writes up to a time, with their times, the first one first. -/
def writesUntil (m : Motion α) (period : Duration) (time : Nat) : List (Nat × α) :=
  m.track period (m.frameCount period time) 0

/-- Whether a motion is over by a time. -/
def OverBy (m : Motion α) (period : Duration) (time : Nat) : Prop :=
  ∃ n, m.frameTime period n ≤ time ∧ m.isLast period n = true

variable {m : Motion α} {period : Duration} {n time : Nat}

/-- The writes from a frame on, up to one that is the last one or where they are to stop. -/
theorem track_eq {size first : Nat} (hle : n ≤ size)
    (hmore : ∀ k, k + 1 < n → m.isLast period (first + k) = false)
    (hstop : n = size ∨ ∃ i, n = i + 1 ∧ m.isLast period (first + i) = true) :
    m.track period size first = (List.range n).map fun k =>
      (m.frameTime period (first + k), (m.valueAt (m.frameTime period (first + k))).1) := by
  induction size generalizing n first with
  | zero =>
    obtain rfl : n = 0 := Nat.le_zero.1 hle
    rfl
  | succ size ih =>
    cases n with
    | zero =>
      rcases hstop with h | ⟨i, h, -⟩
      · cases h
      · cases h
    | succ n =>
      have hshift (k : Nat) : first + (k + 1) = first + 1 + k := by omega
      rw [List.range_succ_eq_map, List.map_cons, List.map_map, Nat.add_zero, track]
      refine congrArg _ ?_
      by_cases hlast : m.isLast period first = true
      · -- the first write is the last one
        have hn : n = 0 := by
          by_contra hne
          exact Bool.noConfusion (hlast.symm.trans (hmore 0 (by omega)))
        rw [if_pos hlast, hn]
        rfl
      · rw [if_neg hlast, ih (n := n) (Nat.le_of_succ_le_succ hle)]
        · refine List.map_congr_left fun k _ => ?_
          rw [← hshift]
          rfl
        · intro k hk
          rw [← hshift]
          exact hmore (k + 1) (by omega)
        · rcases hstop with h | ⟨i, h, hi⟩
          · exact .inl (Nat.succ.inj h)
          · cases i with
            | zero => exact absurd hi hlast
            | succ i => exact .inr ⟨i, Nat.succ.inj h, by rw [← hshift]; exact hi⟩

theorem track_zero_eq {size : Nat} (hle : n ≤ size)
    (hmore : ∀ k, k + 1 < n → m.isLast period k = false)
    (hstop : n = size ∨ ∃ i, n = i + 1 ∧ m.isLast period i = true) :
    m.track period size 0 = m.frames period n := by
  rw [track_eq hle (by simpa using hmore) (by simpa using hstop), frames]
  simp only [Nat.zero_add]

/-- Before a motion is over it writes all frames whose time has come. -/
theorem writesUntil_of_more (hmore : ∀ k < n, m.isLast period k = false)
    (htimes : ∀ k < n, m.frameTime period k ≤ time) (hpos : 0 < n)
    (hnext : time < m.frameTime period n) : m.writesUntil period time = m.frames period n := by
  have hlatest := htimes (n - 1) (by omega)
  have hstart := Nat.le_trans (m.start_le_frameTime period (n - 1)) hlatest
  have hcount : m.frameCount period time = n := by
    have hlt := (frameTime_le_iff hstart).1 hlatest
    have hle := mt (frameTime_le_iff hstart).2 (Nat.not_le.2 hnext)
    omega
  rw [writesUntil, hcount]
  exact track_zero_eq (Nat.le_refl n) (fun k hk => hmore k (by omega)) (.inl rfl)

/-- A motion that is over has written all frames up to the last one. -/
theorem writesUntil_of_last (hmore : ∀ k < n, m.isLast period k = false)
    (hlast : m.isLast period n = true) (htime : m.frameTime period n ≤ time) :
    m.writesUntil period time = m.frames period (n + 1) := by
  have hstart := Nat.le_trans (m.start_le_frameTime period n) htime
  exact track_zero_eq ((frameTime_le_iff hstart).1 htime) (fun k hk => hmore k (by omega))
    (.inr ⟨n, rfl, hlast⟩)

theorem frames_succ (m : Motion α) (period : Duration) (n : Nat) : m.frames period (n + 1)
    = m.frames period n ++ [(m.frameTime period n, m.held period (n + 1))] := by
  rw [frames, List.range_succ, List.map_append]
  rfl

/-- The last write is the value that the target has. -/
theorem getLast?_frames (m : Motion α) (period : Duration) (hpos : 0 < n) :
    (m.frames period n).getLast?.map Prod.snd = some (m.held period n) := by
  obtain ⟨k, rfl⟩ : ∃ k, n = k + 1 := ⟨n - 1, by omega⟩
  rw [frames_succ, List.getLast?_concat]
  rfl

/-- A motion is not over by a time before a frame if no frame before that is the last one. -/
theorem not_overBy (hmore : ∀ k < n, m.isLast period k = false)
    (htime : time < m.frameTime period n) : ¬ m.OverBy period time := by
  rintro ⟨i, hi, hlast⟩
  have hlt : i < n := by
    by_contra hnot
    have hle := m.frameTime_mono period (Nat.le_of_not_lt hnot)
    omega
  rw [hmore i hlt] at hlast
  cases hlast

/-- A motion that is over stays so, and has written all that it ever writes. -/
theorem OverBy.writesUntil_eq {time' : Nat} (h : m.OverBy period time) (h' : m.OverBy period time') :
    m.writesUntil period time = m.writesUntil period time' := by
  have hlast : ∃ n, m.isLast period n = true := by
    obtain ⟨n, -, hn⟩ := h
    exact ⟨n, hn⟩
  have hmore (k : Nat) (hk : k < Nat.find hlast) : m.isLast period k = false :=
    Bool.eq_false_iff.2 (Nat.find_min hlast hk)
  -- both have come to the first one of the frames that end it
  have hfirst {time : Nat} (h : m.OverBy period time) :
      m.frameTime period (Nat.find hlast) ≤ time := by
    obtain ⟨n, hn, hover⟩ := h
    exact Nat.le_trans (m.frameTime_mono period (Nat.find_min' hlast hover)) hn
  rw [writesUntil_of_last hmore (Nat.find_spec hlast) (hfirst h),
    writesUntil_of_last hmore (Nat.find_spec hlast) (hfirst h')]

theorem OverBy.mono {time' : Nat} (h : m.OverBy period time) (hle : time ≤ time') :
    m.OverBy period time' := by
  obtain ⟨n, hn, hlast⟩ := h
  exact ⟨n, Nat.le_trans hn hle, hlast⟩

/-- What a motion writes does not depend on how often its target was claimed before. -/
theorem track_congr {m' : Motion α} (hstart : m.start = m'.start) (hvalue : m.valueAt = m'.valueAt)
    (size n : Nat) : m.track period size n = m'.track period size n := by
  induction size generalizing n with
  | zero => rfl
  | succ size ih => rw [track, track, isLast, isLast, frameTime, frameTime, hvalue, hstart, ih]

end Scalar

/-- A frame that comes before the last one is not much later than the longest animation. -/
theorem frameTime_le {m : Motion Float} {period : Duration} {n : Nat} (hperiod : 0 < period.nanos)
    (hmore : ∀ k < n, m.isLast period k = false) :
    m.frameTime period n ≤ m.start + Animation.longest + period.ceilMillis := by
  cases n with
  | zero =>
    rw [frameTime_zero]
    omega
  | succ n =>
    have hyoung : m.frameTime period n - m.start < Animation.longest := by
      by_contra hold
      have hover := m.animation.isOver_progress (Nat.le_of_not_lt hold)
      have hlast := hmore n (Nat.lt_succ_self n)
      rw [isLast, valueAt] at hlast
      split at hlast
      · cases hlast
      · exact Bool.noConfusion (hover.symm.trans hlast)
    have hsoon := m.nextFrame_le period (m.frameTime period n)
    rw [m.nextFrame_frameTime hperiod] at hsoon
    omega

/-- Motions with one animation that begin at one moment with one value. -/
structure Alike (m m' : Motion Float) : Prop where
  animation : m'.animation = m.animation
  origin : m'.origin = m.origin
  start : m'.start = m.start

namespace Alike

variable {m m' : Motion Float} {period : Duration} {time : Nat}

theorem valueAt (h : m.Alike m') : m.valueAt = m'.valueAt := by
  funext now
  rw [Motion.valueAt, Motion.valueAt, h.animation, h.origin, h.start]

theorem writesUntil (h : m.Alike m') (period : Duration) (time : Nat) :
    m.writesUntil period time = m'.writesUntil period time := by
  rw [Motion.writesUntil, Motion.writesUntil, frameCount, frameCount, h.start,
    track_congr h.start.symm h.valueAt]

theorem overBy_iff (h : m.Alike m') : m.OverBy period time ↔ m'.OverBy period time := by
  simp only [OverBy, isLast, frameTime, h.start, h.valueAt]

end Alike

end Motion

/-! ### What is written on a target -/

/-- The time and the value of a write on a target. -/
def Record.writeOn? (target : String) (r : Record) : Option (Nat × Float) :=
  match r.event with
  | .wrote other value => if other = target then some (r.time, value) else none
  | _ => none

/-- The value that a deed writes, with the time. -/
def Ride.Deed.write? (now : Nat) : Ride.Deed → Option (Nat × Float)
  | .wrote value => some (now, value)
  | _ => none

namespace Stage

variable {s s' s'' : Stage} {target other : String}

/-- All writes on a target, with their times, the latest first. -/
def writes (target : String) (s : Stage) : List (Nat × Float) :=
  s.journal.filterMap (Record.writeOn? target)

/-- The writes of some deeds on a target, as the journal records them. -/
theorem writes_of_deeds {new : List Record} {deeds : List Ride.Deed} {now : Nat}
    (h : s'.journal = new ++ s.journal) (htime : ∀ r ∈ new, r.time = now)
    (hdeeds : new.filterMap Record.write? = deeds.map fun deed => (target, deed)) (other : String) :
    s'.writes other
      = (if target = other then deeds.filterMap (Ride.Deed.write? now) else []) ++ s.writes other := by
  have hrecord : ∀ r ∈ new, r.writeOn? other
      = r.write?.bind fun w => if w.1 = other then w.2.write? now else none := by
    intro r hr
    cases hevent : r.event <;>
      simp [Record.writeOn?, Record.write?, hevent, Ride.Deed.write?, htime r hr]
  rw [writes, h, List.filterMap_append, List.filterMap_congr hrecord, ← List.filterMap_filterMap,
    hdeeds, List.filterMap_map]
  refine congrArg (· ++ s.writes other) ?_
  split
  · rename_i heq
    refine List.filterMap_congr fun deed _ => ?_
    exact if_pos heq
  · rename_i hne
    refine List.filterMap_eq_nil_iff.2 fun deed _ => ?_
    exact if_neg hne

/-- Whoever acts on one target leaves the clock, the frames and all other targets alone. -/
structure Touches (target : String) (s s' : Stage) : Prop where
  now : s'.now = s.now
  frame : s'.driver.frame = s.driver.frame
  slots : ∀ other, other ≠ target → s'.driver.slots.get? other = s.driver.slots.get? other
  writes : ∀ other, other ≠ target → s'.writes other = s.writes other

end Stage

/-! ### Rides -/

/-- A motion begins with a claim on a stage. -/
structure Motion.StartsOn (m : Motion Float) (b : Stage) : Prop where
  slot : ∃ slot, b.driver.slots.get? m.target = some slot ∧ m.origin = slot.value ∧
    m.generation = slot.generation + 1
  start : m.start = b.now

/-- The first frames of a motion have been written, and nothing else since a stage. -/
structure Motion.Written (m : Motion Float) (b s : Stage) (n : Nat) : Prop where
  slot : s.driver.slots.get? m.target = some ⟨m.held b.driver.frame n, m.generation⟩
  writes : s.writes m.target = (m.frames b.driver.frame n).reverse ++ b.writes m.target
  begun : m.start ≤ s.now
  times : ∀ k < n, m.frameTime b.driver.frame k ≤ s.now

namespace Ride

variable {m : Motion Float} {b s s' : Stage} {r : Ride} {next : Alarm} {n : Nat}
  {p : Progress Ride (Except StepError Unit)}

/-- A ride has come just as far as its motion, which began on a stage `b`, should have. -/
inductive OnTrack (m : Motion Float) (b s : Stage) : Progress Ride (Except StepError Unit) → Prop
  | ahead : s.now = m.start →
      s.driver.slots.get? m.target = b.driver.slots.get? m.target →
      s.writes m.target = b.writes m.target →
      OnTrack m b s (.busy (.ahead m.target m.animation))
  | moving {n : Nat} {next : Alarm} : (∀ k < n, m.isLast b.driver.frame k = false) →
      next.due = m.frameTime b.driver.frame n → s.now ≤ next.due → m.Written b s n →
      OnTrack m b s (.busy (.moving m next))
  | done {n : Nat} : (∀ k < n, m.isLast b.driver.frame k = false) →
      m.isLast b.driver.frame n = true → m.Written b s (n + 1) →
      OnTrack m b s (.finished (.ok ()))

/-- What happens to other targets at the same time does not matter. -/
theorem OnTrack.congr (h : OnTrack m b s p) (hnow : s'.now = s.now)
    (hslot : s'.driver.slots.get? m.target = s.driver.slots.get? m.target)
    (hwrites : s'.writes m.target = s.writes m.target) : OnTrack m b s' p := by
  have hkept {n : Nat} (hw : m.Written b s n) : m.Written b s' n :=
    ⟨hslot.trans hw.slot, hwrites.trans hw.writes, hnow ▸ hw.begun, fun k hk => hnow ▸ hw.times k hk⟩
  cases h with
  | ahead hstart hs hw => exact .ahead (hnow.trans hstart) (hslot.trans hs) (hwrites.trans hw)
  | moving hmore hdue hle hw => exact .moving hmore hdue (hnow ▸ hle) (hkept hw)
  | done hmore hlast hw => exact .done hmore hlast (hkept hw)

/-- Time passes, but not beyond the next frame. -/
theorem OnTrack.later (h : OnTrack m b s p) {time : Nat} (hle : s.now ≤ time)
    (hbusy : ∀ r, p = .busy r → ∃ a, r.alarm? = some a ∧ time ≤ a.due) :
    OnTrack m b { s with now := time } p := by
  have hkept {n : Nat} (hw : m.Written b s n) : m.Written b { s with now := time } n :=
    ⟨hw.slot, hw.writes, Nat.le_trans hw.begun hle, fun k hk => Nat.le_trans (hw.times k hk) hle⟩
  cases h with
  | ahead _ _ _ =>
    obtain ⟨a, ha, -⟩ := hbusy _ rfl
    cases ha
  | moving hmore hdue _ hw =>
    obtain ⟨a, ha, htime⟩ := hbusy _ rfl
    obtain rfl := Option.some.inj ha
    exact .moving hmore hdue htime (hkept hw)
  | done hmore hlast hw => exact .done hmore hlast (hkept hw)

theorem Pace.slots_of_ne {now : Nat} {d d' : Driver Float} {deeds : List Ride.Deed}
    (h : Pace now d r d' deeds p) {other : String} (hne : other ≠ r.target) :
    d'.slots.get? other = d.slots.get? other := by
  cases h with
  | refuse _ => rfl
  | wait _ => rfl
  | giveUp _ _ => rfl
  | claim _ _ => exact (Table.get?_put ..).trans (if_neg hne)
  | frame _ _ _ _ => exact (Table.get?_put ..).trans (if_neg hne)
  | finish _ _ _ => exact (Table.get?_put ..).trans (if_neg hne)

/-- A pace of a ride that is on track. -/
theorem OnTrack.of_pace {d d' : Driver Float} {now : Nat} {deeds : List Ride.Deed}
    (hpace : Pace now d (.moving m next) d' (p.deeds ++ deeds) p)
    (hframe : d.frame = b.driver.frame) (hperiod : 0 < b.driver.frame.nanos)
    (hmore : ∀ k < n, m.isLast b.driver.frame k = false)
    (hdue : next.due = m.frameTime b.driver.frame n) (hle : now ≤ next.due)
    (hslot : d.slots.get? m.target = some ⟨m.held b.driver.frame n, m.generation⟩)
    (hbegun : m.start ≤ now) (htimes : ∀ k < n, m.frameTime b.driver.frame k ≤ now)
    (hdriver : s'.driver = d') (hnow : s'.now = now)
    (hwrites : s'.writes m.target = deeds.filterMap (Ride.Deed.write? now) ++
      ((m.frames b.driver.frame n).reverse ++ b.writes m.target)) : OnTrack m b s' p := by
  subst hdriver hnow
  have hgeneration : d.generation? m.target = some m.generation := by
    rw [Driver.generation?, hslot]
    rfl
  -- the frame that a visit writes is the next one, at its time
  have hwritten (hat : s'.now = m.frameTime b.driver.frame n)
      (hput : s'.driver = d.put m.target ⟨(m.valueAt s'.now).1, m.generation⟩)
      (hone : deeds = [.wrote (m.valueAt s'.now).1]) : m.Written b s' (n + 1) := by
    refine ⟨?_, ?_, hbegun, fun k hk => ?_⟩
    · rw [hput, Table.get?_put_self, hat]
      rfl
    · rw [hwrites, hone, Motion.frames_succ, List.reverse_append, hat]
      rfl
    · rcases Nat.lt_succ_iff_lt_or_eq.1 hk with hk | rfl
      · exact htimes k hk
      · exact Nat.le_of_eq hat.symm
  generalize hall : p.deeds ++ deeds = all at hpace
  generalize hd : s'.driver = d' at hpace
  cases hpace with
  | wait hdue' =>
    obtain rfl : deeds = [] := hall
    exact .moving hmore (hdue'.trans hdue) (hdue' ▸ hle) ⟨hd ▸ hslot, hwrites, hbegun, htimes⟩
  | giveUp _ hnot => exact absurd hgeneration hnot
  | @frame _ _ next' hdue' _ hnext hafter =>
    have hat : s'.now = m.frameTime b.driver.frame n := by omega
    refine .moving (n := n + 1) (fun k hk => ?_) ?_ (hafter ▸ m.le_nextFrame ..)
      (hwritten hat hd hall)
    · rcases Nat.lt_succ_iff_lt_or_eq.1 hk with hk | rfl
      · exact hmore k hk
      · rw [Motion.isLast, ← hat]
        exact hnext
    · rw [hafter, hat, hframe, m.nextFrame_frameTime hperiod]
  | finish hdue' _ hlast =>
    have hat : s'.now = m.frameTime b.driver.frame n := by omega
    refine .done hmore ?_ (hwritten hat hd (List.cons.inj hall).2)
    rw [Motion.isLast, ← hat]
    exact hlast

/-- **A visit keeps a ride on its track**, and leaves all other targets alone. -/
theorem OnTrack.poll (h : OnTrack m b s (.busy r)) (hstarts : m.StartsOn b)
    (hperiod : 0 < b.driver.frame.nanos) (hframe : s.driver.frame = b.driver.frame) :
    OnTrack m b (r.poll true s).1 (r.poll true s).2 ∧ Touches m.target s (r.poll true s).1 := by
  obtain ⟨new, hnew, hall⟩ := (Ride.poll_acts true r s).frame.journal
  have hrecords (r' : Record) (hr : r' ∈ new) : r'.time = s.now := (hall r' hr).1
  cases h with
  | @moving n next hmore hdue hle hw =>
    -- the ride looks at its frame, as many of them being written as before
    obtain ⟨deeds, hmakes⟩ := frame_makes true m next s
    obtain ⟨new', hnew', hdeeds⟩ := hmakes.journal
    obtain rfl : new' = new := List.append_cancel_right (hnew'.symm.trans hnew)
    have hwrites := Stage.writes_of_deeds hnew hrecords hdeeds
    refine ⟨.of_pace hmakes.pace hframe hperiod hmore hdue hle
      hw.slot hw.begun hw.times rfl hmakes.now ?_,
      hmakes.now, hmakes.pace.frame_eq, fun other hne => ?_, fun other hne => ?_⟩
    · rw [← hw.writes]
      exact (hwrites m.target).trans (by rw [if_pos rfl])
    · exact hmakes.pace.slots_of_ne hne
    · exact (hwrites other).trans (by rw [if_neg hne.symm]; rfl)
  | ahead hstart hslot hw =>
    -- the claim writes nothing, and behind it the ride looks at its first frame
    obtain ⟨⟨slot, hb, horigin, hgeneration⟩, hnow⟩ := hstarts
    have hknown : s.driver.slots.get? m.target = some slot := hslot.trans hb
    have hm : m = ⟨m.target, m.animation, slot.value, slot.generation + 1, s.now⟩ := by
      rw [← horigin, ← hgeneration, hstart]
    obtain ⟨next, s₁, deeds, hclaims, hmakes⟩ := poll_known true m.animation hknown
    rw [← hm] at hmakes
    obtain ⟨before, hbefore, hsilent⟩ := hclaims.journal
    obtain ⟨after, hafter, hdeeds⟩ := hmakes.journal
    obtain rfl : after ++ before = new := by
      refine List.append_cancel_right (Eq.trans ?_ hnew)
      rw [hafter, hbefore, List.append_assoc]
    have hwrites := Stage.writes_of_deeds hnew hrecords
      (by rw [List.filterMap_append, hsilent, List.append_nil, hdeeds])
    have hpace := hmakes.pace
    rw [hclaims.now] at hpace
    have hframe₁ : s₁.driver.frame = s.driver.frame := by rw [hclaims.driver]
    have hstart' : next.due = m.frameTime b.driver.frame 0 := by
      rw [hclaims.due, hstart, Motion.frameTime_zero]
    refine ⟨.of_pace (n := 0) hpace (hframe₁.trans hframe) hperiod nofun hstart'
      (Nat.le_of_eq hclaims.due.symm) ?_ (Nat.le_of_eq hstart.symm) nofun rfl
      (hmakes.now.trans hclaims.now) ?_,
      hmakes.now.trans hclaims.now, hpace.frame_eq.trans hframe₁, fun other hne => ?_,
      fun other hne => ?_⟩
    · rw [hclaims.driver, Table.get?_put_self, ← horigin, ← hgeneration]
      rfl
    · rw [hwrites, if_pos rfl, hw]
      rfl
    · rw [hpace.slots_of_ne hne, hclaims.driver]
      exact (Table.get?_put ..).trans (if_neg hne)
    · rw [hwrites, if_neg hne.symm]
      rfl

theorem write_waits_of_turn {recorded : Bool} (hframe : 0 < s.driver.frame.nanos)
    (hturn : 0 < (write recorded m s).1.turn) {r' : Ride}
    (h : (write recorded m s).2 = .busy r') : r'.Waits s.now :=
  write_waits (Nat.lt_of_lt_of_le hturn (write_meets (B := .free) recorded m s).1.frame.turn) hframe h

theorem frame_waits_of_turn {recorded : Bool} (hframe : 0 < s.driver.frame.nanos)
    (hturn : 0 < (frame recorded m next s).1.turn) {r' : Ride}
    (h : (frame recorded m next s).2 = .busy r') : r'.Waits s.now := by
  have hawait := Stage.Acts.await (B := .free) s next
  rcases ha : s.await next with ⟨- | a, s₁⟩ <;> rw [ha] at hawait <;>
    simp only [frame, ha] at h hturn
  · obtain ⟨-, rfl⟩ := Stage.await_none ha
    exact write_waits_of_turn (s := s.spend) hframe hturn h
  · obtain rfl := Progress.busy.inj h
    exact ⟨a, rfl, Stage.await_sets (Nat.lt_of_lt_of_le hturn hawait.frame.turn) ha⟩

/-- A visit that does not use up the turn leaves a ride waiting for its next frame. -/
theorem poll_waits_of_turn {recorded : Bool} (hframe : 0 < s.driver.frame.nanos)
    (hturn : 0 < (r.poll recorded s).1.turn) {r' : Ride} (h : (r.poll recorded s).2 = .busy r') :
    r'.Waits s.now := by
  cases r with
  | moving m next => exact frame_waits_of_turn hframe hturn h
  | ahead target animation =>
    obtain ⟨s₀, hs₀⟩ : ∃ s₀, s₀ = report recorded s (.animate target animation) := ⟨_, rfl⟩
    have hnow : s₀.now = s.now := hs₀ ▸ report_now ..
    have hdriver : s₀.driver = s.driver := hs₀ ▸ report_driver ..
    simp only [poll, ← hs₀] at h hturn
    rcases hlaunch : s₀.driver.launch? target animation s₀.now with - | ⟨m, d⟩ <;>
      simp only [hlaunch] at h hturn
    · cases h
    · have hd : d.frame = s.driver.frame := hdriver ▸ Driver.frame_of_launch? hlaunch
      obtain ⟨s₁, hs₁⟩ : ∃ s₁ : Stage, s₁ = { s₀ with driver := d } := ⟨_, rfl⟩
      have hframe₁ : 0 < s₁.driver.frame.nanos := by rwa [hs₁, hd]
      have hnow₁ : s₁.now = s.now := by rw [hs₁, hnow]
      rw [← hs₁] at h hturn
      rw [← hnow₁]
      by_cases hzero : animation.duration = .zero
      · rw [if_pos hzero] at h hturn
        exact write_waits_of_turn hframe₁ hturn h
      · rw [if_neg hzero] at h hturn
        exact frame_waits_of_turn hframe₁ hturn h

/-- What has been written on the target of a ride that waits, or that is over. -/
theorem OnTrack.settled (h : OnTrack m b s p) (hrest : ∀ r, p = .busy r → r.Waits s.now) :
    s.writes m.target = (m.writesUntil b.driver.frame s.now).reverse ++ b.writes m.target ∧
      s.driver.get? m.target = (m.writesUntil b.driver.frame s.now).getLast?.map Prod.snd := by
  -- the first frame is written at once
  have hwritten {n : Nat} (hw : m.Written b s n) (hpos : 0 < n)
      (huntil : m.writesUntil b.driver.frame s.now = m.frames b.driver.frame n) :
      s.writes m.target = (m.writesUntil b.driver.frame s.now).reverse ++ b.writes m.target ∧
        s.driver.get? m.target = (m.writesUntil b.driver.frame s.now).getLast?.map Prod.snd := by
    rw [huntil]
    refine ⟨hw.writes, ?_⟩
    rw [Motion.getLast?_frames _ _ hpos, Driver.get?, hw.slot]
    rfl
  cases h with
  | ahead _ _ _ =>
    obtain ⟨a, ha, -, -⟩ := hrest _ rfl
    cases ha
  | @moving n next hmore hdue hle hw =>
    obtain ⟨a, ha, -, hlt⟩ := hrest _ rfl
    obtain rfl : next = a := Option.some.inj ha
    have hpos : 0 < n := by
      by_contra hnot
      obtain rfl : n = 0 := by omega
      rw [hdue, Motion.frameTime_zero] at hlt
      have hbegun := hw.begun
      omega
    exact hwritten hw hpos (Motion.writesUntil_of_more hmore hw.times hpos (hdue ▸ hlt))
  | done hmore hlast hw =>
    exact hwritten hw (Nat.succ_pos _)
      (Motion.writesUntil_of_last hmore hlast (hw.times _ (Nat.lt_succ_self _)))

/-- A ride that is over has come to the last frame. -/
theorem OnTrack.overBy (h : OnTrack m b s (.finished (.ok ()))) :
    m.OverBy b.driver.frame s.now := by
  cases h with
  | @done n hmore hlast hw => exact ⟨n, hw.times n (Nat.lt_succ_self n), hlast⟩

/-- A ride that has begun and is under way is not over before its next frame. -/
theorem OnTrack.not_overBy (h : OnTrack m b s (.busy r)) {a : Alarm} (ha : r.alarm? = some a)
    {time : Nat} (htime : time < a.due) : ¬ m.OverBy b.driver.frame time := by
  cases h with
  | ahead _ _ _ => cases ha
  | @moving n next hmore hdue _ _ =>
    obtain rfl : next = a := Option.some.inj ha
    exact Motion.not_overBy hmore (hdue ▸ htime)

/-- The next frame of a ride is never long after its begin. -/
theorem OnTrack.due_le (h : OnTrack m b s (.busy r)) (hperiod : 0 < b.driver.frame.nanos)
    {a : Alarm} (ha : r.alarm? = some a) :
    a.due ≤ m.start + Animation.longest + b.driver.frame.ceilMillis := by
  cases h with
  | ahead _ _ _ => cases ha
  | @moving n next hmore hdue _ _ =>
    obtain rfl : next = a := Option.some.inj ha
    exact hdue ▸ Motion.frameTime_le hperiod hmore

/-- The clock has not gone past the next frame of a ride. -/
theorem OnTrack.le_due (h : OnTrack m b s (.busy r)) {a : Alarm} (ha : r.alarm? = some a) :
    s.now ≤ a.due := by
  cases h with
  | ahead _ _ _ => cases ha
  | @moving n next _ _ hle _ =>
    obtain rfl : next = a := Option.some.inj ha
    exact hle

end Ride

/-! ### Joins -/

namespace Join

variable {σ ρ : Type}

/-- Members that are under way after a visit without a failure were visited last, unless it passed
them over. -/
theorem busy_of_visit {I : Stage → Prop} {Q : σ → Prop}
    (pollOne : σ → Stage → Stage × Progress σ (Except StepError ρ)) (large : Bool)
    (hone : ∀ state s state', I (pollOne state s).1 → (pollOne state s).2 = .busy state' →
      Q state')
    (hback : ∀ state s, I (pollOne state s).1 → I s) (order : List Nat) {j : Join σ ρ} {s : Stage}
    (hend : I (visit pollOne large order j s).1)
    (hok : failure? large (visit pollOne large order j s).2 = none) (i : Nat) (state : σ)
    (hi : (visit pollOne large order j s).2[i]? = some (.busy state)) :
    I s ∧ (Q state ∨ i ∉ order ∧ j[i]? = some (.busy state)) := by
  induction order generalizing j s with
  | nil => exact ⟨hend, .inr ⟨List.not_mem_nil, hi⟩⟩
  | cons k rest ih =>
    have hpassed {s : Stage} (hne : j[k]? ≠ some (.busy state))
        (h : I s ∧ (Q state ∨ i ∉ rest ∧ j[i]? = some (.busy state))) :
        I s ∧ (Q state ∨ i ∉ k :: rest ∧ j[i]? = some (.busy state)) := by
      refine ⟨h.1, h.2.imp_right fun hrest => ⟨?_, hrest.2⟩⟩
      rw [List.mem_cons, not_or]
      refine ⟨?_, hrest.1⟩
      rintro rfl
      exact hne hrest.2
    rcases hk : j[k]? with - | (st | result) <;> simp only [visit, hk] at hend hok hi
    · exact hpassed (fun he => by cases hk.symm.trans he) (ih hend hok hi)
    · have hlt : k < j.length := (List.getElem?_eq_some_iff.1 hk).1
      have hvisited := hone st s
      have hbefore := hback st s
      rcases hp : pollOne st s with ⟨s', st' | result⟩ <;> rw [hp] at hvisited hbefore <;>
        simp only [hp] at hend hok hi
      · obtain ⟨hs, hbusy⟩ := ih hend hok hi
        refine ⟨hbefore hs, ?_⟩
        rcases hbusy with hq | ⟨hnot, hj⟩
        · exact .inl hq
        · by_cases hik : i = k
          · subst hik
            rw [List.getElem?_set_self hlt] at hj
            cases hj
            exact .inl (hvisited _ hs rfl)
          · rw [List.getElem?_set_ne (Ne.symm hik)] at hj
            exact .inr ⟨by simp [hik, hnot], hj⟩
      · by_cases hfail : (failure? large (j.set k (.finished result))).isSome
        · simp only [hfail, if_true] at hok
          simp [hok] at hfail
        · simp only [hfail] at hend hok hi
          obtain ⟨hs, hbusy⟩ := ih hend hok hi
          refine ⟨hbefore hs, hbusy.imp_right fun hrest => ?_⟩
          obtain ⟨hnot, hj⟩ := hrest
          by_cases hik : i = k
          · subst hik
            rw [List.getElem?_set_self hlt] at hj
            cases hj
          · rw [List.getElem?_set_ne (Ne.symm hik)] at hj
            exact ⟨by simp [hik, hnot], hj⟩
    · exact hpassed (fun he => by cases hk.symm.trans he) (ih hend hok hi)

/-- A visit to a join is a sequence of acts if a visit to a member is. -/
theorem poll_acts {pollOne : σ → Stage → Stage × Progress σ (Except StepError ρ)}
    (hacts : ∀ state s, Acts .free s (pollOne state s).1) (alarm? : σ → Option Alarm)
    (j : Join σ ρ) (s : Stage) : Acts .free s (j.poll pollOne alarm? s).1 := by
  have hkeeps : Keeps pollOne (fun _ _ => True) (Acts .free) :=
    ⟨fun _ => .refl, .trans, fun _ _ => trivial, fun _ => ⟨hacts .., fun _ _ => trivial⟩⟩
  exact (hkeeps.poll alarm? fun _ _ => trivial).1

/-- After a visit that does not use up the turn all members wait that are under way, if each of them
does after a visit to it. -/
theorem poll_waits {pollOne : σ → Stage → Stage × Progress σ (Except StepError ρ)}
    {alarm? : σ → Option Alarm} {j j' : Join σ ρ} {s s' : Stage}
    (hacts : ∀ state s, Acts .free s (pollOne state s).1)
    (hone : ∀ {state s state'}, 0 < s.driver.frame.nanos → 0 < (pollOne state s).1.turn →
      (pollOne state s).2 = .busy state' → Waits alarm? s.now state')
    (hframe : 0 < s.driver.frame.nanos) (hpoll : j.poll pollOne alarm? s = (s', .busy j'))
    (hturn : 0 < s'.turn) {state : σ} (hstate : .busy state ∈ j') : Waits alarm? s.now state := by
  have hall := poll_acts hacts alarm? j s
  rw [hpoll] at hall
  have hend : 0 < s'.turn ∧ s'.now = s.now ∧ s'.driver.frame = s.driver.frame :=
    ⟨hturn, hall.frame.now, hall.touched.frame⟩
  obtain ⟨order, horder⟩ :
      ∃ order, order = if j.isLarge then j.woken alarm? s.now else List.range j.length := ⟨_, rfl⟩
  simp only [poll, ← horder] at hpoll
  rcases hv : visit pollOne j.isLarge order j s with ⟨s₁, j₁⟩
  rw [hv] at hpoll
  rcases hf : failure? j.isLarge j₁ with - | e <;> rcases hs : results? j₁ with - | rs <;>
    simp only [hf, hs] at hpoll
  · cases hpoll
    obtain ⟨i, hi⟩ := List.mem_iff_getElem?.1 hstate
    -- going back from the end, no visit began without a turn
    obtain ⟨-, hwaits | ⟨hnot, hbusy⟩⟩ := busy_of_visit
      (I := fun s₁ => 0 < s₁.turn ∧ s₁.now = s.now ∧ s₁.driver.frame = s.driver.frame)
      (Q := Waits alarm? s.now) pollOne j.isLarge
      (fun state s₁ state' hs₁ hp => by
        have hact := hacts state s₁
        rw [← hs₁.2.1, hact.frame.now]
        refine hone ?_ hs₁.1 hp
        rw [← hact.touched.frame, hs₁.2.2]
        exact hframe)
      (fun state s₁ hs₁ => by
        have hact := hacts state s₁
        exact ⟨Nat.lt_of_lt_of_le hs₁.1 hact.frame.turn, hact.frame.now ▸ hs₁.2.1,
          hact.touched.frame ▸ hs₁.2.2⟩)
      order (by rw [hv]; exact hend) (by rw [hv]; exact hf) i state (by rw [hv]; exact hi)
    · exact hwaits
    · exact waits_of_not_mem_order hbusy (horder ▸ hnot)
  · cases hpoll
  · cases hpoll
  · cases hpoll

end Join

/-! ### Convoys -/

namespace Convoy

variable {ms : List (Motion Float)} {b s s' : Stage} {j j' : Convoy}

/-- **Whoever has a turn left waits.**  After a visit that does not use up the turn all rides wait for
their next frames. -/
theorem poll_waits (recorded : Bool) (hframe : 0 < s.driver.frame.nanos)
    (hpoll : j.poll recorded s = (s', .busy j')) (hturn : 0 < s'.turn) {r : Ride}
    (hr : .busy r ∈ j') : r.Waits s.now := by
  rcases hp : Join.poll (Ride.poll recorded) Ride.alarm? j s with ⟨s₁, j₁ | result⟩ <;>
    simp only [poll, hp] at hpoll
  · cases hpoll
    exact Join.poll_waits (Ride.poll_acts recorded)
      (fun hframe hturn h => Ride.poll_waits_of_turn hframe hturn h) hframe hp hturn hr
  · cases hpoll

theorem visit_of_waits (recorded large : Bool) (order : List Nat)
    (h : ∀ r, .busy r ∈ j → r.Waits s.now) :
    Join.visit (Ride.poll recorded) large order j s = (s, j) := by
  induction order with
  | nil => rfl
  | cons i rest ih =>
    rcases hi : j[i]? with - | (r | result) <;> simp only [Join.visit, hi]
    · exact ih
    · obtain ⟨hlt, hget⟩ := List.getElem?_eq_some_iff.1 hi
      have hsame : j.set i (.busy r) = j := by rw [← hget, List.set_getElem_self]
      rw [Ride.poll_of_waits recorded (h r (List.mem_of_getElem? hi))]
      dsimp only
      rw [hsame]
      exact ih
    · exact ih

/-- A visit to rides that all wait does nothing. -/
theorem poll_of_waits {recorded : Bool} (h : ∀ r, .busy r ∈ j → r.Waits s.now)
    (hpoll : j.poll recorded s = (s', .busy j')) : s' = s ∧ j' = j := by
  simp only [poll, Join.poll] at hpoll
  rw [visit_of_waits recorded _ _ h] at hpoll
  rcases hf : Join.failure? j.isLarge j with - | e <;> rcases hs : Join.results? j with - | rs <;>
    simp only [hf, hs] at hpoll
  · cases hpoll
    exact ⟨rfl, rfl⟩
  · cases hpoll
  · cases hpoll
  · cases hpoll

/-- All rides of a convoy are on track, and no other target has changed since a stage. -/
structure OnTrack (ms : List (Motion Float)) (b : Stage) (j : Convoy) (s : Stage) : Prop where
  begun : b.now ≤ s.now
  frame : s.driver.frame = b.driver.frame
  length : j.length = ms.length
  rides : ∀ (i : Nat) m p, ms[i]? = some m → j[i]? = some p → Ride.OnTrack m b s p
  slots : ∀ target, target ∉ ms.map Motion.target →
    s.driver.slots.get? target = b.driver.slots.get? target
  writes : ∀ target, target ∉ ms.map Motion.target → s.writes target = b.writes target

/-- Visits to some rides keep all on track. -/
theorem OnTrack.tours (h : OnTrack ms b j s) (hstarts : ∀ m ∈ ms, m.StartsOn b)
    (hperiod : 0 < b.driver.frame.nanos) (hdistinct : (ms.map Motion.target).Nodup)
    {visits : List (Visit Ride Unit)}
    (htours : Join.Tours (Ride.poll true) j s visits j' s') :
    OnTrack ms b j' s' := by
  induction htours with
  | done _ _ => exact h
  | @visit j j' s s₁ s' i r p rest hi hpoll _ ih =>
    refine ih ?_
    have hlt : i < ms.length := h.length ▸ (List.getElem?_eq_some_iff.1 hi).1
    have hmi : ms[i]? = some ms[i] := List.getElem?_eq_getElem hlt
    obtain ⟨hride, htouches⟩ :=
      (h.rides i _ _ hmi hi).poll (hstarts _ (List.getElem_mem hlt)) hperiod h.frame
    rw [hpoll] at hride htouches
    have hother {target : String} (hnot : target ∉ ms.map Motion.target) :
        target ≠ ms[i].target := by
      rintro rfl
      exact hnot (List.mem_map_of_mem (List.getElem_mem hlt))
    refine ⟨htouches.now ▸ h.begun, htouches.frame.trans h.frame,
      by rw [List.length_set, h.length], fun k m q hm hq => ?_,
      fun target hnot => (htouches.slots _ (hother hnot)).trans (h.slots target hnot),
      fun target hnot => (htouches.writes _ (hother hnot)).trans (h.writes target hnot)⟩
    by_cases hk : i = k
    · subst hk
      obtain rfl := Option.some.inj (hmi.symm.trans hm)
      rw [List.getElem?_set_self (h.length ▸ hlt)] at hq
      obtain rfl := Option.some.inj hq
      exact hride
    · -- two rides have different targets
      rw [List.getElem?_set_ne hk] at hq
      have hne : m.target ≠ ms[i].target := by
        intro heq
        refine hk ((List.getElem?_inj (by simpa using hlt) hdistinct).1 ?_)
        rw [List.getElem?_map, List.getElem?_map, hmi, hm, Option.map_some, Option.map_some, heq]
      exact (h.rides k m q hm hq).congr htouches.now (htouches.slots _ hne) (htouches.writes _ hne)

/-- **A visit keeps a convoy on track**: some rides are still under way, or all of them are over. -/
theorem OnTrack.poll (h : OnTrack ms b j s) (hstarts : ∀ m ∈ ms, m.StartsOn b)
    (hperiod : 0 < b.driver.frame.nanos) (hdistinct : (ms.map Motion.target).Nodup)
    {p : Progress Convoy (Except StepError Unit)}
    (hpoll : Convoy.poll true j s = (s', p)) :
    ∃ j', OnTrack ms b j' s' ∧
      (p = .busy j' ∧ (∃ r, .busy r ∈ j') ∨
        p = .finished (.ok ()) ∧ ∀ q ∈ j', q = .finished (.ok ())) := by
  obtain ⟨j', htours, hupshot⟩ := Convoy.poll_tours true j s
  rw [hpoll] at htours hupshot
  have hafter := h.tours hstarts hperiod hdistinct htours
  refine ⟨j', hafter, ?_⟩
  rcases p with j'' | result
  · obtain ⟨rfl, hbusy⟩ := Traffic.upshot_busy hupshot.symm
    exact .inl ⟨rfl, hbusy⟩
  · rcases Traffic.finished_of_upshot hupshot.symm with ⟨rfl, hall⟩ | ⟨e, i, rfl, hi⟩
    · refine .inr ⟨rfl, fun q hq => ?_⟩
      obtain ⟨i, hi⟩ := List.mem_iff_getElem?.1 hq
      exact Option.some.inj (hi.symm.trans (hall i (List.getElem?_eq_some_iff.1 hi).1))
    · -- a ride that is on track does not fail
      have hlt : i < ms.length := hafter.length ▸ (List.getElem?_eq_some_iff.1 hi).1
      cases hafter.rides i _ _ (List.getElem?_eq_getElem hlt) hi

/-- Rides that have not begun, on a stage on which nothing has happened to their targets. -/
theorem OnTrack.start (hstarts : ∀ m ∈ ms, m.StartsOn b) (hnow : s.now = b.now)
    (hdriver : s.driver = b.driver) (hwrites : ∀ target, s.writes target = b.writes target) :
    OnTrack ms b (ofBatch (ms.map fun m => (m.target, m.animation))) s where
  begun := Nat.le_of_eq hnow.symm
  frame := by rw [hdriver]
  length := by simp [ofBatch]
  rides i m p hm hp := by
    rw [ofBatch, List.map_map, List.getElem?_map, hm] at hp
    obtain rfl := Option.some.inj hp
    have hmem := List.mem_of_getElem? hm
    exact .ahead (hnow.trans (hstarts m hmem).start.symm) (by rw [hdriver]) (hwrites m.target)
  slots _ _ := by rw [hdriver]
  writes target _ := hwrites target

/-- Time passes, but not beyond the next frame of any ride. -/
theorem OnTrack.later (h : OnTrack ms b j s) {time : Nat} (hle : s.now ≤ time)
    (hbusy : ∀ r, .busy r ∈ j → ∃ a, r.alarm? = some a ∧ time ≤ a.due) :
    OnTrack ms b j { s with now := time } where
  begun := Nat.le_trans h.begun hle
  frame := h.frame
  length := h.length
  rides i m p hm hp := (h.rides i m p hm hp).later hle fun r hr =>
    hbusy r (hr ▸ List.mem_of_getElem? hp)
  slots := h.slots
  writes := h.writes

/-- What happens on the stage besides leaves the rides on track. -/
theorem OnTrack.congr (h : OnTrack ms b j s) (hnow : s'.now = s.now)
    (hdriver : s'.driver = s.driver) (hwrites : ∀ target, s'.writes target = s.writes target) :
    OnTrack ms b j s' where
  begun := hnow ▸ h.begun
  frame := by rw [hdriver, h.frame]
  length := h.length
  rides i m p hm hp := (h.rides i m p hm hp).congr hnow (by rw [hdriver]) (hwrites m.target)
  slots target hnot := by rw [hdriver, h.slots target hnot]
  writes target hnot := (hwrites target).trans (h.writes target hnot)

end Convoy

end Timeline
