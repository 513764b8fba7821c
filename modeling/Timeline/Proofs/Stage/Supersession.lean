/-
Timeline/Proofs/Stage/Supersession.lean

Why a superseded animation writes no more: claims and generations.

A ride remembers the generation of its claim, and it writes only if this is still the
generation of its target.  `Standing` says that this is so exactly as long as the ride
is the last claimer; `Sound` bundles it with the law of the log (`Log.Lawful`) and with
the fact that the log accounts for the slots.  Beside it stands the count of the
endings of a call (`Counted`).

Main results (`Sound.step`, `Counted.step`): every step keeps both.
-/
import Timeline.Proofs.Stage.Traffic

namespace Timeline

namespace Traffic

open Log Relation

variable {d d' : Driver Float} {y y' : Traffic} {call i : Nat} {b : Convoy} {who other : Claimant}
  {r r' : Ride} {m : Motion Float} {next : Alarm} {log : Log} {target : String}
  {p : Progress Ride (Except StepError Unit)}

/-! ### Rides after a step -/

/-- After a pace of a ride all others are as they were. -/
theorem rides_of_pace (hcall : y.calls call = some b) (hi : b[i]? = some (.busy r))
    (hcalls : y'.calls = Function.update y.calls call (some (b.set i p))) (h : y'.Rides who r') :
    who = ⟨call, i⟩ ∧ p = .busy r' ∨ who ≠ ⟨call, i⟩ ∧ y.Rides who r' := by
  obtain ⟨b', hc', hi'⟩ := h
  rw [hcalls] at hc'
  rcases update_eq_some_iff.1 hc' with ⟨hsame, he⟩ | ⟨hother, hc'⟩
  · obtain rfl : b.set i p = b' := Option.some.inj he
    by_cases hmember : i = who.member
    · subst hmember
      obtain ⟨hlt, -⟩ := List.getElem?_eq_some_iff.1 hi
      exact .inl ⟨by rw [← hsame], by simpa [hlt] using hi'⟩
    · rw [List.getElem?_set_ne hmember] at hi'
      exact .inr ⟨fun hwho => hmember (by rw [hwho]), b, by rw [hsame, hcall], hi'⟩
  · exact .inr ⟨fun hwho => hother (by rw [hwho]), b', hc', hi'⟩

/-- After a call is over the rides of the others are as they were. -/
theorem rides_of_finish {fate : Fate} (h : (y.finish call fate).Rides who r) :
    who.call ≠ call ∧ y.Rides who r := by
  obtain ⟨b, hc, hi⟩ := h
  rcases update_eq_some_iff.1 hc with ⟨-, he⟩ | ⟨hwho, hc⟩
  · cases he
  · exact ⟨hwho, b, hc, hi⟩

/-- The rides of a new call have not begun. -/
theorem rides_of_issue {batch : List (String × Animation Float)} (h : (y.issue batch).Rides who r) :
    who.call = y.requests.length ∧
        (∃ a, r = .ahead r.target a ∧ batch[who.member]? = some (r.target, a)) ∨
      who.call ≠ y.requests.length ∧ y.Rides who r := by
  obtain ⟨b, hc, hi⟩ := h
  rcases update_eq_some_iff.1 hc with ⟨hwho, he⟩ | ⟨hwho, hc⟩
  · refine .inl ⟨hwho, ?_⟩
    obtain rfl : Convoy.ofBatch batch = b := Option.some.inj he
    rw [Convoy.ofBatch, List.getElem?_map] at hi
    rcases hb : batch[who.member]? with - | ⟨target, a⟩ <;> rw [hb] at hi
    · cases hi
    · obtain rfl : Ride.ahead target a = r := by simpa using hi
      exact ⟨a, rfl, rfl⟩
  · exact .inr ⟨hwho, b, hc, hi⟩

/-! ### Calls and their endings -/

/-- The number of endings of a call. -/
def endingsOf (y : Traffic) (call : Nat) : Nat :=
  y.endings.countP fun ending => ending.call = call

/-- **Every call ends once at most.**  A call that was issued is either under way or has one ending,
and of all others there is no trace. -/
def Counted (y : Traffic) : Prop :=
  ∀ call, y.endingsOf call + (if (y.calls call).isSome then 1 else 0)
    = if call < y.requests.length then 1 else 0

theorem Counted.lt (h : y.Counted) (hcall : y.calls call = some b) : call < y.requests.length := by
  have hcount := h call
  rw [hcall] at hcount
  by_contra hnot
  simp [hnot] at hcount

/-- A call that is under way has no ending. -/
theorem Counted.endingsOf_eq_zero (h : y.Counted) (hcall : y.calls call = some b) :
    y.endingsOf call = 0 := by
  have hcount := h call
  rw [hcall, if_pos (h.lt hcall), Option.isSome_some, if_pos rfl] at hcount
  omega

/-- A call that was issued and is not under way has an ending. -/
theorem Counted.endingsOf_pos (h : y.Counted) (hlt : call < y.requests.length)
    (hcall : y.calls call = none) : 0 < y.endingsOf call := by
  have hcount := h call
  rw [hcall, if_pos hlt, Option.isSome_none, if_neg Bool.false_ne_true] at hcount
  omega

/-- The count of a call that changes: what it loses as one that is under way it gains as an ending. -/
theorem Counted.update (h : y.Counted) (hrequests : y'.requests = y.requests)
    (hcall : y.calls call = some b) {x : Option Convoy}
    (hcalls : y'.calls = Function.update y.calls call x)
    (hself : y'.endingsOf call + (if x.isSome then 1 else 0) = y.endingsOf call + 1)
    (hother : ∀ j, j ≠ call → y'.endingsOf j = y.endingsOf j) : y'.Counted := by
  intro j
  have hcount := h j
  rw [hrequests, hcalls]
  by_cases hj : j = call
  · subst hj
    rw [Function.update_self, hself, ← hcount, hcall]
    rfl
  · rw [Function.update_of_ne hj, hother j hj, hcount]

theorem Counted.finish {fate : Fate} (h : y.Counted) (hcall : y.calls call = some b) :
    (y.finish call fate).Counted := by
  refine h.update rfl hcall rfl ?_ fun j hj => ?_
  · simp [endingsOf, Traffic.finish]
  · simp [endingsOf, Traffic.finish, Ne.symm hj]

theorem Counted.step (h : y.Counted) (hstep : Step y y') : y'.Counted := by
  cases hstep with
  | issue batch =>
    intro j
    have hcount := h j
    show y.endingsOf j + (if (Function.update y.calls y.requests.length _ j).isSome then 1 else 0)
      = if j < (y.requests ++ [_]).length then 1 else 0
    rw [List.length_append, List.length_singleton]
    by_cases hj : j = y.requests.length
    · subst hj
      rw [if_neg (Nat.lt_irrefl _)] at hcount
      rw [Function.update_self, if_pos (Nat.lt_succ_self _)]
      simp only [Option.isSome_some, if_true]
      omega
    · have hiff : j < y.requests.length + 1 ↔ j < y.requests.length := by omega
      rw [Function.update_of_ne hj, hcount]
      simp only [hiff]
  | pace _ hcall _ _ _ => exact h.update rfl hcall rfl rfl fun _ _ => rfl
  | resolve hcall _ => exact h.finish hcall
  | drop hcall _ => exact h.finish hcall
  | wait _ _ => exact h
  | aside _ _ => exact h

/-! ### Claims -/

/-- A ride holds a claim that its target has seen, and the claim stands exactly as long as the ride
is the last claimer. -/
def Standing (d : Driver Float) (log : Log) (who : Claimant) (m : Motion Float) : Prop :=
  ∃ g, d.generation? m.target = some g ∧ m.generation ≤ g ∧
    (m.generation = g ↔ log.claimer? m.target = some who)

/-- What is known of a ride that is under way: before it has begun it has done nothing, and then it
holds a claim and has not come to its end. -/
def Knows (d : Driver Float) (log : Log) (who : Claimant) : Ride → Prop
  | .ahead _ _ => log.Untouched who
  | .moving m _ => log.Open who ∧ Standing d log who m

/-- **The invariant of a driver under traffic.**  The log is lawful, the slots are what the log makes
of them, and every ride that is under way holds its claim. -/
structure Sound (d : Driver Float) (y : Traffic) : Prop where
  lawful : y.log.Lawful
  slots : ∀ target, y.driver.slots.get? target
    = (d.slots.get? target).map (y.log.slotAfter target)
  issued : ∀ e ∈ y.log, e.who.call < y.requests.length
  rides : ∀ who r, y.Rides who r → Knows y.driver y.log who r

/-- The log after some deeds of an operation on a target. -/
abbrev logWith (time : Nat) (who : Claimant) (target : String) (deeds : List Ride.Deed)
    (log : Log) : Log :=
  incidents time who (deeds.map fun deed => (target, deed)) ++ log

theorem mem_logWith {time : Nat} {deeds : List Ride.Deed} {e : Incident} :
    e ∈ logWith time who target deeds log ↔
      (∃ deed ∈ deeds, e = ⟨time, who, target, deed⟩) ∨ e ∈ log := by
  simp [logWith, incidents, eq_comm]

theorem untouched_logWith {time : Nat} {deeds : List Ride.Deed} (h : log.Untouched other)
    (hne : who ≠ other) : Untouched (logWith time who target deeds log) other := by
  intro e he
  rcases mem_logWith.1 he with ⟨deed, -, rfl⟩ | he
  · exact hne
  · exact h e he

theorem open_logWith {time : Nat} {deeds : List Ride.Deed} (h : log.Open other)
    (hne : who ≠ other) : Open (logWith time who target deeds log) other := by
  intro e he
  rcases mem_logWith.1 he with ⟨deed, -, rfl⟩ | he
  · exact fun heq => absurd heq hne
  · exact h e he

variable {now : Nat} {deeds : List Ride.Deed}

/-- A ride under way that makes a frame is the last claimer of its target. -/
theorem Standing.claimer? (h : Standing d log who m)
    (hg : d.generation? m.target = some m.generation) : log.claimer? m.target = some who := by
  obtain ⟨g, hsome, -, hiff⟩ := h
  exact hiff.1 (Option.some.inj (hg.symm.trans hsome))

theorem Standing.claimer?_ne (h : Standing d log who m)
    (hg : d.generation? m.target ≠ some m.generation) : log.claimer? m.target ≠ some who := by
  obtain ⟨g, hsome, -, hiff⟩ := h
  exact fun hclaimer => hg (hsome.trans (congrArg some (hiff.2 hclaimer).symm))

theorem open_wrote {time : Nat} {value : Float} (h : log.Open who) :
    Open (⟨time, other, target, .wrote value⟩ :: log) who := by
  intro e he hwho result hdeed
  rcases List.mem_cons.1 he with rfl | he
  · cases hdeed
  · exact h e he hwho result hdeed

/-- The deeds of a pace may follow those before. -/
theorem lawful_of_pace (h : r.Pace now d d' deeds p) (hlog : log.Lawful) (hr : Knows d log who r) :
    Lawful (logWith now who r.target deeds log) := by
  cases h with
  | refuse _ => exact .refuse _ _ hlog hr
  | claim _ _ => exact .claim _ _ hlog hr
  | wait _ => exact hlog
  | giveUp _ hg => exact .giveUp _ hlog (hr.2.claimer?_ne hg) hr.1
  | frame _ hg _ _ => exact .write _ _ hlog (hr.2.claimer? hg) hr.1
  | finish _ hg _ =>
    exact .finish _ _ (.write _ _ hlog (hr.2.claimer? hg) hr.1)
      ((lastWrite?_wrote ..).trans (if_pos rfl)) (open_wrote hr.1)

/-- The log accounts for the slots after a pace. -/
theorem slots_of_pace (h : r.Pace now d d' deeds p) {d₀ : Driver Float}
    (hslots : ∀ t, d.slots.get? t = (d₀.slots.get? t).map (log.slotAfter t)) (t : String) :
    d'.slots.get? t = (d₀.slots.get? t).map (slotAfter (logWith now who r.target deeds log) t) := by
  -- a write leaves the generation as it is
  have hwrite {m : Motion Float} {value : Float} (hg : d.generation? m.target = some m.generation) :
      (d.put m.target ⟨value, m.generation⟩).slots.get? t = (d₀.slots.get? t).map
        (slotAfter (⟨now, who, m.target, .wrote value⟩ :: log) t) := by
    rw [Table.get?_put, slotAfter_wrote]
    split
    · rename_i ht
      subst ht
      rw [Driver.generation?, hslots] at hg
      rcases hd : d₀.slots.get? m.target with - | slot <;> rw [hd] at hg
      · cases hg
      · have hgen : (log.slotAfter m.target slot).generation = m.generation := Option.some.inj hg
        simp [hgen]
    · exact hslots t
  cases h with
  | refuse _ => exact (hslots t).trans (by rw [← slotAfter_ended]; rfl)
  | @claim target _ slot _ hslot _ =>
    show (d.put target _).slots.get? t
      = (d₀.slots.get? t).map (slotAfter (⟨now, who, target, .claimed⟩ :: log) t)
    rw [Table.get?_put, slotAfter_claimed]
    split
    · rename_i ht
      subst ht
      rw [hslots] at hslot
      rcases hd : d₀.slots.get? t with - | slot₀ <;> rw [hd] at hslot
      · cases hslot
      · have heq : log.slotAfter t slot₀ = slot := Option.some.inj hslot
        simp [heq]
    · exact hslots t
  | wait _ => exact hslots t
  | giveUp _ _ => exact (hslots t).trans (by rw [← slotAfter_ended]; rfl)
  | frame _ hg _ _ => exact hwrite hg
  | finish _ hg _ => exact (hwrite hg).trans (by rw [← slotAfter_ended]; rfl)

/-- A claim of somebody else supersedes a ride on the same target and leaves all others alone. -/
theorem Standing.of_claim {slot : Slot Float} {value : Float} (h : Standing d log other m)
    (hslot : d.slots.get? target = some slot) (hne : who ≠ other) (time : Nat) :
    Standing (d.put target ⟨value, slot.generation + 1⟩) (⟨time, who, target, .claimed⟩ :: log)
      other m := by
  obtain ⟨g, hg, hle, hiff⟩ := h
  unfold Standing
  rw [Driver.generation?_put, claimer?_claimed]
  split
  · rename_i ht
    rw [ht, Driver.generation?, hslot] at hg
    obtain rfl : slot.generation = g := Option.some.inj hg
    have hlt : m.generation ≠ slot.generation + 1 := by omega
    exact ⟨_, rfl, Nat.le_succ_of_le hle, fun heq => absurd heq hlt,
      fun heq => absurd (Option.some.inj heq) hne⟩
  · exact ⟨g, hg, hle, hiff⟩

theorem Standing.of_write {m' : Motion Float} {value : Float} (h : Standing d log other m)
    (hg : d.generation? m'.target = some m'.generation) (time : Nat) :
    Standing (d.put m'.target ⟨value, m'.generation⟩)
      (⟨time, who, m'.target, .wrote value⟩ :: log) other m := by
  obtain ⟨g, hsome, hle, hiff⟩ := h
  unfold Standing
  rw [Driver.generation?_put, claimer?_wrote]
  split
  · rename_i ht
    rw [ht, hg] at hsome
    obtain rfl := Option.some.inj hsome
    exact ⟨_, rfl, hle, hiff⟩
  · exact ⟨g, hsome, hle, hiff⟩

theorem Standing.of_end {result : Except StepError Unit} (h : Standing d log other m) (time : Nat) :
    Standing d (⟨time, who, target, .ended result⟩ :: log) other m := by
  obtain ⟨g, hg, hle, hiff⟩ := h
  exact ⟨g, hg, hle, by rw [claimer?_ended]; exact hiff⟩

/-- What is known of all other rides stays true. -/
theorem Knows.of_pace_of_ne (h : r.Pace now d d' deeds p) (hne : who ≠ other)
    (hr : Knows d log other r') : Knows d' (logWith now who r.target deeds log) other r' := by
  cases r' with
  | ahead _ _ => exact untouched_logWith hr hne
  | moving m next =>
    obtain ⟨hopen, hstanding⟩ : log.Open other ∧ Standing d log other m := hr
    refine ⟨open_logWith hopen hne, ?_⟩
    cases h with
    | refuse _ => exact hstanding.of_end _
    | claim hslot _ => exact hstanding.of_claim hslot hne _
    | wait _ => exact hstanding
    | giveUp _ _ => exact hstanding.of_end _
    | frame _ hg _ _ => exact hstanding.of_write hg _
    | finish _ hg _ => exact (hstanding.of_write hg _).of_end _

/-- What is known of a ride is known of it after its pace. -/
theorem Knows.of_pace (h : r.Pace now d d' deeds (.busy r')) (hr : Knows d log who r) :
    Knows d' (logWith now who r.target deeds log) who r' := by
  cases h with
  | @claim target _ slot _ hslot _ =>
    refine ⟨fun e he hwho result hdeed => ?_, slot.generation + 1, ?_, Nat.le_refl _, ?_⟩
    · rcases mem_logWith.1 he with ⟨deed, hmem, rfl⟩ | he
      · obtain rfl : deed = .claimed := List.mem_singleton.1 hmem
        cases hdeed
      · exact hr e he hwho
    · exact (Driver.generation?_put ..).trans (if_pos rfl)
    · exact iff_of_true rfl ((claimer?_claimed ..).trans (if_pos rfl))
  | wait _ => exact hr
  | frame _ hg _ _ => exact ⟨open_wrote hr.1, hr.2.of_write hg _⟩

/-! ### What a step preserves -/

theorem Sound.finish {fate : Fate} (h : y.Sound d) : (y.finish call fate).Sound d where
  lawful := h.lawful
  slots := h.slots
  issued := h.issued
  rides who r hr := h.rides who r (rides_of_finish hr).2

theorem Sound.step (h : y.Sound d) (hcounted : y.Counted) (hstep : Step y y') : y'.Sound d := by
  cases hstep with
  | issue batch =>
    refine ⟨h.lawful, h.slots, fun e he => ?_, fun who r hr => ?_⟩
    · exact Nat.lt_of_lt_of_le (h.issued e he) (by simp [issue])
    · rcases rides_of_issue hr with ⟨hwho, a, hr, -⟩ | ⟨-, hr⟩
      · -- the number of the call is new, so that nobody has done anything under it
        rw [hr]
        intro e he heq
        have hlt := h.issued e he
        rw [heq, hwho] at hlt
        exact Nat.lt_irrefl _ hlt
      · exact h.rides who r hr
  | @pace stage call b i r deeds p hcall hi hpace hnow =>
    have hr := h.rides ⟨call, i⟩ r ⟨b, hcall, hi⟩
    refine ⟨lawful_of_pace hpace h.lawful hr, slots_of_pace hpace h.slots, fun e he => ?_,
      fun who r' hr' => ?_⟩
    · rcases mem_logWith.1 he with ⟨deed, -, rfl⟩ | he
      · exact hcounted.lt hcall
      · exact h.issued e he
    · rcases rides_of_pace hcall hi rfl hr' with ⟨rfl, rfl⟩ | ⟨hne, hr'⟩
      · exact hr.of_pace hpace
      · exact (h.rides who r' hr').of_pace_of_ne hpace (Ne.symm hne)
  | resolve _ _ => exact h.finish
  | drop _ _ => exact h.finish
  | wait _ _ => exact ⟨h.lawful, h.slots, h.issued, h.rides⟩
  | aside hdriver _ =>
    refine ⟨h.lawful, fun target => ?_, h.issued, fun who r hr => ?_⟩
    · exact (congrArg (fun d : Driver Float => d.slots.get? target) hdriver).trans (h.slots target)
    · have hknows := h.rides who r hr
      rw [← hdriver] at hknows
      exact hknows

end Traffic

end Timeline
