/-
Timeline/Proofs/Stage/Resolution.lean

How the calls on a driver come to their ends.

Every operation keeps to the target that its call names (`Named`), and to its times: a
ride begins when its call is issued and is never overdue (`Timed`), so that no call is
under way for long (`Timed.now_le`).  A call has the results of its rides (`Answered`),
one with a single ride ends together with it (`Prompt`), and only operations on unknown
targets fail (`Fitting`).

Main results: a ride that is superseded does nothing more until its next frame, at which
it ends well, unless its call is over before (`Fades.steps`), and all of this holds
wherever calls on a driver lead (`Reachable.governed`).
-/
import Timeline.Proofs.Stage.Supersession
import Timeline.Proofs.Values.Overflow

namespace Timeline

namespace Traffic

open Log Relation

variable {d d' d₀ : Driver Float} {y y' y₀ : Traffic} {call i : Nat} {b : Convoy}
  {who other : Claimant} {r r' : Ride} {m : Motion Float} {next next' : Alarm} {log : Log}
  {target : String} {p : Progress Ride (Except StepError Unit)} {now : Nat} {deeds : List Ride.Deed}

/-! ### What a step adds to -/

/-- What calls have asked for stays on record. -/
theorem Step.getElem?_requests (h : Step y y') (hlt : call < y.requests.length) :
    y'.requests[call]? = y.requests[call]? := by
  cases h with
  | issue batch => exact List.getElem?_append_left hlt
  | pace _ _ _ _ _ => rfl
  | resolve _ _ => rfl
  | drop _ _ => rfl
  | wait _ _ => rfl
  | aside _ _ => rfl

theorem Step.requests (h : Step y y') {q : Request} (hq : y.requests[call]? = some q) :
    y'.requests[call]? = some q := by
  rw [h.getElem?_requests (List.getElem?_eq_some_iff.1 hq).1, hq]

theorem requests_of_steps (h : Steps y y') {q : Request} (hq : y.requests[call]? = some q) :
    y'.requests[call]? = some q := by
  induction h with
  | refl => exact hq
  | tail _ hstep ih => exact hstep.requests ih

/-- What has happened stays in the log. -/
theorem Step.log_eq (h : Step y y') : ∃ new, y'.log = new ++ y.log := by
  cases h with
  | pace _ _ _ _ _ => exact ⟨_, rfl⟩
  | issue _ => exact ⟨[], rfl⟩
  | resolve _ _ => exact ⟨[], rfl⟩
  | drop _ _ => exact ⟨[], rfl⟩
  | wait _ _ => exact ⟨[], rfl⟩
  | aside _ _ => exact ⟨[], rfl⟩

theorem Step.mem_log (h : Step y y') {e : Incident} (he : e ∈ y.log) : e ∈ y'.log := by
  obtain ⟨new, hnew⟩ := h.log_eq
  rw [hnew]
  exact List.mem_append_right _ he

theorem log_of_steps (h : Steps y y') : ∃ new, y'.log = new ++ y.log := by
  induction h with
  | refl => exact ⟨[], rfl⟩
  | tail _ hstep ih =>
    obtain ⟨new, hnew⟩ := ih
    obtain ⟨new', hnew'⟩ := hstep.log_eq
    exact ⟨new' ++ new, by rw [hnew', hnew, List.append_assoc]⟩

theorem Step.mem_endings (h : Step y y') {ending : Ending} (he : ending ∈ y.endings) :
    ending ∈ y'.endings := by
  cases h with
  | resolve _ _ => exact List.mem_cons_of_mem _ he
  | drop _ _ => exact List.mem_cons_of_mem _ he
  | issue _ => exact he
  | pace _ _ _ _ _ => exact he
  | wait _ _ => exact he
  | aside _ _ => exact he

theorem mem_endings_of_steps (h : Steps y y') {ending : Ending} (he : ending ∈ y.endings) :
    ending ∈ y'.endings := by
  induction h with
  | refl => exact he
  | tail _ hstep ih => exact hstep.mem_endings ih

/-! ### Names -/

/-- An operation is one on a target that its call names. -/
def Names (y : Traffic) (who : Claimant) (target : String) : Prop :=
  ∃ q, y.requests[who.call]? = some q ∧ q.targets[who.member]? = some target

theorem Names.step (h : y.Names who target) (hstep : Step y y') : y'.Names who target := by
  obtain ⟨q, hq, htarget⟩ := h
  exact ⟨q, hstep.requests hq, htarget⟩

/-- All operations keep to the targets that their calls name. -/
structure Named (y : Traffic) : Prop where
  rides : ∀ who r, y.Rides who r → y.Names who r.target
  log : ∀ e ∈ y.log, y.Names e.who e.target

theorem Named.step (h : y.Named) (hstep : Step y y') : y'.Named := by
  cases hstep with
  | issue batch =>
    have hstep : Step y (y.issue batch) := .issue batch
    refine ⟨fun who r hr => ?_, fun e he => (h.log e he).step hstep⟩
    rcases rides_of_issue hr with ⟨hwho, a, -, hb⟩ | ⟨-, hr⟩
    · refine ⟨⟨y.now, batch.map Prod.fst⟩, ?_, ?_⟩
      · show (y.requests ++ [_])[who.call]? = _
        rw [hwho, List.getElem?_concat_length]
      · rw [List.getElem?_map, hb]
        rfl
    · exact (h.rides who r hr).step hstep
  | @pace _ call b i r deeds p hcall hi hpace _ =>
    have hr := h.rides ⟨call, i⟩ r ⟨b, hcall, hi⟩
    refine ⟨fun who r' hr' => ?_, fun e he => ?_⟩
    · rcases rides_of_pace hcall hi rfl hr' with ⟨rfl, rfl⟩ | ⟨-, hr'⟩
      · rw [hpace.target]
        exact hr
      · exact h.rides who r' hr'
    · rcases mem_logWith.1 he with ⟨deed, -, rfl⟩ | he
      · exact hr
      · exact h.log e he
  | resolve _ _ => exact ⟨fun who r hr => h.rides who r (rides_of_finish hr).2, h.log⟩
  | drop _ _ => exact ⟨fun who r hr => h.rides who r (rides_of_finish hr).2, h.log⟩
  | wait _ _ => exact ⟨h.rides, h.log⟩
  | aside _ _ => exact ⟨h.rides, h.log⟩

/-! ### Times -/

/-- The time at which a call was issued. -/
def IssuedAt (y : Traffic) (call time : Nat) : Prop :=
  ∃ q, y.requests[call]? = some q ∧ q.time = time

/-- A ride that has not begun belongs to a call of this moment, and one that is under way began when
its call was issued and is not overdue; its next frame is not long after its last one. -/
def OnTime (d : Driver Float) (now issued : Nat) : Ride → Prop
  | .ahead _ _ => now = issued
  | .moving m next => m.start = issued ∧ now ≤ next.due ∧
      next.due ≤ issued + Animation.longest + d.frame.ceilMillis

/-- All calls keep to their times. -/
structure Timed (d : Driver Float) (y : Traffic) : Prop where
  frame : y.driver.frame = d.frame
  rides : ∀ who r, y.Rides who r → ∃ time, y.IssuedAt who.call time ∧ OnTime d y.now time r
  empty : ∀ call, y.calls call = some [] → y.IssuedAt call y.now

/-- A pace takes no time, and puts the next frame off by the time of one frame at most. -/
theorem OnTime.of_pace {issued : Nat} (h : r.Pace now d d' deeds (.busy r'))
    (hr : OnTime d₀ now issued r) (hframe : d.frame = d₀.frame) : OnTime d₀ now issued r' := by
  cases h with
  | claim _ hdue =>
    obtain rfl : now = issued := hr
    exact ⟨rfl, Nat.le_of_eq hdue.symm, by omega⟩
  | wait hdue =>
    obtain ⟨hstart, hle, hbound⟩ := hr
    exact ⟨hstart, by omega, by omega⟩
  | @frame m next next' _ _ hmore hdue =>
    obtain ⟨hstart, hle, hbound⟩ := hr
    rw [hframe] at hdue
    have hsoon := m.nextFrame_le d₀.frame now
    refine ⟨hstart, hdue ▸ m.le_nextFrame d₀.frame now, ?_⟩
    -- a frame that is not the last one is written before the animation is over
    have hyoung : now - m.start < Animation.longest := by
      by_contra hold
      have hover := m.animation.isOver_progress (Nat.le_of_not_lt hold)
      rw [Motion.valueAt] at hmore
      split at hmore
      · cases hmore
      · exact Bool.noConfusion (hover.symm.trans hmore)
    omega

theorem IssuedAt.step {time : Nat} (h : y.IssuedAt call time) (hstep : Step y y') :
    y'.IssuedAt call time := by
  obtain ⟨q, hq, htime⟩ := h
  exact ⟨q, hstep.requests hq, htime⟩

theorem issuedAt_issue (batch : List (String × Animation Float)) :
    (y.issue batch).IssuedAt y.requests.length y.now :=
  ⟨⟨y.now, batch.map Prod.fst⟩, List.getElem?_concat_length, rfl⟩

theorem mem_alarms {a : Alarm} (hr : .busy r ∈ b) (ha : r.alarm? = some a) : a ∈ b.alarms := by
  simp only [Convoy.alarms, Join.alarms, List.mem_filterMap]
  exact ⟨.busy r, hr, ha⟩

/-- A call that is over has no rides. -/
theorem Timed.finish {fate : Fate} (h : Timed d y) : Timed d (y.finish call fate) where
  frame := h.frame
  rides who r hr := h.rides who r (rides_of_finish hr).2
  empty j hj := by
    rcases update_eq_some_iff.1 hj with ⟨-, he⟩ | ⟨-, hj⟩
    · cases he
    · exact h.empty j hj

theorem Timed.step (h : Timed d y) (hstep : Step y y') : Timed d y' := by
  cases hstep with
  | issue batch =>
    have hstep : Step y (y.issue batch) := .issue batch
    refine ⟨h.frame, fun who r hr => ?_, fun j hj => ?_⟩
    · rcases rides_of_issue hr with ⟨hwho, a, hr, -⟩ | ⟨-, hr⟩
      · rw [hwho, hr]
        exact ⟨y.now, issuedAt_issue batch, rfl⟩
      · obtain ⟨time, htime, hr⟩ := h.rides who r hr
        exact ⟨time, htime.step hstep, hr⟩
    · rcases update_eq_some_iff.1 hj with ⟨rfl, -⟩ | ⟨-, hj⟩
      · exact issuedAt_issue batch
      · exact (h.empty j hj).step hstep
  | @pace stage call b i r deeds p hcall hi hpace hnow =>
    refine ⟨?_, fun who r' hr' => ?_, fun j hj => ?_⟩
    · show stage.driver.frame = d.frame
      rw [hpace.frame_eq, h.frame]
    · show ∃ time, y.IssuedAt who.call time ∧ OnTime d stage.now time r'
      rw [hnow]
      rcases rides_of_pace hcall hi rfl hr' with ⟨rfl, rfl⟩ | ⟨-, hr'⟩
      · obtain ⟨time, htime, hr⟩ := h.rides ⟨call, i⟩ r ⟨b, hcall, hi⟩
        exact ⟨time, htime, hr.of_pace hpace h.frame⟩
      · exact h.rides who r' hr'
    · show y.IssuedAt j stage.now
      rw [hnow]
      rcases update_eq_some_iff.1 hj with ⟨-, he⟩ | ⟨-, hj⟩
      · -- a call that has a ride goes on having one
        rw [(List.set_eq_nil_iff ..).1 (Option.some.inj he)] at hi
        cases hi
      · exact h.empty j hj
  | resolve _ _ => exact h.finish
  | drop _ _ => exact h.finish
  | @wait time hle hrest =>
    refine ⟨h.frame, fun who r hr => ?_, fun j hj => ?_⟩
    · obtain ⟨b, hcall, hi⟩ := hr
      obtain ⟨issued, hissued, hon⟩ := h.rides who r ⟨b, hcall, hi⟩
      have hmem := List.mem_of_getElem? hi
      obtain ⟨a, ha, -, -⟩ := (hrest _ b hcall).waits r hmem
      refine ⟨issued, hissued, ?_⟩
      cases r with
      | ahead _ _ => cases ha
      | moving m next =>
        -- the wait is over before the first alarm goes off
        obtain ⟨hstart, -, hbound⟩ := hon
        exact ⟨hstart, (hrest _ b hcall).due next (mem_alarms hmem rfl), hbound⟩
    · obtain ⟨r, hr⟩ := (hrest j [] hj).busy
      cases hr
  | aside hdriver hnow =>
    rename_i stage
    refine ⟨(congrArg Driver.frame hdriver).trans h.frame, fun who r hr => ?_, fun j hj => ?_⟩
    · show ∃ time, y.IssuedAt who.call time ∧ OnTime d stage.now time r
      rw [hnow]
      exact h.rides who r hr
    · show y.IssuedAt j stage.now
      rw [hnow]
      exact h.empty j hj

/-- **No call is under way for long.**  It is over when its longest animation is, and one frame more
has passed. -/
theorem Timed.now_le (h : Timed d y) (htidy : y.Tidy) (hcall : y.calls call = some b) :
    ∃ time, y.IssuedAt call time ∧ y.now ≤ time + Animation.longest + d.frame.ceilMillis := by
  rcases htidy.busy call b hcall with rfl | ⟨r, hr⟩
  · exact ⟨y.now, h.empty call hcall, by omega⟩
  · obtain ⟨i, hi⟩ := List.mem_iff_getElem?.1 hr
    obtain ⟨time, htime, hon⟩ := h.rides ⟨call, i⟩ r ⟨b, hcall, hi⟩
    refine ⟨time, htime, ?_⟩
    cases r with
    | ahead _ _ =>
      have hnow : y.now = time := hon
      omega
    | moving m next =>
      obtain ⟨-, hle, hbound⟩ := hon
      exact Nat.le_trans hle hbound

/-! ### Results -/

/-- A call has a result when all its rides have ended well, or one of them has failed. -/
theorem finished_of_upshot {large : Bool} {result : Except StepError Unit}
    (h : b.upshot large = .finished result) :
    (result = .ok () ∧ ∀ i, i < b.length → b[i]? = some (Progress.finished (.ok ()))) ∨
      ∃ (e : StepError) (i : Nat), result = .error e ∧
        b[i]? = some (Progress.finished (.error e)) := by
  unfold Convoy.upshot at h
  rcases hf : Join.failure? large b with - | e
  · rcases hr : Join.results? b with - | rs <;> rw [hf, hr] at h
    · cases h
    · cases h
      exact .inl ⟨rfl, fun i hi => (Join.finished_of_results? hr i hi).choose_spec⟩
  · obtain ⟨i, hi⟩ := Join.exists_of_failure? hf
    rw [hf] at h
    cases h
    exact .inr ⟨e, i, rfl, hi⟩

/-- An operation has come to its end with a result. -/
def Ended (y : Traffic) (who : Claimant) (result : Except StepError Unit) : Prop :=
  ∃ e ∈ y.log, e.who = who ∧ e.deed = .ended result

/-- The rides of a call account for its result. -/
def Accounted (y : Traffic) (call : Nat) : Except StepError Unit → Prop
  | .ok _ => ∃ q, y.requests[call]? = some q ∧
      ∀ i, i < q.targets.length → y.Ended ⟨call, i⟩ (.ok ())
  | .error e => ∃ i, y.Ended ⟨call, i⟩ (.error e)

/-- The rides that are over have ended, and calls that are over have the results of their rides. -/
structure Answered (y : Traffic) : Prop where
  size : ∀ call b, y.calls call = some b →
    ∃ q, y.requests[call]? = some q ∧ b.length = q.targets.length
  rides : ∀ call b i result, y.calls call = some b → b[i]? = some (.finished result) →
    y.Ended ⟨call, i⟩ result
  endings : ∀ ending ∈ y.endings, ∀ result, ending.fate = .resolved result →
    y.Accounted ending.call result

theorem Ended.step {result : Except StepError Unit} (h : y.Ended who result) (hstep : Step y y') :
    y'.Ended who result := by
  obtain ⟨e, he, hend⟩ := h
  exact ⟨e, hstep.mem_log he, hend⟩

theorem Accounted.step {result : Except StepError Unit} (h : y.Accounted call result)
    (hstep : Step y y') : y'.Accounted call result := by
  cases result with
  | ok _ =>
    obtain ⟨q, hq, hall⟩ := h
    exact ⟨q, hstep.requests hq, fun i hi => (hall i hi).step hstep⟩
  | error _ =>
    obtain ⟨i, hi⟩ := h
    exact ⟨i, hi.step hstep⟩

/-- A call that has a result is accounted for. -/
theorem Answered.accounted (h : y.Answered) {large : Bool} {result : Except StepError Unit}
    (hcall : y.calls call = some b) (hupshot : b.upshot large = .finished result) :
    y.Accounted call result := by
  rcases finished_of_upshot hupshot with ⟨rfl, hall⟩ | ⟨e, i, rfl, hi⟩
  · obtain ⟨q, hq, hlength⟩ := h.size call b hcall
    refine ⟨q, hq, fun i hi => h.rides call b i _ hcall (hall i ?_)⟩
    rwa [hlength]
  · exact ⟨i, h.rides call b i _ hcall hi⟩

theorem Answered.finish (h : y.Answered) {fate : Fate}
    (hfate : ∀ result, fate = .resolved result → y.Accounted call result) :
    (y.finish call fate).Answered := by
  have hcalls {j : Nat} {b : Convoy} (hc : (y.finish call fate).calls j = some b) :
      y.calls j = some b := by
    rcases update_eq_some_iff.1 hc with ⟨-, he⟩ | ⟨-, hc⟩
    · cases he
    · exact hc
  refine ⟨fun j b hc => h.size j b (hcalls hc), fun j b i result hc hi =>
    h.rides j b i result (hcalls hc) hi, fun ending hending result hresult => ?_⟩
  rcases List.mem_cons.1 hending with rfl | hending
  · exact hfate result hresult
  · exact h.endings ending hending result hresult

theorem Answered.step (h : y.Answered) (hstep : Step y y') : y'.Answered := by
  have hkept := hstep
  cases hstep with
  | issue batch =>
    refine ⟨fun j b hc => ?_, fun j b i result hc hi => ?_, fun ending he result hresult =>
      (h.endings ending he result hresult).step hkept⟩
    · rcases update_eq_some_iff.1 hc with ⟨rfl, he⟩ | ⟨-, hc⟩
      · obtain rfl : Convoy.ofBatch batch = b := Option.some.inj he
        exact ⟨_, List.getElem?_concat_length, by simp [Convoy.ofBatch]⟩
      · obtain ⟨q, hq, hlength⟩ := h.size j b hc
        exact ⟨q, hkept.requests hq, hlength⟩
    · rcases update_eq_some_iff.1 hc with ⟨-, he⟩ | ⟨-, hc⟩
      · obtain rfl : Convoy.ofBatch batch = b := Option.some.inj he
        simp [Convoy.ofBatch] at hi
      · exact h.rides j b i result hc hi
  | @pace stage call b i r deeds p hcall hi hpace hnow =>
    refine ⟨fun j b' hc => ?_, fun j b' k result hc hk => ?_, fun ending he result hresult =>
      (h.endings ending he result hresult).step hkept⟩
    · rcases update_eq_some_iff.1 hc with ⟨rfl, he⟩ | ⟨-, hc⟩
      · obtain rfl : b.set i p = b' := Option.some.inj he
        obtain ⟨q, hq, hlength⟩ := h.size j b hcall
        exact ⟨q, hq, by simpa using hlength⟩
      · exact h.size j b' hc
    · rcases update_eq_some_iff.1 hc with ⟨rfl, he⟩ | ⟨-, hc⟩
      · obtain rfl : b.set i p = b' := Option.some.inj he
        by_cases hik : i = k
        · -- the ride that has just made its last pace
          subst hik
          obtain ⟨hlt, -⟩ := List.getElem?_eq_some_iff.1 hi
          obtain rfl : p = .finished result := by simpa [hlt] using hk
          exact ⟨_, mem_logWith.2 (.inl ⟨_, hpace.ended, rfl⟩), rfl, rfl⟩
        · rw [List.getElem?_set_ne hik] at hk
          exact (h.rides j b k result hcall hk).step hkept
      · exact (h.rides j b' k result hc hk).step hkept
  | resolve hcall hupshot =>
    exact h.finish fun result hresult => by
      cases hresult
      exact h.accounted hcall hupshot
  | drop _ _ => exact h.finish fun result hresult => by cases hresult
  | wait _ _ => exact ⟨h.size, h.rides, h.endings⟩
  | aside _ _ => exact ⟨h.size, h.rides, h.endings⟩

/-! ### Calls with a single ride -/

/-- A call has had a result at some time, or its only ride has come to it at this very moment. -/
def Delivers (y : Traffic) (time call : Nat) (result : Except StepError Unit) : Prop :=
  ⟨time, call, .resolved result⟩ ∈ y.endings ∨
    y.calls call = some [.finished result] ∧ time = y.now

/-- A call with a single ride has the result of the ride at the time at which the ride ends. -/
def Prompt (y : Traffic) : Prop :=
  ∀ e ∈ y.log, ∀ q result, y.requests[e.who.call]? = some q → q.targets.length = 1 →
    e.deed = .ended result → y.Delivers e.time e.who.call result

theorem upshot_single (large : Bool) (result : Except StepError Unit) :
    Convoy.upshot large [.finished result] = .finished result := by
  rcases result with e | u <;> rfl

/-- Between the last pace of the ride and the end of the call no time passes, and nobody drops the
call. -/
theorem Delivers.step {time : Nat} {result : Except StepError Unit}
    (h : y.Delivers time call result) (hcounted : y.Counted) (hstep : Step y y') :
    y'.Delivers time call result := by
  rcases h with hdone | ⟨hover, htime⟩
  · exact .inl (hstep.mem_endings hdone)
  · cases hstep with
    | issue batch =>
      have hlt := hcounted.lt hover
      exact .inr ⟨(Function.update_of_ne (by omega) ..).trans hover, htime⟩
    | @pace stage call' b i r deeds p hcall hi hpace hnow =>
      have hne : call ≠ call' := by
        rintro rfl
        obtain rfl : b = [.finished result] := Option.some.inj (hcall.symm.trans hover)
        obtain - | i := i <;> cases hi
      exact .inr ⟨(Function.update_of_ne hne ..).trans hover, htime.trans hnow.symm⟩
    | @resolve call' b large result' hcall hupshot =>
      by_cases hsame : call = call'
      · subst hsame
        obtain rfl : b = [.finished result] := Option.some.inj (hcall.symm.trans hover)
        rw [upshot_single] at hupshot
        obtain rfl : result = result' := Progress.finished.inj hupshot
        rw [htime]
        exact .inl List.mem_cons_self
      · exact .inr ⟨(Function.update_of_ne hsame ..).trans hover, htime⟩
    | @drop call' b hcall hbusy =>
      have hne : call ≠ call' := by
        rintro rfl
        obtain rfl : b = [.finished result] := Option.some.inj (hcall.symm.trans hover)
        simp at hbusy
      exact .inr ⟨(Function.update_of_ne hne ..).trans hover, htime⟩
    | wait _ hrest =>
      obtain ⟨r, hr⟩ := (hrest _ _ hover).busy
      simp at hr
    | aside _ hnow => exact .inr ⟨hover, htime.trans hnow.symm⟩

theorem Prompt.step (h : y.Prompt) (hcounted : y.Counted) (hsound : y.Sound d)
    (hanswered : y.Answered) (hstep : Step y y') : y'.Prompt := by
  have hkept (e : Incident) (he : e ∈ y.log) (q : Request) (result : Except StepError Unit)
      (hq : y'.requests[e.who.call]? = some q) (hone : q.targets.length = 1)
      (hend : e.deed = .ended result) : y'.Delivers e.time e.who.call result := by
    rw [hstep.getElem?_requests (hsound.issued e he)] at hq
    exact (h e he q result hq hone hend).step hcounted hstep
  cases hstep with
  | @pace stage call b i r deeds p hcall hi hpace hnow =>
    intro e he q result hq hone hend
    rcases mem_logWith.1 he with ⟨deed, hdeed, rfl⟩ | he
    · -- the last pace of the ride
      obtain rfl : deed = .ended result := hend
      obtain rfl := hpace.finished hdeed
      obtain ⟨q', hq', hlength⟩ := hanswered.size call b hcall
      obtain rfl : q' = q := Option.some.inj (hq'.symm.trans hq)
      obtain ⟨p, rfl⟩ := List.length_eq_one_iff.1 (hlength.trans hone)
      obtain rfl : i = 0 := by
        have hlt := (List.getElem?_eq_some_iff.1 hi).1
        simpa using hlt
      exact .inr ⟨Function.update_self .., hnow.symm⟩
    · exact hkept e he q result hq hone hend
  | issue _ => exact hkept
  | resolve _ _ => exact hkept
  | drop _ _ => exact hkept
  | wait _ _ => exact hkept
  | aside _ _ => exact hkept

theorem Prompt.mem_endings (h : y.Prompt) (htidy : y.Tidy) {e : Incident} (he : e ∈ y.log)
    {q : Request} {result : Except StepError Unit} (hq : y.requests[e.who.call]? = some q)
    (hone : q.targets.length = 1) (hend : e.deed = .ended result) :
    ⟨e.time, e.who.call, .resolved result⟩ ∈ y.endings := by
  rcases h e he q result hq hone hend with hdone | ⟨hover, -⟩
  · exact hdone
  · have hbusy := htidy.busy _ _ hover
    simp at hbusy

/-! ### Superseded rides -/

theorem Rides.of_pace (h : y.Rides who r') (hcall : y.calls call = some b)
    (hcalls : y'.calls = Function.update y.calls call (some (b.set i p))) (hne : who ≠ ⟨call, i⟩) :
    y'.Rides who r' := by
  obtain ⟨b', hc', hi'⟩ := h
  by_cases hsame : who.call = call
  · obtain rfl : b = b' := Option.some.inj (hcall.symm.trans (hsame ▸ hc'))
    refine ⟨b.set i p, by rw [hcalls, hsame, Function.update_self], ?_⟩
    rwa [List.getElem?_set_ne fun heq => hne (by rw [← hsame, heq])]
  · exact ⟨b', by rw [hcalls, Function.update_of_ne hsame, hc'], hi'⟩

theorem Rides.of_finish {fate : Fate} (h : y.Rides who r) (hne : who.call ≠ call) :
    (y.finish call fate).Rides who r := by
  obtain ⟨b, hc, hi⟩ := h
  exact ⟨b, (Function.update_of_ne hne ..).trans hc, hi⟩

theorem Rides.of_issue (h : y.Rides who r) (hcounted : y.Counted)
    (batch : List (String × Animation Float)) : (y.issue batch).Rides who r := by
  obtain ⟨b, hc, hi⟩ := h
  have hlt := hcounted.lt hc
  exact ⟨b, (Function.update_of_ne (by omega) ..).trans hc, hi⟩

theorem deedsOf_logWith (time : Nat) (deeds : List Ride.Deed) :
    deedsOf (logWith time who target deeds log) who
      = incidents time who (deeds.map fun deed => (target, deed)) ++ log.deedsOf who := by
  rw [deedsOf, List.filter_append, List.filter_eq_self.2]
  · rfl
  · intro e he
    obtain ⟨x, -, rfl⟩ := List.mem_map.1 he
    simp

theorem deedsOf_logWith_of_ne (h : who ≠ other) (time : Nat) (deeds : List Ride.Deed) :
    deedsOf (logWith time who target deeds log) other = log.deedsOf other := by
  rw [deedsOf, List.filter_append, List.filter_eq_nil_iff.2]
  · rfl
  · intro e he
    obtain ⟨x, -, rfl⟩ := List.mem_map.1 he
    simpa using h

/-- The deeds of others do not make anybody the last claimer. -/
theorem claimer?_logWith_ne {name : String} (h : log.claimer? name ≠ some who) (hne : other ≠ who)
    (time : Nat) (deeds : List Ride.Deed) :
    claimer? (logWith time other target deeds log) name ≠ some who := by
  intro hclaimer
  rw [claimer?, List.findSome?_append, Option.or_eq_some_iff] at hclaimer
  rcases hclaimer with hnew | ⟨-, hold⟩
  · obtain ⟨e, he, hwho, -⟩ :=
      exists_claim (show claimer? (incidents time other _) name = _ from hnew)
    obtain ⟨x, -, rfl⟩ := List.mem_map.1 he
    exact hne hwho
  · exact h hold

/-- An operation of a call that was issued is not under way any more. -/
def Gone (y : Traffic) (who : Claimant) : Prop :=
  who.call < y.requests.length ∧ ∀ r, ¬ y.Rides who r

/-- Whoever is gone does nothing more. -/
theorem Gone.step (h : y.Gone who) (hstep : Step y y') :
    y'.Gone who ∧ y'.log.deedsOf who = y.log.deedsOf who := by
  obtain ⟨hlt, hnot⟩ := h
  cases hstep with
  | issue batch =>
    refine ⟨⟨?_, fun r hr => ?_⟩, rfl⟩
    · exact Nat.lt_of_lt_of_le hlt (by simp [issue])
    · rcases rides_of_issue hr with ⟨hwho, -⟩ | ⟨-, hr⟩
      · omega
      · exact hnot r hr
  | @pace _ call b i r _ _ hcall hi _ _ =>
    have hne : (⟨call, i⟩ : Claimant) ≠ who := fun heq => hnot r (heq ▸ ⟨b, hcall, hi⟩)
    refine ⟨⟨hlt, fun r' hr' => ?_⟩, deedsOf_logWith_of_ne hne _ _⟩
    rcases rides_of_pace hcall hi rfl hr' with ⟨heq, -⟩ | ⟨-, hr'⟩
    · exact hne heq.symm
    · exact hnot r' hr'
  | resolve _ _ => exact ⟨⟨hlt, fun r hr => hnot r (rides_of_finish hr).2⟩, rfl⟩
  | drop _ _ => exact ⟨⟨hlt, fun r hr => hnot r (rides_of_finish hr).2⟩, rfl⟩
  | wait _ _ => exact ⟨⟨hlt, hnot⟩, rfl⟩
  | aside _ _ => exact ⟨⟨hlt, hnot⟩, rfl⟩

theorem Gone.steps (h : y.Gone who) (hsteps : Steps y y') :
    y'.Gone who ∧ y'.log.deedsOf who = y.log.deedsOf who := by
  induction hsteps with
  | refl => exact ⟨h, rfl⟩
  | tail _ hstep ih =>
    obtain ⟨hgone, hkept⟩ := ih.1.step hstep
    exact ⟨hgone, hkept.trans ih.2⟩

/-- What becomes of a ride that was superseded while it waited for its next frame: it still waits for
it and has done nothing, or it has ended well at that time and done nothing else, or its call was
over before. -/
inductive Fades (y₀ : Traffic) (who : Claimant) (m : Motion Float) (next : Alarm) (y : Traffic) : Prop
  | waits {next' : Alarm} :
      y.Rides who (.moving m next') → next'.due = next.due →
      y.log.claimer? m.target ≠ some who → y.log.deedsOf who = y₀.log.deedsOf who →
      Fades y₀ who m next y
  | ended :
      y.Gone who →
      y.log.deedsOf who = ⟨next.due, who, m.target, .ended (.ok ())⟩ :: y₀.log.deedsOf who →
      Fades y₀ who m next y
  | lost {ending : Ending} :
      y.Gone who → y.log.deedsOf who = y₀.log.deedsOf who → ending ∈ y.endings →
      ending.call = who.call → ending.fate ≠ .resolved (.ok ()) → Fades y₀ who m next y

/-- The call of a ride that is under way cannot have ended well. -/
theorem Fades.finish {fate : Fate} (hr : y.Rides who (.moving m next')) (hcounted : y.Counted)
    (hfate : fate ≠ .resolved (.ok ())) (hdeeds : y.log.deedsOf who = y₀.log.deedsOf who) :
    Fades y₀ who m next (y.finish who.call fate) := by
  obtain ⟨b, hcall, -⟩ := hr
  exact .lost ⟨hcounted.lt hcall, fun r hr => (rides_of_finish hr).1 rfl⟩ hdeeds List.mem_cons_self
    rfl hfate

theorem Fades.step (h : Fades y₀ who m next y) (hsound : y.Sound d) (htimed : Timed d y)
    (hcounted : y.Counted) (hstep : Step y y') : Fades y₀ who m next y' := by
  cases h with
  | ended hgone hdeeds =>
    obtain ⟨hgone', hkept⟩ := hgone.step hstep
    exact .ended hgone' (hkept.trans hdeeds)
  | lost hgone hdeeds hmem hcall hfate =>
    obtain ⟨hgone', hkept⟩ := hgone.step hstep
    exact .lost hgone' (hkept.trans hdeeds) (hstep.mem_endings hmem) hcall hfate
  | @waits next' hr hdue hclaimer hdeeds =>
    cases hstep with
    | issue batch => exact .waits (hr.of_issue hcounted batch) hdue hclaimer hdeeds
    | wait _ _ => exact .waits hr hdue hclaimer hdeeds
    | aside _ _ => exact .waits hr hdue hclaimer hdeeds
    | @drop call b hcall hbusy =>
      by_cases hwho : who.call = call
      · subst hwho
        exact Fades.finish hr hcounted (fun he => by cases he) hdeeds
      · exact .waits (hr.of_finish hwho) hdue hclaimer hdeeds
    | @resolve call b large result hcall hupshot =>
      by_cases hwho : who.call = call
      · subst hwho
        refine Fades.finish hr hcounted (fun he => ?_) hdeeds
        -- a call all of whose rides have ended well has none that is under way
        cases he
        obtain ⟨b', hc', hi⟩ := hr
        obtain rfl : b = b' := Option.some.inj (hcall.symm.trans hc')
        rcases finished_of_upshot hupshot with ⟨-, hall⟩ | ⟨e, i, he, -⟩
        · rw [hall _ (List.getElem?_eq_some_iff.1 hi).1] at hi
          cases hi
        · cases he
      · exact .waits (hr.of_finish hwho) hdue hclaimer hdeeds
    | @pace stage call b i r deeds p hcall hi hpace hnow =>
      by_cases hwho : who = ⟨call, i⟩
      · subst hwho
        obtain ⟨time, -, -, hle, -⟩ := htimed.rides _ _ hr
        obtain ⟨-, hstanding⟩ := hsound.rides _ _ hr
        obtain rfl : r = .moving m next' := by
          obtain ⟨b', hc', hi'⟩ := hr
          obtain rfl : b = b' := Option.some.inj (hcall.symm.trans hc')
          simpa using hi.symm.trans hi'
        have hlt : i < b.length := (List.getElem?_eq_some_iff.1 hi).1
        have hg : y.driver.generation? m.target ≠ some m.generation :=
          fun hg => hclaimer (hstanding.claimer? hg)
        rcases hpace.superseded hle hg with ⟨rfl, next'', rfl, hdue'⟩ | ⟨rfl, rfl, htime⟩
        · refine .waits ⟨_, Function.update_self .., ?_⟩ (hdue'.trans hdue) hclaimer hdeeds
          simp [hlt]
        · refine .ended ⟨hcounted.lt hcall, fun r' hr' => ?_⟩ ?_
          · rcases rides_of_pace hcall hi rfl hr' with ⟨-, hbusy⟩ | ⟨hne, -⟩
            · cases hbusy
            · exact hne rfl
          · refine (deedsOf_logWith ..).trans ?_
            rw [hdeeds, htime, hdue]
            rfl
      · exact .waits (hr.of_pace hcall rfl hwho) hdue
          (claimer?_logWith_ne hclaimer (Ne.symm hwho) _ _)
          ((deedsOf_logWith_of_ne (Ne.symm hwho) ..).trans hdeeds)

/-! ### Unknown targets -/

/-- An incident that may happen on a driver that somebody has begun with: an operation on an unknown
target is refused, and no other one fails. -/
def Fits (d₀ : Driver Float) (e : Incident) : Prop :=
  d₀.slots.get? e.target = none ∧ e.deed = .ended (.error (.unknownTarget e.target)) ∨
    (d₀.slots.get? e.target).isSome ∧ ∀ error, e.deed ≠ .ended (.error error)

theorem fits_of_pace (h : r.Pace now d d' deeds p)
    (hslots : ∀ t, d.slots.get? t = (d₀.slots.get? t).map (log.slotAfter t))
    (hr : Knows d log who r) : ∀ deed ∈ deeds, Fits d₀ ⟨now, who, r.target, deed⟩ := by
  have hknown {t : String} {slot : Slot Float} (hslot : d.slots.get? t = some slot) :
      (d₀.slots.get? t).isSome := by
    rw [← Option.isSome_map, ← hslots, hslot]
    rfl
  -- a ride under way has found its target
  have hmoving {m : Motion Float} {next : Alarm} (hr : Knows d log who (.moving m next)) :
      (d₀.slots.get? m.target).isSome := by
    obtain ⟨-, g, hg, -⟩ := hr
    obtain ⟨slot, hslot, -⟩ := Option.map_eq_some_iff.1 hg
    exact hknown hslot
  cases h with
  | @refuse target _ hnone =>
    rw [List.forall_mem_singleton]
    refine .inl ⟨?_, rfl⟩
    rw [hslots] at hnone
    exact Option.map_eq_none_iff.1 hnone
  | @claim target _ slot _ hslot _ =>
    rw [List.forall_mem_singleton]
    exact .inr ⟨hknown hslot, fun _ he => by cases he⟩
  | wait _ => exact fun _ hmem => absurd hmem List.not_mem_nil
  | giveUp _ _ =>
    rw [List.forall_mem_singleton]
    exact .inr ⟨hmoving hr, fun _ he => by cases he⟩
  | frame _ _ _ _ =>
    rw [List.forall_mem_singleton]
    exact .inr ⟨hmoving hr, fun _ he => by cases he⟩
  | finish _ _ _ =>
    rw [List.forall_mem_cons, List.forall_mem_singleton]
    exact ⟨.inr ⟨hmoving hr, fun _ he => by cases he⟩, .inr ⟨hmoving hr, fun _ he => by cases he⟩⟩

/-- Everything that has happened may happen. -/
def Fitting (d₀ : Driver Float) (y : Traffic) : Prop :=
  ∀ e ∈ y.log, Fits d₀ e

theorem Fitting.step (h : Fitting d y) (hsound : y.Sound d) (hstep : Step y y') : Fitting d y' := by
  cases hstep with
  | @pace _ call b i r _ _ hcall hi hpace _ =>
    intro e he
    rcases mem_logWith.1 he with ⟨deed, hdeed, rfl⟩ | he
    · exact fits_of_pace hpace hsound.slots (hsound.rides _ _ ⟨b, hcall, hi⟩) deed hdeed
    · exact h e he
  | issue _ => exact h
  | resolve _ _ => exact h
  | drop _ _ => exact h
  | wait _ _ => exact h
  | aside _ _ => exact h

/-! ### All together -/

/-- What all steps keep. -/
structure Governed (d : Driver Float) (y : Traffic) : Prop where
  counted : y.Counted
  sound : y.Sound d
  named : y.Named
  timed : Timed d y
  answered : y.Answered
  prompt : y.Prompt
  fitting : Fitting d y

namespace Governed

/-- It holds before anybody has called the driver. -/
theorem start (stage : Stage) : Governed stage.driver { stage } where
  counted _ := rfl
  sound :=
    { lawful := .nil
      slots := fun target => by
        cases stage.driver.slots.get? target <;> rfl
      issued := fun _ he => absurd he List.not_mem_nil
      rides := fun _ _ hr => by
        obtain ⟨_, hc, -⟩ := hr
        cases hc }
  named :=
    { rides := fun _ _ hr => by
        obtain ⟨_, hc, -⟩ := hr
        cases hc
      log := fun _ he => absurd he List.not_mem_nil }
  timed :=
    { frame := rfl
      rides := fun _ _ hr => by
        obtain ⟨_, hc, -⟩ := hr
        cases hc
      empty := fun _ hc => by cases hc }
  answered :=
    { size := fun _ _ hc => by cases hc
      rides := fun _ _ _ _ hc => by cases hc
      endings := fun _ he => absurd he List.not_mem_nil }
  prompt := fun _ he => absurd he List.not_mem_nil
  fitting := fun _ he => absurd he List.not_mem_nil

theorem step (h : y.Governed d) (hstep : Step y y') : y'.Governed d where
  counted := h.counted.step hstep
  sound := h.sound.step h.counted hstep
  named := h.named.step hstep
  timed := h.timed.step hstep
  answered := h.answered.step hstep
  prompt := h.prompt.step h.counted h.sound h.answered hstep
  fitting := h.fitting.step h.sound hstep

theorem steps (h : y.Governed d) (hsteps : Steps y y') : y'.Governed d := by
  induction hsteps with
  | refl => exact h
  | tail _ hstep ih => exact ih.step hstep

end Governed

/-- **Superseded rides fade**, whatever else happens. -/
theorem Fades.steps (h : Fades y₀ who m next y) (hgoverned : y.Governed d) (hsteps : Steps y y') :
    Fades y₀ who m next y' := by
  induction hsteps with
  | refl => exact h
  | tail hbefore hstep ih =>
    have hthere := hgoverned.steps hbefore
    exact ih.step hthere.sound hthere.timed hthere.counted hstep

/-- **What holds of all traffic on a driver.** -/
theorem Reachable.governed (h : y.Reachable d) : y.Governed d := by
  obtain ⟨stage, rfl, hsteps⟩ := h.steps
  exact (Governed.start stage).steps hsteps

end Traffic

end Timeline
