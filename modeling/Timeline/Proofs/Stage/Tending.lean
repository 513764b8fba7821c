/-
Timeline/Proofs/Stage/Tending.lean

Calls that are tended come to their ends.

To tend the calls on a driver is to visit one of them in a fresh turn, or to let time
pass when all of them wait; nothing new is asked for, and no call is dropped.  A call
that does not wait has a ride that is restless, and a visit in a fresh turn leaves it
with fewer such rides (`Convoy.restless_lt`), so that after some visits everybody
waits and time can pass (`Reachable.later`).

Main result (`Reachable.tended`): from everywhere one comes to where all calls are over
by nothing but tending them, and then each of them has a result.
-/
import Timeline.Proofs.Stage.Resolution

namespace Timeline

/-! ### Rides that wait -/

/-- Who has a turn gets to set an alarm, unless it goes off. -/
theorem Stage.await_sets {s s' : Stage} {a a' : Alarm} (hturn : 0 < s.turn)
    (h : s.await a = (some a', s')) : a'.isSet = true ∧ s.now < a'.due := by
  unfold await at h
  split at h
  · cases h
  · rename_i hnot
    have hdue : s.now < a.due := by simpa [hturn] using hnot
    split at h
    · rename_i hset
      cases h
      exact ⟨by simpa [hdue] using hset, hdue⟩
    · cases h
      exact ⟨decide_eq_true hturn, hdue⟩

namespace Ride

variable {recorded : Bool} {m : Motion Float} {next : Alarm} {r r' : Ride} {s : Stage}

/-- Whether a ride waits. -/
def isWaiting (r : Ride) (now : Nat) : Bool :=
  r.alarm?.any fun a => a.isSet && now < a.due

theorem isWaiting_iff {now : Nat} : r.isWaiting now = true ↔ r.Waits now := by
  rcases ha : r.alarm? with - | a <;> simp [isWaiting, Waits, ha]

/-- A visit to a ride that waits does nothing. -/
theorem poll_of_waits (recorded : Bool) (h : r.Waits s.now) : r.poll recorded s = (s, .busy r) := by
  obtain ⟨a, ha, hset, hdue⟩ := h
  cases r with
  | ahead _ _ => cases ha
  | moving m next =>
    obtain rfl : next = a := Option.some.inj ha
    have hlate : ¬ next.due ≤ s.now := by omega
    simp [poll, frame, Stage.await, hlate, hdue, hset]

/-- After a frame a ride waits for the next one. -/
theorem write_waits (hturn : 0 < s.turn) (hframe : 0 < s.driver.frame.nanos)
    (h : (write recorded m s).2 = .busy r') : r'.Waits s.now := by
  rcases hd : m.frame? s.driver s.now with - | d <;> simp only [write, hd] at h
  · cases h
  · obtain ⟨-, rfl⟩ := Driver.write?_eq_some hd
    split at h
    · cases h
    · obtain rfl := Progress.busy.inj h
      refine ⟨_, rfl, ?_, ?_⟩
      · exact decide_eq_true hturn
      · exact m.lt_nextFrame hframe s.now

theorem frame_waits (hturn : 2 ≤ s.turn) (hframe : 0 < s.driver.frame.nanos)
    (h : (frame recorded m next s).2 = .busy r') : r'.Waits s.now := by
  rcases ha : s.await next with ⟨- | a, s'⟩ <;> simp only [frame, ha] at h
  · obtain ⟨-, rfl⟩ := Stage.await_none ha
    have hleft : 0 < s.turn - 1 := by omega
    exact write_waits (s := s.spend) hleft hframe h
  · obtain rfl := Progress.busy.inj h
    exact ⟨a, rfl, Stage.await_sets (by omega) ha⟩

/-- **In a fresh turn everybody gets to wait.** -/
theorem poll_waits (recorded : Bool) (hturn : 2 ≤ s.turn) (hframe : 0 < s.driver.frame.nanos)
    (h : (r.poll recorded s).2 = .busy r') : r'.Waits s.now := by
  cases r with
  | moving m next => exact frame_waits hturn hframe h
  | ahead target animation =>
    obtain ⟨s₀, hs₀⟩ : ∃ s₀, s₀ = report recorded s (.animate target animation) := ⟨_, rfl⟩
    have hnow : s₀.now = s.now := hs₀ ▸ report_now ..
    have hdriver : s₀.driver = s.driver := hs₀ ▸ report_driver ..
    have hturn₀ : s₀.turn = s.turn := by
      rw [hs₀]
      cases recorded <;> rfl
    simp only [poll, ← hs₀] at h
    split at h
    · cases h
    · rename_i m d hlaunch
      have hd : d.frame = s.driver.frame := hdriver ▸ Driver.frame_of_launch? hlaunch
      rw [← hnow]
      split at h
      · exact write_waits (s := { s₀ with driver := d }) (by simp only [hturn₀]; omega)
          (by simpa [hd] using hframe) h
      · exact frame_waits (s := { s₀ with driver := d }) (by simpa [hturn₀] using hturn)
          (by simpa [hd] using hframe) h

end Ride

/-! ### Calls with restless rides -/

namespace Convoy

variable {recorded large : Bool} {b b' : Convoy} {i now : Nat} {s : Stage}
  {p : Progress Ride (Except StepError Unit)}

/-- Whether a ride is under way and does not wait. -/
def isRestless (now : Nat) : Progress Ride (Except StepError Unit) → Bool
  | .busy r => !r.isWaiting now
  | .finished _ => false

/-- The number of rides that are under way and do not wait. -/
def restless (b : Convoy) (now : Nat) : Nat :=
  b.countP (isRestless now)

/-- A ride that has waited and goes on to do so leaves the number as it is, and any other one does
not raise it. -/
theorem restless_set_le {r : Ride} (hi : b[i]? = some (.busy r))
    (hp : r.Waits now → p = .busy r) : restless (b.set i p) now ≤ b.restless now := by
  obtain ⟨hlt, hget⟩ := List.getElem?_eq_some_iff.1 hi
  rcases hr : r.isWaiting now
  · have hle := List.boole_getElem_le_countP (p := isRestless now) hlt
    have hbusy : isRestless now b[i] = true := by rw [hget, isRestless, hr]; rfl
    have hone : (if isRestless now p = true then 1 else 0) ≤ 1 := by split <;> omega
    rw [hbusy, if_pos rfl] at hle
    rw [restless, restless, List.countP_set hlt, hbusy, if_pos rfl]
    omega
  · have hsame : b.set i p = b := by
      rw [hp (Ride.isWaiting_iff.1 hr), ← hget, List.set_getElem_self]
    exact Nat.le_of_eq (congrArg (restless · now) hsame)

/-- A restless ride that comes to wait, or to its end, lowers the number. -/
theorem restless_set_lt {r : Ride} (hi : b[i]? = some (.busy r)) (hr : ¬ r.Waits now)
    (hp : isRestless now p = false) : restless (b.set i p) now < b.restless now := by
  obtain ⟨hlt, hget⟩ := List.getElem?_eq_some_iff.1 hi
  have hbusy : isRestless now b[i] = true := by
    have hwaiting : r.isWaiting now = false := by
      rwa [← Bool.not_eq_true, Ride.isWaiting_iff]
    rw [hget, isRestless, hwaiting]
    rfl
  have hle := List.boole_getElem_le_countP (p := isRestless now) hlt
  rw [hbusy, if_pos rfl] at hle
  rw [restless, restless, List.countP_set hlt, hbusy, hp, if_pos rfl, if_neg Bool.false_ne_true]
  omega

theorem restless_pos {r : Ride} (hr : .busy r ∈ b) (hwaits : ¬ r.Waits now) : 0 < b.restless now := by
  refine List.countP_pos_iff.2 ⟨.busy r, hr, ?_⟩
  rw [← Ride.isWaiting_iff, Bool.not_eq_true] at hwaits
  rw [isRestless, hwaits]
  rfl

/-- A visit to some rides does not raise the number of those that are restless. -/
theorem restless_visit_le (order : List Nat) (b : Convoy) (s : Stage) :
    restless (Join.visit (Ride.poll recorded) large order b s).2 s.now ≤ b.restless s.now := by
  induction order generalizing b s with
  | nil => exact Nat.le_refl _
  | cons i rest ih =>
    rcases hi : b[i]? with - | (r | result) <;> simp only [Join.visit, hi]
    · exact ih b s
    · have hnow := (Ride.poll_paces recorded r s i).1
      have hle (hr : r.Waits s.now) := Ride.poll_of_waits recorded hr
      rcases hp : r.poll recorded s with ⟨s', r' | result⟩ <;> rw [hp] at hnow hle <;> dsimp only
      · have hset := restless_set_le hi fun hr => (congrArg Prod.snd (hle hr) :)
        rw [← hnow] at hset ⊢
        exact Nat.le_trans (ih _ s') hset
      · have hset := restless_set_le hi fun hr => (congrArg Prod.snd (hle hr) :)
        split
        · exact hset
        · rw [← hnow] at hset ⊢
          exact Nat.le_trans (ih _ s') hset
    · exact ih b s

/-- A visit in a fresh turn that comes to a restless ride lowers the number. -/
theorem restless_visit_lt (recorded large : Bool) (hturn : 2 ≤ s.turn)
    (hframe : 0 < s.driver.frame.nanos) {r : Ride} {order : List Nat} (hi : i ∈ order)
    (hr : b[i]? = some (.busy r)) (hwaits : ¬ r.Waits s.now) :
    restless (Join.visit (Ride.poll recorded) large order b s).2 s.now < b.restless s.now := by
  induction order with
  | nil => cases hi
  | cons k rest ih =>
    have hmem (hne : i ≠ k) : i ∈ rest := (List.mem_cons.1 hi).resolve_left hne
    rcases hk : b[k]? with - | (r' | result) <;> simp only [Join.visit, hk]
    · refine ih (hmem fun heq => ?_)
      rw [← heq, hr] at hk
      cases hk
    · by_cases hrest : r'.Waits s.now
      · -- a ride that waits leaves the turn as it is
        have hne : i ≠ k := by
          rintro rfl
          rw [hr] at hk
          cases hk
          exact hwaits hrest
        obtain ⟨hlt, hget⟩ := List.getElem?_eq_some_iff.1 hk
        have hsame : b.set k (.busy r') = b := by rw [← hget, List.set_getElem_self]
        rw [Ride.poll_of_waits recorded hrest]
        dsimp only
        rw [hsame]
        exact ih (hmem hne)
      · have hnow := (Ride.poll_paces recorded r' s k).1
        have hcalm (r'' : Ride) (h : (r'.poll recorded s).2 = .busy r'') : r''.Waits s.now :=
          Ride.poll_waits recorded hturn hframe h
        rcases hp : r'.poll recorded s with ⟨s', r'' | result⟩ <;> rw [hp] at hnow hcalm <;>
          dsimp only
        · have hset := restless_set_lt (p := .busy r'') hk hrest (by
            rw [isRestless, Ride.isWaiting_iff.2 (hcalm r'' rfl)]
            rfl)
          rw [← hnow] at hset ⊢
          exact Nat.lt_of_le_of_lt (restless_visit_le rest _ s') hset
        · have hset := restless_set_lt (p := .finished result) hk hrest rfl
          split
          · exact hset
          · rw [← hnow] at hset ⊢
            exact Nat.lt_of_le_of_lt (restless_visit_le rest _ s') hset
    · refine ih (hmem fun heq => ?_)
      rw [← heq, hr] at hk
      cases hk

/-- A visit to a convoy comes to all restless rides. -/
theorem mem_order {r : Ride} (hr : b[i]? = some (.busy r)) (hwaits : ¬ r.Waits s.now) :
    i ∈ b.order s := by
  by_contra hnot
  exact hwaits (Join.waits_of_not_mem_order hr hnot)

/-- **A visit in a fresh turn leaves a call with fewer restless rides**, if it has any. -/
theorem restless_lt (hturn : 2 ≤ s.turn) (hframe : 0 < s.driver.frame.nanos) {r : Ride}
    (hr : .busy r ∈ b) (hwaits : ¬ r.Waits s.now) (h : (b.poll recorded s).2 = .busy b') :
    b'.restless s.now < b.restless s.now := by
  obtain ⟨i, hi⟩ := List.mem_iff_getElem?.1 hr
  have hlt := restless_visit_lt recorded b.isLarge hturn hframe
    (mem_order hi hwaits) hi hwaits
  simp only [poll, Join.poll] at h
  rw [← order.eq_def] at h
  rcases hv : Join.visit (Ride.poll recorded) b.isLarge (b.order s) b s with ⟨s', b''⟩
  rw [hv] at h hlt
  rcases hf : Join.failure? b.isLarge b'' with - | e <;> rcases hs : Join.results? b'' with - | rs <;>
    simp only [hf, hs] at h
  · obtain rfl := Progress.busy.inj h
    exact hlt
  · cases h
  · cases h
  · cases h

end Convoy

/-! ### Tending -/

namespace Traffic

open Relation

variable {d : Driver Float} {recorded : Bool} {y y' y'' : Traffic} {call : Nat} {b : Convoy}

/-- Visit a call in a fresh turn. -/
def tend (recorded : Bool) (y : Traffic) (call : Nat) (b : Convoy) : Traffic :=
  visit recorded { y with stage := y.stage.nextTurn } call b

/-- What those do who tend the calls: they visit one of them, or they let time pass when all of them
wait. -/
inductive Tend (recorded : Bool) (y : Traffic) : Traffic → Prop
  | visit {call : Nat} {b : Convoy} : y.calls call = some b → Tend recorded y (y.tend recorded call b)
  | wait {time : Nat} :
      y.now ≤ time → (∀ call b, y.calls call = some b → b.WaitsUntil y.now time) →
      Tend recorded y { y with stage := { y.stage with now := time } }

/-- Any amount of tending. -/
abbrev Tends (recorded : Bool) : Traffic → Traffic → Prop :=
  ReflTransGen (Tend recorded)

theorem Tend.moves (h : Tend recorded y y') : Moves y y' := by
  cases h with
  | visit hcall =>
    have haside : Move y { y with stage := y.stage.nextTurn } := .aside rfl rfl
    exact (ReflTransGen.single haside).tail (.visit recorded hcall)
  | wait hle hrest => exact .single (.wait hle hrest)

theorem moves_of_tends (h : Tends recorded y y') : Moves y y' := by
  induction h with
  | refl => exact .refl
  | tail _ htend ih => exact ih.trans htend.moves

/-- What a visit to a call leaves as it is, and what becomes of the call. -/
structure Visited (recorded : Bool) (y : Traffic) (call : Nat) (b : Convoy) (y' : Traffic) :
    Prop where
  now : y'.now = y.now
  requests : y'.requests = y.requests
  others : ∀ j, j ≠ call → y'.calls j = y.calls j
  upshot : ∀ b', y'.calls call = some b' → (b.poll recorded y.stage).2 = .busy b'
  endings : ∀ ending ∈ y'.endings, ending ∈ y.endings ∨ ∃ result, ending.fate = .resolved result

theorem visit_visited (recorded : Bool) (y : Traffic) (call : Nat) (b : Convoy) :
    Visited recorded y call b (y.visit recorded call b) := by
  unfold visit
  rcases hp : b.poll recorded y.stage with ⟨s', b' | result⟩ <;>
    have hnow : s'.now = y.now := (Convoy.poll_acts hp).frame.now
  · refine ⟨hnow, rfl, fun j hj => Function.update_of_ne hj .., fun b'' hc => ?_,
      fun _ he => .inl he⟩
    obtain rfl : b' = b'' := by simpa using hc
    rw [hp]
  · refine ⟨hnow, rfl, fun j hj => Function.update_of_ne hj .., fun b'' hc => ?_,
      fun ending he => ?_⟩
    · simp [finish] at hc
    · rcases List.mem_cons.1 he with rfl | he
      · exact .inr ⟨result, rfl⟩
      · exact .inl he

/-- A call that cannot go on at this moment. -/
def Rests (y : Traffic) (call : Nat) : Prop :=
  ∀ b, y.calls call = some b → b.WaitsUntil y.now (y.now + 1)

/-- Some tending of one call that takes no time. -/
structure Settles (recorded : Bool) (y : Traffic) (call : Nat) (y' : Traffic) : Prop where
  tends : Tends recorded y y'
  now : y'.now = y.now
  requests : y'.requests = y.requests
  others : ∀ j, j ≠ call → y'.calls j = y.calls j
  rests : y'.Rests call

/-- A call rests, or it has restless rides, or it has none at all. -/
theorem Tidy.rests_or (h : y.Tidy) (hcall : y.calls call = some b) :
    y.Rests call ∨ (∃ r, .busy r ∈ b ∧ ¬ r.Waits y.now) ∨ b = [] := by
  by_cases hrestless : ∃ r, .busy r ∈ b ∧ ¬ r.Waits y.now
  · exact .inr (.inl hrestless)
  · have hwaits (r : Ride) (hr : .busy r ∈ b) : r.Waits y.now := by
      by_contra hnot
      exact hrestless ⟨r, hr, hnot⟩
    rcases h.busy call b hcall with rfl | hbusy
    · exact .inr (.inr rfl)
    · refine .inl fun b' hc => ?_
      obtain rfl : b = b' := Option.some.inj (hcall.symm.trans hc)
      refine ⟨hbusy, hwaits, fun a ha => ?_⟩
      obtain ⟨p, hp, hpa⟩ := List.mem_filterMap.1 ha
      cases p with
      | finished _ => cases hpa
      | busy r =>
        obtain ⟨a', ha', -, hdue⟩ := hwaits r hp
        obtain rfl : a' = a := Option.some.inj (ha'.symm.trans hpa)
        exact hdue

theorem Reachable.frame_eq (h : y.Reachable d) : y.driver.frame = d.frame :=
  h.governed.timed.frame

/-- **A call can be settled**: each visit leaves it with fewer restless rides. -/
theorem Reachable.settles (h : y.Reachable d) (hframe : 0 < d.frame.nanos) (recorded : Bool)
    (call : Nat) :
    ∃ y', Settles recorded y call y' := by
  obtain ⟨n, hn⟩ : ∃ n, ∀ b, y.calls call = some b → b.restless y.now < n := by
    rcases hcall : y.calls call with - | b
    · exact ⟨0, fun _ he => by cases he⟩
    · exact ⟨b.restless y.now + 1, fun _ he => by cases he; exact Nat.lt_succ_self _⟩
  induction n generalizing y with
  | zero =>
    exact ⟨y, .refl, rfl, rfl, fun _ _ => rfl, fun b hc => absurd (hn b hc) (Nat.not_lt_zero _)⟩
  | succ n ih =>
    rcases hcall : y.calls call with - | b
    · refine ⟨y, .refl, rfl, rfl, fun _ _ => rfl, fun b hc => ?_⟩
      rw [hcall] at hc
      cases hc
    · rcases h.tidy.rests_or hcall with hrests | hmore
      · exact ⟨y, .refl, rfl, rfl, fun _ _ => rfl, hrests⟩
      · have htend : Tend recorded y (y.tend recorded call b) := .visit hcall
        have hvisited : Visited recorded { y with stage := y.stage.nextTurn } call b
            (y.tend recorded call b) := visit_visited ..
        have hfewer (b' : Convoy) (hc : (y.tend recorded call b).calls call = some b') :
            b'.restless (y.tend recorded call b).now < n := by
          have hpoll := hvisited.upshot b' hc
          rcases hmore with ⟨r, hr, hwaits⟩ | rfl
          · have hturn : 2 ≤ y.stage.nextTurn.turn := show 2 ≤ Stage.fullTurn by decide
            have hlt := Convoy.restless_lt hturn (h.frame_eq ▸ hframe) hr hwaits hpoll
            rw [hvisited.now]
            exact Nat.lt_of_lt_of_le hlt (Nat.le_of_lt_succ (hn b hcall))
          · cases hpoll
        obtain ⟨y', hsettles⟩ := ih (h.moves htend.moves) hfewer
        exact ⟨y', (ReflTransGen.single htend).trans hsettles.tends,
          hsettles.now.trans hvisited.now, hsettles.requests.trans hvisited.requests,
          fun j hj => (hsettles.others j hj).trans (hvisited.others j hj), hsettles.rests⟩

theorem Rests.of_eq (h : y.Rests call) (hnow : y'.now = y.now)
    (hcall : y'.calls call = y.calls call) : y'.Rests call := by
  intro b hc
  rw [hnow]
  exact h b (hcall ▸ hc)

/-- All calls can be settled, one after the other. -/
theorem Reachable.all_rest (h : y.Reachable d) (hframe : 0 < d.frame.nanos) (recorded : Bool) :
    ∃ y', Tends recorded y y' ∧ y'.now = y.now ∧ y'.requests = y.requests ∧
      ∀ call, y'.Rests call := by
  have hsome (n : Nat) : ∃ y', Tends recorded y y' ∧ y'.now = y.now ∧ y'.requests = y.requests ∧
      ∀ call < n, y'.Rests call := by
    induction n with
    | zero => exact ⟨y, .refl, rfl, rfl, fun _ hlt => absurd hlt (Nat.not_lt_zero _)⟩
    | succ n ih =>
      obtain ⟨y₁, htends, hnow, hrequests, hrests⟩ := ih
      obtain ⟨y₂, hsettles⟩ := (h.moves (moves_of_tends htends)).settles hframe recorded n
      refine ⟨y₂, htends.trans hsettles.tends, hsettles.now.trans hnow,
        hsettles.requests.trans hrequests, fun call hcall => ?_⟩
      by_cases hne : call = n
      · exact hne ▸ hsettles.rests
      · exact (hrests call (by omega)).of_eq hsettles.now (hsettles.others call hne)
  obtain ⟨y', htends, hnow, hrequests, hrests⟩ := hsome y.requests.length
  refine ⟨y', htends, hnow, hrequests, fun call => ?_⟩
  by_cases hcall : call < y.requests.length
  · exact hrests call hcall
  · intro b hc
    have htidy := (h.moves (moves_of_tends htends)).tidy
    rw [htidy.issued call (by rw [hrequests]; omega)] at hc
    cases hc

/-- Time can pass when nobody can go on. -/
theorem tend_rest (recorded : Bool) (h : ∀ call, y.Rests call) :
    Tend recorded y { y with stage := { y.stage with now := y.now + 1 } } :=
  .wait (Nat.le_succ _) h

/-- **Time can always go on.** -/
theorem Reachable.later (h : y.Reachable d) (hframe : 0 < d.frame.nanos) (recorded : Bool)
    (time : Nat) :
    ∃ y', Tends recorded y y' ∧ y'.now = y.now + time ∧ y'.requests = y.requests := by
  induction time with
  | zero => exact ⟨y, .refl, rfl, rfl⟩
  | succ time ih =>
    obtain ⟨y₁, htends, hnow, hrequests⟩ := ih
    obtain ⟨y₂, htends', hnow', hrequests', hrests⟩ :=
      (h.moves (moves_of_tends htends)).all_rest hframe recorded
    refine ⟨_, (htends.trans htends').tail (tend_rest recorded hrests), ?_,
      hrequests'.trans hrequests⟩
    show y₂.now + 1 = y.now + (time + 1)
    omega

theorem resolved_of_tends (h : Tends recorded y y') {ending : Ending} (he : ending ∈ y'.endings) :
    ending ∈ y.endings ∨ ∃ result, ending.fate = .resolved result := by
  induction h with
  | refl => exact .inl he
  | tail _ htend ih =>
    cases htend with
    | visit _ =>
      rcases (visit_visited ..).endings ending he with hold | hnew
      · exact ih hold
      · exact .inr hnew
    | wait _ _ => exact ih he

/-- **Calls that are tended come to their ends**: each of them has a result, and nothing is left to
do. -/
theorem Reachable.tended (h : y.Reachable d) (hframe : 0 < d.frame.nanos) (recorded : Bool) :
    ∃ y', Tends recorded y y' ∧ (∀ call, y'.calls call = none) ∧
      ∀ call b, y.calls call = some b →
        ∃ time result, ⟨time, call, .resolved result⟩ ∈ y'.endings := by
  -- a time at which all calls are over that were issued before
  obtain ⟨latest, hlatest⟩ : ∃ latest, ∀ q ∈ y.requests, q.time ≤ latest := by
    induction y.requests with
    | nil => exact ⟨0, fun _ hq => absurd hq List.not_mem_nil⟩
    | cons q rest ih =>
      obtain ⟨latest, hlatest⟩ := ih
      refine ⟨max q.time latest, List.forall_mem_cons.2 ⟨Nat.le_max_left .., fun q' hq => ?_⟩⟩
      exact Nat.le_trans (hlatest q' hq) (Nat.le_max_right ..)
  obtain ⟨y', htends, hnow, hrequests⟩ :=
    h.later hframe recorded (latest + Animation.longest + d.frame.ceilMillis + 1)
  have hgoverned := (h.moves (moves_of_tends htends)).governed
  have hover (call : Nat) : y'.calls call = none := by
    rcases hcall : y'.calls call with - | b
    · rfl
    · obtain ⟨time, ⟨q, hq, rfl⟩, hle⟩ :=
        hgoverned.timed.now_le (h.moves (moves_of_tends htends)).tidy hcall
      have hq' := hlatest q (by rw [← hrequests]; exact List.mem_of_getElem? hq)
      omega
  refine ⟨y', htends, hover, fun call b hcall => ?_⟩
  -- it has an ending now, and had none before
  have hbefore := h.governed.counted.endingsOf_eq_zero hcall
  have hlt : call < y'.requests.length := hrequests ▸ h.governed.counted.lt hcall
  have hafter := hgoverned.counted.endingsOf_pos hlt (hover call)
  obtain ⟨ending, hmem, hending⟩ := List.countP_pos_iff.1 hafter
  obtain ⟨time, call', fate⟩ := ending
  obtain rfl : call' = call := by simpa using hending
  rcases resolved_of_tends htends hmem with hold | ⟨result, rfl⟩
  · exact absurd hending (by simpa using List.countP_eq_zero.1 hbefore _ hold)
  · exact ⟨time, result, hmem⟩

end Traffic

end Timeline
