/-
Timeline/Proofs/Stage/Traffic.lean

Traffic: calls that set and animate the targets of one driver, in any order.

`Traffic` holds the stage, the calls that are under way and, beside them, a log of all
that was seen to happen, the endings of calls, and what each call has asked for.  A
`Move` is one thing that happens: a target is set, a call to animate targets is issued,
a call that is under way is visited or dropped, time passes while everybody waits, or
somebody else acts on the stage without the driver.

The moves are those of the program; proofs go by `Step`, in which a visit is taken
apart into the paces of single rides and a target is set as an animation that takes no
time would set it.  Main result (`Traffic.Reachable.steps`): every move is a sequence of
steps.
-/
import Mathlib.Logic.Function.Basic
import Timeline.Proofs.Stage.Incidents

namespace Timeline

open Relation

/-! ### Calls on a driver -/

/-- What a call asks for: the targets that it names, and when it does. -/
structure Request where
  time : Nat
  targets : List String

/-- How a call ends: with a result, or because whoever waits for it gives it up. -/
inductive Fate where
  | resolved (result : Except StepError Unit)
  | dropped

/-- The end of a call. -/
structure Ending where
  time : Nat
  call : Nat
  fate : Fate

/-- The calls on a driver, and what has happened so far. -/
structure Traffic where
  stage : Stage
  /-- What the calls have asked for, by their numbers. -/
  requests : List Request := []
  /-- The calls that are under way. -/
  calls : Nat → Option Convoy := fun _ => none
  log : Log := []
  /-- The endings of calls, the latest first. -/
  endings : List Ending := []

/-- A ride waits for an alarm. -/
def Ride.Waits (r : Ride) (now : Nat) : Prop :=
  ∃ a, r.alarm? = some a ∧ a.isSet ∧ now < a.due

/-- Some rides of a call are under way, and all of them wait for alarms that do not go off before a
time. -/
structure Convoy.WaitsUntil (b : Convoy) (now time : Nat) : Prop where
  busy : ∃ r, .busy r ∈ b
  waits : ∀ r, .busy r ∈ b → r.Waits now
  due : ∀ a ∈ b.alarms, time ≤ a.due

namespace Traffic

/-- The time. -/
abbrev now (y : Traffic) : Nat :=
  y.stage.now

/-- The driver. -/
abbrev driver (y : Traffic) : Driver Float :=
  y.stage.driver

/-- An operation is a ride that is under way. -/
def Rides (y : Traffic) (who : Claimant) (r : Ride) : Prop :=
  ∃ b, y.calls who.call = some b ∧ b[who.member]? = some (.busy r)

/-- The incidents that some deeds of an operation are. -/
def incidents (time : Nat) (who : Claimant) (deeds : List (String × Ride.Deed)) : Log :=
  deeds.map fun (target, deed) => ⟨time, who, target, deed⟩

/-- The log after some visits to the rides of a call. -/
def logAfter (call : Nat) (log : Log) (visits : List (Visit Ride Unit)) : Log :=
  visits.foldl (fun log v => incidents v.before.now ⟨call, v.member⟩ v.deeds ++ log) log

/-- A call to animate some targets together. -/
def issue (y : Traffic) (batch : List (String × Animation Float)) : Traffic :=
  { y with
    requests := y.requests ++ [⟨y.now, batch.map Prod.fst⟩]
    calls := Function.update y.calls y.requests.length (some (.ofBatch batch)) }

/-- A call is over. -/
def finish (y : Traffic) (call : Nat) (fate : Fate) : Traffic :=
  { y with
    calls := Function.update y.calls call none
    endings := ⟨y.now, call, fate⟩ :: y.endings }

/-- Visit a call. -/
def visit (recorded : Bool) (y : Traffic) (call : Nat) (b : Convoy) : Traffic :=
  let log := logAfter call y.log (b.tour recorded y.stage)
  match b.poll recorded y.stage with
  | (stage, .busy b) => { y with stage, log, calls := Function.update y.calls call (some b) }
  | (stage, .finished result) => { y with stage, log }.finish call (.resolved result)

/-- A call to set a target, which is over at once. -/
def set (y : Traffic) (target : String) (value : Float) : Traffic :=
  let (known, stage) := y.stage.set target value
  let result := if known then .ok () else .error (.unknownTarget target)
  { y with
    stage
    requests := y.requests ++ [⟨y.now, [target]⟩]
    log := incidents y.now ⟨y.requests.length, 0⟩
      ((target, .ended result) :: Stage.deeds target y.stage stage) ++ y.log
    endings := ⟨y.now, y.requests.length, .resolved result⟩ :: y.endings }

/-- One thing that happens. -/
inductive Move (y : Traffic) : Traffic → Prop
  | set (target : String) (value : Float) : Move y (y.set target value)
  | issue (batch : List (String × Animation Float)) : Move y (y.issue batch)
  /-- A call goes on, whether or not the journal records its rides. -/
  | visit (recorded : Bool) {call : Nat} {b : Convoy} :
      y.calls call = some b → Move y (y.visit recorded call b)
  | drop {call : Nat} {b : Convoy} : y.calls call = some b → Move y (y.finish call .dropped)
  /-- Nobody can go on before a time. -/
  | wait {time : Nat} :
      y.now ≤ time → (∀ call b, y.calls call = some b → b.WaitsUntil y.now time) →
      Move y { y with stage := { y.stage with now := time } }
  /-- Somebody else has a turn, and leaves the driver alone. -/
  | aside {stage : Stage} :
      stage.driver = y.driver → stage.now = y.now → Move y { y with stage }

/-- Any number of moves. -/
abbrev Moves : Traffic → Traffic → Prop :=
  ReflTransGen Move

/-- Any number of moves lead here from a driver that nobody has called yet. -/
def Reachable (d : Driver Float) (y : Traffic) : Prop :=
  ∃ stage : Stage, stage.driver = d ∧ Moves { stage } y

/-! ### Steps -/

/-- One small thing that happens. -/
inductive Step (y : Traffic) : Traffic → Prop
  | issue (batch : List (String × Animation Float)) : Step y (y.issue batch)
  /-- A ride makes a pace. -/
  | pace (stage : Stage) {call : Nat} {b : Convoy} {i : Nat} {r : Ride} {deeds : List Ride.Deed}
      {p : Progress Ride (Except StepError Unit)} :
      y.calls call = some b → b[i]? = some (.busy r) →
      r.Pace y.now y.driver stage.driver deeds p → stage.now = y.now →
      Step y { y with
        stage
        calls := Function.update y.calls call (some (b.set i p))
        log := incidents y.now ⟨call, i⟩ (deeds.map fun deed => (r.target, deed)) ++ y.log }
  /-- The rides of a call have come so far that it has a result. -/
  | resolve {call : Nat} {b : Convoy} {large : Bool} {result : Except StepError Unit} :
      y.calls call = some b → b.upshot large = .finished result →
      Step y (y.finish call (.resolved result))
  | drop {call : Nat} {b : Convoy} :
      y.calls call = some b → (b = [] ∨ ∃ r, .busy r ∈ b) → Step y (y.finish call .dropped)
  | wait {time : Nat} :
      y.now ≤ time → (∀ call b, y.calls call = some b → b.WaitsUntil y.now time) →
      Step y { y with stage := { y.stage with now := time } }
  | aside {stage : Stage} :
      stage.driver = y.driver → stage.now = y.now → Step y { y with stage }

/-- Any number of steps. -/
abbrev Steps : Traffic → Traffic → Prop :=
  ReflTransGen Step

/-- Between moves the calls that are under way have been issued, and have rides that are under way,
unless they never had any. -/
structure Tidy (y : Traffic) : Prop where
  issued : ∀ call, y.requests.length ≤ call → y.calls call = none
  busy : ∀ call b, y.calls call = some b → b = [] ∨ ∃ r, .busy r ∈ b

variable {y y' : Traffic} {call : Nat} {b b' : Convoy}

/-- The calls that are under way once one of them has changed. -/
theorem update_eq_some_iff {calls : Nat → Option Convoy} {x : Option Convoy} {j : Nat} :
    Function.update calls call x j = some b ↔
      j = call ∧ x = some b ∨ j ≠ call ∧ calls j = some b := by
  by_cases hj : j = call
  · subst hj
    simp
  · simp [hj]

theorem steps_of_paces {i : Nat} {r : Ride} {stage : Stage} {deeds : List Ride.Deed}
    {p : Progress Ride (Except StepError Unit)} (hcall : y.calls call = some b)
    (hi : b[i]? = some (.busy r)) (h : r.Paces y.now y.driver stage.driver deeds p)
    (hnow : stage.now = y.now) :
    Steps y { y with
      stage
      calls := Function.update y.calls call (some (b.set i p))
      log := incidents y.now ⟨call, i⟩ (deeds.map fun deed => (r.target, deed)) ++ y.log } := by
  cases h with
  | one hpace => exact .single (.pace stage hcall hi hpace hnow)
  | two hfirst hsecond =>
    rename_i r₁ d₁ first second
    have hlt : i < b.length := (List.getElem?_eq_some_iff.1 hi).1
    have hstep : Step y _ := .pace { y.stage with driver := d₁ } hcall hi hfirst rfl
    refine (ReflTransGen.single hstep).tail ?_
    have hi' : (b.set i (.busy r₁))[i]? = some (.busy r₁) := by simp [hlt]
    have hpace := Step.pace (y := { y with
        stage := { y.stage with driver := d₁ }
        calls := Function.update y.calls call (some (b.set i (.busy r₁)))
        log := incidents y.now ⟨call, i⟩ (first.map fun deed => (r.target, deed)) ++ y.log })
      stage (Function.update_self ..) hi' hsecond hnow
    simpa [incidents, hfirst.target] using hpace

theorem steps_of_tours {recorded : Bool} {s' : Stage} {visits : List (Visit Ride Unit)}
    (hcall : y.calls call = some b)
    (h : Join.Tours (Ride.poll recorded) b y.stage visits b' s') :
    Steps y { y with
      stage := s'
      calls := Function.update y.calls call (some b')
      log := logAfter call y.log visits } := by
  obtain ⟨s, hs⟩ : ∃ s, s = y.stage := ⟨_, rfl⟩
  rw [← hs] at h
  induction h generalizing y with
  | done b s =>
    have hsame : Function.update y.calls call (some b) = y.calls := by
      rw [← hcall, Function.update_eq_self]
    rw [hsame, hs]
    exact .refl
  | @visit b b' s s₁ s' i r p rest hi hpoll hrest ih =>
    obtain ⟨hnow, deeds, hdeeds, hpaces⟩ := Ride.poll_paces recorded r s i
    rw [hpoll] at hnow hdeeds hpaces
    subst hs
    have hsteps := steps_of_paces hcall hi hpaces hnow
    rw [← hdeeds] at hsteps
    have hmore := ih (y := { y with
        stage := s₁
        calls := Function.update y.calls call (some (b.set i p))
        log := incidents y.now ⟨call, i⟩ (Visit.deeds ⟨i, r, y.stage, s₁, p⟩) ++ y.log })
      (Function.update_self ..) rfl
    rw [Function.update_idem] at hmore
    exact hsteps.trans hmore

/-- A convoy that has no result has rides that are under way. -/
theorem upshot_busy {large : Bool} (h : b.upshot large = .busy b') :
    b' = b ∧ ∃ r, .busy r ∈ b := by
  unfold Convoy.upshot at h
  rcases hf : Join.failure? large b with - | e <;> rcases hr : Join.results? b with - | rs <;>
    simp only [hf, hr] at h
  · cases h
    obtain ⟨i, r, hi⟩ := Join.exists_busy hf hr
    exact ⟨rfl, r, List.mem_of_getElem? hi⟩
  · cases h
  · cases h
  · cases h

theorem steps_of_visit (recorded : Bool) (hcall : y.calls call = some b) :
    Steps y (y.visit recorded call b) := by
  obtain ⟨b', htours, hupshot⟩ := b.poll_tours recorded y.stage
  unfold visit
  rcases hp : b.poll recorded y.stage with ⟨s', b'' | result⟩ <;> rw [hp] at htours hupshot
  · obtain ⟨rfl, -⟩ := upshot_busy hupshot.symm
    exact steps_of_tours hcall htours
  · have hresolve := Step.resolve (y := { y with
        stage := s'
        calls := Function.update y.calls call (some b')
        log := logAfter call y.log (b.tour recorded y.stage) })
      (Function.update_self ..) hupshot.symm
    have hsteps := (steps_of_tours hcall htours).tail hresolve
    rwa [finish, Function.update_idem] at hsteps

/-- A call with one ride that makes all its paces at once. -/
theorem steps_of_one (h : y.Tidy) {target : String} {a : Animation Float} {stage : Stage}
    {deeds : List Ride.Deed} {result : Except StepError Unit}
    (hpaces : (Ride.ahead target a).Paces y.now y.driver stage.driver deeds (.finished result))
    (hnow : stage.now = y.now) :
    Steps y { y with
      stage
      requests := y.requests ++ [⟨y.now, [target]⟩]
      log := incidents y.now ⟨y.requests.length, 0⟩ (deeds.map fun deed => (target, deed)) ++ y.log
      endings := ⟨y.now, y.requests.length, .resolved result⟩ :: y.endings } := by
  have hissue : Step y (y.issue [(target, a)]) := .issue _
  have hsteps := steps_of_paces (y := y.issue [(target, a)]) (b := [.busy (.ahead target a)]) (i := 0)
    (Function.update_self ..) rfl hpaces hnow
  have hupshot : Convoy.upshot false [.finished result] = .finished result := by
    rcases result with e | u <;> rfl
  have hresolve := Step.resolve (y := { y.issue [(target, a)] with
      stage
      calls := Function.update (y.issue [(target, a)]).calls y.requests.length
        (some [.finished result])
      log := incidents y.now ⟨y.requests.length, 0⟩ (deeds.map fun deed => (target, deed)) ++ y.log })
    (Function.update_self ..) hupshot
  have hall := ((ReflTransGen.single hissue).trans hsteps).tail hresolve
  -- the call was not under way before, and it is not any more
  have hcalls : Function.update (Function.update (y.issue [(target, a)]).calls y.requests.length
      (some [.finished result])) y.requests.length none = y.calls := by
    rw [issue, Function.update_idem, Function.update_idem,
      ← h.issued y.requests.length (Nat.le_refl _), Function.update_eq_self]
  rw [finish, hcalls] at hall
  simpa [issue, now, hnow] using hall

/-- To set a target is what an animation does that takes no time. -/
theorem steps_of_set (h : y.Tidy) (target : String) (value : Float) :
    Steps y (y.set target value) := by
  rcases hslot : y.driver.slots.get? target with - | slot
  · have hset : y.stage.set target value = (false, y.stage) := by
      simp [Stage.set, Driver.set?, Driver.claim?, hslot]
    have hrefused : (Ride.ahead target ⟨value, .zero, .linear, false⟩).Paces y.now y.driver
        y.stage.driver [.ended (.error (.unknownTarget target))]
        (.finished (.error (.unknownTarget target))) := .one (.refuse hslot)
    have hone := steps_of_one h hrefused rfl
    simpa [set, hset, Stage.deeds] using hone
  · have hset : y.stage.set target value = (true, Stage.note { y.stage with
        driver := (y.driver.put target ⟨slot.value, slot.generation + 1⟩).put target
          ⟨value, slot.generation + 1⟩ } (.wrote target value)) := by
      simp [Stage.set, Driver.set?, Driver.claim?, Driver.write?, hslot]
    obtain ⟨s', hs'⟩ : ∃ s', s' = (y.stage.set target value).2 := ⟨_, rfl⟩
    have hwhole : y.stage.set target value = (true, s') := by rw [hs', hset]
    have hdriver : s'.driver = (y.driver.put target ⟨slot.value, slot.generation + 1⟩).put target
        ⟨value, slot.generation + 1⟩ := by
      rw [hs', hset]
      rfl
    have hjournal : s'.journal
        = [⟨y.now, y.stage.position.index, .wrote target value⟩] ++ y.stage.journal := by
      rw [hs', hset]
      rfl
    have hnow : s'.now = y.now := by
      rw [hs', hset]
      rfl
    have hgeneration : s'.driver.generation? target ≠ y.driver.generation? target := by
      rw [hdriver, Driver.generation?_put, if_pos rfl, Driver.generation?, hslot]
      simp
    have hdeeds : Stage.deeds target y.stage s' = [(target, .wrote value), (target, .claimed)] := by
      rw [Stage.deeds_eq hjournal, if_neg hgeneration]
      rfl
    -- the claim, and the only frame
    have hpaces : (Ride.ahead target ⟨value, .zero, .linear, false⟩).Paces y.now y.driver s'.driver
        ([.ended (.ok ()), .wrote value] ++ [.claimed]) (.finished (.ok ())) := by
      have hclaim : Ride.Pace y.now y.driver (.ahead target ⟨value, .zero, .linear, false⟩) _ _
          (.busy (.moving _ ⟨y.now, 0, false⟩)) := .claim hslot rfl
      refine .two hclaim ?_
      rw [hdriver]
      exact .finish (Nat.le_refl _) ((Driver.generation?_put ..).trans (if_pos rfl)) rfl
    have hone := steps_of_one h hpaces hnow
    simpa [set, hwhole, hdeeds] using hone

/-- Every move is a sequence of steps. -/
theorem steps_of_move (h : y.Tidy) (hmove : Move y y') : Steps y y' := by
  cases hmove with
  | set target value => exact steps_of_set h target value
  | issue batch => exact .single (.issue batch)
  | visit recorded hcall => exact steps_of_visit recorded hcall
  | drop hcall => exact .single (.drop hcall (h.busy _ _ hcall))
  | wait htime hrest => exact .single (.wait htime hrest)
  | aside hdriver hnow => exact .single (.aside hdriver hnow)

theorem Tidy.lt_of_calls (h : y.Tidy) (hcall : y.calls call = some b) : call < y.requests.length := by
  by_contra hnot
  rw [h.issued call (Nat.le_of_not_lt hnot)] at hcall
  cases hcall

/-- One call changes, and it has rides that are under way if it is not over. -/
theorem Tidy.update (h : y.Tidy) {x : Option Convoy}
    (hissued : y.requests.length ≤ y'.requests.length) (hcall : call < y'.requests.length)
    (hx : ∀ b, x = some b → b = [] ∨ ∃ r, .busy r ∈ b)
    (hcalls : y'.calls = Function.update y.calls call x) : y'.Tidy where
  issued j hj := by
    rw [hcalls, Function.update_of_ne (by omega)]
    exact h.issued j (by omega)
  busy j b hc := by
    rw [hcalls] at hc
    rcases update_eq_some_iff.1 hc with ⟨-, hc⟩ | ⟨-, hc⟩
    · exact hx b hc
    · exact h.busy j b hc

theorem Tidy.move (h : y.Tidy) (hmove : Move y y') : y'.Tidy := by
  cases hmove with
  | set target value =>
    refine ⟨fun j hj => h.issued j ?_, h.busy⟩
    simp only [set, List.length_append] at hj
    omega
  | issue batch =>
    have hcalls : (y.issue batch).calls
        = Function.update y.calls y.requests.length (some (.ofBatch batch)) := rfl
    refine h.update (by simp [issue]) (by simp [issue]) ?_ hcalls
    intro b hc
    cases hc
    rcases batch with - | ⟨⟨target, animation⟩, rest⟩
    · exact .inl rfl
    · exact .inr ⟨_, List.mem_cons_self⟩
  | @visit recorded call b hcall =>
    obtain ⟨b', -, hupshot⟩ := b.poll_tours recorded y.stage
    unfold visit
    rcases hp : b.poll recorded y.stage with ⟨s', b'' | result⟩ <;> rw [hp] at hupshot
    · obtain ⟨rfl, hbusy⟩ := upshot_busy hupshot.symm
      exact h.update (Nat.le_refl _) (h.lt_of_calls hcall)
        (fun _ he => .inr (by cases he; exact hbusy)) rfl
    · exact h.update (Nat.le_refl _) (h.lt_of_calls hcall) (fun _ he => by cases he) rfl
  | drop hcall => exact h.update (Nat.le_refl _) (h.lt_of_calls hcall) (fun _ he => by cases he) rfl
  | wait _ _ => exact ⟨h.issued, h.busy⟩
  | aside _ _ => exact ⟨h.issued, h.busy⟩

theorem Tidy.moves (h : y.Tidy) (hmoves : Moves y y') : y'.Tidy := by
  induction hmoves with
  | refl => exact h
  | tail _ hmove ih => exact ih.move hmove

theorem steps_of_moves (h : y.Tidy) (hmoves : Moves y y') : Steps y y' := by
  induction hmoves with
  | refl => exact .refl
  | tail hmoves hmove ih => exact ih.trans (steps_of_move (h.moves hmoves) hmove)

namespace Reachable

variable {d : Driver Float}

theorem tidy (h : y.Reachable d) : y.Tidy := by
  obtain ⟨stage, -, hmoves⟩ := h
  exact Tidy.moves ⟨fun _ _ => rfl, fun _ _ hc => by cases hc⟩ hmoves

/-- **Every run is a sequence of steps.** -/
theorem steps (h : y.Reachable d) : ∃ stage : Stage, stage.driver = d ∧ Steps { stage } y := by
  obtain ⟨stage, hdriver, hmoves⟩ := h
  exact ⟨stage, hdriver, steps_of_moves ⟨fun _ _ => rfl, fun _ _ hc => by cases hc⟩ hmoves⟩

theorem moves (h : y.Reachable d) (hmoves : Moves y y') : y'.Reachable d := by
  obtain ⟨stage, hdriver, hbefore⟩ := h
  exact ⟨stage, hdriver, hbefore.trans hmoves⟩

end Reachable

end Traffic

end Timeline
