/-
Timeline/Proofs/Machine/Convoys.lean

Steps that are under way.

A step that moves targets together waits for its rides.  While nobody outside writes or
animates a target (`Config.Gentle`), its rides are on track (`Config.Underway`), until the
last one of them is over and the step with it (`Config.Arrived`).

Main results: whatever happens gently keeps such a step under way or ends it
(`Config.Underway.move`), and undisturbed it comes to its end (`Config.Underway.ends`).
-/
import Timeline.Proofs.Machine.Bystanders
import Timeline.Proofs.Machine.Solo

namespace Timeline

open Relation Stage

/-- A step that moves some targets together. -/
inductive Action.Moves : Action → List Tween → Prop
  | move (t : Tween) : Moves (.move t) [t]
  | parallel (ts : List Tween) : Moves (.parallel ts) ts

theorem Machine.begin_moves {m : Machine} {action : Action} {ts : List Tween}
    (h : action.Moves ts) (index : Nat) (r : Registers) :
    m.begin index action r = (r, .tweens ts) := by
  cases h <;> rfl

namespace Config

variable {m : Machine} {c c' : Config} {id index : Nat} {who : Stepper} {ts : List Tween}
  {ms : List (Motion Float)} {b : Stage} {rides : Convoy}

/-! ### The course of a step -/

/-- A call executes the step at an index. -/
def Executes (c : Config) (id index : Nat) : Prop :=
  ∃ who activity, c.phase? id = some (.stepping who index activity)

/-- One thing that happens while nobody outside writes or animates a target. -/
inductive Gentle (m : Machine) (c : Config) : Config → Prop
  | step : Gentle m c (c.step m)
  | issue (call : Call) : (∀ batch, call ≠ .animate batch) → Gentle m c (c.issue call)
  | tick {due : Nat} : c.quiet → c.nextDue? = some due → Gentle m c (c.tick due)
  | wait {time : Nat} : c.quiet → c.stage.now ≤ time →
      (∀ due, c.nextDue? = some due → time < due) →
      Gentle m c { c with stage := { c.stage with now := time } }
  | register (functions : Registry) :
      Gentle m c { c with stage := { c.stage with functions } }

theorem Gentle.move (h : Gentle m c c') : Move m c c' := by
  cases h with
  | step => exact .step
  | issue call _ => exact .issue call
  | tick hquiet hdue => exact .tick hquiet hdue
  | wait hquiet hnow hdue => exact .wait hquiet hnow hdue
  | register functions => exact .register functions

theorem Undisturbed.gentle (h : Undisturbed m c c') : Gentle m c c' := by
  cases h with
  | step => exact .step
  | tick hquiet hdue => exact .tick hquiet hdue
  | wait hquiet hnow hdue => exact .wait hquiet hnow hdue

/-- Whatever happens gently while a call executes a step, up to its end. -/
abbrev Unfolds (m : Machine) (id index : Nat) : Config → Config → Prop :=
  ReflTransGen fun c c' => c.Executes id index ∧ Gentle m c c'

/-! ### Rides that are under way -/

/-- A step waits for its animations, all of which are on track. -/
structure Underway (ms : List (Motion Float)) (b : Stage) (id index : Nat) (who : Stepper)
    (rides : Convoy) (c : Config) : Prop where
  phase : c.phase? id = some (.stepping who index (.animating rides))
  calm : c.Calm
  turn : c.stage.turn = Stage.fullTurn
  track : Convoy.OnTrack ms b rides c.stage
  busy : ∃ r, .busy r ∈ rides
  begun : ∀ r, .busy r ∈ rides → r.alarm?.isSome
  goes : c.Goes id ∨ ∀ r, .busy r ∈ rides → r.Waits c.stage.now

/-- A step is over since this moment, because all of its animations are. -/
structure Arrived (ms : List (Motion Float)) (b : Stage) (id index : Nat) (c : Config) : Prop where
  ended : ¬ c.Executes id index
  record : ∃ r ∈ c.stage.journal, r.time = c.stage.now ∧ r.event = .ended id index .advance
  rides : ∃ rides, Convoy.OnTrack ms b rides c.stage ∧ ∀ q ∈ rides, q = .finished (.ok ())
  last : ∀ time, b.now ≤ time → time < c.stage.now → ∃ m ∈ ms, ¬ m.OverBy b.driver.frame time

/-- Targets of their own that are claimed on a stage. -/
structure Launches (ms : List (Motion Float)) (b : Stage) : Prop where
  starts : ∀ m ∈ ms, m.StartsOn b
  distinct : (ms.map Motion.target).Nodup
  frame : 0 < b.driver.frame.nanos

/-- A call that comes to no result in its step waits, or lets others go first if its turn is used
up. -/
theorem step_of_busy {rest : List Nat} {activity activity' : Activity} {s : Stage}
    (hready : c.ready = id :: rest) (hphase : c.phase? id = some (.stepping who index activity))
    (hpoll : activity.poll c.stage = (s, .busy activity')) :
    c.step m = ({ c with
        stage := s
        yielded := if s.turn = 0 then c.yielded ++ [id] else c.yielded }.setPhase id
      (.stepping who index activity')).block := by
  rw [step_of_ready hready hphase, advance, hpoll]
  show Config.pause _ id = _
  unfold pause
  show (if s.turn = 0 then _ else _) = _
  split
  · rfl
  · rfl

/-- A step is still under way after a visit in which it comes to no result. -/
theorem phase?_step_of_busy {rest : List Nat} {activity activity' : Activity} {s : Stage}
    (hready : c.ready = id :: rest) (hphase : c.phase? id = some (.stepping who index activity))
    (hpoll : activity.poll c.stage = (s, .busy activity')) :
    (c.step m).phase? = Function.update c.phase? id (some (.stepping who index activity')) := by
  rw [step_of_busy hready hphase hpoll]
  refine phase?_setPhase (c := { c with stage := s, yielded := _ }) ?_
  show (c.phase? id).isSome
  rw [hphase]
  rfl

/-- A call whose turn is used up goes on once nobody else can. -/
theorem goes_of_spent {rest : List Nat} {activity activity' : Activity} {s : Stage}
    (hready : c.ready = id :: rest) (hphase : c.phase? id = some (.stepping who index activity))
    (hpoll : activity.poll c.stage = (s, .busy activity')) (hturn : s.turn = 0) :
    (c.step m).Goes id := by
  rw [step_of_busy hready hphase hpoll]
  right
  show id ∈ if s.turn = 0 then c.yielded ++ [id] else c.yielded
  rw [if_pos hturn]
  exact List.mem_append_right _ List.mem_cons_self

/-- A call whose step ends records it, and leaves the stage as it is. -/
theorem endStep_ends (hpresent : (c.phase? id).isSome) (who : Stepper) (index : Nat) (flow : Flow) :
    (∀ i, ¬ (c.endStep m id who index flow).Executes id i) ∧
      c.stage.Consults (c.endStep m id who index flow).stage ∧
      ∃ r ∈ (c.endStep m id who index flow).stage.journal,
        r.time = c.stage.now ∧ r.event = .ended id index flow := by
  have hrecord : ⟨c.stage.now, c.stage.position.index, .ended id index flow⟩
      ∈ (c.stage.note (.ended id index flow)).journal := List.mem_cons_self
  cases who with
  | run epoch =>
    rw [endStep_run, unlock_eq]
    refine ⟨?_, ⟨rfl, rfl, rfl, fun _ => rfl⟩, _, hrecord, rfl, rfl⟩
    rintro i ⟨who, activity, hphase⟩
    rw [phase?_setPhase, Function.update_self] at hphase
    · cases hphase
    · exact hpresent
  | next =>
    rw [endStep_next, unlock_eq]
    refine ⟨?_, ⟨rfl, rfl, rfl, fun _ => rfl⟩, _, List.mem_cons_of_mem _ hrecord, rfl, rfl⟩
    rintro i ⟨who, activity, hphase⟩
    rw [phase?_finish, Function.update_self] at hphase
    cases hphase

/-- A call visits its rides, which are then under way or over. -/
theorem Launches.visit (hms : Launches ms b) (hcalm : c.Calm) {rest : List Nat}
    (hready : c.ready = id :: rest) {activity : Activity}
    (hphase : c.phase? id = some (.stepping who index activity)) {s : Stage}
    (hpoll : activity.poll c.stage = Activity.pollConvoy rides s)
    (htrack : Convoy.OnTrack ms b rides s) (hnow : s.now = c.stage.now)
    (hlast : ∀ time, b.now ≤ time → time < c.stage.now →
      ∃ m ∈ ms, ¬ m.OverBy b.driver.frame time) :
    (∃ rides', Underway ms b id index who rides' (c.step m)) ∨ Arrived ms b id index (c.step m) := by
  have hpresent : (c.phase? id).isSome := by
    rw [hphase]
    rfl
  rcases hp : Convoy.poll true rides s with ⟨s', p⟩
  have hnow' : s'.now = c.stage.now := (Convoy.poll_acts hp).frame.now.trans hnow
  obtain ⟨rides', htrack', ⟨rfl, hbusy⟩ | ⟨rfl, hover⟩⟩ :=
    htrack.poll hms.starts hms.frame hms.distinct hp
  · -- some rides are still under way
    left
    have hbusypoll : activity.poll c.stage = (s', .busy (.animating rides')) := by
      rw [hpoll, Activity.pollConvoy, hp]
    have hphases := phase?_step_of_busy (m := m) hready hphase hbusypoll
    have hstep := step_of_busy (m := m) hready hphase hbusypoll
    have hstage : (c.step m).stage = s'.nextTurn := by
      rw [hstep]
      rfl
    refine ⟨rides', by rw [hphases, Function.update_self], fun j phase hj => ?_, ?_, ?_, hbusy,
      fun r hr => Convoy.isSome_alarm?_of_poll_busy (by rw [hp]) hr, ?_⟩
    · rw [hphases] at hj
      by_cases hji : j = id
      · rw [hji, Function.update_self] at hj
        cases hj
        rfl
      · rw [Function.update_of_ne hji] at hj
        exact hcalm j phase hj
    · rw [hstage]
      rfl
    · rw [hstage]
      exact htrack'.congr rfl rfl fun _ => rfl
    · by_cases hturn : s'.turn = 0
      · exact .inl (goes_of_spent hready hphase hbusypoll hturn)
      · right
        intro r hr
        have hwaits := Convoy.poll_waits true (htrack.frame ▸ hms.frame) hp
          (Nat.pos_of_ne_zero hturn) hr
        rw [hstage]
        show r.Waits s'.now
        rw [hnow', ← hnow]
        exact hwaits
  · -- all of them are over, and the step with them
    right
    have hstep : c.step m = { c with stage := s' }.endStep m id who index .advance := by
      rw [step_of_ready hready hphase, advance, hpoll, Activity.pollConvoy, hp]
    obtain ⟨hended, hstage, r, hr, htime, hevent⟩ :=
      endStep_ends (m := m) (c := { c with stage := s' }) hpresent who index .advance
    rw [← hstep] at hended hstage hr
    refine ⟨hended index, ⟨r, hr, htime.trans hstage.now.symm, hevent⟩,
      ⟨rides', htrack'.congr hstage.now hstage.driver hstage.writes, hover⟩, fun time hle hlt => ?_⟩
    rw [hstage.now] at hlt
    exact hlast time hle (hnow' ▸ hlt)

/-- No ride that is under way is over at a time that has passed. -/
theorem Underway.last (h : Underway ms b id index who rides c) {time : Nat}
    (hlt : time < c.stage.now) :
    ∃ m ∈ ms, ¬ m.OverBy b.driver.frame time := by
  obtain ⟨r, hr⟩ := h.busy
  obtain ⟨i, hi⟩ := List.mem_iff_getElem?.1 hr
  obtain ⟨a, ha⟩ := Option.isSome_iff_exists.1 (h.begun r hr)
  have hlength : i < ms.length := h.track.length ▸ (List.getElem?_eq_some_iff.1 hi).1
  have hride := h.track.rides i _ _ (List.getElem?_eq_getElem hlength) hi
  exact ⟨ms[i], List.getElem_mem hlength,
    hride.not_overBy ha (Nat.lt_of_lt_of_le hlt (hride.le_due ha))⟩

theorem Underway.executes (h : Underway ms b id index who rides c) : c.Executes id index :=
  ⟨who, _, h.phase⟩

/-- When nobody can go on the clock moves on to the first one of the next frames. -/
theorem Underway.first (h : Underway ms b id index who rides c) (hreach : c.Reachable m)
    (hquiet : c.quiet) :
    ∃ a, (Phase.stepping who index (.animating rides)).alarm? = some a ∧ c.stage.now < a.due ∧
      c.nextDue? = some a.due ∧
      ∀ r, .busy r ∈ rides → ∃ a', r.alarm? = some a' ∧ a'.isSet ∧ a.due ≤ a'.due := by
  have hwaits := h.goes.resolve_left (not_goes_of_quiet hquiet id)
  obtain ⟨r, hr⟩ := h.busy
  obtain ⟨a', ha', -, -⟩ := hwaits r hr
  obtain ⟨a, ha⟩ := Option.isSome_iff_exists.1
    (Alarm.isSome_first? (List.ne_nil_of_mem (Traffic.mem_alarms hr ha')))
  refine ⟨a, ha, ?_, ?_, fun r hr => ?_⟩
  · -- the first alarm is that of one of the rides
    obtain ⟨p, hp, hpa⟩ := List.mem_filterMap.1 (Alarm.first?_mem ha)
    cases p with
    | finished _ => cases hpa
    | busy r =>
      obtain ⟨a', ha', -, hlt⟩ := hwaits r hp
      obtain rfl := Option.some.inj (ha'.symm.trans hpa)
      exact hlt
  · exact hreach.nextDue?_of_calm h.calm h.phase ha
  · obtain ⟨a', ha', hset, -⟩ := hwaits r hr
    exact ⟨a', ha', hset, Alarm.first?_le ha a' (Traffic.mem_alarms hr ha')⟩

/-- All others can do no more than get in line. -/
theorem Underway.yields (h : Underway ms b id index who rides c) (hordered : c.Ordered) {j : Nat}
    {rest : List Nat} (hready : c.ready = j :: rest) (hj : j ≠ id) : Yields c (c.step m) j := by
  have hhold : c.hold = none :=
    Roster.Orderly.hold_eq_none_of_owner hordered (role_of_phase? h.phase)
  exact hordered.stands_by h.calm (hordered.owner_of_stepping h.phase) hhold
    (by rw [h.turn]; decide) hready (Ne.symm hj)

/-- Whoever else goes on leaves the rides under way. -/
theorem Underway.step_of_ne (h : Underway ms b id index who rides c) (hordered : c.Ordered)
    {j : Nat} {rest : List Nat} (hready : c.ready = j :: rest) (hj : j ≠ id) :
    Underway ms b id index who rides (c.step m) := by
  have hyields : Yields c (c.step m) j := h.yields hordered hready hj
  have hcalm : (c.step m).Calm := by
    intro i phase hi
    by_cases hij : i = j
    · subst hij
      exact hyields.calm phase hi
    · exact h.calm i phase ((hyields.others i hij) ▸ hi)
  have hgoes (hgoes : c.Goes id) : (c.step m).Goes id := by
    rcases hgoes with hmem | hmem
    · left
      have htail : id ∈ rest := by
        rw [hready] at hmem
        exact (List.mem_cons.1 hmem).resolve_left (Ne.symm hj)
      rcases hyields.ready with hsame | hsame <;> rw [hsame, hready]
      · exact List.mem_cons_of_mem _ htail
      · exact htail
    · right
      rw [hyields.yielded]
      exact hmem
  refine ⟨(hyields.others id (Ne.symm hj)).trans h.phase, hcalm, hyields.turn h.turn,
    h.track.congr hyields.stage.now hyields.stage.driver hyields.stage.writes, h.busy, h.begun,
    h.goes.imp hgoes fun hwaits => ?_⟩
  rw [hyields.stage.now]
  exact hwaits

/-- The next visit to the call finds the rides under way or over. -/
theorem Underway.step (h : Underway ms b id index who rides c) (hms : Launches ms b)
    (hordered : c.Ordered) :
    (∃ rides', Underway ms b id index who rides' (c.step m)) ∨ Arrived ms b id index (c.step m) := by
  rcases hready : c.ready with - | ⟨j, rest⟩
  · -- those who have let others go first can go on now
    left
    rw [step_of_idle hready]
    refine ⟨rides, h.phase, h.calm, h.turn, h.track, h.busy, h.begun, h.goes.imp_left ?_⟩
    rintro (hmem | hmem)
    · rw [hready] at hmem
      cases hmem
    · exact .inl hmem
  · by_cases hj : j = id
    · subst hj
      exact hms.visit h.calm hready h.phase rfl h.track rfl fun time _ hlt => h.last hlt
    · exact .inl ⟨rides, h.step_of_ne hordered hready hj⟩

/-- A new call leaves the rides under way, unless it is for an animation. -/
theorem Underway.issue (h : Underway ms b id index who rides c) (hordered : c.Ordered) {call : Call}
    (hcall : ∀ batch, call ≠ .animate batch) : Underway ms b id index who rides (c.issue call) := by
  have hnone : c.phase? c.calls = none := role_eq_absent_iff.1 (hordered.fresh _ (Nat.le_refl _))
  have hne : id ≠ c.calls := by
    rintro rfl
    cases hnone.symm.trans h.phase
  refine ⟨?_, fun j phase hj => ?_, h.turn, h.track, h.busy, h.begun,
    h.goes.imp_left fun hgoes => hgoes.imp_left fun hmem => List.mem_append_left _ hmem⟩
  · rw [phase?_issue hnone, Function.update_of_ne hne, h.phase]
  · rw [phase?_issue hnone] at hj
    by_cases hjc : j = c.calls
    · rw [hjc, Function.update_self] at hj
      cases hj
      cases call with
      | animate batch => exact absurd rfl (hcall batch)
      | _ => rfl
    · rw [Function.update_of_ne hjc] at hj
      exact h.calm j phase hj

/-- When the first frame comes, the rides are still under way, and the call can go on. -/
theorem Underway.tick (h : Underway ms b id index who rides c) (hreach : c.Reachable m)
    (hquiet : c.quiet) {due : Nat} (hdue : c.nextDue? = some due) :
    Underway ms b id index who rides (c.tick due) := by
  obtain ⟨a, ha, hlt, hnext, hrides⟩ := h.first hreach hquiet
  obtain rfl : due = a.due := Option.some.inj (hdue.symm.trans hnext)
  have hgoes : (c.tick a.due).Goes id := goes_of_tick h.phase ha (Nat.le_refl _)
  obtain ⟨ready, hready⟩ := c.tick_eq a.due
  rw [hready] at hgoes ⊢
  refine ⟨h.phase, h.calm, h.turn, h.track.later (Nat.le_of_lt hlt) fun r hr => ?_, h.busy,
    h.begun, .inl hgoes⟩
  obtain ⟨a', ha', -, hfirst⟩ := hrides r hr
  exact ⟨a', ha', hfirst⟩

/-- Before the first frame the rides stay under way. -/
theorem Underway.wait (h : Underway ms b id index who rides c) (hreach : c.Reachable m)
    (hquiet : c.quiet) {time : Nat} (hnow : c.stage.now ≤ time)
    (hlate : ∀ due, c.nextDue? = some due → time < due) :
    Underway ms b id index who rides { c with stage := { c.stage with now := time } } := by
  obtain ⟨a, -, -, hnext, hrides⟩ := h.first hreach hquiet
  have hearly : time < a.due := hlate a.due hnext
  refine ⟨h.phase, h.calm, h.turn, h.track.later hnow fun r hr => ?_, h.busy, h.begun,
    .inr fun r hr => ?_⟩
  · obtain ⟨a', ha', -, hfirst⟩ := hrides r hr
    exact ⟨a', ha', Nat.le_of_lt (Nat.lt_of_lt_of_le hearly hfirst)⟩
  · obtain ⟨a', ha', hset, hfirst⟩ := hrides r hr
    exact ⟨a', ha', hset, Nat.lt_of_lt_of_le hearly hfirst⟩

/-- **Whatever happens keeps the rides on track**, until the step is over. -/
theorem Underway.move (h : Underway ms b id index who rides c) (hms : Launches ms b)
    (hreach : c.Reachable m) (hmove : Gentle m c c') :
    (∃ rides', Underway ms b id index who rides' c') ∨ Arrived ms b id index c' := by
  cases hmove with
  | step => exact h.step hms hreach.ordered
  | issue call hcall => exact .inl ⟨rides, h.issue hreach.ordered hcall⟩
  | tick hquiet hdue => exact .inl ⟨rides, h.tick hreach hquiet hdue⟩
  | wait hquiet hnow hlate => exact .inl ⟨rides, h.wait hreach hquiet hnow hlate⟩
  | register functions =>
    exact .inl ⟨rides, h.phase, h.calm, h.turn, h.track.congr rfl rfl fun _ => rfl, h.busy, h.begun,
      h.goes⟩

/-! ### The end of a step -/

/-- How much is still to do before the rides of a step are over: first of all the time that can
pass, and then what can be done without it. -/
def remaining (b : Stage) (rides : Convoy) (c : Config) : ℕ ×ₗ ℕ ×ₗ ℕ ×ₗ ℕ :=
  toLex (b.now + Animation.longest + b.driver.frame.ceilMillis - c.stage.now,
    toLex (rides.restless c.stage.now, toLex (c.bustle, 2 * c.yielded.length + c.ready.length)))

theorem remaining_lt_of_restless {rides' : Convoy} (hnow : c'.stage.now = c.stage.now)
    (hlt : rides'.restless c.stage.now < rides.restless c.stage.now) :
    remaining b rides' c' < remaining b rides c := by
  unfold remaining
  rw [hnow]
  exact Prod.Lex.toLex_lt_toLex.2 (.inr ⟨rfl, Prod.Lex.toLex_lt_toLex.2 (.inl hlt)⟩)

theorem remaining_lt_of_bustle (hnow : c'.stage.now = c.stage.now)
    (hlt : c'.bustle < c.bustle ∨ c'.bustle = c.bustle ∧
      2 * c'.yielded.length + c'.ready.length < 2 * c.yielded.length + c.ready.length) :
    remaining b rides c' < remaining b rides c := by
  unfold remaining
  rw [hnow]
  exact Prod.Lex.toLex_lt_toLex.2 (.inr ⟨rfl, Prod.Lex.toLex_lt_toLex.2 (.inr ⟨rfl,
    Prod.Lex.toLex_lt_toLex.2 hlt⟩)⟩)

/-- The rides of a step are those of its phase. -/
theorem Underway.rides_eq (h : Underway ms b id index who rides c) {rides' : Convoy}
    (hphase : c.phase? id = some (.stepping who index (.animating rides'))) : rides' = rides := by
  rw [h.phase] at hphase
  injection hphase with hphase
  injection hphase with _ _ hphase
  injection hphase with hphase
  exact hphase.symm

/-- A visit to its rides leaves a step with less to do. -/
theorem Underway.nearer_of_visit (h : Underway ms b id index who rides c) (hms : Launches ms b)
    {rest : List Nat} (hready : c.ready = id :: rest) {rides' : Convoy}
    (h' : Underway ms b id index who rides' (c.step m)) :
    remaining b rides' (c.step m) < remaining b rides c := by
  have hframe : 0 < c.stage.driver.frame.nanos := by
    rw [h.track.frame]
    exact hms.frame
  rcases hp : Convoy.poll true rides c.stage with ⟨s, rides'' | result⟩
  · have hpoll : (Activity.animating rides).poll c.stage = (s, .busy (.animating rides'')) := by
      rw [Activity.poll, Activity.pollConvoy, hp]
    have hphases := phase?_step_of_busy (m := m) hready h.phase hpoll
    have hstep := step_of_busy (m := m) hready h.phase hpoll
    obtain rfl : rides'' = rides' := h'.rides_eq (by rw [hphases, Function.update_self])
    have hnow : (c.step m).stage.now = c.stage.now := by
      rw [hstep]
      exact (Convoy.poll_acts hp).frame.now
    by_cases hwaits : ∀ r, .busy r ∈ rides → r.Waits c.stage.now
    · -- all rides wait, and so does the call
      obtain ⟨rfl, rfl⟩ := Convoy.poll_of_waits hwaits hp
      have hturn : c.stage.turn ≠ 0 := by rw [h.turn]; decide
      rw [← h.phase, Function.update_eq_self] at hphases
      refine remaining_lt_of_bustle hnow (.inr ⟨?_, ?_⟩)
      · unfold bustle
        rw [hphases, hstep]
        rfl
      · rw [hstep]
        show 2 * (if c.stage.turn = 0 then c.yielded ++ [id] else c.yielded).length
          + c.ready.tail.length < 2 * c.yielded.length + c.ready.length
        rw [if_neg hturn, hready]
        exact Nat.lt_succ_self _
    · -- one of the rides that do not wait comes nearer to that
      push Not at hwaits
      obtain ⟨r, hr, hrest⟩ := hwaits
      exact remaining_lt_of_restless hnow
        (Convoy.restless_lt (by rw [h.turn]; decide) hframe hr hrest (congrArg Prod.snd hp))
  · -- a step that comes to a result is no longer executed
    exfalso
    obtain ⟨_, _, ⟨hbusy, _⟩ | ⟨hresult, _⟩⟩ := h.track.poll hms.starts hms.frame hms.distinct hp
    · cases hbusy
    · obtain rfl := Progress.finished.inj hresult
      have hpoll : (Activity.animating rides).poll c.stage = (s, .finished (.ok .advance)) := by
        rw [Activity.poll, Activity.pollConvoy, hp]
      have hstep : c.step m = { c with stage := s }.endStep m id who index .advance := by
        rw [step_of_ready hready h.phase, advance, hpoll]
      have hpresent : (phase? { c with stage := s } id).isSome := by
        show (c.phase? id).isSome
        rw [h.phase]
        rfl
      have hended := (endStep_ends (m := m) hpresent who index .advance).1 index
      rw [← hstep] at hended
      exact hended h'.executes

/-- A small step, of whomever it is, leaves less to do. -/
theorem Underway.nearer_of_step (h : Underway ms b id index who rides c) (hms : Launches ms b)
    (hreach : c.Reachable m) (hquiet : ¬ c.quiet) {rides' : Convoy}
    (h' : Underway ms b id index who rides' (c.step m)) :
    remaining b rides' (c.step m) < remaining b rides c := by
  rcases hready : c.ready with - | ⟨j, rest⟩
  · -- those who have let others go first come nearer to their turns
    have hstep : c.step m = _ := step_of_idle hready
    obtain rfl : rides = rides' := h'.rides_eq (by rw [hstep]; exact h.phase)
    have hyielded : c.yielded ≠ [] := fun hnil => hquiet (by simp [quiet, hready, hnil])
    have hpos := List.length_pos_of_ne_nil hyielded
    rw [hstep]
    refine remaining_lt_of_bustle rfl (.inr ⟨rfl, ?_⟩)
    show 2 * 0 + c.yielded.length < 2 * c.yielded.length + c.ready.length
    omega
  · by_cases hj : j = id
    · subst hj
      exact h.nearer_of_visit hms hready h'
    · -- somebody else gets in line
      have hyields : Yields c (c.step m) j := h.yields hreach.ordered hready hj
      obtain rfl : rides = rides' := h'.rides_eq ((hyields.others id (Ne.symm hj)).trans h.phase)
      refine remaining_lt_of_bustle hyields.stage.now
        (hyields.bustle.imp_right fun hline => ⟨hline.1, ?_⟩)
      rw [hyields.yielded, hline.2, hready]
      exact Nat.lt_succ_self _

/-- A step that nobody disturbs comes nearer to its end. -/
theorem Underway.nearer (h : Underway ms b id index who rides c) (hms : Launches ms b)
    (hreach : c.Reachable m) : ∃ c', Undisturbed m c c' ∧ (Arrived ms b id index c' ∨
      ∃ rides', Underway ms b id index who rides' c' ∧
        remaining b rides' c' < remaining b rides c) := by
  by_cases hquiet : c.quiet = true
  · obtain ⟨a, -, hlt, hdue, hrides⟩ := h.first hreach hquiet
    have htick : Undisturbed m c (c.tick a.due) := .tick hquiet hdue
    refine ⟨c.tick a.due, htick, (h.move hms hreach htick.gentle).symm.imp_right ?_⟩
    rintro ⟨rides', h'⟩
    refine ⟨rides', h', Prod.Lex.toLex_lt_toLex.2 (.inl ?_)⟩
    -- the next frame is one of those that begin before the longest animation is over
    obtain ⟨r, hr⟩ := h.busy
    obtain ⟨a', ha', -, hle⟩ := hrides r hr
    obtain ⟨i, hi⟩ := List.mem_iff_getElem?.1 hr
    have hlength : i < ms.length := h.track.length ▸ (List.getElem?_eq_some_iff.1 hi).1
    have hlate := (h.track.rides i _ _ (List.getElem?_eq_getElem hlength) hi).due_le hms.frame ha'
    rw [(hms.starts _ (List.getElem_mem hlength)).start] at hlate
    have hnow : (c.tick a.due).stage.now = a.due := by
      obtain ⟨ready, hready⟩ := c.tick_eq a.due
      rw [hready]
    show _ - (c.tick a.due).stage.now < _ - c.stage.now
    rw [hnow]
    omega
  · refine ⟨c.step m, .step, (h.move hms hreach .step).symm.imp_right ?_⟩
    rintro ⟨rides', h'⟩
    exact ⟨rides', h', h.nearer_of_step hms hreach hquiet h'⟩

/-- **A step that nobody disturbs comes to its end.** -/
theorem Underway.ends (h : Underway ms b id index who rides c) (hms : Launches ms b)
    (hreach : c.Reachable m) : ∃ c', ReflTransGen (fun c c' => c.Executes id index ∧
      Undisturbed m c c') c c' ∧ Arrived ms b id index c' := by
  induction hleft : remaining b rides c using WellFoundedLT.induction generalizing c rides with
  | ind n ih =>
    obtain ⟨c₁, hmove, harrived | ⟨rides', h', hlt⟩⟩ := h.nearer hms hreach
    · exact ⟨c₁, .single ⟨h.executes, hmove⟩, harrived⟩
    · obtain ⟨c', hmoves, harrived⟩ := ih _ (hleft ▸ hlt) h' (hreach.move hmove.move) rfl
      exact ⟨c', .head ⟨h.executes, hmove⟩ hmoves, harrived⟩

end Config

end Timeline
