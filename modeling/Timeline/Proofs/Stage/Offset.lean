/-
Timeline/Proofs/Stage/Offset.lean

Stages that are alike but for their counters.

A stage that has been in use differs from a new one in counters that nobody can look
at: how many alarms were set, how often each target was claimed, how often each
function was called; its clock has moved on, and its journal has a past.  An `Offset`
says how far the counters of one stage are ahead of those of another one, and
`Stage.Mirrors` that nothing else tells the two apart.

Main result (`Stage.Mirrors.pollActivity`, `.pollConvoy`): whoever goes on on either
stage does the same, at times that differ by the offset, if called functions do not
mind how often they were called.
-/
import Timeline.Proofs.Stage.Courses

namespace Timeline

open Stage

/-! ### Offsets -/

/-- How far the counters of one stage are ahead of those of another one. -/
structure Offset where
  time : Nat
  tickets : Nat
  /-- The number of calls that were issued before. -/
  calls : Nat
  /-- The number of calls to stop before. -/
  epoch : Nat
  /-- How often every target was claimed before. -/
  generation : String → Nat
  /-- What was recorded before, the latest first. -/
  past : List Record

/-- The same event, of calls with other numbers. -/
def Event.mapCalls (f : Nat → Nat) : Event → Event
  | began call index => began (f call) index
  | ended call index flow => ended (f call) index flow
  | failed call index e => failed (f call) index e
  | parked call => parked (f call)
  | released call holder release => released (f call) (f holder) release
  | restarted call => restarted (f call)
  | rewound call => rewound (f call)
  | returned call result => returned (f call) result
  | e => e

/-- What goes on, with its state put in other terms. -/
def Progress.map {σ τ ρ : Type} (f : σ → τ) : Progress σ ρ → Progress τ ρ
  | busy state => busy (f state)
  | finished result => finished result

namespace Offset

variable (d : Offset) {α : Type}

/-- The number of the same call. -/
def call (id : Nat) : Nat :=
  id + d.calls

/-- The alarm of the later stage. -/
def alarm (a : Alarm) : Alarm :=
  ⟨a.due + d.time, a.ticket + d.tickets, a.isSet⟩

/-- The record in the later journal. -/
def record (r : Record) : Record :=
  ⟨r.time + d.time, r.index, r.event.mapCalls d.call⟩

/-- The slot of a target that was claimed before. -/
def slot (target : String) (s : Slot α) : Slot α :=
  ⟨s.value, s.generation + d.generation target⟩

/-- The course on the later stage. -/
def course : Course α → Course α
  | .ahead work => .ahead work
  | .asleep alarm inner rest => .asleep (d.alarm alarm) inner rest

/-- The motion on the later stage. -/
def motion (m : Motion α) : Motion α :=
  { m with generation := m.generation + d.generation m.target, start := m.start + d.time }

/-- The ride on the later stage. -/
def ride : Ride → Ride
  | .ahead target animation => .ahead target animation
  | .moving m next => .moving (d.motion m) (d.alarm next)

/-- The rides on the later stage. -/
def convoy (c : Convoy) : Convoy :=
  c.map (Progress.map d.ride)

/-- The activity on the later stage. -/
def activity : Activity → Activity
  | .working course => .working (d.course course)
  | .preparing tweens => .preparing (tweens.map (Progress.map d.course))
  | .animating convoy => .animating (d.convoy convoy)
  | .holding release => .holding release

end Offset

/-! ### Alarms -/

namespace Offset

variable (d : Offset)

theorem before_alarm (a b : Alarm) : (d.alarm a).before (d.alarm b) = a.before b := by
  rw [Bool.eq_iff_iff]
  simp [Alarm.before, alarm]

/-- The same alarm is the first one. -/
theorem first?_map (alarms : List Alarm) :
    Alarm.first? (alarms.map d.alarm) = (Alarm.first? alarms).map d.alarm := by
  induction alarms with
  | nil => rfl
  | cons a rest ih =>
    rw [List.map_cons, Alarm.first?, Alarm.first?, ih]
    rcases Alarm.first? rest with - | b
    · rfl
    · simp only [Option.map_some, before_alarm]
      split <;> rfl

theorem alarm?_course {α : Type} (c : Course α) :
    (d.course c).alarm? = c.alarm?.map d.alarm := by
  cases c <;> rfl

theorem alarm?_ride (r : Ride) : (d.ride r).alarm? = r.alarm?.map d.alarm := by
  cases r <;> rfl

/-- The alarms of a join. -/
theorem alarms_join {σ ρ : Type} {f : σ → σ} {alarm? : σ → Option Alarm}
    (h : ∀ state, alarm? (f state) = (alarm? state).map d.alarm) (j : Join σ ρ) :
    Join.alarms alarm? (j.map (Progress.map f)) = (Join.alarms alarm? j).map d.alarm := by
  unfold Join.alarms
  rw [List.filterMap_map, List.map_filterMap]
  congr 1
  funext p
  cases p with
  | busy state => exact h state
  | finished result => rfl

theorem alarms_convoy (c : Convoy) : (d.convoy c).alarms = c.alarms.map d.alarm :=
  d.alarms_join d.alarm?_ride c

theorem alarms_activity (a : Activity) : (d.activity a).alarms = a.alarms.map d.alarm := by
  cases a with
  | working course =>
    show (d.course course).alarm?.toList = _
    rw [alarm?_course]
    cases h : course.alarm? <;> simp [Activity.alarms, h]
  | preparing tweens => exact d.alarms_join d.alarm?_course tweens
  | animating convoy => exact d.alarms_convoy convoy
  | holding release => rfl

end Offset

/-! ### Drivers -/

/-- Drivers that hold the same values, of which one has seen more claims. -/
structure Driver.Mirrors (d : Offset) (x x' : Driver Float) : Prop where
  frame : x'.frame = x.frame
  slots : ∀ target, x'.slots.get? target = (x.slots.get? target).map (d.slot target)

namespace Driver.Mirrors

variable {d : Offset} {x x' : Driver Float}

theorem get? (h : Mirrors d x x') (target : String) : x'.get? target = x.get? target := by
  rw [Driver.get?, h.slots, Option.map_map]
  rfl

theorem put (h : Mirrors d x x') (target : String) (slot : Slot Float) :
    Mirrors d { x with slots := x.slots.put target slot }
      { x' with slots := x'.slots.put target (d.slot target slot) } where
  frame := h.frame
  slots other := by
    rw [Table.get?_put, Table.get?_put, h.slots]
    split
    · rename_i heq
      rw [heq]
      rfl
    · rfl

theorem claim? (h : Mirrors d x x') (target : String) :
    Option.Rel (fun p p' => p'.1 = d.slot target p.1 ∧ Mirrors d p.2 p'.2)
      (x.claim? target) (x'.claim? target) := by
  rw [Driver.claim?, Driver.claim?, h.slots]
  rcases x.slots.get? target with - | slot
  · exact .none
  · have hslot : d.slot target ⟨slot.value, slot.generation + 1⟩
        = ⟨slot.value, slot.generation + d.generation target + 1⟩ := by
      rw [Offset.slot, Nat.add_right_comm]
    refine .some ⟨hslot.symm, ?_⟩
    have hput := h.put target ⟨slot.value, slot.generation + 1⟩
    rw [hslot] at hput
    exact hput

theorem write? (h : Mirrors d x x') (target : String) (value : Float) (generation : Nat) :
    Option.Rel (Mirrors d) (x.write? target value generation)
      (x'.write? target value (generation + d.generation target)) := by
  rw [Driver.write?, Driver.write?, h.slots]
  rcases x.slots.get? target with - | slot
  · exact .none
  · show Option.Rel _ (if slot.generation = generation then _ else _)
      (if slot.generation + d.generation target = generation + d.generation target then _ else _)
    simp only [Nat.add_right_cancel_iff]
    split
    · exact .some (h.put target ⟨value, generation⟩)
    · exact .none

theorem set? (h : Mirrors d x x') (target : String) (value : Float) :
    Option.Rel (Mirrors d) (x.set? target value) (x'.set? target value) := by
  have hclaim := h.claim? target
  rw [Driver.set?, Driver.set?]
  generalize x.claim? target = p, x'.claim? target = p' at hclaim
  cases hclaim with
  | none => exact .none
  | @some p p' hp =>
    obtain ⟨slot, y⟩ := p
    obtain ⟨slot', y'⟩ := p'
    obtain ⟨rfl, hy⟩ := hp
    exact hy.write? target value slot.generation

end Driver.Mirrors

/-! ### Registries -/

namespace Registry

/-- The same functions under the same names. -/
def Alike (r r' : Registry) : Prop :=
  ∀ name, (r'.functions.get? name).map Registered.handler
    = (r.functions.get? name).map Registered.handler

/-- No function minds how often it was called. -/
def Stateless (r : Registry) : Prop :=
  ∀ name f, r.functions.get? name = some f → ∀ n n', f.handler n = f.handler n'

theorem Alike.call? {r r' : Registry} (h : r.Alike r') (hstateless : r.Stateless) (name : String)
    (arg : Option Json) :
    Option.Rel (fun p p' => p'.1 = p.1 ∧ p.2.Alike p'.2 ∧ p.2.Stateless)
      (r.call? name arg) (r'.call? name arg) := by
  have hname := h name
  rw [Registry.call?, Registry.call?]
  rcases hf : r.functions.get? name with - | f <;>
    rcases hf' : r'.functions.get? name with - | f' <;> rw [hf, hf'] at hname
  · exact .none
  · cases hname
  · cases hname
  · have hhandler : f'.handler = f.handler := Option.some.inj hname
    refine .some ⟨?_, fun other => ?_, fun other g hg => ?_⟩
    · show f'.handler (f'.calls + 1) arg = f.handler (f.calls + 1) arg
      rw [hhandler, hstateless name f hf (f'.calls + 1) (f.calls + 1)]
    · show ((r'.functions.put name _).get? other).map _ = ((r.functions.put name _).get? other).map _
      rw [Table.get?_put, Table.get?_put]
      split
      · exact congrArg some hhandler
      · exact h other
    · change (r.functions.put name _).get? other = some g at hg
      rw [Table.get?_put] at hg
      split at hg
      · cases hg
        exact hstateless name f hf
      · exact hstateless other g hg

end Registry

/-! ### Stages -/

/-- The later stage is as the earlier one, but for counters that are ahead. -/
structure Stage.Mirrors (d : Offset) (s s' : Stage) : Prop where
  now : s'.now = s.now + d.time
  driver : s.driver.Mirrors d s'.driver
  functions : s.functions.Alike s'.functions
  stateless : s.functions.Stateless
  position : s'.position = s.position
  tickets : s'.tickets = s.tickets + d.tickets
  turn : s'.turn = s.turn
  journal : s'.journal = s.journal.map d.record ++ d.past

/-- What an alarm comes to on either stage. -/
inductive Offset.Waits (d : Offset) : Option Alarm × Stage → Option Alarm × Stage → Prop
  | spent {s s' : Stage} : s.Mirrors d s' → Waits d (none, s) (none, s')
  | waits {a : Alarm} {s s' : Stage} : s.Mirrors d s' → Waits d (some a, s) (some (d.alarm a), s')

/-- What somebody who goes on comes to on either stage. -/
inductive Offset.Goes (d : Offset) {σ ρ : Type} (f : σ → σ) :
    Stage × Progress σ ρ → Stage × Progress σ ρ → Prop
  | busy {state : σ} {s s' : Stage} : s.Mirrors d s' →
      Goes d f (s, .busy state) (s', .busy (f state))
  | finished {result : ρ} {s s' : Stage} : s.Mirrors d s' →
      Goes d f (s, .finished result) (s', .finished result)

namespace Stage.Mirrors

variable {d : Offset} {s s' : Stage}

theorem note (h : Mirrors d s s') (e : Event) :
    Mirrors d (s.note e) (s'.note (e.mapCalls d.call)) :=
  { h with
    journal := by
      show (⟨s'.now, s'.position.index, _⟩ : Record) :: s'.journal = _
      rw [h.now, h.position, h.journal]
      rfl }

theorem nextTurn (h : Mirrors d s s') : Mirrors d s.nextTurn s'.nextTurn :=
  { h with turn := rfl }

theorem spend (h : Mirrors d s s') : Mirrors d s.spend s'.spend :=
  { h with turn := congrArg (· - 1) h.turn }

theorem publish (h : Mirrors d s s') (position : Position) :
    Mirrors d (s.publish position) (s'.publish position) := by
  have hat : Mirrors d { s with position } { s' with position } := { h with position := rfl }
  exact hat.note (.published position)

/-- The alarm is set at the same time, and after the same others. -/
theorem setAlarm (h : Mirrors d s s') {a a' : Alarm} (hdue : a'.due = a.due + d.time) :
    (s'.setAlarm a').1 = d.alarm (s.setAlarm a).1 ∧
      Mirrors d (s.setAlarm a).2 (s'.setAlarm a').2 := by
  constructor
  · show (⟨a'.due, s'.tickets, 0 < s'.turn⟩ : Alarm) = _
    rw [hdue, h.tickets, h.turn]
    rfl
  · refine { h with tickets := ?_ }
    show s'.tickets + 1 = s.tickets + 1 + d.tickets
    rw [h.tickets, Nat.add_right_comm]

/-- An alarm goes off on either stage, or on none.  An alarm that is still to be set has no ticket
to compare. -/
theorem await (h : Mirrors d s s') {a a' : Alarm} (hdue : a'.due = a.due + d.time)
    (hset : a'.isSet = a.isSet) (hsame : a.isSet = true → a' = d.alarm a) :
    d.Waits (s.await a) (s'.await a') := by
  have hcome : a'.due ≤ s'.now ↔ a.due ≤ s.now := by
    rw [hdue, h.now, Nat.add_le_add_iff_right]
  have hahead : s'.now < a'.due ↔ s.now < a.due := by
    rw [hdue, h.now, Nat.add_lt_add_iff_right]
  unfold Stage.await
  simp only [hcome, hahead, hset, h.turn]
  split
  · exact .spent h.spend
  · split
    · rename_i hwaits
      rw [hsame (Bool.and_eq_true .. ▸ hwaits).2]
      exact .waits h
    · obtain ⟨halarm, hafter⟩ := h.setAlarm hdue
      rw [halarm]
      exact .waits hafter

theorem await_alarm (h : Mirrors d s s') (a : Alarm) : d.Waits (s.await a) (s'.await (d.alarm a)) :=
  h.await rfl rfl fun _ => rfl

theorem due_alarmAfter (h : Mirrors d s s') (time : Duration) :
    (s'.alarmAfter time).due = (s.alarmAfter time).due + d.time := by
  show s'.now + _ = s.now + _ + d.time
  rw [h.now, Nat.add_right_comm]

theorem await_alarmAfter (h : Mirrors d s s') (time : Duration) :
    d.Waits (s.await (s.alarmAfter time)) (s'.await (s'.alarmAfter time)) :=
  h.await (h.due_alarmAfter time) rfl fun hset => (nomatch hset)

theorem withDriver (h : Mirrors d s s') {x x' : Driver Float} (hx : x.Mirrors d x') :
    Mirrors d { s with driver := x } { s' with driver := x' } :=
  { h with driver := hx }

theorem set (h : Mirrors d s s') (target : String) (value : Float) :
    (s'.set target value).1 = (s.set target value).1 ∧
      Mirrors d (s.set target value).2 (s'.set target value).2 := by
  have hset := h.driver.set? target value
  unfold Stage.set
  generalize s.driver.set? target value = x, s'.driver.set? target value = x' at hset
  cases hset with
  | none => exact ⟨rfl, h⟩
  | some hx => exact ⟨rfl, (h.withDriver hx).note (.wrote target value)⟩

/-- The same function is called on either stage. -/
theorem call? (h : Mirrors d s s') (name : String) (arg : Option Json) :
    Option.Rel (fun p p' => p'.1 = p.1 ∧ Mirrors d p.2 p'.2) (s.call? name arg)
      (s'.call? name arg) := by
  have hcall := h.functions.call? h.stateless name arg
  unfold Stage.call?
  generalize s.functions.call? name arg = x, s'.functions.call? name arg = x' at hcall
  cases hcall with
  | none => exact .none
  | @some p p' hp =>
    obtain ⟨hbody, halike, hstateless⟩ := hp
    have hcounted : Mirrors d { s with functions := p.2 } { s' with functions := p'.2 } :=
      { h with functions := halike, stateless := hstateless }
    exact .some ⟨hbody, hcounted.note (.called name arg)⟩

/-! ### Courses -/

theorem run (h : Mirrors d s s') (body : Routine) :
    d.Goes (fun p => (d.alarm p.1, p.2)) (body.run s) (body.run s') := by
  induction body generalizing s s' with
  | done result => exact .finished h
  | sleep time rest ih =>
    have hwaits := h.await_alarmAfter time
    simp only [Routine.run]
    generalize s.await (s.alarmAfter time) = x, s'.await (s'.alarmAfter time) = x' at hwaits
    cases hwaits with
    | spent hs => exact ih hs
    | waits hs => exact .busy hs
  | write target value rest ih => exact ih (h.set target value).2
  | read target rest ih =>
    simp only [Routine.run]
    rw [h.driver.get?]
    exact ih _ h

/-- A called function does the same on either stage, and so does what comes after it. -/
theorem perform_run {α : Type} (h : Mirrors d s s') (body : Routine) {rest : Json → Work α}
    (ih : ∀ v {s s' : Stage}, Mirrors d s s' →
      d.Goes d.course ((rest v).perform s) ((rest v).perform s')) :
    d.Goes d.course ((Work.run body rest).perform s) ((Work.run body rest).perform s') := by
  have hrun := h.run body
  simp only [Work.perform]
  generalize body.run s = x, body.run s' = x' at hrun
  cases hrun with
  | busy hs => exact .busy hs
  | @finished result _ _ hs =>
    cases result with
    | ok v => exact ih v hs
    | error e => exact .finished hs

theorem perform {α : Type} (h : Mirrors d s s') (work : Work α) :
    d.Goes d.course (work.perform s) (work.perform s') := by
  induction work generalizing s s' with
  | done result => exact .finished h
  | fail e => exact .finished h
  | sleep time rest ih =>
    have hwaits := h.await_alarmAfter time
    simp only [Work.perform]
    generalize s.await (s.alarmAfter time) = x, s'.await (s'.alarmAfter time) = x' at hwaits
    cases hwaits with
    | spent hs => exact ih hs
    | waits hs => exact .busy hs
  | look target rest ih =>
    simp only [Work.perform]
    rw [h.driver.get?]
    exact ih _ h
  | set target value rest ih =>
    obtain ⟨hknown, hset⟩ := h.set target value
    simp only [Work.perform]
    rw [hknown]
    have hnoted := hset.note (.set target value (s.set target value).1)
    split
    · exact ih hnoted
    · exact .finished hnoted
  | vibrate rest ih => exact ih (h.note .vibrated)
  | call name arg rest ih =>
    have hcall := h.call? name arg
    simp only [Work.perform]
    generalize s.call? name arg = x, s'.call? name arg = x' at hcall
    cases hcall with
    | none => exact .finished (h.note (.missed name))
    | @some p p' hp =>
      obtain ⟨body, t⟩ := p
      obtain ⟨body', t'⟩ := p'
      obtain ⟨rfl, ht⟩ := hp
      have hbody := ht.perform_run body' fun v => ih v
      simp only [Work.perform] at hbody
      exact hbody
  | run body rest ih => exact h.perform_run body fun v => ih v

theorem pollCourse {α : Type} (h : Mirrors d s s') (c : Course α) :
    d.Goes d.course (c.poll s) ((d.course c).poll s') := by
  cases c with
  | ahead work => exact h.perform work
  | asleep alarm inner rest =>
    have hwaits := h.await_alarm alarm
    simp only [Course.poll, Offset.course]
    generalize s.await alarm = x, s'.await (d.alarm alarm) = x' at hwaits
    cases hwaits with
    | spent hs => exact hs.perform _
    | waits hs => exact .busy hs

/-! ### Rides -/

theorem valueAt (h : Mirrors d s s') (m : Motion Float) :
    (d.motion m).valueAt s'.now = m.valueAt s.now := by
  have helapsed : s'.now - (m.start + d.time) = s.now - m.start := by
    rw [h.now, Nat.add_sub_add_right]
  simp only [Motion.valueAt, Offset.motion, helapsed]

theorem report (h : Mirrors d s s') (recorded : Bool) {e : Event} (he : e.mapCalls d.call = e) :
    Mirrors d (Ride.report recorded s e) (Ride.report recorded s' e) := by
  cases recorded with
  | false => exact h
  | true =>
    have hnoted := h.note e
    rw [he] at hnoted
    exact hnoted

/-- The next frame is due at the same time. -/
theorem due_nextFrame (h : Mirrors d s s') (m : Motion Float) :
    (d.motion m).nextFrame s'.driver.frame s'.now = m.nextFrame s.driver.frame s.now + d.time := by
  have helapsed : s'.now - (m.start + d.time) = s.now - m.start := by
    rw [h.now, Nat.add_sub_add_right]
  rw [Motion.nextFrame, Motion.nextFrame, h.driver.frame]
  show s'.now + (s.driver.frame.rest (.ofMillis (s'.now - (m.start + d.time)))).ceilMillis = _
  rw [helapsed, h.now, Nat.add_right_comm]

theorem nextFrame (h : Mirrors d s s') (m : Motion Float) {next next' : Alarm × Stage}
    (hnext : next = s.setAlarm { due := m.nextFrame s.driver.frame s.now })
    (hnext' : next' = s'.setAlarm { due := (d.motion m).nextFrame s'.driver.frame s'.now }) :
    d.Goes d.ride (ρ := Except StepError Unit) (next.2, .busy (.moving m next.1))
      (next'.2, .busy (.moving (d.motion m) next'.1)) := by
  obtain ⟨halarm, hset⟩ := h.setAlarm
    (show (⟨(d.motion m).nextFrame s'.driver.frame s'.now, 0, false⟩ : Alarm).due
      = (⟨m.nextFrame s.driver.frame s.now, 0, false⟩ : Alarm).due + d.time from h.due_nextFrame m)
  rw [← hnext, ← hnext'] at halarm hset
  rw [halarm]
  exact .busy hset

theorem write (h : Mirrors d s s') (recorded : Bool) (m : Motion Float) :
    d.Goes d.ride (Ride.write recorded m s) (Ride.write recorded (d.motion m) s') := by
  have hframe : Option.Rel (Driver.Mirrors d) (m.frame? s.driver s.now)
      ((d.motion m).frame? s'.driver s'.now) := by
    rw [Motion.frame?, Motion.frame?, h.valueAt]
    exact h.driver.write? m.target (m.valueAt s.now).1 m.generation
  unfold Ride.write
  rw [h.valueAt]
  generalize m.frame? s.driver s.now = x, (d.motion m).frame? s'.driver s'.now = x' at hframe
  cases hframe with
  | none => exact .finished (h.report recorded rfl)
  | @some y y' hy =>
    have hnoted := (h.withDriver hy).note (.wrote m.target (m.valueAt s.now).1)
    dsimp only
    split
    · exact .finished (hnoted.report recorded rfl)
    · exact hnoted.nextFrame m rfl rfl

theorem frame (recorded : Bool) (m : Motion Float) {a a' : Alarm}
    (hwaits : d.Waits (s.await a) (s'.await a')) :
    d.Goes d.ride (Ride.frame recorded m a s) (Ride.frame recorded (d.motion m) a' s') := by
  simp only [Ride.frame]
  generalize s.await a = x, s'.await a' = x' at hwaits
  cases hwaits with
  | spent hs => exact hs.write recorded m
  | waits hs => exact .busy hs

theorem pollRide (h : Mirrors d s s') (recorded : Bool) (r : Ride) :
    d.Goes d.ride (r.poll recorded s) ((d.ride r).poll recorded s') := by
  cases r with
  | moving m next => exact frame recorded m (h.await_alarm next)
  | ahead target animation =>
    have hreported := h.report recorded (e := .animate target animation) rfl
    simp only [Ride.poll, Offset.ride, Driver.launch?]
    generalize Ride.report recorded s _ = t, Ride.report recorded s' _ = t' at hreported
    have hclaim := hreported.driver.claim? target
    generalize t.driver.claim? target = x, t'.driver.claim? target = x' at hclaim
    cases hclaim with
    | none => exact .finished (hreported.report recorded rfl)
    | @some p p' hp =>
      obtain ⟨slot, y⟩ := p
      obtain ⟨slot', y'⟩ := p'
      obtain ⟨rfl, hy⟩ := hp
      have hlaunched := hreported.withDriver hy
      have hmotion : d.motion ⟨target, animation, slot.value, slot.generation, t.now⟩
          = ⟨target, animation, slot.value, slot.generation + d.generation target, t'.now⟩ := by
        rw [hreported.now]
        rfl
      simp only [Option.map_some]
      show d.Goes d.ride _ (if _ then Ride.write recorded
        ⟨target, animation, slot.value, slot.generation + d.generation target, t'.now⟩ _ else _)
      split
      · rw [← hmotion]
        exact hlaunched.write recorded _
      · show d.Goes d.ride _ (Ride.frame recorded
          ⟨target, animation, slot.value, slot.generation + d.generation target, t'.now⟩ _ _)
        rw [← hmotion]
        exact frame recorded _ (hlaunched.await_alarmAfter .zero)

/-! ### Joins -/

section Join

variable {σ ρ : Type} {f : σ → σ} {pollOne : σ → Stage → Stage × Progress σ (Except StepError ρ)}
  {alarm? : σ → Option Alarm}

theorem failure?_map (large : Bool) (j : Join σ ρ) :
    Join.failure? large (j.map (Progress.map f)) = Join.failure? large j := by
  induction j with
  | nil => rfl
  | cons p rest ih =>
    rcases p with state | (e | r)
    · show (if large = true then none else _) = if large = true then none else _
      rw [ih]
    · rfl
    · exact ih

theorem results?_map (j : Join σ ρ) : Join.results? (j.map (Progress.map f)) = j.results? := by
  induction j with
  | nil => rfl
  | cons p rest ih =>
    rcases p with state | (e | r)
    · rfl
    · rfl
    · exact congrArg (Option.map _) ih

/-- The same members of a join can go on, in the same order. -/
theorem woken_map (h : Mirrors d s s')
    (halarm : ∀ state, alarm? (f state) = (alarm? state).map d.alarm) (j : Join σ ρ) :
    Join.woken alarm? s'.now (j.map (Progress.map f)) = Join.woken alarm? s.now j := by
  -- the tickets of the later members
  let later (a : Option Nat × Nat) : Option Nat × Nat := (a.1.map (· + d.tickets), a.2)
  unfold Join.woken
  dsimp only
  rw [List.zipIdx_map, List.filterMap_map]
  have hable (able able' : List (Option Nat × Nat)) (hable : able' = able.map later) :
      (able'.mergeSort fun a b => a.1.all fun x => b.1.any fun y => x ≤ y).map Prod.snd
        = (able.mergeSort fun a b => a.1.all fun x => b.1.any fun y => x ≤ y).map Prod.snd := by
    rw [hable, ← List.map_mergeSort (r := fun a b => a.1.all fun x => b.1.any fun y => x ≤ y)]
    · rw [List.map_map]
      rfl
    · rintro ⟨_ | x, i⟩ - ⟨_ | y, k⟩ - <;> simp [later]
  refine hable _ _ ?_
  rw [List.map_filterMap]
  congr 1
  funext ⟨p, i⟩
  rcases p with state | result
  · simp only [Function.comp_apply, Prod.map_apply, Progress.map, halarm]
    rcases alarm? state with - | a
    · rfl
    · simp only [Option.map_some]
      show (if a.due + d.time ≤ s'.now || !a.isSet then _ else _) = Option.map _ (if _ then _ else _)
      rw [h.now]
      simp only [Nat.add_le_add_iff_right]
      split <;> rfl
  · rfl

theorem visit (hpoll : ∀ state {s s' : Stage}, Mirrors d s s' →
      d.Goes f (pollOne state s) (pollOne (f state) s'))
    (large : Bool) (order : List Nat) (h : Mirrors d s s') (j : Join σ ρ) :
    Mirrors d (Join.visit pollOne large order j s).1
        (Join.visit pollOne large order (j.map (Progress.map f)) s').1 ∧
      (Join.visit pollOne large order (j.map (Progress.map f)) s').2
        = (Join.visit pollOne large order j s).2.map (Progress.map f) := by
  induction order generalizing j s s' with
  | nil => exact ⟨h, rfl⟩
  | cons i rest ih =>
    simp only [Join.visit, List.getElem?_map]
    rcases j[i]? with - | (state | result)
    · exact ih h j
    · have hgoes := hpoll state h
      simp only [Option.map_some, Progress.map]
      generalize pollOne state s = x, pollOne (f state) s' = x' at hgoes
      cases hgoes with
      | @busy state' _ _ hs =>
        have hset := ih hs (j.set i (.busy state'))
        rw [List.map_set] at hset
        exact hset
      | @finished result _ _ hs =>
        have hset : (j.map (Progress.map f)).set i (.finished result)
            = (j.set i (.finished result)).map (Progress.map f) := by
          rw [List.map_set]
          rfl
        dsimp only
        rw [hset, failure?_map]
        split
        · exact ⟨hs, rfl⟩
        · exact ih hs _
    · exact ih h j

theorem pollJoin (hpoll : ∀ state {s s' : Stage}, Mirrors d s s' →
      d.Goes f (pollOne state s) (pollOne (f state) s'))
    (halarm : ∀ state, alarm? (f state) = (alarm? state).map d.alarm)
    (h : Mirrors d s s') (j : Join σ ρ) :
    d.Goes (List.map (Progress.map f)) (Join.poll pollOne alarm? j s)
      (Join.poll pollOne alarm? (j.map (Progress.map f)) s') := by
  have hlarge : Join.isLarge (j.map (Progress.map f)) = j.isLarge := by
    rw [Join.isLarge, Join.isLarge, List.length_map]
  unfold Join.poll
  rw [hlarge, h.woken_map halarm, List.length_map]
  obtain ⟨hs, hmembers⟩ := visit hpoll j.isLarge
    (if j.isLarge then j.woken alarm? s.now else List.range j.length) h j
  dsimp only
  rw [hmembers, failure?_map, results?_map]
  split
  · exact .finished hs
  · exact .finished hs
  · exact .busy hs

end Join

theorem pollConvoy (h : Mirrors d s s') (recorded : Bool) (c : Convoy) :
    d.Goes d.convoy (c.poll recorded s) ((d.convoy c).poll recorded s') := by
  have hpoll := pollJoin (fun state {_ _} hs => pollRide hs recorded state) d.alarm?_ride h c
  unfold Convoy.poll Offset.convoy
  generalize Join.poll (Ride.poll recorded) Ride.alarm? c s = x,
    Join.poll (Ride.poll recorded) Ride.alarm? (List.map (Progress.map d.ride) c) s' = x' at hpoll
  cases hpoll with
  | busy hs => exact .busy hs
  | finished hs => exact .finished hs

/-! ### Activities -/

theorem pollActivity (h : Mirrors d s s') (a : Activity) :
    d.Goes d.activity (a.poll s) ((d.activity a).poll s') := by
  have hconvoy {s s' : Stage} (h : Mirrors d s s') (c : Convoy) :
      d.Goes d.activity (Activity.pollConvoy c s) (Activity.pollConvoy (d.convoy c) s') := by
    have hpoll := h.pollConvoy true c
    unfold Activity.pollConvoy
    generalize c.poll true s = x, (d.convoy c).poll true s' = x' at hpoll
    cases hpoll with
    | busy hs => exact .busy hs
    | @finished result _ _ hs =>
      cases result with
      | ok _ => exact .finished hs
      | error e => exact .finished hs
  cases a with
  | working course =>
    have hpoll := h.pollCourse course
    simp only [Activity.poll, Offset.activity]
    generalize course.poll s = x, (d.course course).poll s' = x' at hpoll
    cases hpoll with
    | busy hs => exact .busy hs
    | finished hs => exact .finished hs
  | preparing tweens =>
    have hpoll := pollJoin (fun state {_ _} hs => pollCourse hs state) d.alarm?_course h tweens
    simp only [Activity.poll, Offset.activity]
    generalize Join.poll Course.poll Course.alarm? tweens s = x,
      Join.poll Course.poll Course.alarm? (tweens.map (Progress.map d.course)) s' = x' at hpoll
    cases hpoll with
    | busy hs => exact .busy hs
    | @finished result _ _ hs =>
      cases result with
      | ok batch =>
        have hbatch : d.convoy (.ofBatch batch) = .ofBatch batch := by
          simp [Offset.convoy, Convoy.ofBatch, Progress.map, Offset.ride]
        have hmoves := hconvoy hs (.ofBatch batch)
        rw [hbatch] at hmoves
        exact hmoves
      | error e => exact .finished hs
  | animating convoy => exact hconvoy h convoy
  | holding release =>
    cases release with
    | none => exact .busy h
    | some release => exact .finished h.spend

end Stage.Mirrors

end Timeline
