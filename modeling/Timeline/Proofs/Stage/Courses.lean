/-
Timeline/Proofs/Stage/Courses.lean

What a visit to something that is under way comes to.

`Work.Meets B Q` says that some work keeps within the bounds `B` and that every
result it may come to has the property `Q`, whatever functions answer and
whatever the targets hold; `Course.Meets`, `Join.Meets`, `Ride.Meets` and
`Activity.Meets` say the same of all that is made of work.

Main result (`Activity.poll_meets`): a visit to an activity that keeps within
bounds, on a stage that has what they take for granted, is a sequence of acts
within the bounds.  It leaves an activity that keeps within them and that waits
for an alarm or is a parked hold, or it comes to a result as the bounds say.
Without bounds this holds of every activity (`Activity.meets_free`).
-/
import Timeline.Proofs.Stage.Acts

namespace Timeline

open Relation Stage

variable {α β σ ρ : Type} {B : Bounds} {Q : α → Prop}

/-- A state of what is under way has a property, a result too, and an error is within bounds. -/
def Progress.Meets (P : σ → Prop) (B : Bounds) (Q : ρ → Prop) :
    Progress σ (Except StepError ρ) → Prop
  | busy state => P state
  | finished (.ok result) => Q result
  | finished (.error e) => B.error e

/-! ### Routines and work -/

/-- A routine that runs is a sequence of acts. -/
theorem Routine.run_acts (r : Routine) (s : Stage) : Acts B s (r.run s).1 := by
  induction r generalizing s with
  | done result => exact .refl
  | sleep time rest ih =>
    have hawait := Acts.await (B := B) s (s.alarmAfter time)
    rcases h : s.await (s.alarmAfter time) with ⟨- | a, s'⟩ <;> rw [h] at hawait <;>
      simp only [run, h]
    · exact hawait.trans (ih s')
    · exact hawait
  | write target value rest ih => exact (Acts.set s target value).trans (ih _)
  | read target rest ih => exact ih _ s

namespace Work

/-- Work that keeps within bounds, and whose results have a property. -/
def Meets (B : Bounds) (Q : α → Prop) : Work α → Prop
  | done result => Q result
  | fail e => B.error e
  | sleep _ rest => rest.Meets B Q
  | look target rest => ∀ v, (B.held target → v.isSome) → (rest v).Meets B Q
  | set target _ rest => (B.held target ∨ B.error (.unknownTarget target)) ∧ rest.Meets B Q
  | vibrate rest => rest.Meets B Q
  | call name _ rest => (B.registered name ∨ B.optional name) ∧ ∀ v, (rest v).Meets B Q
  | run _ rest => ∀ v, (rest v).Meets B Q

/-- All work keeps within no bounds. -/
theorem meets_free (w : Work α) : w.Meets .free fun _ => True := by
  induction w with
  | done _ => trivial
  | fail _ => trivial
  | sleep _ _ ih => exact ih
  | look _ _ ih => exact fun v _ => ih v
  | set _ _ _ ih => exact ⟨.inr trivial, ih⟩
  | vibrate _ ih => exact ih
  | call _ _ _ ih => exact ⟨.inr trivial, ih⟩
  | run _ _ ih => exact ih

theorem Meets.mono {w : Work α} {Q' : α → Prop} (hw : w.Meets B Q) (h : ∀ r, Q r → Q' r) :
    w.Meets B Q' := by
  induction w with
  | done r => exact h r hw
  | fail e => exact hw
  | sleep _ _ ih => exact ih hw
  | look _ _ ih => exact fun v hv => ih v (hw v hv)
  | set _ _ _ ih => exact ⟨hw.1, ih hw.2⟩
  | vibrate _ ih => exact ih hw
  | call _ _ _ ih => exact ⟨hw.1, fun v => ih v (hw.2 v)⟩
  | run _ _ ih => exact fun v => ih v (hw v)

/-- Work and what its result asks for. -/
theorem Meets.bind {w : Work α} {P : α → Prop} {f : α → Work β} {Q : β → Prop}
    (hw : w.Meets B P) (hf : ∀ r, P r → (f r).Meets B Q) : (w.bind f).Meets B Q := by
  induction w with
  | done r => exact hf r hw
  | fail e => exact hw
  | sleep _ _ ih => exact ih hw
  | look _ _ ih => exact fun v hv => ih v (hw v hv)
  | set _ _ _ ih => exact ⟨hw.1, ih hw.2⟩
  | vibrate _ ih => exact ih hw
  | call _ _ _ ih => exact ⟨hw.1, fun v => ih v (hw.2 v)⟩
  | run _ _ ih => exact fun v => ih v (hw v)

end Work

namespace Course

/-- A course that keeps within bounds, and whose results have a property. -/
def Meets (B : Bounds) (Q : α → Prop) : Course α → Prop
  | ahead work => work.Meets B Q
  | asleep _ _ rest => ∀ v, (rest v).Meets B Q

theorem meets_free (c : Course α) : c.Meets .free fun _ => True := by
  cases c with
  | ahead work => exact work.meets_free
  | asleep _ _ rest => exact fun v => (rest v).meets_free

/-- A course that keeps within bounds and waits for an alarm. -/
def Waits (B : Bounds) (Q : α → Prop) (c : Course α) : Prop :=
  c.Meets B Q ∧ c.alarm?.isSome

end Course

/-- To call a registered function is to run its routine. -/
theorem Work.perform_call {name : String} {arg : Option Json} {rest : Json → Work α}
    {s s' : Stage} {body : Routine} (h : s.call? name arg = some (body, s')) :
    (Work.call name arg rest).perform s = (Work.run body rest).perform s' := by
  simp only [perform, h]

/-- What follows the run of a routine. -/
theorem Work.perform_run_meets {rest : Json → Work α} {s : Stage}
    (ih : ∀ v s, B.Covers s → Acts B s ((rest v).perform s).1 ∧
      ((rest v).perform s).2.Meets (Course.Waits B Q) B Q)
    (hrest : ∀ v, (rest v).Meets B Q) (body : Routine) (hc : B.Covers s) :
    Acts B s ((Work.run body rest).perform s).1 ∧
      ((Work.run body rest).perform s).2.Meets (Course.Waits B Q) B Q := by
  have hrun := body.run_acts (B := B) s
  rcases h : body.run s with ⟨s', ⟨alarm, inner⟩ | v | e⟩ <;> rw [h] at hrun <;>
    simp only [Work.perform, h]
  · exact ⟨hrun, hrest, rfl⟩
  · exact ⟨hrun, B.error_call v⟩
  · obtain ⟨hacts, hmeets⟩ := ih e s' (hrun.covers hc)
    exact ⟨hrun.trans hacts, hmeets⟩

/-- Work that runs keeps within its bounds, and waits if it is not over. -/
theorem Work.perform_meets {w : Work α} (hw : w.Meets B Q) {s : Stage} (hc : B.Covers s) :
    Acts B s (w.perform s).1 ∧ (w.perform s).2.Meets (Course.Waits B Q) B Q := by
  induction w generalizing s with
  | done r => exact ⟨.refl, hw⟩
  | fail e => exact ⟨.refl, hw⟩
  | sleep time rest ih =>
    have hawait := Acts.await (B := B) s (s.alarmAfter time)
    rcases h : s.await (s.alarmAfter time) with ⟨- | a, s'⟩ <;> rw [h] at hawait <;>
      simp only [perform, h]
    · obtain ⟨hacts, hmeets⟩ := ih hw (hawait.covers hc)
      exact ⟨hawait.trans hacts, hmeets⟩
    · exact ⟨hawait, fun _ => hw, rfl⟩
  | look target rest ih => exact ih _ (hw _ (hc.held target)) hc
  | set target value rest ih =>
    obtain ⟨hknown, hrest⟩ := hw
    have hfst := set_fst s target value
    have hset := Acts.set (B := B) s target value
    rcases h : s.set target value with ⟨known, s'⟩
    rw [h] at hfst hset
    have hacts : Acts B s (s'.note (.set target value known)) := hset.tail (.note _ trivial)
    cases known with
    | true =>
      obtain ⟨hrun, hmeets⟩ := ih hrest (hacts.covers hc)
      simp only [perform, h, if_true]
      exact ⟨hacts.trans hrun, hmeets⟩
    | false =>
      simp only [perform, h, Bool.false_eq_true, if_false]
      refine ⟨hacts, hknown.resolve_left fun hheld => ?_⟩
      rw [hc.held target hheld] at hfst
      exact Bool.noConfusion hfst
  | vibrate rest ih =>
    have hacts : Acts B s (s.note .vibrated) := .single (.note _ trivial)
    obtain ⟨hrun, hmeets⟩ := ih hw (hacts.covers hc)
    exact ⟨hacts.trans hrun, hmeets⟩
  | call name arg rest ih =>
    obtain ⟨hname, hrest⟩ := hw
    rcases h : s.call? name arg with - | ⟨body, s'⟩
    · -- the lookup misses, so that the name is none of those that are known to be registered
      have hnot : ¬ B.registered name := fun hr => by
        have := hc.registered name hr
        rw [← isSome_call? s name arg, h] at this
        exact Bool.noConfusion this
      simp only [perform, h]
      exact ⟨.single (.note _ ⟨hname.resolve_left hnot, hnot⟩), B.error_call _⟩
    · have hcall := Acts.call? (B := B) h
      obtain ⟨hacts, hmeets⟩ :=
        perform_run_meets (fun v _ => ih v (hrest v)) hrest body (hcall.covers hc)
      rw [perform_call h]
      exact ⟨hcall.trans hacts, hmeets⟩
  | run body rest ih => exact perform_run_meets (fun v _ => ih v (hw v)) hw body hc

/-- A visit to a course. -/
theorem Course.poll_meets {c : Course α} (h : c.Meets B Q) {s : Stage} (hc : B.Covers s) :
    Acts B s (c.poll s).1 ∧ (c.poll s).2.Meets (Course.Waits B Q) B Q := by
  cases c with
  | ahead work => exact Work.perform_meets h hc
  | asleep alarm inner rest =>
    have hawait := Acts.await (B := B) s alarm
    rcases ha : s.await alarm with ⟨- | a, s'⟩ <;> rw [ha] at hawait <;> simp only [poll, ha]
    · obtain ⟨hacts, hmeets⟩ :=
        Work.perform_meets (w := .run inner rest) h (hawait.covers hc)
      exact ⟨hawait.trans hacts, hmeets⟩
    · exact ⟨hawait, h, rfl⟩

/-! ### Joins -/

namespace Join

variable {R : ρ → Prop} {P : σ → Prop}

/-- All members of a join keep within bounds, and their results have a property. -/
def Meets (P : σ → Prop) (B : Bounds) (R : ρ → Prop) (j : Join σ ρ) : Prop :=
  ∀ p ∈ j, p.Meets P B R

theorem Meets.set {j : Join σ ρ} (hj : j.Meets P B R) {p : Progress σ (Except StepError ρ)}
    (hp : p.Meets P B R) (i : Nat) : Meets P B R (j.set i p) := by
  intro q hq
  rcases List.mem_or_eq_of_mem_set hq with h | rfl
  · exact hj q h
  · exact hp

theorem error_of_failure? {large : Bool} {j : Join σ ρ} (hj : j.Meets P B R) {e : StepError}
    (h : failure? large j = some e) : B.error e := by
  induction j with
  | nil => simp [failure?] at h
  | cons p rest ih =>
    have hrest : Meets P B R rest := fun q hq => hj q (List.mem_cons_of_mem _ hq)
    rcases p with state | e' | r
    · cases large with
      | true => simp [failure?] at h
      | false => exact ih hrest (by simpa [failure?] using h)
    · obtain rfl : e' = e := by simpa [failure?] using h
      exact hj _ List.mem_cons_self
    · exact ih hrest (by simpa [failure?] using h)

theorem forall_of_results? {j : Join σ ρ} (hj : j.Meets P B R) {rs : List ρ}
    (h : results? j = some rs) : ∀ r ∈ rs, R r := by
  obtain rfl := results?_eq_some_iff.1 h
  exact fun r hr => hj _ (List.mem_map_of_mem hr)

/-- A join that has neither failed nor come to its results has a member that is under way. -/
theorem exists_busy {large : Bool} {j : Join σ ρ} (hf : failure? large j = none)
    (hr : results? j = none) : ∃ (i : Nat) (state : σ), j[i]? = some (.busy state) := by
  induction j with
  | nil => simp [results?] at hr
  | cons p rest ih =>
    rcases p with state | e | r
    · exact ⟨0, state, rfl⟩
    · simp [failure?] at hf
    · have hr' : results? rest = none := by simpa [results?] using hr
      obtain ⟨i, state, h⟩ := ih (by simpa [failure?] using hf) hr'
      exact ⟨i + 1, state, h⟩

/-- Whoever is under way waits for an alarm that is set and has not gone off. -/
def Waits (alarm? : σ → Option Alarm) (now : Nat) (state : σ) : Prop :=
  ∃ a, alarm? state = some a ∧ a.isSet = true ∧ now < a.due

/-- The members that a visit to a join does not reach wait. -/
theorem waits_of_not_mem_order {alarm? : σ → Option Alarm} {now : Nat} {j : Join σ ρ} {i : Nat}
    {state : σ} (hi : j[i]? = some (.busy state))
    (h : i ∉ if j.isLarge then j.woken alarm? now else List.range j.length) :
    Waits alarm? now state := by
  split at h
  · refine Classical.byContradiction fun hwaits => h ?_
    have hmem : (Progress.busy state, i) ∈ j.zipIdx := List.mem_zipIdx_iff_getElem?.2 hi
    simp only [woken, List.mem_map, List.mem_mergeSort, List.mem_filterMap]
    rcases ha : alarm? state with - | a
    · exact ⟨(none, i), ⟨(.busy state, i), hmem, by simp [ha]⟩, rfl⟩
    · have hable : now < a.due → a.isSet = false := fun hdue =>
        Bool.eq_false_iff.2 fun hset => hwaits ⟨a, ha, hset, hdue⟩
      exact ⟨(some a.ticket, i), ⟨(.busy state, i), hmem, by simpa [ha] using hable⟩, rfl⟩
  · rw [List.mem_range, Nat.not_lt] at h
    rw [List.getElem?_eq_none h] at hi
    cases hi

section Visit

variable {pollOne : σ → Stage → Stage × Progress σ (Except StepError ρ)}
variable {alarm? : σ → Option Alarm}

/-- What has to be known of the visit to one member. -/
abbrev Visits (pollOne : σ → Stage → Stage × Progress σ (Except StepError ρ))
    (alarm? : σ → Option Alarm) (P : σ → Prop) (B : Bounds) (R : ρ → Prop) : Prop :=
  ∀ state s, P state → B.Covers s → Acts B s (pollOne state s).1 ∧
    (pollOne state s).2.Meets (fun state => P state ∧ (alarm? state).isSome) B R

theorem visit_meets (large : Bool) (hone : Visits pollOne alarm? P B R) (order : List Nat)
    {j : Join σ ρ}
    {s : Stage} (hj : j.Meets P B R) (hc : B.Covers s) :
    Acts B s (visit pollOne large order j s).1 ∧ (visit pollOne large order j s).2.Meets P B R := by
  induction order generalizing j s with
  | nil => exact ⟨.refl, hj⟩
  | cons i rest ih =>
    rcases hi : j[i]? with - | (state | result) <;> simp only [visit, hi]
    · exact ih hj hc
    · obtain ⟨hacts, hmeets⟩ := hone state s (hj _ (List.mem_of_getElem? hi)) hc
      rcases hp : pollOne state s with ⟨s', state' | result⟩ <;> rw [hp] at hacts hmeets
      · obtain ⟨hacts', hmeets'⟩ := ih (Meets.set (p := .busy state') hj hmeets.1 i) (hacts.covers hc)
        exact ⟨hacts.trans hacts', hmeets'⟩
      · have hset : Meets P B R (j.set i (.finished result)) :=
          hj.set (by rcases result with e | r <;> exact hmeets) i
        dsimp only
        split
        · exact ⟨hacts, hset⟩
        · obtain ⟨hacts', hmeets'⟩ := ih hset (hacts.covers hc)
          exact ⟨hacts.trans hacts', hmeets'⟩
    · exact ih hj hc

/-- After a visit that meets no failure, who is under way has an alarm to wait for or was not
among those to be visited. -/
theorem alarm?_of_visit (large : Bool) (hone : Visits pollOne alarm? P B R) (order : List Nat)
    {j : Join σ ρ} {s : Stage} (hj : j.Meets P B R) (hc : B.Covers s) (i : Nat) (state : σ)
    (hok : failure? large (visit pollOne large order j s).2 = none)
    (hi : (visit pollOne large order j s).2[i]? = some (.busy state)) :
    (alarm? state).isSome ∨ i ∉ order ∧ j[i]? = some (.busy state) := by
  induction order generalizing j s with
  | nil => exact .inr ⟨List.not_mem_nil, hi⟩
  | cons k rest ih =>
    -- a member that is passed over keeps its state, and one that is visited gets an alarm
    have keep : ∀ {j' : Join σ ρ}, (i ≠ k → j'[i]? = j[i]?) →
        (∀ state, j'[k]? = some (.busy state) → (alarm? state).isSome) →
        ((alarm? state).isSome ∨ i ∉ rest ∧ j'[i]? = some (.busy state)) →
        (alarm? state).isSome ∨ i ∉ k :: rest ∧ j[i]? = some (.busy state) := by
      intro j' hne hk h
      rcases h with h | ⟨hi, hj'⟩
      · exact .inl h
      · by_cases hik : i = k
        · exact .inl (hk state (hik ▸ hj'))
        · exact .inr ⟨by simp [hik, hi], hne hik ▸ hj'⟩
    rcases hk : j[k]? with - | (st | result) <;> simp only [visit, hk] at hok hi
    · exact keep (fun _ => rfl) (by simp [hk]) (ih hj hc hok hi)
    · have hlt : k < j.length := (List.getElem?_eq_some_iff.1 hk).1
      obtain ⟨hacts, hmeets⟩ := hone st s (hj _ (List.mem_of_getElem? hk)) hc
      rcases hp : pollOne st s with ⟨s', st' | result⟩ <;> rw [hp] at hacts hmeets <;>
        simp only [hp] at hok hi
      · refine keep (fun hne => List.getElem?_set_ne (Ne.symm hne)) ?_
          (ih (Meets.set (p := .busy st') hj hmeets.1 k) (hacts.covers hc) hok hi)
        simpa [hlt] using hmeets.2
      · have hset : Meets P B R (j.set k (.finished result)) :=
          hj.set (by rcases result with e | r <;> exact hmeets) k
        by_cases hfail : (failure? large (j.set k (.finished result))).isSome
        · simp only [hfail, if_true] at hok
          simp [hok] at hfail
        · simp only [hfail] at hok hi
          exact keep (fun hne => List.getElem?_set_ne (Ne.symm hne)) (by simp [hlt])
            (ih hset (hacts.covers hc) hok hi)
    · exact keep (fun _ => rfl) (by simp [hk]) (ih hj hc hok hi)

/-- After a visit that meets no failure everybody who is under way has an alarm to wait for: a small
join visits all its members, and a large one those without an alarm. -/
theorem isSome_alarm?_of_visit (hone : Visits pollOne alarm? P B R) {j : Join σ ρ} {s : Stage}
    (hj : j.Meets P B R) (hc : B.Covers s) {order : List Nat}
    (horder : order = if j.isLarge then j.woken alarm? s.now else List.range j.length)
    (i : Nat) (state : σ) (hok : failure? j.isLarge (visit pollOne j.isLarge order j s).2 = none)
    (hi : (visit pollOne j.isLarge order j s).2[i]? = some (.busy state)) :
    (alarm? state).isSome := by
  rcases alarm?_of_visit j.isLarge hone order hj hc i state hok hi with h | ⟨hnot, hji⟩
  · exact h
  · obtain ⟨a, ha, -, -⟩ := waits_of_not_mem_order hji (horder ▸ hnot)
    rw [ha]
    rfl

/-- A visit to a join: the join waits for an alarm if it is not over. -/
theorem poll_meets (hone : Visits pollOne alarm? P B R) {j : Join σ ρ} {s : Stage}
    (hj : j.Meets P B R) (hc : B.Covers s) :
    Acts B s (poll pollOne alarm? j s).1 ∧
      (poll pollOne alarm? j s).2.Meets (fun j => j.Meets P B R ∧ alarms alarm? j ≠ []) B
        fun rs => ∀ r ∈ rs, R r := by
  obtain ⟨order, horder⟩ :
      ∃ order, order = if j.isLarge then j.woken alarm? s.now else List.range j.length := ⟨_, rfl⟩
  have hvisit := visit_meets j.isLarge hone order hj hc
  have halarm (i : Nat) (state : σ) := isSome_alarm?_of_visit hone hj hc horder i state
  simp only [poll, ← horder]
  rcases hv : visit pollOne j.isLarge order j s with ⟨s', j'⟩
  rw [hv] at hvisit halarm
  obtain ⟨hacts, hmeets⟩ := hvisit
  rcases hf : failure? j.isLarge j' with - | e
  · rcases hr : results? j' with - | rs
    · refine ⟨hacts, hmeets, ?_⟩
      obtain ⟨i, state, hi⟩ := exists_busy hf hr
      obtain ⟨a, ha⟩ := Option.isSome_iff_exists.1 (halarm i state hf hi)
      refine List.ne_nil_of_mem (a := a) ?_
      simp only [alarms, List.mem_filterMap]
      exact ⟨.busy state, List.mem_of_getElem? hi, ha⟩
    · exact ⟨hacts, forall_of_results? hmeets hr⟩
  · exact ⟨hacts, error_of_failure? hmeets hf⟩

/-- Everybody who is under way after a visit to a join has an alarm to wait for. -/
theorem isSome_alarm?_of_poll_busy (hone : Visits pollOne alarm? P B R) {j j' : Join σ ρ}
    {s : Stage} (hj : j.Meets P B R) (hc : B.Covers s)
    (h : (poll pollOne alarm? j s).2 = .busy j') {state : σ} (hstate : .busy state ∈ j') :
    (alarm? state).isSome := by
  obtain ⟨order, horder⟩ :
      ∃ order, order = if j.isLarge then j.woken alarm? s.now else List.range j.length := ⟨_, rfl⟩
  have halarm (i : Nat) (state : σ) := isSome_alarm?_of_visit hone hj hc horder i state
  simp only [poll, ← horder] at h
  rcases hv : visit pollOne j.isLarge order j s with ⟨s', j₁⟩
  rw [hv] at h halarm
  rcases hf : failure? j.isLarge j₁ with - | e <;> rcases hr : results? j₁ with - | rs <;>
    simp only [hf, hr] at h
  · cases h
    obtain ⟨i, hi⟩ := List.mem_iff_getElem?.1 hstate
    exact halarm i state hf hi
  · cases h
  · cases h
  · cases h

end Visit

end Join

theorem Course.poll_visits : Join.Visits Course.poll Course.alarm? (Course.Meets B Q) B Q :=
  fun _ _ h hc => Course.poll_meets h hc

/-! ### Rides -/

namespace Ride

/-- A ride keeps within bounds if its target is held, or an unknown target is within them. -/
def Meets (B : Bounds) : Ride → Prop
  | ahead target _ => B.held target ∨ B.error (.unknownTarget target)
  | moving _ _ => True

/-- Where no error is out of bounds all rides keep within them. -/
theorem meets_of_error (h : ∀ e, B.error e) (r : Ride) : r.Meets B := by
  cases r with
  | ahead _ _ => exact .inr (h _)
  | moving _ _ => trivial

theorem report_acts {recorded : Bool} {s : Stage} {e : Event} (he : B.Permits e) :
    Acts B s (report recorded s e) := by
  cases recorded with
  | true => exact .single (.note e he)
  | false => exact .refl

/-- A ride that is not over after a frame waits for the next one. -/
theorem write_meets (recorded : Bool) (m : Motion Float) (s : Stage) :
    Acts B s (write recorded m s).1 ∧
      (write recorded m s).2.Meets (fun r => r.Meets B ∧ r.alarm?.isSome) B fun _ => True := by
  rcases hf : m.frame? s.driver s.now with - | d <;> simp only [write, hf]
  · exact ⟨report_acts trivial, trivial⟩
  · obtain ⟨s', hs'⟩ :
        ∃ s' : Stage, s' = { s with driver := d }.note (.wrote m.target (m.valueAt s.now).1) :=
      ⟨_, rfl⟩
    have hwrote : Acts B s s' :=
      hs' ▸ (ReflTransGen.single (.touch (.write hf))).tail (.note _ trivial)
    rw [← hs']
    split
    · exact ⟨hwrote.trans (report_acts trivial), trivial⟩
    · exact ⟨hwrote.tail (.setAlarm { due := m.nextFrame s'.driver.frame s'.now }), trivial, rfl⟩

theorem frame_meets (recorded : Bool) (m : Motion Float) (next : Alarm) (s : Stage) :
    Acts B s (frame recorded m next s).1 ∧
      (frame recorded m next s).2.Meets (fun r => r.Meets B ∧ r.alarm?.isSome) B
        fun _ => True := by
  have hawait := Acts.await (B := B) s next
  rcases ha : s.await next with ⟨- | a, s'⟩ <;> rw [ha] at hawait <;> simp only [frame, ha]
  · obtain ⟨hacts, hmeets⟩ := write_meets (B := B) recorded m s'
    exact ⟨hawait.trans hacts, hmeets⟩
  · exact ⟨hawait, trivial, rfl⟩

/-- A visit to a ride. -/
theorem poll_meets (recorded : Bool) :
    Join.Visits (poll recorded) alarm? (Meets B) B fun _ => True := by
  intro r s h hc
  cases r with
  | ahead target animation =>
    have hasked : Acts B s (report recorded s (.animate target animation)) := report_acts trivial
    obtain ⟨s₁, hs₁⟩ : ∃ s₁, s₁ = report recorded s (.animate target animation) := ⟨_, rfl⟩
    rw [← hs₁] at hasked
    simp only [poll, ← hs₁]
    rcases hl : s₁.driver.launch? target animation s₁.now with - | ⟨m, d⟩
    · refine ⟨hasked.trans (report_acts trivial), h.resolve_left fun hheld => ?_⟩
      have hsome := (hasked.covers hc).held target hheld
      have hnone : s₁.driver.slots.get? target = none := by
        simpa [Driver.launch?, Driver.claim?] using hl
      simp [Driver.get?, hnone] at hsome
    · obtain ⟨slot, hclaim, -⟩ := Driver.launch?_eq_some hl
      have hlaunch : Acts B s { s₁ with driver := d } := hasked.tail (.touch (.claim hclaim))
      dsimp only
      split
      · obtain ⟨hacts, hmeets⟩ := write_meets (B := B) recorded m { s₁ with driver := d }
        exact ⟨hlaunch.trans hacts, hmeets⟩
      · obtain ⟨hacts, hmeets⟩ := frame_meets (B := B) recorded m
          (Stage.alarmAfter { s₁ with driver := d } .zero) { s₁ with driver := d }
        exact ⟨hlaunch.trans hacts, hmeets⟩
  | moving m next => exact frame_meets recorded m next s

theorem poll_acts (recorded : Bool) (r : Ride) (s : Stage) : Acts .free s (poll recorded r s).1 :=
  (poll_meets recorded r s (r.meets_of_error fun _ => trivial) (Bounds.free_covers s)).1

end Ride

namespace Convoy

/-- All rides of a convoy keep within bounds. -/
def Meets (B : Bounds) (c : Convoy) : Prop :=
  Join.Meets (Ride.Meets B) B (fun _ => True) c

/-- The rides of some animations keep within bounds if their targets do. -/
theorem meets_ofBatch {batch : List (String × Animation Float)}
    (h : ∀ p ∈ batch, B.held p.1 ∨ B.error (.unknownTarget p.1)) : Meets B (ofBatch batch) := by
  intro p hp
  obtain ⟨q, hq, rfl⟩ := List.mem_map.1 hp
  exact h q hq

theorem meets_of_error (h : ∀ e, B.error e) (c : Convoy) : c.Meets B := by
  rintro (r | e | u) -
  · exact r.meets_of_error h
  · exact h e
  · trivial

/-- A visit to a convoy. -/
theorem poll_meets (recorded : Bool) {c : Convoy} (h : c.Meets B) {s : Stage} (hc : B.Covers s) :
    Acts B s (c.poll recorded s).1 ∧
      (c.poll recorded s).2.Meets (fun c => c.Meets B ∧ c.alarms ≠ []) B fun _ => True := by
  obtain ⟨hacts, hmeets⟩ := Join.poll_meets (Ride.poll_meets (B := B) recorded) h hc
  simp only [poll]
  rcases hp : Join.poll (Ride.poll recorded) Ride.alarm? c s with ⟨s', c' | e | rs⟩ <;>
    rw [hp] at hacts hmeets
  · exact ⟨hacts, hmeets⟩
  · exact ⟨hacts, hmeets⟩
  · exact ⟨hacts, trivial⟩

theorem poll_acts {recorded : Bool} {c : Convoy} {s s' : Stage}
    {p : Progress Convoy (Except StepError Unit)} (h : c.poll recorded s = (s', p)) :
    Acts .free s s' := by
  have hacts := (poll_meets recorded (c.meets_of_error fun _ => trivial) (Bounds.free_covers s)).1
  rwa [h] at hacts

end Convoy

/-! ### Activities -/

namespace Activity

variable {Q : Flow → Prop}

/-- A prepared animation keeps within bounds if its target does. -/
def Prepared (B : Bounds) (p : String × Animation Float) : Prop :=
  B.held p.1 ∨ B.error (.unknownTarget p.1)

/-- An activity that keeps within bounds, and after which the run goes on as a property says. -/
def Meets (B : Bounds) (Q : Flow → Prop) : Activity → Prop
  | working course => course.Meets B Q
  | preparing members => Join.Meets (Course.Meets B (Prepared B)) B (Prepared B) members ∧ Q .advance
  | animating convoy => convoy.Meets B ∧ Q .advance
  | holding release => ∀ r, release = some r → Q r.flow

/-- All activities keep within no bounds. -/
theorem meets_free (a : Activity) : a.Meets .free fun _ => True := by
  cases a with
  | working course => exact course.meets_free
  | preparing members =>
    refine ⟨?_, trivial⟩
    rintro (c | e | r) -
    · cases c with
      | ahead w => exact w.meets_free.mono fun _ _ => .inr trivial
      | asleep _ _ rest => exact fun v => (rest v).meets_free.mono fun _ _ => .inr trivial
    · trivial
    · exact .inr trivial
  | animating convoy => exact ⟨convoy.meets_of_error fun _ => trivial, trivial⟩
  | holding _ => exact fun _ _ => trivial

/-- An activity that waits for an alarm, or for the release of a hold. -/
def AtRest (a : Activity) : Prop :=
  a.alarms ≠ [] ∨ a = .holding none

theorem pollConvoy_meets {convoy : Convoy} (h : convoy.Meets B) (hQ : Q .advance) {s : Stage}
    (hc : B.Covers s) :
    Acts B s (pollConvoy convoy s).1 ∧
      (pollConvoy convoy s).2.Meets (fun a => a.Meets B Q ∧ a.AtRest) B Q := by
  obtain ⟨hacts, hmeets⟩ := Convoy.poll_meets true h hc
  rcases hp : convoy.poll true s with ⟨s', c' | e | u⟩ <;> rw [hp] at hacts hmeets <;>
    simp only [pollConvoy, hp]
  · exact ⟨hacts, ⟨hmeets.1, hQ⟩, .inl hmeets.2⟩
  · exact ⟨hacts, hmeets⟩
  · exact ⟨hacts, hQ⟩

/-- **A visit to an activity.**  It acts within the bounds, and leaves the activity at rest or comes
to a result as the bounds say. -/
theorem poll_meets {a : Activity} (h : a.Meets B Q) {s : Stage} (hc : B.Covers s) :
    Acts B s (a.poll s).1 ∧ (a.poll s).2.Meets (fun a => a.Meets B Q ∧ a.AtRest) B Q := by
  cases a with
  | working course =>
    obtain ⟨hacts, hmeets⟩ := Course.poll_meets h hc
    rcases hp : course.poll s with ⟨s', c' | e | flow⟩ <;> rw [hp] at hacts hmeets <;>
      simp only [poll, hp]
    · refine ⟨hacts, hmeets.1, .inl ?_⟩
      obtain ⟨alarm, halarm⟩ := Option.isSome_iff_exists.1 hmeets.2
      simp [alarms, halarm]
    · exact ⟨hacts, hmeets⟩
    · exact ⟨hacts, hmeets⟩
  | preparing members =>
    obtain ⟨hacts, hmeets⟩ := Join.poll_meets Course.poll_visits h.1 hc
    rcases hp : Join.poll Course.poll Course.alarm? members s with ⟨s', m' | e | batch⟩ <;>
      rw [hp] at hacts hmeets <;> simp only [poll, hp]
    · exact ⟨hacts, ⟨hmeets.1, h.2⟩, .inl hmeets.2⟩
    · exact ⟨hacts, hmeets⟩
    · obtain ⟨hacts', hmeets'⟩ :=
        pollConvoy_meets (Q := Q) (Convoy.meets_ofBatch hmeets) h.2 (hacts.covers hc)
      exact ⟨hacts.trans hacts', hmeets'⟩
  | animating convoy => exact pollConvoy_meets h.1 h.2 hc
  | holding release =>
    cases release with
    | none => exact ⟨.refl, h, .inr rfl⟩
    | some r => exact ⟨.single .spend, h r rfl⟩

theorem poll_acts {a : Activity} {s s' : Stage} {p : Progress Activity (Except StepError Flow)}
    (h : a.poll s = (s', p)) : Acts .free s s' := by
  have hacts := (poll_meets a.meets_free (Bounds.free_covers s)).1
  rwa [h] at hacts

/-- A visit neither parks a hold nor brings a parked one to its end. -/
theorem holding_of_poll_busy {a a' : Activity} {s s' : Stage} (h : a.poll s = (s', .busy a')) :
    a = .holding none ∧ a' = .holding none ∨
      (∀ release, a ≠ .holding release) ∧ ∀ release, a' ≠ .holding release := by
  rcases a with course | members | convoy | ⟨_ | release⟩ <;> simp only [poll, pollConvoy] at h
  · rcases hp : course.poll s with ⟨s₁, c | e | f⟩ <;> simp [hp] at h
    simp [← h.2]
  · rcases hp : Join.poll Course.poll Course.alarm? members s with ⟨s₁, c | e | batch⟩ <;>
      simp only [hp] at h
    · simp only [Prod.mk.injEq, Progress.busy.injEq] at h
      simp [← h.2]
    · simp at h
    · rcases hc : (Convoy.ofBatch batch).poll true s₁ with ⟨s₂, c | e | f⟩ <;> simp [hc] at h
      simp [← h.2]
  · rcases hc : convoy.poll true s with ⟨s₁, c | e | f⟩ <;> simp [hc] at h
    simp [← h.2]
  · simp at h
    simp [← h.2]
  · simp at h

theorem ne_holding_of_poll_finished {a : Activity} {s s' : Stage}
    {result : Except StepError Flow} (h : a.poll s = (s', .finished result)) : a ≠ .holding none := by
  rintro rfl
  simp [poll] at h

end Activity

end Timeline
