/-
Timeline/Proofs/Stage/Nearing.lean

Whatever is under way comes nearer to its end.

What a called function does next may depend on what it reads, so that no number bounds how
often it sleeps; an ordinal does (`Routine.span`).  The members of a join take turns, and what
is left of each of them is an ordinal and, while it waits, how far it is from being woken
(`Join.left`).

Main results: a visit to an activity leaves no more than there was, and in a turn it leaves
less unless everybody waits (`Activity.poll_leaves`); whoever is woken has less left than before
(`Activity.Rests.left_lt`).
-/
import Mathlib.Data.DFinsupp.WellFounded
import Mathlib.SetTheory.Ordinal.Family
import Timeline.Proofs.Stage.Frames

namespace Timeline

open Stage

/-! ### Visits that leave less -/

/-- What a visit makes of how much is left: no more than it was, and less in a turn, unless there
was nothing to do but to wait and nothing was done. -/
structure Stage.Leaves {γ : Type*} [Preorder γ] (s s' : Stage) (before after : γ) (waits : Prop) :
    Prop where
  le : after ≤ before
  lt : 0 < s.turn → after < before ∨ s' = s ∧ waits

namespace Stage.Leaves

variable {γ : Type*} [Preorder γ] {s s' s'' : Stage} {x y z : γ} {waits waits' : Prop}

theorem of_lt (h : y < x) : s.Leaves s' x y waits :=
  ⟨h.le, fun _ => .inl h⟩

theorem imp (h : s.Leaves s' x y waits) (hwaits : waits → waits') : s.Leaves s' x y waits' :=
  ⟨h.le, fun hturn => (h.lt hturn).imp_right fun hrest => ⟨hrest.1, hwaits hrest.2⟩⟩

/-- Another visit finds the turn that the first one has left. -/
theorem trans (h : s.Leaves s' x y waits) (h' : s'.Leaves s'' y z waits') :
    s.Leaves s'' x z (waits ∧ waits') where
  le := h'.le.trans h.le
  lt hturn := by
    rcases h.lt hturn with hlt | ⟨rfl, hwaits⟩
    · exact .inl (h'.le.trans_lt hlt)
    · exact (h'.lt hturn).imp (fun hlt => hlt.trans_le h.le)
        fun ⟨hstage, hwaits'⟩ => ⟨hstage, hwaits, hwaits'⟩

/-- What comes first stays as it is. -/
theorem toLex_right (h : s.Leaves s' x y waits) (k : ℕ) :
    s.Leaves s' (toLex (k, x)) (toLex (k, y)) waits where
  le := Prod.Lex.toLex_le_toLex.2 (.inr ⟨rfl, h.le⟩)
  lt hturn := (h.lt hturn).imp_left fun hlt => Prod.Lex.toLex_lt_toLex.2 (.inr ⟨rfl, hlt⟩)

end Stage.Leaves

/-! ### Alarms -/

namespace Alarm

variable {a a' : Alarm} {now time : Nat} {s s' : Stage}

/-- How far an alarm is from going off: it may be due, or set, or still to be set. -/
def lag (a : Alarm) (now : Nat) : Nat :=
  if a.due ≤ now then 0 else if a.isSet then 1 else 2

/-- Whoever waits for an alarm does not put it off, and sets it if there is a turn left. -/
theorem leaves_await (h : s.await a = (some a', s')) :
    s.Leaves s' (a.lag s.now) (a'.lag s.now) (a.isSet = true ∧ s.now < a.due) := by
  unfold Stage.await at h
  split at h
  · cases h
  · rename_i hnot
    split at h
    · rename_i hset
      cases h
      obtain ⟨hdue, hset⟩ := Bool.and_eq_true_iff.1 hset
      exact ⟨Nat.le_refl _, fun _ => .inr ⟨rfl, hset, of_decide_eq_true hdue⟩⟩
    · rename_i hunset
      cases h
      by_cases hdue : a.due ≤ s.now
      · have hspent : ¬ 0 < s.turn := fun hturn => hnot (by simp [hdue, hturn])
        exact ⟨by simp [lag, hdue], fun hturn => absurd hturn hspent⟩
      · have hlate : s.now < a.due := Nat.lt_of_not_le hdue
        have hoff : a.isSet = false := by simpa [hlate] using hunset
        refine ⟨?_, fun hturn => .inl ?_⟩
        · simp only [lag, hdue, hoff, if_false, Bool.false_eq_true]
          split <;> omega
        · simp [lag, hdue, hoff, hturn]

theorem lag_anti (h : now ≤ time) : a.lag time ≤ a.lag now := by
  unfold lag
  split
  · exact Nat.zero_le _
  · rename_i hlate
    have hdue : ¬ a.due ≤ now := fun hdue => hlate (hdue.trans h)
    rw [if_neg hdue]

/-- An alarm that goes off is no longer far from it. -/
theorem lag_lt (hnow : now < a.due) (htime : a.due ≤ time) : a.lag time < a.lag now := by
  unfold lag
  rw [if_pos htime, if_neg (by omega)]
  split <;> omega

end Alarm

/-! ### How much is left of a course -/

/-- How many times a routine may still sleep, whatever it reads. -/
noncomputable def Routine.span : Routine → Ordinal.{0}
  | .done _ => 0
  | .sleep _ rest => Order.succ rest.span
  | .write _ _ rest => rest.span
  | .read _ rest => ⨆ v, (rest v).span

/-- A routine that sleeps has less left of it, and has set its alarm if there is a turn left. -/
theorem Routine.span_run {r inner : Routine} {s s' : Stage} {a : Alarm}
    (h : r.run s = (s', .busy (a, inner))) :
    inner.span < r.span ∧ (0 < s'.turn → a.isSet = true ∧ s.now < a.due) := by
  induction r generalizing s with
  | done result => cases h
  | sleep time rest ih =>
    rcases ha : s.await (s.alarmAfter time) with ⟨- | a', s₁⟩ <;> simp only [run, ha] at h
    · obtain ⟨-, rfl⟩ := Stage.await_none ha
      obtain ⟨hspan, hwaits⟩ := ih h
      exact ⟨hspan.trans (Order.lt_succ _), hwaits⟩
    · simp only [Prod.mk.injEq, Progress.busy.injEq] at h
      obtain ⟨rfl, rfl, rfl⟩ := h
      refine ⟨Order.lt_succ _, fun hturn => Stage.await_sets ?_ ha⟩
      have hawait := (Stage.Acts.await (B := .free) s (s.alarmAfter time)).frame.turn
      rw [ha] at hawait
      exact Nat.lt_of_lt_of_le hturn hawait
  | write target value rest ih =>
    obtain ⟨hspan, hwaits⟩ := ih h
    refine ⟨hspan, ?_⟩
    rwa [(Stage.Acts.set (B := .free) s target value).frame.now] at hwaits
  | read target rest ih =>
    obtain ⟨hspan, hwaits⟩ := ih _ h
    exact ⟨hspan.trans_le (Ordinal.le_iSup (fun v => (rest v).span) _), hwaits⟩

variable {α : Type}

/-- How many times some work may still sleep, whatever functions give and targets hold. -/
noncomputable def Work.span : Work α → Ordinal.{0}
  | .done _ => 0
  | .fail _ => 0
  | .sleep _ rest => Order.succ rest.span
  | .look _ rest => ⨆ v, (rest v).span
  | .set _ _ rest => rest.span
  | .vibrate rest => rest.span
  -- which function is called is not known either, so that it may be any
  | .call _ _ rest => (⨆ v, (rest v).span) + ⨆ body : Routine, body.span
  | .run body rest => (⨆ v, (rest v).span) + body.span

/-- How many times a course may still sleep. -/
noncomputable def Course.span : Course α → Ordinal.{0}
  | .ahead work => work.span
  | .asleep _ inner rest => (Work.run inner rest).span

namespace Work

variable {c : Course α} {s s' : Stage}

/-- What follows the run of a routine. -/
theorem span_perform_run {rest : Json → Work α}
    (ih : ∀ v s, (rest v).perform s = (s', .busy c) →
      c.span < (rest v).span ∧ (0 < s'.turn → Join.Waits Course.alarm? s.now c))
    {body : Routine} (h : (run body rest).perform s = (s', .busy c)) :
    c.span < (run body rest).span ∧ (0 < s'.turn → Join.Waits Course.alarm? s.now c) := by
  have hnow := (body.run_acts (B := .free) s).frame.now
  rcases hrun : body.run s with ⟨s₁, ⟨alarm, inner⟩ | e | v⟩ <;> rw [hrun] at hnow <;>
    simp only [perform, hrun] at h
  · cases h
    obtain ⟨hspan, hwaits⟩ := Routine.span_run hrun
    exact ⟨add_lt_add_right hspan _, fun hturn => ⟨alarm, rfl, hwaits hturn⟩⟩
  · cases h
  · -- the routine has come to its end, and nothing is left of it
    obtain ⟨hspan, hwaits⟩ := ih v s₁ h
    rw [hnow] at hwaits
    refine ⟨hspan.trans_le ?_, hwaits⟩
    exact (Ordinal.le_iSup (fun v => (rest v).span) v).trans (le_self_add)

/-- **Work that sleeps has less left of it**, and has set its alarm if there is a turn left. -/
theorem span_perform {w : Work α} (h : w.perform s = (s', .busy c)) :
    c.span < w.span ∧ (0 < s'.turn → Join.Waits Course.alarm? s.now c) := by
  induction w generalizing s with
  | done result => cases h
  | fail e => cases h
  | sleep time rest ih =>
    rcases ha : s.await (s.alarmAfter time) with ⟨- | a, s₁⟩ <;> simp only [perform, ha] at h
    · obtain ⟨-, rfl⟩ := Stage.await_none ha
      obtain ⟨hspan, hwaits⟩ := ih h
      exact ⟨hspan.trans (Order.lt_succ _), hwaits⟩
    · cases h
      refine ⟨?_, fun hturn => ⟨a, rfl, Stage.await_sets ?_ ha⟩⟩
      · simp [Course.span, span, Routine.value, Routine.span]
      · have hawait := (Stage.Acts.await (B := .free) s (s.alarmAfter time)).frame.turn
        rw [ha] at hawait
        exact Nat.lt_of_lt_of_le hturn hawait
  | look target rest ih =>
    obtain ⟨hspan, hwaits⟩ := ih _ h
    exact ⟨hspan.trans_le (Ordinal.le_iSup (fun v => (rest v).span) _), hwaits⟩
  | set target value rest ih =>
    have hnow := (Stage.Acts.set (B := .free) s target value).frame.now
    rcases hset : s.set target value with ⟨known, s₁⟩
    rw [hset] at hnow
    cases known <;> simp only [perform, hset, Bool.false_eq_true, if_false, if_true] at h
    · cases h
    · obtain ⟨hspan, hwaits⟩ := ih h
      exact ⟨hspan, hnow ▸ hwaits⟩
  | vibrate rest ih =>
    obtain ⟨hspan, hwaits⟩ := ih h
    exact ⟨hspan, hwaits⟩
  | call name arg rest ih =>
    rcases hcall : s.call? name arg with - | ⟨body, s₁⟩
    · simp only [perform, hcall] at h
      cases h
    · rw [perform_call hcall] at h
      obtain ⟨hspan, hwaits⟩ := span_perform_run (fun v _ => ih v) h
      rw [(Stage.Acts.call? (B := .free) hcall).frame.now] at hwaits
      refine ⟨hspan.trans_le (add_le_add_right ?_ _), hwaits⟩
      exact Ordinal.le_iSup (fun body : Routine => body.span) body
  | run body rest ih => exact span_perform_run (fun v _ => ih v) h

end Work

/-! ### How much is left of a ride -/

/-- The time from a frame on in which a motion may still have another one. -/
def Motion.timeLeft (m : Motion Float) (due : Nat) : Nat :=
  m.start + Animation.longest + 1 - due

/-- The time that is left of a ride; one that has not begun may have any time before it. -/
noncomputable def Ride.span : Ride → Ordinal.{0}
  | .ahead _ _ => Ordinal.omega0
  | .moving m next => m.timeLeft next.due

/-- A frame that is not the last one comes before the longest animation is over. -/
theorem Motion.timeLeft_lt {m : Motion Float} {now due due' : Nat}
    (hmore : (m.valueAt now).2 = false) (hdue : due ≤ now) (hlt : now < due') :
    m.timeLeft due' < m.timeLeft due := by
  have hyoung : now - m.start < Animation.longest := by
    by_contra hold
    have hover := m.animation.isOver_progress (Nat.le_of_not_lt hold)
    rw [valueAt] at hmore
    split at hmore
    · cases hmore
    · exact Bool.noConfusion (hover.symm.trans hmore)
  unfold timeLeft
  omega

namespace Ride

variable {recorded : Bool} {m : Motion Float} {next : Alarm} {r r' : Ride} {s s' : Stage}

/-- A ride that writes a frame has less time left of it. -/
theorem span_write (hframe : 0 < s.driver.frame.nanos) (hdue : next.due ≤ s.now)
    (h : write recorded m s = (s', .busy r')) : r'.span < (moving m next).span := by
  rcases hd : m.frame? s.driver s.now with - | d <;> simp only [write, hd] at h
  · cases h
  · obtain ⟨-, rfl⟩ := Driver.write?_eq_some hd
    split at h
    · cases h
    · rename_i hmore
      cases h
      rw [span, span, Nat.cast_lt]
      exact Motion.timeLeft_lt (by simpa using hmore) hdue (m.lt_nextFrame hframe s.now)

end Ride

/-! ### How much is left of the members of a join -/

namespace Join

variable {σ ρ : Type} {pollOne : σ → Stage → Stage × Progress σ (Except StepError ρ)}
  {alarm? : σ → Option Alarm} {span : σ → Ordinal.{0}} {s s' : Stage} {state state' : σ}
  {j j' : Join σ ρ} {p : Progress σ (Except StepError ρ)} {now time size i : Nat}

/-- A visit to somebody under way leaves less of him, unless he goes on waiting for his alarm. -/
structure Nears (pollOne : σ → Stage → Stage × Progress σ (Except StepError ρ))
    (alarm? : σ → Option Alarm) (span : σ → Ordinal.{0}) : Prop where
  acts : ∀ state s, Acts .free s (pollOne state s).1
  nearer : ∀ {state state' s}, 0 < s.driver.frame.nanos → (pollOne state s).2 = .busy state' →
    span state' < span state ∨ span state' = span state ∧ ∃ a a',
      alarm? state = some a ∧ alarm? state' = some a' ∧ s.await a = (some a', (pollOne state s).1)
  waits : ∀ {state state' s}, 0 < s.driver.frame.nanos → 0 < (pollOne state s).1.turn →
    (pollOne state s).2 = .busy state' → Waits alarm? s.now state'

/-- How far somebody under way is from his end at a time: by what is left of him, and then by how far
he is from being woken. -/
noncomputable def distance (alarm? : σ → Option Alarm) (span : σ → Ordinal.{0}) (now : Nat)
    (state : σ) : Ordinal.{0} ×ₗ ℕ :=
  toLex (span state, (alarm? state).elim 0 fun a => a.lag now)

/-- The same of a member that may be over. -/
noncomputable def left (alarm? : σ → Option Alarm) (span : σ → Ordinal.{0}) (now : Nat) :
    Option (Progress σ (Except StepError ρ)) → WithBot (Ordinal.{0} ×ₗ ℕ)
  | some (.busy state) => distance alarm? span now state
  | _ => ⊥

/-- How far the first ones of the members are from their ends. -/
noncomputable def allLeft (alarm? : σ → Option Alarm) (span : σ → Ordinal.{0}) (size now : Nat)
    (j : Join σ ρ) : Fin size → WithBot (Ordinal.{0} ×ₗ ℕ) :=
  fun i => left alarm? span now j[(i : Nat)]?

/-- A visit to somebody under way. -/
theorem Nears.leaves (h : Nears pollOne alarm? span) (hframe : 0 < s.driver.frame.nanos)
    (hpoll : pollOne state s = (s', .busy state')) :
    s.Leaves s' (distance alarm? span s.now state) (distance alarm? span s.now state')
      (Waits alarm? s.now state) := by
  rcases h.nearer hframe (congrArg Prod.snd hpoll) with hlt | ⟨heq, a, a', ha, ha', hawait⟩
  · exact .of_lt (Prod.Lex.toLex_lt_toLex.2 (.inl hlt))
  · rw [hpoll] at hawait
    have hlag := Alarm.leaves_await hawait
    unfold distance
    rw [ha, ha', heq]
    refine ⟨Prod.Lex.toLex_le_toLex.2 (.inr ⟨rfl, hlag.le⟩), fun hturn => (hlag.lt hturn).imp
      (fun hlt => Prod.Lex.toLex_lt_toLex.2 (.inr ⟨rfl, hlt⟩)) ?_⟩
    exact fun ⟨hstage, hwaits⟩ => ⟨hstage, a, ha, hwaits⟩

theorem allLeft_set_le {q : Progress σ (Except StepError ρ)} (hi : j[i]? = some q)
    (h : left alarm? span now (some p) ≤ left alarm? span now (some q)) :
    allLeft alarm? span size now (j.set i p) ≤ allLeft alarm? span size now j := by
  intro k
  unfold allLeft
  by_cases hk : i = k
  · subst hk
    rwa [List.getElem?_set_self (List.getElem?_eq_some_iff.1 hi).1, hi]
  · rw [List.getElem?_set_ne hk]

theorem allLeft_set_lt {q : Progress σ (Except StepError ρ)} (hi : j[i]? = some q)
    (hsize : j.length ≤ size)
    (h : left alarm? span now (some p) < left alarm? span now (some q)) :
    allLeft alarm? span size now (j.set i p) < allLeft alarm? span size now j := by
  have hlt := (List.getElem?_eq_some_iff.1 hi).1
  refine Pi.lt_def.2 ⟨allLeft_set_le hi h.le, ⟨i, hlt.trans_le hsize⟩, ?_⟩
  unfold allLeft
  rwa [List.getElem?_set_self hlt, hi]

/-- What a visit to a member leaves of it, it leaves of all. -/
theorem leaves_set (hi : j[i]? = some (.busy state)) (hsize : j.length ≤ size) {waits : Prop}
    (h : s.Leaves s' (distance alarm? span now state) (distance alarm? span now state') waits) :
    s.Leaves s' (allLeft alarm? span size now j)
      (allLeft alarm? span size now (j.set i (.busy state'))) waits where
  le := allLeft_set_le hi (WithBot.coe_le_coe.2 h.le)
  lt hturn := (h.lt hturn).imp_left fun hlt =>
    allLeft_set_lt hi hsize (WithBot.coe_lt_coe.2 hlt)

/-- **A visit to some members** leaves no more of them than there was, and less in a turn unless all
of them wait. -/
theorem Nears.leaves_visit (h : Nears pollOne alarm? span) (large : Bool) (order : List Nat)
    (hframe : 0 < s.driver.frame.nanos) (hsize : j.length ≤ size)
    (hvisit : visit pollOne large order j s = (s', j')) :
    s.Leaves s' (allLeft alarm? span size s.now j) (allLeft alarm? span size s.now j')
      (∀ k ∈ order, ∀ state, j[k]? = some (.busy state) → Waits alarm? s.now state) := by
  -- one visit after the other: nobody's visit leaves more, and it is enough that one leaves less
  induction order generalizing j s with
  | nil =>
    cases hvisit
    exact ⟨le_rfl, fun _ => .inr ⟨rfl, fun k hk => absurd hk List.not_mem_nil⟩⟩
  | cons i rest ih =>
    rcases hi : j[i]? with - | (state | result) <;> simp only [visit, hi] at hvisit
    · refine (ih hframe hsize hvisit).imp fun hrest => List.forall_mem_cons.2 ⟨?_, hrest⟩
      rw [hi]
      rintro _ ⟨⟩
    · have hacts := h.acts state s
      rcases hp : pollOne state s with ⟨s₁, state' | result⟩ <;> rw [hp] at hacts <;>
        simp only [hp] at hvisit
      · have hframe₁ : 0 < s₁.driver.frame.nanos := by rwa [hacts.touched.frame]
        have hsize₁ : (j.set i (.busy state')).length ≤ size := by rwa [List.length_set]
        have hfirst := leaves_set hi hsize (h.leaves hframe hp)
        have hrest := ih hframe₁ hsize₁ hvisit
        rw [hacts.frame.now] at hrest
        refine (hfirst.trans hrest).imp ?_
        rintro ⟨hwaits, hwaits'⟩
        -- the member itself has waited, and the others have not changed
        have hself (other : σ) (hother : j[i]? = some (.busy other)) : Waits alarm? s.now other := by
          rw [hi] at hother
          cases hother
          exact hwaits
        refine List.forall_mem_cons.2 ⟨hself, fun k hk other hother => ?_⟩
        by_cases hki : i = k
        · exact hself other (hki ▸ hother)
        · exact hwaits' k hk other (by rwa [List.getElem?_set_ne hki])
      · have hlt : allLeft alarm? span size s.now (j.set i (.finished result))
            < allLeft alarm? span size s.now j :=
          allLeft_set_lt hi hsize (WithBot.bot_lt_coe _)
        split at hvisit
        · cases hvisit
          exact .of_lt hlt
        · have hframe₁ : 0 < s₁.driver.frame.nanos := by rwa [hacts.touched.frame]
          have hsize₁ : (j.set i (.finished result)).length ≤ size := by rwa [List.length_set]
          have hrest := ih hframe₁ hsize₁ hvisit
          rw [hacts.frame.now] at hrest
          exact .of_lt (hrest.le.trans_lt hlt)
    · refine (ih hframe hsize hvisit).imp fun hrest => List.forall_mem_cons.2 ⟨?_, hrest⟩
      rw [hi]
      rintro _ ⟨⟩

/-- **A visit to a join** leaves no more of its members than there was, and less in a turn unless all
of them wait. -/
theorem Nears.leaves_poll (h : Nears pollOne alarm? span) (hframe : 0 < s.driver.frame.nanos)
    (hsize : j.length ≤ size) (hpoll : j.poll pollOne alarm? s = (s', .busy j')) :
    s.Leaves s' (allLeft alarm? span size s.now j) (allLeft alarm? span size s.now j')
      (∀ state, .busy state ∈ j → Waits alarm? s.now state) := by
  obtain ⟨order, horder⟩ :
      ∃ order, order = if j.isLarge then j.woken alarm? s.now else List.range j.length := ⟨_, rfl⟩
  simp only [poll, ← horder] at hpoll
  rcases hv : Join.visit pollOne j.isLarge order j s with ⟨s₁, j₁⟩
  rw [hv] at hpoll
  rcases hf : failure? j.isLarge j₁ with - | e <;> rcases hs : results? j₁ with - | rs <;>
    simp only [hf, hs] at hpoll
  · cases hpoll
    refine (h.leaves_visit j.isLarge order hframe hsize hv).imp fun hwaits state hstate => ?_
    obtain ⟨i, hi⟩ := List.mem_iff_getElem?.1 hstate
    by_cases hmem : i ∈ order
    · exact hwaits i hmem state hi
    · exact waits_of_not_mem_order hi (horder ▸ hmem)
  · cases hpoll
  · cases hpoll
  · cases hpoll

/-- Time that passes brings everybody nearer, and whoever is woken most of all. -/
theorem allLeft_lt (hsize : j.length ≤ size)
    (hwaits : ∀ state, .busy state ∈ j → Waits alarm? now state) {a : Alarm}
    (ha : a ∈ j.alarms alarm?) :
    allLeft alarm? span size a.due j < allLeft alarm? span size now j := by
  obtain ⟨p, hp, hpa⟩ := List.mem_filterMap.1 ha
  rcases p with state | result
  · obtain ⟨a', ha', -, hdue⟩ := hwaits state hp
    obtain rfl : a' = a := Option.some.inj (ha'.symm.trans hpa)
    obtain ⟨i, hi⟩ := List.mem_iff_getElem?.1 hp
    have hlt := (List.getElem?_eq_some_iff.1 hi).1
    refine Pi.lt_def.2 ⟨fun k => ?_, ⟨i, hlt.trans_le hsize⟩, ?_⟩ <;> unfold allLeft
    · rcases j[(k : Nat)]? with - | (other | result)
      · exact le_rfl
      · refine WithBot.coe_le_coe.2 (Prod.Lex.toLex_le_toLex.2 (.inr ⟨rfl, ?_⟩))
        rcases alarm? other with - | b
        · exact Nat.le_refl _
        · exact Alarm.lag_anti hdue.le
      · exact le_rfl
    · rw [hi]
      refine WithBot.coe_lt_coe.2 (Prod.Lex.toLex_lt_toLex.2 (.inr ⟨rfl, ?_⟩))
      rw [ha']
      exact Alarm.lag_lt hdue (Nat.le_refl _)
  · cases hpa

end Join

theorem Course.poll_nears :
    Join.Nears (Course.poll (α := α)) Course.alarm? Course.span where
  acts c s := (Course.poll_meets c.meets_free (Bounds.free_covers s)).1
  nearer {c c' s} _ h := by
    cases c with
    | ahead work => exact .inl (Work.span_perform (Prod.ext rfl h)).1
    | asleep alarm inner rest =>
      rcases ha : s.await alarm with ⟨- | a, s₁⟩ <;> simp only [poll, ha] at h ⊢
      · exact .inl (Work.span_perform (Prod.ext rfl h)).1
      · cases h
        exact .inr ⟨rfl, alarm, a, rfl, rfl, ha⟩
  waits {c c' s} _ hturn h := by
    cases c with
    | ahead work => exact (Work.span_perform (Prod.ext rfl h)).2 hturn
    | asleep alarm inner rest =>
      have hawait := (Stage.Acts.await (B := .free) s alarm).frame
      rcases ha : s.await alarm with ⟨- | a, s₁⟩ <;> rw [ha] at hawait <;>
        simp only [poll, ha] at h hturn
      · rw [← hawait.now]
        exact (Work.span_perform (Prod.ext rfl h)).2 hturn
      · cases h
        exact ⟨a, rfl, Stage.await_sets (Nat.lt_of_lt_of_le hturn hawait.turn) ha⟩

theorem Ride.poll_nears (recorded : Bool) :
    Join.Nears (Ride.poll recorded) Ride.alarm? Ride.span where
  acts := Ride.poll_acts recorded
  nearer {r r' s} hframe h := by
    cases r with
    | ahead target animation =>
      -- whatever it comes to, it has begun
      have hmoving : ∃ m next, r' = .moving m next := by
        rcases hl : (report recorded s (.animate target animation)).driver.launch? target animation
          (report recorded s (.animate target animation)).now with - | ⟨m, d⟩ <;>
          simp only [poll, hl] at h
        · cases h
        · split at h
          · obtain ⟨next, hr⟩ := write_busy h
            exact ⟨m, next, hr⟩
          · obtain ⟨next, hr⟩ := frame_busy h
            exact ⟨m, next, hr⟩
      obtain ⟨m, next, rfl⟩ := hmoving
      refine .inl ?_
      rw [span, span]
      exact Ordinal.natCast_lt_omega0 _
    | moving m next =>
      rcases ha : s.await next with ⟨- | a, s₁⟩ <;> simp only [poll, frame, ha] at h ⊢
      · obtain ⟨hdue, rfl⟩ := Stage.await_none ha
        exact .inl (span_write (s := s.spend) hframe hdue (Prod.ext rfl h))
      · cases h
        refine .inr ⟨?_, next, a, rfl, rfl, ha⟩
        rw [span, span, (Stage.await_some ha).1]
  waits hframe hturn h := Ride.poll_waits_of_turn hframe hturn h

/-! ### How much is left of an activity -/

/-- A visit to a join leaves as many members, or as many results. -/
theorem Join.length_poll {σ ρ : Type}
    (pollOne : σ → Stage → Stage × Progress σ (Except StepError ρ)) (alarm? : σ → Option Alarm)
    (j : Join σ ρ) (s : Stage) :
    (∀ j', (j.poll pollOne alarm? s).2 = .busy j' → j'.length = j.length) ∧
      ∀ rs, (j.poll pollOne alarm? s).2 = .finished (.ok rs) → rs.length = j.length := by
  obtain ⟨order, horder⟩ :
      ∃ order, order = if j.isLarge then j.woken alarm? s.now else List.range j.length := ⟨_, rfl⟩
  have hlength : (visit pollOne j.isLarge order j s).2.length = j.length := length_visit order j s
  simp only [poll, ← horder]
  rcases hv : visit pollOne j.isLarge order j s with ⟨s₁, j₁⟩
  rw [hv] at hlength
  rcases hf : failure? j.isLarge j₁ with - | e <;> rcases hs : results? j₁ with - | rs <;>
    refine ⟨fun _ he => ?_, fun _ he => ?_⟩ <;> cases he
  · exact hlength
  · rw [← hlength, results?_eq_some_iff.1 hs, List.length_map]

namespace Activity

variable {a a' : Activity} {convoy : Convoy} {s s' : Stage} {now n : Nat}

/-- The number of those who are under way together. -/
def size : Activity → Nat
  | working _ => 1
  | preparing members => members.length
  | animating convoy => convoy.length
  | holding _ => 0

/-- A course as the only member of a join. -/
def single (course : Course Flow) : Join (Course Flow) Flow :=
  [.busy course]

/-- Everybody who is under way waits. -/
def Rests (now : Nat) : Activity → Prop
  | working course => Join.Waits Course.alarm? now course
  | preparing members => ∀ c, .busy c ∈ members → Join.Waits Course.alarm? now c
  | animating convoy => ∀ r, .busy r ∈ convoy → Join.Waits Ride.alarm? now r
  | holding _ => True

/-- How far an activity is from its end: animations are still to come as long as they are prepared,
and then there is as much left as there is of everybody. -/
noncomputable def left (n now : Nat) : Activity → ℕ ×ₗ (Fin n → WithBot (Ordinal.{0} ×ₗ ℕ))
  | working course =>
    toLex (0, Join.allLeft Course.alarm? Course.span n now (single course))
  | preparing members => toLex (1, Join.allLeft Course.alarm? Course.span n now members)
  | animating convoy => toLex (0, Join.allLeft Ride.alarm? Ride.span n now convoy)
  | holding _ => toLex (0, ⊥)

theorem pollConvoy_leaves (hframe : 0 < s.driver.frame.nanos) (hsize : convoy.length ≤ n)
    (hpoll : pollConvoy convoy s = (s', .busy a')) :
    s.Leaves s' ((animating convoy).left n s.now) (a'.left n s.now)
      ((animating convoy).Rests s.now) := by
  simp only [pollConvoy, Convoy.poll] at hpoll
  rcases hp : Join.poll (Ride.poll true) Ride.alarm? convoy s with ⟨s₁, c | e | rs⟩ <;>
    simp only [hp] at hpoll
  · cases hpoll
    exact ((Ride.poll_nears true).leaves_poll hframe hsize hp).toLex_right 0
  · cases hpoll
  · cases hpoll

/-- **A visit to an activity** leaves no more of it than there was, and less in a turn unless everybody
waits. -/
theorem poll_leaves (hframe : 0 < s.driver.frame.nanos) (hsize : a.size ≤ n)
    (hpoll : a.poll s = (s', .busy a')) :
    s.Leaves s' (a.left n s.now) (a'.left n s.now) (a.Rests s.now) := by
  cases a with
  | working course =>
    rcases hp : course.poll s with ⟨s₁, course' | result⟩ <;> simp only [poll, hp] at hpoll
    · cases hpoll
      have hone : (single course)[0]? = some (.busy course) := rfl
      exact (Join.leaves_set hone hsize (Course.poll_nears.leaves hframe hp)).toLex_right 0
    · cases hpoll
  | preparing members =>
    rcases hp : Join.poll Course.poll Course.alarm? members s with ⟨s₁, members' | e | batch⟩ <;>
      simp only [poll, hp] at hpoll
    · cases hpoll
      exact (Course.poll_nears.leaves_poll hframe hsize hp).toLex_right 1
    · cases hpoll
    · -- what is prepared is animated from now on
      simp only [pollConvoy] at hpoll
      rcases hc : (Convoy.ofBatch batch).poll true s₁ with ⟨s₂, c | e | u⟩ <;>
        simp only [hc] at hpoll
      · cases hpoll
        exact .of_lt (Prod.Lex.toLex_lt_toLex.2 (.inl Nat.zero_lt_one))
      · cases hpoll
      · cases hpoll
  | animating convoy => exact pollConvoy_leaves hframe hsize hpoll
  | holding release =>
    cases release with
    | none =>
      cases hpoll
      exact ⟨le_rfl, fun _ => .inr ⟨rfl, trivial⟩⟩
    | some release => cases hpoll

theorem size_pollConvoy (hpoll : pollConvoy convoy s = (s', .busy a')) :
    a'.size = convoy.length := by
  simp only [pollConvoy, Convoy.poll] at hpoll
  rcases hp : Join.poll (Ride.poll true) Ride.alarm? convoy s with ⟨s₁, c | e | rs⟩ <;>
    simp only [hp] at hpoll
  · cases hpoll
    exact (Join.length_poll _ _ convoy s).1 c (congrArg Prod.snd hp)
  · cases hpoll
  · cases hpoll

/-- As many are under way as before. -/
theorem size_poll (hpoll : a.poll s = (s', .busy a')) : a'.size = a.size := by
  cases a with
  | working course =>
    rcases hp : course.poll s with ⟨s₁, course' | result⟩ <;> simp only [poll, hp] at hpoll
    · cases hpoll
      rfl
    · cases hpoll
  | preparing members =>
    rcases hp : Join.poll Course.poll Course.alarm? members s with ⟨s₁, members' | e | batch⟩ <;>
      simp only [poll, hp] at hpoll
    · cases hpoll
      exact (Join.length_poll _ _ members s).1 members' (congrArg Prod.snd hp)
    · cases hpoll
    · rw [size_pollConvoy hpoll, size, Convoy.ofBatch, List.length_map]
      exact (Join.length_poll _ _ members s).2 batch (congrArg Prod.snd hp)
  | animating convoy => exact size_pollConvoy hpoll
  | holding release =>
    cases release with
    | none =>
      cases hpoll
      rfl
    | some release => cases hpoll

theorem pollConvoy_rests (hframe : 0 < s.driver.frame.nanos)
    (hpoll : pollConvoy convoy s = (s', .busy a')) (hturn : 0 < s'.turn) : a'.Rests s.now := by
  simp only [pollConvoy] at hpoll
  rcases hp : convoy.poll true s with ⟨s₁, c | e | u⟩ <;> simp only [hp] at hpoll
  · cases hpoll
    exact fun r hr => Convoy.poll_waits true hframe hp hturn hr
  · cases hpoll
  · cases hpoll

/-- **Whoever has a turn left rests.** -/
theorem poll_rests (hframe : 0 < s.driver.frame.nanos) (hpoll : a.poll s = (s', .busy a'))
    (hturn : 0 < s'.turn) : a'.Rests s.now := by
  cases a with
  | working course =>
    rcases hp : course.poll s with ⟨s₁, course' | result⟩ <;> simp only [poll, hp] at hpoll
    · cases hpoll
      exact Course.poll_nears.waits hframe (hp ▸ hturn) (congrArg Prod.snd hp)
    · cases hpoll
  | preparing members =>
    have hacts := Join.poll_acts Course.poll_nears.acts Course.alarm? members s
    rcases hp : Join.poll Course.poll Course.alarm? members s with ⟨s₁, members' | e | batch⟩ <;>
      rw [hp] at hacts <;> simp only [poll, hp] at hpoll
    · cases hpoll
      exact fun c hc =>
        Join.poll_waits Course.poll_nears.acts Course.poll_nears.waits hframe hp hturn hc
    · cases hpoll
    · have hframe₁ : 0 < s₁.driver.frame.nanos := by rwa [hacts.touched.frame]
      rw [← hacts.frame.now]
      exact pollConvoy_rests hframe₁ hpoll hturn
  | animating convoy => exact pollConvoy_rests hframe hpoll hturn
  | holding release =>
    cases release with
    | none =>
      cases hpoll
      trivial
    | some release => cases hpoll

/-- Less is left of an activity that rests when the time of somebody's alarm has come. -/
theorem Rests.left_lt (h : a.Rests now) (hsize : a.size ≤ n) {alarm : Alarm}
    (halarm : alarm ∈ a.alarms) : a.left n alarm.due < a.left n now := by
  cases a with
  | working course =>
    refine Prod.Lex.toLex_lt_toLex.2 (.inr ⟨rfl, Join.allLeft_lt hsize ?_ ?_⟩)
    · intro c hc
      obtain rfl := Progress.busy.inj (List.mem_singleton.1 hc)
      exact h
    · have hsome : course.alarm? = some alarm := Option.mem_toList.1 halarm
      exact List.mem_filterMap.2 ⟨_, List.mem_singleton_self _, hsome⟩
  | preparing members =>
    exact Prod.Lex.toLex_lt_toLex.2 (.inr ⟨rfl, Join.allLeft_lt hsize h halarm⟩)
  | animating convoy =>
    exact Prod.Lex.toLex_lt_toLex.2 (.inr ⟨rfl, Join.allLeft_lt hsize h halarm⟩)
  | holding _ => cases halarm

/-- Whoever rests goes on doing so until somebody is woken. -/
theorem Rests.later (h : a.Rests now) {time : Nat} (hearly : ∀ alarm ∈ a.alarms, time < alarm.due) :
    a.Rests time := by
  cases a with
  | working course =>
    obtain ⟨alarm, halarm, hset, -⟩ := h
    exact ⟨alarm, halarm, hset, hearly alarm (Option.mem_toList.2 halarm)⟩
  | preparing members =>
    intro c hc
    obtain ⟨alarm, halarm, hset, -⟩ := h c hc
    exact ⟨alarm, halarm, hset, hearly alarm (List.mem_filterMap.2 ⟨_, hc, halarm⟩)⟩
  | animating convoy =>
    intro r hr
    obtain ⟨alarm, halarm, hset, -⟩ := h r hr
    exact ⟨alarm, halarm, hset, hearly alarm (List.mem_filterMap.2 ⟨_, hr, halarm⟩)⟩
  | holding _ => trivial

end Activity

end Timeline
