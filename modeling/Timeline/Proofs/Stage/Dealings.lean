/-
Timeline/Proofs/Stage/Dealings.lean

What the machine itself does to the values, and when.

Called functions write values on their own account, and so does whoever animates them from
outside.  `Stage.dealings` are the writes of the machine itself and the animations that it
asks for, as the journal has them.  `Stage.Refrains` says that none has been added and that the
same targets are known.

`Work.Careful` is work that writes a target at its very end only, once all that could fail
before is done, and that may be known not to fail at all.  Main results: what such work comes
to (`Course.poll_careful`), what holds of each member of a join that is visited
(`Join.Minds.poll`), and that animations from outside are no dealings of the machine
(`Convoy.poll_refrains`), while its own fail only if a target is unknown
(`Convoy.poll_blames`).
-/
import Timeline.Proofs.Stage.Visits

namespace Timeline

open Stage

/-- Whether an event is a write of the machine itself, or an animation that it asks for. -/
def Event.isDealing : Event → Bool
  | .set _ _ _ | .animate _ _ => true
  | _ => false

namespace Stage

variable {s s' s'' : Stage}

/-- The dealings of the machine in the journal, the latest first. -/
def dealings (s : Stage) : List Event :=
  (s.journal.map Record.event).filter Event.isDealing

theorem dealings_note {e : Event} (he : e.isDealing = false) :
    (s.note e).dealings = s.dealings := by
  have hnot : ¬ e.isDealing = true := by
    rw [he]
    exact Bool.false_ne_true
  simp only [dealings, note, List.map_cons, List.filter_cons_of_neg hnot]

/-- Nothing has been added to the dealings of the machine, and the same targets are known. -/
structure Refrains (s s' : Stage) : Prop where
  dealings : s'.dealings = s.dealings
  known : ∀ target, (s'.driver.get? target).isSome = (s.driver.get? target).isSome

namespace Refrains

theorem refl : s.Refrains s :=
  ⟨rfl, fun _ => rfl⟩

theorem trans (h : s.Refrains s') (h' : s'.Refrains s'') : s.Refrains s'' :=
  ⟨h'.dealings.trans h.dealings, fun target => (h'.known target).trans (h.known target)⟩

/-- Whatever adds nothing to the dealings spares the values if it is a series of acts. -/
theorem of_acts {B : Bounds} (h : Acts B s s') (hdealings : s'.dealings = s.dealings) :
    s.Refrains s' :=
  ⟨hdealings, h.frame.held⟩

theorem note {e : Event} (he : e.isDealing = false) : s.Refrains (s.note e) :=
  ⟨dealings_note he, fun _ => rfl⟩

theorem set (s : Stage) (target : String) (value : Float) : s.Refrains (s.set target value).2 := by
  refine .of_acts (Acts.set (B := .free) s target value) ?_
  unfold Stage.set
  split
  · exact dealings_note rfl
  · rfl

theorem await (s : Stage) (a : Alarm) : s.Refrains (s.await a).2 := by
  refine .of_acts (Acts.await (B := .free) s a) ?_
  unfold Stage.await
  split
  · rfl
  · split
    · rfl
    · rfl

theorem call? {name : String} {arg : Option Json} {body : Routine}
    (h : s.call? name arg = some (body, s')) : s.Refrains s' := by
  refine .of_acts (Acts.call? (B := .free) h) ?_
  obtain ⟨r, -, rfl⟩ := Stage.call?_eq_some h
  exact dealings_note rfl

/-- A function that is called deals on its own account. -/
theorem run (r : Routine) (s : Stage) : s.Refrains (r.run s).1 := by
  induction r generalizing s with
  | done result => exact .refl
  | sleep time rest ih =>
    have hawait := Refrains.await s (s.alarmAfter time)
    rcases h : s.await (s.alarmAfter time) with ⟨- | a, s'⟩ <;> rw [h] at hawait <;>
      simp only [Routine.run, h]
    · exact hawait.trans (ih s')
    · exact hawait
  | write target value rest ih => exact (Refrains.set s target value).trans (ih _)
  | read target rest ih => exact ih _ s

end Refrains

/-- The targets that are known on a stage. -/
def Knows (s : Stage) (known : String → Prop) : Prop :=
  ∀ target, (s.driver.get? target).isSome ↔ known target

theorem Knows.acts {known : String → Prop} {B : Bounds} (h : s.Knows known) (hs : Acts B s s') :
    s'.Knows known := fun target => by
  rw [hs.frame.held target]
  exact h target

theorem Knows.refrains {known : String → Prop} (h : s.Knows known) (hs : s.Refrains s') :
    s'.Knows known := fun target => by
  rw [hs.known target]
  exact h target

end Stage

/-! ### Careful work -/

/-- What is to be known of work that is careful. -/
structure Care where
  /-- The targets that are known. -/
  known : String → Prop
  /-- The targets that the work may write. -/
  dealt : String → Prop
  /-- Whether the work may fail. -/
  fails : Prop

/-- The same, for work that writes nothing. -/
def Care.resolving (C : Care) : Care :=
  { C with dealt := fun _ => False }

variable {α β : Type} {C : Care} {P : α → Prop} {Q : β → Prop} {s s' : Stage}

/-- What has become of the stage with what careful work comes to. -/
def Care.Allows {σ ρ : Type} (C : Care) (P : σ → Prop) (Q : ρ → Prop) (s s' : Stage) :
    Progress σ (Except StepError ρ) → Prop
  | .busy state => s.Refrains s' ∧ P state
  | .finished (.ok result) => (s.Refrains s' ∨ ∃ target, C.dealt target) ∧ Q result
  | .finished (.error e) =>
    C.fails ∧ (s.Refrains s' ∨ ∃ target, C.dealt target ∧ e = .unknownTarget target)

theorem Care.Allows.of_refrains {σ ρ : Type} {P : σ → Prop} {Q : ρ → Prop} {s₁ : Stage}
    {p : Progress σ (Except StepError ρ)} (h : C.Allows P Q s₁ s' p) (hs : s.Refrains s₁) :
    C.Allows P Q s s' p := by
  rcases p with state | e | result
  · exact ⟨hs.trans h.1, h.2⟩
  · exact ⟨h.1, h.2.imp_left hs.trans⟩
  · exact ⟨h.1.imp_left hs.trans, h.2⟩

/-- A function that is called may fail, if it gives no value at once. -/
def Care.Calls (C : Care) (body : Routine) : Prop :=
  C.fails ∨ ∃ v, body = .value v

/-- Work that resolves all that it has to resolve before it writes a target, at its end, and that
fails only if it may. -/
def Work.Careful (C : Care) (P : α → Prop) : Work α → Prop
  | done result => P result
  | fail _ => C.fails
  | sleep _ rest => rest.Careful C P
  | look target rest => ∀ v, (v.isSome ↔ C.known target) → (rest v).Careful C P
  | set target _ rest => C.dealt target ∧ C.fails ∧ ∃ result, rest = .done result ∧ P result
  | vibrate rest => rest.Careful C P
  | call _ _ rest => C.fails ∧ ∀ v, (rest v).Careful C P
  | run body rest => C.Calls body ∧ ∀ v, (rest v).Careful C P

/-- A course that is careful. -/
def Course.Careful (C : Care) (P : α → Prop) : Course α → Prop
  | ahead work => work.Careful C P
  | asleep _ inner rest => C.Calls inner ∧ ∀ v, (rest v).Careful C P

namespace Work

/-- Careful work, after work that writes nothing. -/
theorem Careful.bind {w : Work α} {f : α → Work β} (hw : w.Careful C.resolving P)
    (hf : ∀ r, P r → (f r).Careful C Q) : (w.bind f).Careful C Q := by
  induction w with
  | done r => exact hf r hw
  | fail e => exact hw
  | sleep _ _ ih => exact ih hw
  | look _ _ ih => exact fun v hv => ih v (hw v hv)
  | set _ _ _ _ => exact hw.1.elim
  | vibrate _ ih => exact ih hw
  | call _ _ _ ih => exact ⟨hw.1, fun v => ih v (hw.2 v)⟩
  | run _ _ ih => exact ⟨hw.1, fun v => ih v (hw.2 v)⟩

/-- What follows the run of a routine. -/
theorem perform_run_careful {rest : Json → Work α}
    (ih : ∀ v s, s.Knows C.known →
      C.Allows (Course.Careful C P) P s ((rest v).perform s).1 ((rest v).perform s).2)
    (hrest : ∀ v, (rest v).Careful C P) {body : Routine} (hbody : C.Calls body)
    (hs : s.Knows C.known) :
    C.Allows (Course.Careful C P) P s ((run body rest).perform s).1
      ((run body rest).perform s).2 := by
  rcases hbody with hfails | ⟨v, rfl⟩
  · have hrun := Refrains.run body s
    rcases h : body.run s with ⟨s', ⟨alarm, inner⟩ | e | v⟩ <;> rw [h] at hrun <;>
      simp only [perform, h]
    · exact ⟨hrun, .inl hfails, hrest⟩
    · exact ⟨hfails, .inl hrun⟩
    · exact (ih v s' (hs.refrains hrun)).of_refrains hrun
  · exact ih v s hs

/-- **Careful work** spares the values as long as it may still fail. -/
theorem perform_careful {w : Work α} (h : w.Careful C P) (hs : s.Knows C.known) :
    C.Allows (Course.Careful C P) P s (w.perform s).1 (w.perform s).2 := by
  induction w generalizing s with
  | done result => exact ⟨.inl .refl, h⟩
  | fail e => exact ⟨h, .inl .refl⟩
  | sleep time rest ih =>
    have hawait := Refrains.await s (s.alarmAfter time)
    rcases ha : s.await (s.alarmAfter time) with ⟨- | a, s'⟩ <;> rw [ha] at hawait <;>
      simp only [perform, ha]
    · exact (ih h (hs.refrains hawait)).of_refrains hawait
    · exact ⟨hawait, .inr ⟨.null, rfl⟩, fun _ => h⟩
  | look target rest ih => exact ih _ (h _ (hs target)) hs
  | set target value rest ih =>
    obtain ⟨hdealt, hfails, result, rfl, hresult⟩ := h
    rcases hset : s.set target value with ⟨known, s'⟩
    cases known with
    | true =>
      simp only [perform, hset, if_true]
      exact ⟨.inr ⟨target, hdealt⟩, hresult⟩
    | false =>
      simp only [perform, hset, Bool.false_eq_true, if_false]
      exact ⟨hfails, .inr ⟨target, hdealt, rfl⟩⟩
  | vibrate rest ih =>
    have hnote : s.Refrains (s.note .vibrated) := .note rfl
    exact (ih h (hs.refrains hnote)).of_refrains hnote
  | call name arg rest ih =>
    obtain ⟨hfails, hrest⟩ := h
    rcases hcall : s.call? name arg with - | ⟨body, s'⟩
    · simp only [perform, hcall]
      exact ⟨hfails, .inl (.note rfl)⟩
    · have hkept := Refrains.call? hcall
      rw [perform_call hcall]
      exact (perform_run_careful (fun v _ => ih v (hrest v)) hrest (.inl hfails)
        (hs.refrains hkept)).of_refrains hkept
  | run body rest ih => exact perform_run_careful (fun v _ => ih v (h.2 v)) h.2 h.1 hs

end Work

/-- A visit to a course that is careful. -/
theorem Course.poll_careful {c : Course α} (h : c.Careful C P) (hs : s.Knows C.known) :
    C.Allows (Course.Careful C P) P s (c.poll s).1 (c.poll s).2 := by
  cases c with
  | ahead work => exact Work.perform_careful h hs
  | asleep alarm inner rest =>
    have hawait := Refrains.await s alarm
    rcases ha : s.await alarm with ⟨- | a, s'⟩ <;> rw [ha] at hawait <;> simp only [poll, ha]
    · have hrun : (Work.run inner rest).Careful C P := h
      exact (Work.perform_careful hrun (hs.refrains hawait)).of_refrains hawait
    · exact ⟨hawait, h⟩

/-! ### Each member of a join -/

namespace Join

variable {σ ρ : Type} {pollOne : σ → Stage → Stage × Progress σ (Except StepError ρ)}
  {I : Stage → Prop} {E : Nat → Progress σ (Except StepError ρ) → Prop} {K : Stage → Stage → Prop}
  {j : Join σ ρ} {s : Stage}

/-- Something is known of each member of a join, by its number. -/
def Each (E : Nat → Progress σ (Except StepError ρ) → Prop) (j : Join σ ρ) : Prop :=
  ∀ (i : Nat) p, j[i]? = some p → E i p

theorem Each.set (h : j.Each E) {i : Nat} {p : Progress σ (Except StepError ρ)} (hp : E i p) :
    Each E (j.set i p) := by
  intro k q hq
  by_cases hk : i = k
  · subst hk
    rw [List.getElem?_set_self'] at hq
    obtain ⟨_, -, rfl⟩ := Option.map_eq_some_iff.1 hq
    exact hp
  · rw [List.getElem?_set_ne hk] at hq
    exact h k q hq

/-- A visit to a member changes the stage in a certain way only, and leaves what is known of the
member, which may be under way or over. -/
structure Minds (pollOne : σ → Stage → Stage × Progress σ (Except StepError ρ)) (I : Stage → Prop)
    (E : Nat → Progress σ (Except StepError ρ) → Prop) (K : Stage → Stage → Prop) : Prop where
  refl : ∀ s, K s s
  trans : ∀ {s s' s''}, K s s' → K s' s'' → K s s''
  mono : ∀ {s s'}, K s s' → I s → I s'
  one : ∀ {s i state}, I s → E i (.busy state) →
    K s (pollOne state s).1 ∧ E i (pollOne state s).2

theorem Minds.visits (h : Minds pollOne I E K) (large : Bool) (order : List Nat) (hj : j.Each E)
    (hs : I s) :
    K s (visit pollOne large order j s).1 ∧ Each E (visit pollOne large order j s).2 := by
  induction order generalizing j s with
  | nil => exact ⟨h.refl s, hj⟩
  | cons i rest ih =>
    rcases hi : j[i]? with - | (state | result) <;> simp only [visit, hi]
    · exact ih hj hs
    · obtain ⟨hkept, hE⟩ := h.one hs (hj i _ hi)
      rcases hp : pollOne state s with ⟨s', state' | result⟩ <;> rw [hp] at hkept hE
      · obtain ⟨hrest, hall⟩ := ih (hj.set (p := .busy state') hE) (h.mono hkept hs)
        exact ⟨h.trans hkept hrest, hall⟩
      · have hset := hj.set (p := .finished result) hE
        dsimp only
        split
        · exact ⟨hkept, hset⟩
        · obtain ⟨hrest, hall⟩ := ih hset (h.mono hkept hs)
          exact ⟨h.trans hkept hrest, hall⟩
    · exact ih hj hs

/-- What is known of each member of a join that has been visited, whatever it has come to. -/
def Comes (E : Nat → Progress σ (Except StepError ρ) → Prop) (size : Nat) :
    Progress (Join σ ρ) (Except StepError (List ρ)) → Prop
  | .busy j => j.length = size ∧ Each E j
  | .finished (.ok _) => ∀ i < size, ∃ r, E i (.finished (.ok r))
  | .finished (.error e) => ∃ i, E i (.finished (.error e))

/-- **What is known of each member** of a join is known after a visit. -/
theorem Minds.poll (h : Minds pollOne I E K) (alarm? : σ → Option Alarm) (hj : j.Each E)
    (hs : I s) :
    K s (Join.poll pollOne alarm? j s).1 ∧
      Comes E j.length (Join.poll pollOne alarm? j s).2 := by
  obtain ⟨hkept, hall⟩ := h.visits j.isLarge
    (if j.isLarge then j.woken alarm? s.now else List.range j.length) hj hs
  have hlength : (visit pollOne j.isLarge
      (if j.isLarge then j.woken alarm? s.now else List.range j.length) j s).2.length = j.length :=
    length_visit ..
  simp only [Join.poll]
  generalize visit pollOne j.isLarge _ j s = result at hkept hall hlength
  obtain ⟨s', j'⟩ := result
  dsimp only at hkept hall hlength ⊢
  rcases hfailure : failure? j.isLarge j' with - | e
  · rcases hresults : results? j' with - | results
    · exact ⟨hkept, hlength, hall⟩
    · refine ⟨hkept, fun i hi => ?_⟩
      obtain ⟨r, hr⟩ := finished_of_results? hresults i (hlength ▸ hi)
      exact ⟨r, hall i _ hr⟩
  · obtain ⟨i, hi⟩ := exists_of_failure? hfailure
    exact ⟨hkept, i, hall i _ hi⟩

end Join

/-! ### Rides and convoys -/

namespace Ride

variable {recorded : Bool} {r : Ride}

/-- A frame that is written is no dealing of the machine, unless its end is reported. -/
theorem write_refrains (m : Motion Float) (s : Stage) : s.Refrains (write false m s).1 := by
  refine .of_acts (write_meets (B := .free) false m s).1 ?_
  unfold write
  split
  · rfl
  · dsimp only
    split
    · exact dealings_note rfl
    · exact dealings_note rfl

theorem frame_refrains (m : Motion Float) (next : Alarm) (s : Stage) :
    s.Refrains (frame false m next s).1 := by
  have hawait := Refrains.await s next
  rcases ha : s.await next with ⟨- | a, s'⟩ <;> rw [ha] at hawait <;> simp only [frame, ha]
  · exact hawait.trans (write_refrains m s')
  · exact hawait

/-- Rides from outside are no dealings of the machine. -/
theorem poll_refrains (r : Ride) (s : Stage) : s.Refrains (poll false r s).1 := by
  cases r with
  | moving m next => exact frame_refrains m next s
  | ahead target animation =>
    have hknown := (poll_acts false (.ahead target animation) s).frame.held
    refine ⟨?_, hknown⟩
    rcases hl : s.driver.launch? target animation s.now with - | ⟨m, d⟩ <;>
      simp only [poll, report, Bool.false_eq_true, if_false, hl]
    split
    · exact (write_refrains m { s with driver := d }).dealings
    · exact (frame_refrains m _ { s with driver := d }).dealings

/-- A ride fails only if its target is unknown. -/
theorem poll_error {s : Stage} {e : StepError} (h : (poll recorded r s).2 = .finished (.error e)) :
    ∃ target, e = .unknownTarget target ∧ s.driver.get? target = none := by
  obtain ⟨-, deeds, -, hpaces⟩ := poll_paces recorded r s 0
  rw [h] at hpaces
  generalize (poll recorded r s).1.driver = d at hpaces
  cases hpaces with
  | one hpace =>
    cases hpace with
    | refuse hnone => exact ⟨_, rfl, congrArg (Option.map Slot.value) hnone⟩
  | two hclaim hpace =>
    -- whoever has claimed its target knows it
    cases hclaim <;> cases hpace

/-- What is known of a ride of the machine: it fails only if its target is unknown. -/
def Blames (known : String → Prop) (p : Progress Ride (Except StepError Unit)) : Prop :=
  ∀ e, p = .finished (.error e) → ∃ target, e = .unknownTarget target ∧ ¬ known target

end Ride

namespace Convoy

variable {known : String → Prop} {s : Stage} {c : Convoy}

/-- **Animations from outside** are no dealings of the machine. -/
theorem poll_refrains (c : Convoy) (s : Stage) : s.Refrains (c.poll false s).1 := by
  have hminds : Join.Minds (Ride.poll false) (fun _ => True) (fun _ _ => True) Stage.Refrains :=
    ⟨fun _ => .refl, .trans, fun _ _ => trivial, fun _ _ => ⟨Ride.poll_refrains _ _, trivial⟩⟩
  obtain ⟨hkept, -⟩ := hminds.poll (j := c) Ride.alarm? (s := s) (fun _ _ _ => trivial) trivial
  unfold poll
  rcases hp : Join.poll (Ride.poll false) Ride.alarm? c s with ⟨s', c' | result⟩ <;>
    rw [hp] at hkept <;> exact hkept

theorem minds_blames (recorded : Bool) :
    Join.Minds (Ride.poll recorded) (Stage.Knows · known) (fun _ => Ride.Blames known)
      (Acts .free) where
  refl _ := .refl
  trans := .trans
  mono hacts hs := hs.acts hacts
  one {s i r} hs h := by
    refine ⟨Ride.poll_acts recorded r s, fun e he => ?_⟩
    obtain ⟨target, rfl, hnone⟩ := Ride.poll_error he
    refine ⟨target, rfl, fun hknown => ?_⟩
    have hsome := (hs target).2 hknown
    rw [hnone] at hsome
    cases hsome

/-- **Animations of the machine** fail only if a target is unknown. -/
theorem poll_blames (recorded : Bool) (h : Join.Each (fun _ => Ride.Blames known) c)
    (hs : s.Knows known) :
    match (c.poll recorded s).2 with
    | .busy c' => Join.Each (fun _ => Ride.Blames known) c'
    | .finished (.ok _) => True
    | .finished (.error e) => ∃ target, e = .unknownTarget target ∧ ¬ known target := by
  obtain ⟨-, hcomes⟩ := (minds_blames recorded).poll Ride.alarm? h hs
  unfold poll
  rcases hp : Join.poll (Ride.poll recorded) Ride.alarm? c s with ⟨s', c' | e | result⟩ <;>
    rw [hp] at hcomes
  · exact hcomes.2
  · obtain ⟨i, hblames⟩ := hcomes
    exact hblames e rfl
  · trivial

end Convoy

end Timeline
