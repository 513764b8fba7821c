/-
Timeline/Proofs/Stage/Stillness.lean

What does not vibrate.

`Work.Still` is work without a vibration in it; so are the courses, joins and activities that
are made of such work, and animations, whatever functions they call.  Main results: a visit to a
still activity adds no vibration to the journal and leaves a still activity
(`Activity.poll_still`), and every step begins with a still activity, but for a `vibrate` step
that is to be felt (`Machine.begin_still`), which vibrates once at its first visit
(`Activity.poll_vibrating`).
-/
import Timeline.Proofs.Stage.Dealings

namespace Timeline

open Stage

/-- Whether an event is a vibration. -/
def Event.isVibration : Event → Bool
  | .vibrated => true
  | _ => false

namespace Stage

variable {s s' : Stage}

/-- The number of vibrations in the journal. -/
def vibrations (s : Stage) : Nat :=
  s.journal.countP fun r => r.event.isVibration

theorem vibrations_note {e : Event} (he : e.isVibration = false) :
    (s.note e).vibrations = s.vibrations := by
  simp [vibrations, note, he]

theorem vibrations_set (s : Stage) (target : String) (value : Float) :
    (s.set target value).2.vibrations = s.vibrations := by
  unfold Stage.set
  split
  · exact vibrations_note rfl
  · rfl

theorem vibrations_await (s : Stage) (a : Alarm) : (s.await a).2.vibrations = s.vibrations := by
  unfold Stage.await
  split
  · rfl
  · split
    · rfl
    · rfl

theorem vibrations_call? {name : String} {arg : Option Json} {body : Routine}
    (h : s.call? name arg = some (body, s')) : s'.vibrations = s.vibrations := by
  obtain ⟨r, -, rfl⟩ := Stage.call?_eq_some h
  exact vibrations_note rfl

/-- A function that is called does not vibrate. -/
theorem vibrations_run (r : Routine) (s : Stage) : (r.run s).1.vibrations = s.vibrations := by
  induction r generalizing s with
  | done result => rfl
  | sleep time rest ih =>
    have hawait := vibrations_await s (s.alarmAfter time)
    rcases h : s.await (s.alarmAfter time) with ⟨- | a, s'⟩ <;> rw [h] at hawait <;>
      simp only [Routine.run, h]
    · exact (ih s').trans hawait
    · exact hawait
  | write target value rest ih => exact (ih _).trans (vibrations_set s target value)
  | read target rest ih => exact ih _ s

/-- What acts have added to the journal holds no vibration, if their number is the same. -/
theorem Acts.not_vibrated {B : Bounds} (h : Acts B s s') (hcount : s'.vibrations = s.vibrations) :
    ∃ new, s'.journal = new ++ s.journal ∧
      ∀ r ∈ new, B.Permits r.event ∧ r.event.isVibration = false := by
  obtain ⟨new, hnew, hall⟩ := h.frame.journal
  refine ⟨new, hnew, fun r hr => ⟨(hall r hr).2.2, ?_⟩⟩
  rw [vibrations, vibrations, hnew, List.countP_append] at hcount
  have hnone : new.countP (fun r => r.event.isVibration) = 0 := by omega
  exact Bool.eq_false_iff.2 (List.countP_eq_zero.1 hnone r hr)

end Stage

variable {α β : Type} {s s' : Stage}

/-! ### Work and courses -/

/-- Something has added no vibration, and what is left of it is still. -/
def Progress.Stills {σ ρ : Type} (P : σ → Prop) (s s' : Stage) :
    Progress σ (Except StepError ρ) → Prop
  | .busy state => s'.vibrations = s.vibrations ∧ P state
  | .finished _ => s'.vibrations = s.vibrations

theorem Progress.Stills.after {σ ρ : Type} {P : σ → Prop} {s₁ : Stage}
    {p : Progress σ (Except StepError ρ)} (h : p.Stills P s₁ s')
    (hs : s₁.vibrations = s.vibrations) : p.Stills P s s' := by
  rcases p with state | result
  · exact ⟨h.1.trans hs, h.2⟩
  · exact Eq.trans h hs

/-- Work without a vibration in it. -/
def Work.Still : Work α → Prop
  | done _ | fail _ => True
  | sleep _ rest | set _ _ rest => rest.Still
  | look _ rest => ∀ v, (rest v).Still
  | vibrate _ => False
  | call _ _ rest | run _ rest => ∀ v, (rest v).Still

/-- A course without a vibration in it. -/
def Course.Still : Course α → Prop
  | ahead work => work.Still
  | asleep _ _ rest => ∀ v, (rest v).Still

namespace Work

theorem Still.bind {w : Work α} {f : α → Work β} (hw : w.Still) (hf : ∀ r, (f r).Still) :
    (w.bind f).Still := by
  induction w with
  | done r => exact hf r
  | fail e => trivial
  | sleep _ _ ih => exact ih hw
  | look _ _ ih => exact fun v => ih v (hw v)
  | set _ _ _ ih => exact ih hw
  | vibrate _ _ => exact hw.elim
  | call _ _ _ ih => exact fun v => ih v (hw v)
  | run _ _ ih => exact fun v => ih v (hw v)

/-- What follows the run of a routine. -/
theorem perform_run_still {rest : Json → Work α}
    (ih : ∀ v s, ((rest v).perform s).2.Stills Course.Still s ((rest v).perform s).1)
    (hrest : ∀ v, (rest v).Still) (body : Routine) (s : Stage) :
    ((run body rest).perform s).2.Stills Course.Still s ((run body rest).perform s).1 := by
  have hrun := vibrations_run body s
  rcases h : body.run s with ⟨s', ⟨alarm, inner⟩ | e | v⟩ <;> rw [h] at hrun <;>
    simp only [perform, h]
  · exact ⟨hrun, hrest⟩
  · exact hrun
  · exact (ih v s').after hrun

/-- **Still work** adds no vibration. -/
theorem perform_still {w : Work α} (h : w.Still) (s : Stage) :
    (w.perform s).2.Stills Course.Still s (w.perform s).1 := by
  induction w generalizing s with
  | done result => rfl
  | fail e => rfl
  | sleep time rest ih =>
    have hawait := vibrations_await s (s.alarmAfter time)
    rcases ha : s.await (s.alarmAfter time) with ⟨- | a, s'⟩ <;> rw [ha] at hawait <;>
      simp only [perform, ha]
    · exact (ih h s').after hawait
    · exact ⟨hawait, fun _ => h⟩
  | look target rest ih => exact ih _ (h _) s
  | set target value rest ih =>
    have hset := vibrations_set s target value
    rcases hs : s.set target value with ⟨known, s'⟩
    rw [hs] at hset
    have hnote : (s'.note (.set target value known)).vibrations = s.vibrations :=
      (vibrations_note rfl).trans hset
    simp only [perform, hs]
    split
    · exact (ih h _).after hnote
    · exact hnote
  | vibrate rest _ => exact h.elim
  | call name arg rest ih =>
    rcases hcall : s.call? name arg with - | ⟨body, s'⟩
    · simp only [perform, hcall]
      exact vibrations_note rfl
    · rw [perform_call hcall]
      exact (perform_run_still (fun v => ih v (h v)) h body s').after (vibrations_call? hcall)
  | run body rest ih => exact perform_run_still (fun v => ih v (h v)) h body s

end Work

/-- A visit to a still course. -/
theorem Course.poll_still {c : Course α} (h : c.Still) (s : Stage) :
    (c.poll s).2.Stills Course.Still s (c.poll s).1 := by
  cases c with
  | ahead work => exact Work.perform_still h s
  | asleep alarm inner rest =>
    have hawait := vibrations_await s alarm
    rcases ha : s.await alarm with ⟨- | a, s'⟩ <;> rw [ha] at hawait <;> simp only [poll, ha]
    · have hrun : (Work.run inner rest).Still := h
      exact (Work.perform_still hrun s').after hawait
    · exact ⟨hawait, h⟩

/-! ### Animations -/

namespace Ride

variable {recorded : Bool}

theorem vibrations_report (s : Stage) {e : Event} (he : e.isVibration = false) :
    (report recorded s e).vibrations = s.vibrations := by
  cases recorded with
  | true => exact vibrations_note he
  | false => rfl

theorem vibrations_write (m : Motion Float) (s : Stage) :
    (write recorded m s).1.vibrations = s.vibrations := by
  unfold write
  split
  · exact vibrations_report s rfl
  · dsimp only
    split
    · exact (vibrations_report _ rfl).trans (vibrations_note rfl)
    · exact vibrations_note rfl

theorem vibrations_frame (m : Motion Float) (next : Alarm) (s : Stage) :
    (frame recorded m next s).1.vibrations = s.vibrations := by
  have hawait := vibrations_await s next
  rcases ha : s.await next with ⟨- | a, s'⟩ <;> rw [ha] at hawait <;> simp only [frame, ha]
  · exact (vibrations_write m s').trans hawait
  · exact hawait

/-- Animations do not vibrate. -/
theorem vibrations_poll (r : Ride) (s : Stage) : (poll recorded r s).1.vibrations = s.vibrations := by
  cases r with
  | moving m next => exact vibrations_frame m next s
  | ahead target animation =>
    have hasked : (report recorded s (.animate target animation)).vibrations = s.vibrations :=
      vibrations_report s rfl
    simp only [poll]
    split
    · exact (vibrations_report _ rfl).trans hasked
    · split
      · exact (vibrations_write _ _).trans hasked
      · exact (vibrations_frame _ _ _).trans hasked

end Ride

theorem Convoy.vibrations_poll (recorded : Bool) (c : Convoy) (s : Stage) :
    (c.poll recorded s).1.vibrations = s.vibrations := by
  have hminds : Join.Minds (Ride.poll recorded) (fun _ => True) (fun _ _ => True)
      fun s s' => s'.vibrations = s.vibrations :=
    ⟨fun _ => rfl, fun h h' => h'.trans h, fun _ _ => trivial,
      fun _ _ => ⟨Ride.vibrations_poll _ _, trivial⟩⟩
  obtain ⟨hkept, -⟩ := hminds.poll (j := c) Ride.alarm? (s := s) (fun _ _ _ => trivial) trivial
  unfold poll
  rcases hp : Join.poll (Ride.poll recorded) Ride.alarm? c s with ⟨s', c' | result⟩ <;>
    rw [hp] at hkept <;> exact hkept

/-! ### Activities -/

namespace Activity

/-- A member of a join that is over, or that is still. -/
def StillMember (_ : Nat) : Progress (Course α) (Except StepError α) → Prop
  | .busy course => course.Still
  | .finished _ => True

/-- An activity without a vibration in it. -/
def Still : Activity → Prop
  | working course => course.Still
  | preparing members => Join.Each StillMember members
  | animating _ | holding _ => True

/-- What a `vibrate` step that is to be felt is busy with when it begins. -/
def vibrating (time : Duration) : Activity :=
  .working (.ahead (.vibrate (.sleep time (.done .advance))))

theorem not_still_vibrating (time : Duration) : ¬ (vibrating time).Still :=
  fun h => h

theorem pollConvoy_still (convoy : Convoy) (s : Stage) :
    (pollConvoy convoy s).2.Stills Still s (pollConvoy convoy s).1 := by
  have hconvoy := convoy.vibrations_poll true s
  rcases hp : convoy.poll true s with ⟨s', c' | e | u⟩ <;> rw [hp] at hconvoy <;>
    simp only [pollConvoy, hp]
  · exact ⟨hconvoy, trivial⟩
  · exact hconvoy
  · exact hconvoy

theorem minds_still : Join.Minds (Course.poll (α := α)) (fun _ => True) StillMember
    fun s s' => s'.vibrations = s.vibrations where
  refl _ := rfl
  trans h h' := h'.trans h
  mono _ _ := trivial
  one {s i c} _ h := by
    have hpoll := Course.poll_still h s
    rcases hp : c.poll s with ⟨s', c' | result⟩ <;> rw [hp] at hpoll
    · exact hpoll
    · exact ⟨hpoll, trivial⟩

/-- **A visit to a still activity** adds no vibration. -/
theorem poll_still {a : Activity} (h : a.Still) (s : Stage) :
    (a.poll s).2.Stills Still s (a.poll s).1 := by
  cases a with
  | working course =>
    have hcourse := Course.poll_still h s
    rcases hp : course.poll s with ⟨s', c' | result⟩ <;> rw [hp] at hcourse <;>
      simp only [poll, hp]
    · exact hcourse
    · exact hcourse
  | preparing members =>
    obtain ⟨hkept, hcomes⟩ := minds_still.poll Course.alarm? (s := s) h trivial
    rcases hp : Join.poll Course.poll Course.alarm? members s with ⟨s', m' | e | batch⟩ <;>
      rw [hp] at hkept hcomes <;> simp only [poll, hp]
    · exact ⟨hkept, hcomes.2⟩
    · exact hkept
    · exact (pollConvoy_still _ s').after hkept
  | animating convoy => exact pollConvoy_still convoy s
  | holding release =>
    cases release with
    | none => exact ⟨rfl, trivial⟩
    | some release => exact (rfl : s.vibrations = s.vibrations)

/-- **A step that vibrates** does so once, at its first visit, and then waits or is over. -/
theorem poll_vibrating (time : Duration) (s : Stage) :
    (∃ s', (vibrating time).poll s = (s', .finished (.ok .advance)) ∧
      s'.journal = (s.note .vibrated).journal) ∨
    ∃ s' a, (vibrating time).poll s = (s', .busy a) ∧ a.Still ∧
      s'.journal = (s.note .vibrated).journal := by
  have hjournal (a : Alarm) : ((s.note .vibrated).await a).2.journal = (s.note .vibrated).journal := by
    unfold Stage.await
    split
    · rfl
    · split
      · rfl
      · rfl
  have hawait := hjournal ((s.note .vibrated).alarmAfter time)
  rcases ha : (s.note .vibrated).await ((s.note .vibrated).alarmAfter time) with ⟨- | a, s'⟩ <;>
    rw [ha] at hawait
  · refine .inl ⟨s', ?_, hawait⟩
    simp only [vibrating, poll, Course.poll, Work.perform, ha]
  · refine .inr ⟨s', .working (.asleep a (.value .null) fun _ => .done .advance), ?_,
      fun _ => trivial, hawait⟩
    simp only [vibrating, poll, Course.poll, Work.perform, ha]

end Activity

/-! ### Steps -/

namespace Operand

theorem resolve_still (o : Operand) : o.resolve.Still := by
  cases o with
  | literal _ => trivial
  | named _ => exact fun _ => trivial
  | function _ => exact fun _ => trivial

theorem number_still (field : String) (o : Operand) : (o.number field).Still := by
  refine o.resolve_still.bind fun v => ?_
  split
  · trivial
  · trivial

theorem duration_still (o : Operand) : o.duration.Still := by
  refine o.resolve_still.bind fun v => ?_
  split
  · trivial
  · trivial

theorem holds_still (o : Operand) : o.holds.Still :=
  o.resolve_still.bind fun _ => trivial

end Operand

theorem Tween.prepare_still (t : Tween) : t.prepare.Still := by
  have hnumber : (t.destination.number t.target).Still := by
    refine (t.destination.operand.number_still "to").bind fun amount => ?_
    cases t.destination with
    | absolute _ => trivial
    | _ =>
      intro v
      dsimp only
      split
      · trivial
      · trivial
  exact hnumber.bind fun _ => (t.duration.duration_still).bind fun _ => trivial

theorem Program.jump_still (p : Program) (label : String) : (p.jump label).Still := by
  unfold Program.jump
  split
  · trivial
  · trivial

namespace Machine

variable {m : Machine} {index : Nat} {r r' : Registers} {activity : Activity}

/-- Whether a `vibrate` step is to be felt. -/
def feels (m : Machine) (r : Registers) : Prop :=
  m.settings.vibration = .always ∨ r.vibrated = false

/-- What a `vibrate` step begins with. -/
theorem begin_vibrate (h : m.begin index .vibrate r = (r', activity)) : r'.vibrated = true ∧
    ((∃ time, m.haptics = some time ∧ m.feels r ∧ activity = .vibrating time) ∨
      ¬ (m.haptics.isSome ∧ m.feels r) ∧ activity.Still) := by
  simp only [begin, Bool.or_eq_true, decide_eq_true_eq, Bool.not_eq_true'] at h
  by_cases hfeels : m.settings.vibration = .always ∨ r.vibrated = false
  · rw [if_pos hfeels] at h
    obtain ⟨rfl, rfl⟩ := Prod.mk.inj h
    refine ⟨rfl, ?_⟩
    rcases hhaptics : m.haptics with - | time
    · exact .inr ⟨by simp, trivial⟩
    · exact .inl ⟨time, rfl, hfeels, rfl⟩
  · rw [if_neg hfeels] at h
    obtain ⟨rfl, rfl⟩ := Prod.mk.inj h
    obtain ⟨-, hvibrated⟩ := not_or.1 hfeels
    exact ⟨by simpa using hvibrated, .inr ⟨fun hfelt => hfeels hfelt.2, trivial⟩⟩

/-- **What begins is still**, but for a `vibrate` step that is to be felt; and nothing else sets the
flag. -/
theorem begin_still {action : Action} (haction : action ≠ .vibrate)
    (h : m.begin index action r = (r', activity)) :
    r'.vibrated = r.vibrated ∧ activity.Still := by
  have htweens (ts : List Tween) : (Activity.tweens ts).Still := by
    intro i p hp
    obtain ⟨t, -, rfl⟩ := List.mem_map.1 (List.mem_of_getElem? hp)
    exact t.prepare_still
  have hjump (condition : Operand) (onTrue onFalse : Work Flow) (htrue : onTrue.Still)
      (hfalse : onFalse.Still) :
      (condition.holds.bind fun b => if b then onTrue else onFalse).Still := by
    refine condition.holds_still.bind fun b => ?_
    split
    · exact htrue
    · exact hfalse
  cases action with
  | vibrate => exact absurd rfl haction
  | move tween | parallel tweens =>
    obtain ⟨rfl, rfl⟩ := Prod.mk.inj h
    exact ⟨rfl, htweens _⟩
  | delay duration =>
    obtain ⟨rfl, rfl⟩ := Prod.mk.inj h
    exact ⟨rfl, duration.duration_still.bind fun _ => trivial⟩
  | callback name value =>
    obtain ⟨rfl, rfl⟩ := Prod.mk.inj h
    refine ⟨rfl, ?_⟩
    cases value with
    | none => exact fun _ => trivial
    | some operand => exact operand.resolve_still.bind fun _ _ => trivial
  | hold | label _ | comment _ | ifEnd | use _ | stop | ifElse =>
    obtain ⟨rfl, rfl⟩ := Prod.mk.inj h
    exact ⟨rfl, trivial⟩
  | goto label =>
    simp only [begin] at h
    split at h
    · obtain ⟨rfl, rfl⟩ := Prod.mk.inj h
      exact ⟨rfl, trivial⟩
    · obtain ⟨rfl, rfl⟩ := Prod.mk.inj h
      exact ⟨rfl, trivial⟩
  | resume =>
    simp only [begin] at h
    split at h
    · obtain ⟨rfl, rfl⟩ := Prod.mk.inj h
      exact ⟨rfl, trivial⟩
    · obtain ⟨rfl, rfl⟩ := Prod.mk.inj h
      exact ⟨rfl, trivial⟩
  | set target value =>
    obtain ⟨rfl, rfl⟩ := Prod.mk.inj h
    exact ⟨rfl, (value.number_still "value").bind fun _ => trivial⟩
  | ifJump condition onTrue onFalse =>
    obtain ⟨rfl, rfl⟩ := Prod.mk.inj h
    refine ⟨rfl, hjump condition _ _ (m.program.jump_still onTrue) ?_⟩
    cases onFalse with
    | none => trivial
    | some label => exact m.program.jump_still label
  | ifThen condition =>
    obtain ⟨rfl, rfl⟩ := Prod.mk.inj h
    exact ⟨rfl, hjump condition (.done .advance) (.done _) trivial trivial⟩

end Machine

end Timeline
