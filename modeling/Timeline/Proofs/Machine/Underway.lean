/-
Timeline/Proofs/Machine/Underway.lean

What a machine does while a step is under way.

A `Plan` bounds what the step at every index may do: whatever the registers are,
the activity that the step begins keeps within the bounds.  Main result
(`Config.Sound.move`): as long as the stage has what the bounds take for granted,
every step that is under way keeps within them, and so does the journal.  No
step begins or fails otherwise than the plan says, and a function that is looked
for in vain is one that the step at this position may look for.
-/
import Timeline.Proofs.Machine.Moves

namespace Timeline

/-- Bounds for what the steps of a program do. -/
structure Machine.Plan (m : Machine) where
  bounds : Nat → Bounds
  begins : ∀ {index : Nat} {step : Step} (r : Registers), m.program.step? index = some step →
    (m.begin index step.action r).2.Meets (bounds index) fun _ => True

/-- A stage has all that the steps take for granted. -/
def Machine.Plan.Covers {m : Machine} (plan : m.Plan) (s : Stage) : Prop :=
  ∀ index, (plan.bounds index).Covers s

/-- A record says what the plan allows: only steps of the program begin, they fail only in the ways
that are within bounds, and only functions that they may look for are not found. -/
def Machine.Plan.Tells {m : Machine} (plan : m.Plan) (r : Record) : Prop :=
  match r.event with
  | .began _ index => (m.program.step? index).isSome
  | .failed _ index e => (plan.bounds index).error e
  | .missed name => (plan.bounds r.index).optional name ∧ ¬ (plan.bounds r.index).registered name
  | _ => True

/-- No bounds at all. -/
def Machine.Plan.free (m : Machine) : m.Plan where
  bounds _ := .free
  begins _ _ := Activity.meets_free _

/-- Bounds for animations that are asked for from outside: no function is looked for. -/
def Bounds.silent : Bounds where
  held _ := False
  registered _ := False
  optional _ := False
  error _ := True
  error_call _ := trivial

/-- What a call that executes a step may be busy with: it does so at the published position, only a
`hold` step holds, and the activity keeps within the bounds. -/
def Machine.Plan.Allows {m : Machine} (plan : m.Plan) (s : Stage) : Phase → Prop
  | .stepping _ index activity =>
    s.position.index = index ∧
    (∃ step, m.program.step? index = some step ∧
      (step.action = .hold ↔ ∃ release, activity = .holding release)) ∧
    activity.Meets (plan.bounds index) fun _ => True
  | _ => True

theorem Bounds.silent_covers (s : Stage) : silent.Covers s :=
  ⟨fun _ h => h.elim, fun _ h => h.elim⟩

namespace Config

variable {m : Machine} {plan : m.Plan} {c : Config} {id : Nat} {phase : Phase}

/-- All that happens and has happened is as the plan says. -/
structure Sound (plan : m.Plan) (c : Config) : Prop where
  phases : ∀ {id phase}, c.phase? id = some phase → plan.Allows c.stage phase
  journal : ∀ r ∈ c.stage.journal, plan.Tells r

/-- The same, but for the call that is going on. -/
structure SoundBut (plan : m.Plan) (id : Nat) (c : Config) : Prop where
  phases : ∀ {j phase}, j ≠ id → c.phase? j = some phase → plan.Allows c.stage phase
  journal : ∀ r ∈ c.stage.journal, plan.Tells r

theorem Sound.but (h : c.Sound plan) (id : Nat) : c.SoundBut plan id :=
  ⟨fun _ => h.phases, h.journal⟩

/-- While somebody owns the registers nobody else executes a step. -/
theorem Going.allows {parked rests : Bool} (h : c.Going id (.owner parked rests)) {j : Nat}
    (hj : j ≠ id) (hphase : c.phase? j = some phase) (s : Stage) : plan.Allows s phase := by
  rcases phase with _ | _ | _ | ⟨who, index, activity⟩ | _
  · trivial
  · trivial
  · trivial
  · exfalso
    have howner := h.orderly.owner (Function.update_self ..)
    have hother : ∃ parked rests, c.role j = .owner parked rests := by
      rw [role_of_phase? hphase]
      by_cases hhold : activity = .holding none
      · exact ⟨true, false, by rw [hhold]; rfl⟩
      · exact ⟨false, _, Phase.role_stepping hhold⟩
    obtain ⟨parked', rests', hrole⟩ := hother
    rw [← Function.update_of_ne hj (.owner parked rests) c.role] at hrole
    exact hj (Option.some.inj ((h.orderly.owner hrole).owner.symm.trans howner.owner))
  · trivial

/-- What the step at the published position does within its bounds is as the plan says. -/
theorem tells_of_permits {e : Event} {time index : Nat} (h : (plan.bounds index).Permits e) :
    plan.Tells ⟨time, index, e⟩ := by
  cases e with
  | missed name => exact h
  | began _ _ => exact h.elim
  | failed _ _ _ => exact h.elim
  | _ => trivial

theorem tells_of_silent {e : Event} {time index : Nat} (h : Bounds.silent.Permits e) :
    plan.Tells ⟨time, index, e⟩ := by
  cases e with
  | missed name => exact h.1.elim
  | began _ _ => exact h.elim
  | failed _ _ _ => exact h.elim
  | _ => trivial

theorem tells_of_acts {B : Bounds} {s s' : Stage} (hacts : Stage.Acts B s s')
    (h : ∀ r ∈ s.journal, plan.Tells r)
    (hpermits : ∀ e, B.Permits e → plan.Tells ⟨s.now, s.position.index, e⟩) :
    ∀ r ∈ s'.journal, plan.Tells r := by
  obtain ⟨new, hnew, hall⟩ := hacts.frame.journal
  rw [hnew]
  intro r hr
  rcases List.mem_append.1 hr with hr | hr
  · obtain ⟨htime, hindex, he⟩ := hall r hr
    have := hpermits r.event he
    rwa [← htime, ← hindex] at this
  · exact h r hr

/-- The position matters only to those who execute a step. -/
theorem allows_of_position {s s' : Stage} (hposition : s'.position = s.position)
    (h : plan.Allows s phase) : plan.Allows s' phase := by
  cases phase with
  | stepping who index activity => exact ⟨hposition ▸ h.1, h.2⟩
  | _ => trivial

theorem Sound.congr (h : c.Sound plan) {c' : Config} (htasks : c'.tasks = c.tasks)
    (hposition : c'.stage.position = c.stage.position)
    (hjournal : c'.stage.journal = c.stage.journal) : c'.Sound plan where
  phases hphase := by
    rw [phase?, htasks] at hphase
    exact allows_of_position hposition (h.phases hphase)
  journal := by
    rw [hjournal]
    exact h.journal

namespace SoundBut

/-- Nothing changes but the registers and who waits for what. -/
theorem congr (h : c.SoundBut plan id) {c' : Config} (htasks : c'.tasks = c.tasks)
    (hposition : c'.stage.position = c.stage.position)
    (hjournal : c'.stage.journal = c.stage.journal) : c'.SoundBut plan id where
  phases hj hphase := by
    rw [phase?, htasks] at hphase
    exact allows_of_position hposition (h.phases hj hphase)
  journal := by
    rw [hjournal]
    exact h.journal

theorem note (h : c.SoundBut plan id) {e : Event}
    (he : plan.Tells ⟨c.stage.now, c.stage.position.index, e⟩) : (c.note e).SoundBut plan id where
  phases := h.phases
  journal r hr := by
    rcases List.mem_cons.1 hr with rfl | hr
    · exact he
    · exact h.journal r hr

theorem unlock (h : c.SoundBut plan id) : c.unlock.SoundBut plan id := by
  rw [unlock_eq]
  exact h.congr rfl rfl rfl

theorem notify (h : c.SoundBut plan id) : c.notify.SoundBut plan id := by
  rw [notify_eq]
  exact h.congr rfl rfl rfl

theorem unlisten (h : c.SoundBut plan id) {j : Nat} : (c.unlisten j).SoundBut plan id := by
  unfold Config.unlisten
  split
  · exact SoundBut.notify (h.congr rfl rfl rfl)
  · exact h.congr rfl rfl rfl

theorem finish (h : c.SoundBut plan id) (result : Except StepError Unit) :
    (c.finish id result).Sound plan where
  phases {j phase} hphase := by
    rw [phase?_finish] at hphase
    by_cases hj : j = id
    · subst hj
      simp at hphase
    · rw [Function.update_of_ne hj] at hphase
      exact h.phases hj hphase
  journal r hr := by
    rcases List.mem_cons.1 hr with rfl | hr
    · trivial
    · exact h.journal r hr

theorem setPhase (h : c.SoundBut plan id) (hpresent : (c.phase? id).isSome)
    (hallows : plan.Allows c.stage phase) : (c.setPhase id phase).Sound plan where
  phases {j phase} hphase := by
    rw [phase?_setPhase hpresent] at hphase
    by_cases hj : j = id
    · subst hj
      rw [Function.update_self] at hphase
      exact Option.some.inj hphase ▸ hallows
    · rw [Function.update_of_ne hj] at hphase
      exact h.phases hj hphase
  journal := h.journal

/-! ### Small steps -/

theorem beginStep {rests : Bool} (h : c.SoundBut plan id) (hgoing : c.Going id (.owner false rests))
    (who : Stepper) : (c.beginStep m id who).Sound plan := by
  rcases hstep : m.program.step? c.registers.cursor with - | step
  · rw [beginStep_of_none hstep]
    exact h.unlock.finish _
  · have hbegan : { c with stage := c.atCursor m id }.SoundBut plan id := by
      refine ⟨fun hj hphase => hgoing.allows hj hphase _, fun r hr => ?_⟩
      rcases List.mem_cons.1 hr with rfl | hr
      · show (m.program.step? c.registers.cursor).isSome
        rw [hstep]
        rfl
      · rcases List.mem_cons.1 hr with rfl | hr
        · trivial
        · exact h.journal r hr
    have hmeets := plan.begins c.registers hstep
    by_cases hhold : step.action = .hold
    · rw [beginStep_of_hold hstep hhold]
      rw [hhold] at hmeets
      refine ((hbegan.note (e := .parked id) trivial).congr (by rfl) (by rfl) (by rfl)).notify.setPhase
        ?_ ?_
      · rw [notify_eq]
        exact hgoing.present
      · rw [notify_eq]
        exact ⟨rfl, ⟨step, hstep, iff_of_true hhold ⟨none, rfl⟩⟩, hmeets⟩
    · rcases hbegin : m.begin c.registers.cursor step.action c.registers with ⟨r, activity⟩
      rw [hbegin] at hmeets
      rw [beginStep_of_ne_hold hstep hhold hbegin]
      refine (hbegan.congr (by rfl) (by rfl) (by rfl)).setPhase hgoing.present
        ⟨rfl, ⟨step, hstep, iff_of_false hhold ?_⟩, hmeets⟩
      rintro ⟨release, rfl⟩
      exact hhold (Machine.begin_holding hbegin).1

theorem endStep (h : c.SoundBut plan id) (hpresent : (c.phase? id).isSome) (who : Stepper)
    (index : Nat) (flow : Flow) : (c.endStep m id who index flow).Sound plan := by
  have hunlock (r : Registers) :
      ({ c with registers := r }.note (.ended id index flow)).unlock.SoundBut plan id :=
    SoundBut.unlock (SoundBut.note (e := .ended id index flow)
      (h.congr (by rfl) (by rfl) (by rfl)) trivial)
  cases who with
  | run epoch =>
    refine (hunlock _).setPhase ?_ trivial
    rw [phase?_unlock]
    exact hpresent
  | next => exact (hunlock _).finish _

theorem failStep (h : c.SoundBut plan id) (who : Stepper) {index : Nat} {e : StepError}
    (he : (plan.bounds index).error e) : (c.failStep id who index e).Sound plan := by
  have hunlock := (h.note (e := .failed id index e) he).unlock
  cases who with
  | run epoch => exact (hunlock.congr (by rfl) (by rfl) (by rfl)).finish _
  | next => exact hunlock.finish _

theorem rewind {rests : Bool} (h : c.SoundBut plan id) (hgoing : c.Going id (.owner false rests)) :
    (c.rewind m id).Sound plan := by
  have hrestored := tells_of_acts (Stage.Acts.restore (B := .silent) m.initial.entries c.stage)
    h.journal fun _ => tells_of_silent
  have hclean (s : Stage) (hs : ∀ r ∈ s.journal, plan.Tells r) :
      ({ c with registers := {}, stage := s.publish (m.position 0) }.note
        (.rewound id)).SoundBut plan id := by
    refine SoundBut.note (c := { c with registers := {}, stage := s.publish (m.position 0) })
      (e := .rewound id) ⟨fun hj hphase => hgoing.allows hj hphase _, fun r hr => ?_⟩ trivial
    rcases List.mem_cons.1 hr with rfl | hr
    · trivial
    · exact hs r hr
  exact (hclean _ hrestored).unlock.finish _

/-- Whoever has become the owner of the registers does what they were wanted for. -/
theorem enter {rests : Bool} (h : c.SoundBut plan id) (hgoing : c.Going id (.owner false rests))
    (purpose : Purpose) : (c.enter m id purpose).Sound plan := by
  have hpresent : (c.unlock.phase? id).isSome := by
    rw [phase?_unlock]
    exact hgoing.present
  cases purpose with
  | clear epoch =>
    refine SoundBut.setPhase (SoundBut.unlock (h.congr rfl rfl rfl)) ?_ trivial
    rw [phase?_unlock]
    exact hgoing.present
  | step epoch =>
    simp only [Config.enter]
    split
    · exact (h.unlock.congr (by rfl) (by rfl) (by rfl)).finish _
    · split
      · split
        · exact h.unlock.setPhase hpresent trivial
        · exact (h.unlock.congr (by rfl) (by rfl) (by rfl)).finish _
      · exact h.beginStep hgoing _
  | restart epoch =>
    simp only [Config.enter]
    split
    · exact (h.unlock.congr (by rfl) (by rfl) (by rfl)).finish _
    · have hnoted : ({ c with registers := c.registers.restart }.note
          (.restarted id)).SoundBut plan id :=
        SoundBut.note (e := .restarted id) (h.congr (by rfl) (by rfl) (by rfl)) trivial
      have hset : (({ c with registers := c.registers.restart }.note
          (.restarted id)).unlock.setPhase id (.seeking (.step epoch))).Sound plan := by
        refine hnoted.unlock.setPhase ?_ trivial
        rw [phase?_unlock]
        exact hgoing.present
      exact hset.congr rfl rfl rfl
  | next seek =>
    exact SoundBut.beginStep (h.congr (by rfl) (by rfl) (by rfl)) (hgoing.congr (by rfl) (by rfl)) _
  | rewind => exact h.rewind hgoing

end SoundBut

namespace Sound

/-- A call lets a parked hold go. -/
theorem releaseHold (h : c.Sound plan) {releases rests : Bool} {holder : Nat}
    (hgoing : c.Going id (.aside releases rests)) (hhold : c.hold = some holder)
    (release : Release) : (c.releaseHold id holder release).Sound plan := by
  obtain ⟨rests', hrole⟩ := hgoing.orderly.owner_of_hold hhold
  rw [Function.update_of_ne (hgoing.ne_of_hold hhold)] at hrole
  obtain ⟨who, index, hphase⟩ := phase?_of_role_parked hrole
  have hpresent : (c.phase? holder).isSome := by
    rw [hphase]
    rfl
  obtain ⟨hposition, ⟨step, hstep, hiff⟩, -⟩ := h.phases hphase
  have hset : (c.setPhase holder (.stepping who index (.holding (some release)))).Sound plan :=
    (h.but holder).setPhase hpresent
      ⟨hposition, ⟨step, hstep, iff_of_true (hiff.2 ⟨none, rfl⟩) ⟨_, rfl⟩⟩, fun _ _ => trivial⟩
  rw [releaseHold_eq hphase]
  refine ⟨fun hj => hset.phases hj, fun r hr => ?_⟩
  rcases List.mem_cons.1 hr with rfl | hr
  · trivial
  · exact h.journal r hr

/-- A call asks for the registers. -/
theorem seek (h : c.Sound plan) {purpose : Purpose}
    (hgoing : c.Going id (.aside purpose.release?.isSome false)) :
    (c.seek m id purpose).Sound plan := by
  -- without a hold to release
  have hask (hno : purpose.release? = none ∨ c.hold = none) : (c.seek m id purpose).Sound plan := by
    rw [seek_eq hno]
    split
    · exact h.congr rfl rfl rfl
    · split
      · rename_i hfree
        exact SoundBut.enter ((h.but id).congr (by rfl) (by rfl) (by rfl))
          ((hgoing.take hfree).congr (by rfl) (by rfl)) purpose
      · split
        · exact h.congr rfl rfl rfl
        · have hqueued {c' : Config} (h' : c'.SoundBut plan id) (hpresent : (c'.phase? id).isSome) :
              (c'.setPhase id (.queued purpose)).block.Sound plan :=
            Sound.congr (c := c'.setPhase id (.queued purpose)) (h'.setPhase hpresent trivial) rfl rfl
              rfl
          split
          · exact hqueued ((h.but id).congr rfl rfl rfl) hgoing.present
          · exact hqueued ((h.but id).congr rfl rfl rfl) hgoing.present
  rcases hrelease : purpose.release? with - | release
  · exact hask (.inl hrelease)
  · rcases hhold : c.hold with - | holder
    · exact hask (.inr hhold)
    · rw [seek_of_hold hrelease hhold]
      split
      · exact h.releaseHold hgoing hhold release
      · exact ((h.releaseHold hgoing hhold release).but id).finish _

/-- A call in the queue goes on. -/
theorem leaveQueue (h : c.Sound plan) {purpose : Purpose}
    (hgoing : c.Going id (.queued purpose.release?.isSome)) :
    (c.leaveQueue m id purpose).Sound plan := by
  unfold Config.leaveQueue
  split
  · rename_i howner
    have hspent : { c with stage := c.stage.spend }.Going id (.queued purpose.release?.isSome) :=
      hgoing.congr rfl rfl
    have hbut : { c with stage := c.stage.spend }.SoundBut plan id := (h.but id).congr rfl rfl rfl
    refine SoundBut.enter ?_ (hspent.own howner) purpose
    split
    · exact hbut.unlisten
    · exact hbut
  · split
    · exact SoundBut.setPhase ((h.but id).congr rfl rfl rfl) hgoing.present trivial
    · exact h.congr rfl rfl rfl

/-- A call has just been issued. -/
theorem accept (h : c.Sound plan) (hpresent : (c.phase? id).isSome) (call : Call) :
    (c.accept m id call).Sound plan := by
  have hover (result : Except StepError Unit) : (c.finish id result).Sound plan :=
    (h.but id).finish result
  cases call with
  | start =>
    simp only [Config.accept]
    split
    · exact hover _
    · exact SoundBut.setPhase ((h.but id).congr rfl rfl rfl) hpresent trivial
  | next label =>
    cases label with
    | none =>
      simp only [Config.accept]
      split
      · exact hover _
      · exact (h.but id).setPhase hpresent trivial
    | some label =>
      simp only [Config.accept]
      split
      · exact hover _
      · split
        · exact hover _
        · exact (h.but id).setPhase hpresent trivial
  | stop => exact SoundBut.setPhase ((h.but id).congr rfl rfl rfl) hpresent trivial
  | reset => exact (h.but id).setPhase hpresent trivial
  | animate batch => exact (h.but id).setPhase hpresent trivial

/-- **One small step of a call.** -/
theorem advance (h : c.Sound plan) (hcovers : plan.Covers c.stage)
    (hgoing : c.Going id phase.role) (hphase : c.phase? id = some phase) :
    (c.advance m id phase).Sound plan := by
  have hpause {c' : Config} (h' : c'.Sound plan) : (c'.pause id).Sound plan := by
    unfold Config.pause
    split
    · exact h'.congr rfl rfl rfl
    · exact h'.congr rfl rfl rfl
  cases phase with
  | issued call => exact h.accept hgoing.present call
  | seeking purpose => exact h.seek hgoing
  | queued purpose => exact h.leaveQueue hgoing
  | stepping who index activity =>
    obtain ⟨hposition, ⟨step, hstep, hiff⟩, hmeets⟩ := h.phases hphase
    obtain ⟨hacts, hpoll⟩ := Activity.poll_meets hmeets (hcovers index)
    have hjournal := tells_of_acts hacts h.journal fun _ he => hposition ▸ tells_of_permits he
    have hbut : { c with stage := (activity.poll c.stage).1 }.SoundBut plan id :=
      ⟨fun _ hj => allows_of_position hacts.frame.position (h.phases hj), hjournal⟩
    simp only [Config.advance]
    rcases hp : activity.poll c.stage with ⟨s, activity' | e | flow⟩ <;>
      rw [hp] at hacts hpoll hbut <;> dsimp only
    · refine hpause (hbut.setPhase hgoing.present ⟨?_, ⟨step, hstep, ?_⟩, hpoll.1⟩)
      · exact hacts.frame.position ▸ hposition
      · rw [hiff]
        rcases Activity.holding_of_poll_busy hp with ⟨rfl, rfl⟩ | ⟨hne, hne'⟩
        · rfl
        · exact iff_of_false (not_exists.2 hne) (not_exists.2 hne')
    · exact hbut.failStep who hpoll
    · exact hbut.endStep hgoing.present who index flow
  | moving convoy =>
    obtain ⟨hacts, -⟩ := Convoy.poll_meets (B := .silent) false
      (convoy.meets_of_error fun _ => trivial) (Bounds.silent_covers c.stage)
    have hjournal := tells_of_acts hacts h.journal fun _ => tells_of_silent
    have hbut : { c with stage := (convoy.poll false c.stage).1 }.SoundBut plan id :=
      ⟨fun _ hj => allows_of_position hacts.frame.position (h.phases hj), hjournal⟩
    simp only [Config.advance]
    rcases hp : convoy.poll false c.stage with ⟨s, convoy' | result⟩ <;> rw [hp] at hbut <;>
      dsimp only
    · exact hpause (hbut.setPhase hgoing.present trivial)
    · exact hbut.finish result

/-- A small step. -/
theorem step (h : c.Sound plan) (hordered : c.Ordered) (hcovers : plan.Covers c.stage) :
    (c.step m).Sound plan := by
  rcases hready : c.ready with - | ⟨id, rest⟩
  · rw [step_of_idle hready]
    exact h.congr rfl rfl rfl
  · obtain ⟨phase, hphase⟩ := Option.isSome_iff_exists.1
      (hordered.isSome_phase? (hready ▸ List.mem_cons_self : id ∈ c.ready))
    have hhead : c.ready.head? = some id := by
      rw [hready]
      rfl
    rw [step_of_ready hready hphase]
    exact h.advance hcovers (hordered.going hhead hphase) hphase

/-- **Whatever happens on a stage that has what the plan takes for granted is as it says.** -/
theorem move (h : c.Sound plan) (hordered : c.Ordered) (hcovers : plan.Covers c.stage)
    {c' : Config} (hmove : Move m c c') : c'.Sound plan := by
  cases hmove with
  | step => exact h.step hordered hcovers
  | issue call =>
    have hnone : c.phase? c.calls = none :=
      role_eq_absent_iff.1 (hordered.fresh _ (Nat.le_refl _))
    refine ⟨fun {id phase} hphase => ?_, h.journal⟩
    rw [phase?_issue hnone] at hphase
    by_cases hid : id = c.calls
    · subst hid
      rw [Function.update_self] at hphase
      obtain rfl := Option.some.inj hphase
      trivial
    · rw [Function.update_of_ne hid] at hphase
      exact h.phases hphase
  | tick _ _ =>
    obtain ⟨ready, hready⟩ := c.tick_eq _
    rw [hready]
    exact h.congr rfl rfl rfl
  | wait _ _ _ => exact h.congr rfl rfl rfl
  | write target value =>
    have hacts := Stage.Acts.set (B := .silent) c.stage target value
    exact ⟨fun hphase => allows_of_position hacts.frame.position (h.phases hphase),
      tells_of_acts hacts h.journal fun _ => tells_of_silent⟩
  | register _ => exact h.congr rfl rfl rfl

end Sound

/-- In the beginning nothing has happened. -/
theorem sound_fresh (driver : Driver Float) (functions : Registry) :
    (fresh m driver functions).Sound plan :=
  ⟨fun hphase => (nomatch hphase), fun _ hr => (nomatch hr)⟩

/-- **Whatever happens while the stage has what the plan takes for granted is as it says.** -/
theorem ReachableOn.sound {S : Stage → Prop} (hcovers : ∀ s, S s → plan.Covers s)
    (h : c.ReachableOn m S) : c.Sound plan := by
  obtain ⟨driver, functions, hfresh, hmoves⟩ := h
  induction hmoves with
  | refl => exact sound_fresh driver functions
  | tail hmoves hmove ih =>
    have hreach : ReachableOn m S _ := ⟨driver, functions, hfresh, hmoves⟩
    exact ih.move hreach.reachable.ordered (hcovers _ hreach.stage) hmove.1

/-- Without bounds a plan takes nothing for granted. -/
theorem Reachable.sound (h : c.Reachable m) : c.Sound (Machine.Plan.free m) := by
  obtain ⟨driver, functions, hmoves⟩ := h
  have hon : c.ReachableOn m fun _ => True :=
    ⟨driver, functions, trivial, hmoves.lift id fun _ _ hmove => ⟨hmove, trivial⟩⟩
  exact hon.sound fun s _ _ => Bounds.free_covers s

end Config

end Timeline
