/-
Timeline/Proofs/Machine/Turns.lean

Turns are fair: whoever begins to go on has a full turn ahead.

A call that goes on keeps its place until its turn is over, and the turn of the next
one is a full one.  Main result (`Config.Reachable.paced`): only a run that has
executed a step, and a call that is executing one or waits for animations, may have
used up a part of the turn.
-/
import Timeline.Proofs.Machine.Ledger

namespace Timeline

open Relation

/-- Whether a call in a phase may have used up a part of its turn. -/
def Phase.spends : Phase → Bool
  | seeking (.clear _) | seeking (.step _) | seeking (.restart _) => true
  | stepping _ _ _ | moving _ => true
  | _ => false

namespace Ledger

variable {m : Machine} {l l' : Ledger} {id : Nat} {events : List Event}

/-- After a deed there is a full turn ahead, unless the call may have used up a part of its turn or
had not done so before. -/
theorem Deed.turn (h : Deed m id l events l') : l'.stage.turn = Stage.fullTurn ∨
    (∃ phase, l'.phases id = some phase ∧ phase.spends = true) ∨
    l'.stage.turn = l.stage.turn ∧ ∃ phase, l.phases id = some phase ∧ phase.spends = false := by
  have hbegins {l₁ : Ledger} {who : Stepper} (hb : Begins m id who l₁ events l') :
      ∃ phase, l'.phases id = some phase ∧ phase.spends = true := by
    cases hb with
    | hold _ _ => exact ⟨_, setPhase_self, rfl⟩
    | step _ _ _ => exact ⟨_, setPhase_self, rfl⟩
  have hentry {l₁ : Ledger} {purpose : Purpose} (hb : Entry m id l₁ purpose events l') :
      l'.stage.turn = Stage.fullTurn ∨
        ∃ phase, l'.phases id = some phase ∧ phase.spends = true := by
    cases hb with
    | clear => exact .inr ⟨_, setPhase_self, rfl⟩
    | around _ _ _ _ _ => exact .inr ⟨_, setPhase_self, rfl⟩
    | step _ _ hb => exact .inr (hbegins hb)
    | next hb => exact .inr (hbegins hb)
    | _ => exact .inl rfl
  cases h with
  | start hphase _ _ => exact .inr (.inr ⟨rfl, _, hphase, rfl⟩)
  | ask hphase _ _ => exact .inr (.inr ⟨rfl, _, hphase, rfl⟩)
  | stop hphase => exact .inr (.inr ⟨rfl, _, hphase, rfl⟩)
  | reset hphase => exact .inr (.inr ⟨rfl, _, hphase, rfl⟩)
  | animate hphase => exact .inr (.inr ⟨rfl, _, hphase, rfl⟩)
  | drop hphase _ _ _ => exact .inr (.inr ⟨rfl, _, hphase, rfl⟩)
  | @permit purpose hphase _ _ _ hrelease _ =>
    refine .inr (.inr ⟨rfl, _, hphase, ?_⟩)
    cases purpose <;> first | rfl | cases hrelease
  | take _ _ _ _ hb => exact (hentry hb).imp_right .inl
  | enter _ _ _ hb => exact (hentry hb).imp_right .inl
  | withdraw hphase _ _ => exact .inr (.inr ⟨rfl, _, hphase, rfl⟩)
  | ended _ _ => exact .inr (.inl ⟨_, setPhase_self, rfl⟩)
  | _ => exact .inl rfl

end Ledger

namespace Config

variable {m : Machine} {c c' : Config} {id : Nat} {who : Stepper}

/-! ### Who goes on keeps the place -/

/-- A call keeps its place, or there is a full turn ahead for the next one. -/
def Stays (c : Config) (id : Nat) : Prop :=
  c.ready.head? = some id ∨ c.stage.turn = Stage.fullTurn

theorem stays_finish {result : Except StepError Unit} : (c.finish id result).Stays id :=
  .inr rfl

theorem stays_pause : (c.pause id).Stays id := by
  unfold pause
  split
  · exact .inr rfl
  · exact .inr rfl

/-- Waking others does not change who goes on. -/
theorem head?_handed_of_head? (h : c.ready.head? = some id) (others yielded : List Nat) :
    (handed others c.ready yielded).head? = some id := by
  obtain ⟨rest, hrest⟩ := List.head?_eq_some_iff.1 h
  rw [hrest]
  exact Timeline.head?_handed others _ yielded id

theorem head?_unlock (h : c.ready.head? = some id) : c.unlock.ready.head? = some id := by
  rw [unlock_eq]
  exact head?_handed_of_head? h _ _

theorem stays_beginStep (h : c.ready.head? = some id) : (c.beginStep m id who).Stays id := by
  rcases hstep : m.program.step? c.registers.cursor with - | step
  · rw [beginStep_of_none hstep]
    exact stays_finish
  · by_cases hhold : step.action = .hold
    · rw [beginStep_of_hold hstep hhold, notify_eq]
      exact .inl (head?_handed_of_head? h _ _)
    · rcases hbegin : m.begin c.registers.cursor step.action c.registers with ⟨r, activity⟩
      rw [beginStep_of_ne_hold hstep hhold hbegin]
      exact .inl h

theorem stays_enter (h : c.ready.head? = some id) (purpose : Purpose) :
    (c.enter m id purpose).Stays id := by
  cases purpose with
  | clear epoch =>
    left
    exact head?_unlock (c := { c with registers := { c.registers with stopped := false } }) h
  | step epoch =>
    simp only [Config.enter]
    split
    · exact stays_finish
    · split
      · split
        · exact .inl (head?_unlock h)
        · exact stays_finish
      · exact stays_beginStep h
  | restart epoch =>
    simp only [Config.enter]
    split
    · exact stays_finish
    · exact .inr rfl
  | next seek =>
    refine stays_beginStep ?_
    exact h
  | rewind => exact stays_finish

theorem stays_seek (h : c.ready.head? = some id) {purpose : Purpose} :
    (c.seek m id purpose).Stays id := by
  have hask (hno : purpose.release? = none ∨ c.hold = none) : (c.seek m id purpose).Stays id := by
    rw [seek_eq hno]
    split
    · exact .inr rfl
    · split
      · refine stays_enter ?_ purpose
        exact h
      · split
        · exact .inl h
        · exact .inr rfl
  rcases hrelease : purpose.release? with - | release
  · exact hask (.inl hrelease)
  · rcases hhold : c.hold with - | holder
    · exact hask (.inr hhold)
    · rw [seek_of_hold hrelease hhold]
      split
      · left
        have hwoken := head?_handed_of_head? h [holder] c.yielded
        simp only [releaseHold, wake_eq]
        split
        · exact hwoken
        · exact hwoken
      · exact stays_finish

theorem stays_leaveQueue (h : c.ready.head? = some id) {purpose : Purpose} :
    (c.leaveQueue m id purpose).Stays id := by
  unfold leaveQueue
  split
  · refine stays_enter ?_ purpose
    split
    · unfold unlisten
      split
      · rw [notify_eq]
        exact head?_handed_of_head? h _ _
      · exact h
    · exact h
  · split
    · exact .inl h
    · exact .inr rfl

theorem stays_accept (h : c.ready.head? = some id) (call : Call) :
    (c.accept m id call).Stays id := by
  cases call with
  | start =>
    simp only [accept]
    split
    · exact stays_finish
    · exact .inl h
  | next label =>
    cases label with
    | none =>
      simp only [accept]
      split
      · exact stays_finish
      · exact .inl h
    | some label =>
      simp only [accept]
      split
      · exact stays_finish
      · split
        · exact stays_finish
        · exact .inl h
  | stop => exact .inl h
  | reset => exact .inl h
  | animate batch => exact .inl h

/-- After a small step the call that did it keeps its place, or the next one has a full turn. -/
theorem stays_advance (h : c.ready.head? = some id) (phase : Phase) :
    (c.advance m id phase).Stays id := by
  cases phase with
  | issued call => exact stays_accept h call
  | seeking purpose => exact stays_seek h
  | queued purpose => exact stays_leaveQueue h
  | stepping who index activity =>
    simp only [Config.advance]
    rcases activity.poll c.stage with ⟨s, activity' | e | flow⟩ <;> dsimp only
    · exact stays_pause
    · cases who with
      | run epoch => exact stays_finish
      | next => exact stays_finish
    · cases who with
      | run epoch =>
        rw [endStep_run]
        exact .inl (head?_unlock (c := Config.note _ _) h)
      | next =>
        rw [endStep_next]
        exact stays_finish
  | moving convoy =>
    simp only [Config.advance]
    rcases convoy.poll false c.stage with ⟨s, convoy' | result⟩ <;> dsimp only
    · exact stays_pause
    · exact stays_finish

/-! ### Full turns -/

/-- There is a full turn ahead, unless the call that is going on may have used up a part of it. -/
def Paced (c : Config) : Prop :=
  c.stage.turn = Stage.fullTurn ∨
    ∃ id phase, c.ready.head? = some id ∧ c.phase? id = some phase ∧ phase.spends = true

/-- While nobody is going on there is a full turn ahead. -/
theorem Paced.turn_of_idle (h : c.Paced) (hready : c.ready = []) :
    c.stage.turn = Stage.fullTurn := by
  refine h.resolve_right ?_
  rintro ⟨id, phase, hhead, -⟩
  rw [hready] at hhead
  cases hhead

/-- A call that has not done anything yet in its turn has a full one. -/
theorem Paced.turn_of_head (h : c.Paced) {phase : Phase} (hhead : c.ready.head? = some id)
    (hphase : c.phase? id = some phase) (hfresh : phase.spends = false) :
    c.stage.turn = Stage.fullTurn := by
  refine h.resolve_right ?_
  rintro ⟨j, phase', hhead', hphase', hspends⟩
  obtain rfl : id = j := Option.some.inj (hhead.symm.trans hhead')
  cases hphase.symm.trans hphase'
  rw [hfresh] at hspends
  cases hspends

theorem Paced.step (h : c.Paced) (hordered : c.Ordered) : (c.step m).Paced := by
  rcases hready : c.ready with - | ⟨id, rest⟩
  · rw [step_of_idle hready]
    exact .inl (h.turn_of_idle hready)
  · obtain ⟨events, hdeed⟩ := hordered.deed (m := m) hready
    have hhead : c.ready.head? = some id := by
      rw [hready]
      rfl
    have hstays : (c.step m).Stays id := by
      obtain ⟨phase, hphase⟩ := hdeed.present
      rw [step_of_ready hready hphase]
      exact stays_advance hhead phase
    rcases hdeed.turn with hfull | ⟨phase, hphase, hspends⟩ | ⟨hsame, phase, hphase, hfresh⟩
    · exact .inl hfull
    · rcases hstays with hkeeps | hfull
      · exact .inr ⟨id, phase, hkeeps, hphase, hspends⟩
      · exact .inl hfull
    · exact .inl (hsame.trans (h.turn_of_head hhead hphase hfresh))

theorem Paced.move (h : c.Paced) (hordered : c.Ordered) (hmove : Move m c c') : c'.Paced := by
  cases hmove with
  | step => exact h.step hordered
  | issue call =>
    rcases h with hfull | ⟨id, phase, hhead, hphase, hspends⟩
    · exact .inl hfull
    · refine .inr ⟨id, phase, ?_, ?_, hspends⟩
      · rw [issue, List.head?_append, hhead]
        rfl
      · have hnone : c.phase? c.calls = none :=
          role_eq_absent_iff.1 (hordered.fresh _ (Nat.le_refl _))
        rw [phase?_issue hnone, Function.update_of_ne]
        · exact hphase
        · rintro rfl
          rw [hnone] at hphase
          cases hphase
  | @tick due hquiet _ =>
    obtain ⟨ready, hready⟩ := c.tick_eq due
    rw [hready]
    exact .inl (h.turn_of_idle (ready_of_quiet hquiet).1)
  | wait hquiet _ _ => exact .inl (h.turn_of_idle (ready_of_quiet hquiet).1)
  | write target value =>
    rcases h with hfull | hspends
    · exact .inl ((c.stage.turn_set target value).trans hfull)
    · exact .inr hspends
  | register _ => exact h

/-- **Turns are fair.** -/
theorem Reachable.paced (h : c.Reachable m) : c.Paced := by
  obtain ⟨driver, functions, hmoves⟩ := h
  induction hmoves with
  | refl => exact .inl rfl
  | tail hmoves hmove ih =>
    have hreach : Reachable m _ := ⟨driver, functions, hmoves⟩
    exact ih.move hreach.ordered hmove

end Config

end Timeline
