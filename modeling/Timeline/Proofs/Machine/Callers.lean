/-
Timeline/Proofs/Machine/Callers.lean

The calls that are not over.

Only to issue a call adds one, under a number of its own (`Config.callers_step`), so every
call that is not over has one phase (`Config.Reachable.distinct`) and every alarm belongs
to the phase of a call (`Config.Reachable.phase?_of_mem_alarms`).
-/
import Mathlib.Data.List.Basic
import Timeline.Proofs.Machine.Ledger

namespace Timeline

open Relation

namespace Config

variable {m : Machine} {c c' : Config} {id : Nat}

/-- The numbers of the calls that are not over. -/
def callers (c : Config) : List Nat :=
  c.tasks.map Prod.fst

@[simp] theorem callers_setPhase (c : Config) (id : Nat) (phase : Phase) :
    (c.setPhase id phase).callers = c.callers := by
  show (c.tasks.map _).map Prod.fst = c.tasks.map Prod.fst
  rw [List.map_map]
  refine List.map_congr_left fun t _ => ?_
  by_cases ht : t.1 = id <;> simp [ht]

@[simp] theorem callers_note (c : Config) (e : Event) : (c.note e).callers = c.callers := rfl

@[simp] theorem callers_block (c : Config) : c.block.callers = c.callers := rfl

@[simp] theorem callers_yield (c : Config) (id : Nat) : (c.yield id).callers = c.callers := rfl

@[simp] theorem callers_pause (c : Config) (id : Nat) : (c.pause id).callers = c.callers := by
  unfold pause
  split <;> rfl

@[simp] theorem callers_wake (c : Config) (id : Nat) : (c.wake id).callers = c.callers := by
  rw [wake_eq]
  rfl

@[simp] theorem callers_unlock (c : Config) : c.unlock.callers = c.callers := by
  rw [unlock_eq]
  rfl

@[simp] theorem callers_notify (c : Config) : c.notify.callers = c.callers := by
  rw [notify_eq]
  rfl

@[simp] theorem callers_unlisten (c : Config) (id : Nat) : (c.unlisten id).callers = c.callers := by
  unfold unlisten
  split
  · rw [callers_notify]
    rfl
  · rfl

@[simp] theorem callers_releaseHold (c : Config) (id holder : Nat) (release : Release) :
    (c.releaseHold id holder release).callers = c.callers := by
  simp only [releaseHold, callers_wake, callers_note]
  split
  · exact callers_setPhase ..
  · rfl

theorem callers_finish (c : Config) (id : Nat) (result : Except StepError Unit) :
    (c.finish id result).callers.Sublist c.callers :=
  List.filter_sublist.map Prod.fst

theorem callers_leave {c' : Config} (c : Config) (id : Nat) (result : Except StepError Unit)
    (h : c.callers = c'.callers) : (c.finish id result).callers.Sublist c'.callers :=
  h ▸ callers_finish c id result

theorem callers_beginStep (c : Config) (id : Nat) (who : Stepper) :
    (c.beginStep m id who).callers.Sublist c.callers := by
  rcases hstep : m.program.step? c.registers.cursor with - | step
  · rw [beginStep_of_none hstep, ← callers_unlock c]
    exact callers_finish ..
  · by_cases hhold : step.action = .hold
    · rw [beginStep_of_hold hstep hhold, callers_setPhase, callers_notify]
      exact .refl _
    · rcases hbegin : m.begin c.registers.cursor step.action c.registers with ⟨r, activity⟩
      rw [beginStep_of_ne_hold hstep hhold hbegin, callers_setPhase]
      exact .refl _

theorem callers_enter (c : Config) (id : Nat) (purpose : Purpose) :
    (c.enter m id purpose).callers.Sublist c.callers := by
  have hrun (c : Config) : (c.unlock.finishRun id (.ok ())).callers.Sublist c.callers :=
    callers_leave ({ c.unlock with running := false }) id (.ok ()) (callers_unlock c)
  cases purpose with
  | clear epoch =>
    rw [enter, callers_setPhase, callers_unlock]
    exact .refl _
  | step epoch =>
    simp only [enter]
    split
    · exact hrun c
    · split
      · split
        · rw [callers_setPhase, callers_unlock]
        · exact hrun c
      · exact callers_beginStep c id _
  | restart epoch =>
    simp only [enter]
    split
    · exact hrun c
    · rw [callers_yield, callers_setPhase, callers_unlock, callers_note]
      exact .refl _
  | next seek => exact callers_beginStep _ id .next
  | rewind => exact callers_leave _ id (.ok ()) (callers_unlock _)

theorem callers_seek (c : Config) (id : Nat) (purpose : Purpose) :
    (c.seek m id purpose).callers.Sublist c.callers := by
  have hask (hno : purpose.release? = none ∨ c.hold = none) :
      (c.seek m id purpose).callers.Sublist c.callers := by
    rw [seek_eq hno]
    split
    · exact .refl _
    · split
      · exact callers_enter _ id purpose
      · split
        · exact .refl _
        · rw [callers_block, callers_setPhase]
          split
          · exact .refl _
          · exact .refl _
  rcases hrelease : purpose.release? with - | release
  · exact hask (.inl hrelease)
  · rcases hhold : c.hold with - | holder
    · exact hask (.inr hhold)
    · rw [seek_of_hold hrelease hhold]
      split
      · rw [callers_releaseHold]
      · rw [← callers_releaseHold c id holder release]
        exact callers_finish ..

theorem callers_leaveQueue (c : Config) (id : Nat) (purpose : Purpose) :
    (c.leaveQueue m id purpose).callers.Sublist c.callers := by
  unfold leaveQueue
  split
  · refine (callers_enter _ id purpose).trans ?_
    split
    · rw [callers_unlisten]
      exact .refl _
    · exact .refl _
  · split
    · rw [callers_setPhase]
      exact .refl _
    · exact .refl _

theorem callers_accept (c : Config) (id : Nat) (call : Call) :
    (c.accept m id call).callers.Sublist c.callers := by
  cases call with
  | start =>
    simp only [accept]
    split
    · exact callers_finish ..
    · rw [callers_setPhase]
      exact .refl _
  | next label =>
    cases label with
    | none =>
      simp only [accept]
      split
      · exact callers_finish ..
      · rw [callers_setPhase]
    | some label =>
      simp only [accept]
      split
      · exact callers_finish ..
      · split
        · exact callers_finish ..
        · rw [callers_setPhase]
  | stop =>
    rw [accept, callers_setPhase]
    exact .refl _
  | reset =>
    rw [accept, callers_setPhase]
  | animate batch =>
    rw [accept, callers_setPhase]

/-- No small step adds a call. -/
theorem callers_advance (c : Config) (id : Nat) (phase : Phase) :
    (c.advance m id phase).callers.Sublist c.callers := by
  cases phase with
  | issued call => exact callers_accept c id call
  | seeking purpose => exact callers_seek c id purpose
  | queued purpose => exact callers_leaveQueue c id purpose
  | stepping who index activity =>
    simp only [advance]
    rcases activity.poll c.stage with ⟨s, activity' | e | flow⟩ <;> dsimp only
    · rw [callers_pause, callers_setPhase]
      exact .refl _
    · cases who with
      | run epoch => exact callers_leave _ id _ (callers_unlock _)
      | next => exact callers_leave _ id _ (callers_unlock _)
    · cases who with
      | run epoch =>
        rw [endStep_run, callers_setPhase, callers_unlock]
        exact .refl _
      | next =>
        rw [endStep_next]
        exact callers_leave _ id _ (callers_unlock _)
  | moving convoy =>
    simp only [advance]
    rcases convoy.poll false c.stage with ⟨s, convoy' | result⟩ <;> dsimp only
    · rw [callers_pause, callers_setPhase]
      exact .refl _
    · exact callers_finish ..

theorem callers_step (c : Config) : (c.step m).callers.Sublist c.callers := by
  rcases hready : c.ready with - | ⟨id, rest⟩
  · rw [step_of_idle hready]
    exact .refl _
  · rcases hphase : c.phase? id with - | phase
    · rw [show c.step m = c.block by simp only [step, hready, hphase]]
      exact .refl _
    · rw [step_of_ready hready hphase]
      exact callers_advance c id phase

/-- A call that is issued is a new one. -/
theorem Ordered.fresh_caller (h : c.Ordered) : c.calls ∉ c.callers := by
  have hnone : c.tasks.lookup c.calls = none :=
    role_eq_absent_iff.1 (h.fresh _ (Nat.le_refl _))
  intro hmem
  obtain ⟨t, ht, hcalls⟩ := List.mem_map.1 hmem
  have hne := List.lookup_eq_none_iff.1 hnone t ht
  rw [hcalls, bne_self_eq_false] at hne
  cases hne

/-- **Every call that is not over has one phase.** -/
theorem Reachable.distinct (h : c.Reachable m) : c.callers.Nodup := by
  obtain ⟨driver, functions, hmoves⟩ := h
  induction hmoves with
  | refl => exact List.nodup_nil
  | @tail c c' hbefore hmove ih =>
    cases hmove with
    | step => exact ih.sublist (callers_step c)
    | issue call =>
      have hordered : c.Ordered := Reachable.ordered (m := m) ⟨driver, functions, hbefore⟩
      show ((c.tasks ++ [(c.calls, Phase.issued call)]).map Prod.fst).Nodup
      rw [List.map_append]
      refine List.nodup_append.2 ⟨ih, List.pairwise_singleton _ _, fun j hj i hi hji => ?_⟩
      obtain rfl : i = c.calls := List.mem_singleton.1 hi
      exact hordered.fresh_caller (hji ▸ hj)
    | @tick due _ _ =>
      obtain ⟨ready, hready⟩ := c.tick_eq due
      rw [hready]
      exact ih
    | wait _ _ _ => exact ih
    | write _ _ => exact ih
    | register _ => exact ih

/-- Every alarm belongs to the phase of a call. -/
theorem Reachable.phase?_of_mem_alarms (h : c.Reachable m) {a : Alarm} (ha : (a, id) ∈ c.alarms) :
    ∃ phase, c.phase? id = some phase ∧ phase.alarm? = some a := by
  obtain ⟨⟨j, phase⟩, hmem, hphase⟩ := List.mem_filterMap.1 ha
  obtain ⟨alarm, halarm, heq⟩ := Option.map_eq_some_iff.1 hphase
  obtain ⟨rfl, rfl⟩ := Prod.mk.inj heq
  refine ⟨phase, ?_, halarm⟩
  obtain ⟨before, after, htasks⟩ := List.append_of_mem hmem
  have hdistinct : (c.tasks.map Prod.fst).Nodup := h.distinct
  rw [htasks, List.map_append, List.map_cons] at hdistinct
  refine List.lookup_eq_some_iff.2 ⟨before, after, htasks, fun p hp => ?_⟩
  have hne := (List.nodup_append.1 hdistinct).2.2 p.1 (List.mem_map_of_mem hp) j List.mem_cons_self
  exact bne_iff_ne.2 (Ne.symm hne)

end Config

end Timeline
