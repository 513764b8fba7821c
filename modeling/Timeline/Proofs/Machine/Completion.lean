/-
Timeline/Proofs/Machine/Completion.lean

Runs that nobody disturbs come to their ends.

Every step of such a run leads forward, and between two steps the run goes from one
phase to the next.  Within a step there is less left of what the step is busy with
whenever the run goes on (`Activity.poll_leaves`) or is woken (`Activity.Rests.left_lt`);
when neither is so, the run has used up its turn or has nothing to do but to wait.

Main results: what happens next brings a run that is not over nearer to its end
(`Config.Afoot.nearer`), so that it ends (`Config.Afoot.ends`); a run of the program of
a scenario begins what a walker along the scenario begins, and it ends at the end of the
program unless a step fails (`Config.runs_as_walked`).
-/
import Mathlib
import Timeline.Proofs.Machine.Continuation
import Timeline.Proofs.Machine.Convoys
import Timeline.Proofs.Machine.Failures
import Timeline.Proofs.Machine.Rewinding
import Timeline.Proofs.Stage.Nearing

namespace Timeline

open Relation

/-! ### How many go together -/

/-- The number of those who are under way together in a step. -/
def Action.breadth : Action → Nat
  | .parallel tweens => tweens.length
  | _ => 1

/-- In no step of a program more of them are under way together. -/
def Program.breadth (p : Program) : Nat :=
  (p.steps.map fun s => s.step.action.breadth).sum

theorem Program.breadth_le {p : Program} {index : Nat} {step : Step}
    (h : p.step? index = some step) : step.action.breadth ≤ p.breadth := by
  obtain ⟨s, hs, rfl⟩ := Option.map_eq_some_iff.1 h
  have hmem : s.step.action.breadth ∈ p.steps.map fun s => s.step.action.breadth :=
    List.mem_map.2 ⟨s, List.mem_of_getElem? hs, rfl⟩
  exact List.single_le_sum (fun _ _ => Nat.zero_le _) _ hmem

/-- Nobody of those with whom a step begins waits for an alarm. -/
theorem Machine.begin_fresh (m : Machine) (index : Nat) (action : Action) (r : Registers) :
    (m.begin index action r).2.size ≤ action.breadth ∧ (m.begin index action r).2.alarms = [] := by
  have htweens (ts : List Tween) :
      (Activity.tweens ts).size = ts.length ∧ (Activity.tweens ts).alarms = [] := by
    refine ⟨List.length_map _, ?_⟩
    simp [Activity.tweens, Activity.alarms, Join.alarms, Course.alarm?]
  cases action with
  | move tween => exact ⟨(htweens [tween]).1.le, (htweens [tween]).2⟩
  | parallel tweens => exact ⟨(htweens tweens).1.le, (htweens tweens).2⟩
  | hold => exact ⟨Nat.zero_le _, rfl⟩
  | _ =>
    simp only [begin]
    repeat' split
    all_goals exact ⟨Nat.le_refl _, rfl⟩

/-! ### What a run does next -/

/-- How many phases of a run are still to come before its next step is executed. -/
def Phase.rank : Phase → Nat
  | .issued _ => 3
  | .seeking (.clear _) => 2
  | .seeking _ => 1
  | _ => 0

/-- What is left of the step that is executed in a phase, if there is one. -/
noncomputable def Phase.left (n now : Nat) :
    Phase → ℕ ×ₗ (Fin n → WithBot (Ordinal.{0} ×ₗ ℕ))
  | .stepping _ _ activity => activity.left n now
  | _ => toLex (0, ⊥)

namespace Ledger

variable {m : Machine} {l l' : Ledger} {id : Nat} {who : Stepper} {events : List Event}

/-- Whoever executes a step after a deed has gone on with it, or has just begun it. -/
theorem Deed.executes (h : Deed m id l events l') {index : Nat} {activity' : Activity}
    (hphase' : l'.phases id = some (.stepping who index activity')) :
    (∃ activity s, l.phases id = some (.stepping who index activity) ∧
      activity.poll l.stage = (s, .busy activity')) ∨
    ∃ step r, m.program.step? index = some step ∧
      (m.begin index step.action r).2 = activity' := by
  rcases h.steps hphase' with ⟨⟨activity, hphase⟩, -⟩ | ⟨step, r, hstep, hbegin, -⟩
  · left
    rcases h.polls hphase with ⟨s, next, hpoll, -, rfl⟩ | ⟨_, _, -, hidle⟩ | ⟨_, _, -, hidle, -, -⟩
    · cases setPhase_self.symm.trans hphase'
      exact ⟨activity, s, hphase, hpoll⟩
    · exact absurd hphase' (hidle _ _ _)
    · exact absurd hphase' (hidle _ _ _)
  · exact .inr ⟨step, r, hstep, congrArg Prod.snd hbegin⟩

/-- What a run that is alone with the machine can do in one small step. -/
inductive Onward (m : Machine) (id : Nat) (l : Ledger) : Ledger → Prop
  /-- It is over. -/
  | returned {l' : Ledger} : l'.phases id = none →
      l'.registers.cursor = l.registers.cursor → Onward m id l l'
  /-- It waits for its next turn. -/
  | rest : l.stage.turn = 0 → Onward m id l l.block
  /-- It comes to its next phase. -/
  | next {l' : Ledger} {phase phase' : Phase} : l.phases id = some phase →
      l'.phases id = some phase' → phase'.rank < phase.rank →
      l'.registers.cursor = l.registers.cursor → Onward m id l l'
  /-- It goes on with a step. -/
  | busy {who : Stepper} {index : Nat} {activity activity' : Activity} {s : Stage} :
      l.phases id = some (.stepping who index activity) →
      activity.poll l.stage = (s, .busy activity') →
      Onward m id l ({ l with stage := s }.setPhase id (.stepping who index activity')).block
  /-- It comes to the end of a step, and leaves it behind. -/
  | ended {l' : Ledger} : l.registers.cursor < l'.registers.cursor →
      l'.registers.cursor ≤ m.program.length → Onward m id l l'

theorem Begins.onward {l₁ : Ledger} {phase : Phase} (h : Begins m id who l₁ events l')
    (hphase : l.phases id = some phase) (hrank : 0 < phase.rank)
    (hcursor : l₁.registers.cursor = l.registers.cursor) : Onward m id l l' := by
  cases h with
  | hold _ _ => exact .next hphase setPhase_self hrank hcursor
  | @step step r activity _ _ hbegin =>
    refine .next hphase setPhase_self hrank (Eq.trans ?_ hcursor)
    have hkept := (m.begin_decides l₁.registers.cursor step.action l₁.registers).2.2
    rw [hbegin] at hkept
    exact hkept

end Ledger

namespace Config

variable {m : Machine} {c c' : Config} {id : Nat} {w : Walker} {o : Outline}
  {base : List (Nat × Action)}

/-- **What a run does next**, if nobody disturbs it. -/
theorem Tracks.onward (h : c.Tracks m base id w) (hordered : c.Ordered)
    (hloop : m.settings.looping = false) {events : List Event} {l' : Ledger}
    (hdeed : Ledger.Deed m id c.ledger events l') : Ledger.Onward m id c.ledger l' := by
  have hsame {phase old : Phase} (hphase : c.phase? id = some phase)
      (hold : c.phase? id = some old) : phase = old :=
    Option.some.inj (hphase.symm.trans hold)
  -- the registers are free for a run that asks for them
  have hseek {purpose : Purpose} (hphase : c.phase? id = some (.seeking purpose))
      (hrelease : purpose.release? = none)
      (hentry : ∀ {l₁ : Ledger}, l₁.registers = c.registers → Ledger.Entry m id l₁ purpose events l' →
        Ledger.Onward m id c.ledger l') : Ledger.Onward m id c.ledger l' := by
    cases hdeed with
    | rest _ hturn _ => exact .rest hturn
    | queue _ _ howned _ => exact absurd (h.owner_eq_none hordered hphase) howned
    | permit hold _ _ _ hlistens _ =>
      cases hsame hphase hold
      rw [hrelease] at hlistens
      cases hlistens
    | drop hold _ _ _ =>
      cases hsame hphase hold
      cases hrelease
    | resume hold _ _ _ =>
      cases hsame hphase hold
      cases hrelease
    | take hold _ _ _ hb =>
      cases hsame hphase hold
      exact hentry rfl hb
    | _ => cases hsame hphase ‹c.ledger.phases id = some _›
  have hfollows := h.follows
  generalize hdeed' : w.deed = deed at hfollows
  generalize htodo : w.todo = todo at hfollows
  rcases hphase : c.phase? id with - | phase
  · obtain ⟨phase, hsome⟩ := hdeed.present
    cases hphase.symm.trans hsome
  rw [hphase] at hfollows
  cases hfollows with
  | issued _ _ =>
    cases hdeed with
    | start _ _ _ => exact .next hphase Ledger.setPhase_self (Nat.lt_succ_self 2) rfl
    | idle _ _ => exact .returned Ledger.finish_self rfl
    | _ => cases hsame hphase ‹c.ledger.phases id = some _›
  | clear _ =>
    refine hseek hphase rfl fun hregisters hb => ?_
    have hcursor := congrArg Registers.cursor hregisters
    cases hb
    exact .next hphase Ledger.setPhase_self (Nat.lt_succ_self 1) hcursor
  | step _ _ =>
    refine hseek hphase rfl fun hregisters hb => ?_
    have hcursor := congrArg Registers.cursor hregisters
    cases hb with
    | stopped _ => exact .returned Ledger.finish_self hcursor
    | finished _ _ _ _ => exact .returned Ledger.finish_self hcursor
    | around _ _ _ hlooping _ => cases hloop.symm.trans hlooping
    | step _ _ hb => exact hb.onward hphase Nat.zero_lt_one hcursor
  | stepping _ hbusy =>
    cases hdeed with
    | busy hold hpoll => exact .busy hold hpoll
    | @ended _ _ _ _ flow hold hpoll =>
      cases hsame hphase hold
      rw [← hdeed', ← htodo] at hbusy
      obtain ⟨hforward, todo', -, hahead⟩ :=
        Busy.poll_ok (w := { w with stage := c.stage }) hbusy hpoll
      have hcursor : m.cursorAfter (.run c.epoch) c.registers.cursor flow
          = flow.next c.registers.cursor := by
        simp [Machine.cursorAfter]
      exact .ended (hforward.trans_eq hcursor.symm) (hcursor.trans_le hahead.le_length)
    | crashed _ _ => exact .returned Ledger.finish_self rfl
    | _ => cases hsame hphase ‹c.ledger.phases id = some _›

/-! ### Waiting -/

/-- What happens next if nobody disturbs a machine: a small step of whoever can go on, and if nobody
can, the next alarm goes off. -/
inductive Proceeds (m : Machine) (c : Config) : Config → Prop
  | step : ¬ c.quiet → Proceeds m c (c.step m)
  | tick {due : Nat} : c.quiet → c.nextDue? = some due → Proceeds m c (c.tick due)

theorem Proceeds.undisturbed (h : Proceeds m c c') : Undisturbed m c c' := by
  cases h with
  | step _ => exact .step
  | tick hquiet hdue => exact .tick hquiet hdue

/-- The next alarm is one of those that the step waits for. -/
theorem Tracks.awaits (h : c.Tracks m base id w) (hreach : c.Reachable m) {due : Nat}
    (hdue : c.nextDue? = some due) : ∃ who index activity a,
      c.phase? id = some (.stepping who index activity) ∧
        Alarm.first? activity.alarms = some a ∧ a.due = due := by
  obtain ⟨first, hfirst, rfl⟩ := Option.map_eq_some_iff.1 hdue
  obtain ⟨⟨a, j⟩, hmem, rfl⟩ := List.mem_map.1 (Alarm.first?_mem hfirst)
  obtain ⟨phase, hphase, halarm⟩ := hreach.phase?_of_mem_alarms hmem
  obtain rfl := eq_of_alone h.alone hphase
  have hfollows := h.follows
  rw [hphase] at hfollows
  generalize w.deed = deed at hfollows
  generalize w.todo = todo at hfollows
  cases hfollows with
  | issued _ _ => cases halarm
  | clear _ => cases halarm
  | step _ _ => cases halarm
  | stepping _ _ => exact ⟨_, _, _, a, hphase, halarm, rfl⟩

/-! ### Runs that are under way -/

/-- A run that was started alone, and that nobody has disturbed: it goes on together with a walker, or
it has failed.  While it executes a step, it can go on or everybody in it waits. -/
structure Afoot (m : Machine) (base : List (Nat × Action)) (id : Nat) (c : Config) : Prop where
  tracked : (∃ w, c.Tracks m base id w) ∨ c.Failed id
  frame : 0 < c.stage.driver.frame.nanos
  size : ∀ {who index activity}, c.phase? id = some (.stepping who index activity) →
    activity.size ≤ m.program.breadth
  attends : ∀ {who index activity}, c.phase? id = some (.stepping who index activity) →
    c.Goes id ∨ activity.Rests c.stage.now

theorem Afoot.alone (h : c.Afoot m base id) : ∀ j ≠ id, c.phase? j = none := by
  rcases h.tracked with ⟨w, htracks⟩ | hfailed
  · exact htracks.alone
  · exact fun j _ => hfailed.ended j

/-- Only the run itself can go on. -/
theorem Afoot.eq_of_ready (h : c.Afoot m base id) (hordered : c.Ordered) {j : Nat} {rest : List Nat}
    (hready : c.ready = j :: rest) : j = id := by
  obtain ⟨phase, hphase⟩ := Option.isSome_iff_exists.1
    (hordered.isSome_phase? (hready ▸ List.mem_cons_self : j ∈ c.ready))
  exact eq_of_alone h.alone hphase

/-- A small step of the run. -/
theorem Afoot.step (h : c.Afoot m base id) (hreach : c.Reachable m)
    (htracked : (∃ w, (c.step m).Tracks m base id w) ∨ (c.step m).Failed id) :
    (c.step m).Afoot m base id := by
  rcases hready : c.ready with - | ⟨j, rest⟩
  · rw [step_of_idle hready] at htracked ⊢
    refine ⟨htracked, h.frame, h.size, fun hphase => (h.attends hphase).imp_left ?_⟩
    rintro (hmem | hmem)
    · rw [hready] at hmem
      cases hmem
    · exact .inl hmem
  obtain rfl := h.eq_of_ready hreach.ordered hready
  obtain ⟨events, hdeed⟩ := hreach.ordered.deed (m := m) hready
  have hframe : 0 < (c.step m).stage.driver.frame.nanos := hdeed.touched.frame ▸ h.frame
  have hsteps {who : Stepper} {index : Nat} {activity' : Activity}
      (hphase' : (c.step m).phase? j = some (.stepping who index activity')) :
      activity'.size ≤ m.program.breadth ∧
        ((c.step m).Goes j ∨ activity'.Rests (c.step m).stage.now) := by
    rcases hdeed.executes hphase' with ⟨activity, s, hphase, hpoll⟩ | ⟨step, r, hstep, rfl⟩
    · refine ⟨(Activity.size_poll hpoll).trans_le (h.size hphase), ?_⟩
      by_cases hturn : s.turn = 0
      · exact .inl (goes_of_spent hready hphase hpoll hturn)
      · right
        have hnow : s.now = c.stage.now := (Activity.poll_acts hpoll).frame.now
        rw [step_of_busy hready hphase hpoll]
        show activity'.Rests s.now
        rw [hnow]
        exact Activity.poll_rests h.frame hpoll (Nat.pos_of_ne_zero hturn)
    · obtain ⟨hsize, halarms⟩ := m.begin_fresh index step.action r
      refine ⟨hsize.trans (Program.breadth_le hstep), ?_⟩
      by_cases hhold : (m.begin index step.action r).2 = .holding none
      · rw [hhold]
        exact .inr trivial
      · exact .inl ((hreach.move .step).ordered.goes_of_stepping hphase' hhold halarms)
  exact ⟨htracked, hframe, fun hphase => (hsteps hphase).1, fun hphase => (hsteps hphase).2⟩

/-- **Whatever happens next**, the run is still under way. -/
theorem Afoot.move (h : c.Afoot m base id) (hreach : c.Reachable m)
    (hdrive : m.settings.drive = .auto) (hloop : m.settings.looping = false)
    (hmove : Undisturbed m c c') : c'.Afoot m base id := by
  have htracked : (∃ w, c'.Tracks m base id w) ∨ c'.Failed id := by
    rcases h.tracked with ⟨w, htracks⟩ | hfailed
    · exact (htracks.move hreach.ordered hdrive hloop hmove).imp_left fun ⟨w', _, h'⟩ => ⟨w', h'⟩
    · exact .inr (hfailed.move hreach.ordered hmove)
  cases hmove with
  | step => exact h.step hreach htracked
  | @tick due hquiet hdue =>
    -- whoever executes a step is woken
    have hgoes {who : Stepper} {index : Nat} {activity : Activity}
        (hphase : c.phase? id = some (.stepping who index activity)) : (c.tick due).Goes id := by
      rcases h.tracked with ⟨w, htracks⟩ | hfailed
      · obtain ⟨_, _, _, a, hphase', ha, rfl⟩ := htracks.awaits hreach hdue
        exact goes_of_tick hphase' ha (Nat.le_refl _)
      · cases (hfailed.ended id).symm.trans hphase
    obtain ⟨ready, hready⟩ := c.tick_eq due
    rw [hready] at htracked hgoes ⊢
    exact ⟨htracked, h.frame, h.size, fun hphase => .inl (hgoes hphase)⟩
  | @wait time hquiet hnow hlate =>
    refine ⟨htracked, h.frame, h.size, fun hphase => ?_⟩
    have hrests := (h.attends hphase).resolve_left (not_goes_of_quiet hquiet id)
    refine .inr (hrests.later fun alarm halarm => ?_)
    obtain ⟨a, ha⟩ := Option.isSome_iff_exists.1
      (Alarm.isSome_first? (List.ne_nil_of_mem halarm))
    obtain ⟨due, hdue, hle⟩ := exists_nextDue? hphase ha
    exact ((hlate due hdue).trans_le hle).trans_le (Alarm.first?_le ha alarm halarm)

/-! ### The end of a run -/

/-- What is left of the phase of a call at a time: it has less left in a later phase. -/
noncomputable def phaseLeft (m : Machine) (id : Nat) (c : Config) :
    WithBot (ℕ ×ₗ ℕ ×ₗ (Fin m.program.breadth → WithBot (Ordinal.{0} ×ₗ ℕ))) :=
  (c.phase? id).elim ⊥ fun phase => ↑(toLex (phase.rank, phase.left m.program.breadth c.stage.now))

theorem phaseLeft_of_phase? {phase : Phase} (h : c.phase? id = some phase) : c.phaseLeft m id
    = ↑(toLex (phase.rank, phase.left m.program.breadth c.stage.now)) := by
  rw [phaseLeft, h]
  rfl

/-- What a call can still do that changes nothing but whose turn it is. -/
def unrest (c : Config) : ℕ ×ₗ ℕ :=
  toLex (if c.stage.turn = 0 then 1 else 0, 2 * c.yielded.length + c.ready.length)

/-- How far a run is from its end: by the steps of the program, by what is left of its phase, and by
its turns. -/
noncomputable def toGo (m : Machine) (id : Nat) (c : Config) :
    ℕ ×ₗ WithBot (ℕ ×ₗ ℕ ×ₗ (Fin m.program.breadth → WithBot (Ordinal.{0} ×ₗ ℕ))) ×ₗ ℕ ×ₗ ℕ :=
  toLex (m.program.length - c.registers.cursor, toLex (c.phaseLeft m id, c.unrest))

theorem toGo_lt_of_cursor (hlt : c.registers.cursor < c'.registers.cursor)
    (hle : c'.registers.cursor ≤ m.program.length) : toGo m id c' < toGo m id c :=
  Prod.Lex.toLex_lt_toLex.2 (.inl (by omega))

theorem toGo_lt_of_phase (hcursor : c'.registers.cursor = c.registers.cursor)
    (hlt : c'.phaseLeft m id < c.phaseLeft m id) : toGo m id c' < toGo m id c := by
  unfold toGo
  rw [hcursor]
  exact Prod.Lex.toLex_lt_toLex.2 (.inr ⟨rfl, Prod.Lex.toLex_lt_toLex.2 (.inl hlt)⟩)

theorem toGo_lt_of_unrest (hcursor : c'.registers.cursor = c.registers.cursor)
    (hle : c'.phaseLeft m id ≤ c.phaseLeft m id) (hlt : c'.unrest < c.unrest) :
    toGo m id c' < toGo m id c := by
  rcases hle.lt_or_eq with hphase | hphase
  · exact toGo_lt_of_phase hcursor hphase
  · unfold toGo
    rw [hcursor, hphase]
    exact Prod.Lex.toLex_lt_toLex.2 (.inr ⟨rfl, Prod.Lex.toLex_lt_toLex.2 (.inr ⟨rfl, hlt⟩)⟩)

/-- The run goes on with a step: there is less left of it, or it is no longer its turn. -/
theorem Afoot.nearer_of_busy (h : c.Afoot m base id) {rest : List Nat} (hready : c.ready = id :: rest)
    {who : Stepper} {index : Nat} {activity activity' : Activity} {s : Stage}
    (hphase : c.phase? id = some (.stepping who index activity))
    (hpoll : activity.poll c.stage = (s, .busy activity')) :
    toGo m id (c.step m) < toGo m id c := by
  have hphases := phase?_step_of_busy (m := m) hready hphase hpoll
  have hstep := step_of_busy (m := m) hready hphase hpoll
  have hcursor : (c.step m).registers.cursor = c.registers.cursor := by
    rw [hstep]
    rfl
  have hnow : (c.step m).stage.now = c.stage.now := by
    rw [hstep]
    exact (Activity.poll_acts hpoll).frame.now
  have hunrest : (c.step m).unrest = toLex (0,
      2 * (if s.turn = 0 then c.yielded ++ [id] else c.yielded).length + rest.length) := by
    rw [hstep]
    show toLex (0, _ + c.ready.tail.length) = _
    rw [hready]
    rfl
  have hafter : (c.step m).phaseLeft m id
      = ↑(toLex (0, activity'.left m.program.breadth c.stage.now)) := by
    rw [phaseLeft_of_phase? (by rw [hphases, Function.update_self]), hnow]
    rfl
  have hleaves := (Activity.poll_leaves h.frame (h.size hphase) hpoll).toLex_right 0
  have hle : (c.step m).phaseLeft m id ≤ c.phaseLeft m id := by
    rw [phaseLeft_of_phase? hphase, hafter]
    exact WithBot.coe_le_coe.2 hleaves.le
  by_cases hturn : c.stage.turn = 0
  · -- the visit may have been in vain, but the next turn is a full one
    refine toGo_lt_of_unrest hcursor hle ?_
    rw [hunrest, unrest, if_pos hturn]
    exact Prod.Lex.toLex_lt_toLex.2 (.inl Nat.zero_lt_one)
  · rcases hleaves.lt (Nat.pos_of_ne_zero hturn) with hlt | ⟨rfl, -⟩
    · refine toGo_lt_of_phase hcursor ?_
      rw [phaseLeft_of_phase? hphase, hafter]
      exact WithBot.coe_lt_coe.2 hlt
    · -- everybody waits, and so does the run
      refine toGo_lt_of_unrest hcursor hle ?_
      rw [hunrest, unrest, if_neg hturn, if_neg hturn, hready]
      exact Prod.Lex.toLex_lt_toLex.2 (.inr ⟨rfl, Nat.lt_succ_self _⟩)

/-- A small step of the run brings it nearer to its end. -/
theorem Afoot.nearer_of_step (h : c.Afoot m base id) (hordered : c.Ordered)
    (hloop : m.settings.looping = false) (htracks : c.Tracks m base id w) {rest : List Nat}
    (hready : c.ready = id :: rest) : toGo m id (c.step m) < toGo m id c := by
  obtain ⟨events, hdeed⟩ := hordered.deed (m := m) hready
  have honward := htracks.onward hordered hloop hdeed
  obtain ⟨phase, hphase : c.phase? id = some phase⟩ := hdeed.present
  generalize hl : (c.step m).ledger = l' at honward
  cases honward with
  | returned hnone hcursor =>
    -- a call without a phase has nothing left to do
    subst hl
    refine toGo_lt_of_phase hcursor ?_
    rw [phaseLeft_of_phase? hphase, phaseLeft, show (c.step m).phase? id = none from hnone]
    exact WithBot.bot_lt_coe _
  | rest hspent =>
    have hturn : c.stage.turn = 0 := hspent
    have hcursor : (c.step m).registers.cursor = c.registers.cursor :=
      congrArg (fun l => l.registers.cursor) hl
    have hphases : (c.step m).phase? = c.phase? := congrArg Ledger.phases hl
    have hstage : (c.step m).stage = c.stage.nextTurn := congrArg Ledger.stage hl
    refine toGo_lt_of_unrest hcursor ?_ ?_
    · rw [phaseLeft, phaseLeft, hphases, hstage]
      exact le_rfl
    · rw [unrest, unrest, hstage, if_pos hturn]
      exact Prod.Lex.toLex_lt_toLex.2 (.inl Nat.zero_lt_one)
  | @next _ _ phase' hphase₀ hphase' hrank hcursor =>
    subst hl
    obtain rfl := Option.some.inj (hphase.symm.trans hphase₀)
    refine toGo_lt_of_phase hcursor ?_
    rw [phaseLeft_of_phase? hphase, phaseLeft_of_phase? (c := c.step m) hphase']
    exact WithBot.coe_lt_coe.2 (Prod.Lex.toLex_lt_toLex.2 (.inl hrank))
  | busy hphase₀ hpoll => exact h.nearer_of_busy hready hphase₀ hpoll
  | ended hlt hle =>
    subst hl
    exact toGo_lt_of_cursor hlt hle

/-- **A run that is not over comes nearer to its end** by what happens next. -/
theorem Afoot.nearer (h : c.Afoot m base id) (hreach : c.Reachable m)
    (hloop : m.settings.looping = false) (htasks : c.tasks ≠ []) :
    ∃ c', Proceeds m c c' ∧ toGo m id c' < toGo m id c := by
  obtain ⟨w, htracks⟩ := h.tracked.resolve_right fun hfailed => htasks (tasks_eq_nil hfailed.ended)
  by_cases hquiet : c.quiet = true
  · -- the run waits, and somebody is woken
    obtain ⟨due, hdue⟩ := Option.isSome_iff_exists.1
      ((htracks.not_stuck hreach.ordered htasks).resolve_left fun hnot => hnot hquiet)
    refine ⟨c.tick due, .tick hquiet hdue, ?_⟩
    obtain ⟨who, index, activity, a, hphase, ha, rfl⟩ := htracks.awaits hreach hdue
    have hrests := (h.attends hphase).resolve_left (not_goes_of_quiet hquiet id)
    obtain ⟨ready, hready⟩ := c.tick_eq a.due
    rw [hready]
    refine toGo_lt_of_phase rfl ?_
    have hleft := hrests.left_lt (h.size hphase) (Alarm.first?_mem ha)
    rw [phaseLeft_of_phase? hphase, phaseLeft_of_phase? (c := { c with stage := _, ready }) hphase]
    exact WithBot.coe_lt_coe.2 (Prod.Lex.toLex_lt_toLex.2 (.inr ⟨rfl, hleft⟩))
  · refine ⟨c.step m, .step hquiet, ?_⟩
    rcases hready : c.ready with - | ⟨j, rest⟩
    · -- the run has let others go first, of whom there are none
      have hyielded : c.yielded ≠ [] := fun hnil => hquiet (by simp [quiet, hready, hnil])
      have hpos := List.length_pos_of_ne_nil hyielded
      rw [step_of_idle hready]
      refine toGo_lt_of_unrest rfl le_rfl (Prod.Lex.toLex_lt_toLex.2 (.inr ⟨rfl, ?_⟩))
      show 2 * 0 + c.yielded.length < 2 * c.yielded.length + c.ready.length
      omega
    · obtain rfl := h.eq_of_ready hreach.ordered hready
      exact h.nearer_of_step hreach.ordered hloop htracks hready

/-- **A run that nobody disturbs ends.** -/
theorem Afoot.ends (h : c.Afoot m base id) (hreach : c.Reachable m)
    (hdrive : m.settings.drive = .auto) (hloop : m.settings.looping = false) :
    ∃ c', ReflTransGen (Proceeds m) c c' ∧ c'.tasks = [] := by
  -- on how far it is to go; that the run stays afoot carries the induction
  induction hleft : toGo m id c using WellFoundedLT.induction generalizing c with
  | ind left ih =>
    by_cases htasks : c.tasks = []
    · exact ⟨c, .refl, htasks⟩
    · obtain ⟨c₁, hmove, hlt⟩ := h.nearer hreach hloop htasks
      have hundisturbed := hmove.undisturbed
      obtain ⟨c', hmoves, hover⟩ := ih _ (hleft ▸ hlt)
        (h.move hreach hdrive hloop hundisturbed) (hreach.move hundisturbed.move) rfl
      exact ⟨c', .head hmove hmoves, hover⟩

/-- A run is started while nobody else drives the machine. -/
theorem afoot_issue (hidle : c.tasks = []) (hrunning : c.running = false)
    (hahead : Ahead m.program c.registers.cursor [(0, o)]) (hframe : 0 < c.stage.driver.frame.nanos) :
    (c.issue .start).Afoot m (c.stage.visits m.program) c.calls := by
  have hphase : (c.issue .start).phase? c.calls = some (.issued .start) := by
    rw [phase?_issue (phase?_of_tasks_eq_nil hidle c.calls), Function.update_self]
  refine ⟨.inl ⟨_, tracks_issue hidle hrunning hahead⟩, hframe, fun h => ?_, fun h => ?_⟩
  · cases hphase.symm.trans h
  · cases hphase.symm.trans h

/-- **A run begins what a walker begins, and it ends.**  A scenario whose outline is spelled by plain
steps, blocks and conditionals is compiled without errors, and a run of its program is started at the
begin while nobody else drives the machine.  As long as nobody disturbs the run and no step of it
fails, a walker along the scenario goes along on the same stage: what has begun is what he has
visited, every step once at most and in the order of the outline, and when the run is over, he is at
his end.  Wherever the run has come to, it ends if nobody disturbs it any more either; unless a step
fails it does so at the end of the program.  For that the frames of animations have to take time. -/
theorem runs_as_walked {scenario : Scenario} {options : CompileOptions}
    (hspells : o.Spells options.blocks scenario)
    (herrors : (scenario.compile options).errors = [])
    (hprogram : m.program = (scenario.compile options).program)
    (hdrive : m.settings.drive = .auto) (hloop : m.settings.looping = false) {c₀ : Config}
    (hreach : c₀.Reachable m) (hidle : c₀.tasks = []) (hrunning : c₀.running = false)
    (hcursor : c₀.registers.cursor = 0) (hrun : ReflTransGen (Undisturbed m) (c₀.issue .start) c)
    (hfails : ∀ r ∈ c.stage.journal, ∀ index e, r.event ≠ .failed c₀.calls index e) :
    (∃ w, Walker.Walks m (.before c₀.stage c₀.registers.vibrated o) w ∧ w.stage = c.stage ∧
      c.stage.visits m.program = w.visits ++ c₀.stage.visits m.program ∧
      (w.visits.map Prod.fst).Pairwise (· > ·) ∧
      (c.tasks ≠ [] → ¬ c.quiet ∨ c.nextDue?.isSome) ∧
      (c.tasks = [] → w.Over ∧ c.registers.cursor = m.program.length ∧
        ∃ r ∈ c.stage.journal, r.event = .returned c₀.calls (.ok ()))) ∧
    (0 < c₀.stage.driver.frame.nanos → ∃ c', ReflTransGen (Proceeds m) c c' ∧ c'.tasks = [] ∧
      ((∀ r ∈ c'.stage.journal, ∀ index e, r.event ≠ .failed c₀.calls index e) →
        c'.registers.cursor = m.program.length)) := by
  refine ⟨begins_as_walked hspells herrors hprogram hdrive hloop hreach hidle hrunning hcursor hrun
    hfails, fun hframe => ?_⟩
  have hahead : Ahead m.program c₀.registers.cursor [(0, o)] := by
    rw [hcursor, hprogram]
    exact hspells.ahead herrors
  -- the run is afoot through all that has happened so far, even if a step of it has failed
  have hafoot : c.Reachable m ∧ c.Afoot m (c₀.stage.visits m.program) c₀.calls := by
    clear hfails
    induction hrun with
    | refl => exact ⟨hreach.issue .start, afoot_issue hidle hrunning hahead hframe⟩
    | tail _ hmove ih =>
      obtain ⟨hreach', hafoot⟩ := ih
      exact ⟨hreach'.move hmove.move, hafoot.move hreach' hdrive hloop hmove⟩
  obtain ⟨c', hmoves, hover⟩ := hafoot.2.ends hafoot.1 hdrive hloop
  refine ⟨c', hmoves, hover, fun hfails' => ?_⟩
  have hrun' : ReflTransGen (Undisturbed m) (c₀.issue .start) c' :=
    hrun.trans (ReflTransGen.mono (fun _ _ => Proceeds.undisturbed) _ _ hmoves)
  obtain ⟨w, -, -, -, -, -, hend⟩ := begins_as_walked hspells herrors hprogram hdrive hloop hreach
    hidle hrunning hcursor hrun' hfails'
  exact (hend hover).2.1

/-! ### A scenario with a block and a conditional -/

/-- A conditional whose one branch uses a block. -/
def branching : Scenario :=
  [.step { action := .ifThen (.literal (.bool true)) }, .step { action := .use "pulse" },
    .step { action := .ifElse }, .step { action := .comment "" }, .step { action := .ifEnd }]

/-- The block that it uses. -/
def pulse : CompileOptions := { blocks := ⟨[("pulse", [.step { action := .vibrate }])]⟩ }

/-- Its outline. -/
def branchingOutline : Outline :=
  .ifThenElse (.literal (.bool true)) (.block (.plain .vibrate trivial .nil) .nil)
    (.plain (.comment "") trivial .nil) .nil

/-- A machine on its program. -/
def brancher : Machine where
  program := ⟨[⟨{ action := .ifThen (.literal (.bool true)) }, none⟩,
    ⟨{ action := .vibrate }, some "pulse"⟩, ⟨{ action := .ifElse }, none⟩,
    ⟨{ action := .comment "" }, none⟩, ⟨{ action := .ifEnd }, none⟩], {}⟩

/-- The machine after a run. -/
def branched : Config :=
  ((fresh brancher {} {}).issue .start).settle brancher 20

theorem spells_branching : branchingOutline.Spells pulse.blocks branching := by
  have hpulse : Outline.Spells pulse.blocks (.plain .vibrate trivial .nil)
      [.step { action := .vibrate }] :=
    @Outline.Spells.plain _ (.step { action := .vibrate }) { action := .vibrate } _ _ rfl trivial .nil
  have hcomment : Outline.Spells pulse.blocks (.plain (.comment "") trivial .nil)
      [.step { action := .comment "" }] :=
    @Outline.Spells.plain _ (.step { action := .comment "" }) { action := .comment "" } _ _ rfl
      trivial .nil
  have huse : Outline.Spells pulse.blocks (.block (.plain .vibrate trivial .nil) .nil)
      [.step { action := .use "pulse" }] :=
    .block rfl rfl rfl hpulse .nil
  exact .ifThenElse rfl rfl huse rfl rfl hcomment rfl rfl .nil

theorem compile_branching : (branching.compile pulse).errors = [] ∧
    brancher.program = (branching.compile pulse).program := by
  have huse (d : Draft) : pulse.blocks.expandEntry [] 1 (.step { action := .use "pulse" }) d
      = pulse.blocks.expand ["pulse"] 0 [.step { action := .vibrate }] d := rfl
  have hdraft : branching.draft pulse.blocks = { steps := brancher.program.steps } := by
    rw [Scenario.draft, branching, Blocks.expand_cons, Blocks.expand_cons, Blocks.expand_cons,
      Blocks.expand_cons, Blocks.expand_cons, Blocks.expand_nil, huse, Blocks.expand_cons,
      Blocks.expand_nil]
    rfl
  simp only [Scenario.compile, hdraft]
  constructor
  · cbv
  · rfl

theorem runs_as_walked_branching :
    branchingOutline.Spells pulse.blocks branching ∧ (branching.compile pulse).errors = [] ∧
      branched.tasks = [] ∧
      (∃ w, Walker.Walks brancher
          (.before (fresh brancher {} {}).stage false branchingOutline) w ∧
        w.stage = branched.stage ∧ w.Over ∧
        w.visits = [(1, .vibrate), (0, .ifThen (.literal (.bool true)))]) ∧
      ∃ c', ReflTransGen (Proceeds brancher) ((fresh brancher {} {}).issue .start) c' ∧
        c'.tasks = [] := by
  have hover : branched.tasks = [] := by cbv
  have hvisits : branched.stage.visits brancher.program
      = [(1, .vibrate), (0, .ifThen (.literal (.bool true)))] := by cbv
  have hok : (branched.stage.journal.any fun r => r.event.isFailure) = false := by cbv
  have hfails : ∀ r ∈ branched.stage.journal, ∀ index e, r.event ≠ .failed 0 index e := by
    intro r hr index e he
    have h := List.any_eq_false.1 hok r hr
    rw [he] at h
    exact h rfl
  have hrun : ReflTransGen (Undisturbed brancher)
      ((fresh brancher {} {}).issue .start) branched :=
    undisturbed_settle .refl 20
  -- the run as it was at its begin, and as it is when it is over
  have hbegin := runs_as_walked spells_branching compile_branching.1 compile_branching.2 rfl rfl
    (Reachable.fresh {} {}) rfl rfl rfl .refl fun r hr => (List.not_mem_nil hr).elim
  obtain ⟨⟨w, hwalks, hstage, hbegan, -, -, hend⟩, -⟩ :=
    runs_as_walked spells_branching compile_branching.1 compile_branching.2 rfl rfl
      (Reachable.fresh {} {}) rfl rfl rfl hrun hfails
  obtain ⟨c', hmoves, hended, -⟩ := hbegin.2 (show 0 < (Duration.ofMillis 16).nanos by decide)
  refine ⟨spells_branching, compile_branching.1, hover,
    ⟨w, hwalks, hstage, (hend hover).1, ?_⟩, c', hmoves, hended⟩
  rw [← List.append_nil w.visits]
  exact hbegan.symm.trans hvisits

end Config

end Timeline
