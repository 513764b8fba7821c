/-
Timeline/Proofs/Machine/Singles.lean

Single targets.

To move a single target together with no others is to move it.  Programs that differ in
nothing else (`Machine.Resembles`) are not told apart while they are driven: main result
(`Machine.Resembles.step`).
-/
import Mathlib.Data.List.Forall2
import Timeline.Machine.Drive

namespace Timeline

/-- Actions that are the same, but one may move a single target together with no others. -/
inductive Action.Resembles : Action → Action → Prop
  | same (action : Action) : Resembles action action
  | single (t : Tween) : Resembles (.parallel [t]) (.move t)

/-- Machines that are the same, but one may move single targets together with no others. -/
structure Machine.Resembles (m m' : Machine) : Prop where
  steps : List.Forall₂ (fun s s' => s.step.action.Resembles s'.step.action)
    m.program.steps m'.program.steps
  labels : m'.program.labels = m.program.labels
  shown : ∀ index, m'.program.display? index = m.program.display? index
  settings : m'.settings = m.settings
  initial : m'.initial = m.initial
  haptics : m'.haptics = m.haptics

theorem Program.branchEnd_congr {steps steps' : List FlatStep}
    (h : List.Forall₂ (fun s s' => s.step.action.Resembles s'.step.action) steps steps')
    (atElse : Bool) (index depth : Nat) :
    branchEnd atElse index steps' depth = branchEnd atElse index steps depth := by
  induction h generalizing index depth with
  | nil => rfl
  | @cons s s' rest rest' hs _ ih =>
    have hbracket : s'.step.bracket? = s.step.bracket? := by
      unfold Step.bracket?
      generalize s.step.action = action at hs
      generalize s'.step.action = action' at hs
      cases hs with
      | same _ => rfl
      | single _ => rfl
    simp only [branchEnd, hbracket, ih]

namespace Machine.Resembles

variable {m m' : Machine} (h : m.Resembles m')

include h

theorem length : m'.program.length = m.program.length :=
  h.steps.length_eq.symm

theorem labelIndex? (label : String) :
    m'.program.labelIndex? label = m.program.labelIndex? label := by
  rw [Program.labelIndex?, Program.labelIndex?, h.labels]

theorem position : m'.position = m.position := by
  funext index
  rw [Machine.position, Machine.position, h.shown]

theorem skipBranch (start : Nat) (atElse : Bool) :
    m'.program.skipBranch start atElse = m.program.skipBranch start atElse :=
  Program.branchEnd_congr (List.forall₂_drop _ h.steps) atElse _ _

/-- A step begins in the same way. -/
theorem begin {action action' : Action} (haction : action.Resembles action') (index : Nat)
    (r : Registers) : m'.begin index action' r = m.begin index action r := by
  cases haction with
  | single t => rfl
  | same action =>
    cases action <;>
      simp only [Machine.begin, h.settings, h.haptics, h.labelIndex?, h.skipBranch, Program.jump]

theorem step? (index : Nat) : m.program.step? index = none ∧ m'.program.step? index = none ∨
    ∃ step step', m.program.step? index = some step ∧ m'.program.step? index = some step' ∧
      step.action.Resembles step'.action := by
  rcases Nat.lt_or_ge index m.program.steps.length with hlt | hge
  · have hlt' : index < m'.program.steps.length := h.steps.length_eq ▸ hlt
    refine .inr ⟨_, _, ?_, ?_, h.steps.get hlt hlt'⟩
    · rw [Program.step?, List.getElem?_eq_getElem hlt]
      rfl
    · rw [Program.step?, List.getElem?_eq_getElem hlt']
      rfl
  · refine .inl ⟨Program.step?_eq_none_iff.2 hge, Program.step?_eq_none_iff.2 ?_⟩
    exact h.length ▸ hge

theorem beginStep (c : Config) (id : Nat) (who : Stepper) :
    c.beginStep m' id who = c.beginStep m id who := by
  obtain ⟨hnone, hnone'⟩ | ⟨step, step', hstep, hstep', haction⟩ := h.step? c.registers.cursor
  · simp only [Config.beginStep, hnone, hnone']
  · simp only [Config.beginStep, hstep, hstep', h.position, h.begin haction]

theorem enter (c : Config) (id : Nat) (purpose : Purpose) :
    c.enter m' id purpose = c.enter m id purpose := by
  cases purpose <;>
    simp only [Config.enter, Config.rewind, h.beginStep, h.length, h.settings, h.initial, h.position]

theorem accept (c : Config) (id : Nat) (call : Call) : c.accept m' id call = c.accept m id call := by
  rcases call with - | (- | label) | - | - | - <;>
    simp only [Config.accept, h.length, h.settings, h.labelIndex?]

theorem advance (c : Config) (id : Nat) (phase : Phase) :
    c.advance m' id phase = c.advance m id phase := by
  cases phase with
  | issued call => exact h.accept c id call
  | seeking purpose => simp only [Config.advance, Config.seek, h.enter]
  | queued purpose => simp only [Config.advance, Config.leaveQueue, h.enter]
  | stepping who index activity =>
    simp only [Config.advance, Config.endStep, h.settings, h.length]
  | moving convoy => rfl

/-- **To move a single target together with no others is to move it.**  What differs in nothing else
does the same at every small step. -/
theorem step (c : Config) : c.step m' = c.step m := by
  simp only [Config.step, h.advance]

end Machine.Resembles

end Timeline
