/-
Timeline/Proofs/Machine/Safety.lean

Valid programs do not go wrong.

The steps of a valid program know their targets, their labels and the functions
that they call by name, so that the plan of such a program (`Program.Valid.plan`)
leaves few errors: an operand may come to a value of the wrong kind, and a function
may fail.  A function that is looked for in vain is one that an operand names.

Main result (`Config.no_step_goes_wrong`): however a machine on a program that was
compiled without errors is driven, as long as the targets and functions that it was
compiled against are there.
-/
import Mathlib
import Timeline.Proofs.Machine.Underway
import Timeline.Proofs.Program.Validation

namespace Timeline

/-! ### What the operands of a step refer to -/

/-- The operands of a tween. -/
def Tween.operands (t : Tween) : List Operand :=
  [t.destination.operand, t.duration]

/-- The operands of a step. -/
def Action.operands : Action → List Operand
  | .move tween => tween.operands
  | .delay duration => [duration]
  | .parallel tweens => tweens.flatMap Tween.operands
  | .callback _ value => value.toList
  | .set _ value => [value]
  | .ifJump condition _ _ => [condition]
  | .ifThen condition => [condition]
  | _ => []

/-- The functions that the operands of a step name. -/
def Step.operandNames (s : Step) : List String :=
  s.action.operands.filterMap Operand.name?

/-- The step fails because of an operand, or because of a function that was called. -/
def StepError.IsRuntime (e : StepError) : Prop :=
  (∃ field value, e = .invalidOperand field value) ∨ ∃ error, e = .call error

/-- Bounds for the step at an index, given the targets and functions that are known. -/
def Program.bounds (p : Program) (values : Table Float) (functions : List String) (index : Nat) :
    Bounds where
  held target := values.contains target
  registered name := name ∈ functions
  optional name := ∃ step, p.step? index = some step ∧ name ∈ step.operandNames
  error := StepError.IsRuntime
  error_call e := .inr ⟨e, rfl⟩

/-! ### Operands keep within bounds -/

section Operands

variable {B : Bounds} {o : Operand}

/-- An operand may be resolved: it names a function that may be looked for. -/
def Operand.Within (B : Bounds) (o : Operand) : Prop :=
  ∀ name, o.name? = some name → B.registered name ∨ B.optional name

theorem Operand.resolve_meets (h : o.Within B) : o.resolve.Meets B fun _ => True := by
  cases o with
  | literal v => trivial
  | named name => exact ⟨h name rfl, fun _ => trivial⟩
  | function body => exact fun _ => trivial

theorem Operand.number_meets (h : o.Within B) {field : String}
    (hfield : ∀ v, B.error (.invalidOperand field v)) :
    (o.number field).Meets B fun _ => True := by
  refine (resolve_meets h).bind fun v _ => ?_
  rcases v.float? with - | x
  · exact hfield v
  · trivial

theorem Operand.duration_meets (h : o.Within B)
    (hfield : ∀ v, B.error (.invalidOperand "duration" v)) :
    o.duration.Meets B fun _ => True := by
  refine (resolve_meets h).bind fun v _ => ?_
  rcases v.float?.bind Duration.ofMillis? with - | d
  · exact hfield v
  · trivial

theorem Operand.holds_meets (h : o.Within B) : o.holds.Meets B fun _ => True :=
  (resolve_meets h).bind fun _ _ => trivial

/-- A relative destination looks at a target that is held. -/
theorem Destination.number_meets {d : Destination} {target : String} (h : d.operand.Within B)
    (hfield : ∀ v, B.error (.invalidOperand "to" v)) (hheld : B.held target) :
    (d.number target).Meets B fun _ => True := by
  refine (Operand.number_meets h hfield).bind fun amount _ => ?_
  cases d with
  | absolute _ => trivial
  | inc _ =>
    intro v hv
    obtain ⟨x, rfl⟩ := Option.isSome_iff_exists.1 (hv hheld)
    trivial
  | dec _ =>
    intro v hv
    obtain ⟨x, rfl⟩ := Option.isSome_iff_exists.1 (hv hheld)
    trivial

theorem Tween.prepare_meets {t : Tween} (hoperands : ∀ o ∈ t.operands, o.Within B)
    (hfield : ∀ field v, B.error (.invalidOperand field v)) (hheld : B.held t.target) :
    t.prepare.Meets B (Activity.Prepared B) := by
  refine (Destination.number_meets (hoperands _ (by simp [operands])) (hfield _) hheld).bind
    fun _ _ => ?_
  refine (Operand.duration_meets (hoperands _ (by simp [operands])) (hfield _)).bind fun _ _ => ?_
  exact .inl hheld

/-- Tweens of held targets keep within bounds. -/
theorem Activity.tweens_meets {ts : List Tween}
    (hoperands : ∀ t ∈ ts, ∀ o ∈ t.operands, o.Within B)
    (hfield : ∀ field v, B.error (.invalidOperand field v)) (hheld : ∀ t ∈ ts, B.held t.target) :
    (tweens ts).Meets B fun _ => True := by
  refine ⟨fun p hp => ?_, trivial⟩
  obtain ⟨t, ht, rfl⟩ := List.mem_map.1 hp
  exact Tween.prepare_meets (hoperands t ht) hfield (hheld t ht)

end Operands

/-! ### The plan of a valid program -/

section Plan

variable {m : Machine} {values : Table Float} {functions : List String}

/-- A jump to a label that is there. -/
theorem Program.jump_meets {B : Bounds} {p : Program} {label : String}
    (h : (p.labelIndex? label).isSome) : (p.jump label).Meets B fun _ => True := by
  obtain ⟨target, htarget⟩ := Option.isSome_iff_exists.1 h
  simp only [jump, htarget]
  trivial

/-- Every step of a valid program keeps within its bounds. -/
theorem Program.Valid.begin_meets (h : m.program.Valid values functions) {index : Nat}
    {step : Step} (hstep : m.program.step? index = some step) (r : Registers) :
    (m.begin index step.action r).2.Meets (m.program.bounds values functions index)
      fun _ => True := by
  -- what the program is valid for is what its steps refer to, field by field
  have htargets := h.targets hstep
  have hcallee := h.callee hstep
  have hlabels := h.labels hstep
  have hfield : ∀ field v,
      (m.program.bounds values functions index).error (.invalidOperand field v) :=
    fun field v => .inl ⟨field, v, rfl⟩
  have hwithin : ∀ o ∈ step.action.operands, o.Within (m.program.bounds values functions index) :=
    fun o ho name hname => .inr ⟨step, hstep, List.mem_filterMap.2 ⟨o, ho, hname⟩⟩
  unfold Step.targets at htargets
  unfold Step.callee? at hcallee
  unfold Step.labelRefs at hlabels
  rcases haction : step.action with
      tween | duration | tweens | _ | ⟨name, value⟩ | _ | name | text | block | label |
      ⟨target, value⟩ | _ | _ | ⟨condition, onTrue, onFalse⟩ | condition | _ | _ <;>
    simp only [haction] at htargets hcallee hlabels hwithin <;> simp only [Machine.begin]
  case move =>
    refine Activity.tweens_meets (fun t ht => ?_) hfield fun t ht => ?_
    · obtain rfl := List.mem_singleton.1 ht
      exact hwithin
    · obtain rfl := List.mem_singleton.1 ht
      exact htargets _ List.mem_cons_self
  case delay =>
    exact (Operand.duration_meets (hwithin _ List.mem_cons_self) (hfield _)).bind
      fun _ _ => trivial
  case parallel =>
    refine Activity.tweens_meets (fun t ht o ho => hwithin o ?_) hfield fun t ht => ?_
    · exact List.mem_flatMap.2 ⟨t, ht, ho⟩
    · exact htargets _ (List.mem_map.2 ⟨t, ht, rfl⟩)
  case vibrate =>
    split
    · dsimp only
      split <;> trivial
    · trivial
  case callback =>
    have hknown : name ∈ functions := hcallee name rfl
    rcases value with - | o
    · exact ⟨.inl hknown, fun _ => trivial⟩
    · exact (Operand.resolve_meets (hwithin o List.mem_cons_self)).bind
        fun _ _ => ⟨.inl hknown, fun _ => trivial⟩
  case hold => exact fun _ _ => trivial
  case goto =>
    obtain ⟨target, htarget⟩ := Option.isSome_iff_exists.1 (hlabels label List.mem_cons_self)
    simp only [htarget]
    trivial
  case resume => split <;> trivial
  case set =>
    exact (Operand.number_meets (hwithin _ List.mem_cons_self) (hfield _)).bind
      fun _ _ => ⟨.inl (htargets _ List.mem_cons_self), trivial⟩
  case ifJump =>
    refine (Operand.holds_meets (hwithin _ List.mem_cons_self)).bind fun b _ => ?_
    cases b with
    | true => exact Program.jump_meets (hlabels _ List.mem_cons_self)
    | false =>
      rcases onFalse with - | label
      · trivial
      · exact Program.jump_meets (hlabels label (by simp))
  case ifThen =>
    refine (Operand.holds_meets (hwithin _ List.mem_cons_self)).bind fun b _ => ?_
    cases b <;> trivial
  all_goals trivial

/-- The plan of a valid program. -/
def Program.Valid.plan (h : m.program.Valid values functions) : m.Plan where
  bounds := m.program.bounds values functions
  begins r hstep := h.begin_meets hstep r

end Plan

/-- A stage has the targets and the functions that a scenario was compiled against. -/
structure CompileOptions.Covers (options : CompileOptions) (s : Stage) : Prop where
  targets : ∀ target, options.values.contains target → (s.driver.get? target).isSome
  functions : ∀ name ∈ options.functions, s.functions.contains name

namespace Config

/-- **Valid programs do not go wrong.**  A machine on a program that was compiled without errors may
be driven in any way.  As long as the targets and functions are there that the program was compiled
against, a step fails only because of an operand or a called function; a function that is not found
is named by an operand of the step and is none of those; and no step begins that stands for a block,
that calls a function by an unknown name, or from which a branch without an end could be skipped. -/
theorem no_step_goes_wrong {scenario : Scenario} {options : CompileOptions}
    (herrors : (scenario.compile options).errors = []) {m : Machine}
    (hprogram : m.program = (scenario.compile options).program) {c : Config}
    (h : c.ReachableOn m options.Covers) :
    (∀ r ∈ c.stage.journal, ∀ id index e, r.event = .failed id index e → e.IsRuntime) ∧
    (∀ r ∈ c.stage.journal, ∀ name, r.event = .missed name → name ∉ options.functions ∧
      ∃ step, m.program.step? r.index = some step ∧ name ∈ step.operandNames) ∧
    ∀ r ∈ c.stage.journal, ∀ id index, r.event = .began id index →
      ∃ step, m.program.step? index = some step ∧ (∀ block, step.action ≠ .use block) ∧
        (∀ name, step.callee? = some name → name ∈ options.functions) ∧
        (∀ condition, step.action = .ifThen condition →
          m.program.skip? index true = some (m.program.skipBranch index true)) ∧
        (step.action = .ifElse →
          m.program.skip? index false = some (m.program.skipBranch index false)) := by
  have hvalid : m.program.Valid options.values options.functions :=
    hprogram ▸ Scenario.valid_of_compile herrors
  have hsound : c.Sound hvalid.plan := h.sound fun s hs _ => ⟨hs.targets, hs.functions⟩
  refine ⟨fun r hr id index e he => ?_, fun r hr name he => ?_, fun r hr id index he => ?_⟩
  · have htells := hsound.journal r hr
    rw [Machine.Plan.Tells, he] at htells
    exact htells
  · have htells := hsound.journal r hr
    rw [Machine.Plan.Tells, he] at htells
    exact ⟨htells.2, htells.1⟩
  · have htells := hsound.journal r hr
    rw [Machine.Plan.Tells, he] at htells
    obtain ⟨step, hstep⟩ := Option.isSome_iff_exists.1 htells
    refine ⟨step, hstep, hvalid.useFree hstep, hvalid.callee hstep, fun condition haction => ?_,
      fun haction => ?_⟩
    · have hb : step.bracket? = some .opening := by simp only [Step.bracket?, haction]
      exact Program.skip?_eq_some (hvalid.ends hstep (.inl hb) true)
    · have hb : step.bracket? = some .divider := by simp only [Step.bracket?, haction]
      exact Program.skip?_eq_some (hvalid.ends hstep (.inr hb) false)

/-- A scenario of one step, which calls a function. -/
def calling : Scenario := [.step { action := .callback "f" none }]

/-- The function that it may call. -/
def callable : CompileOptions := { functions := ["f"] }

/-- A machine on its program. -/
def caller : Machine := { program := ⟨[⟨{ action := .callback "f" none }, none⟩], {}⟩ }

theorem compile_calling : (calling.compile callable).errors = [] ∧
    caller.program = (calling.compile callable).program := by
  have hdraft : calling.draft callable.blocks
      = { steps := [⟨{ action := .callback "f" none }, none⟩] } := by
    rw [Scenario.draft, calling, Blocks.expand_cons, Blocks.expand_nil]
    rfl
  simp only [Scenario.compile, hdraft]
  constructor
  · cbv
  · rfl

/-- The machine after a number of small steps of a run; the function fails. -/
def called : Nat → Config
  | 0 => (fresh caller {} (.ofList [("f", fun _ _ => .fail (.failed ""))])).issue .start
  | n + 1 => (called n).step caller

theorem covers_called (s : Stage) (h : s.functions.contains "f" = true) : callable.Covers s where
  targets target ht := by
    have hnone : callable.values.contains target = false := rfl
    rw [hnone] at ht
    cases ht
  functions name hname := by
    obtain rfl := List.mem_singleton.1 hname
    exact h

theorem no_step_goes_wrong_called : (calling.compile callable).errors = [] ∧
    caller.program = (calling.compile callable).program ∧
    (called 4).ReachableOn caller callable.Covers ∧
    (⟨0, 0, .failed 0 0 (.call (.failed ""))⟩ : Record) ∈ (called 4).stage.journal ∧
    StepError.IsRuntime (.call (.failed "")) := by
  have h0 : (called 0).ReachableOn caller callable.Covers :=
    ReachableOn.move ⟨_, _, covers_called _ (by cbv), .refl⟩ (.issue .start) (covers_called _ (by cbv))
  have h1 : (called 1).ReachableOn caller callable.Covers :=
    h0.move .step (covers_called _ (by cbv))
  have h2 : (called 2).ReachableOn caller callable.Covers :=
    h1.move .step (covers_called _ (by cbv))
  have h3 : (called 3).ReachableOn caller callable.Covers :=
    h2.move .step (covers_called _ (by cbv))
  have h4 : (called 4).ReachableOn caller callable.Covers :=
    h3.move .step (covers_called _ (by cbv))
  have hmem : (⟨0, 0, .failed 0 0 (.call (.failed ""))⟩ : Record) ∈ (called 4).stage.journal := by
    have hat : (called 4).stage.journal[1]?
        = some ⟨0, 0, .failed 0 0 (.call (.failed ""))⟩ := by cbv
    exact List.mem_of_getElem? hat
  exact ⟨compile_calling.1, compile_calling.2, h4, hmem,
    (no_step_goes_wrong compile_calling.1 compile_calling.2 h4).1 _ hmem _ _ _ rfl⟩

end Config

end Timeline
