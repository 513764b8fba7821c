/-
Timeline/Proofs/Program/Validation.lean

What is known of a program that was compiled without errors.

Main result (`Scenario.valid_of_compile`): all its references lead somewhere, no
`use` step is left, and every branch that can be skipped has an end.
-/
import Timeline.Proofs.Program.Brackets
import Timeline.Proofs.Program.Expansion

namespace Timeline

namespace Program

/-- A program whose references and brackets are in order. -/
structure Valid (p : Program) (values : Table Float) (functions : List String) : Prop where
  targets : ∀ {index : Nat} {step : Step}, p.step? index = some step →
    ∀ target ∈ step.targets, values.contains target
  callee : ∀ {index : Nat} {step : Step}, p.step? index = some step →
    ∀ name, step.callee? = some name → name ∈ functions
  labels : ∀ {index : Nat} {step : Step}, p.step? index = some step →
    ∀ label ∈ step.labelRefs, (p.labelIndex? label).isSome
  useFree : ∀ {index : Nat} {step : Step}, p.step? index = some step →
    ∀ block, step.action ≠ .use block
  ends : ∀ {index : Nat} {step : Step}, p.step? index = some step →
    step.bracket? = some .opening ∨ step.bracket? = some .divider →
    ∀ atElse, (p.skip? index atElse).isSome

/-- Without dangling references no step has any. -/
theorem danglingOf_eq_nil {p : Program} {values : Table Float} {functions : List String}
    (h : p.dangling values functions = []) {index : Nat} {step : Step}
    (hstep : p.step? index = some step) : p.danglingOf values functions step = [] := by
  obtain ⟨s, hs, rfl⟩ := Option.map_eq_some_iff.1 hstep
  rw [dangling, List.flatMap_eq_nil_iff] at h
  have hmem : (s, index) ∈ p.steps.zipIdx := by
    rw [List.mk_mem_zipIdx_iff_getElem?]
    exact hs
  simpa using h _ hmem

end Program

namespace Scenario

variable {scenario : Scenario} {options : CompileOptions}

/-- Without errors there are none of any kind. -/
theorem errors_eq_nil (h : (scenario.compile options).errors = []) :
    (scenario.draft options.blocks).errors = [] ∧
      (scenario.compile options).program.dangling options.values options.functions = [] ∧
      (scenario.compile options).program.unbalanced = [] := by
  have hnone {l : List CompileError} (hl : l.eraseDups = []) : l = [] := by
    cases l with
    | nil => rfl
    | cons e rest =>
      rw [List.eraseDups_cons] at hl
      cases hl
  have hall := hnone h
  rw [List.append_eq_nil_iff, List.append_eq_nil_iff] at hall
  exact ⟨hall.1.1, hall.1.2, hall.2⟩

/-- **A scenario that compiles without errors gives a valid program.** -/
theorem valid_of_compile (h : (scenario.compile options).errors = []) :
    (scenario.compile options).program.Valid options.values options.functions := by
  obtain ⟨-, hdangling, hbalanced⟩ := errors_eq_nil h
  have hof {index : Nat} {step : Step}
      (hstep : (scenario.compile options).program.step? index = some step) :
      (step.targets.filter fun t => !options.values.contains t) = [] ∧
        (step.callee?.toList.filter fun name => name ∉ options.functions) = [] ∧
        (step.labelRefs.filter fun label =>
          ((scenario.compile options).program.labelIndex? label).isNone) = [] := by
    have := Program.danglingOf_eq_nil hdangling hstep
    rw [Program.danglingOf, List.append_eq_nil_iff, List.append_eq_nil_iff] at this
    simpa only [List.map_eq_nil_iff, and_assoc] using this
  constructor
  · intro index step hstep target ht
    have := (hof hstep).1
    rw [List.filter_eq_nil_iff] at this
    simpa using this target ht
  · intro index step hstep name hname
    have := (hof hstep).2.1
    rw [hname, List.filter_eq_nil_iff] at this
    simpa using this name
  · intro index step hstep label hlabel
    have := (hof hstep).2.2
    rw [List.filter_eq_nil_iff] at this
    rw [Option.isSome_iff_ne_none]
    simpa using this label hlabel
  · intro index step hstep block
    obtain ⟨s, hs, rfl⟩ := Option.map_eq_some_iff.1 hstep
    exact Draft.useFree_expand [] 0 scenario (fun _ hs => absurd hs List.not_mem_nil) s
      (List.mem_of_getElem? hs)
      block
  · intro index step hstep hb atElse
    exact Program.isSome_skip?_of_balanced hbalanced hstep hb

end Scenario

end Timeline
