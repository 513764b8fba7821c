/-
Timeline/Proofs/Program/Outline.lean

Scenarios as trees.

An outline is a scenario in which the blocks are unfolded and the conditionals
are nodes with their branches.  `Outline.Spells` says that the entries of a
scenario spell an outline; there is one if the scenario and all blocks that it
uses are built from plain steps, `use` steps and well-nested conditionals, and if
no block uses itself.

Main results: the program of a scenario that compiles without errors is its
outline written out (`Outline.Spells.actions_compile`), and whoever skips a branch
of an outline goes on after the bracket that ends it (`Outline.branchEnd_flat`).
-/
import Timeline.Proofs.Program.Validation

namespace Timeline

/-- A step that does not steer the run: no jump, no hold, no bracket, no block. -/
def Action.Plain : Action → Prop
  | .move _ | .delay _ | .parallel _ | .vibrate | .callback _ _ | .label _ | .comment _
  | .set _ _ => True
  | _ => False

theorem Action.Plain.ne_use {action : Action} (h : action.Plain) (name : String) :
    action ≠ .use name := by
  rintro rfl
  exact h

/-- A plain step is no bracket. -/
theorem Step.bracket?_of_plain {step : Step} (h : step.action.Plain) : step.bracket? = none := by
  unfold bracket?
  cases haction : step.action <;> rw [haction] at h
  case ifThen => exact h.elim
  case ifElse => exact h.elim
  case ifEnd => exact h.elim

/-- A scenario as a tree. -/
inductive Outline where
  | nil
  /-- A step that does not steer the run, and what follows. -/
  | plain (action : Action) (isPlain : action.Plain) (rest : Outline)
  /-- A block that is used, and what follows. -/
  | block (body rest : Outline)
  /-- A conditional without an alternative, and what follows. -/
  | ifThen (condition : Operand) (body rest : Outline)
  /-- A conditional with an alternative, and what follows. -/
  | ifThenElse (condition : Operand) (body other rest : Outline)

namespace Outline

/-- An outline written out. -/
def flat : Outline → List Action
  | nil => []
  | plain action _ rest => action :: rest.flat
  | block body rest => body.flat ++ rest.flat
  | ifThen condition body rest => .ifThen condition :: (body.flat ++ .ifEnd :: rest.flat)
  | ifThenElse condition body other rest =>
    .ifThen condition :: (body.flat ++ .ifElse :: (other.flat ++ .ifEnd :: rest.flat))

/-- Some entries spell an outline, given the blocks that they may use. -/
inductive Spells (blocks : Blocks) : Outline → List Entry → Prop
  | nil : Spells blocks nil []
  | plain {entry : Entry} {step : Step} {rest : Outline} {entries : List Entry} :
      entry.read = .ok step → (isPlain : step.action.Plain) → Spells blocks rest entries →
      Spells blocks (plain step.action isPlain rest) (entry :: entries)
  | block {entry : Entry} {step : Step} {name : String} {scenario : Scenario}
      {body rest : Outline} {entries : List Entry} :
      entry.read = .ok step → step.action = .use name → blocks.get? name = some scenario →
      Spells blocks body scenario → Spells blocks rest entries →
      Spells blocks (block body rest) (entry :: entries)
  | ifThen {opening closing : Entry} {first last : Step} {condition : Operand}
      {body rest : Outline} {inner entries : List Entry} :
      opening.read = .ok first → first.action = .ifThen condition → Spells blocks body inner →
      closing.read = .ok last → last.action = .ifEnd → Spells blocks rest entries →
      Spells blocks (ifThen condition body rest) (opening :: (inner ++ closing :: entries))
  | ifThenElse {opening divider closing : Entry} {first middle last : Step} {condition : Operand}
      {body other rest : Outline} {inner outer entries : List Entry} :
      opening.read = .ok first → first.action = .ifThen condition → Spells blocks body inner →
      divider.read = .ok middle → middle.action = .ifElse → Spells blocks other outer →
      closing.read = .ok last → last.action = .ifEnd → Spells blocks rest entries →
      Spells blocks (ifThenElse condition body other rest)
        (opening :: (inner ++ divider :: (outer ++ closing :: entries)))

end Outline

/-! ### Writing out -/

/-- The actions of some steps. -/
def FlatStep.actions (steps : List FlatStep) : List Action :=
  steps.map fun s => s.step.action

namespace Blocks

variable {blocks : Blocks} {path : List String}

theorem expand_append (position : Nat) (entries entries' : List Entry) (d : Draft) :
    blocks.expand path position (entries ++ entries') d
      = blocks.expand path (position + entries.length) entries'
        (blocks.expand path position entries d) := by
  induction entries generalizing position d with
  | nil => rw [expand_nil]; rfl
  | cons entry rest ih =>
    rw [List.cons_append, expand_cons, ih, expand_cons, List.length_cons]
    congr 1
    omega

/-- An entry that is no `use` appends its step, unless it is reported. -/
theorem actions_expandEntry {position : Nat} {entry : Entry} {step : Step} {d : Draft}
    (hread : entry.read = .ok step) (huse : ∀ name, step.action ≠ .use name)
    (herrors : (blocks.expandEntry path position entry d).errors = []) :
    FlatStep.actions (blocks.expandEntry path position entry d).steps
      = FlatStep.actions d.steps ++ [step.action] := by
  unfold expandEntry at herrors ⊢
  simp only [hread] at herrors ⊢
  split at herrors
  · rename_i hfaults
    simp [Draft.report, hfaults] at herrors
  · rename_i hfaults
    rw [if_neg hfaults]
    rcases haction : step.action with
      _ | _ | _ | _ | _ | _ | name | _ | block | _ | _ | _ | _ | _ | _ | _ | _
    case use => exact absurd haction (huse block)
    case label => simp [FlatStep.actions, Draft.push, Draft.define_steps, haction]
    all_goals simp [FlatStep.actions, Draft.push, haction]

/-- What is expanded without errors was so before. -/
theorem errors_eq_nil_of_expand {position : Nat} {entries : List Entry} {d : Draft}
    (h : (blocks.expand path position entries d).errors = []) : d.errors = [] :=
  Classical.byContradiction fun hd => Draft.errors_expand path position entries hd h

/-- A `use` step that is not reported is replaced by its block. -/
theorem expandEntry_use {position : Nat} {entry : Entry} {step : Step} {name : String}
    {scenario : Scenario} {d : Draft} (hread : entry.read = .ok step)
    (haction : step.action = .use name) (hfound : blocks.get? name = some scenario)
    (herrors : (blocks.expandEntry path position entry d).errors = []) :
    blocks.expandEntry path position entry d = blocks.expand (name :: path) 0 scenario d := by
  have hfaults : step.shapeFaults = [] := by simp only [Step.shapeFaults, haction]
  unfold expandEntry at herrors ⊢
  simp only [hread, hfaults, haction, hfound] at herrors ⊢
  by_cases hopen : name ∈ path
  · simp [hopen, Draft.report] at herrors
  · simp [hopen]

theorem errors_eq_nil_of_expandEntry {position : Nat} {entry : Entry} {d : Draft}
    (h : (blocks.expandEntry path position entry d).errors = []) : d.errors = [] := by
  have hexpand : (blocks.expand path position [entry] d).errors = [] := by
    rwa [expand_cons, expand_nil]
  exact errors_eq_nil_of_expand hexpand

end Blocks

namespace Outline

variable {blocks : Blocks} {path : List String}

/-- **Entries that spell an outline are expanded to the outline written out.** -/
theorem Spells.actions_expand {o : Outline} {entries : List Entry} (h : o.Spells blocks entries)
    {position : Nat} {d : Draft}
    (herrors : (blocks.expand path position entries d).errors = []) :
    FlatStep.actions (blocks.expand path position entries d).steps
      = FlatStep.actions d.steps ++ o.flat := by
  induction h generalizing path position d with
  | nil => simp [Blocks.expand_nil, flat]
  | plain hread hplain _ ih =>
    rw [Blocks.expand_cons] at herrors ⊢
    have hentry := Blocks.errors_eq_nil_of_expand herrors
    rw [ih herrors, Blocks.actions_expandEntry hread hplain.ne_use hentry, flat,
      List.append_assoc, List.singleton_append]
  | block hread haction hfound _ _ ihbody ih =>
    rw [Blocks.expand_cons] at herrors ⊢
    have hentry := Blocks.errors_eq_nil_of_expand herrors
    have huse := Blocks.expandEntry_use hread haction hfound hentry
    rw [huse] at herrors hentry ⊢
    rw [ih herrors, ihbody hentry, flat, List.append_assoc]
  | ifThen hopening hfirst _ hclosing hlast _ ihbody ih =>
    rw [Blocks.expand_cons, Blocks.expand_append, Blocks.expand_cons] at herrors ⊢
    have hend := Blocks.errors_eq_nil_of_expand herrors
    have hbody := Blocks.errors_eq_nil_of_expandEntry hend
    have hbegin := Blocks.errors_eq_nil_of_expand hbody
    rw [ih herrors, Blocks.actions_expandEntry hclosing (by simp [hlast]) hend, ihbody hbody,
      Blocks.actions_expandEntry hopening (by simp [hfirst]) hbegin, flat, hfirst, hlast]
    simp
  | ifThenElse hopening hfirst _ hdivider hmiddle _ hclosing hlast _ ihbody ihother ih =>
    rw [Blocks.expand_cons, Blocks.expand_append, Blocks.expand_cons, Blocks.expand_append,
      Blocks.expand_cons] at herrors ⊢
    have hend := Blocks.errors_eq_nil_of_expand herrors
    have hother := Blocks.errors_eq_nil_of_expandEntry hend
    have hmid := Blocks.errors_eq_nil_of_expand hother
    have hbody := Blocks.errors_eq_nil_of_expandEntry hmid
    have hbegin := Blocks.errors_eq_nil_of_expand hbody
    rw [ih herrors, Blocks.actions_expandEntry hclosing (by simp [hlast]) hend, ihother hother,
      Blocks.actions_expandEntry hdivider (by simp [hmiddle]) hmid, ihbody hbody,
      Blocks.actions_expandEntry hopening (by simp [hfirst]) hbegin, flat, hfirst, hmiddle, hlast]
    simp

/-- **The program of a scenario is its outline written out.** -/
theorem Spells.actions_compile {o : Outline} {scenario : Scenario} {options : CompileOptions}
    (h : o.Spells options.blocks scenario) (herrors : (scenario.compile options).errors = []) :
    FlatStep.actions (scenario.compile options).program.steps = o.flat := by
  have hdraft := (Scenario.errors_eq_nil herrors).1
  exact (h.actions_expand hdraft).trans (List.nil_append _)

/-! ### Skipping a branch -/

theorem branchEnd_of_none {atElse : Bool} {s : FlatStep} (h : s.step.bracket? = none)
    {rest : List FlatStep} {index depth : Nat} :
    Program.branchEnd atElse index (s :: rest) depth
      = Program.branchEnd atElse (index + 1) rest depth := by
  cases depth <;> simp only [Program.branchEnd, h]

theorem branchEnd_of_opening {atElse : Bool} {s : FlatStep} (h : s.step.bracket? = some .opening)
    {rest : List FlatStep} {index depth : Nat} :
    Program.branchEnd atElse index (s :: rest) depth
      = Program.branchEnd atElse (index + 1) rest (depth + 1) := by
  simp only [Program.branchEnd, h]

theorem branchEnd_of_divider {atElse : Bool} {s : FlatStep} (h : s.step.bracket? = some .divider)
    {rest : List FlatStep} {index depth : Nat} :
    Program.branchEnd atElse index (s :: rest) (depth + 1)
      = Program.branchEnd atElse (index + 1) rest (depth + 1) := by
  simp only [Program.branchEnd, h]

theorem branchEnd_of_closing {atElse : Bool} {s : FlatStep} (h : s.step.bracket? = some .closing)
    {rest : List FlatStep} {index depth : Nat} :
    Program.branchEnd atElse index (s :: rest) (depth + 1)
      = Program.branchEnd atElse (index + 1) rest depth := by
  simp only [Program.branchEnd, h]

/-- A scan that counts conditionals passes over an outline. -/
theorem branchEnd_flat {atElse : Bool} (o : Outline) {steps : List FlatStep}
    (hsteps : FlatStep.actions steps = o.flat) (rest : List FlatStep) (index depth : Nat) :
    Program.branchEnd atElse index (steps ++ rest) depth
      = Program.branchEnd atElse (index + steps.length) rest depth := by
  induction o generalizing steps rest index depth with
  | nil =>
    obtain rfl := List.map_eq_nil_iff.1 hsteps
    rfl
  | plain action isPlain o ih =>
    obtain ⟨s, steps, rfl, rfl, ho⟩ := List.map_eq_cons_iff.1 hsteps
    rw [List.cons_append, branchEnd_of_none (Step.bracket?_of_plain isPlain), ih ho,
      List.length_cons, Nat.add_assoc, Nat.add_comm 1]
  | block body o ihbody ih =>
    obtain ⟨steps₁, steps₂, rfl, h₁, h₂⟩ := List.map_eq_append_iff.1 hsteps
    rw [List.append_assoc, ihbody h₁, ih h₂, List.length_append, Nat.add_assoc]
  | ifThen condition body o ihbody ih =>
    obtain ⟨first, steps, rfl, hfirst, hsteps⟩ := List.map_eq_cons_iff.1 hsteps
    obtain ⟨inner, steps, rfl, hinner, hsteps⟩ := List.map_eq_append_iff.1 hsteps
    obtain ⟨last, steps, rfl, hlast, hsteps⟩ := List.map_eq_cons_iff.1 hsteps
    simp only [List.cons_append, List.append_assoc]
    rw [branchEnd_of_opening (by simp only [Step.bracket?, hfirst]), ihbody hinner,
      branchEnd_of_closing (by simp only [Step.bracket?, hlast]), ih hsteps]
    congr 1
    simp only [List.length_cons, List.length_append]
    omega
  | ifThenElse condition body other o ihbody ihother ih =>
    obtain ⟨first, steps, rfl, hfirst, hsteps⟩ := List.map_eq_cons_iff.1 hsteps
    obtain ⟨inner, steps, rfl, hinner, hsteps⟩ := List.map_eq_append_iff.1 hsteps
    obtain ⟨middle, steps, rfl, hmiddle, hsteps⟩ := List.map_eq_cons_iff.1 hsteps
    obtain ⟨outer, steps, rfl, houter, hsteps⟩ := List.map_eq_append_iff.1 hsteps
    obtain ⟨last, steps, rfl, hlast, hsteps⟩ := List.map_eq_cons_iff.1 hsteps
    simp only [List.cons_append, List.append_assoc]
    rw [branchEnd_of_opening (by simp only [Step.bracket?, hfirst]), ihbody hinner,
      branchEnd_of_divider (by simp only [Step.bracket?, hmiddle]), ihother houter,
      branchEnd_of_closing (by simp only [Step.bracket?, hlast]), ih hsteps]
    congr 1
    simp only [List.length_cons, List.length_append]
    omega

end Outline

/-! ### Where an outline stands in a program -/

namespace Program

variable {p : Program} {index : Nat}

/-- From an index on a program reads some actions. -/
def Reads (p : Program) (index : Nat) (actions : List Action) : Prop :=
  actions <+: FlatStep.actions (p.steps.drop index)

theorem Reads.cons {action : Action} {actions : List Action}
    (h : p.Reads index (action :: actions)) :
    (∃ step, p.step? index = some step ∧ step.action = action) ∧ p.Reads (index + 1) actions := by
  obtain ⟨rest, hrest⟩ := h
  obtain ⟨s, steps, hsteps, haction, hactions⟩ := List.map_eq_cons_iff.1 hrest.symm
  have hat : p.steps[index]? = some s := by
    rw [← List.head?_drop, hsteps]
    rfl
  refine ⟨⟨s.step, by simp [step?, hat], haction⟩, rest, ?_⟩
  have hdrop : p.steps.drop (index + 1) = steps := by
    rw [← List.drop_drop, hsteps]
    rfl
  rw [hdrop]
  exact hactions.symm

theorem Reads.append {actions actions' : List Action} (h : p.Reads index (actions ++ actions')) :
    p.Reads index actions ∧ p.Reads (index + actions.length) actions' := by
  refine ⟨(List.prefix_append _ _).trans h, ?_⟩
  obtain ⟨rest, hrest⟩ := h
  refine ⟨rest, ?_⟩
  rw [FlatStep.actions, ← List.drop_drop, List.map_drop, ← FlatStep.actions, ← hrest,
    List.append_assoc, List.drop_left]

/-- Who skips a branch passes over the outline of its body. -/
theorem Reads.skipBranch_eq {o : Outline} {action : Action} {actions : List Action}
    (h : p.Reads (index + 1) (o.flat ++ action :: actions)) {atElse : Bool}
    (haction : action = .ifEnd ∨ action = .ifElse ∧ atElse = true) :
    p.skipBranch index atElse = index + 1 + o.flat.length + 1 := by
  obtain ⟨rest, hrest⟩ := h
  rw [List.append_assoc] at hrest
  obtain ⟨inner, steps, hdrop, hinner, hsteps⟩ := List.map_eq_append_iff.1 hrest.symm
  obtain ⟨s, steps, rfl, hs, -⟩ := List.map_eq_cons_iff.1 hsteps
  have hlength : inner.length = o.flat.length := by
    rw [← hinner, List.length_map]
  rw [skipBranch, hdrop, o.branchEnd_flat hinner, hlength]
  rcases haction with rfl | ⟨rfl, rfl⟩
  · simp only [branchEnd, Step.bracket?, hs]
  · simp only [branchEnd, Step.bracket?, hs, if_true]

end Program

/-- The program of a scenario reads the outline of the scenario, and nothing else. -/
theorem Outline.Spells.reads_compile {o : Outline} {scenario : Scenario}
    {options : CompileOptions} (h : o.Spells options.blocks scenario)
    (herrors : (scenario.compile options).errors = []) :
    (scenario.compile options).program.Reads 0 o.flat ∧
      (scenario.compile options).program.length = o.flat.length := by
  have hactions := h.actions_compile herrors
  constructor
  · rw [← hactions]
    exact List.prefix_rfl
  · rw [← hactions, FlatStep.actions, List.length_map, Program.length]

end Timeline
