/-
Timeline/Proofs/Program/Relevance.lean

What compiling a scenario looks at.

The expansion asks for the blocks that the scenario uses, and for those that these use
in turn (`Blocks.Involves`); it asks for a name whether or not a block is registered
under it.  The checks of the flat program ask which of its targets have values and
which of its functions are known.  Options that answer alike are not told apart
(`CompileOptions.Agree`).

Main result (`Scenario.compile_of_agree`): such options give the same program, the same
labels and the same errors.  So it does not matter in what order blocks are
registered, which blocks are never reached and which functions never called, nor what
the initial values are.
-/
import Mathlib
import Timeline.Proofs.Program.Labels

namespace Timeline

/-- A step uses the block that it stands for. -/
theorem Entry.uses_step_iff {step : Step} {name : String} :
    (Entry.step step).Uses name ↔ step.action = .use name := by
  constructor
  · rintro ⟨_, ⟨hread, -⟩, haction⟩
    cases hread
    exact haction
  · intro haction
    exact ⟨step, ⟨rfl, by simp [Step.WellShaped, haction]⟩, haction⟩

namespace Blocks

variable {blocks blocks' : Blocks} {entries : List Entry} {entry : Entry} {path : List String}
  {name : String}

/-- The blocks that some entries name, and those that are named in blocks that they lead to.  A block
that is named need not be registered. -/
inductive Involves (blocks : Blocks) : List Entry → String → Prop
  | here {entries : List Entry} {entry : Entry} {name : String} : entry ∈ entries →
      entry.Uses name → Involves blocks entries name
  | inside {entries : List Entry} {entry : Entry} {used name : String} {body : Scenario} :
      entry ∈ entries → entry.Uses used → blocks.get? used = some body →
      Involves blocks body name → Involves blocks entries name

theorem Involves.tail {rest : List Entry} (h : blocks.Involves rest name) :
    blocks.Involves (entry :: rest) name := by
  cases h with
  | here hmem huses => exact .here (List.mem_cons_of_mem _ hmem) huses
  | inside hmem huses hfound h => exact .inside (List.mem_cons_of_mem _ hmem) huses hfound h

/-- Names that hold all that the entries name, and all that is named in a block of such a name, hold
all that is involved. -/
theorem Involves.of_closed {S : String → Prop} (h : blocks.Involves entries name)
    (hentries : ∀ entry ∈ entries, ∀ used, entry.Uses used → S used)
    (hbodies : ∀ opened body, S opened → blocks.get? opened = some body →
      ∀ entry ∈ body, ∀ used, entry.Uses used → S used) : S name := by
  induction h with
  | here hmem huses => exact hentries _ hmem _ huses
  | inside hmem huses hfound _ ih => exact ih (hbodies _ _ (hentries _ hmem _ huses) hfound)

/-- One entry is expanded alike by registries that agree on the block that it uses. -/
theorem expandEntry_congr {position : Nat} {d : Draft}
    (hget : ∀ used, entry.Uses used → blocks'.get? used = blocks.get? used)
    (hblock : ∀ used body, blocks.opens? path entry = some (used, body) →
      blocks'.expand (used :: path) 0 body d = blocks.expand (used :: path) 0 body d) :
    blocks'.expandEntry path position entry d = blocks.expandEntry path position entry d := by
  rcases hopens : blocks.opens? path entry with - | ⟨used, body⟩
  · unfold expandEntry
    rcases hread : entry.read with fault | step <;> dsimp only
    split
    · rfl
    · rename_i hshaped
      rw [ne_eq, not_not, Step.shapeFaults_eq_nil_iff] at hshaped
      rcases haction : step.action with
        _ | _ | _ | _ | _ | _ | _ | _ | used | _ | _ | _ | _ | _ | _ | _ | _ <;> dsimp only
      have huses : entry.Uses used := ⟨step, ⟨hread, hshaped⟩, haction⟩
      split
      · rfl
      · rename_i hopen
        rw [hget used huses]
        rcases hfound : blocks.get? used with - | body
        · rfl
        · cases hopens.symm.trans (opens?_eq_some_iff.2 ⟨huses, hopen, hfound⟩)
  · obtain ⟨huses, hopen, hfound⟩ := opens?_eq_some_iff.1 hopens
    have hopens' : blocks'.opens? path entry = some (used, body) :=
      opens?_eq_some_iff.2 ⟨huses, hopen, (hget used huses).trans hfound⟩
    rw [expandEntry_of_opens hopens, expandEntry_of_opens hopens', hblock used body hopens]

/-- **The expansion asks for nothing but the blocks that are involved.** -/
theorem expand_congr (path : List String) (entries : List Entry) (position : Nat) (d : Draft)
    (h : ∀ name, blocks.Involves entries name → blocks'.get? name = blocks.get? name) :
    blocks'.expand path position entries d = blocks.expand path position entries d := by
  induction path, entries using blocks.passage generalizing position d with
  | nil path => rw [expand_nil, expand_nil]
  | cons path entry rest ihblock ihrest =>
    have hentry : blocks'.expandEntry path position entry d
        = blocks.expandEntry path position entry d := by
      refine expandEntry_congr (fun used huses => h used (.here List.mem_cons_self huses)) ?_
      intro used body hopens
      obtain ⟨huses, -, hfound⟩ := opens?_eq_some_iff.1 hopens
      refine ihblock used body hopens 0 d fun name hinvolves => h name ?_
      exact .inside List.mem_cons_self huses hfound hinvolves
    rw [expand_cons, expand_cons, hentry, ihrest _ _ fun name hinvolves => h name hinvolves.tail]

end Blocks

namespace Program

variable {p : Program} {values values' : Table Float} {functions functions' : List String}

/-- What is missing for a program depends on its own targets and functions only. -/
theorem dangling_congr
    (hvalues : ∀ s ∈ p.steps, ∀ target ∈ s.step.targets,
      values'.contains target = values.contains target)
    (hfunctions : ∀ s ∈ p.steps, ∀ name, s.step.callee? = some name →
      (name ∈ functions' ↔ name ∈ functions)) :
    p.dangling values' functions' = p.dangling values functions := by
  rw [dangling, dangling, List.flatMap_def, List.flatMap_def]
  refine congrArg List.flatten (List.map_congr_left ?_)
  rintro ⟨s, index⟩ hmem
  have hs : s ∈ p.steps := List.mem_of_getElem? (List.mk_mem_zipIdx_iff_getElem?.1 hmem)
  have htargets : s.step.targets.filter (fun t => !values'.contains t)
      = s.step.targets.filter fun t => !values.contains t :=
    List.filter_congr fun target ht => by rw [hvalues s hs target ht]
  have hcallee : s.step.callee?.toList.filter (fun name => name ∉ functions')
      = s.step.callee?.toList.filter fun name => name ∉ functions :=
    List.filter_congr fun name hname => by
      simp only [hfunctions s hs name (Option.mem_toList.1 hname)]
  dsimp only
  rw [danglingOf, danglingOf, htargets, hcallee]

end Program

/-- Two options answer alike to all that is asked of them while a scenario is compiled. -/
structure CompileOptions.Agree (scenario : Scenario) (options options' : CompileOptions) : Prop where
  strict : options'.strict = options.strict
  blocks : ∀ name, options.blocks.Involves scenario name →
    options'.blocks.get? name = options.blocks.get? name
  values : ∀ s ∈ (scenario.compile options).program.steps, ∀ target ∈ s.step.targets,
    options'.values.contains target = options.values.contains target
  functions : ∀ s ∈ (scenario.compile options).program.steps, ∀ name, s.step.callee? = some name →
    (name ∈ options'.functions ↔ name ∈ options.functions)

/-- Blocks that are registered in another order are found as before. -/
theorem Blocks.get?_of_perm {blocks blocks' : Blocks} (hnames : blocks.names.Nodup)
    (hperm : blocks'.entries.Perm blocks.entries) (name : String) :
    blocks'.get? name = blocks.get? name := by
  have hpairwise : blocks.entries.Pairwise fun e e' => e.1 ≠ e'.1 :=
    List.pairwise_map.1 (List.nodup_iff_pairwise_ne.1 hnames)
  have hpairwise' : blocks'.entries.Pairwise fun e e' => e.1 ≠ e'.1 :=
    hperm.symm.pairwise hpairwise fun hne => hne.symm
  ext body
  rw [Table.get?_eq_some_iff_of_pairwise hpairwise, Table.get?_eq_some_iff_of_pairwise hpairwise',
    hperm.mem_iff]

namespace Scenario

variable {scenario : Scenario} {options options' : CompileOptions}

theorem compile_congr (h : CompileOptions.Agree scenario options options') :
    scenario.compile options' = scenario.compile options := by
  have hdraft : scenario.draft options'.blocks = scenario.draft options.blocks :=
    Blocks.expand_congr [] scenario 0 {} h.blocks
  have hdangling := Program.dangling_congr (p := (scenario.compile options).program)
    h.values h.functions
  replace hdangling : (scenario.draft options.blocks).program.dangling options'.values
      options'.functions
      = (scenario.draft options.blocks).program.dangling options.values options.functions := hdangling
  simp only [compile, hdraft, hdangling]

/-- The same in either mode. -/
theorem compile?_congr (h : CompileOptions.Agree scenario options options') :
    scenario.compile? options' = scenario.compile? options := by
  simp only [compile?, compile_congr h, h.strict]

/-- **Compiling looks at nothing but what the scenario uses.**  Options are not told apart if they
agree on the blocks that are involved, whether these are registered or missing, on which targets of
the program have values, and on which of the functions it calls are known: program, labels and
errors are the same, or the failure is.  A block that is not involved may be put into the registry
or be replaced, blocks may be registered in another order, a function that is not called may become
known, and the targets may have other values. -/
theorem compile_of_agree (scenario : Scenario) (options : CompileOptions) :
    (∀ options', CompileOptions.Agree scenario options options' →
      scenario.compile options' = scenario.compile options ∧
        scenario.compile? options' = scenario.compile? options) ∧
    (∀ name body, ¬ options.blocks.Involves scenario name →
      scenario.compile? { options with blocks := options.blocks.put name body }
        = scenario.compile? options) ∧
    (∀ blocks : Blocks, options.blocks.names.Nodup →
      blocks.entries.Perm options.blocks.entries →
      scenario.compile? { options with blocks } = scenario.compile? options) ∧
    (∀ name, (∀ s ∈ (scenario.compile options).program.steps, s.step.callee? ≠ some name) →
      scenario.compile? { options with functions := name :: options.functions }
        = scenario.compile? options) ∧
    ∀ values : Table Float, (∀ target, values.contains target = options.values.contains target) →
      scenario.compile? { options with values } = scenario.compile? options := by
  have hvalues : ∀ s ∈ (scenario.compile options).program.steps, ∀ target ∈ s.step.targets,
      options.values.contains target = options.values.contains target := fun _ _ _ _ => rfl
  have hfunctions : ∀ s ∈ (scenario.compile options).program.steps, ∀ name,
      s.step.callee? = some name → (name ∈ options.functions ↔ name ∈ options.functions) :=
    fun _ _ _ _ => Iff.rfl
  refine ⟨fun options' h => ⟨compile_congr h, compile?_congr h⟩, fun name body hnot => ?_,
    fun blocks hnames hperm => ?_, fun name hnot => ?_, fun values hsame => ?_⟩
  · refine compile?_congr ⟨rfl, fun other hother => ?_, hvalues, hfunctions⟩
    have hne : other ≠ name := by
      rintro rfl
      exact hnot hother
    rw [Table.get?_put, if_neg hne]
  · exact compile?_congr ⟨rfl, fun other _ => Blocks.get?_of_perm hnames hperm other,
      hvalues, hfunctions⟩
  · refine compile?_congr ⟨rfl, fun _ _ => rfl, hvalues, fun s hs other hother => ?_⟩
    have hne : other ≠ name := by
      rintro rfl
      exact hnot s hs hother
    simp [hne]
  · exact compile?_congr ⟨rfl, fun _ _ => rfl, fun _ _ target _ => hsame target, hfunctions⟩

/-! ### A scenario that is compiled against more -/

/-- A scenario that uses one block and calls one function. -/
def useAndCall : Scenario :=
  [.step { action := .use "first" }, .step { action := .callback "f" none }]

/-- The block, which uses one that uses it, and one that is missing. -/
def firstBlock : Scenario :=
  [.step { action := .use "second" }, .step { action := .use "missing" },
    .step { action := .set "x" (.literal .null) }]

/-- What it is compiled against. -/
def fewOptions : CompileOptions where
  blocks := ⟨[("first", firstBlock), ("second", [.step { action := .use "first" }])]⟩
  values := ⟨[("x", 0)]⟩
  functions := ["f"]

/-- The same blocks in another order, and more of everything. -/
def moreOptions : CompileOptions where
  blocks := ⟨[("unused", [.step { action := .use "unused" }]),
    ("second", [.step { action := .use "first" }]), ("first", firstBlock)]⟩
  values := ⟨[("y", 0), ("x", 1)]⟩
  functions := ["g", "f"]

theorem steps_useAndCall : (useAndCall.compile fewOptions).program.steps
    = [⟨{ action := .set "x" (.literal .null) }, some "first"⟩,
        ⟨{ action := .callback "f" none }, none⟩] := by
  cbv

theorem agree_moreOptions : CompileOptions.Agree useAndCall fewOptions moreOptions where
  strict := rfl
  blocks name h := by
    have hinvolved : name = "first" ∨ name = "second" ∨ name = "missing" := by
      refine h.of_closed (S := fun name => name = "first" ∨ name = "second" ∨ name = "missing") ?_ ?_
      · simp [useAndCall, Entry.uses_step_iff]
      · rintro _ body (rfl | rfl | rfl) hfound <;> cases hfound <;>
          simp [firstBlock, Entry.uses_step_iff]
    rcases hinvolved with rfl | rfl | rfl <;> rfl
  values s hs target ht := by
    rw [steps_useAndCall] at hs
    rcases List.mem_pair.1 hs with rfl | rfl
    · obtain rfl := List.mem_singleton.1 ht
      rfl
    · cases ht
  functions s hs name hname := by
    rw [steps_useAndCall] at hs
    rcases List.mem_pair.1 hs with rfl | rfl
    · cases hname
    · cases hname
      simp [fewOptions, moreOptions]

theorem compile_of_agree_useAndCall : CompileOptions.Agree useAndCall fewOptions moreOptions ∧
    useAndCall.compile? moreOptions = useAndCall.compile? fewOptions ∧
    useAndCall.reports fewOptions = [⟨⟨0, some "second", some 0⟩, .circularBlock "first"⟩,
      ⟨⟨0, some "first", some 1⟩, .blockNotFound "missing"⟩] :=
  ⟨agree_moreOptions, ((useAndCall.compile_of_agree fewOptions).1 moreOptions agree_moreOptions).2,
    by cbv⟩

end Scenario

end Timeline
