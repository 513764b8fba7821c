/-
Timeline/Proofs/Program/Acceptance.lean

Which scenarios are compiled without errors.

The compiler looks for faults four times: while it expands the scenario, and then in
the labels, the references and the brackets of what came out.  `Scenario.WellFormed`
says what it looks for without any of its tables, of the scenario with its blocks
written in.

Main results: the expansion reports nothing exactly if all entries that it meets are
admitted and no label name comes twice (`Blocks.errors_expand_eq_nil_iff`), and then the
table of labels holds what stands outside of all blocks (`Blocks.contains_labels_expand`).
So a scenario compiles exactly if it is well-formed (`Scenario.compile_ok_iff_wellFormed`).
-/
import Timeline.Proofs.Program.Nesting
import Timeline.Proofs.Program.Unrolling
import Timeline.Proofs.Program.Validation

namespace Timeline

/-- The label names of some steps. -/
def Program.labelNames (steps : List FlatStep) : List String :=
  steps.filterMap fun s => s.step.labelName?

theorem Program.labelNames_append (steps steps' : List FlatStep) :
    labelNames (steps ++ steps') = labelNames steps ++ labelNames steps' :=
  List.filterMap_append

namespace Blocks

open Program

/-! ### What the expansion meets -/

/-- The entries that are met when some entries are expanded and, recursively, the blocks that they
use, each with the names of the blocks that are open there. -/
inductive Meets (blocks : Blocks) : Finset String → List Entry → Finset String → Entry → Prop
  | here {opened : Finset String} {entries : List Entry} {entry : Entry} : entry ∈ entries →
      Meets blocks opened entries opened entry
  | inside {opened within : Finset String} {entries : List Entry} {entry met : Entry}
      {name : String} {body : Scenario} : entry ∈ entries → entry.Uses name → name ∉ opened →
      blocks.get? name = some body → Meets blocks (insert name opened) body within met →
      Meets blocks opened entries within met

/-- All entries that are met are admitted. -/
def AdmitsAll (blocks : Blocks) (opened : Finset String) (entries : List Entry) : Prop :=
  ∀ within met, blocks.Meets opened entries within met → blocks.Admits within met

variable {blocks : Blocks} {opened : Finset String} {entry : Entry} {rest : List Entry}
  {name : String} {body : Scenario}

theorem Meets.mono {entries entries' : List Entry} {within : Finset String} {met : Entry}
    (h : blocks.Meets opened entries within met) (hsub : entries ⊆ entries') :
    blocks.Meets opened entries' within met := by
  cases h with
  | here hmem => exact .here (hsub hmem)
  | inside hmem huses hopen hfound hmet => exact .inside (hsub hmem) huses hopen hfound hmet

theorem admitsAll_nil : blocks.AdmitsAll opened [] := by
  intro within met h
  cases h with
  | here hmem => cases hmem
  | inside hmem => cases hmem

theorem admitsAll_cons :
    blocks.AdmitsAll opened (entry :: rest)
      ↔ blocks.AdmitsAll opened [entry] ∧ blocks.AdmitsAll opened rest := by
  constructor
  · intro h
    constructor
    · intro within met hmet
      apply h
      exact hmet.mono (by simp)
    · intro within met hmet
      apply h
      exact hmet.mono (List.subset_cons_self entry rest)
  · rintro ⟨hentry, hrest⟩ within met hmet
    cases hmet with
    | here hmem =>
      rcases List.mem_cons.1 hmem with rfl | hmem
      · exact hentry _ _ (.here List.mem_cons_self)
      · exact hrest _ _ (.here hmem)
    | inside hmem huses hopen hfound hmet =>
      rcases List.mem_cons.1 hmem with rfl | hmem
      · exact hentry _ _ (.inside List.mem_cons_self huses hopen hfound hmet)
      · exact hrest _ _ (.inside hmem huses hopen hfound hmet)

theorem AdmitsAll.admits (h : blocks.AdmitsAll opened [entry]) : blocks.Admits opened entry :=
  h _ _ (.here List.mem_cons_self)

/-- Of a step other than `use` nothing but its entry is met. -/
theorem admitsAll_own {step : Step} (hstands : entry.StandsFor step)
    (hplain : ∀ name, step.action ≠ .use name) : blocks.AdmitsAll opened [entry] := by
  intro within met h
  cases h with
  | here hmem =>
    obtain rfl := List.mem_singleton.1 hmem
    refine ⟨step, hstands, ?_⟩
    intro name haction
    exact absurd haction (hplain name)
  | inside hmem huses =>
    obtain rfl := List.mem_singleton.1 hmem
    obtain ⟨step', hstands', haction⟩ := huses
    obtain rfl := hstands.unique hstands'
    exact absurd haction (hplain _)

/-- Of a block that is used its entries are met. -/
theorem admitsAll_block (huses : entry.Uses name) (hopen : name ∉ opened)
    (hfound : blocks.get? name = some body) :
    blocks.AdmitsAll opened [entry] ↔ blocks.AdmitsAll (insert name opened) body := by
  constructor
  · intro h within met hmet
    apply h
    exact .inside List.mem_cons_self huses hopen hfound hmet
  · intro h within met hmet
    cases hmet with
    | here hmem =>
      obtain rfl := List.mem_singleton.1 hmem
      obtain ⟨step, hstands, haction⟩ := huses
      refine ⟨step, hstands, ?_⟩
      intro name' haction'
      obtain rfl := Action.use.inj (haction.symm.trans haction')
      exact ⟨hopen, hfound ▸ rfl⟩
    | inside hmem huses' hopen' hfound' hmet =>
      obtain rfl := List.mem_singleton.1 hmem
      obtain rfl := huses.unique huses'
      cases hfound.symm.trans hfound'
      exact h within met hmet

/-! ### Labels and errors of the expansion -/

variable {path : List String} {entries : List Entry} {d d' : Draft}

theorem mem_seen_define {location : Location} {other : String} :
    other ∈ (d.define name path location).seen ↔ other ∈ d.seen ∨ other = name := by
  unfold Draft.define
  split
  · rename_i hseen
    constructor
    · exact .inl
    · rintro (h | rfl)
      · exact h
      · exact hseen
  · dsimp only
    split <;> rw [List.mem_cons, or_comm]

theorem errors_define_eq_nil_iff {location : Location} :
    (d.define name path location).errors = [] ↔ d.errors = [] ∧ name ∉ d.seen := by
  unfold Draft.define
  split
  · rename_i hseen
    simp [Draft.report, hseen]
  · rename_i hseen
    dsimp only
    split <;> simp [hseen]

/-- A label outside of all blocks is put into the table, unless its name was seen. -/
theorem contains_labels_define {location : Location} {other : String} (hfresh : name ∉ d.seen) :
    (d.define name path location).labels.contains other
      ↔ d.labels.contains other ∨ path = [] ∧ other = name := by
  rw [Draft.define, if_neg hfresh]
  by_cases hpath : path = []
  · by_cases hname : other = name <;> simp [hpath, hname, Table.contains]
  · simp [hpath]

/-- The label of a step. -/
theorem labelNames_singleton (step : Step) (inside : Option String) :
    labelNames [⟨step, inside⟩] = step.labelName?.toList := by
  rcases h : step.labelName? with - | name <;> simp [labelNames, h]

namespace Expansion

/-- The labels that are seen are those of the steps. -/
theorem mem_seen (h : blocks.Expansion path entries d d') (label : String) :
    label ∈ d'.seen ↔
      label ∈ d.seen ∨ label ∈ labelNames (blocks.unroll path.toFinset path.head? entries) := by
  have hunroll := blocks.unrolls_unroll
  induction h with
  | nil => simp [unroll_nil, labelNames]
  | cons _ _ ih ih' =>
    refine ih'.trans ?_
    rw [unroll_cons, labelNames_append, List.mem_append, ← or_assoc]
    exact or_congr_left ih
  | report hout _ => simp [hunroll.leftOut hout, labelNames, Draft.report]
  | label hstands haction =>
    rw [hunroll.own hstands (by simp [haction]), labelNames_singleton]
    simp [Step.labelName?, haction, Draft.push, mem_seen_define]
  | plain hstands huse hlabel =>
    rw [hunroll.own hstands huse, labelNames_singleton, hlabel]
    simp [Draft.push]
  | block huses hopen hfound _ ih =>
    rw [unroll_block huses hopen hfound]
    exact ih

/-- **What the expansion reports**: entries that are not admitted, and label names that come
twice. -/
theorem errors_eq_nil_iff (h : blocks.Expansion path entries d d') :
    d'.errors = [] ↔ d.errors = [] ∧ blocks.AdmitsAll path.toFinset entries ∧
      (labelNames (blocks.unroll path.toFinset path.head? entries)).Nodup ∧
      (labelNames (blocks.unroll path.toFinset path.head? entries)).Disjoint d.seen := by
  have hunroll := blocks.unrolls_unroll
  -- the induction is over any draft, since a block is expanded into what came before it
  induction h with
  | nil => simp [unroll_nil, labelNames, admitsAll_nil]
  | @cons path entry rest d d' d'' hentry _ ih ih' =>
    -- what the rest must avoid was seen before or stands in the first entry
    have hdisjoint : (labelNames (blocks.unroll path.toFinset path.head? rest)).Disjoint d'.seen ↔
        (labelNames (blocks.unroll path.toFinset path.head? rest)).Disjoint d.seen ∧
        (labelNames (blocks.unroll path.toFinset path.head? [entry])).Disjoint
          (labelNames (blocks.unroll path.toFinset path.head? rest)) := by
      simp only [List.Disjoint, hentry.mem_seen]
      grind
    refine ih'.trans ?_
    rw [hdisjoint, unroll_cons entry rest, admitsAll_cons, labelNames_append, List.nodup_append',
      List.disjoint_append_left]
    constructor
    · rintro ⟨herrors, hadmits, hnodup, hseen, hapart⟩
      obtain ⟨herrors, hadmits', hnodup', hseen'⟩ := ih.1 herrors
      exact ⟨herrors, ⟨hadmits', hadmits⟩, ⟨hnodup', hnodup, hapart⟩, hseen', hseen⟩
    · rintro ⟨herrors, ⟨hadmits', hadmits⟩, ⟨hnodup', hnodup, hapart⟩, hseen', hseen⟩
      exact ⟨ih.2 ⟨herrors, hadmits', hnodup', hseen'⟩, hadmits, hnodup, hseen, hapart⟩
  | report hout hfaults =>
    simp only [Draft.report, List.append_eq_nil_iff, List.map_eq_nil_iff, hfaults, and_false,
      false_iff]
    intro h
    exact hout h.2.1.admits
  | @label _ _ _ _ step _ hstands haction =>
    have hplain : ∀ name, step.action ≠ .use name := by simp [haction]
    rw [hunroll.own hstands hplain, labelNames_singleton, Draft.push, errors_define_eq_nil_iff]
    simp [Step.labelName?, haction, admitsAll_own hstands hplain]
  | plain hstands huse hlabel =>
    rw [hunroll.own hstands huse, labelNames_singleton, hlabel]
    simp [Draft.push, admitsAll_own hstands huse]
  | block huses hopen hfound _ ih =>
    rw [unroll_block huses hopen hfound,
      admitsAll_block huses (by rwa [List.mem_toFinset]) hfound, ← List.toFinset_cons]
    exact ih

/-- **What the table of labels holds** when nothing was reported: the labels outside of all
blocks. -/
theorem contains_labels (h : blocks.Expansion path entries d d') (hclean : d'.errors = [])
    (label : String) :
    d'.labels.contains label ↔ d.labels.contains label ∨
      ∃ s ∈ blocks.unroll path.toFinset path.head? entries,
        s.step.labelName? = some label ∧ s.block = none := by
  have hunroll := blocks.unrolls_unroll
  induction h with
  | nil => simp [unroll_nil]
  | @cons path entry rest _ _ _ _ hrest ih ih' =>
    refine (ih' hclean).trans ?_
    rw [unroll_cons entry rest]
    simp only [List.mem_append, or_and_right, exists_or]
    rw [← or_assoc]
    exact or_congr_left (ih (hrest.errors_eq_nil_iff.1 hclean).1)
  | report hout _ => simp [hunroll.leftOut hout, Draft.report]
  | @label path entry d position step name hstands haction =>
    -- a name that had been seen would have been reported
    have hfresh : name ∉ d.seen := (errors_define_eq_nil_iff.1 hclean).2
    rw [hunroll.own hstands (by simp [haction]), Draft.push, contains_labels_define hfresh]
    refine or_congr_right ?_
    simp only [List.mem_singleton, exists_eq_left, Step.labelName?, haction, Option.some.injEq,
      List.head?_eq_none_iff]
    tauto
  | plain hstands huse hlabel =>
    rw [hunroll.own hstands huse]
    simp [Draft.push, hlabel]
  | block huses hopen hfound _ ih =>
    rw [unroll_block huses hopen hfound]
    exact ih hclean

end Expansion

end Blocks

/-! ### Well-formed scenarios -/

namespace Program

variable {p : Program} {values : Table Float} {functions : List String}

/-- No reference of a program leads nowhere exactly if those of each step do not. -/
theorem dangling_eq_nil_iff : p.dangling values functions = [] ↔ ∀ s ∈ p.steps,
    (∀ target ∈ s.step.targets, values.contains target) ∧
    (∀ name, s.step.callee? = some name → name ∈ functions) ∧
    ∀ label ∈ s.step.labelRefs, p.labels.contains label := by
  have hof (s : FlatStep) : p.danglingOf values functions s.step = [] ↔
      (∀ target ∈ s.step.targets, values.contains target) ∧
      (∀ name, s.step.callee? = some name → name ∈ functions) ∧
      ∀ label ∈ s.step.labelRefs, p.labels.contains label := by
    simp [danglingOf, labelIndex?, Table.contains, Option.isSome_iff_ne_none]
  simp only [← hof]
  rw [dangling, List.flatMap_eq_nil_iff]
  constructor
  · intro h s hs
    obtain ⟨index, hindex⟩ := List.getElem?_of_mem hs
    exact List.map_eq_nil_iff.1 (h (s, index) (List.mk_mem_zipIdx_iff_getElem?.2 hindex))
  · rintro h ⟨s, index⟩ hmem
    exact List.map_eq_nil_iff.2 (h s (List.fst_mem_of_mem_zipIdx hmem))

end Program

namespace Scenario

variable {scenario : Scenario} {options : CompileOptions}

/-- A well-formed scenario, with its blocks written in. -/
structure WellFormed (scenario : Scenario) (options : CompileOptions) : Prop where
  /-- All entries that are met stand for steps, and use registered blocks that are not open. -/
  admitted : options.blocks.AdmitsAll ∅ scenario
  /-- No two labels have the same name. -/
  distinct : (Program.labelNames (options.blocks.unroll ∅ none scenario)).Nodup
  /-- What is written has an initial value. -/
  targets : ∀ s ∈ options.blocks.unroll ∅ none scenario, ∀ target ∈ s.step.targets,
    options.values.contains target
  /-- What is called is known. -/
  callbacks : ∀ s ∈ options.blocks.unroll ∅ none scenario, ∀ name, s.step.callee? = some name →
    name ∈ options.functions
  /-- Jumps go to labels outside of all blocks. -/
  jumps : ∀ s ∈ options.blocks.unroll ∅ none scenario, ∀ label ∈ s.step.labelRefs,
    ∃ s' ∈ options.blocks.unroll ∅ none scenario,
      s'.step.labelName? = some label ∧ s'.block = none
  /-- Conditionals are nested. -/
  nested : Nested (Program.brackets (options.blocks.unroll ∅ none scenario))

/-- The errors of a scenario are those of its expansion, its references and its brackets. -/
theorem errors_compile_eq_nil_iff : (scenario.compile options).errors = [] ↔
    (scenario.draft options.blocks).errors = [] ∧
      (scenario.compile options).program.dangling options.values options.functions = [] ∧
      (scenario.compile options).program.unbalanced = [] := by
  constructor
  · exact errors_eq_nil
  · rintro ⟨hdraft, hdangling, hunbalanced⟩
    show List.eraseDups ((scenario.draft options.blocks).errors
      ++ (scenario.compile options).program.dangling options.values options.functions
      ++ (scenario.compile options).program.unbalanced) = []
    rw [hdraft, hdangling, hunbalanced]
    rfl

/-- Compiling finds nothing wrong with the well-formed scenarios, and with no others. -/
theorem errors_compile_eq_nil_iff_wellFormed :
    (scenario.compile options).errors = [] ↔ scenario.WellFormed options := by
  have hexpansion : options.blocks.Expansion [] scenario {} (scenario.draft options.blocks) :=
    options.blocks.expansion_expand [] 0 scenario {}
  have hdraft : (scenario.draft options.blocks).errors = [] ↔
      options.blocks.AdmitsAll ∅ scenario ∧
        (Program.labelNames (options.blocks.unroll ∅ none scenario)).Nodup := by
    have := hexpansion.errors_eq_nil_iff
    simpa using this
  have hlabels (hclean : (scenario.draft options.blocks).errors = []) (label : String) :
      (scenario.compile options).program.labels.contains label ↔
        ∃ s ∈ options.blocks.unroll ∅ none scenario,
          s.step.labelName? = some label ∧ s.block = none := by
    have hempty : ¬({} : Table Nat).contains label := by simp [Table.contains, Table.get?]
    exact (hexpansion.contains_labels hclean label).trans (or_iff_right hempty)
  rw [errors_compile_eq_nil_iff, Program.dangling_eq_nil_iff, Program.unbalanced_eq_nil_iff,
    steps_compile]
  constructor
  · rintro ⟨hclean, hreferences, hnested⟩
    obtain ⟨hadmitted, hdistinct⟩ := hdraft.1 hclean
    exact
      { admitted := hadmitted
        distinct := hdistinct
        targets := fun s hs => (hreferences s hs).1
        callbacks := fun s hs => (hreferences s hs).2.1
        jumps := by
          intro s hs label hlabel
          rw [← hlabels hclean]
          exact (hreferences s hs).2.2 label hlabel
        nested := hnested }
  · intro h
    have hclean := hdraft.2 ⟨h.admitted, h.distinct⟩
    refine ⟨hclean, ?_, h.nested⟩
    intro s hs
    refine ⟨h.targets s hs, h.callbacks s hs, ?_⟩
    intro label hlabel
    rw [hlabels hclean]
    exact h.jumps s hs label hlabel

/-- **The compiler accepts exactly the well-formed scenarios**: without the strict option it
returns no errors for them, and with it a program. -/
theorem compile_ok_iff_wellFormed (scenario : Scenario) (options : CompileOptions) :
    ((∃ c, scenario.compile? { options with strict := false } = .ok c ∧ c.errors = []) ↔
      scenario.WellFormed options) ∧
    ((∃ c, scenario.compile? { options with strict := true } = .ok c) ↔
      scenario.WellFormed options) := by
  -- the strict option decides only what is done with the errors
  have hiff : (scenario.compile options).errors = [] ↔ scenario.WellFormed options :=
    errors_compile_eq_nil_iff_wellFormed
  constructor
  · rw [← hiff]
    constructor
    · rintro ⟨c, hc, hnone⟩
      cases hc
      exact hnone
    · intro hnone
      exact ⟨_, rfl, hnone⟩
  · rw [← hiff]
    show (∃ c, (if !(scenario.compile options).errors.isEmpty then
      Except.error (scenario.compile options).errors
      else Except.ok (scenario.compile options)) = .ok c) ↔ _
    cases (scenario.compile options).errors <;> simp

end Scenario

end Timeline
