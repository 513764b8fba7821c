/-
Timeline/Proofs/Program/Unrolling.lean

Scenarios with their blocks written in.

The expansion of a scenario threads a draft through a recursion over blocks: it
counts steps, remembers labels and collects errors on the way.  `Blocks.unroll` is
the list of steps that entries stand for, given the blocks that are open, and
`Blocks.Unrolls` says entry by entry what such a list is.

Main results: the expansion appends that list to the draft, whatever the draft holds
(`Blocks.Expansion.steps`), and there is one such list only (`Blocks.Unrolls.eq`).  So a
program consists of the steps that its scenario stands for
(`Scenario.steps_compile_eq_unrolled`).
-/
import Mathlib.Data.Finset.Dedup
import Mathlib.Data.Finset.Card
import Timeline.Proofs.Program.Expansion

namespace Timeline

/-! ### The shape of steps -/

/-- A step has the shape of one: a label has a name, an `ifJump` has a condition that is looked at
when the step is executed and a label to go to, and a `parallel` has tweens, all with a target. -/
def Step.WellShaped (s : Step) : Prop :=
  match s.action with
  | .label name => name ≠ ""
  | .ifJump condition onTrue _ => condition.isLiteral = false ∧ onTrue ≠ ""
  | .parallel tweens => tweens ≠ [] ∧ ∀ tween ∈ tweens, tween.target ≠ ""
  | _ => True

/-- Steps without faults are those of the right shape. -/
theorem Step.shapeFaults_eq_nil_iff {s : Step} : s.shapeFaults = [] ↔ s.WellShaped := by
  unfold shapeFaults WellShaped
  cases s.action with
  | label name => by_cases h : name = "" <;> simp [h]
  | ifJump condition onTrue onFalse =>
    cases condition.isLiteral <;> by_cases h : onTrue = "" <;> simp [h]
  | parallel tweens =>
    rw [List.append_eq_nil_iff, List.filterMap_eq_nil_iff]
    refine and_congr ?_ ?_
    · by_cases h : tweens = [] <;> simp [h]
    · constructor
      · intro hall tween hmem hempty
        obtain ⟨i, hi⟩ := List.getElem?_of_mem hmem
        have := hall (tween, i) (List.mk_mem_zipIdx_iff_getElem?.2 hi)
        simp [hempty] at this
      · rintro hall ⟨tween, i⟩ hmem
        have hi := List.mk_mem_zipIdx_iff_getElem?.1 hmem
        exact if_neg (hall tween (List.mem_of_getElem? hi))
  | _ => simp

instance (s : Step) : Decidable s.WellShaped :=
  decidable_of_iff _ Step.shapeFaults_eq_nil_iff

namespace Entry

variable {entry : Entry} {step : Step}

/-- An entry stands for a step: it can be read as that step, and the step has the shape of one. -/
def StandsFor (entry : Entry) (step : Step) : Prop :=
  entry.read = .ok step ∧ step.WellShaped

/-- The step that an entry stands for. -/
def step? (entry : Entry) : Option Step :=
  match entry.read with
  | .ok step => if step.WellShaped then some step else none
  | .error _ => none

theorem step?_eq_some_iff : entry.step? = some step ↔ entry.StandsFor step := by
  unfold step? StandsFor
  rcases entry.read with fault | s
  · simp
  · by_cases h : s.WellShaped
    · simp only [h, if_true, Option.some.injEq, Except.ok.injEq]
      exact ⟨fun hs => ⟨hs, hs ▸ h⟩, And.left⟩
    · simp only [h, if_false, Except.ok.injEq]
      constructor
      · intro hs
        cases hs
      · rintro ⟨rfl, hs⟩
        exact absurd hs h

theorem StandsFor.unique {step' : Step} (h : entry.StandsFor step) (h' : entry.StandsFor step') :
    step = step' :=
  Except.ok.inj (h.1.symm.trans h'.1)

/-- An entry uses a block: it stands for the step that does. -/
def Uses (entry : Entry) (name : String) : Prop :=
  ∃ step, entry.StandsFor step ∧ step.action = .use name

theorem Uses.unique {name name' : String} (h : entry.Uses name) (h' : entry.Uses name') :
    name = name' := by
  obtain ⟨step, hstands, haction⟩ := h
  obtain ⟨step', hstands', haction'⟩ := h'
  obtain rfl := hstands.unique hstands'
  exact Action.use.inj (haction.symm.trans haction')

end Entry

/-! ### What entries stand for -/

namespace Blocks

variable {blocks : Blocks} {opened : Finset String} {inside : Option String}

/-- The number of registered blocks that are not open. -/
def unopened (blocks : Blocks) (opened : Finset String) : Nat :=
  (blocks.names.toFinset \ opened).card

theorem unopened_insert_lt {name : String} (hopen : name ∉ opened) (h : name ∈ blocks.names) :
    blocks.unopened (insert name opened) < blocks.unopened opened := by
  apply Finset.card_lt_card
  constructor
  · exact Finset.sdiff_subset_sdiff (Finset.Subset.refl _) (Finset.subset_insert name opened)
  · intro hsub
    have hmem : name ∈ blocks.names.toFinset \ opened :=
      Finset.mem_sdiff.2 ⟨List.mem_toFinset.2 h, hopen⟩
    exact (Finset.mem_sdiff.1 (hsub hmem)).2 (Finset.mem_insert_self name opened)

/-- The steps that entries stand for, with the blocks that they use written in; `opened` holds the
names of the open blocks, and `inside` is the innermost of them. -/
def unroll (blocks : Blocks) (opened : Finset String) (inside : Option String) :
    List Entry → List FlatStep
  | [] => []
  | entry :: rest =>
    let own := match entry.step? with
      | none => []
      | some step =>
        match step.action with
        | .use name =>
          if _open : name ∈ opened then []
          else
            match _found : blocks.get? name with
            | none => []
            | some body => blocks.unroll (insert name opened) (some name) body
        | _ => [⟨step, inside⟩]
    own ++ blocks.unroll opened inside rest
termination_by entries => (blocks.unopened opened, entries.length)
decreasing_by
  · exact .left _ _ (unopened_insert_lt _open (Table.mem_names_of_get? _found))
  · exact .right _ (by simp)

/-- An entry is admitted while certain blocks are open: it stands for a step, and the block that
this step may use is a registered one that is not open. -/
def Admits (blocks : Blocks) (opened : Finset String) (entry : Entry) : Prop :=
  ∃ step, entry.StandsFor step ∧
    ∀ name, step.action = .use name → name ∉ opened ∧ (blocks.get? name).isSome

/-- What it is to write the blocks of a registry in: an entry that stands for a step other than
`use` is that step, tagged with the innermost open block; an entry that uses a registered block
which is not open is all that the block stands for while that block is open too; all other
entries are nothing. -/
structure Unrolls (blocks : Blocks)
    (f : Finset String → Option String → List Entry → List FlatStep) : Prop where
  nil : ∀ {opened inside}, f opened inside [] = []
  cons : ∀ {opened inside entry rest},
    f opened inside (entry :: rest) = f opened inside [entry] ++ f opened inside rest
  own : ∀ {opened inside entry step}, entry.StandsFor step → (∀ name, step.action ≠ .use name) →
    f opened inside [entry] = [⟨step, inside⟩]
  block : ∀ {opened inside entry name body}, entry.Uses name → name ∉ opened →
    blocks.get? name = some body →
    f opened inside [entry] = f (insert name opened) (some name) body
  leftOut : ∀ {opened inside entry}, ¬blocks.Admits opened entry → f opened inside [entry] = []

theorem unroll_nil : blocks.unroll opened inside [] = [] := by
  rw [unroll]

theorem unroll_cons (entry : Entry) (rest : List Entry) :
    blocks.unroll opened inside (entry :: rest)
      = blocks.unroll opened inside [entry] ++ blocks.unroll opened inside rest := by
  rw [unroll, unroll.eq_def blocks opened inside [entry]]
  simp only [unroll_nil, List.append_nil]

/-- The blocks of a registry can be written in. -/
theorem unrolls_unroll (blocks : Blocks) : blocks.Unrolls blocks.unroll where
  nil := unroll_nil
  cons := unroll_cons _ _
  own {opened inside entry step} hstands huse := by
    rw [unroll, unroll_nil, Entry.step?_eq_some_iff.2 hstands]
    rcases haction : step.action with
      _ | _ | _ | _ | _ | _ | _ | _ | name | _ | _ | _ | _ | _ | _ | _ | _
    case use => exact absurd haction (huse name)
    all_goals simp [haction]
  block {opened inside entry name body} huses hopen hfound := by
    obtain ⟨step, hstands, haction⟩ := huses
    rw [unroll, unroll_nil, Entry.step?_eq_some_iff.2 hstands]
    simp only [haction, hopen, dite_false, List.append_nil]
    split
    · rename_i hnone
      cases hfound.symm.trans hnone
    · rename_i hsome
      cases hfound.symm.trans hsome
      rfl
  leftOut {opened inside entry} hout := by
    rw [unroll, unroll_nil]
    rcases hstep : entry.step? with - | step
    · rfl
    · have hstands := Entry.step?_eq_some_iff.1 hstep
      rcases haction : step.action with
        _ | _ | _ | _ | _ | _ | _ | _ | name | _ | _ | _ | _ | _ | _ | _ | _
      case use =>
        simp only [haction, List.append_nil]
        split
        · rfl
        · rename_i hopen
          split
          · rfl
          · -- a registered block that is not open would have been admitted
            rename_i hfound
            apply absurd _ hout
            refine ⟨step, hstands, ?_⟩
            intro other hother
            cases haction.symm.trans hother
            exact ⟨hopen, hfound ▸ rfl⟩
      all_goals exact absurd ⟨step, hstands, by simp [haction]⟩ hout

/-- An entry is left out, is a step of its own, or is a block. -/
theorem admits_cases (blocks : Blocks) (opened : Finset String) (entry : Entry) :
    ¬blocks.Admits opened entry ∨
    (∃ step, entry.StandsFor step ∧ ∀ name, step.action ≠ .use name) ∨
    ∃ name body, entry.Uses name ∧ name ∉ opened ∧ blocks.get? name = some body := by
  by_cases hadmits : blocks.Admits opened entry
  · obtain ⟨step, hstands, hblock⟩ := hadmits
    by_cases hplain : ∀ name, step.action ≠ .use name
    · exact .inr (.inl ⟨step, hstands, hplain⟩)
    · simp only [not_forall, not_not] at hplain
      obtain ⟨name, haction⟩ := hplain
      obtain ⟨hopen, hfound⟩ := hblock name haction
      obtain ⟨body, hbody⟩ := Option.isSome_iff_exists.1 hfound
      exact .inr (.inr ⟨name, body, ⟨step, hstands, haction⟩, hopen, hbody⟩)
  · exact .inl hadmits

/-- **There is one way to write blocks in.** -/
theorem Unrolls.eq {f g : Finset String → Option String → List Entry → List FlatStep}
    (hf : blocks.Unrolls f) (hg : blocks.Unrolls g) (opened : Finset String)
    (inside : Option String) (entries : List Entry) :
    f opened inside entries = g opened inside entries := by
  match entries with
  | [] => rw [hf.nil, hg.nil]
  | entry :: rest =>
    -- a block that is opened leaves fewer that can be, whatever it holds
    rw [hf.cons, hg.cons, hf.eq hg opened inside rest]
    congr 1
    rcases blocks.admits_cases opened entry with
      hout | ⟨step, hstands, hplain⟩ | ⟨name, body, huses, hopen, hfound⟩
    · rw [hf.leftOut hout, hg.leftOut hout]
    · rw [hf.own hstands hplain, hg.own hstands hplain]
    · rw [hf.block huses hopen hfound, hg.block huses hopen hfound]
      exact hf.eq hg (insert name opened) (some name) body
termination_by (blocks.unopened opened, entries.length)
decreasing_by
  · exact .right _ (by simp)
  · exact .left _ _ (unopened_insert_lt hopen (Table.mem_names_of_get? hfound))

theorem unroll_append (entries entries' : List Entry) :
    blocks.unroll opened inside (entries ++ entries')
      = blocks.unroll opened inside entries ++ blocks.unroll opened inside entries' := by
  induction entries with
  | nil => rw [unroll_nil]; rfl
  | cons entry rest ih =>
    rw [List.cons_append, unroll_cons, ih, unroll_cons entry rest, List.append_assoc]

/-! ### What the expansion appends -/

variable {path : List String} {position : Nat} {entry : Entry} {d : Draft}

/-- How the expansion of entries leads from one draft to another: an entry is reported, appended,
or replaced by the block that it uses. -/
inductive Expansion (blocks : Blocks) : List String → List Entry → Draft → Draft → Prop
  | nil {path : List String} {d : Draft} : Expansion blocks path [] d d
  | cons {path : List String} {entry : Entry} {rest : List Entry} {d d' d'' : Draft} :
      Expansion blocks path [entry] d d' → Expansion blocks path rest d' d'' →
      Expansion blocks path (entry :: rest) d d''
  | report {path : List String} {entry : Entry} {d : Draft} {position : Nat}
      {faults : List Fault} : ¬blocks.Admits path.toFinset entry → faults ≠ [] →
      Expansion blocks path [entry] d (d.report (d.locate path position) faults)
  | label {path : List String} {entry : Entry} {d : Draft} {position : Nat} {step : Step}
      {name : String} : entry.StandsFor step → step.action = .label name →
      Expansion blocks path [entry] d
        ((d.define name path (d.locate path position)).push step path)
  | plain {path : List String} {entry : Entry} {d : Draft} {step : Step} :
      entry.StandsFor step → (∀ name, step.action ≠ .use name) → step.labelName? = none →
      Expansion blocks path [entry] d (d.push step path)
  | block {path : List String} {entry : Entry} {d d' : Draft} {name : String} {body : Scenario} :
      entry.Uses name → name ∉ path → blocks.get? name = some body →
      Expansion blocks (name :: path) body d d' → Expansion blocks path [entry] d d'

/-- An entry is expanded so, if the block that it may use is. -/
theorem expansion_expandEntry
    (hblock : ∀ {name : String} {body : Scenario}, name ∉ path → blocks.get? name = some body →
      blocks.Expansion (name :: path) body d (blocks.expand (name :: path) 0 body d)) :
    blocks.Expansion path [entry] d (blocks.expandEntry path position entry d) := by
  unfold expandEntry
  rcases hread : entry.read with fault | step
  · refine .report ?_ (List.cons_ne_nil _ _)
    rintro ⟨step, hstands, -⟩
    cases hread.symm.trans hstands.1
  · dsimp only
    split
    · rename_i hfaults
      refine .report ?_ hfaults
      rintro ⟨step', hstands, -⟩
      cases hread.symm.trans hstands.1
      exact hfaults (Step.shapeFaults_eq_nil_iff.2 hstands.2)
    · rename_i hfaults
      have hstands : entry.StandsFor step :=
        ⟨hread, Step.shapeFaults_eq_nil_iff.1 (not_not.1 hfaults)⟩
      rcases haction : step.action with
        _ | _ | _ | _ | _ | _ | name | _ | name | _ | _ | _ | _ | _ | _ | _ | _
      case use =>
        -- the admission of a `use` is decided by the path and the registry
        have hadmits (h : blocks.Admits path.toFinset entry) :
            name ∉ path ∧ (blocks.get? name).isSome := by
          obtain ⟨step', hstands', hblock⟩ := h
          obtain rfl := hstands.unique hstands'
          rw [← List.mem_toFinset]
          exact hblock name haction
        dsimp only
        split
        · rename_i hopen
          exact .report (fun h => (hadmits h).1 hopen) (List.cons_ne_nil _ _)
        · rename_i hopen
          split
          · rename_i hnone
            apply Expansion.report _ (List.cons_ne_nil _ _)
            intro h
            have := (hadmits h).2
            rw [hnone] at this
            cases this
          · rename_i body hfound
            exact .block ⟨step, hstands, haction⟩ hopen hfound (hblock hopen hfound)
      case label => exact .label hstands haction
      all_goals exact .plain hstands (by simp [haction]) (by simp [Step.labelName?, haction])

/-- **The expansion leads from a draft to the one that it returns.** -/
theorem expansion_expand (path : List String) (position : Nat) (entries : List Entry)
    (d : Draft) : blocks.Expansion path entries d (blocks.expand path position entries d) := by
  match entries with
  | [] =>
    rw [expand_nil]
    exact .nil
  | entry :: rest =>
    rw [expand_cons]
    refine .cons ?_ (expansion_expand path (position + 1) rest _)
    refine expansion_expandEntry ?_
    intro name body hopen hfound
    exact expansion_expand (name :: path) 0 body d
termination_by (blocks.closed path, entries.length)
decreasing_by
  · exact .left _ _ (closed_cons_lt hopen (Table.mem_names_of_get? hfound))
  · exact .right _ (by simp)

/-- A block that is used is unrolled under its own name. -/
theorem unroll_block {name : String} {body : Scenario} (huses : entry.Uses name)
    (hopen : name ∉ path) (hfound : blocks.get? name = some body) :
    blocks.unroll path.toFinset path.head? [entry]
      = blocks.unroll (name :: path).toFinset (name :: path).head? body := by
  rw [blocks.unrolls_unroll.block huses (by rwa [List.mem_toFinset]) hfound, List.toFinset_cons,
    List.head?_cons]

/-- **Expanding entries appends what they stand for**, whatever the draft holds. -/
theorem Expansion.steps {entries : List Entry} {d' : Draft}
    (h : blocks.Expansion path entries d d') :
    d'.steps = d.steps ++ blocks.unroll path.toFinset path.head? entries := by
  have hunroll := blocks.unrolls_unroll
  induction h with
  | nil => rw [unroll_nil, List.append_nil]
  | cons _ _ ih ih' => rw [ih', ih, List.append_assoc, ← unroll_cons]
  | report hout _ =>
    rw [hunroll.leftOut hout]
    exact (List.append_nil _).symm
  | label hstands haction =>
    rw [hunroll.own hstands (by simp [haction]), Draft.push, Draft.define_steps]
  | plain hstands huse _ => rw [hunroll.own hstands huse, Draft.push]
  | block huses hopen hfound _ ih =>
    rw [unroll_block huses hopen hfound]
    exact ih

end Blocks

/-! ### Programs -/

namespace Scenario

variable {scenario : Scenario} {options : CompileOptions}

/-- The program of a scenario is what its entries stand for. -/
theorem steps_compile (scenario : Scenario) (options : CompileOptions) :
    (scenario.compile options).program.steps = options.blocks.unroll ∅ none scenario :=
  (options.blocks.expansion_expand [] 0 scenario {}).steps

/-- **A program is its scenario with all blocks written in**, whatever is wrong with it: the one
list of steps that `Blocks.Unrolls` describes.  So a scenario can be compiled part by part, all
uses of a block outside of it are the same steps, and no `use` step is left. -/
theorem steps_compile_eq_unrolled (scenario : Scenario) (options : CompileOptions) :
    options.blocks.Unrolls options.blocks.unroll ∧
    (∀ f, options.blocks.Unrolls f →
      (scenario.compile options).program.steps = f ∅ none scenario) ∧
    (∀ rest : Scenario, (Scenario.compile (scenario ++ rest) options).program.steps
      = (scenario.compile options).program.steps ++ (rest.compile options).program.steps) ∧
    (∀ (entry entry' : Entry) (name : String) (body between after : Scenario),
      entry.Uses name → entry'.Uses name → options.blocks.get? name = some body →
      (Scenario.compile (scenario ++ entry :: (between ++ entry' :: after)) options).program.steps
        = (scenario.compile options).program.steps ++
          (options.blocks.unroll {name} (some name) body ++
            ((between.compile options).program.steps ++
              (options.blocks.unroll {name} (some name) body ++
                (after.compile options).program.steps)))) ∧
    ∀ s ∈ (scenario.compile options).program.steps, ∀ name, s.step.action ≠ .use name := by
  have hunroll := options.blocks.unrolls_unroll
  refine ⟨hunroll, ?_, ?_, ?_, ?_⟩
  · intro f hf
    rw [steps_compile]
    exact hunroll.eq hf ∅ none scenario
  · intro rest
    simp only [steps_compile]
    exact Blocks.unroll_append scenario rest
  · intro entry entry' name body between after huses huses' hfound
    -- outside of all blocks a use is the block under its own name alone
    have hcopy {e : Entry} (he : e.Uses name) : options.blocks.unroll ∅ none [e]
        = options.blocks.unroll {name} (some name) body :=
      hunroll.block he (Finset.notMem_empty name) hfound
    simp only [steps_compile]
    rw [Blocks.unroll_append, Blocks.unroll_cons, Blocks.unroll_append,
      Blocks.unroll_cons entry' after, hcopy huses, hcopy huses']
  · apply Draft.useFree_expand [] 0 scenario
    intro s hs
    cases hs

end Scenario

end Timeline
