/-
Timeline/Proofs/Program/Circles.lean

Circular blocks, and why the expansion ends.

Blocks refer to each other by the entries that use them.  The expansion follows these
references depth first and keeps no record of what it has visited, only the stack of the
blocks that are open; a circle is found when a block on that stack is used.

The stack holds registered names, and none twice.  `Blocks.expandWithin` is the expansion
that recurses on a budget of further open blocks in place of a measure, and gives up as
soon as a stack is anything else; it gives the same draft (`Blocks.expandWithin_eq`).

Main result (`Scenario.circularBlock_reported`): the number of registered blocks is a
sufficient budget, every report of a circular block is a use of an open one, and there is
such a report exactly if the scenario reaches a cycle of references.
-/
import Mathlib.Logic.Relation
import Timeline.Proofs.Program.Reports

namespace Timeline

open Relation

/-! ### References between blocks -/

namespace Blocks

variable {blocks : Blocks} {path : List String} {entries : List Entry} {name used : String}

/-- One registered block uses another, in an entry that stands for a step. -/
def Refers (blocks : Blocks) (name used : String) : Prop :=
  ∃ body, blocks.get? name = some body ∧ blocks.contains used ∧ ∃ entry ∈ body, entry.Uses used

/-- The first blocks that some entries refer to. -/
def Roots (blocks : Blocks) (entries : List Entry) (name : String) : Prop :=
  blocks.contains name ∧ ∃ entry ∈ entries, entry.Uses name

/-- A block from which references lead into a cycle. -/
def Trapped (blocks : Blocks) (name : String) : Prop :=
  ∃ turn, ReflTransGen blocks.Refers name turn ∧ TransGen blocks.Refers turn turn

/-- What a registered block uses are the first blocks that its entries refer to. -/
theorem refers_iff_roots {body : Scenario} (h : blocks.get? name = some body) :
    blocks.Refers name used ↔ blocks.Roots body used := by
  unfold Refers Roots
  rw [h]
  simp

/-- References lead on from a trapped block to a trapped block. -/
theorem Trapped.exists_refers (h : blocks.Trapped name) :
    ∃ used, blocks.Refers name used ∧ blocks.Trapped used := by
  obtain ⟨turn, hreach, hcycle⟩ := h
  rcases hreach.cases_head with rfl | ⟨used, hrefers, hreach⟩
  · obtain ⟨used, hrefers, hback⟩ := TransGen.head'_iff.1 hcycle
    exact ⟨used, hrefers, name, hback, hcycle⟩
  · exact ⟨used, hrefers, turn, hreach, hcycle⟩

/-! ### Stacks of open blocks -/

/-- A stack of open blocks: all of them are registered, and none is open twice. -/
def IsStack (blocks : Blocks) (path : List String) : Prop :=
  path.Nodup ∧ ∀ name ∈ path, name ∈ blocks.names

instance (blocks : Blocks) (path : List String) : Decidable (blocks.IsStack path) :=
  inferInstanceAs (Decidable (_ ∧ _))

theorem isStack_nil : blocks.IsStack [] :=
  ⟨.nil, fun _ h => absurd h List.not_mem_nil⟩

/-- Only a registered block that is not open is opened. -/
theorem IsStack.cons {entry : Entry} {body : Scenario} (h : blocks.IsStack path)
    (hopens : blocks.opens? path entry = some (name, body)) : blocks.IsStack (name :: path) := by
  obtain ⟨-, hopen, hfound⟩ := opens?_eq_some_iff.1 hopens
  refine ⟨h.1.cons hopen, ?_⟩
  intro other hother
  rcases List.mem_cons.1 hother with rfl | hother
  · exact Table.mem_names_of_get? hfound
  · exact h.2 other hother

theorem IsStack.length_le (h : blocks.IsStack path) :
    path.length ≤ blocks.names.toFinset.card := by
  rw [← List.toFinset_card_of_nodup h.1]
  apply Finset.card_le_card
  intro name hname
  rw [List.mem_toFinset] at hname ⊢
  exact h.2 name hname

/-- Wherever an entry is met, the open blocks are a stack. -/
theorem Occurs.isStack {trail : List Nat} {position : Nat} {before : List FlatStep}
    {o : Occurrence} (h : blocks.Occurs path trail position before entries o)
    (hpath : blocks.IsStack path) : blocks.IsStack o.path := by
  induction h with
  | here => exact hpath
  | inside hopens _ ih => exact ih (hpath.cons hopens)
  | later _ ih => exact ih hpath

/-- The expansion of entries on a budget: at most `budget` further blocks are open at a time.  It
gives up when a block is opened beyond the budget, or what is open then is no stack. -/
def expandWithin (blocks : Blocks) (budget : Nat) (path : List String) (position : Nat)
    (entries : List Entry) (d : Draft) : Option Draft :=
  match entries with
  | [] => some d
  | entry :: rest =>
    let expanded := match blocks.opens? path entry with
      | none => some (blocks.expandEntry path position entry d)
      | some (name, body) =>
        match budget with
        | 0 => none
        | budget + 1 =>
          if blocks.IsStack (name :: path) then blocks.expandWithin budget (name :: path) 0 body d
          else none
    expanded.bind fun d => blocks.expandWithin budget path (position + 1) rest d
termination_by (budget, entries.length)

/-- **The number of registered blocks that are not open is a sufficient budget.** -/
theorem expandWithin_eq (path : List String) (entries : List Entry) (position : Nat) (d : Draft)
    {budget : Nat} (hpath : blocks.IsStack path) (hbudget : blocks.unopened path.toFinset ≤ budget) :
    blocks.expandWithin budget path position entries d
      = some (blocks.expand path position entries d) := by
  induction path, entries using blocks.passage generalizing position d budget with
  | nil path => rw [expandWithin, expand_nil]
  | cons path entry rest ihblock ihrest =>
    rw [expandWithin, expand_cons]
    rcases hopens : blocks.opens? path entry with - | ⟨name, body⟩
    · exact ihrest _ _ hpath hbudget
    · have hstack := hpath.cons hopens
      obtain ⟨-, hopen, hfound⟩ := opens?_eq_some_iff.1 hopens
      rw [← List.mem_toFinset] at hopen
      have hlt := unopened_insert_lt hopen (Table.mem_names_of_get? hfound)
      rw [← List.toFinset_cons] at hlt
      obtain ⟨budget, rfl⟩ : ∃ less, budget = less + 1 := ⟨budget - 1, by omega⟩
      dsimp only
      rw [if_pos hstack, ihblock name body hopens 0 d hstack (by omega),
        expandEntry_of_opens hopens]
      exact ihrest _ _ hpath hbudget

end Blocks

/-! ### Uses of open blocks -/

/-- An occurrence uses a block that is open. -/
def Occurrence.Circular (o : Occurrence) (name : String) : Prop :=
  o.entry.Uses name ∧ name ∈ o.path

/-- What is circular about an occurrence is what it is reported for. -/
theorem Occurrence.circularBlock_mem_faults_iff {blocks : Blocks} {o : Occurrence}
    {name : String} : .circularBlock name ∈ o.faults blocks ↔ o.Circular name := by
  rw [mem_faults_iff]
  constructor
  · rintro (h | ⟨used, huses, hopen, heq⟩ | ⟨_, -, -, -, heq⟩ | ⟨_, _, -, -, -, heq⟩)
    · exact absurd (Entry.isIntrinsic_of_mem_faults h) Bool.false_ne_true
    · cases heq
      exact ⟨huses, hopen⟩
    · cases heq
    · cases heq
  · intro h
    exact .inr (.inl ⟨name, h.1, h.2, rfl⟩)

namespace Blocks

variable {blocks : Blocks} {path : List String} {entries : List Entry} {name : String}

/-- **A trapped block leads to a circular use**: whoever follows the references from it has to use
an open block in the end. -/
theorem exists_circular_of_trapped (blocks : Blocks) (path : List String) (entries : List Entry)
    (trail : List Nat) (position : Nat) (before : List FlatStep)
    (h : ∃ name, blocks.Roots entries name ∧ blocks.Trapped name) :
    ∃ o, blocks.Occurs path trail position before entries o ∧ ∃ name, o.Circular name := by
  induction path, entries using blocks.passage generalizing trail position before with
  | nil path =>
    obtain ⟨name, ⟨-, entry, hentry, -⟩, -⟩ := h
    cases hentry
  | cons path entry rest ihblock ihrest =>
    obtain ⟨name, ⟨hknown, user, huser, huses⟩, htrapped⟩ := h
    rcases List.mem_cons.1 huser with rfl | huser
    · by_cases hopen : name ∈ path
      · exact ⟨_, .here, name, huses, hopen⟩
      · obtain ⟨body, hfound⟩ := Option.isSome_iff_exists.1 hknown
        have hopens := opens?_eq_some_iff.2 ⟨huses, hopen, hfound⟩
        obtain ⟨used, hrefers, hused⟩ := htrapped.exists_refers
        obtain ⟨o, ho, hcircular⟩ := ihblock name body hopens (position :: trail) 0 before
          ⟨used, (refers_iff_roots hfound).1 hrefers, hused⟩
        exact ⟨o, .inside hopens ho, hcircular⟩
    · obtain ⟨o, ho, hcircular⟩ := ihrest trail (position + 1) _
        ⟨name, ⟨hknown, user, huser, huses⟩, htrapped⟩
      exact ⟨o, .later ho, hcircular⟩

end Blocks

namespace Scenario

variable {scenario : Scenario} {blocks : Blocks} {path : List String} {name used : String}

/-- References lead from a scenario to a block. -/
def Reaches (scenario : Scenario) (blocks : Blocks) (name : String) : Prop :=
  ∃ first, blocks.Roots scenario first ∧ ReflTransGen blocks.Refers first name

/-- The scenario reaches all open blocks, and references lead from them to what the entries refer
to. -/
structure Traces (scenario : Scenario) (blocks : Blocks) (path : List String)
    (entries : List Entry) : Prop where
  reached : ∀ name ∈ path, scenario.Reaches blocks name
  roots : ∀ used, blocks.Roots entries used →
    scenario.Reaches blocks used ∧ ∀ name ∈ path, TransGen blocks.Refers name used

theorem traces_self (scenario : Scenario) (blocks : Blocks) :
    scenario.Traces blocks [] scenario where
  reached _ h := absurd h List.not_mem_nil
  roots used h := ⟨⟨used, h, .refl⟩, fun _ h => absurd h List.not_mem_nil⟩

namespace Traces

variable {entry : Entry} {rest : List Entry} {body : Scenario}

theorem tail (h : scenario.Traces blocks path (entry :: rest)) :
    scenario.Traces blocks path rest where
  reached := h.reached
  roots used := by
    rintro ⟨hknown, user, huser, huses⟩
    exact h.roots used ⟨hknown, user, List.mem_cons_of_mem _ huser, huses⟩

/-- Opening a block keeps what is known of the open ones. -/
theorem block (h : scenario.Traces blocks path (entry :: rest))
    (hopens : blocks.opens? path entry = some (name, body)) :
    scenario.Traces blocks (name :: path) body := by
  obtain ⟨huses, -, hfound⟩ := Blocks.opens?_eq_some_iff.1 hopens
  have hknown : blocks.contains name := by
    rw [Table.contains, hfound]
    rfl
  obtain ⟨hreached, hlead⟩ := h.roots name ⟨hknown, entry, List.mem_cons_self, huses⟩
  refine ⟨?_, ?_⟩
  · intro other hother
    rcases List.mem_cons.1 hother with rfl | hother
    · exact hreached
    · exact h.reached other hother
  · intro used hroot
    have hrefers := (Blocks.refers_iff_roots hfound).2 hroot
    obtain ⟨first, hfirst, hchain⟩ := hreached
    refine ⟨⟨first, hfirst, hchain.tail hrefers⟩, ?_⟩
    intro other hother
    rcases List.mem_cons.1 hother with rfl | hother
    · exact .single hrefers
    · exact (hlead other hother).tail hrefers

end Traces

/-- **A block that is used while it is open lies on a cycle**, which the scenario reaches. -/
theorem Traces.cycle {entries : List Entry} {trail : List Nat} {position : Nat}
    {before : List FlatStep} {o : Occurrence} (h : scenario.Traces blocks path entries)
    (hpath : blocks.IsStack path) (ho : blocks.Occurs path trail position before entries o)
    (hcircular : o.Circular name) :
    scenario.Reaches blocks name ∧ TransGen blocks.Refers name name := by
  induction ho with
  | here =>
    obtain ⟨huses, hopen⟩ := hcircular
    have hknown := Table.mem_names_iff.1 (hpath.2 name hopen)
    exact ⟨h.reached name hopen,
      (h.roots name ⟨hknown, _, List.mem_cons_self, huses⟩).2 name hopen⟩
  | inside hopens _ ih => exact ih (h.block hopens) (hpath.cons hopens) hcircular
  | later _ ih => exact ih h.tail hpath hcircular

/-- **Circular blocks are found exactly, and the expansion ends.**  It needs no deeper nesting than
there are registered blocks, since the open blocks are registered and different from each other.
What is reported as circular are the uses of blocks that are open, wherever they are met; and there
is such a report exactly if references lead from the scenario into a cycle. -/
theorem circularBlock_reported (scenario : Scenario) (options : CompileOptions) :
    options.blocks.expandWithin options.blocks.names.toFinset.card [] 0 scenario {}
        = some (scenario.draft options.blocks) ∧
    (∀ o ∈ scenario.occurrences options.blocks, options.blocks.IsStack o.path ∧
      o.path.length ≤ options.blocks.names.toFinset.card) ∧
    (∀ location name, ⟨location, .circularBlock name⟩ ∈ scenario.reports options ↔
      ∃ o ∈ scenario.occurrences options.blocks, location = o.location ∧ o.Circular name) ∧
    ((∃ location name, ⟨location, .circularBlock name⟩ ∈ scenario.reports options) ↔
      ∃ name, scenario.Reaches options.blocks name ∧ TransGen options.blocks.Refers name name) := by
  have hreports (location : Location) (name : String) :
      ⟨location, .circularBlock name⟩ ∈ scenario.reports options ↔
        ∃ o ∈ scenario.occurrences options.blocks, location = o.location ∧ o.Circular name := by
    rw [mem_reports_iff_of_structural rfl]
    simp only [Occurrence.circularBlock_mem_faults_iff]
  refine ⟨?_, ?_, hreports, ?_⟩
  · apply Blocks.expandWithin_eq _ _ _ _ Blocks.isStack_nil
    simp [Blocks.unopened]
  · intro o ho
    have hstack := (Blocks.mem_occurrences_iff.1 ho).isStack Blocks.isStack_nil
    exact ⟨hstack, hstack.length_le⟩
  · simp only [hreports]
    constructor
    · rintro ⟨_, name, o, ho, -, hcircular⟩
      exact ⟨name, (scenario.traces_self options.blocks).cycle Blocks.isStack_nil
        (Blocks.mem_occurrences_iff.1 ho) hcircular⟩
    · rintro ⟨name, ⟨first, hfirst, hchain⟩, hcycle⟩
      obtain ⟨o, ho, name, hcircular⟩ := options.blocks.exists_circular_of_trapped [] scenario [] 0 []
        ⟨first, hfirst, name, hchain, hcycle⟩
      exact ⟨o.location, name, o, Blocks.mem_occurrences_iff.2 ho, rfl, hcircular⟩

end Scenario

end Timeline
