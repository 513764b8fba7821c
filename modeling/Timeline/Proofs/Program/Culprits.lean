/-
Timeline/Proofs/Program/Culprits.lean

Nothing is left out of a program without an error, and every error says where to look.

A structural error is located by the length that the program has when an entry is met, the
innermost open block and the position of the entry; what is left out appends nothing, so
that length does not tell such entries apart.  All other errors are located by the index
of a step.

Main result (`Scenario.accounts_compile`): the list of errors that comes with a program
accounts for it, in the sense of `Compilation.Accounts`.
-/
import Timeline.Proofs.Program.Reports

namespace Timeline

/-! ### What is left out -/

namespace Occurrence

variable {blocks : Blocks} {o : Occurrence} {fault : Fault}

/-- An occurrence appends a label whose name came before. -/
def Repeats (o : Occurrence) (fault : Fault) : Prop :=
  ∃ s name, o.own = [s] ∧ s.step.action = .label name ∧ name ∈ Program.labelNames o.before ∧
    fault = .duplicateLabel name

theorem opens?_eq_none_of_uses {name : String} (huses : o.entry.Uses name)
    (h : name ∈ o.path ∨ blocks.get? name = none) : blocks.opens? o.path o.entry = none := by
  rcases hopens : blocks.opens? o.path o.entry with - | ⟨used, body⟩
  · rfl
  · obtain ⟨huses', hopen, hfound⟩ := Blocks.opens?_eq_some_iff.1 hopens
    obtain rfl := huses.unique huses'
    rcases h with h | h
    · exact absurd h hopen
    · cases h.symm.trans hfound

theorem vanishes_of_faults (h : o.entry.faults ≠ []) : o.Vanishes blocks := by
  have hnot (step : Step) : ¬o.entry.StandsFor step :=
    fun hstands => h (Entry.faults_eq_nil_iff.2 ⟨step, hstands⟩)
  refine ⟨own_of_forall_not hnot, ?_⟩
  rcases hopens : blocks.opens? o.path o.entry with - | ⟨name, body⟩
  · rfl
  · obtain ⟨⟨step, hstands, -⟩, -⟩ := Blocks.opens?_eq_some_iff.1 hopens
    exact absurd hstands (hnot step)

/-- **What is reported is left out, or a repeated label.** -/
theorem vanishes_or_repeats (h : fault ∈ o.faults blocks) : o.Vanishes blocks ∨ o.Repeats fault := by
  rcases mem_faults_iff.1 h with h | ⟨name, huses, hopen, -⟩ | ⟨name, huses, -, hfound, -⟩ |
    ⟨step, name, hstands, haction, hbefore, rfl⟩
  · exact .inl (vanishes_of_faults (List.ne_nil_of_mem h))
  · exact .inl ⟨own_of_uses huses, opens?_eq_none_of_uses huses (.inl hopen)⟩
  · exact .inl ⟨own_of_uses huses, opens?_eq_none_of_uses huses (.inr hfound)⟩
  · exact .inr ⟨_, name, own_of_plain hstands (by simp [haction]), haction, hbefore, rfl⟩

/-- **What is left out is reported.** -/
theorem Vanishes.faults_ne_nil (h : o.Vanishes blocks) : o.faults blocks ≠ [] := by
  obtain ⟨hown, hopens⟩ := h
  by_cases hfaults : o.entry.faults = []
  · obtain ⟨step, hstands⟩ := Entry.faults_eq_nil_iff.1 hfaults
    by_cases hplain : ∀ name, step.action ≠ .use name
    · rw [own_of_plain hstands hplain] at hown
      cases hown
    · simp only [not_forall, not_not] at hplain
      obtain ⟨name, haction⟩ := hplain
      have huses : o.entry.Uses name := ⟨step, hstands, haction⟩
      by_cases hopen : name ∈ o.path
      · exact List.ne_nil_of_mem (mem_faults_iff.2 (.inr (.inl ⟨name, huses, hopen, rfl⟩)))
      · rcases hfound : blocks.get? name with - | body
        · exact List.ne_nil_of_mem
            (mem_faults_iff.2 (.inr (.inr (.inl ⟨name, huses, hopen, hfound, rfl⟩))))
        · rw [Blocks.opens?_eq_some_iff.2 ⟨huses, hopen, hfound⟩] at hopens
          cases hopens
  · rwa [faults_of_unreadable hfaults]

end Occurrence

/-! ### What a step lacks -/

namespace Program

variable {p : Program} {options : CompileOptions} {fault : Fault}

/-- What the checks of references and brackets find wrong with the step at an index. -/
def Lacks (p : Program) (options : CompileOptions) (index : Nat) (s : FlatStep) : Fault → Prop
  | .missingInitialValue target => target ∈ s.step.targets ∧ options.values.contains target = false
  | .missingCallback name => s.step.callee? = some name ∧ name ∉ options.functions
  | .unresolvedLabel label => label ∈ s.step.labelRefs ∧ p.labelIndex? label = none
  | fault => p.Mismatched index fault

/-- A step lacks what its dangling references lead to, and what its bracket does not match. -/
theorem lacks_iff {index : Nat} {s : FlatStep} : p.Lacks options index s fault ↔
    fault ∈ p.danglingOf options.values options.functions s.step ∨ p.Mismatched index fault := by
  cases fault <;> simp [Lacks, danglingOf, Mismatched, Stray]

theorem Lacks.isStructural {index : Nat} {s : FlatStep} (h : p.Lacks options index s fault) :
    fault.isStructural = false := by
  cases fault <;> first | rfl | exact absurd h (by simp [Lacks, Mismatched, Stray])

end Program

/-- What the checks of the flat program report: every step, for what it lacks. -/
theorem Scenario.mem_reports_iff_lacks {scenario : Scenario} {options : CompileOptions}
    {e : CompileError} (h : e.fault.isStructural = false) :
    e ∈ scenario.reports options ↔ ∃ (index : Nat) (s : FlatStep),
      (scenario.compile options).program.steps[index]? = some s ∧ e.location = s.locate index ∧
        (scenario.compile options).program.Lacks options index s e.fault := by
  rw [mem_reports_iff_of_semantic h, Program.mem_dangling_iff, Program.mem_unbalanced_iff]
  simp only [Program.lacks_iff, and_or_left, exists_or]

/-! ### Occurrences at one location -/

namespace Scenario

variable {scenario : Scenario} {blocks : Blocks} {o o' : Occurrence} {i j : Nat}

/-- What stands before an occurrence was appended by those before it. -/
theorem before_occurrences (h : (scenario.occurrences blocks)[i]? = some o) :
    o.before = ((scenario.occurrences blocks).take i).flatMap Occurrence.own := by
  have hturn := (blocks.inTurn_occurrences [] scenario [] 0 []).1
  exact (hturn.before_eq h).trans (List.nil_append _)

/-- An occurrence is an entry of the scenario or of the innermost open block. -/
theorem source_occurrences (h : o ∈ scenario.occurrences blocks) :
    (o.path = [] ∧ o.trail = [] ∧ scenario[o.position]? = some o.entry) ∨
    ∃ name body, o.path.head? = some name ∧ blocks.get? name = some body ∧
      body[o.position]? = some o.entry := by
  refine (Blocks.mem_occurrences_iff.1 h).source.imp_left ?_
  rintro ⟨hpath, htrail, i, hi, hentry⟩
  rw [Nat.zero_add] at hi
  exact ⟨hpath, htrail, hi ▸ hentry⟩

/-- Different occurrences have different addresses. -/
theorem eq_of_address (h : (scenario.occurrences blocks)[i]? = some o)
    (h' : (scenario.occurrences blocks)[j]? = some o') (haddress : o.address = o'.address) :
    i = j := by
  have hnodup := blocks.nodup_addresses [] scenario [] 0 []
  refine (List.getElem?_inj ?_ hnodup).1 ?_
  · rw [List.length_map]
    exact (List.getElem?_eq_some_iff.1 h).1
  · show ((scenario.occurrences blocks).map _)[i]? = ((scenario.occurrences blocks).map _)[j]?
    rw [List.getElem?_map, List.getElem?_map, h, h', Option.map_some, Option.map_some, haddress]

/-- If as many steps stand before two occurrences, then the same do. -/
theorem before_eq_of_length (h : (scenario.occurrences blocks)[i]? = some o)
    (h' : (scenario.occurrences blocks)[j]? = some o')
    (hlength : o.before.length = o'.before.length) : o.before = o'.before := by
  have hle {i j : Nat} {o o' : Occurrence} (hij : i ≤ j)
      (h : (scenario.occurrences blocks)[i]? = some o)
      (h' : (scenario.occurrences blocks)[j]? = some o') : o.before <+: o'.before := by
    rw [before_occurrences h, before_occurrences h']
    exact (List.take_prefix_take_left hij).flatMap _
  rcases Nat.le_total i j with hij | hij
  · exact (hle hij h h').eq_of_length hlength
  · exact ((hle hij h' h).eq_of_length hlength.symm).symm

/-- **Two occurrences at one location** are met in two expansions of one block, at the same entry,
and nothing is appended in between. -/
theorem eq_of_location (h : (scenario.occurrences blocks)[i]? = some o)
    (h' : (scenario.occurrences blocks)[j]? = some o') (hne : i ≠ j)
    (hlocation : o.location = o'.location) :
    (∃ name body, o.path.head? = some name ∧ o'.path.head? = some name ∧
      blocks.get? name = some body ∧ body[o.position]? = some o.entry) ∧
    o'.position = o.position ∧ o'.entry = o.entry ∧ o'.trail ≠ o.trail ∧
    o'.before = o.before := by
  obtain ⟨hlength, hhead, hposition⟩ : o.before.length = o'.before.length ∧
      o.path.head? = o'.path.head? ∧ o.position = o'.position := by
    simpa [Occurrence.location] using hlocation
  have htrail : o'.trail ≠ o.trail := by
    intro htrail
    apply hne
    apply eq_of_address h h'
    rw [Occurrence.address, Occurrence.address, hposition, htrail]
  have hsource := source_occurrences (List.mem_of_getElem? h)
  have hsource' := source_occurrences (List.mem_of_getElem? h')
  rcases hsource with ⟨hpath, hroot, -⟩ | ⟨name, body, hname, hfound, hentry⟩
  · -- outside of all blocks an entry is met once only
    rcases hsource' with ⟨-, hroot', -⟩ | ⟨name, body, hname, -, -⟩
    · exact absurd (hroot'.trans hroot.symm) htrail
    · rw [← hhead, hpath] at hname
      cases hname
  · rcases hsource' with ⟨hpath', -, -⟩ | ⟨name', body', hname', hfound', hentry'⟩
    · rw [hhead, hpath'] at hname
      cases hname
    · obtain rfl : name = name' := Option.some.inj (hname.symm.trans (hhead.trans hname'))
      obtain rfl : body = body' := Option.some.inj (hfound.symm.trans hfound')
      rw [← hposition] at hentry'
      exact ⟨⟨name, body, hname, hname', hfound, hentry⟩, hposition.symm,
        Option.some.inj (hentry'.symm.trans hentry), htrail, (before_eq_of_length h h' hlength).symm⟩

end Scenario

/-! ### Accounts -/

/-- The errors that come with the program of a scenario account for it. -/
structure Compilation.Accounts (c : Compilation) (scenario : Scenario) (options : CompileOptions) :
    Prop where
  /-- The program is what the entries append, in the order in which they are met. -/
  steps : c.program.steps = (scenario.occurrences options.blocks).flatMap Occurrence.own
  /-- What an entry is met with: the steps that were appended before. -/
  before : ∀ (i : Nat) (o : Occurrence), (scenario.occurrences options.blocks)[i]? = some o →
    o.before = ((scenario.occurrences options.blocks).take i).flatMap Occurrence.own
  /-- And its place in the scenario or the innermost open block. -/
  source : ∀ o ∈ scenario.occurrences options.blocks,
    (o.path = [] ∧ scenario[o.position]? = some o.entry) ∨
    ∃ name body, o.path.head? = some name ∧ options.blocks.get? name = some body ∧
      body[o.position]? = some o.entry
  /-- Whatever vanishes has an error, at its own location. -/
  vanished : ∀ o ∈ scenario.occurrences options.blocks, o.Vanishes options.blocks →
    ∃ e ∈ c.errors, e.fault.isStructural ∧
      e.location = ⟨o.before.length, o.path.head?, some o.position⟩
  /-- Structural errors are those of what vanishes, and of labels that are repeated. -/
  structural : ∀ e ∈ c.errors, e.fault.isStructural → ∃ o ∈ scenario.occurrences options.blocks,
    e.location = ⟨o.before.length, o.path.head?, some o.position⟩ ∧
      (o.Vanishes options.blocks ∨ o.Repeats e.fault)
  /-- All other errors are located at a step of the program, which lacks what they say. -/
  semantic : ∀ e ∈ c.errors, e.fault.isStructural = false →
    e.location.entry = none ∧ ∃ s, c.program.steps[e.location.index]? = some s ∧
      e.location.block = s.block ∧ c.program.Lacks options e.location.index s e.fault
  /-- Whatever a step lacks is reported. -/
  reported : ∀ (index : Nat) (s : FlatStep) (fault : Fault),
    c.program.steps[index]? = some s → c.program.Lacks options index s fault →
      ⟨⟨index, s.block, none⟩, fault⟩ ∈ c.errors
  /-- Different occurrences with one error are those of one entry of one block, in expansions of
  this block with no step in between. -/
  shared : ∀ (i j : Nat) (o o' : Occurrence), i ≠ j →
    (scenario.occurrences options.blocks)[i]? = some o →
    (scenario.occurrences options.blocks)[j]? = some o' →
    ∀ e ∈ c.errors, e.location = o.location → e.location = o'.location →
      (∃ name body, o.path.head? = some name ∧ o'.path.head? = some name ∧
        options.blocks.get? name = some body ∧ body[o.position]? = some o.entry) ∧
      o'.position = o.position ∧ o'.entry = o.entry ∧ o'.trail ≠ o.trail ∧ o'.before = o.before

/-- **Nothing disappears silently, and every error points at its culprit**: without the strict
option there is a program in any case, and its errors account for it. -/
theorem Scenario.accounts_compile (scenario : Scenario) (options : CompileOptions) :
    ∃ c, scenario.compile? { options with strict := false } = .ok c ∧
      c.Accounts scenario options := by
  refine ⟨⟨(scenario.compile options).program, scenario.reports options⟩, ?_, ?_⟩
  · rw [reports_eq]
    rfl
  constructor
  case steps =>
    rw [steps_compile]
    exact (options.blocks.inTurn_occurrences [] scenario [] 0 []).2.symm
  case before =>
    intro i o ho
    exact before_occurrences ho
  case source =>
    intro o ho
    refine (source_occurrences ho).imp_left ?_
    rintro ⟨hpath, -, hentry⟩
    exact ⟨hpath, hentry⟩
  case vanished =>
    intro o ho hvanishes
    obtain ⟨fault, hfault⟩ := List.exists_mem_of_ne_nil _ hvanishes.faults_ne_nil
    have hstructural := Occurrence.isStructural_of_mem_faults hfault
    refine ⟨⟨o.location, fault⟩, ?_, hstructural, rfl⟩
    exact (mem_reports_iff_of_structural hstructural).2 ⟨o, ho, rfl, hfault⟩
  case structural =>
    intro e he hstructural
    obtain ⟨o, ho, hlocation, hfault⟩ := (mem_reports_iff_of_structural hstructural).1 he
    exact ⟨o, ho, hlocation, Occurrence.vanishes_or_repeats hfault⟩
  case semantic =>
    intro e he hsemantic
    obtain ⟨index, s, hs, hlocation, hlacks⟩ := (mem_reports_iff_lacks hsemantic).1 he
    rw [hlocation]
    exact ⟨rfl, s, hs, rfl, hlacks⟩
  case reported =>
    intro index s fault hs hlacks
    exact (mem_reports_iff_lacks hlacks.isStructural).2 ⟨index, s, hs, rfl, hlacks⟩
  case shared =>
    intro i j o o' hne ho ho' e _ hlocation hlocation'
    exact eq_of_location ho ho' hne (hlocation.symm.trans hlocation')

end Timeline
