/-
Timeline/Proofs/Program/Reports.lean

What compiling a scenario reports, and which pass it comes from.

Errors are reported by the expansion and by the checks of the flat program, and each one
is kept once.  The two kinds do not mix: the expansion reports structural faults only, and
the checks report none of them.

Main results: a structural error is reported exactly if it is one of an occurrence
(`Scenario.mem_reports_iff_of_structural`), and any other exactly if it is a dangling
reference or a bracket that does not match (`Scenario.mem_reports_iff_of_semantic`).
-/
import Timeline.Proofs.Program.Mismatches
import Timeline.Proofs.Program.Occurrences

namespace Timeline

theorem Step.labelName?_eq_some_iff {s : Step} {name : String} :
    s.labelName? = some name ↔ s.action = .label name := by
  unfold labelName?
  split <;> simp_all

/-! ### Faults of entries -/

/-- A fault that an entry has by itself, whatever it is met among. -/
def Fault.isIntrinsic : Fault → Bool
  | invalidStep _ | missingLabel | invalidIfJump _ | invalidParallel _ => true
  | _ => false

theorem Fault.isStructural_of_isIntrinsic {fault : Fault} (h : fault.isIntrinsic) :
    fault.isStructural := by
  cases fault <;> first | rfl | cases h

theorem Fault.isIntrinsic_ofUnreadable (v : Json) (reason : String) :
    (Fault.ofUnreadable v reason).isIntrinsic := by
  unfold ofUnreadable
  split <;> rfl

theorem Step.isIntrinsic_of_mem_shapeFaults {step : Step} {fault : Fault}
    (h : fault ∈ step.shapeFaults) : fault.isIntrinsic := by
  unfold shapeFaults at h
  split at h
  · obtain ⟨-, rfl⟩ : _ ∧ fault = _ := by simpa using h
    rfl
  · simp only [List.mem_append, List.mem_ite_nil_right, List.mem_singleton] at h
    rcases h with ⟨-, rfl⟩ | ⟨-, rfl⟩ <;> rfl
  · simp only [List.mem_append, List.mem_ite_nil_right, List.mem_singleton, List.mem_filterMap,
      Option.ite_none_right_eq_some, Option.some.injEq] at h
    rcases h with ⟨-, rfl⟩ | ⟨_, -, -, rfl⟩ <;> rfl
  · cases h

namespace Entry

variable {entry : Entry} {fault : Fault}

/-- What is wrong with an entry by itself: it cannot be read, or has not the shape of a step. -/
def faults (entry : Entry) : List Fault :=
  match entry.read with
  | .error fault => [fault]
  | .ok given => given.shapeFaults

theorem isIntrinsic_of_mem_faults (h : fault ∈ entry.faults) : fault.isIntrinsic := by
  unfold faults at h
  split at h
  · rename_i hread
    obtain rfl := List.mem_singleton.1 h
    unfold read at hread
    split at hread
    · cases hread
    · split at hread
      · cases hread
      · cases hread
        exact Fault.isIntrinsic_ofUnreadable _ _
    · cases hread
      rfl
  · exact Step.isIntrinsic_of_mem_shapeFaults h

/-- Entries without faults are those that stand for a step. -/
theorem faults_eq_nil_iff : entry.faults = [] ↔ ∃ step, entry.StandsFor step := by
  unfold faults StandsFor
  rcases entry.read with fault | step
  · simp
  · simp only [Step.shapeFaults_eq_nil_iff, Except.ok.injEq]
    constructor
    · intro h
      exact ⟨step, rfl, h⟩
    · rintro ⟨_, rfl, h⟩
      exact h

end Entry

namespace Occurrence

variable {blocks : Blocks} {o : Occurrence} {fault : Fault} {step : Step} {name : String}

/-! ### Faults of occurrences -/

theorem faults_of_unreadable (h : o.entry.faults ≠ []) : o.faults blocks = o.entry.faults := by
  revert h
  unfold faults Entry.faults
  rcases o.entry.read with fault | step <;> intro h
  · rfl
  · exact if_pos h

theorem faults_of_standsFor (h : o.entry.StandsFor step) : o.faults blocks =
    match step.action with
    | .use name =>
      if name ∈ o.path then [.circularBlock name]
      else if blocks.contains name then [] else [.blockNotFound name]
    | .label name => if name ∈ Program.labelNames o.before then [.duplicateLabel name] else []
    | _ => [] := by
  unfold faults
  rw [h.1]
  exact if_neg (not_not_intro (Step.shapeFaults_eq_nil_iff.2 h.2))

/-- **All that can be wrong with an occurrence**: its entry, the use of a block that is open or not
registered, and a label whose name came before. -/
theorem mem_faults_iff : fault ∈ o.faults blocks ↔
    fault ∈ o.entry.faults ∨
    (∃ name, o.entry.Uses name ∧ name ∈ o.path ∧ fault = .circularBlock name) ∨
    (∃ name, o.entry.Uses name ∧ name ∉ o.path ∧ blocks.get? name = none ∧
      fault = .blockNotFound name) ∨
    ∃ step name, o.entry.StandsFor step ∧ step.action = .label name ∧
      name ∈ Program.labelNames o.before ∧ fault = .duplicateLabel name := by
  by_cases hown : o.entry.faults = []
  · obtain ⟨step, hstands⟩ := Entry.faults_eq_nil_iff.1 hown
    have huses (name : String) : o.entry.Uses name ↔ step.action = .use name := by
      constructor
      · rintro ⟨step', hstands', haction⟩
        rwa [hstands.unique hstands']
      · intro haction
        exact ⟨step, hstands, haction⟩
    have hlabel (p : Step → Prop) : (∃ step', o.entry.StandsFor step' ∧ p step') ↔ p step := by
      constructor
      · rintro ⟨step', hstands', h⟩
        rwa [hstands.unique hstands']
      · intro h
        exact ⟨step, hstands, h⟩
    simp only [exists_and_left, hlabel, huses, hown, List.not_mem_nil, false_or]
    rw [faults_of_standsFor hstands]
    rcases haction : step.action with
      _ | _ | _ | _ | _ | _ | name | _ | name | _ | _ | _ | _ | _ | _ | _ | _
    case use =>
      by_cases hopen : name ∈ o.path
      · simp [hopen]
      · rcases hfound : blocks.get? name with - | body <;> simp [hopen, Table.contains, hfound]
    case label => by_cases hbefore : name ∈ Program.labelNames o.before <;> simp [hbefore]
    all_goals simp
  · rw [faults_of_unreadable hown]
    refine (or_iff_left ?_).symm
    have hnot (step : Step) : ¬o.entry.StandsFor step :=
      fun h => hown (Entry.faults_eq_nil_iff.2 ⟨step, h⟩)
    rintro (⟨name, ⟨step, h, -⟩, -⟩ | ⟨name, ⟨step, h, -⟩, -⟩ | ⟨step, name, h, -⟩)
    all_goals exact hnot step h

/-- **The expansion reports structural faults only.** -/
theorem isStructural_of_mem_faults (h : fault ∈ o.faults blocks) : fault.isStructural := by
  rcases mem_faults_iff.1 h with h | ⟨name, -, -, rfl⟩ | ⟨name, -, -, -, rfl⟩ |
    ⟨step, name, -, -, -, rfl⟩
  · exact Fault.isStructural_of_isIntrinsic (Entry.isIntrinsic_of_mem_faults h)
  all_goals rfl

end Occurrence

/-! ### Faults of the flat program -/

namespace Program

variable {p : Program} {values : Table Float} {functions : List String} {e : CompileError}

/-- A reference of a step that leads nowhere. -/
theorem mem_dangling_iff : e ∈ p.dangling values functions ↔
    ∃ (i : Nat) (s : FlatStep), p.steps[i]? = some s ∧ e.location = s.locate i ∧
      e.fault ∈ p.danglingOf values functions s.step := by
  obtain ⟨location, fault⟩ := e
  simp only [dangling, List.mem_flatMap, List.mem_map, CompileError.mk.injEq]
  constructor
  · rintro ⟨⟨s, i⟩, hmem, fault, hfault, rfl, rfl⟩
    exact ⟨i, s, List.mk_mem_zipIdx_iff_getElem?.1 hmem, rfl, hfault⟩
  · rintro ⟨i, s, hs, rfl, hfault⟩
    exact ⟨(s, i), List.mk_mem_zipIdx_iff_getElem?.2 hs, fault, hfault, rfl, rfl⟩

/-- Dangling references are no structural faults. -/
theorem isStructural_of_mem_dangling (h : e ∈ p.dangling values functions) :
    e.fault.isStructural = false := by
  obtain ⟨i, s, -, -, hfault⟩ := mem_dangling_iff.1 h
  simp only [danglingOf, List.mem_append, List.mem_map] at hfault
  rcases hfault with (⟨_, -, hfault⟩ | ⟨_, -, hfault⟩) | ⟨_, -, hfault⟩ <;> rw [← hfault] <;> rfl

/-- Neither are brackets that do not match. -/
theorem isStructural_of_mem_unbalanced (h : e ∈ p.unbalanced) :
    e.fault.isStructural = false := by
  obtain ⟨i, s, -, -, hstray | ⟨-, -, hfault⟩⟩ := mem_unbalanced_iff.1 h
  · revert hstray
    cases e.fault <;> first | (intro; rfl) | exact False.elim
  · rw [hfault]
    rfl

end Program

/-! ### What is reported -/

namespace Scenario

variable {scenario : Scenario} {options : CompileOptions} {e : CompileError}

/-- The errors that compiling reports, with the program or in its place. -/
def reports (scenario : Scenario) (options : CompileOptions) : List CompileError :=
  match scenario.compile? options with
  | .ok c => c.errors
  | .error errors => errors

theorem reports_eq (scenario : Scenario) (options : CompileOptions) :
    scenario.reports options = (scenario.compile options).errors := by
  unfold reports compile?
  dsimp only
  split
  · rename_i h
    split at h
    · cases h
    · cases h
      rfl
  · rename_i h
    split at h
    · cases h
      rfl
    · cases h

theorem mem_reports_iff : e ∈ scenario.reports options ↔
    (∃ o ∈ scenario.occurrences options.blocks, e ∈ o.errors options.blocks) ∨
    e ∈ (scenario.compile options).program.dangling options.values options.functions ∨
    e ∈ (scenario.compile options).program.unbalanced := by
  rw [reports_eq]
  show e ∈ List.eraseDups ((scenario.draft options.blocks).errors
    ++ (scenario.compile options).program.dangling options.values options.functions
    ++ (scenario.compile options).program.unbalanced) ↔ _
  rw [List.mem_eraseDups, List.mem_append, List.mem_append, or_assoc, errors_draft,
    List.mem_flatMap]

/-- **Structural errors are those of occurrences.** -/
theorem mem_reports_iff_of_structural (h : e.fault.isStructural) :
    e ∈ scenario.reports options ↔
      ∃ o ∈ scenario.occurrences options.blocks,
        e.location = o.location ∧ e.fault ∈ o.faults options.blocks := by
  rw [mem_reports_iff, or_iff_left]
  · obtain ⟨location, fault⟩ := e
    simp only [Occurrence.errors, List.mem_map, CompileError.mk.injEq]
    constructor
    · rintro ⟨o, ho, fault, hfault, rfl, rfl⟩
      exact ⟨o, ho, rfl, hfault⟩
    · rintro ⟨o, ho, rfl, hfault⟩
      exact ⟨o, ho, fault, hfault, rfl, rfl⟩
  · rintro (hflat | hflat)
    · rw [Program.isStructural_of_mem_dangling hflat] at h
      cases h
    · rw [Program.isStructural_of_mem_unbalanced hflat] at h
      cases h

/-- **All other errors are dangling references and brackets that do not match.** -/
theorem mem_reports_iff_of_semantic (h : e.fault.isStructural = false) :
    e ∈ scenario.reports options ↔
      e ∈ (scenario.compile options).program.dangling options.values options.functions ∨
      e ∈ (scenario.compile options).program.unbalanced := by
  rw [mem_reports_iff, or_iff_right]
  rintro ⟨o, -, he⟩
  obtain ⟨fault, hfault, rfl⟩ := List.mem_map.1 he
  rw [Occurrence.isStructural_of_mem_faults hfault] at h
  cases h

end Scenario

end Timeline
