/-
Timeline/Proofs/Program/Labels.lean

The table of labels, and the labels that are reported.

The expansion enters a label into the table while the program is still growing, at the
length that it has by then, and remembers all names that came by, in blocks or outside.
What becomes of a label depends on the steps before it only: `Program.survey` collects
what steps give that are looked at so.

Main result (`Scenario.labels_exact`): whatever is wrong with a scenario, its table holds
the first label of a name if that stands outside of all blocks, in the order of the
program, and the labels whose name came before are reported, each once.
-/
import Timeline.Proofs.Program.Reports

namespace Timeline

/-! ### Lists and tables -/

/-- An entry under a new name comes last. -/
theorem Table.entries_put {α : Type} {t : Table α} {name : String} {entry : α}
    (h : name ∉ t.names) : (t.put name entry).entries = t.entries ++ [(name, entry)] := by
  have hput (entries : List (String × α)) (hnew : name ∉ entries.map Prod.fst) :
      putIn name entry entries = entries ++ [(name, entry)] := by
    induction entries with
    | nil => rfl
    | cons e rest ih =>
      simp only [List.map_cons, List.mem_cons, not_or] at hnew
      rw [putIn, if_neg (Ne.symm hnew.1), ih hnew.2, List.cons_append]
  exact hput t.entries h

/-- If no name has two entries, all of them can be found. -/
theorem Table.get?_eq_some_iff_of_pairwise {α : Type} {t : Table α} {name : String} {entry : α}
    (h : t.entries.Pairwise fun e e' => e.1 ≠ e'.1) :
    t.get? name = some entry ↔ (name, entry) ∈ t.entries := by
  rw [get?, List.lookup_eq_some_iff]
  constructor
  · rintro ⟨front, back, heq, -⟩
    rw [heq]
    exact List.mem_append_right _ List.mem_cons_self
  · intro hmem
    obtain ⟨front, back, heq⟩ := List.append_of_mem hmem
    refine ⟨front, back, heq, ?_⟩
    rw [heq, List.pairwise_append] at h
    intro e he
    rw [bne_iff_ne]
    exact (h.2.2 e he _ List.mem_cons_self).symm

/-- Keeping each element once does not show where none counts twice. -/
theorem filterMap_eraseDups {α β : Type} [DecidableEq α] (f : α → Option β) (l : List α)
    (h : (l.filterMap f).Nodup) : l.eraseDups.filterMap f = l.filterMap f := by
  match l with
  | [] => rfl
  | a :: rest =>
    rw [List.eraseDups_cons]
    obtain ⟨hnew, hnodup⟩ : (∀ b, f a = some b → b ∉ rest.filterMap f) ∧
        (rest.filterMap f).Nodup := by
      rcases hf : f a with - | b
      · rw [List.filterMap_cons_none hf] at h
        exact ⟨nofun, h⟩
      · rw [List.filterMap_cons_some hf, List.nodup_cons] at h
        refine ⟨?_, h.2⟩
        rintro _ ⟨⟩
        exact h.1
    -- what is the same as the first element counts only if that does not
    have hrest : (rest.filter fun b => !b == a).filterMap f = rest.filterMap f := by
      rw [List.filterMap_filter]
      apply List.filterMap_congr
      intro c hc
      rcases eq_or_ne c a with rfl | hne
      · rcases hf : f c with - | b
        · simp
        · exact absurd (List.mem_filterMap.2 ⟨c, hc, hf⟩) (hnew b hf)
      · simp [hne]
    have ih := filterMap_eraseDups f (rest.filter fun b => !b == a) (by rwa [hrest])
    rcases hf : f a with - | b
    · rw [List.filterMap_cons_none hf, List.filterMap_cons_none hf, ih, hrest]
    · rw [List.filterMap_cons_some hf, List.filterMap_cons_some hf, ih, hrest]
termination_by l.length
decreasing_by
  have := List.length_filter_le (fun b => !b == a) rest
  simp only [List.length_cons]
  omega

namespace Program

/-! ### Surveys -/

/-- What the steps of a program give, each looked at with the steps before it. -/
def survey {α : Type} (f : List FlatStep → FlatStep → Option α) (steps : List FlatStep) : List α :=
  steps.zipIdx.filterMap fun (s, i) => f (steps.take i) s

variable {α : Type} {f : List FlatStep → FlatStep → Option α} {steps : List FlatStep}

@[simp] theorem survey_nil : survey f [] = [] := rfl

theorem survey_concat (steps : List FlatStep) (s : FlatStep) :
    survey f (steps ++ [s]) = survey f steps ++ (f steps s).toList := by
  unfold survey
  rw [List.zipIdx_append, List.filterMap_append]
  congr 1
  · -- nothing before an earlier step has changed
    apply List.filterMap_congr
    rintro ⟨t, i⟩ hmem
    have hi := (List.getElem?_eq_some_iff.1 (List.mk_mem_zipIdx_iff_getElem?.1 hmem)).1
    dsimp only
    rw [List.take_append_of_le_length (by omega)]
  · rw [Nat.zero_add, List.zipIdx_singleton, List.filterMap_cons]
    dsimp only
    rw [List.take_left]
    rcases f steps s with - | x <;> rfl

theorem mem_survey_iff {x : α} : x ∈ survey f steps ↔
    ∃ (i : Nat) (s : FlatStep), steps[i]? = some s ∧ f (steps.take i) s = some x := by
  simp only [survey, List.mem_filterMap, Prod.exists, List.mk_mem_zipIdx_iff_getElem?]
  exact exists_comm

/-- What a later step gives stands behind what an earlier one does. -/
theorem pairwise_survey {R : α → α → Prop}
    (h : ∀ {before before' : List FlatStep} {s s' : FlatStep} {x x' : α},
      before ++ [s] <+: before' → f before s = some x → f before' s' = some x' → R x x')
    (steps : List FlatStep) : (survey f steps).Pairwise R := by
  induction steps using List.reverseRecOn with
  | nil => exact .nil
  | append_singleton steps s ih =>
    rw [survey_concat, List.pairwise_append]
    refine ⟨ih, ?_, ?_⟩
    · rcases f steps s with - | x
      · exact .nil
      · exact List.pairwise_singleton R x
    · intro x hx x' hx'
      obtain ⟨i, t, ht, hgive⟩ := mem_survey_iff.1 hx
      refine h ?_ hgive (Option.mem_toList.1 hx')
      have htake := List.take_add_one (l := steps) (i := i)
      rw [ht, Option.toList_some] at htake
      rw [← htake]
      exact List.take_prefix _ _

/-! ### Labels -/

/-- The place of a label that can be jumped to. -/
def address? (before : List FlatStep) (s : FlatStep) : Option (String × Nat) :=
  match s.step.labelName? with
  | some name =>
    if s.block = none ∧ name ∉ labelNames before then some (name, before.length) else none
  | none => none

/-- The place of a label whose name came before. -/
def repeat? (before : List FlatStep) (s : FlatStep) : Option (Nat × Option String × String) :=
  match s.step.labelName? with
  | some name => if name ∈ labelNames before then some (before.length, s.block, name) else none
  | none => none

theorem address?_eq_some_iff {before : List FlatStep} {s : FlatStep} {name : String} {i : Nat} :
    address? before s = some (name, i) ↔ s.step.action = .label name ∧ s.block = none ∧
      name ∉ labelNames before ∧ i = before.length := by
  rw [← Step.labelName?_eq_some_iff]
  unfold address?
  split
  · rename_i own hown
    rw [hown, Option.ite_none_right_eq_some]
    simp only [Option.some.injEq, Prod.mk.injEq]
    constructor
    · rintro ⟨⟨hblock, hnew⟩, rfl, rfl⟩
      exact ⟨rfl, hblock, hnew, rfl⟩
    · rintro ⟨rfl, hblock, hnew, rfl⟩
      exact ⟨⟨hblock, hnew⟩, rfl, rfl⟩
  · rename_i hnone
    simp [hnone]

theorem repeat?_eq_some_iff {before : List FlatStep} {s : FlatStep} {i : Nat}
    {block : Option String} {name : String} :
    repeat? before s = some (i, block, name) ↔ s.step.action = .label name ∧ s.block = block ∧
      name ∈ labelNames before ∧ i = before.length := by
  rw [← Step.labelName?_eq_some_iff]
  unfold repeat?
  split
  · rename_i own hown
    rw [hown, Option.ite_none_right_eq_some]
    simp only [Option.some.injEq, Prod.mk.injEq]
    constructor
    · rintro ⟨hbefore, rfl, rfl, rfl⟩
      exact ⟨rfl, rfl, hbefore, rfl⟩
    · rintro ⟨rfl, rfl, hbefore, rfl⟩
      exact ⟨hbefore, rfl, rfl, rfl⟩
  · rename_i hnone
    simp [hnone]

theorem length_take_of_getElem? {steps : List FlatStep} {i : Nat} {s : FlatStep}
    (h : steps[i]? = some s) : (steps.take i).length = i :=
  List.length_take_of_le (Nat.le_of_lt (List.getElem?_eq_some_iff.1 h).1)

/-- The names of labels that come before an index. -/
theorem mem_labelNames_take_iff {steps : List FlatStep} {i : Nat} {name : String} :
    name ∈ labelNames (steps.take i) ↔
      ∃ (j : Nat) (s : FlatStep), j < i ∧ steps[j]? = some s ∧ s.step.action = .label name := by
  simp only [labelNames, List.mem_filterMap, ← Step.labelName?_eq_some_iff]
  constructor
  · rintro ⟨s, hs, hname⟩
    obtain ⟨j, hj⟩ := List.getElem?_of_mem hs
    rw [List.getElem?_take, Option.ite_none_right_eq_some] at hj
    exact ⟨j, s, hj.1, hj.2, hname⟩
  · rintro ⟨j, s, hlt, hstep, hname⟩
    rw [← List.getElem?_take_of_lt hlt] at hstep
    exact ⟨s, List.mem_of_getElem? hstep, hname⟩

/-- The labels that can be jumped to stand outside of all blocks, and are the first of their name. -/
theorem mem_addresses_iff {steps : List FlatStep} {name : String} {i : Nat} :
    (name, i) ∈ survey address? steps ↔
      ∃ s, steps[i]? = some s ∧ s.step.action = .label name ∧ s.block = none ∧
        ∀ j t, j < i → steps[j]? = some t → t.step.action ≠ .label name := by
  rw [mem_survey_iff]
  constructor
  · rintro ⟨i', s, hs, haddress⟩
    obtain ⟨hlabel, hblock, hnew, hi⟩ := address?_eq_some_iff.1 haddress
    obtain rfl : i = i' := hi.trans (length_take_of_getElem? hs)
    refine ⟨s, hs, hlabel, hblock, ?_⟩
    intro j t hj ht hearlier
    exact hnew (mem_labelNames_take_iff.2 ⟨j, t, hj, ht, hearlier⟩)
  · rintro ⟨s, hs, hlabel, hblock, hnew⟩
    refine ⟨i, s, hs, address?_eq_some_iff.2
      ⟨hlabel, hblock, ?_, (length_take_of_getElem? hs).symm⟩⟩
    intro hearlier
    obtain ⟨j, t, hj, ht, hearlier⟩ := mem_labelNames_take_iff.1 hearlier
    exact hnew j t hj ht hearlier

/-- Of the labels that can be jumped to, the later has another name and a greater index. -/
theorem pairwise_addresses (steps : List FlatStep) :
    (survey address? steps).Pairwise fun e e' => e.1 ≠ e'.1 ∧ e.2 < e'.2 := by
  apply pairwise_survey
  rintro before before' s s' ⟨name, i⟩ ⟨name', i'⟩ ⟨between, rfl⟩ h h'
  obtain ⟨hlabel, -, -, rfl⟩ := address?_eq_some_iff.1 h
  obtain ⟨-, -, hnew, rfl⟩ := address?_eq_some_iff.1 h'
  refine ⟨?_, ?_⟩
  · rintro rfl
    apply hnew
    rw [labelNames_append, labelNames_append]
    simp [labelNames, Step.labelName?_eq_some_iff.2 hlabel]
  · simp only [List.length_append, List.length_singleton]
    omega

/-- No repeated label counts twice. -/
theorem nodup_repeats (steps : List FlatStep) : (survey repeat? steps).Nodup := by
  apply pairwise_survey
  rintro before before' s s' ⟨i, block, name⟩ ⟨i', block', name'⟩ ⟨between, rfl⟩ h h'
  obtain ⟨-, -, -, rfl⟩ := repeat?_eq_some_iff.1 h
  obtain ⟨-, -, -, rfl⟩ := repeat?_eq_some_iff.1 h'
  intro heq
  have := congrArg Prod.fst heq
  simp only [List.length_append, List.length_singleton] at this
  omega

end Program

open Program

/-! ### The table of the draft -/

/-- The table of a draft is the one of its steps. -/
def Draft.Tabulates (d : Draft) : Prop :=
  d.labels.entries = survey address? d.steps

/-- Appending a label keeps the table up to date. -/
theorem Draft.Tabulates.label {d : Draft} (h : d.Tabulates) (hd : d.Attentive) {step : Step}
    {name : String} (haction : step.action = .label name) (path : List String)
    (location : Location) : ((d.define name path location).push step path).Tabulates := by
  have hname := Step.labelName?_eq_some_iff.2 haction
  unfold Tabulates at h ⊢
  show _ = survey address? ((d.define name path location).steps ++ _)
  rw [define_steps, survey_concat, ← h]
  simp only [push, define, address?, hname]
  by_cases hseen : name ∈ d.seen
  · rw [if_pos hseen, if_neg fun hnew => hnew.2 ((hd name).1 hseen)]
    exact (List.append_nil _).symm
  · rw [if_neg hseen]
    have hnew : name ∉ labelNames d.steps := fun h => hseen ((hd name).2 h)
    by_cases hpath : path = []
    · -- a label that is in the table has been seen
      have hnone : name ∉ d.labels.names := by
        intro hmem
        obtain ⟨⟨_, i⟩, he, rfl⟩ := List.mem_map.1 hmem
        rw [h] at he
        obtain ⟨i, s, hs, haddress⟩ := mem_survey_iff.1 he
        obtain ⟨hlabel, -, -, -⟩ := address?_eq_some_iff.1 haddress
        exact hnew (List.mem_filterMap.2
          ⟨s, List.mem_of_getElem? hs, Step.labelName?_eq_some_iff.2 hlabel⟩)
      rw [if_pos hpath, if_pos ⟨by rw [hpath]; rfl, hnew⟩]
      exact Table.entries_put hnone
    · rw [if_neg hpath, if_neg fun h => hpath (List.head?_eq_none_iff.1 h.1)]
      exact (List.append_nil _).symm

/-- **The expansion keeps the table up to date.** -/
theorem Blocks.Expansion.tabulates {blocks : Blocks} {path : List String} {entries : List Entry}
    {d d' : Draft} (h : blocks.Expansion path entries d d') (hd : d.Attentive)
    (htable : d.Tabulates) : d'.Tabulates := by
  induction h with
  | nil => exact htable
  | cons hentry _ ih ih' => exact ih' (hentry.attentive hd) (ih hd htable)
  | report _ _ => exact htable
  | label _ haction => exact htable.label hd haction _ _
  | @plain path entry d step _ _ hlabel =>
    unfold Draft.Tabulates at htable ⊢
    show d.labels.entries = survey address? (d.steps ++ [⟨step, path.head?⟩])
    rw [survey_concat, ← htable]
    simp only [address?, hlabel]
    exact (List.append_nil _).symm
  | block _ _ _ _ ih => exact ih hd htable

/-! ### Reported labels -/

/-- The label that an error says came before, with its index and block. -/
def CompileError.repeat? (e : CompileError) : Option (Nat × Option String × String) :=
  match e.fault with
  | .duplicateLabel name => some (e.location.index, e.location.block, name)
  | _ => none

theorem CompileError.repeat?_eq_none {e : CompileError}
    (h : ∀ name, e.fault ≠ .duplicateLabel name) : e.repeat? = none := by
  unfold repeat?
  split
  · exact absurd ‹_› (h _)
  · rfl

/-- An occurrence is reported as a repeated label if it appends one. -/
theorem Occurrence.repeats_errors (o : Occurrence) (blocks : Blocks) :
    (o.errors blocks).filterMap CompileError.repeat?
      = o.own.flatMap fun s => (repeat? o.before s).toList := by
  by_cases hown : o.entry.faults = []
  · obtain ⟨step, hstands⟩ := Entry.faults_eq_nil_iff.1 hown
    rw [errors, faults_of_standsFor hstands]
    rcases haction : step.action with
      _ | _ | _ | _ | _ | _ | name | _ | name | _ | _ | _ | _ | _ | _ | _ | _
    case use =>
      rw [own_of_uses ⟨step, hstands, haction⟩]
      dsimp only
      split
      · rfl
      · split <;> rfl
    case label =>
      rw [own_of_plain hstands (by simp [haction]), List.flatMap_singleton, Program.repeat?,
        Step.labelName?_eq_some_iff.2 haction]
      dsimp only
      split <;> rfl
    all_goals
      rw [own_of_plain hstands (by simp [haction]), List.flatMap_singleton, Program.repeat?]
      simp [Step.labelName?, haction]
  · rw [errors, faults_of_unreadable hown, own_of_forall_not, List.flatMap_nil,
      List.filterMap_eq_nil_iff]
    · intro e he
      obtain ⟨fault, hfault, rfl⟩ := List.mem_map.1 he
      apply CompileError.repeat?_eq_none
      rintro name rfl
      exact absurd (Entry.isIntrinsic_of_mem_faults hfault) Bool.false_ne_true
    · intro step hstands
      exact hown (Entry.faults_eq_nil_iff.2 ⟨step, hstands⟩)

/-- **The repeated labels of a program are those that its occurrences are reported for.** -/
theorem Blocks.repeats_occurrences (blocks : Blocks) (path : List String) (entries : List Entry)
    (trail : List Nat) (position : Nat) (before : List FlatStep) :
    survey repeat? (before ++ blocks.unroll path.toFinset path.head? entries)
      = survey repeat? before ++
        ((blocks.occurrences path trail position before entries).flatMap
          (Occurrence.errors blocks)).filterMap CompileError.repeat? := by
  induction path, entries using blocks.passage generalizing trail position before with
  | nil path => simp [unroll_nil]
  | cons path entry rest ihblock ihrest =>
    rw [unroll_cons, ← List.append_assoc, ihrest trail (position + 1)]
    rcases hopens : blocks.opens? path entry with - | ⟨name, body⟩
    · -- an entry that opens no block appends one step at most
      have hone (o : Occurrence) (ho : o.before = before) : survey repeat? (before ++ o.own)
          = survey repeat? before ++ (o.errors blocks).filterMap CompileError.repeat? := by
        rw [o.repeats_errors, ho]
        rcases o.own_cases with h | ⟨s, h⟩ <;> rw [h]
        · simp
        · rw [survey_concat, List.flatMap_singleton]
      rw [occurrences_of_opens_eq_none hopens, List.flatMap_cons, List.filterMap_append,
        ← List.append_assoc, ← hone _ rfl, ← unroll_of_opens_eq_none hopens]
    · rw [occurrences_of_opens hopens, List.flatMap_cons, errors_of_opens hopens,
        List.flatMap_append, List.nil_append, List.filterMap_append, ← List.append_assoc,
        ← ihblock name body hopens, ← unroll_of_opens hopens]

/-! ### The labels of a program -/

namespace Scenario

/-- What is reported of labels are the repeated ones of the program. -/
theorem repeats_reports (scenario : Scenario) (options : CompileOptions) :
    (scenario.reports options).filterMap CompileError.repeat?
      = survey repeat? (scenario.compile options).program.steps := by
  let p := (scenario.compile options).program
  -- no check of the flat program looks for repeated labels
  have hsemantic {l : List CompileError} (hl : ∀ e ∈ l, e.fault.isStructural = false) :
      l.filterMap CompileError.repeat? = [] := by
    rw [List.filterMap_eq_nil_iff]
    intro e he
    apply CompileError.repeat?_eq_none
    intro name hfault
    have := hl e he
    rw [hfault] at this
    cases this
  have hall : ((scenario.draft options.blocks).errors
      ++ p.dangling options.values options.functions ++ p.unbalanced).filterMap
        CompileError.repeat? = survey repeat? p.steps := by
    have hrepeats := options.blocks.repeats_occurrences [] scenario [] 0 []
    rw [survey_nil, List.nil_append, List.nil_append] at hrepeats
    rw [List.filterMap_append, List.filterMap_append,
      hsemantic fun _ => isStructural_of_mem_dangling,
      hsemantic fun _ => isStructural_of_mem_unbalanced, List.append_nil, List.append_nil,
      errors_draft, scenario.steps_compile options]
    exact hrepeats.symm
  have hnodup := nodup_repeats p.steps
  rw [← hall] at hnodup
  rw [reports_eq]
  exact (filterMap_eraseDups _ _ hnodup).trans hall

/-- The table of labels holds what the steps of the program give. -/
theorem entries_compile (scenario : Scenario) (options : CompileOptions) :
    (scenario.compile options).program.labels.entries
      = survey address? (scenario.compile options).program.steps :=
  (options.blocks.expansion_expand [] 0 scenario {}).tabulates (fun _ => by simp [labelNames]) rfl

/-- The entries of the table have names of their own, and stand in the order of the program. -/
theorem pairwise_entries (scenario : Scenario) (options : CompileOptions) :
    (scenario.compile options).program.labels.entries.Pairwise
      fun e e' => e.1 ≠ e'.1 ∧ e.2 < e'.2 := by
  rw [entries_compile]
  exact pairwise_addresses _

theorem labelIndex?_eq_some_iff (scenario : Scenario) (options : CompileOptions) {name : String}
    {i : Nat} : (scenario.compile options).program.labelIndex? name = some i ↔
      ∃ s, (scenario.compile options).program.steps[i]? = some s ∧
        s.step.action = .label name ∧ s.block = none ∧
        ∀ j t, j < i → (scenario.compile options).program.steps[j]? = some t →
          t.step.action ≠ .label name := by
  rw [labelIndex?, Table.get?_eq_some_iff_of_pairwise
    ((scenario.pairwise_entries options).imp And.left), entries_compile]
  exact mem_addresses_iff

/-- All labels lead to steps of the program. -/
theorem labelIndex?_lt (scenario : Scenario) (options : CompileOptions) {name : String} {i : Nat}
    (h : (scenario.compile options).program.labelIndex? name = some i) :
    i < (scenario.compile options).program.length := by
  obtain ⟨s, hs, -⟩ := (scenario.labelIndex?_eq_some_iff options).1 h
  exact (List.getElem?_eq_some_iff.1 hs).1

/-- **The table of labels is exact**, whatever is wrong with the scenario.  It holds a name exactly
if the first label of that name stands outside of all blocks, and then the index of that label; it
has one entry for each of these names, in the order of the program.  The labels that are reported are
those whose name came before, each once, at its own index and block. -/
theorem labels_exact (scenario : Scenario) (options : CompileOptions) :
    let p := (scenario.compile options).program
    (∀ name i, p.labelIndex? name = some i ↔
      ∃ s, p.steps[i]? = some s ∧ s.step.action = .label name ∧ s.block = none ∧
        ∀ j t, j < i → p.steps[j]? = some t → t.step.action ≠ .label name) ∧
    p.labels.names.Nodup ∧
    (p.labels.entries.map Prod.snd).Pairwise (· < ·) ∧
    (scenario.reports options).filterMap CompileError.repeat? = survey repeat? p.steps := by
  intro p
  have hpairwise := scenario.pairwise_entries options
  refine ⟨fun name i => scenario.labelIndex?_eq_some_iff options, ?_, ?_,
    scenario.repeats_reports options⟩
  · rw [Table.names, List.nodup_iff_pairwise_ne, List.pairwise_map]
    exact hpairwise.imp And.left
  · rw [List.pairwise_map]
    exact hpairwise.imp And.right

end Scenario

end Timeline
