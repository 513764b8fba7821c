/-
Timeline/Proofs/Program/Occurrences.lean

The entries that are met while a scenario is expanded, one after the other.

An entry of a block is met once for every expansion of that block.  An `Occurrence`
is an entry with all that the place of its meeting is known by: the blocks that are
open, the positions that lead there, and the steps that were appended before.
`Blocks.occurrences` lists all of them.

Main results: the errors of an expansion are those of its occurrences, in order
(`Blocks.errors_expand`); whatever is appended is appended by occurrences in their turn
(`Blocks.inTurn_occurrences`); and no two occurrences have the same address
(`Blocks.nodup_addresses`).  The inductions are on the way in which the expansion passes
through blocks (`Blocks.passage`), or on how an occurrence is met (`Blocks.Occurs`).
-/
import Timeline.Proofs.Program.Acceptance

namespace Timeline

open Program

/-! ### Blocks that are opened -/

/-- The block that an entry uses. -/
def Entry.uses? (entry : Entry) : Option String :=
  match entry.step? with
  | some ⟨.use name, _⟩ => some name
  | _ => none

theorem Entry.uses?_eq_some_iff {entry : Entry} {name : String} :
    entry.uses? = some name ↔ entry.Uses name := by
  simp only [Uses, ← step?_eq_some_iff]
  unfold uses?
  constructor
  · intro h
    split at h
    · rename_i hstep
      cases h
      exact ⟨_, hstep, rfl⟩
    · cases h
  · rintro ⟨⟨action, given⟩, hstep, rfl⟩
    rw [hstep]

namespace Blocks

variable {blocks : Blocks} {path : List String} {entry : Entry} {name : String} {body : Scenario}

/-- The block that an entry opens: it uses that block, which is a registered one and not open. -/
def opens? (blocks : Blocks) (path : List String) (entry : Entry) : Option (String × Scenario) :=
  match entry.uses? with
  | some name => if name ∈ path then none else (blocks.get? name).map fun body => (name, body)
  | none => none

theorem opens?_eq_some_iff : blocks.opens? path entry = some (name, body) ↔
    entry.Uses name ∧ name ∉ path ∧ blocks.get? name = some body := by
  simp only [← Entry.uses?_eq_some_iff]
  unfold opens?
  rcases entry.uses? with - | used
  · simp
  · dsimp only
    split
    · rename_i hopen
      simp only [Option.some.injEq, false_iff, reduceCtorEq]
      rintro ⟨rfl, hnot, -⟩
      exact hnot hopen
    · rename_i hopen
      simp only [Option.map_eq_some_iff, Prod.mk.injEq, Option.some.injEq]
      constructor
      · rintro ⟨body, hfound, rfl, rfl⟩
        exact ⟨rfl, hopen, hfound⟩
      · rintro ⟨rfl, -, hfound⟩
        exact ⟨body, hfound, rfl, rfl⟩

/-- An entry that opens a block is expanded to it. -/
theorem expandEntry_of_opens {position : Nat} {d : Draft}
    (h : blocks.opens? path entry = some (name, body)) :
    blocks.expandEntry path position entry d = blocks.expand (name :: path) 0 body d := by
  obtain ⟨⟨step, ⟨hread, hshaped⟩, haction⟩, hopen, hfound⟩ := opens?_eq_some_iff.1 h
  have hfaults := Step.shapeFaults_eq_nil_iff.2 hshaped
  simp [expandEntry, hread, hfaults, haction, hopen, hfound]

/-- **How the expansion passes through blocks.**  Entries are taken one after the other, and every
one may open a block that is not open; there is no other way to go on for ever. -/
theorem passage (blocks : Blocks) {P : List String → List Entry → Prop}
    (nil : ∀ path, P path [])
    (cons : ∀ path entry rest,
      (∀ name body, blocks.opens? path entry = some (name, body) → P (name :: path) body) →
      P path rest → P path (entry :: rest))
    (path : List String) (entries : List Entry) : P path entries := by
  match entries with
  | [] => exact nil path
  | entry :: rest =>
    refine cons path entry rest ?_ (passage blocks nil cons path rest)
    intro name body hopens
    exact passage blocks nil cons (name :: path) body
termination_by (blocks.closed path, entries.length)
decreasing_by
  · obtain ⟨-, hopen, hfound⟩ := opens?_eq_some_iff.1 hopens
    exact .left _ _ (closed_cons_lt hopen (Table.mem_names_of_get? hfound))
  · exact .right _ (by simp)

end Blocks

/-- The labels that a draft has seen are those of its steps. -/
def Draft.Attentive (d : Draft) : Prop :=
  ∀ label, label ∈ d.seen ↔ label ∈ labelNames d.steps

/-- Defining a label reports a name that was seen. -/
theorem Draft.errors_define_eq (d : Draft) (name : String) (path : List String)
    (location : Location) : (d.define name path location).errors
      = d.errors ++ (if name ∈ d.seen then [.duplicateLabel name] else []).map
          fun fault => ⟨location, fault⟩ := by
  unfold define
  split
  · rfl
  · dsimp only
    split <;> exact (List.append_nil _).symm

/-! ### Occurrences -/

/-- An entry that is met while a scenario is expanded. -/
structure Occurrence where
  /-- The steps that were appended before. -/
  before : List FlatStep
  /-- The names of the open blocks, the innermost first. -/
  path : List String
  /-- The positions of the entries that opened these blocks. -/
  trail : List Nat
  /-- The position of the entry in its scenario or block. -/
  position : Nat
  entry : Entry

namespace Occurrence

/-- The positions that lead to an occurrence, its own first. -/
def address (o : Occurrence) : List Nat :=
  o.position :: o.trail

/-- Where an occurrence is found. -/
def location (o : Occurrence) : Location :=
  ⟨o.before.length, o.path.head?, some o.position⟩

/-- The step that an occurrence appends by itself; what stands in a block that it opens is
appended by other occurrences. -/
def own (o : Occurrence) : List FlatStep :=
  match o.entry.uses? with
  | some _ => []
  | none => o.entry.step?.toList.map fun step => ⟨step, o.path.head?⟩

/-- What is wrong with an occurrence. -/
def faults (blocks : Blocks) (o : Occurrence) : List Fault :=
  match o.entry.read with
  | .error fault => [fault]
  | .ok step =>
    if step.shapeFaults ≠ [] then step.shapeFaults
    else
      match step.action with
      | .use name =>
        if name ∈ o.path then [.circularBlock name]
        else if blocks.contains name then [] else [.blockNotFound name]
      | .label name => if name ∈ labelNames o.before then [.duplicateLabel name] else []
      | _ => []

/-- The errors of an occurrence. -/
def errors (blocks : Blocks) (o : Occurrence) : List CompileError :=
  (o.faults blocks).map fun fault => ⟨o.location, fault⟩

/-- An occurrence is left without a trace in the program: it appends no step, and opens no
block. -/
def Vanishes (blocks : Blocks) (o : Occurrence) : Prop :=
  o.own = [] ∧ blocks.opens? o.path o.entry = none

variable {o : Occurrence}

/-- A step other than `use` is appended. -/
theorem own_of_plain {step : Step} (hstands : o.entry.StandsFor step)
    (hplain : ∀ name, step.action ≠ .use name) : o.own = [⟨step, o.path.head?⟩] := by
  have huses : o.entry.uses? = none := by
    rcases huses : o.entry.uses? with - | name
    · rfl
    · obtain ⟨step', hstands', haction⟩ := Entry.uses?_eq_some_iff.1 huses
      obtain rfl := hstands.unique hstands'
      exact absurd haction (hplain name)
  simp only [own, huses, Entry.step?_eq_some_iff.2 hstands]
  rfl

/-- Nothing is appended for a use. -/
theorem own_of_uses {name : String} (huses : o.entry.Uses name) : o.own = [] := by
  simp only [own, Entry.uses?_eq_some_iff.2 huses]

/-- Nothing is appended for what stands for no step. -/
theorem own_of_forall_not (h : ∀ step, ¬o.entry.StandsFor step) : o.own = [] := by
  have hstep : o.entry.step? = none := by
    rcases hstep : o.entry.step? with - | step
    · rfl
    · exact absurd (Entry.step?_eq_some_iff.1 hstep) (h step)
  unfold own
  rw [hstep]
  split <;> rfl

/-- An occurrence appends one step at most. -/
theorem own_cases (o : Occurrence) : o.own = [] ∨ ∃ s, o.own = [s] := by
  unfold own
  split
  · exact .inl rfl
  · rcases o.entry.step? with - | step
    · exact .inl rfl
    · exact .inr ⟨_, rfl⟩

/-- Some occurrences come in their turn: what stands before each of them is what was appended until
then. -/
def InTurn : List FlatStep → List Occurrence → Prop
  | _, [] => True
  | before, o :: rest => o.before = before ∧ InTurn (before ++ o.own) rest

theorem inTurn_append {before : List FlatStep} {l l' : List Occurrence} :
    InTurn before (l ++ l') ↔ InTurn before l ∧ InTurn (before ++ l.flatMap own) l' := by
  induction l generalizing before with
  | nil => simp [InTurn]
  | cons o rest ih =>
    simp only [List.cons_append, InTurn, ih, List.flatMap_cons, List.append_assoc, and_assoc]

/-- What stands before an occurrence was appended by those before it. -/
theorem InTurn.before_eq {before : List FlatStep} {l : List Occurrence} {i : Nat}
    (h : InTurn before l) (ho : l[i]? = some o) :
    o.before = before ++ (l.take i).flatMap own := by
  induction l generalizing before i with
  | nil => cases ho
  | cons first rest ih =>
    rcases i with - | i
    · cases ho
      rw [h.1]
      exact (List.append_nil _).symm
    · rw [ih h.2 ho, List.take_succ_cons, List.flatMap_cons, List.append_assoc]

end Occurrence

namespace Blocks

/-- The occurrences of some entries from a position on, in the order in which they are met. -/
def occurrences (blocks : Blocks) (path : List String) (trail : List Nat) (position : Nat)
    (before : List FlatStep) : List Entry → List Occurrence
  | [] => []
  | entry :: rest =>
    let inside := match _opens : blocks.opens? path entry with
      | some (name, body) => blocks.occurrences (name :: path) (position :: trail) 0 before body
      | none => []
    ⟨before, path, trail, position, entry⟩ :: (inside ++
      blocks.occurrences path trail (position + 1)
        (before ++ blocks.unroll path.toFinset path.head? [entry]) rest)
termination_by entries => (blocks.closed path, entries.length)
decreasing_by
  · obtain ⟨-, hopen, hfound⟩ := opens?_eq_some_iff.1 _opens
    exact .left _ _ (closed_cons_lt hopen (Table.mem_names_of_get? hfound))
  · exact .right _ (by simp)

variable {blocks : Blocks} {path : List String} {trail : List Nat} {position : Nat}
  {before : List FlatStep} {entry : Entry} {entries rest : List Entry} {name : String}
  {body : Scenario} {o o' : Occurrence}

@[simp] theorem occurrences_nil : blocks.occurrences path trail position before [] = [] := by
  rw [occurrences]

theorem occurrences_of_opens (h : blocks.opens? path entry = some (name, body)) :
    blocks.occurrences path trail position before (entry :: rest)
      = ⟨before, path, trail, position, entry⟩ ::
        (blocks.occurrences (name :: path) (position :: trail) 0 before body ++
          blocks.occurrences path trail (position + 1)
            (before ++ blocks.unroll path.toFinset path.head? [entry]) rest) := by
  rw [occurrences]
  congr 2
  split
  · rename_i h'
    cases h.symm.trans h'
    rfl
  · rename_i h'
    cases h.symm.trans h'

theorem occurrences_of_opens_eq_none (h : blocks.opens? path entry = none) :
    blocks.occurrences path trail position before (entry :: rest)
      = ⟨before, path, trail, position, entry⟩ ::
        blocks.occurrences path trail (position + 1)
          (before ++ blocks.unroll path.toFinset path.head? [entry]) rest := by
  rw [occurrences]
  congr 1
  split
  · rename_i h'
    cases h.symm.trans h'
  · rfl

/-- How an occurrence is met: it is the first of the entries, or stands in the block that this one
opens, or is met later. -/
inductive Occurs (blocks : Blocks) : List String → List Nat → Nat → List FlatStep → List Entry →
    Occurrence → Prop
  | here {path : List String} {trail : List Nat} {position : Nat} {before : List FlatStep}
      {entry : Entry} {rest : List Entry} :
      Occurs blocks path trail position before (entry :: rest)
        ⟨before, path, trail, position, entry⟩
  | inside {path : List String} {trail : List Nat} {position : Nat} {before : List FlatStep}
      {entry : Entry} {rest : List Entry} {name : String} {body : Scenario} {o : Occurrence} :
      blocks.opens? path entry = some (name, body) →
      Occurs blocks (name :: path) (position :: trail) 0 before body o →
      Occurs blocks path trail position before (entry :: rest) o
  | later {path : List String} {trail : List Nat} {position : Nat} {before : List FlatStep}
      {entry : Entry} {rest : List Entry} {o : Occurrence} :
      Occurs blocks path trail (position + 1)
        (before ++ blocks.unroll path.toFinset path.head? [entry]) rest o →
      Occurs blocks path trail position before (entry :: rest) o

/-- The occurrences are listed completely. -/
theorem mem_occurrences_iff : o ∈ blocks.occurrences path trail position before entries ↔
    blocks.Occurs path trail position before entries o := by
  constructor
  · intro h
    induction path, entries using blocks.passage generalizing trail position before with
    | nil path =>
      rw [occurrences_nil] at h
      cases h
    | cons path entry rest ihblock ihrest =>
      rcases hopens : blocks.opens? path entry with - | ⟨name, body⟩
      · rw [occurrences_of_opens_eq_none hopens] at h
        rcases List.mem_cons.1 h with rfl | h
        · exact .here
        · exact .later (ihrest h)
      · rw [occurrences_of_opens hopens] at h
        rcases List.mem_cons.1 h with rfl | h
        · exact .here
        · rcases List.mem_append.1 h with h | h
          · exact .inside hopens (ihblock name body hopens h)
          · exact .later (ihrest h)
  · intro h
    induction h with
    | @here path _ _ entry =>
      rw [occurrences]
      exact List.mem_cons_self
    | inside hopens _ ih =>
      rw [occurrences_of_opens hopens]
      exact List.mem_cons_of_mem _ (List.mem_append_left _ ih)
    | later _ ih =>
      rw [occurrences]
      exact List.mem_cons_of_mem _ (List.mem_append_right _ ih)

/-! ### What an occurrence does by itself -/

/-- An entry that opens a block stands for what is in the block. -/
theorem unroll_of_opens (h : blocks.opens? path entry = some (name, body)) :
    blocks.unroll path.toFinset path.head? [entry]
      = blocks.unroll (name :: path).toFinset (name :: path).head? body := by
  obtain ⟨huses, hopen, hfound⟩ := opens?_eq_some_iff.1 h
  exact unroll_block huses hopen hfound

/-- All other entries stand for what they append by themselves. -/
theorem unroll_of_opens_eq_none (h : blocks.opens? path entry = none) :
    blocks.unroll path.toFinset path.head? [entry]
      = (⟨before, path, trail, position, entry⟩ : Occurrence).own := by
  have hunroll := blocks.unrolls_unroll
  rcases blocks.admits_cases path.toFinset entry with hout | ⟨step, hstands, hplain⟩ |
    ⟨name, body, huses, hopen, hfound⟩
  · rw [hunroll.leftOut hout]
    symm
    by_cases hstands : ∃ step, entry.StandsFor step
    · obtain ⟨step, hstands⟩ := hstands
      -- a step that is no use would have been admitted
      have huse : ¬∀ name, step.action ≠ .use name :=
        fun hplain => hout ⟨step, hstands, fun name haction => absurd haction (hplain name)⟩
      simp only [not_forall, not_not] at huse
      obtain ⟨name, haction⟩ := huse
      exact Occurrence.own_of_uses ⟨step, hstands, haction⟩
    · exact Occurrence.own_of_forall_not (not_exists.1 hstands)
  · rw [hunroll.own hstands hplain]
    exact (Occurrence.own_of_plain (o := ⟨before, path, trail, position, entry⟩) hstands
      hplain).symm
  · rw [List.mem_toFinset] at hopen
    rw [opens?_eq_some_iff.2 ⟨huses, hopen, hfound⟩] at h
    cases h

/-- What opens a block appends nothing by itself. -/
theorem own_of_opens (h : blocks.opens? path entry = some (name, body)) :
    (⟨before, path, trail, position, entry⟩ : Occurrence).own = [] :=
  Occurrence.own_of_uses (opens?_eq_some_iff.1 h).1

/-- Nothing is wrong with what opens a block. -/
theorem errors_of_opens (h : blocks.opens? path entry = some (name, body)) :
    (⟨before, path, trail, position, entry⟩ : Occurrence).errors blocks = [] := by
  obtain ⟨⟨step, ⟨hread, hshaped⟩, haction⟩, hopen, hfound⟩ := opens?_eq_some_iff.1 h
  have hfaults := Step.shapeFaults_eq_nil_iff.2 hshaped
  simp [Occurrence.errors, Occurrence.faults, hread, hfaults, haction, hopen, Table.contains, hfound]

/-! ### The errors of an expansion -/

variable {d d' : Draft}

theorem Expansion.attentive (h : blocks.Expansion path entries d d') (hd : d.Attentive) :
    d'.Attentive := by
  intro label
  rw [h.mem_seen, h.steps, labelNames_append, List.mem_append, hd label]

/-- The expansion of one entry. -/
theorem expansion_single (blocks : Blocks) (path : List String) (position : Nat) (entry : Entry)
    (d : Draft) :
    blocks.Expansion path [entry] d (blocks.expandEntry path position entry d) := by
  apply expansion_expandEntry
  intro name body _ _
  exact expansion_expand (name :: path) 0 body d

/-- An entry that opens no block is reported for what is wrong with it. -/
theorem errors_expandEntry (h : blocks.opens? path entry = none) (hd : d.Attentive) :
    (blocks.expandEntry path position entry d).errors
      = d.errors ++ (⟨d.steps, path, trail, position, entry⟩ : Occurrence).errors blocks := by
  unfold expandEntry Occurrence.errors Occurrence.faults
  rcases hread : entry.read with fault | step
  · rfl
  · dsimp only
    split
    · rfl
    · rename_i hfaults
      have hstands : entry.StandsFor step :=
        ⟨hread, Step.shapeFaults_eq_nil_iff.1 (not_not.1 hfaults)⟩
      rcases haction : step.action with
        _ | _ | _ | _ | _ | _ | name | _ | name | _ | _ | _ | _ | _ | _ | _ | _
      case use =>
        dsimp only
        by_cases hopen : name ∈ path
        · simp only [hopen, if_true]
          rfl
        · simp only [hopen, if_false]
          rcases hfound : blocks.get? name with - | body
          · simp only [Table.contains, hfound]
            rfl
          · rw [opens?_eq_some_iff.2 ⟨⟨step, hstands, haction⟩, hopen, hfound⟩] at h
            cases h
      case label =>
        dsimp only [Draft.push]
        rw [Draft.errors_define_eq]
        by_cases hseen : name ∈ d.seen
        · rw [if_pos hseen, if_pos ((hd name).1 hseen)]
          rfl
        · rw [if_neg hseen, if_neg (hseen ∘ (hd name).2)]
          rfl
      all_goals exact (List.append_nil _).symm

/-- **The errors of an expansion are those of its occurrences**, in the order in which they are
met. -/
theorem errors_expand (blocks : Blocks) (path : List String) (entries : List Entry)
    (trail : List Nat) (position : Nat) {d : Draft} (hd : d.Attentive) :
    (blocks.expand path position entries d).errors = d.errors ++
      (blocks.occurrences path trail position d.steps entries).flatMap
        (Occurrence.errors blocks) := by
  induction path, entries using blocks.passage generalizing trail position d with
  | nil path => rw [expand_nil, occurrences_nil, List.flatMap_nil, List.append_nil]
  | cons path entry rest ihblock ihrest =>
    have hentry := blocks.expansion_single path position entry d
    rw [expand_cons, ihrest trail (position + 1) (hentry.attentive hd), hentry.steps]
    rcases hopens : blocks.opens? path entry with - | ⟨name, body⟩
    · rw [errors_expandEntry hopens hd, occurrences_of_opens_eq_none hopens, List.flatMap_cons,
        List.append_assoc]
    · rw [expandEntry_of_opens hopens, ihblock name body hopens (position :: trail) 0 hd,
        occurrences_of_opens hopens, List.flatMap_cons, errors_of_opens hopens,
        List.flatMap_append, List.nil_append, List.append_assoc]

/-! ### The order of occurrences -/

/-- **Entries stand for what their occurrences append**, and these do so in their turn. -/
theorem inTurn_occurrences (blocks : Blocks) (path : List String) (entries : List Entry)
    (trail : List Nat) (position : Nat) (before : List FlatStep) :
    Occurrence.InTurn before (blocks.occurrences path trail position before entries) ∧
      (blocks.occurrences path trail position before entries).flatMap Occurrence.own
        = blocks.unroll path.toFinset path.head? entries := by
  induction path, entries using blocks.passage generalizing trail position before with
  | nil path =>
    rw [occurrences_nil, unroll_nil]
    exact ⟨trivial, rfl⟩
  | cons path entry rest ihblock ihrest =>
    rw [unroll_cons entry rest]
    obtain ⟨hrest, hsteps⟩ := ihrest trail (position + 1)
      (before ++ blocks.unroll path.toFinset path.head? [entry])
    rcases hopens : blocks.opens? path entry with - | ⟨name, body⟩
    · have hunroll : blocks.unroll path.toFinset path.head? [entry]
          = (⟨before, path, trail, position, entry⟩ : Occurrence).own :=
        unroll_of_opens_eq_none hopens
      rw [occurrences_of_opens_eq_none hopens, List.flatMap_cons, hsteps]
      rw [hunroll] at hrest ⊢
      exact ⟨⟨rfl, hrest⟩, rfl⟩
    · obtain ⟨hinside, hblock⟩ := ihblock name body hopens (position :: trail) 0 before
      rw [occurrences_of_opens hopens, List.flatMap_cons, own_of_opens hopens, List.nil_append,
        List.flatMap_append, hblock, hsteps, unroll_of_opens hopens]
      refine ⟨⟨rfl, ?_⟩, rfl⟩
      rw [own_of_opens hopens, List.append_nil, Occurrence.inTurn_append, hblock,
        ← unroll_of_opens hopens]
      exact ⟨hinside, hrest⟩

/-! ### Addresses -/

/-- The addresses of what is met of some entries: behind the position of one of them stands what
led to it. -/
theorem Occurs.address (h : blocks.Occurs path trail position before entries o) :
    ∃ inner turn, o.address = inner ++ turn :: trail ∧ position ≤ turn := by
  induction h with
  | @here _ _ position => exact ⟨[], position, rfl, Nat.le_refl _⟩
  | @inside _ _ position _ _ _ _ _ _ _ _ ih =>
    obtain ⟨inner, next, haddress, -⟩ := ih
    refine ⟨inner ++ [next], position, ?_, Nat.le_refl _⟩
    rw [haddress, List.append_assoc, List.singleton_append]
  | later _ ih =>
    obtain ⟨inner, next, haddress, hle⟩ := ih
    exact ⟨inner, next, haddress, by omega⟩

theorem position_eq_of_append {inner inner' trail : List Nat} {turn turn' : Nat}
    (h : inner ++ turn :: trail = inner' ++ turn' :: trail) : turn = turn' := by
  have hlength : (turn :: trail).length = (turn' :: trail).length := rfl
  exact (List.cons.inj (List.append_inj_right' h hlength)).1

/-- **Every occurrence has an address of its own.** -/
theorem nodup_addresses (blocks : Blocks) (path : List String) (entries : List Entry)
    (trail : List Nat) (position : Nat) (before : List FlatStep) :
    ((blocks.occurrences path trail position before entries).map Occurrence.address).Nodup := by
  induction path, entries using blocks.passage generalizing trail position before with
  | nil path =>
    rw [occurrences_nil]
    exact .nil
  | cons path entry rest ihblock ihrest =>
    -- the address of whatever comes later ends in a later turn
    have hrest : ∀ o ∈ blocks.occurrences path trail (position + 1)
        (before ++ blocks.unroll path.toFinset path.head? [entry]) rest,
        ∀ inner, o.address ≠ inner ++ position :: trail := by
      intro o ho inner heq
      obtain ⟨inner', turn, haddress, hle⟩ := (mem_occurrences_iff.1 ho).address
      have := position_eq_of_append (heq.symm.trans haddress)
      omega
    rcases hopens : blocks.opens? path entry with - | ⟨name, body⟩
    · rw [occurrences_of_opens_eq_none hopens, List.map_cons, List.nodup_cons]
      refine ⟨?_, ihrest _ _ _⟩
      intro hmem
      obtain ⟨o, ho, haddress⟩ := List.mem_map.1 hmem
      exact hrest o ho [] haddress
    · -- the address of whatever is inside is longer
      have hinside : ∀ o ∈ blocks.occurrences (name :: path) (position :: trail) 0 before body,
          ∃ inner, o.address = inner ++ position :: trail ∧ inner ≠ [] := by
        intro o ho
        obtain ⟨inner, turn, haddress, -⟩ := (mem_occurrences_iff.1 ho).address
        refine ⟨inner ++ [turn], ?_, by simp⟩
        rw [haddress, List.append_assoc, List.singleton_append]
      rw [occurrences_of_opens hopens, List.map_cons, List.map_append, List.nodup_cons,
        List.nodup_append']
      refine ⟨?_, ihblock name body hopens _ _ _, ihrest _ _ _, ?_⟩
      · intro hmem
        rcases List.mem_append.1 hmem with hmem | hmem
        · obtain ⟨o, ho, haddress⟩ := List.mem_map.1 hmem
          obtain ⟨inner, hinner, hne⟩ := hinside o ho
          exact hne (List.self_eq_append_left.1 (haddress.symm.trans hinner))
        · obtain ⟨o, ho, haddress⟩ := List.mem_map.1 hmem
          exact hrest o ho [] haddress
      · intro address hmem hmem'
        obtain ⟨o, ho, rfl⟩ := List.mem_map.1 hmem
        obtain ⟨o', ho', haddress⟩ := List.mem_map.1 hmem'
        obtain ⟨inner, hinner, -⟩ := hinside o ho
        exact hrest o' ho' inner (haddress.trans hinner)

/-- Where an occurrence comes from: it is one of the entries, or one of those of the innermost
block. -/
theorem Occurs.source (h : blocks.Occurs path trail position before entries o) :
    (o.path = path ∧ o.trail = trail ∧ ∃ i, o.position = position + i ∧
      entries[i]? = some o.entry) ∨
    ∃ name body, o.path.head? = some name ∧ blocks.get? name = some body ∧
      body[o.position]? = some o.entry := by
  induction h with
  | here => exact .inl ⟨rfl, rfl, 0, rfl, rfl⟩
  | @inside _ _ _ _ _ _ name body _ hopens _ ih =>
    right
    rcases ih with ⟨hpath, -, i, hi, hentry⟩ | hsource
    · refine ⟨name, body, by rw [hpath]; rfl, (opens?_eq_some_iff.1 hopens).2.2, ?_⟩
      rwa [hi, Nat.zero_add]
    · exact hsource
  | later _ ih =>
    refine ih.imp_left ?_
    rintro ⟨hpath, htrail, i, hi, hentry⟩
    exact ⟨hpath, htrail, i + 1, by omega, hentry⟩

end Blocks

/-- All entries that are met when a scenario is expanded, in order. -/
def Scenario.occurrences (scenario : Scenario) (blocks : Blocks) : List Occurrence :=
  blocks.occurrences [] [] 0 [] scenario

namespace Scenario

/-- The errors of the draft of a scenario are those of its occurrences. -/
theorem errors_draft (scenario : Scenario) (blocks : Blocks) :
    (scenario.draft blocks).errors
      = (scenario.occurrences blocks).flatMap (Occurrence.errors blocks) :=
  blocks.errors_expand [] scenario [] 0 fun _ => by simp [labelNames]

end Scenario

end Timeline
