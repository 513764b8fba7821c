/-
Timeline/Proofs/Program/Nesting.lean

Nested conditionals as a grammar.

The check of a program keeps a stack of open conditionals and reports what does not
match.  `Nested` is the language of the words that match, by four productions:

    S  ::=  empty  |  S other  |  S ifThen S ifEnd  |  S ifThen S ifElse S ifEnd

Main result (`Program.unbalanced_eq_nil_iff`): a program has no unmatched brackets
exactly if its brackets are such a word.
-/
import Timeline.Program.Brackets

namespace Timeline

/-- Words of matching brackets; what is no bracket may stand anywhere. -/
inductive Nested : List (Option Bracket) → Prop
  | empty : Nested []
  | other {w : List (Option Bracket)} : Nested w → Nested (w ++ [none])
  | ifThen {w body : List (Option Bracket)} : Nested w → Nested body →
      Nested (w ++ some .opening :: body ++ [some .closing])
  | ifThenElse {w body otherwise : List (Option Bracket)} : Nested w → Nested body →
      Nested otherwise →
      Nested (w ++ some .opening :: body ++ some .divider :: otherwise ++ [some .closing])

namespace Nested

variable {w v : List (Option Bracket)}

theorem append (hw : Nested w) (hv : Nested v) : Nested (w ++ v) := by
  induction hv with
  | empty => rwa [List.append_nil]
  | other _ ih =>
    rw [← List.append_assoc]
    exact ih.other
  | ifThen _ hbody ih _ =>
    have := ih.ifThen hbody
    simpa only [List.append_assoc] using this
  | ifThenElse _ hbody hother ih _ _ =>
    have := ih.ifThenElse hbody hother
    simpa only [List.append_assoc] using this

end Nested

/-- Words that close some open conditionals, the innermost first, and leave none open; of every
open conditional it is known whether it is divided already. -/
inductive Closes : List Bool → List (Option Bracket) → Prop
  | rest {w : List (Option Bracket)} : Nested w → Closes [] w
  | closing {divided : Bool} {outer : List Bool} {w v : List (Option Bracket)} : Nested w →
      Closes outer v → Closes (divided :: outer) (w ++ some .closing :: v)
  | divider {outer : List Bool} {w v : List (Option Bracket)} : Nested w →
      Closes (true :: outer) v → Closes (false :: outer) (w ++ some .divider :: v)

namespace Closes

variable {outer : List Bool} {w v : List (Option Bracket)}

/-- Brackets that match may come first. -/
theorem prepend (h : Closes outer v) (hw : Nested w) : Closes outer (w ++ v) := by
  cases h with
  | rest hv => exact .rest (hw.append hv)
  | closing hu hv =>
    rw [← List.append_assoc]
    exact .closing (hw.append hu) hv
  | divider hu hv =>
    rw [← List.append_assoc]
    exact .divider (hw.append hu) hv

/-- A conditional that opens is closed by what closes it as the innermost one. -/
theorem opening (h : Closes (false :: outer) v) : Closes outer (some .opening :: v) := by
  cases h with
  | closing hbody hv =>
    have hnested := Nested.empty.ifThen hbody
    simpa only [List.nil_append, List.cons_append, List.append_assoc] using hv.prepend hnested
  | divider hbody hv =>
    cases hv with
    | closing hother hv =>
      have hnested := Nested.empty.ifThenElse hbody hother
      simpa only [List.nil_append, List.cons_append, List.append_assoc] using hv.prepend hnested

end Closes

namespace Program

/-- The brackets of some steps. -/
def brackets (steps : List FlatStep) : List (Option Bracket) :=
  steps.map fun s => s.step.bracket?

/-- What the check accepts closes all open conditionals. -/
theorem closes_of_checkBrackets {index : Nat} {steps : List FlatStep} {pending : List OpenIf}
    (h : checkBrackets index steps pending = []) :
    Closes (pending.map OpenIf.divided) (brackets steps) := by
  -- what is open grows and shrinks along the steps, so the claim is about any that are
  induction steps generalizing index pending with
  | nil =>
    obtain rfl : pending = [] := by simpa [checkBrackets] using h
    exact .rest .empty
  | cons s rest ih =>
    rw [brackets, List.map_cons]
    rcases hb : s.step.bracket? with - | ⟨- | - | -⟩ <;> simp only [checkBrackets, hb] at h
    · exact (ih h).prepend Nested.empty.other
    · exact (ih h).opening
    · rcases pending with - | ⟨o, outer⟩
      · cases h
      · rcases hdivided : o.divided with - | -
        · simp only [hdivided] at h
          rw [List.map_cons, hdivided]
          exact .divider .empty (ih h)
        · simp [hdivided] at h
    · rcases pending with - | ⟨o, outer⟩
      · cases h
      · exact .closing .empty (ih h)

/-- The check passes over brackets that match, whatever is open. -/
theorem checkBrackets_append_of_nested {w : List (Option Bracket)} (h : Nested w)
    {steps : List FlatStep} (hsteps : brackets steps = w) (rest : List FlatStep) (index : Nat)
    (pending : List OpenIf) :
    checkBrackets index (steps ++ rest) pending
      = checkBrackets (index + steps.length) rest pending := by
  induction h generalizing steps rest index pending with
  | empty =>
    obtain rfl := List.map_eq_nil_iff.1 hsteps
    rfl
  | other _ ih =>
    obtain ⟨before, last, rfl, hbefore, hlast⟩ := List.map_eq_append_iff.1 hsteps
    obtain ⟨s, rfl, hs⟩ := List.map_eq_singleton_iff.1 hlast
    rw [List.append_assoc, ih hbefore, List.length_append, ← Nat.add_assoc]
    simp only [List.cons_append, List.nil_append, checkBrackets, hs, List.length_singleton]
  | ifThen _ _ ih ihbody =>
    -- the body is passed over while its own conditional is the innermost one
    obtain ⟨inner, last, rfl, hinner, hlast⟩ := List.map_eq_append_iff.1 hsteps
    obtain ⟨before, inner, rfl, hbefore, hinner⟩ := List.map_eq_append_iff.1 hinner
    obtain ⟨first, body, rfl, hfirst, hbody⟩ := List.map_eq_cons_iff.1 hinner
    obtain ⟨s, rfl, hs⟩ := List.map_eq_singleton_iff.1 hlast
    simp only [List.append_assoc, List.cons_append, List.nil_append]
    rw [ih hbefore]
    simp only [checkBrackets, hfirst]
    rw [ihbody hbody]
    simp only [checkBrackets, hs, List.length_append, List.length_cons, List.length_nil]
    congr 1
    omega
  | ifThenElse _ _ _ ih ihbody ihother =>
    -- and so is the other branch, once that conditional is divided
    obtain ⟨inner, last, rfl, hinner, hlast⟩ := List.map_eq_append_iff.1 hsteps
    obtain ⟨inner, other, rfl, hinner, hother⟩ := List.map_eq_append_iff.1 hinner
    obtain ⟨before, inner, rfl, hbefore, hinner⟩ := List.map_eq_append_iff.1 hinner
    obtain ⟨first, body, rfl, hfirst, hbody⟩ := List.map_eq_cons_iff.1 hinner
    obtain ⟨middle, other, rfl, hmiddle, hother⟩ := List.map_eq_cons_iff.1 hother
    obtain ⟨s, rfl, hs⟩ := List.map_eq_singleton_iff.1 hlast
    simp only [List.append_assoc, List.cons_append, List.nil_append]
    rw [ih hbefore]
    simp only [checkBrackets, hfirst]
    rw [ihbody hbody]
    simp only [checkBrackets, hmiddle]
    rw [if_neg (by simp), ihother hother]
    simp only [checkBrackets, hs, List.length_append, List.length_cons, List.length_nil]
    congr 1
    omega

/-- **The brackets of a program match exactly if the grammar derives them.** -/
theorem unbalanced_eq_nil_iff {p : Program} : p.unbalanced = [] ↔ Nested (brackets p.steps) := by
  constructor
  · intro h
    cases closes_of_checkBrackets h with
    | rest hnested => exact hnested
  · intro h
    have hpass := checkBrackets_append_of_nested h rfl [] 0 []
    rw [List.append_nil] at hpass
    rw [unbalanced, hpass]
    rfl

end Program

end Timeline
