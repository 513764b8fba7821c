/-
Timeline/Program/Brackets.lean

Conditionals as brackets: `ifThen` opens one, `ifElse` divides it and `ifEnd`
closes it.  A program is balanced when no bracket is left over and every
conditional is divided once at most.

A branch that is not taken is skipped without looking at the brackets before it,
by counting the conditionals that open and close on the way.
-/
import Timeline.Program.References

namespace Timeline

/-- A bracket. -/
inductive Bracket where
  | opening
  | divider
  | closing
deriving DecidableEq, Repr

/-- The bracket that a step is. -/
def Step.bracket? (s : Step) : Option Bracket :=
  match s.action with
  | .ifThen _ => some .opening
  | .ifElse => some .divider
  | .ifEnd => some .closing
  | _ => none

/-! ### Balance -/

/-- A conditional that is not closed yet. -/
structure OpenIf where
  location : Location
  divided : Bool
deriving DecidableEq, Repr

namespace Program

/-- Check the steps from an index on; `pending` holds the open conditionals, the innermost
first. -/
def checkBrackets : Nat → List FlatStep → List OpenIf → List CompileError
  | _, [], pending => pending.reverse.map fun o => ⟨o.location, .unclosedIf⟩
  | index, s :: rest, pending =>
    let location := s.locate index
    match s.step.bracket?, pending with
    | none, pending => checkBrackets (index + 1) rest pending
    | some .opening, pending => checkBrackets (index + 1) rest (⟨location, false⟩ :: pending)
    | some .divider, [] => ⟨location, .unmatchedElse⟩ :: checkBrackets (index + 1) rest []
    | some .divider, o :: outer =>
      if o.divided then ⟨location, .duplicateElse⟩ :: checkBrackets (index + 1) rest (o :: outer)
      else checkBrackets (index + 1) rest ({ o with divided := true } :: outer)
    | some .closing, [] => ⟨location, .unmatchedEnd⟩ :: checkBrackets (index + 1) rest []
    | some .closing, _ :: outer => checkBrackets (index + 1) rest outer

/-- The brackets of a program that do not match. -/
def unbalanced (p : Program) : List CompileError :=
  checkBrackets 0 p.steps []

/-! ### Skipping a branch -/

/-- The index after the bracket that ends a branch, given the steps from `index` on and the number
of conditionals that opened on the way.  A divider ends the branch too if `atElse` is set; without
an end the branch reaches to the end of the program. -/
def branchEnd (atElse : Bool) : Nat → List FlatStep → Nat → Nat
  | index, [], _ => index
  | index, s :: rest, depth =>
    match s.step.bracket?, depth with
    | some .opening, depth => branchEnd atElse (index + 1) rest (depth + 1)
    | some .divider, 0 => if atElse then index + 1 else branchEnd atElse (index + 1) rest 0
    | some .closing, 0 => index + 1
    | some .closing, depth + 1 => branchEnd atElse (index + 1) rest depth
    | _, depth => branchEnd atElse (index + 1) rest depth

/-- Where to go on if the branch that begins after the step at `start` is not taken. -/
def skipBranch (p : Program) (start : Nat) (atElse : Bool) : Nat :=
  branchEnd atElse (start + 1) (p.steps.drop (start + 1)) 0

end Program

end Timeline
