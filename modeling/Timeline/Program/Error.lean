/-
Timeline/Program/Error.lean

What can be wrong with a scenario, and where.  Structural errors are found while
the scenario is expanded, and say which entry they concern; the others are found
on the flat program.
-/

namespace Timeline

/-- Where an error was found. -/
structure Location where
  /-- The index in the flat program. -/
  index : Nat
  /-- The innermost block. -/
  block : Option String := none
  /-- The position of the entry in its scenario or block. -/
  entry : Option Nat := none
deriving DecidableEq, Repr

/-- The text of a location. -/
def Location.text (l : Location) : String :=
  "step " ++ toString l.index ++
    match l.block, l.entry with
    | some block, some entry => " (block '" ++ block ++ "', entry " ++ toString entry ++ ")"
    | some block, none => " (block '" ++ block ++ "')"
    | none, some entry => " (entry " ++ toString entry ++ ")"
    | none, none => ""

/-- What is wrong. -/
inductive Fault where
  | invalidStep (reason : String)
  | blockNotFound (block : String)
  /-- A block is used while it is being expanded. -/
  | circularBlock (block : String)
  | missingLabel
  | duplicateLabel (label : String)
  | invalidIfJump (reason : String)
  | invalidParallel (reason : String)
  | missingInitialValue (target : String)
  | missingCallback (name : String)
  | unresolvedLabel (label : String)
  | unmatchedElse
  | duplicateElse
  | unmatchedEnd
  | unclosedIf
deriving DecidableEq, Repr

namespace Fault

/-- Whether a fault concerns the shape of the scenario. -/
def isStructural : Fault → Bool
  | invalidStep _ | blockNotFound _ | circularBlock _ | missingLabel | duplicateLabel _
  | invalidIfJump _ | invalidParallel _ => true
  | missingInitialValue _ | missingCallback _ | unresolvedLabel _ | unmatchedElse
  | duplicateElse | unmatchedEnd | unclosedIf => false

/-- The text of a fault. -/
def message : Fault → String
  | invalidStep reason => "invalid step: " ++ reason
  | blockNotFound block => "block not found: " ++ block
  | circularBlock block => "circular block reference: " ++ block
  | missingLabel => "label must be a non-empty string"
  | duplicateLabel label => "duplicate label: " ++ label
  | invalidIfJump reason => "invalid ifJump: " ++ reason
  | invalidParallel reason => "invalid parallel: " ++ reason
  | missingInitialValue target => "missing initial value for target: " ++ target
  | missingCallback name => "missing callback: " ++ name
  | unresolvedLabel label => "unresolved label: " ++ label
  | unmatchedElse => "ifElse has no matching ifThen"
  | duplicateElse => "ifThen already has an ifElse"
  | unmatchedEnd => "ifEnd has no matching ifThen"
  | unclosedIf => "unclosed ifThen"

end Fault

/-- A fault and where it was found. -/
structure CompileError where
  location : Location
  fault : Fault
deriving DecidableEq, Repr

namespace CompileError

/-- The text of an error. -/
def message (e : CompileError) : String :=
  e.location.text ++ ": " ++ e.fault.message

/-- The text of all errors of a scenario. -/
def summary (errors : List CompileError) : String :=
  "scenario has " ++ toString errors.length ++ " error(s): " ++
    "; ".intercalate (errors.map message)

end CompileError

end Timeline
