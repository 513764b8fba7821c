/-
Timeline/Functions/Scripted.lean

Scripted functions: functions described by data, to rehearse a timeline
without its surroundings.  A scripted function waits, writes one value, and then
answers: from a list, with its argument, with the number of the call, with the
value of a target, or always the same.  An answer that is an object with the one
field `$fail` or `$not_found` stands for a failure.
-/
import Timeline.Functions.Registry

namespace Timeline

/-- What a scripted function answers. -/
inductive Scripted.Answer where
  /-- The answer of every call in turn; the last one repeats. -/
  | sequence (answers : List Json)
  /-- The argument. -/
  | echo
  /-- The number of the call. -/
  | count
  /-- The value of a target. -/
  | value (target : String)
  /-- Always the same. -/
  | constant (answer : Json)

/-- A function described by data. -/
structure Scripted where
  wait : Option Duration := none
  write : Option (String × Float) := none
  answer : Scripted.Answer := .constant .null
  /-- The reason for which every call fails that the answer does not make fail itself. -/
  fail : Option String := none

namespace Scripted

/-- The result for an answer: a failure if the answer stands for one or all calls fail. -/
def result (s : Scripted) (answer : Json) : Except CallError Json :=
  match answer, s.fail with
  | .obj [("$fail", .str reason)], _ => .error (.failed reason)
  | _, some reason => .error (.failed reason)
  | .obj [("$not_found", .str name)], none => .error (.notFound name)
  | answer, none => .ok answer

/-- The end of the call with number `n`. -/
def reply (s : Scripted) (n : Nat) (arg : Option Json) : Routine :=
  match s.answer with
  | .sequence answers => .done (s.result ((answers[n - 1]?.or answers.getLast?).getD .null))
  | .echo => .done (s.result (arg.getD .null))
  | .count => .done (s.result (.num (.int n)))
  | .value target => .read target fun v => .done (s.result ((v.map Json.ofFloat).getD .null))
  | .constant answer => .done (s.result answer)

/-- The function that a script describes. -/
def handler (s : Scripted) : Handler := fun n arg =>
  let act : Routine :=
    match s.write with
    | some (target, v) => .write target v (s.reply n arg)
    | none => s.reply n arg
  match s.wait with
  | some time => .sleep time act
  | none => act

end Scripted

end Timeline
