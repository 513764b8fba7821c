/-
Timeline/Scenario/Inspection.lean

Texts that show an operand to a person who looks for a mistake: the kind of
everything is named, and texts stand between quotes.
-/
import Timeline.Json.Printer
import Timeline.Scenario.Step
import Timeline.Text.Quoted

namespace Timeline

namespace Json

mutual

/-- A value with the kinds of its parts. -/
def inspect : Json → String
  | .null => "Null"
  | .bool b => "Bool(" ++ toString b ++ ")"
  | .num n => "Number(" ++ n.render ++ ")"
  | .str s => "String(" ++ Text.quote s ++ ")"
  | .arr items => "Array [" ++ ", ".intercalate (inspectItems items) ++ "]"
  | .obj fields => "Object \x7b" ++ ", ".intercalate (inspectFields fields) ++ "\x7d"

/-- Some values with the kinds of their parts. -/
def inspectItems : List Json → List String
  | [] => []
  | v :: rest => inspect v :: inspectItems rest

/-- Some fields with the kinds of their parts. -/
def inspectFields : List (String × Json) → List String
  | [] => []
  | (name, v) :: rest => (Text.quote name ++ ": " ++ inspect v) :: inspectFields rest

end

end Json

/-- An operand with the kinds of its parts; a function cannot be looked into. -/
def Operand.inspect : Operand → String
  | literal v => "Literal(" ++ v.inspect ++ ")"
  | named name => "Named(" ++ Text.quote name ++ ")"
  | function _ => "Func(..)"

end Timeline
