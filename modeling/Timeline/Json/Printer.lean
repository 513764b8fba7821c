/-
Timeline/Json/Printer.lean

The text of a JSON value: no blanks, all characters as they are but quotes,
backslashes and control characters, and floating numbers as shortest decimals.
-/
import Timeline.Json.Basic
import Timeline.Decimal.Shortest

namespace Timeline.Json

/-- Floating numbers are written with a point down to `1e-5` and below `1e16`, others with an
exponent that always has a sign. -/
def floatLayout : Decimal.Layout := ⟨some (-5), some 16, true⟩

/-- The text of a number. -/
def Number.render : Number → String
  | .int n => toString n
  | .float x => floatLayout.text x

/-- How a character stands inside a string. -/
def escapeChar (c : Char) : List Char :=
  if c = '"' then ['\\', '"']
  else if c = '\\' then ['\\', '\\']
  else if c = '\n' then ['\\', 'n']
  else if c = '\r' then ['\\', 'r']
  else if c = '\t' then ['\\', 't']
  else if c = '\x08' then ['\\', 'b']
  else if c = '\x0c' then ['\\', 'f']
  else if c.toNat < 0x20 then
    ['\\', 'u', '0', '0', Nat.digitChar (c.toNat / 16), Nat.digitChar (c.toNat % 16)]
  else [c]

/-- A text as a JSON string. -/
def renderString (text : String) : String :=
  String.ofList ('"' :: (text.toList.flatMap escapeChar ++ ['"']))

mutual

/-- The text of a value. -/
def render : Json → String
  | .null => "null"
  | .bool true => "true"
  | .bool false => "false"
  | .num n => n.render
  | .str s => renderString s
  | .arr items => "[" ++ renderItems items ++ "]"
  | .obj fields => "\x7b" ++ renderFields fields ++ "\x7d"

/-- The texts of some values, with commas between them. -/
def renderItems : List Json → String
  | [] => ""
  | [v] => render v
  | v :: rest => render v ++ "," ++ renderItems rest

/-- The texts of some fields, with commas between them. -/
def renderFields : List (String × Json) → String
  | [] => ""
  | [(name, v)] => renderString name ++ ":" ++ render v
  | (name, v) :: rest => renderString name ++ ":" ++ render v ++ "," ++ renderFields rest

end

end Timeline.Json
