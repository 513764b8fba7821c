/-
Timeline/Text/Quoted.lean

Quoted text: a text between double quotes, in which quotes, backslashes, line
ends and characters that cannot be shown are escaped.
-/
import Timeline.Text.Printable

namespace Timeline.Text

/-- A number in lower-case hexadecimal digits. -/
def hex (n : Nat) : List Char :=
  Nat.toDigits 16 n

/-- How a character stands inside quotes. -/
def quotedChar (c : Char) : List Char :=
  if c = '"' then ['\\', '"']
  else if c = '\\' then ['\\', '\\']
  else if c = '\n' then ['\\', 'n']
  else if c = '\r' then ['\\', 'r']
  else if c = '\t' then ['\\', 't']
  else if c = Char.ofNat 0 then ['\\', '0']
  else if isPrintable c then [c]
  else '\\' :: 'u' :: '\x7b' :: (hex c.toNat ++ ['\x7d'])

/-- A text between quotes. -/
def quote (text : String) : String :=
  String.ofList ('"' :: (text.toList.flatMap quotedChar ++ ['"']))

end Timeline.Text
