/-
Timeline/Markup/Character.lean

The classes of characters that YAML tells apart.
-/

namespace Timeline.Markup

/-- Characters that may stand in a text at all: no control characters but tabs and line ends, and
no unassigned ends of planes. -/
def isAllowed (c : Char) : Bool :=
  let n := c.toNat
  n = 0x09 || n = 0x0A || n = 0x0D || (0x20 ≤ n && n ≤ 0x7E) || n = 0x85 ||
    (0xA0 ≤ n && n ≤ 0xD7FF) || (0xE000 ≤ n && n ≤ 0xFFFD) || 0x10000 ≤ n

/-- Characters that end a line: carriage return, line feed, next line, and the separators of lines
and of paragraphs. -/
def isBreak (c : Char) : Bool :=
  c = '\n' || c = '\r' || c = '\u0085' || c = '\u2028' || c = '\u2029'

/-- Blanks inside of a line. -/
def isBlank (c : Char) : Bool :=
  c = ' ' || c = '\t'

/-- Characters of names. -/
def isWord (c : Char) : Bool :=
  c.isAlphanum || c = '_' || c = '-'

/-- The value of a hexadecimal digit. -/
def hexDigit? (c : Char) : Option Nat :=
  if c.isDigit then some (c.toNat - '0'.toNat)
  else if 'a' ≤ c && c ≤ 'f' then some (c.toNat - 'a'.toNat + 10)
  else if 'A' ≤ c && c ≤ 'F' then some (c.toNat - 'A'.toNat + 10)
  else none

/-- Whether a line ends in front of the rest of a text. -/
def atBreak : List Char → Bool
  | [] => true
  | c :: _ => isBreak c

/-- Whether a blank or the end of a line stands in front of the rest of a text. -/
def atBlank : List Char → Bool
  | [] => true
  | c :: _ => isBlank c || isBreak c

/-- The brackets of flow collections. -/
def isBracket (c : Char) : Bool :=
  c = '[' || c = ']' || c = '\x7b' || c = '\x7d'

/-- Characters with a meaning inside of flow collections. -/
def isFlowIndicator (c : Char) : Bool :=
  c = ',' || isBracket c

/-- Characters that no plain scalar begins with. -/
def isIndicator (c : Char) : Bool :=
  isFlowIndicator c ||
    c ∈ ['-', '?', ':', '#', '&', '*', '!', '|', '>', '\'', '"', '%', '@', '\x60']

end Timeline.Markup
