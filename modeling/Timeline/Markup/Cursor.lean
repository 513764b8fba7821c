/-
Timeline/Markup/Cursor.lean

Cursors: a place in a text, with the rest of the text and the line and column
that the layout of a document hangs on.
-/
import Timeline.Markup.Character

namespace Timeline.Markup

/-- A place in a text. -/
structure Cursor where
  rest : List Char
  /-- The number of characters in the rest. -/
  left : Nat
  /-- The number of octets before, each character counted by its octets in UTF-8. -/
  index : Nat := 0
  line : Nat := 0
  column : Nat := 0

/-- The number of octets that some characters take. -/
def octetSize (text : List Char) : Nat :=
  text.foldl (fun n c => n + c.utf8Size) 0

namespace Cursor

/-- The begin of a text. -/
def start (text : List Char) : Cursor :=
  { rest := text, left := text.length }

/-- The next character. -/
def peek? (c : Cursor) : Option Char :=
  c.rest.head?

/-- Whether a character comes next. -/
def sees (c : Cursor) (ch : Char) : Bool :=
  c.rest.head? == some ch

/-- Go on by some characters of a line, after which `rest` is left. -/
def moveTo (c : Cursor) (n : Nat) (rest : List Char) : Cursor :=
  { c with
    rest, left := c.left - n, index := c.index + octetSize (c.rest.take n), column := c.column + n }

/-- Go on by some characters of a line. -/
def skip (c : Cursor) (n : Nat) : Cursor :=
  c.moveTo n (c.rest.drop n)

/-- Go on over all characters of a kind. -/
def skipWhile (c : Cursor) (p : Char → Bool) : Cursor :=
  c.skip (c.rest.takeWhile p).length

/-- Go on over the end of a line. -/
def skipBreak (c : Cursor) : Cursor :=
  let n := match c.rest with
    | '\r' :: '\n' :: _ => 2
    | ch :: _ => if isBreak ch then 1 else 0
    | [] => 0
  if n = 0 then c
  else
    { rest := c.rest.drop n, left := c.left - n, index := c.index + octetSize (c.rest.take n),
      line := c.line + 1, column := 0 }

/-- What the end of a line stands for: a line feed, or itself if it is a separator. -/
def lineEnd (c : Cursor) : List Char :=
  match c.rest with
  | ch :: _ =>
    if ch = '\n' || ch = '\r' || ch = '\u0085' then ['\n']
    else if isBreak ch then [ch]
    else []
  | [] => []

/-- Whether a line with the mark of the begin or of the end of a document comes next. -/
def atDocumentMark (c : Cursor) : Bool :=
  c.column = 0 &&
    match c.rest with
    | '-' :: '-' :: '-' :: rest => atBlank rest
    | '.' :: '.' :: '.' :: rest => atBlank rest
    | _ => false

/-- Go on over blanks and perhaps a comment; absent if anything else is left of the line.  The end
of the line is passed too. -/
def finishLine? (c : Cursor) : Option Cursor :=
  let c := c.skipWhile isBlank
  let c := if c.sees '#' then c.skipWhile fun ch => !isBreak ch else c
  if atBreak c.rest then some c.skipBreak else none

end Cursor

/-! ### Line folding -/

/-- The blanks between two words: in one line, or over the ends of lines. -/
inductive Gap where
  | blanks (text : List Char)
  | lines (first : List Char) (more : List Char)

namespace Gap

/-- What a gap stands for in a folded text: one line end is a blank, of several the first one is
dropped. -/
def fold : Gap → List Char
  | blanks text => text
  | lines ['\n'] [] => [' ']
  | lines ['\n'] more => more
  | lines first more => first ++ more

/-- Whether a gap has the end of a line in it. -/
def hasBreak : Gap → Bool
  | blanks _ => false
  | lines _ _ => true

/-- Add a blank. -/
def addBlank (g : Gap) (c : Char) : Gap :=
  match g with
  | blanks text => blanks (text ++ [c])
  | lines first more => lines first more

/-- Add the end of a line. -/
def addBreak (g : Gap) (lineEnd : List Char) : Gap :=
  match g with
  | blanks _ => lines lineEnd []
  | lines first more => lines first (more ++ lineEnd)

/-- Read a gap.  At the begin of a line, no tab may stand left of the column `indent`. -/
def read? (indent : Nat) : Nat → Gap → Cursor → Option (Gap × Cursor)
  | 0, g, c => some (g, c)
  | fuel + 1, g, c =>
    match c.peek? with
    | none => some (g, c)
    | some ch =>
      if isBlank ch then
        if g.hasBreak && c.column < indent && ch = '\t' then none
        else read? indent fuel (g.addBlank ch) (c.skip 1)
      else if isBreak ch then read? indent fuel (g.addBreak c.lineEnd) c.skipBreak
      else some (g, c)

end Gap

end Timeline.Markup
