/-
Timeline/Markup/Scalar/Block.lean

Block scalars: lines that are indented deeper than what surrounds them, taken
literally or folded.  The header may give the indentation, and what becomes of
the ends of lines at the end: all but one are clipped, all are stripped, or all
are kept.
-/
import Timeline.Markup.Cursor

namespace Timeline.Markup.Block

/-- What becomes of the ends of lines at the end. -/
inductive Chomping where
  | clip
  | strip
  | keep
deriving DecidableEq

/-- The header of a block scalar. -/
structure Header where
  chomping : Chomping := .clip
  /-- The indentation relative to what surrounds the scalar. -/
  increment : Option Nat := none

/-- The chomping that a character asks for. -/
def chomping? : Option Char → Option Chomping
  | some '+' => some .keep
  | some '-' => some .strip
  | _ => none

/-- Read the indentation of a header; zero is refused. -/
def increment? (c : Cursor) : Option (Option Nat × Cursor) :=
  match c.peek? with
  | some ch =>
    if ch = '0' then none
    else if ch.isDigit then some (some (ch.toNat - '0'.toNat), c.skip 1)
    else some (none, c)
  | none => some (none, c)

/-- Read a header; its two parts may stand in either order. -/
def header? (c : Cursor) : Option (Header × Cursor) := do
  match chomping? c.peek? with
  | some chomping =>
    let (increment, c) ← increment? (c.skip 1)
    return (⟨chomping, increment⟩, c)
  | none =>
    let (increment, c) ← increment? c
    match increment, chomping? c.peek? with
    | some n, some chomping => return (⟨chomping, some n⟩, c.skip 1)
    | increment, _ => return (⟨.clip, increment⟩, c)

/-- Read empty lines and the indentation of the first line that is not empty.  While the
indentation is not known, it is the greatest one that was seen. -/
def emptyLines? (indent : Option Nat) (seen : Nat) (breaks : List Char) (c : Cursor) :
    Nat → Option (Nat × List Char × Cursor)
  | 0 => none
  | fuel + 1 =>
    let spaces := (c.rest.takeWhile (· = ' ')).length
    let c := c.skip (match indent with
      | some n => min spaces (n - c.column)
      | none => spaces)
    let seen := max seen c.column
    if (indent.all fun n => c.column < n) && c.sees '\t' then none
    else if c.peek?.any isBreak then
      emptyLines? indent seen (breaks ++ c.lineEnd) c.skipBreak fuel
    else some (seen, breaks, c)

/-- A block scalar while it is read. -/
structure Lines where
  text : List Char := []
  /-- The end of the last line. -/
  lineEnd : List Char := []
  /-- The ends of the empty lines after it. -/
  empty : List Char := []
  /-- Whether the last line begins with a blank. -/
  blank : Bool := false
  cursor : Cursor

/-- Read the lines that stand at the indentation. -/
def lines? (folded : Bool) (indent : Nat) (l : Lines) : Nat → Option Lines
  | 0 => none
  | fuel + 1 => do
    let c := l.cursor
    if c.column ≠ indent || c.rest.isEmpty then return l
    let blank := c.peek?.any isBlank
    let joint :=
      if folded && l.lineEnd = ['\n'] && !l.blank && !blank then
        if l.empty = [] then [' '] else l.empty
      else l.lineEnd ++ l.empty
    let line := c.rest.takeWhile fun ch => !isBreak ch
    let c := c.skip line.length
    let lineEnd := c.lineEnd
    let (_, empty, c) ← emptyLines? (some indent) 0 [] c.skipBreak (c.left + 2)
    lines? folded indent
      { text := l.text ++ joint ++ line, lineEnd, empty, blank, cursor := c } fuel

/-- Read a block scalar from its indicator on; `parent` is the indentation of what surrounds it,
plus one. -/
def read? (folded : Bool) (parent : Nat) (c : Cursor) : Option (List Char × Cursor) := do
  let (header, c) ← header? (c.skip 1)
  let c ← c.finishLine?
  let given := header.increment.map fun n => (parent - 1) + n
  let (seen, empty, c) ← emptyLines? given 0 [] c (c.left + 2)
  let indent := given.getD (max (max seen parent) 1)
  let l ← lines? folded indent { empty, cursor := c } (c.left + 1)
  let tail := match header.chomping with
    | .strip => []
    | .clip => l.lineEnd
    | .keep => l.lineEnd ++ l.empty
  return (l.text ++ tail, l.cursor)

end Timeline.Markup.Block
