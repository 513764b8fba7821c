/-
Timeline/Markup/Scalar/Quoted.lean

Quoted scalars.  Between single quotes, a quote is written twice; between double
quotes, a backslash begins an escape.  In both, the ends of lines are folded.
-/
import Timeline.Markup.Cursor

namespace Timeline.Markup.Quoted

/-- The characters that a single letter stands for after a backslash. -/
def escapes : List (Char × Char) :=
  [('0', Char.ofNat 0), ('a', '\x07'), ('b', '\x08'), ('t', '\t'), ('\t', '\t'), ('n', '\n'),
    ('v', '\x0b'), ('f', '\x0c'), ('r', '\r'), ('e', '\x1b'), (' ', ' '), ('"', '"'), ('/', '/'),
    ('\\', '\\'), ('N', '\u0085'), ('_', '\u00a0'), ('L', '\u2028'), ('P', '\u2029')]

/-- The number of hexadecimal digits that follow a letter after a backslash. -/
def codeLengths : List (Char × Nat) :=
  [('x', 2), ('u', 4), ('U', 8)]

/-- The number that hexadecimal digits write. -/
def code? (digits : List Char) : Option Nat :=
  digits.foldlM (fun n d => (hexDigit? d).map (n * 16 + ·)) 0

/-- The character of an escape after its backslash, and the number of characters that it takes. -/
def escape? : List Char → Option (Char × Nat)
  | [] => none
  | letter :: rest =>
    match escapes.lookup letter, codeLengths.lookup letter with
    | some ch, _ => some (ch, 1)
    | none, none => none
    | none, some length => do
      if rest.length < length then none
      let n ← code? (rest.take length)
      if (0xD800 ≤ n && n < 0xE000) || 0x110000 ≤ n then none
      return (Char.ofNat n, length + 1)

/-- What is left after characters without a gap: a text, whether an escaped end of a line follows
it, and the cursor. -/
structure Run where
  text : List Char
  escapedBreak : Bool
  cursor : Cursor

/-- Read characters up to a gap, the closing quote or the end; `done` holds those that were read,
the last one first. -/
def run? (single : Bool) (done : List Char) (c : Cursor) : Nat → Option Run
  | 0 => none
  | fuel + 1 =>
    let stopped : Run := ⟨done.reverse, false, c⟩
    match c.rest with
    | [] => some stopped
    | ch :: rest =>
      if isBlank ch || isBreak ch then some stopped
      else if single then
        match ch, rest with
        | '\'', '\'' :: _ => run? single ('\'' :: done) (c.skip 2) fuel
        | '\'', _ => some stopped
        | ch, _ => run? single (ch :: done) (c.skip 1) fuel
      else if ch = '"' then some stopped
      else if ch = '\\' then
        if rest.head?.any isBreak then some ⟨done.reverse, true, (c.skip 1).skipBreak⟩
        else do
          let (ch, n) ← escape? rest
          run? single (ch :: done) (c.skip (n + 1)) fuel
      else run? single (ch :: done) (c.skip 1) fuel

/-- Read on after some text. -/
def readOn? (single : Bool) (text : List Char) (c : Cursor) :
    Nat → Option (List Char × Cursor)
  | 0 => none
  | fuel + 1 => do
    if c.atDocumentMark || c.rest.isEmpty then none
    let run ← run? single [] c (c.left + 1)
    let text := text ++ run.text
    let c := run.cursor
    if !run.escapedBreak && c.sees (if single then '\'' else '"') then return (text, c.skip 1)
    let gap : Gap := if run.escapedBreak then .lines [] [] else .blanks []
    let (gap, c) ← Gap.read? 0 (c.left + 1) gap c
    readOn? single (text ++ gap.fold) c fuel

/-- Read a scalar from its opening quote on. -/
def read? (single : Bool) (c : Cursor) : Option (List Char × Cursor) :=
  readOn? single [] (c.skip 1) (c.left + 1)

end Timeline.Markup.Quoted
