/-
Timeline/Markup/Scalar/Plain.lean

Plain scalars: words without quotes, with gaps between them that may go over the
ends of lines as long as the words stay right of the surrounding block.
-/
import Timeline.Markup.Cursor

namespace Timeline.Markup

/-- A plain scalar that was read. -/
structure Plain where
  text : List Char
  /-- Whether the gap after it has the end of a line in it. -/
  broken : Bool
  cursor : Cursor

namespace Plain

/-- The characters up to a blank or an indicator that ends a plain scalar, and what is left.  A
colon in front of a flow indicator is refused. -/
def word? (flow : Bool) : List Char → Option (List Char × List Char)
  | [] => some ([], [])
  | ch :: rest =>
    if isBlank ch || isBreak ch then some ([], ch :: rest)
    else if flow && ch = ':' && rest.head?.any (fun next => isFlowIndicator next || next = '?') then
      none
    else if (ch = ':' && atBlank rest) || (flow && isFlowIndicator ch) then some ([], ch :: rest)
    else (word? flow rest).map fun (word, rest) => (ch :: word, rest)

/-- Read on after a gap; in a block the words must not stand left of the column `indent`. -/
def readOn? (flow : Bool) (indent : Nat) (text : List Char) (gap : Gap) (c : Cursor) :
    Nat → Option Plain
  | 0 => none
  | fuel + 1 => do
    let stopped : Plain := ⟨text, gap.hasBreak, c⟩
    if c.atDocumentMark || c.sees '#' then return stopped
    let (word, rest) ← word? flow c.rest
    let (text, gap) := if word = [] then (text, gap) else (text ++ gap.fold ++ word, .blanks [])
    let c := c.moveTo word.length rest
    let stopped : Plain := ⟨text, gap.hasBreak, c⟩
    if !(c.peek?.any fun ch => isBlank ch || isBreak ch) then return stopped
    let (gap, c) ← Gap.read? indent (c.left + 1) gap c
    if !flow && c.column < indent then return ⟨text, gap.hasBreak, c⟩
    readOn? flow indent text gap c fuel

/-- Read a plain scalar. -/
def read? (flow : Bool) (indent : Nat) (c : Cursor) : Option Plain :=
  readOn? flow indent [] (.blanks []) c (c.left + 1)

end Plain

end Timeline.Markup
