/-
Timeline/Markup/Layout.lean

From a text to its tokens.  The layout of the lines decides where block
collections begin and end: a stack holds the columns of those that are open.

A scalar or a flow collection may turn out to be a key, by a colon after it in the
same line.  The place where a key could begin is remembered, one for each open flow
collection and one for the block around them; the tokens for the key, and for the
block mapping that begins with it, are put in afterwards.
-/
import Timeline.Markup.Property
import Timeline.Markup.Scalar.Block
import Timeline.Markup.Scalar.Plain
import Timeline.Markup.Scalar.Quoted

namespace Timeline.Markup

/-- A place where a key could begin. -/
structure KeyPlace where
  /-- Whether nothing else can stand there. -/
  required : Bool
  /-- The number of tokens before. -/
  number : Nat
  index : Nat
  line : Nat
  column : Nat

/-- A text that is read up to a cursor. -/
structure Layout where
  cursor : Cursor
  /-- The column of the innermost open block collection. -/
  indent : Option Nat := none
  /-- The columns of the other open block collections, the innermost first. -/
  outer : List (Option Nat) := []
  /-- The places where a key could begin: in the innermost flow collection first, in the block
  last. -/
  places : List (Option KeyPlace) := [none]
  /-- Whether a key could begin at the cursor. -/
  keyAllowed : Bool := true
  /-- The tokens, the last one first. -/
  tokens : List Token := []
  count : Nat := 0

namespace Layout

/-- Whether the cursor is inside of a flow collection. -/
def flow (l : Layout) : Bool :=
  1 < l.places.length

/-- The leftmost column of what stands inside of the innermost block collection. -/
def inner (l : Layout) : Nat :=
  match l.indent with
  | some n => n + 1
  | none => 0

/-- Append a token, after which the cursor stands at `cursor`. -/
def emit (l : Layout) (token : Token) (cursor : Cursor) : Layout :=
  { l with tokens := token :: l.tokens, count := l.count + 1, cursor }

/-- Put in a token in front of the one with a number. -/
def insert (l : Layout) (number : Nat) (token : Token) : Layout :=
  let (after, before) := l.tokens.splitAt (l.count - number)
  { l with tokens := after ++ token :: before, count := l.count + 1 }

/-- Forget the places where a key can no longer begin: in other lines, or more than 1024 octets
away.  Absent if there had to be a key. -/
def forgetStale? (l : Layout) : Option Layout := do
  let places ← l.places.mapM fun
    | some p =>
      if p.line < l.cursor.line || p.index + 1024 < l.cursor.index then
        if p.required then none else some none
      else some (some p)
    | none => some none
  return { l with places }

/-- Forget the innermost place where a key could begin.  Absent if there had to be a key. -/
def forgetPlace? (l : Layout) : Option Layout :=
  match l.places with
  | some p :: places => if p.required then none else some { l with places := none :: places }
  | _ => some l

/-- Remember that a key could begin at the cursor, if it could. -/
def savePlace? (l : Layout) : Option Layout := do
  if !l.keyAllowed then return l
  let c := l.cursor
  let place : KeyPlace :=
    ⟨!l.flow && l.indent == some c.column, l.count, c.index, c.line, c.column⟩
  let l ← l.forgetPlace?
  return { l with places := some place :: l.places.tail }

/-- Close the block collections that begin right of a column; without a column, all of them. -/
def unrollTo (column : Option Nat) (l : Layout) : Nat → Layout
  | 0 => l
  | fuel + 1 =>
    match l.indent, l.outer with
    | some n, outer =>
      if column.all fun c => c < n then
        let l := l.emit .blockEnd l.cursor
        unrollTo column { l with indent := outer.head?.join, outer := outer.tail } fuel
      else l
    | none, _ => l

/-- Close block collections; inside of flow collections there are none to close. -/
def unroll (l : Layout) (column : Option Nat) : Layout :=
  if l.flow then l else l.unrollTo column (l.outer.length + 1)

/-- Open a block collection at a column, if it is right of the innermost one. -/
def roll (l : Layout) (column : Nat) (place : Layout → Layout) : Layout :=
  if l.flow then l
  else if l.indent.all fun n => n < column then
    place { l with indent := some column, outer := l.indent :: l.outer }
  else l

/-- Go on over blanks, comments and empty lines.  Tabs are no blanks where a key could begin.  A
byte order mark at the begin of a line is passed over, but takes its column. -/
def skipSpace (l : Layout) : Nat → Layout
  | 0 => l
  | fuel + 1 =>
    let c := l.cursor
    let c := if c.column = 0 && c.sees '\ufeff' then c.skip 1 else c
    let tabs := l.flow || !l.keyAllowed
    let c := c.skipWhile fun ch => ch = ' ' || (tabs && ch = '\t')
    let c := if c.sees '#' then c.skipWhile fun ch => !isBreak ch else c
    if c.peek?.any isBreak then
      skipSpace { l with cursor := c.skipBreak, keyAllowed := l.keyAllowed || !l.flow } fuel
    else { l with cursor := c }

/-! ### Tokens -/

/-- A directive, or the mark of the begin or of the end of a document. -/
def document? (l : Layout) (token : Token) (cursor : Cursor) : Option Layout := do
  let l ← (l.unroll none).forgetPlace?
  return { l with keyAllowed := false }.emit token cursor

/-- The begin of a flow collection. -/
def openFlow? (l : Layout) (token : Token) : Option Layout := do
  let l ← l.savePlace?
  return { l with places := none :: l.places, keyAllowed := true }.emit token (l.cursor.skip 1)

/-- The end of a flow collection. -/
def closeFlow? (l : Layout) (token : Token) : Option Layout := do
  let l ← l.forgetPlace?
  let places := if l.flow then l.places.tail else l.places
  return { l with places, keyAllowed := false }.emit token (l.cursor.skip 1)

/-- A comma. -/
def flowEntry? (l : Layout) : Option Layout := do
  let l ← l.forgetPlace?
  return { l with keyAllowed := true }.emit .flowEntry (l.cursor.skip 1)

/-- The dash of an item. -/
def blockEntry? (l : Layout) : Option Layout := do
  if !l.flow && !l.keyAllowed then none
  let l := l.roll l.cursor.column fun l => l.emit .blockSequenceStart l.cursor
  let l ← l.forgetPlace?
  return { l with keyAllowed := true }.emit .blockEntry (l.cursor.skip 1)

/-- The question mark of a key. -/
def key? (l : Layout) : Option Layout := do
  if !l.flow && !l.keyAllowed then none
  let l := l.roll l.cursor.column fun l => l.emit .blockMappingStart l.cursor
  let l ← l.forgetPlace?
  return { l with keyAllowed := !l.flow }.emit .key (l.cursor.skip 1)

/-- The colon of a value: what stands at the remembered place is its key, if there is one. -/
def value? (l : Layout) : Option Layout := do
  match l.places with
  | some p :: places =>
    let l := { l with places := none :: places }.insert p.number .key
    let l := l.roll p.column fun l => l.insert p.number .blockMappingStart
    return { l with keyAllowed := false }.emit .value (l.cursor.skip 1)
  | _ =>
    if !l.flow && !l.keyAllowed then none
    let l := l.roll l.cursor.column fun l => l.emit .blockMappingStart l.cursor
    return { l with keyAllowed := !l.flow }.emit .value (l.cursor.skip 1)

/-- A token that may begin a key, read by `read`. -/
def node? (l : Layout) (read : Cursor → Option (Token × Cursor)) : Option Layout := do
  let l ← l.savePlace?
  let (token, cursor) ← read l.cursor
  return { l with keyAllowed := false }.emit token cursor

/-- A block scalar. -/
def blockScalar? (l : Layout) (folded : Bool) : Option Layout := do
  let l ← l.forgetPlace?
  let (text, cursor) ← Block.read? folded l.inner l.cursor
  return { l with keyAllowed := true }.emit (.scalar false (String.ofList text)) cursor

/-- A scalar between quotes. -/
def quoted? (l : Layout) (single : Bool) : Option Layout :=
  l.node? fun c => (Quoted.read? single c).map fun (text, c) =>
    (.scalar false (String.ofList text), c)

/-- A plain scalar. -/
def plain? (l : Layout) : Option Layout := do
  let l ← l.savePlace?
  let p ← Plain.read? l.flow l.inner l.cursor
  return { l with keyAllowed := p.broken }.emit (.scalar true (String.ofList p.text)) p.cursor

/-- Whether a plain scalar can begin here. -/
def plainBegins : List Char → (flow : Bool) → Bool
  | [], _ => false
  | ch :: rest, flow =>
    if isBlank ch || isBreak ch then false
    else if ch = '-' then !rest.head?.any isBlank
    else if ch = '?' || ch = ':' then !flow && !atBlank rest
    else !isIndicator ch

/-- Read the token at the cursor, where no blank stands. -/
def token? (l : Layout) (ch : Char) (rest : List Char) : Option Layout :=
  let c := l.cursor
  if c.column = 0 && ch = '%' then do
    let l ← (l.unroll none).forgetPlace?
    let (token, c) ← directive? c
    return { l with keyAllowed := false }.emit token c
  else if c.atDocumentMark then
    l.document? (if ch = '-' then .documentStart else .documentEnd) (c.skip 3)
  else if ch = '[' then l.openFlow? .flowSequenceStart
  else if ch = '\x7b' then l.openFlow? .flowMappingStart
  else if ch = ']' then l.closeFlow? .flowSequenceEnd
  else if ch = '\x7d' then l.closeFlow? .flowMappingEnd
  else if ch = ',' then l.flowEntry?
  else if ch = '-' && atBlank rest then l.blockEntry?
  else if ch = '?' && (l.flow || atBlank rest) then l.key?
  else if ch = ':' && (l.flow || atBlank rest) then l.value?
  else if ch = '*' then l.node? fun c => (anchorName? c).map fun (name, c) => (.alias name, c)
  else if ch = '&' then l.node? fun c => (anchorName? c).map fun (name, c) => (.anchor name, c)
  else if ch = '!' then l.node? (tag? l.flow)
  else if ch = '|' && !l.flow then l.blockScalar? false
  else if ch = '>' && !l.flow then l.blockScalar? true
  else if ch = '\'' then l.quoted? true
  else if ch = '"' then l.quoted? false
  else if plainBegins (ch :: rest) l.flow then l.plain?
  else none

/-- Read tokens up to the end of the text. -/
def read? (l : Layout) : Nat → Option (List Token)
  | 0 => none
  | fuel + 1 => do
    let l ← (l.skipSpace (l.cursor.left + 1)).forgetStale?
    let l := l.unroll (some l.cursor.column)
    match l.cursor.rest with
    | [] =>
      let l ← (l.unroll none).forgetPlace?
      return l.tokens.reverse
    | ch :: rest => (← l.token? ch rest).read? fuel

end Layout

/-- The tokens of a text. -/
def Token.ofText? (text : String) : Option (List Token) :=
  let chars := text.toList
  if chars.all isAllowed then Layout.read? { cursor := .start chars } (chars.length + 1)
  else none

end Timeline.Markup
