/-
Timeline/Markup/Property.lean

Reading anchors, aliases, tags and directives.  A tag is written in full between
angle brackets, or as a handle and a suffix.  Characters of it may be escaped as
octets in hexadecimal digits; how many octets make a character hangs on the first
one, but nobody asks whether they make a valid one, so that a tag is a list of
octets and not a text.
-/
import Timeline.Markup.Cursor
import Timeline.Markup.Token

namespace Timeline.Markup

/-! ### Anchors -/

/-- Read the name of an anchor or of an alias after its indicator. -/
def anchorName? (c : Cursor) : Option (String × Cursor) :=
  let c := c.skip 1
  let name := c.rest.takeWhile isWord
  let c := c.skip name.length
  let ends := atBlank c.rest ||
    c.peek?.any fun ch => ch ∈ ['?', ':', ',', ']', '\x7d', '%', '@', '\x60']
  if name.isEmpty || !ends then none else some (String.ofList name, c)

/-! ### Tags -/

/-- Characters of a tag; inside of a full tag also commas and square brackets. -/
def isTagChar (full : Bool) (ch : Char) : Bool :=
  isWord ch ||
    ch ∈ [';', '/', '?', ':', '@', '&', '=', '+', '$', '.', '%', '!', '~', '*', '\'', '(', ')'] ||
    (full && (ch = ',' || ch = '[' || ch = ']'))

/-- The octets of characters of which each is one octet. -/
def asciiOctets (text : List Char) : List UInt8 :=
  text.map fun ch => UInt8.ofNat ch.toNat

/-- Read one escaped octet. -/
def octet? : List Char → Option (UInt8 × List Char)
  | '%' :: a :: b :: rest => do
    let high ← hexDigit? a
    let low ← hexDigit? b
    return (UInt8.ofNat (high * 16 + low), rest)
  | _ => none

/-- The number of octets of a character, by its first one. -/
def octetCount? (first : UInt8) : Option Nat :=
  if first &&& 0x80 = 0 then some 1
  else if first &&& 0xE0 = 0xC0 then some 2
  else if first &&& 0xF0 = 0xE0 then some 3
  else if first &&& 0xF8 = 0xF0 then some 4
  else none

/-- Read some further octets of an escaped character. -/
def octets? (rest : List Char) : Nat → Option (List UInt8 × List Char)
  | 0 => some ([], rest)
  | n + 1 => do
    let (o, rest) ← octet? rest
    if o &&& 0xC0 ≠ 0x80 then none
    let (os, rest) ← octets? rest n
    return (o :: os, rest)

/-- Read the octets of a tag up to a character that is none of a tag's. -/
def tagOctets? (full : Bool) (done : List UInt8) (rest : List Char) :
    Nat → Option (List UInt8 × List Char)
  | 0 => none
  | fuel + 1 =>
    match rest with
    | ch :: tail =>
      if !isTagChar full ch then some (done, rest)
      else if ch = '%' then do
        let (first, rest) ← octet? rest
        let n ← octetCount? first
        let (more, rest) ← octets? rest (n - 1)
        tagOctets? full (done ++ first :: more) rest fuel
      else tagOctets? full (done ++ asciiOctets [ch]) tail fuel
    | [] => some (done, [])

/-- Read a tag, or the rest of one after `head`, whose first character is dropped.  At least one
character must be there.  The tag ends in front of an octet that is zero. -/
def tagText? (full : Bool) (head : List Char) (c : Cursor) : Option (List UInt8 × Cursor) := do
  let (octets, rest) ← tagOctets? full [] c.rest (c.left + 1)
  if octets.isEmpty && head.isEmpty then none
  return (asciiOctets head.tail ++ octets.takeWhile (· ≠ 0), c.moveTo (c.left - rest.length) rest)

/-- Read a handle: an exclamation mark, perhaps with a name and another one after it. -/
def handle? (c : Cursor) : Option (List Char × Cursor) :=
  if c.sees '!' then
    let c := c.skip 1
    let name := c.rest.takeWhile isWord
    let c := c.skip name.length
    if c.sees '!' then some ('!' :: (name ++ ['!']), c.skip 1) else some ('!' :: name, c)
  else none

/-- Read a tag without what must follow it. -/
def bareTag? (c : Cursor) : Option (Token × Cursor) := do
  if (c.skip 1).sees '<' then
    let (text, c) ← tagText? true [] (c.skip 2)
    if c.sees '>' then return (.tag "" text, c.skip 1) else none
  else
    let (handle, c) ← handle? c
    if handle.length ≥ 2 && handle.getLast? = some '!' then
      let (suffix, c) ← tagText? false [] c
      return (.tag (String.ofList handle) suffix, c)
    else
      let (suffix, c) ← tagText? false handle c
      if suffix.isEmpty then return (.tag "" (asciiOctets ['!']), c)
      else return (.tag "!" suffix, c)

/-- Read a tag; a blank follows it, or in a flow collection a comma. -/
def tag? (flow : Bool) (c : Cursor) : Option (Token × Cursor) := do
  let (token, c) ← bareTag? c
  if atBlank c.rest || (flow && c.sees ',') then return (token, c) else none

/-! ### Directives -/

/-- Read a number of at most nine digits. -/
def versionNumber? (c : Cursor) : Option (Nat × Cursor) :=
  let digits := c.rest.takeWhile Char.isDigit
  if digits.isEmpty || 9 < digits.length then none
  else
    some (digits.foldl (fun n d => n * 10 + (d.toNat - '0'.toNat)) 0, c.skip digits.length)

/-- Read a version; only 1.1 and 1.2 are known. -/
def version? (c : Cursor) : Option (Token × Cursor) := do
  let (major, c) ← versionNumber? (c.skipWhile isBlank)
  if !c.sees '.' then none
  let (minor, c) ← versionNumber? (c.skip 1)
  if major = 1 && (minor = 1 || minor = 2) then return (.version, c) else none

/-- Read a handle and what it stands for. -/
def tagHandle? (c : Cursor) : Option (Token × Cursor) := do
  let (handle, c) ← handle? (c.skipWhile isBlank)
  if handle.length ≥ 2 && handle.getLast? ≠ some '!' then none
  if !c.peek?.any isBlank then none
  let (replacement, c) ← tagText? true [] (c.skipWhile isBlank)
  if !atBlank c.rest then none
  return (.tagHandle (String.ofList handle) replacement, c)

/-- Read a directive, with the rest of its line. -/
def directive? (c : Cursor) : Option (Token × Cursor) := do
  let c := c.skip 1
  let name := c.rest.takeWhile isWord
  let c := c.skip name.length
  if name.isEmpty || !atBlank c.rest then none
  let (token, c) ← match String.ofList name with
    | "YAML" => version? c
    | "TAG" => tagHandle? c
    | _ => none
  return (token, ← c.finishLine?)

end Timeline.Markup
