/-
Timeline/Markup/Node.lean

Nodes: the tree that the tokens of a document form, with anchors, aliases and
tags still in it.  Where a node may be left out, an empty plain scalar stands in
its place.
-/
import Timeline.Markup.Token

namespace Timeline.Markup

/-- What handles of tags stand for. -/
abbrev Handles := List (String × List UInt8)

/-- The anchor and the tag of a node; a tag is a list of octets. -/
structure Properties where
  anchor : Option String := none
  tag : Option (List UInt8) := none
deriving DecidableEq, Repr

/-- A node of a document. -/
inductive Node where
  | alias (name : String)
  | scalar (properties : Properties) (plain : Bool) (text : String)
  | seq (properties : Properties) (items : List Node)
  | map (properties : Properties) (pairs : List (Node × Node))
deriving Inhabited, Repr

namespace Node

/-- The node that stands where nothing is written. -/
def missing : Node :=
  .scalar {} true ""

/-- The handles of tags that are always known. -/
def standardHandles : Handles :=
  [("!", "!".toUTF8.toList), ("!!", "tag:yaml.org,2002:".toUTF8.toList)]

/-- A tag in full; the handle must be known. -/
def fullTag? (handles : Handles) (handle : String) (suffix : List UInt8) : Option (List UInt8) :=
  if handle = "" then some suffix else (handles.lookup handle).map (· ++ suffix)

/-- Read the properties of a node, in either order. -/
def properties? (handles : Handles) :
    List Token → Option (Properties × List Token)
  | .anchor a :: .tag handle suffix :: rest => do
    return (⟨some a, some (← fullTag? handles handle suffix)⟩, rest)
  | .tag handle suffix :: .anchor a :: rest => do
    return (⟨some a, some (← fullTag? handles handle suffix)⟩, rest)
  | .anchor a :: rest => some (⟨some a, none⟩, rest)
  | .tag handle suffix :: rest => do
    return (⟨none, some (← fullTag? handles handle suffix)⟩, rest)
  | rest => some ({}, rest)

/-- Whether one of some tokens comes next. -/
def next (tokens : List Token) (among : List Token) : Bool :=
  tokens.head?.any fun t => t ∈ among

mutual

/-- Read a node.  Block collections are allowed if `block` is set, and items without any deeper
indentation if `flat` is set.  `fuel` bounds the nesting and the number of items. -/
def read? (handles : Handles) (block flat : Bool) (tokens : List Token) :
    Nat → Option (Node × List Token)
  | 0 => none
  | fuel + 1 =>
    match tokens with
    | .alias name :: rest => some (.alias name, rest)
    | tokens => do
      let (p, tokens) ← properties? handles tokens
      match tokens, block with
      | .blockEntry :: _, _ =>
        if flat then
          let (items, rest) ← flatItems? handles [] tokens fuel
          return (.seq p items, rest)
        else absent? p tokens
      | .scalar plain text :: rest, _ => return (.scalar p plain text, rest)
      | .flowSequenceStart :: rest, _ =>
        let (items, rest) ← flowItems? handles true [] rest fuel
        return (.seq p items, rest)
      | .flowMappingStart :: rest, _ =>
        let (pairs, rest) ← flowPairs? handles true [] rest fuel
        return (.map p pairs, rest)
      | .blockSequenceStart :: rest, true =>
        let (items, rest) ← blockItems? handles [] rest fuel
        return (.seq p items, rest)
      | .blockMappingStart :: rest, true =>
        let (pairs, rest) ← blockPairs? handles [] rest fuel
        return (.map p pairs, rest)
      | tokens, _ => absent? p tokens

/-- A node of which only the properties are written. -/
def absent? (p : Properties) (tokens : List Token) : Option (Node × List Token) :=
  if p = {} then none else some (.scalar p true "", tokens)

/-- Read the items of a block sequence. -/
def blockItems? (handles : Handles) (done : List Node) (tokens : List Token) :
    Nat → Option (List Node × List Token)
  | 0 => none
  | fuel + 1 =>
    match tokens with
    | .blockEntry :: rest => do
      let (item, rest) ←
        if next rest [.blockEntry, .blockEnd] then some (missing, rest)
        else read? handles true false rest fuel
      blockItems? handles (item :: done) rest fuel
    | .blockEnd :: rest => some (done.reverse, rest)
    | _ => none

/-- Read the items of a sequence that is not indented. -/
def flatItems? (handles : Handles) (done : List Node) (tokens : List Token) :
    Nat → Option (List Node × List Token)
  | 0 => none
  | fuel + 1 =>
    match tokens with
    | .blockEntry :: rest => do
      let (item, rest) ←
        if next rest [.blockEntry, .key, .value, .blockEnd] then some (missing, rest)
        else read? handles true false rest fuel
      flatItems? handles (item :: done) rest fuel
    | rest => some (done.reverse, rest)

/-- Read the pairs of a block mapping. -/
def blockPairs? (handles : Handles) (done : List (Node × Node))
    (tokens : List Token) : Nat → Option (List (Node × Node) × List Token)
  | 0 => none
  | fuel + 1 =>
    match tokens with
    | .key :: rest => do
      let (key, rest) ←
        if next rest [.key, .value, .blockEnd] then some (missing, rest)
        else read? handles true true rest fuel
      let (value, rest) ←
        match rest with
        | .value :: rest =>
          if next rest [.key, .value, .blockEnd] then some (missing, rest)
          else read? handles true true rest fuel
        | rest => some (missing, rest)
      blockPairs? handles ((key, value) :: done) rest fuel
    | .blockEnd :: rest => some (done.reverse, rest)
    | _ => none

/-- Read the items of a flow sequence; an item with a key is a mapping of one pair. -/
def flowItems? (handles : Handles) (first : Bool) (done : List Node)
    (tokens : List Token) : Nat → Option (List Node × List Token)
  | 0 => none
  | fuel + 1 => do
    if let .flowSequenceEnd :: rest := tokens then return (done.reverse, rest)
    let tokens ← match first, tokens with
      | true, tokens => some tokens
      | false, .flowEntry :: rest => some rest
      | false, _ => none
    match tokens with
    | .flowSequenceEnd :: rest => return (done.reverse, rest)
    | .key :: rest =>
      let (key, rest) ←
        if next rest [.value, .flowEntry, .flowSequenceEnd] then some (missing, rest.tail)
        else read? handles false false rest fuel
      let (value, rest) ←
        match rest with
        | .value :: rest =>
          if next rest [.flowEntry, .flowSequenceEnd] then some (missing, rest)
          else read? handles false false rest fuel
        | rest => some (missing, rest)
      flowItems? handles false (.map {} [(key, value)] :: done) rest fuel
    | tokens =>
      let (item, rest) ← read? handles false false tokens fuel
      flowItems? handles false (item :: done) rest fuel

/-- Read the pairs of a flow mapping; a node without the mark of a key has no value. -/
def flowPairs? (handles : Handles) (first : Bool) (done : List (Node × Node))
    (tokens : List Token) : Nat → Option (List (Node × Node) × List Token)
  | 0 => none
  | fuel + 1 => do
    if let .flowMappingEnd :: rest := tokens then return (done.reverse, rest)
    let tokens ← match first, tokens with
      | true, tokens => some tokens
      | false, .flowEntry :: rest => some rest
      | false, _ => none
    match tokens with
    | .flowMappingEnd :: rest => return (done.reverse, rest)
    | .key :: rest =>
      let (key, rest) ←
        if next rest [.value, .flowEntry, .flowMappingEnd] then some (missing, rest)
        else read? handles false false rest fuel
      let (value, rest) ←
        match rest with
        | .value :: rest =>
          if next rest [.flowEntry, .flowMappingEnd] then some (missing, rest)
          else read? handles false false rest fuel
        | rest => some (missing, rest)
      flowPairs? handles false ((key, value) :: done) rest fuel
    | tokens =>
      let (key, rest) ← read? handles false false tokens fuel
      flowPairs? handles false ((key, missing) :: done) rest fuel

end

/-! ### Documents -/

/-- Read the directives of a document: at most one version, and no handle twice. -/
def directives? (version : Bool) (handles : Handles) :
    List Token → Option (Handles × List Token)
  | .version :: rest => if version then none else directives? true handles rest
  | .tagHandle handle replacement :: rest =>
    if (handles.lookup handle).isSome then none
    else directives? version ((handle, replacement) :: handles) rest
  | rest => some (handles ++ standardHandles, rest)

/-- Whether a token belongs to the frame of a document. -/
def isFrame : Token → Bool
  | .version | .tagHandle _ _ | .documentStart | .documentEnd => true
  | _ => false

/-- Read the content of a document whose begin is marked. -/
def content? (handles : Handles) (tokens : List Token) :
    Option (Node × List Token) :=
  if tokens.head?.all isFrame then some (missing, tokens)
  else read? handles true false tokens (2 * tokens.length + 2)

/-- Read a document. -/
def document? (tokens : List Token) : Option (Node × List Token) := do
  let (handles, rest) ← directives? false [] tokens
  match rest with
  | .documentStart :: rest => content? handles rest
  | rest =>
    if rest.length < tokens.length then none
    else read? standardHandles true false tokens (2 * tokens.length + 2)

/-- The only document of some tokens; no tokens are a document with nothing in it. -/
def ofTokens? (tokens : List Token) : Option (Option Node) :=
  if tokens.isEmpty then some none
  else do
    let (node, rest) ← document? tokens
    if rest.all (· == .documentEnd) then return some node else none

end Node

end Timeline.Markup
