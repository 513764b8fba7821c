/-
Timeline/Yaml/Composition.lean

From a node to its value.  An alias stands for the node that its anchor names.
An anchor is numbered by the number of different names before it, and of two
anchors with one number the later one counts, even for an alias before it.

Nesting is bounded, and so is the number of aliases that are followed, so that no
small text stands for a huge value.  A mapping must not have a key twice.
-/
import Timeline.Markup.Layout
import Timeline.Markup.Node
import Timeline.Yaml.Resolution

namespace Timeline.Yaml

open Markup

/-! ### Aliases by number -/

/-- A node whose aliases are numbers. -/
inductive Link where
  | alias (number : Nat)
  | scalar (tag : Option (List UInt8)) (plain : Bool) (word : String)
  | seq (tag : Option (List UInt8)) (items : List Link)
  | map (tag : Option (List UInt8)) (pairs : List (Link × Link))
deriving Inhabited

/-- The anchors of the nodes that were visited. -/
structure Anchors where
  /-- The names with their numbers, the latest first. -/
  names : List (String × Nat) := []
  /-- The nodes that the numbers stand for, by the order of their anchors; the latest first. -/
  places : List (Nat × Nat) := []
  /-- The nodes with anchors, by the order of their anchors. -/
  nodes : List (Nat × Link) := []
  /-- The number of anchors. -/
  count : Nat := 0
  /-- The number of words that the nodes take: one for a scalar or an alias, two for the ends of a
  collection. -/
  size : Nat := 0

namespace Anchors

/-- The number of different names. -/
def distinct (a : Anchors) : Nat :=
  (a.names.map Prod.fst).eraseDups.length

/-- Enter a node with its anchor. -/
def enter (a : Anchors) (anchor : Option String) (size : Nat) : Anchors :=
  let a := { a with size := a.size + size }
  match anchor with
  | none => a
  | some name =>
    let number := a.distinct
    { a with
      names := (name, number) :: a.names
      places := (number, a.count) :: a.places
      count := a.count + 1 }

/-- Leave a node whose anchor was entered as the one with a number. -/
def leave (a : Anchors) (anchor : Option String) (place : Nat) (node : Link) : Anchors :=
  if anchor.isSome then { a with nodes := (place, node) :: a.nodes } else a

/-- The node that a number stands for. -/
def node? (a : Anchors) (number : Nat) : Option Link := do
  let place ← a.places.lookup number
  a.nodes.lookup place

mutual

/-- Turn the aliases of a node into numbers; an alias must come after an anchor of its name. -/
def link? (a : Anchors) : Node → Option (Link × Anchors)
  | .alias name => do
    let number ← a.names.lookup name
    return (.alias number, a.enter none 1)
  | .scalar p plain word =>
    let place := a.count
    let node : Link := .scalar p.tag plain word
    some (node, (a.enter p.anchor 1).leave p.anchor place node)
  | .seq p items => do
    let place := a.count
    let (items, a) ← linkItems? (a.enter p.anchor 2) items
    let node : Link := .seq p.tag items
    return (node, a.leave p.anchor place node)
  | .map p pairs => do
    let place := a.count
    let (pairs, a) ← linkPairs? (a.enter p.anchor 2) pairs
    let node : Link := .map p.tag pairs
    return (node, a.leave p.anchor place node)

/-- Turn the aliases of some nodes into numbers. -/
def linkItems? (a : Anchors) : List Node → Option (List Link × Anchors)
  | [] => some ([], a)
  | item :: rest => do
    let (item, a) ← link? a item
    let (items, a) ← linkItems? a rest
    return (item :: items, a)

/-- Turn the aliases of some pairs into numbers. -/
def linkPairs? (a : Anchors) : List (Node × Node) → Option (List (Link × Link) × Anchors)
  | [] => some ([], a)
  | (key, value) :: rest => do
    let (key, a) ← link? a key
    let (value, a) ← link? a value
    let (pairs, a) ← linkPairs? a rest
    return ((key, value) :: pairs, a)

end

end Anchors

/-! ### Values -/

/-- The text that some octets are in UTF-8, if they are one. -/
def textOf? (octets : List UInt8) : Option String :=
  String.fromUTF8? ⟨octets.toArray⟩

/-- Whether a tag begins with an exclamation mark. -/
def isMarked (tag : List UInt8) : Bool :=
  tag.head? == some 0x21

/-- A tag of the author's own: a text that begins with an exclamation mark, of which two in front of
a name are as good as one.  The mark alone is a tag too, and stands for two of them. -/
def ownTag? (tag : List UInt8) : Option String :=
  if !isMarked tag then none
  else
    (textOf? tag).map fun text =>
      match text.toList with
      | ['!'] => "!!"
      | '!' :: '!' :: a :: rest => String.ofList ('!' :: a :: rest)
      | _ => text

/-- A value with a tag, if it is one of the author's own. -/
def withTag (tag : Option (List UInt8)) (value : Yaml) : Yaml :=
  match tag.bind ownTag? with
  | some tag => .tagged tag value
  | none => value

/-- The value of a scalar.  A tag that begins with an exclamation mark, but is no text, does not
count. -/
def ofScalar? (tag : Option (List UInt8)) (plain : Bool) (word : String) : Option Yaml :=
  let untagged? := if plain then ofPlain? word else some (.text word)
  match tag with
  | some t =>
    if isMarked t then untagged?.map (withTag tag)
    else ofCoreTag? ((textOf? t).getD "") word
  | none => untagged?

/-- The value of a node, with the number of aliases that may still be followed.  Collections nest
at most `depth` deep; `fuel` bounds the nesting of collections and aliases. -/
def compose? (anchors : Anchors) (depth : Nat) (node : Link) :
    Nat → StateT Nat Option Yaml
  | 0 => failure
  | fuel + 1 => do
    match node, depth with
    | .alias number, depth =>
      let left ← get
      if left = 0 then failure
      set (left - 1)
      match anchors.node? number with
      | some node => compose? anchors depth node fuel
      | none => failure
    | .scalar tag plain word, _ => (ofScalar? tag plain word : Option Yaml)
    | .seq _ _, 0 => failure
    | .seq tag items, depth + 1 =>
      let items ← items.mapM fun item => compose? anchors depth item fuel
      return withTag tag (.seq items)
    | .map _ _, 0 => failure
    | .map tag pairs, depth + 1 =>
      let pairs ← pairs.foldlM (fun done (key, value) => do
        let key ← compose? anchors depth key fuel
        if hasKey key done then failure
        let value ← compose? anchors depth value fuel
        return (key, value) :: done) []
      return withTag tag (.map pairs.reverse)

/-- Collections nest at most so deep. -/
def maxDepth : Nat := 128

/-- The value of the only document of a text; an empty text stands for nothing. -/
def ofText? (source : String) : Option Yaml := do
  let tokens ← Token.ofText? source
  match ← Node.ofTokens? tokens with
  | none => return .null
  | some node =>
    let (node, anchors) ← ({} : Anchors).link? node
    let (value, _) ← (compose? anchors maxDepth node (2 * maxDepth + 4)).run (100 * anchors.size)
    return value

end Timeline.Yaml
