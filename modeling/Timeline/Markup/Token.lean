/-
Timeline/Markup/Token.lean

The tokens of a YAML text.  The begin and the end of block collections are tokens
that stand for changes of the indentation.
-/

namespace Timeline.Markup

/-- A token of a YAML text. -/
inductive Token where
  /-- A directive that gives the version. -/
  | version
  /-- A directive that gives a handle for tags, and the octets that it stands for. -/
  | tagHandle (handle : String) (replacement : List UInt8)
  | documentStart
  | documentEnd
  | blockSequenceStart
  | blockMappingStart
  | blockEnd
  | flowSequenceStart
  | flowSequenceEnd
  | flowMappingStart
  | flowMappingEnd
  | blockEntry
  | flowEntry
  | key
  | value
  | anchor (name : String)
  | alias (name : String)
  /-- A tag, whose handle is empty if the tag is written in full. -/
  | tag (handle : String) (suffix : List UInt8)
  | scalar (plain : Bool) (text : String)
deriving DecidableEq, Repr

end Timeline.Markup
