/-
Timeline/Document/Error.lean

Why a document cannot be loaded.
-/
import Timeline.Data.Error
import Timeline.Document.FileTree
import Timeline.Yaml.Value

namespace Timeline

/-- Why a document cannot be loaded. -/
inductive LoadError where
  /-- A file cannot be read. -/
  | unreadable (path : Path) (cause : FileError)
  /-- A text is no YAML. -/
  | malformed (path : Path)
  /-- A value is no document. -/
  | misshapen (path : Path) (cause : DataError)
  /-- What is to be included is not given by a text. -/
  | includeNotText (value : Yaml)
  /-- What is to be included is given by an empty text. -/
  | includeEmpty
  /-- There is no folder to include. -/
  | noFolder (path : Path)
  /-- A file includes itself, perhaps by others. -/
  | circular (path : Path)
  /-- An initial value is not finite. -/
  | badValue (target : String) (value : Float)
  /-- There is no depth left to load a file at. -/
  | endless (path : Path)

/-- The text of an error. -/
def LoadError.message : LoadError → String
  | unreadable path cause => "failed to read file " ++ path.text ++ ": " ++ cause.message
  | malformed path => "failed to parse YAML in " ++ path.text
  | misshapen path cause =>
    "invalid scenario document " ++ path.text ++ ": " ++ cause.message
  | includeNotText value =>
    "invalid include path '" ++ value.inspect ++ "': path must be a string"
  | includeEmpty => "invalid include path '': path must not be empty"
  | noFolder path => "directory not found: " ++ path.text
  | circular path => "circular include detected: " ++ path.text
  | badValue target value =>
    "invalid initial value for '" ++ target ++ "': " ++ specialText value
  | endless path => "includes do not end: " ++ path.text
where
  /-- The text of a number that is not finite. -/
  specialText (x : Float) : String :=
    if x.isNaN then "NaN" else if x < 0.0 then "-inf" else "inf"

end Timeline
