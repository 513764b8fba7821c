/-
Timeline/Document/FileTree.lean

Files and folders.  A path is followed from the root folder, segment by segment:
`..` leads to the folder around the one that was reached, so it counts what was
reached and not what is written.  A path that does not start at the root starts
there all the same.
-/
import Timeline.Document.Path

namespace Timeline

/-- A file with its bytes, or a folder. -/
inductive FileTree where
  | file (content : ByteArray)
  | folder (entries : List (String × FileTree))
deriving Inhabited

/-- Why a file cannot be read. -/
inductive FileError where
  /-- A path has a character that no name may have. -/
  | badName
  /-- There is nothing of this name. -/
  | notFound
  /-- A name has too many bytes, or the whole path has. -/
  | nameTooLong
  /-- A path goes on behind a file. -/
  | notFolder
  /-- There is a folder in the place of the file. -/
  | isFolder
  /-- The bytes are no text. -/
  | notText
deriving DecidableEq, Repr

/-- The text of an error. -/
def FileError.message : FileError → String
  | badName => "file name contained an unexpected NUL byte"
  | notFound => "No such file or directory (os error 2)"
  | nameTooLong => "File name too long (os error 36)"
  | notFolder => "Not a directory (os error 20)"
  | isFolder => "Is a directory (os error 21)"
  | notText => "stream did not contain valid UTF-8"

namespace FileTree

/-- A tree without any files. -/
def empty : FileTree :=
  .folder []

/-! ### Looking -/

/-- A name may have so many bytes. -/
def maxName : Nat := 255

/-- A path may have so many bytes, whatever its names are. -/
def maxPath : Nat := 4095

/-- Follow some segments from a place in a tree.  The folders around the place are `around`, the
innermost first; the root folder is in itself. -/
def follow (around : List FileTree) (place : FileTree) : List String → Except FileError FileTree
  | [] => .ok place
  | segment :: rest =>
    match place with
    | .file _ => .error .notFolder
    | .folder entries =>
      if !Path.counts segment then follow around place rest
      else if segment = ".." then
        match around with
        | [] => follow [] place rest
        | outer :: around => follow around outer rest
      else if segment.utf8ByteSize > maxName then .error .nameTooLong
      else
        match entries.lookup segment with
        | some inner => follow (place :: around) inner rest
        | none => .error .notFound

/-- What is at a path. -/
def find (tree : FileTree) (p : Path) : Except FileError FileTree :=
  if p.text.toList.contains '\x00' then .error .badName
  else if p.text.utf8ByteSize > maxPath then .error .nameTooLong
  else if p.text = "" then .error .notFound
  else follow [] tree p.segments

/-- The text of the file at a path. -/
def read (tree : FileTree) (p : Path) : Except FileError String := do
  match ← tree.find p with
  | .folder _ => .error .isFolder
  | .file content =>
    match String.fromUTF8? content with
    | some text => .ok text
    | none => .error .notText

/-- The names in the folder at a path, if there is one. -/
def names? (tree : FileTree) (p : Path) : Option (List String) :=
  match tree.find p with
  | .ok (.folder entries) => some (entries.map Prod.fst)
  | _ => none

/-! ### Making -/

/-- Change the entry of a name; `change` is given what is there. -/
def alter (name : String) (change : Option FileTree → FileTree) :
    List (String × FileTree) → List (String × FileTree)
  | [] => [(name, change none)]
  | (other, tree) :: rest =>
    if other = name then (other, change (some tree)) :: rest
    else (other, tree) :: alter name change rest

/-- Put something at a place, given by the names that lead there.  Folders are made where there are
none; a folder does not replace what is there. -/
def put (new : FileTree) : List String → Option FileTree → FileTree
  | [], old =>
    match new, old with
    | .folder [], some (.folder entries) => .folder entries
    | new, _ => new
  | name :: rest, old =>
    match old with
    | some (.folder entries) => .folder (alter name (put new rest) entries)
    | _ => .folder [(name, put new rest none)]

/-- The names that lead to a path from the root. -/
def route (p : Path) : List String :=
  (p.parts.foldl (fun done part =>
    match part with
    | .name s => s :: done
    | .up => done.tail
    | _ => done) []).reverse

/-- A tree with something at a path. -/
def write (tree : FileTree) (p : Path) (new : FileTree) : FileTree :=
  put new (route p) (some tree)

end FileTree

end Timeline
