/-
Timeline/Document/Loader.lean

Loading documents from files and texts.  While a file is being loaded, it may not
be loaded again; afterwards, and also if it could not be loaded, it may.

No file is loaded within itself, and a path that is too long is not loaded at all.  So
files cannot include one another deeper than there are paths that are not too long, even
if a file is met by ever longer paths; this bounds the recursion.
-/
import Timeline.Document.Basic
import Timeline.Document.Include
import Timeline.Yaml.Composition

namespace Timeline

namespace Loader

/-- Do something while a file is being loaded; also if it fails, the file is not being loaded
afterwards. -/
def during {α : Type} (path : Path) (act : Loading α) : Loading α :=
  .mk do
    modify (·.enter path)
    let result ← act.run
    modify (·.leave path)
    return result

theorem run_during {α : Type} (path : Path) (act : Loading α) (l : Loader) :
    (during path act).run l
      = ((act.run (l.enter path)).1, (act.run (l.enter path)).2.leave path) := rfl

/-- The value of a text from a source, with what it includes. -/
def valueOf (tree : FileTree) (load : Path → Loading Yaml) (text : String) (source : Path) :
    Loading Yaml :=
  match Yaml.ofText? text with
  | some value => Include.expand tree load source value
  | none => throw (.malformed source)

/-- Load a file, with files that include one another up to a depth. -/
def loadPath (tree : FileTree) : Nat → Path → Loading Yaml
  | 0, path => throw (.endless path)
  | depth + 1, path => do
    if (← get).isActive path then throw (.circular path)
    match tree.read path with
    | .error cause => throw (.unreadable path cause)
    | .ok text => during path (valueOf tree (loadPath tree depth) text path)

/-- There are no more paths of at most so many bytes: at every place there is one of 256 bytes, or
the path is over. -/
@[irreducible] def pathCount (size : Nat) : Nat :=
  Nat.pow (256 + 1) size

/-- Files include one another less deep than this, as those that are being loaded have different
paths. -/
def maxDepth : Nat :=
  pathCount FileTree.maxPath + 1

/-- Load the value of a file. -/
def loadFile (tree : FileTree) (path : Path) : Loading Yaml := do
  loadPath tree maxDepth ((← get).resolve path)

/-- Load the value of a text; `source` names it and is where its paths are seen from. -/
def loadText (tree : FileTree) (text : String) (source : Path) : Loading Yaml :=
  valueOf tree (loadPath tree maxDepth) text source

/-- The document that a value from a source is; its initial values must be finite. -/
def document (value : Yaml) (source : Path) : Except LoadError Document :=
  match Document.decode .yaml value.datum with
  | .error cause => .error (.misshapen source cause)
  | .ok doc =>
    match doc.badValue? with
    | some (target, x) => .error (.badValue target x)
    | none => .ok doc

/-- Load the document in a file. -/
def loadDocument (tree : FileTree) (path : Path) : Loading Document := do
  let path := (← get).resolve path
  let value ← loadPath tree maxDepth path
  document value path

/-- The result of something that is done with a loader that loads nothing yet. -/
def fresh {α : Type} (base : Path) (act : Loading α) : Except LoadError α :=
  (act.run { base }).1

end Loader

namespace Document

/-- Load the document in a file; relative paths start in its folder. -/
def load (tree : FileTree) (path : Path) : Except LoadError Document :=
  let name := match path.fileName? with
    | some name => ⟨name⟩
    | none => path
  Loader.fresh (path.parent?.getD ⟨""⟩) (Loader.loadDocument tree name)

/-- A text that comes from no file goes by this name. -/
def textSource : Path := ⟨"<string>"⟩

/-- The document that a text writes. -/
def ofText (tree : FileTree) (text : String) : Except LoadError Document := do
  let value ← Loader.fresh ⟨"."⟩ (Loader.loadText tree text textSource)
  Loader.document value textSource

end Document

end Timeline
