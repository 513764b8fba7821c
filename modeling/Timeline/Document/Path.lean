/-
Timeline/Document/Path.lean

Paths, as they are written.  A path is its text; no folder is looked at and no
`..` is resolved.  What a path says is the list of its parts, where doubled slashes
and points in the middle do not count; two paths are the same if their parts are.

Paths are joined and cut as texts, so that what does not count is kept where
nothing was cut.
-/

namespace Timeline

/-- A path, as it is written. -/
structure Path where
  text : String
deriving DecidableEq, Repr, Inhabited

namespace Path

/-! ### Parts -/

/-- A part of a path that counts. -/
inductive Part where
  /-- The slash in front. -/
  | root
  /-- A point in front. -/
  | here
  /-- Two points: the folder around. -/
  | up
  | name (text : String)
deriving DecidableEq, Repr

/-- What stands between the slashes of a text. -/
def pieces : List Char → List (List Char)
  | [] => [[]]
  | c :: rest =>
    if c = '/' then [] :: pieces rest
    else
      match pieces rest with
      | [] => [[c]]
      | piece :: others => (c :: piece) :: others

theorem pieces_ne_nil (cs : List Char) : pieces cs ≠ [] := by
  induction cs with
  | nil => simp [pieces]
  | cons c rest ih =>
    rw [pieces]
    split
    · simp
    · split <;> simp

/-- A slash divides the pieces of what is before it from those of what is behind it. -/
theorem pieces_append_slash (cs ds : List Char) :
    pieces (cs ++ '/' :: ds) = pieces cs ++ pieces ds := by
  induction cs with
  | nil => simp [pieces]
  | cons c rest ih =>
    by_cases hc : c = '/'
    · simp [pieces, hc, ih]
    · rcases hp : pieces rest with - | ⟨piece, others⟩
      · exact absurd hp (pieces_ne_nil rest)
      · simp [pieces, hc, ih, hp]

/-- What has no slash in it is one piece. -/
theorem pieces_of_not_mem {cs : List Char} (h : '/' ∉ cs) : pieces cs = [cs] := by
  induction cs with
  | nil => rfl
  | cons c rest ih =>
    obtain ⟨hc, hrest⟩ := not_or.1 (mt List.mem_cons.2 h)
    simp [pieces, Ne.symm hc, ih hrest]

/-- What stands between the slashes of a path. -/
def segments (p : Path) : List String :=
  (pieces p.text.toList).map String.ofList

/-- Whether a path starts at the root. -/
def isAbsolute (p : Path) : Bool :=
  p.text.toList.head? == some '/'

/-- What a path has in front of its body: a slash, a point, or nothing. -/
def front (p : Path) : String :=
  if p.isAbsolute then "/"
  else if p.segments.head? = some "." then "."
  else ""

/-- What stands between the slashes behind the front. -/
def body (p : Path) : List String :=
  if p.front = "/" then p.segments.tail
  else if p.front = "." then "" :: p.segments.tail
  else p.segments

/-- Whether a segment of the body counts. -/
def counts (segment : String) : Bool :=
  segment != "" && segment != "."

/-- The part that a segment stands for. -/
def part (segment : String) : Part :=
  if segment = ".." then .up else .name segment

/-- The parts of a path. -/
def parts (p : Path) : List Part :=
  let front : List Part := match p.front with
    | "/" => [.root]
    | "." => [.here]
    | _ => []
  front ++ (p.body.filter counts).map part

/-- Whether two paths say the same. -/
def same (p q : Path) : Bool :=
  p.parts == q.parts

/-! ### Joining -/

/-- Whether a text needs a slash before something is put behind it. -/
def needsSlash (s : String) : Bool :=
  match s.toList.getLast? with
  | some c => c != '/'
  | none => false

/-- A path seen from a base; an absolute path does not need one. -/
def join (base p : Path) : Path :=
  if p.isAbsolute then p
  else if needsSlash base.text then ⟨base.text ++ "/" ++ p.text⟩
  else ⟨base.text ++ p.text⟩

theorem join_of_isAbsolute {p : Path} (h : p.isAbsolute) (base : Path) : base.join p = p := by
  simp [join, h]

theorem join_empty_base {p : Path} : (⟨""⟩ : Path).join p = p := by
  by_cases h : p.isAbsolute <;> simp [join, h, needsSlash]

/-! ### Cutting -/

/-- Segments, the last one first, without those in front that do not count. -/
def trim (reversed : List String) : List String :=
  reversed.dropWhile fun segment => !counts segment

/-- The path without its last part; absent if there is none but the root. -/
def parent? (p : Path) : Option Path :=
  match trim p.body.reverse with
  | _ :: before => some ⟨p.front ++ "/".intercalate (trim before).reverse⟩
  | [] => if p.front = "." then some ⟨""⟩ else none

/-- The name at the end of a path. -/
def fileName? (p : Path) : Option String :=
  match trim p.body.reverse with
  | ".." :: _ => none
  | name :: _ => some name
  | [] => none

/-! ### Names -/

/-- A name without what is behind its last point, and that; a point in front of a name does not
count. -/
def cutName (name : String) : String × Option String :=
  let reversed := name.toList.reverse
  match reversed.dropWhile (· ≠ '.') with
  | _ :: c :: before =>
    (.ofList (c :: before).reverse, some (.ofList (reversed.takeWhile (· ≠ '.')).reverse))
  | _ => (name, none)

/-- A name without its extension. -/
def stem (name : String) : String :=
  (cutName name).1

/-- What a name has behind its last point. -/
def extension? (name : String) : Option String :=
  (cutName name).2

end Path

end Timeline
