/-
Timeline/Table.lean

Tables: named entries in the order in which the names first came.  Putting an
entry under a name that is there already replaces the entry in its place.
-/
namespace Timeline

/-- Named entries, in the order in which the names first came. -/
structure Table (α : Type) where
  entries : List (String × α) := []
deriving Inhabited, Repr

namespace Table

variable {α β : Type}

/-- The table without entries. -/
def empty : Table α := ⟨[]⟩

/-- Replace the entry of a name in its place, or append it. -/
def putIn (name : String) (entry : α) : List (String × α) → List (String × α)
  | [] => [(name, entry)]
  | (n, e) :: rest => if n = name then (n, entry) :: rest else (n, e) :: putIn name entry rest

/-- Put an entry under a name. -/
def put (t : Table α) (name : String) (entry : α) : Table α :=
  ⟨putIn name entry t.entries⟩

/-- The entry of a name. -/
def get? (t : Table α) (name : String) : Option α :=
  t.entries.lookup name

/-- Whether a name has an entry. -/
def contains (t : Table α) (name : String) : Bool :=
  (t.get? name).isSome

/-- The table without a name. -/
def erase (t : Table α) (name : String) : Table α :=
  ⟨t.entries.filter fun e => e.1 != name⟩

/-- The table with the given entries; of two entries of one name the later stands, in the place
of the first. -/
def ofList (entries : List (String × α)) : Table α :=
  entries.foldl (fun t e => t.put e.1 e.2) empty

/-- The names, in order. -/
def names (t : Table α) : List String :=
  t.entries.map Prod.fst

/-- The number of entries. -/
def size (t : Table α) : Nat :=
  t.entries.length

/-- The names in ascending order. -/
def sortedNames (t : Table α) : List String :=
  t.names.mergeSort fun a b => decide (a ≤ b)

/-! ### What a table holds after an operation -/

theorem lookup_putIn (name other : String) (entry : α) (entries : List (String × α)) :
    (putIn name entry entries).lookup other
      = if other = name then some entry else entries.lookup other := by
  induction entries with
  | nil => grind [putIn]
  | cons e rest ih => grind [putIn]

@[simp] theorem get?_empty (name : String) : (empty : Table α).get? name = none := rfl

@[simp] theorem get?_put (t : Table α) (name other : String) (entry : α) :
    (t.put name entry).get? other = if other = name then some entry else t.get? other :=
  lookup_putIn name other entry t.entries

theorem get?_put_self (t : Table α) (name : String) (entry : α) :
    (t.put name entry).get? name = some entry := by
  simp

/-- The names of a table are those that have an entry. -/
theorem mem_names_iff {t : Table α} {name : String} : name ∈ t.names ↔ t.contains name := by
  simp only [contains, get?, names, List.lookup_isSome_iff, List.mem_map, beq_iff_eq]
  exact ⟨fun ⟨e, he, hn⟩ => ⟨e, he, hn.symm⟩, fun ⟨e, he, hn⟩ => ⟨e, he, hn.symm⟩⟩

theorem mem_names_of_get? {t : Table α} {name : String} {entry : α}
    (h : t.get? name = some entry) : name ∈ t.names := by
  rw [mem_names_iff, contains, h]
  rfl

theorem map_fst_putIn (name : String) (entry : α) (entries : List (String × α)) :
    (putIn name entry entries).map Prod.fst
      = if name ∈ entries.map Prod.fst then entries.map Prod.fst
        else entries.map Prod.fst ++ [name] := by
  induction entries with
  | nil => rfl
  | cons e rest ih =>
    by_cases h : e.1 = name
    · simp [putIn, h]
    · have hne : name ≠ e.1 := fun he => h he.symm
      simp only [putIn, h, if_false, List.map_cons, ih, List.mem_cons, hne, false_or]
      split <;> simp

/-- A name keeps its place when it gets another entry, and a new name comes last. -/
theorem names_put (t : Table α) (name : String) (entry : α) :
    (t.put name entry).names = if name ∈ t.names then t.names else t.names ++ [name] :=
  map_fst_putIn name entry t.entries

end Table

end Timeline
