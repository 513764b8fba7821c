/-
Timeline/Proofs/Document/Splicing.lean

What a document says once its includes are in their places.

`FileTree.Loaded` is what the file at a route stands for: the value that it writes,
spliced as seen from its folder.  `FileTree.Spliced` goes through a value and says what
stands in the place of every node.  Nothing here knows of paths as texts, of files that
are being loaded, or of a depth.

Main results: what is spliced has no tags where a value stands (`Loaded.untagged`), it
is determined by the file (`Loaded.unique`), and a file that can be spliced does not
include itself, however many others are in between (`Loaded.not_cyclic`).
-/
import Timeline.Proofs.Document.Places
import Timeline.Yaml.Composition

namespace Timeline

namespace Yaml

/-- A value without parts. -/
def isScalar : Yaml → Bool
  | seq _ | map _ | tagged _ _ => false
  | _ => true

/-- There is no tag where a value stands; keys may have them. -/
inductive Untagged : Yaml → Prop
  | scalar {v : Yaml} : v.isScalar → Untagged v
  | seq {items : List Yaml} : (∀ v ∈ items, Untagged v) → Untagged (.seq items)
  | map {pairs : List (Yaml × Yaml)} : (∀ pair ∈ pairs, Untagged pair.2) → Untagged (.map pairs)

/-- A tag stands somewhere in a value where a value stands, and is not a part of an include. -/
inductive Asks : Yaml → String → Yaml → Prop
  | here {tag : String} {operand : Yaml} : Asks (.tagged tag operand) tag operand
  | dropped {other tag : String} {v operand : Yaml} : other ≠ Include.fileTag →
      other ≠ Include.folderTag → Asks v tag operand → Asks (.tagged other v) tag operand
  | item {items : List Yaml} {v operand : Yaml} {tag : String} : v ∈ items →
      Asks v tag operand → Asks (.seq items) tag operand
  | value {pairs : List (Yaml × Yaml)} {key v operand : Yaml} {tag : String} :
      (key, v) ∈ pairs → Asks v tag operand → Asks (.map pairs) tag operand

end Yaml

namespace Include

/-- A mapping of documents by the stems of their names, in the order of the names.  Where stems
clash, the later document takes the place of the earlier one. -/
def byStem (names : List String) (values : List Yaml) : List (Yaml × Yaml) :=
  let pairs := (names.zip values).map fun (name, value) => (Yaml.text (Path.stem name), value)
  if (names.map Path.stem).Nodup then pairs
  else pairs.foldl (fun pairs (key, value) => Yaml.insert key value pairs) []

end Include

namespace FileTree

open Include

/-- The value that the file at a route writes. -/
def Writes (tree : FileTree) (route : List String) (v : Yaml) : Prop :=
  ∃ text, tree.textAt? route = some text ∧ Yaml.ofText? text = some v

mutual

/-- What the file at a route stands for. -/
inductive Loaded (tree : FileTree) : List String → Yaml → Prop
  | file {route : List String} {v w : Yaml} : tree.Writes route v →
      Spliced tree route.dropLast v w → Loaded tree route w

/-- What a value in a folder stands for. -/
inductive Spliced (tree : FileTree) : List String → Yaml → Yaml → Prop
  | scalar {dir : List String} {v : Yaml} : v.isScalar → Spliced tree dir v v
  | seq {dir : List String} {items items' : List Yaml} : items.length = items'.length →
      (∀ (i : Nat) (v w : Yaml), items[i]? = some v → items'[i]? = some w → Spliced tree dir v w) →
      Spliced tree dir (.seq items) (.seq items')
  /-- Keys stay as they are. -/
  | map {dir : List String} {pairs pairs' : List (Yaml × Yaml)} :
      pairs.map Prod.fst = pairs'.map Prod.fst →
      (∀ (i : Nat) (pair pair' : Yaml × Yaml), pairs[i]? = some pair → pairs'[i]? = some pair' →
        Spliced tree dir pair.2 pair'.2) →
      Spliced tree dir (.map pairs) (.map pairs')
  /-- Another file. -/
  | file {dir : List String} {s : String} {w : Yaml} : s ≠ "" →
      Loaded tree (Path.routeFrom dir ⟨s⟩) w → Spliced tree dir (.tagged fileTag (.text s)) w
  /-- All documents in a folder. -/
  | folder {dir : List String} {s : String} {names : List String} {values : List Yaml} : s ≠ "" →
      tree.namesAt? (Path.routeFrom dir ⟨s⟩) = some names →
      (documents names).length = values.length →
      (∀ (i : Nat) (name : String) (w : Yaml), (documents names)[i]? = some name →
        values[i]? = some w →
        Loaded tree (Path.routeFrom (Path.routeFrom dir ⟨s⟩) ⟨name⟩) w) →
      Spliced tree dir (.tagged folderTag (.text s)) (.map (byStem (documents names) values))
  /-- Any other tag is dropped. -/
  | dropped {dir : List String} {tag : String} {v w : Yaml} : tag ≠ fileTag → tag ≠ folderTag →
      Spliced tree dir v w → Spliced tree dir (.tagged tag v) w

end

variable {tree : FileTree} {dir route route' : List String} {v w w' : Yaml}

theorem Writes.unique {v' : Yaml} (h : tree.Writes route v) (h' : tree.Writes route v') : v = v' := by
  obtain ⟨text, htext, hv⟩ := h
  obtain ⟨text', htext', hv'⟩ := h'
  cases htext.symm.trans htext'
  exact Option.some.inj (hv.symm.trans hv')

/-! ### No tags -/

end FileTree

namespace Yaml

theorem mem_insert {key value : Yaml} {pairs : List (Yaml × Yaml)} {pair : Yaml × Yaml}
    (h : pair ∈ insert key value pairs) : pair.2 = value ∨ pair ∈ pairs := by
  induction pairs with
  | nil =>
    rw [List.mem_singleton.1 h]
    exact .inl rfl
  | cons first rest ih =>
    obtain ⟨other, old⟩ := first
    unfold insert at h
    split at h
    · rcases List.mem_cons.1 h with rfl | h
      · exact .inl rfl
      · exact .inr (List.mem_cons_of_mem _ h)
    · rcases List.mem_cons.1 h with rfl | h
      · exact .inr List.mem_cons_self
      · exact (ih h).imp_right (List.mem_cons_of_mem _)

end Yaml

namespace Include

/-- The values of the mapping are the documents. -/
theorem mem_of_mem_byStem {names : List String} {values : List Yaml} {pair : Yaml × Yaml}
    (h : pair ∈ byStem names values) : pair.2 ∈ values := by
  obtain ⟨pairs, hpairs⟩ : ∃ pairs, pairs =
      (names.zip values).map fun (name, value) => (Yaml.text (Path.stem name), value) := ⟨_, rfl⟩
  have hvalues : ∀ pair ∈ pairs, pair.2 ∈ values := by
    intro pair hpair
    rw [hpairs] at hpair
    obtain ⟨⟨name, value⟩, hmem, rfl⟩ := List.mem_map.1 hpair
    exact (List.of_mem_zip hmem).2
  have hfold (earlier : List (Yaml × Yaml)) (hearlier : ∀ pair ∈ earlier, pair.2 ∈ values) :
      ∀ pair ∈ pairs.foldl (fun pairs (key, value) => Yaml.insert key value pairs) earlier,
        pair.2 ∈ values := by
    clear hpairs h
    induction pairs generalizing earlier with
    | nil => exact hearlier
    | cons first rest ih =>
      refine ih (fun pair hpair => hvalues pair (List.mem_cons_of_mem _ hpair)) _ ?_
      intro pair hpair
      rcases Yaml.mem_insert hpair with heq | hpair
      · rw [heq]
        exact hvalues first List.mem_cons_self
      · exact hearlier pair hpair
  unfold byStem at h
  rw [← hpairs] at h
  simp only at h
  split at h
  · exact hvalues pair h
  · exact hfold [] (by simp) pair h

end Include

namespace FileTree

open Include

variable {tree : FileTree} {dir route route' : List String} {v w w' : Yaml}

/-- At the place of an element of a list, a list of the same length has one too. -/
theorem exists_getElem? {α β : Type} {as : List α} {bs : List β} (hlength : as.length = bs.length)
    {b : β} (hb : b ∈ bs) : ∃ (i : Nat) (a : α), as[i]? = some a ∧ bs[i]? = some b := by
  obtain ⟨i, hi⟩ := List.getElem?_of_mem hb
  have hlt : i < as.length := hlength ▸ (List.getElem?_eq_some_iff.1 hi).1
  exact ⟨i, _, List.getElem?_eq_getElem hlt, hi⟩

theorem length_of_keys {pairs pairs' : List (Yaml × Yaml)}
    (h : pairs.map Prod.fst = pairs'.map Prod.fst) : pairs.length = pairs'.length := by
  simpa using congrArg List.length h

mutual

/-- What a file stands for has no tags where a value stands. -/
theorem Loaded.untagged {route : List String} {w : Yaml} : tree.Loaded route w → w.Untagged
  | .file _ h => h.untagged

theorem Spliced.untagged {dir : List String} {v w : Yaml} : tree.Spliced dir v w → w.Untagged
  | .scalar h => .scalar h
  | .seq hlength hitems => .seq fun w hw => by
    obtain ⟨i, v, hv, hw⟩ := exists_getElem? hlength hw
    exact (hitems i v w hv hw).untagged
  | .map hkeys hvalues => .map fun pair hpair => by
    obtain ⟨i, before, hbefore, hpair⟩ := exists_getElem? (length_of_keys hkeys) hpair
    exact (hvalues i before pair hbefore hpair).untagged
  | .file _ h => h.untagged
  | .folder _ _ hlength hvalues => .map fun pair hpair => by
    obtain ⟨i, name, hname, hvalue⟩ := exists_getElem? hlength (mem_of_mem_byStem hpair)
    exact (hvalues i name pair.2 hname hvalue).untagged
  | .dropped _ _ h => h.untagged

end

/-! ### One meaning -/

/-- Two lists of the same length are equal if their elements are. -/
theorem eq_of_getElem? {α β : Type} {as : List α} {bs bs' : List β} (hlength : as.length = bs.length)
    (hlength' : as.length = bs'.length)
    (h : ∀ (i : Nat) (a : α) (b b' : β), as[i]? = some a → bs[i]? = some b → bs'[i]? = some b' →
      b = b') :
    bs = bs' := by
  refine List.ext_getElem (hlength.symm.trans hlength') fun i hi hi' => ?_
  exact h i _ _ _ (List.getElem?_eq_getElem (hlength ▸ hi)) (List.getElem?_eq_getElem hi)
    (List.getElem?_eq_getElem hi')

mutual

/-- What a file stands for is determined by the tree. -/
theorem Loaded.unique {route : List String} {w w' : Yaml} :
    tree.Loaded route w → tree.Loaded route w' → w = w'
  | .file hwrites h, h' => by
    cases h' with
    | file hwrites' h' =>
      cases hwrites.unique hwrites'
      exact h.unique h'

theorem Spliced.unique {dir : List String} {v w w' : Yaml} :
    tree.Spliced dir v w → tree.Spliced dir v w' → w = w'
  | .scalar hscalar, h' => by
    cases h' with
    | scalar _ => rfl
    | _ => cases hscalar
  | .seq hlength hitems, h' => by
    cases h' with
    | scalar hscalar => cases hscalar
    | seq hlength' hitems' =>
      refine congrArg Yaml.seq (eq_of_getElem? hlength hlength' fun i v w w' hv hw hw' => ?_)
      exact (hitems i v w hv hw).unique (hitems' i v w' hv hw')
  | .map hkeys hvalues, h' => by
    cases h' with
    | scalar hscalar => cases hscalar
    | map hkeys' hvalues' =>
      have hlength := length_of_keys hkeys
      have hlength' := length_of_keys hkeys'
      refine congrArg Yaml.map (eq_of_getElem? hlength hlength' fun i pair q q' hpair hq hq' => ?_)
      have hkey := congrArg (fun keys => keys[i]?) (hkeys.symm.trans hkeys')
      simp only [List.getElem?_map, hq, hq', Option.map_some, Option.some.injEq] at hkey
      exact Prod.ext hkey ((hvalues i pair q hpair hq).unique (hvalues' i pair q' hpair hq'))
  | @Spliced.file _ _ s _ _ h, h' => by
    -- the tag tells the ways to read the value apart
    generalize hv : Yaml.tagged fileTag (.text s) = v at h'
    cases h' with
    | file _ h' =>
      cases (Yaml.tagged.inj hv).2
      exact h.unique h'
    | folder _ _ _ _ => exact absurd (Yaml.tagged.inj hv).1 (by decide)
    | dropped hfile _ _ => exact absurd (Yaml.tagged.inj hv).1.symm hfile
    | scalar hscalar =>
      subst hv
      cases hscalar
    | _ => cases hv
  | @Spliced.folder _ _ s _ _ _ hnames hlength hvalues, h' => by
    generalize hv : Yaml.tagged folderTag (.text s) = v at h'
    cases h' with
    | file _ _ => exact absurd (Yaml.tagged.inj hv).1 (by decide)
    | folder _ hnames' hlength' hvalues' =>
      cases (Yaml.tagged.inj hv).2
      cases hnames.symm.trans hnames'
      have hsame := eq_of_getElem? hlength hlength' fun i name w w' hname hw hw' =>
        (hvalues i name w hname hw).unique (hvalues' i name w' hname hw')
      rw [hsame]
    | dropped _ hfolder _ => exact absurd (Yaml.tagged.inj hv).1.symm hfolder
    | scalar hscalar =>
      subst hv
      cases hscalar
    | _ => cases hv
  | .dropped hfile hfolder h, h' => by
    cases h' with
    | scalar hscalar => cases hscalar
    | file _ _ => exact absurd rfl hfile
    | folder _ _ _ _ => exact absurd rfl hfolder
    | dropped _ _ h' => exact h.unique h'

end

end FileTree

/-! ### Which files include which -/

namespace Yaml

variable {tag other : String} {operand v : Yaml}

theorem not_asks_of_isScalar (h : v.isScalar) : ¬ v.Asks tag operand := by
  rintro (_ | _ | _ | _) <;> cases h

theorem asks_seq_iff {items : List Yaml} :
    (seq items).Asks tag operand ↔ ∃ v ∈ items, v.Asks tag operand := by
  constructor
  · rintro (_ | _ | ⟨hmem, h⟩ | _)
    exact ⟨_, hmem, h⟩
  · rintro ⟨v, hmem, h⟩
    exact .item hmem h

theorem asks_map_iff {pairs : List (Yaml × Yaml)} :
    (map pairs).Asks tag operand ↔ ∃ pair ∈ pairs, pair.2.Asks tag operand := by
  constructor
  · rintro (_ | _ | _ | ⟨hmem, h⟩)
    exact ⟨_, hmem, h⟩
  · rintro ⟨pair, hmem, h⟩
    exact .value hmem h

/-- Only the tag of an include counts, and nothing behind it. -/
theorem asks_include_iff (h : other = Include.fileTag ∨ other = Include.folderTag) :
    (tagged other v).Asks tag operand ↔ tag = other ∧ operand = v := by
  constructor
  · rintro (_ | ⟨hfile, hfolder, -⟩ | _ | _)
    · exact ⟨rfl, rfl⟩
    · rcases h with rfl | rfl
      · exact absurd rfl hfile
      · exact absurd rfl hfolder
  · rintro ⟨rfl, rfl⟩
    exact .here

theorem asks_dropped_iff (hfile : other ≠ Include.fileTag) (hfolder : other ≠ Include.folderTag) :
    (tagged other v).Asks tag operand ↔ (tag = other ∧ operand = v) ∨ v.Asks tag operand := by
  constructor
  · rintro (_ | ⟨-, -, h⟩ | _ | _)
    · exact .inl ⟨rfl, rfl⟩
    · exact .inr h
  · rintro (⟨rfl, rfl⟩ | h)
    · exact .here
    · exact .dropped hfile hfolder h

end Yaml

namespace FileTree

open Include Relation

variable {tree : FileTree} {dir route route' : List String} {v w : Yaml}

/-- A value in a folder includes the file at a route. -/
inductive Refers (tree : FileTree) (dir : List String) (v : Yaml) : List String → Prop
  | file {s : String} : v.Asks fileTag (.text s) → s ≠ "" →
      Refers tree dir v (Path.routeFrom dir ⟨s⟩)
  | folder {s : String} {names : List String} {name : String} : v.Asks folderTag (.text s) → s ≠ "" →
      tree.namesAt? (Path.routeFrom dir ⟨s⟩) = some names → name ∈ documents names →
      Refers tree dir v (Path.routeFrom (Path.routeFrom dir ⟨s⟩) ⟨name⟩)

/-- One file includes another one. -/
def Includes (tree : FileTree) (route route' : List String) : Prop :=
  ∃ v, tree.Writes route v ∧ tree.Refers route.dropLast v route'

theorem Refers.seq {items : List Yaml} (h : tree.Refers dir (.seq items) route) :
    ∃ v ∈ items, tree.Refers dir v route := by
  cases h with
  | file hasks hs =>
    obtain ⟨v, hmem, hasks⟩ := Yaml.asks_seq_iff.1 hasks
    exact ⟨v, hmem, .file hasks hs⟩
  | folder hasks hs hnames hname =>
    obtain ⟨v, hmem, hasks⟩ := Yaml.asks_seq_iff.1 hasks
    exact ⟨v, hmem, .folder hasks hs hnames hname⟩

theorem Refers.map {pairs : List (Yaml × Yaml)} (h : tree.Refers dir (.map pairs) route) :
    ∃ pair ∈ pairs, tree.Refers dir pair.2 route := by
  cases h with
  | file hasks hs =>
    obtain ⟨pair, hmem, hasks⟩ := Yaml.asks_map_iff.1 hasks
    exact ⟨pair, hmem, .file hasks hs⟩
  | folder hasks hs hnames hname =>
    obtain ⟨pair, hmem, hasks⟩ := Yaml.asks_map_iff.1 hasks
    exact ⟨pair, hmem, .folder hasks hs hnames hname⟩

theorem Refers.dropped {tag : String} (hfile : tag ≠ fileTag) (hfolder : tag ≠ folderTag)
    (h : tree.Refers dir (.tagged tag v) route) : tree.Refers dir v route := by
  cases h with
  | file hasks hs =>
    rcases (Yaml.asks_dropped_iff hfile hfolder).1 hasks with ⟨htag, -⟩ | hasks
    · exact absurd htag.symm hfile
    · exact .file hasks hs
  | folder hasks hs hnames hname =>
    rcases (Yaml.asks_dropped_iff hfile hfolder).1 hasks with ⟨htag, -⟩ | hasks
    · exact absurd htag.symm hfolder
    · exact .folder hasks hs hnames hname

theorem Refers.fileTag {s : String} (h : tree.Refers dir (.tagged fileTag (.text s)) route) :
    route = Path.routeFrom dir ⟨s⟩ := by
  cases h with
  | file hasks _ => rw [Yaml.text.inj ((Yaml.asks_include_iff (.inl rfl)).1 hasks).2]
  | folder hasks _ _ _ => exact absurd ((Yaml.asks_include_iff (.inl rfl)).1 hasks).1 (by decide)

theorem Refers.folderTag {s : String} (h : tree.Refers dir (.tagged folderTag (.text s)) route) :
    ∃ names name, tree.namesAt? (Path.routeFrom dir ⟨s⟩) = some names ∧ name ∈ documents names ∧
      route = Path.routeFrom (Path.routeFrom dir ⟨s⟩) ⟨name⟩ := by
  cases h with
  | file hasks _ => exact absurd ((Yaml.asks_include_iff (.inr rfl)).1 hasks).1 (by decide)
  | folder hasks _ hnames hname =>
    rw [← Yaml.text.inj ((Yaml.asks_include_iff (.inr rfl)).1 hasks).2]
    exact ⟨_, _, hnames, hname, rfl⟩

mutual

/-- From a file that can be spliced, includes come to an end. -/
theorem Loaded.acc {route : List String} {w : Yaml} : tree.Loaded route w →
    Acc (fun inner outer => tree.Includes outer inner) route
  | .file hwrites h => .intro _ fun inner hinner => by
    obtain ⟨v, hv, hrefers⟩ := hinner
    cases hwrites.unique hv
    exact h.acc hrefers

theorem Spliced.acc {dir : List String} {v w : Yaml} {route : List String} :
    tree.Spliced dir v w → tree.Refers dir v route →
    Acc (fun inner outer => tree.Includes outer inner) route
  | .scalar hscalar, hrefers => by
    cases hrefers with
    | file hasks _ => exact absurd hasks (Yaml.not_asks_of_isScalar hscalar)
    | folder hasks _ _ _ => exact absurd hasks (Yaml.not_asks_of_isScalar hscalar)
  | .seq hlength hitems, hrefers => by
    obtain ⟨v, hmem, hrefers⟩ := hrefers.seq
    obtain ⟨i, w, hw, hv⟩ := exists_getElem? hlength.symm hmem
    exact (hitems i v w hv hw).acc hrefers
  | .map hkeys hvalues, hrefers => by
    obtain ⟨pair, hmem, hrefers⟩ := hrefers.map
    obtain ⟨i, pair', hpair', hpair⟩ := exists_getElem? (length_of_keys hkeys).symm hmem
    exact (hvalues i pair pair' hpair hpair').acc hrefers
  | .file _ h, hrefers => hrefers.fileTag ▸ h.acc
  | .folder _ hnames hlength hvalues, hrefers => by
    obtain ⟨names, name, hnames', hmem, rfl⟩ := hrefers.folderTag
    cases hnames.symm.trans hnames'
    obtain ⟨i, w, hw, hname⟩ := exists_getElem? hlength.symm hmem
    exact (hvalues i name w hname hw).acc
  | .dropped hfile hfolder h, hrefers => h.acc (hrefers.dropped hfile hfolder)

end

/-- **A file that can be spliced leads to none that includes itself**, however many others are in
between. -/
theorem Loaded.not_cyclic (h : tree.Loaded route w)
    (hreaches : ReflTransGen tree.Includes route route') :
    ¬ TransGen tree.Includes route' route' := by
  have hacc : Acc (fun inner outer => tree.Includes outer inner) route' := by
    induction hreaches with
    | refl => exact h.acc
    | tail _ hedge ih => exact ih.inv hedge
  -- a circle would be a way down without an end
  intro hcycle
  have hself := transGen_swap.2 hcycle
  have hnone {r : List String → List String → Prop} {a : List String} (h : Acc r a) : ¬ r a a := by
    induction h with
    | intro a _ ih => exact fun hself => ih a hself hself
  exact hnone hacc.transGen hself

end FileTree

end Timeline
