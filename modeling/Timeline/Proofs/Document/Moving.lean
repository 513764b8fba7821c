/-
Timeline/Proofs/Document/Moving.lean

Moving a file tree.

One file tree is at two places, in one file system or in two.  Its includes are relative and do
not go up, so whatever is met under the one place is met under the other one, by the same names
(`Path.Beyond`).  What is around a place is never looked at.

Main result (`Loader.load_moves`): loading under the two places comes to the same, where the one
place stands for the other one in the path of an error, unless a path is too long under one of
the two; and under one place it comes to the same in every file system that has the tree there.
-/
import Timeline.Proofs.Document.Depth
import Timeline.Proofs.Document.Entries

namespace Timeline

namespace Path

variable {root root' p p' q : Path} {names : List String}

/-! ### Beyond a place -/

/-- A path leads on from a place by some names and does not go up. -/
structure Beyond (root p : Path) (names : List String) : Prop where
  absolute : p.isAbsolute
  counted : p.counted = root.counted ++ names
  inside : ".." ∉ names

theorem Beyond.join (h : root.Beyond p names) (hup : ".." ∉ q.counted) (hq : ¬ q.isAbsolute) :
    root.Beyond (p.join q) (names ++ q.counted) where
  absolute := isAbsolute_join_of_isAbsolute h.absolute q
  counted := by rw [counted_join hq, h.counted, List.append_assoc]
  inside := by
    rw [List.mem_append]
    exact not_or.2 ⟨h.inside, hup⟩

theorem Beyond.counts (h : root.Beyond p names) {s : String} (hs : s ∈ names) : counts s := by
  have hmem : s ∈ p.counted := by
    rw [h.counted]
    exact List.mem_append_right _ hs
  exact List.of_mem_filter hmem

/-- The same names lead from the one place to a path and from the other place to another path. -/
structure Moved (root root' p p' : Path) : Prop where
  names : ∃ names, root.Beyond p names ∧ root'.Beyond p' names
  closed : p.isClosed = p'.isClosed
  fixed : root = root' → p = p'

theorem Moved.join (h : ∃ names, root.Beyond p names ∧ root'.Beyond p' names)
    (hfixed : root = root' → p = p') (hup : ".." ∉ q.counted) (hq : ¬ q.isAbsolute) :
    Moved root root' (p.join q) (p'.join q) := by
  obtain ⟨names, hp, hp'⟩ := h
  refine ⟨⟨_, hp.join hup hq, hp'.join hup hq⟩, ?_, fun hroot => by rw [hfixed hroot]⟩
  rw [isClosed_join, isClosed_join]

/-- The one place stands at the front of a path where the other one stands in another path. -/
def Relocated (root root' p p' : Path) : Prop :=
  ∃ rest, p.parts = root.parts ++ rest ∧ p'.parts = root'.parts ++ rest

theorem Moved.relocated (h : Moved root root' p p') (hroot : root.isAbsolute)
    (hroot' : root'.isAbsolute) : Relocated root root' p p' := by
  obtain ⟨names, hp, hp'⟩ := h.names
  refine ⟨names.map part, ?_, ?_⟩
  · rw [parts_of_isAbsolute hp.absolute, parts_of_isAbsolute hroot, hp.counted, List.map_append]
    rfl
  · rw [parts_of_isAbsolute hp'.absolute, parts_of_isAbsolute hroot', hp'.counted, List.map_append]
    rfl

theorem Moved.same (hp : Moved root root' p p') {q' : Path} (hq : Moved root root' q q') :
    p.same q = p'.same q' := by
  obtain ⟨names, hp, hp'⟩ := hp.names
  obtain ⟨others, hq, hq'⟩ := hq.names
  rw [Bool.eq_iff_iff, same_iff_of_isAbsolute hp.absolute hq.absolute,
    same_iff_of_isAbsolute hp'.absolute hq'.absolute, hp.counted, hq.counted, hp'.counted,
    hq'.counted, List.append_right_inj, List.append_right_inj]

end Path

/-! ### A tree in a file system -/

namespace FileTree

open Include

/-- Includes in a file tree are relative and do not go up. -/
def StaysInside (tree : FileTree) : Prop :=
  ∀ route v tag s, tree.Writes route v → tag = fileTag ∨ tag = folderTag → v.Asks tag (.text s) →
    ¬ (⟨s⟩ : Path).isAbsolute ∧ ".." ∉ (⟨s⟩ : Path).counted

/-- A folder with its entries is at an absolute path in a file system. -/
structure Mounted (fs : FileTree) (root : Path) (entries : List (String × FileTree)) : Prop where
  absolute : root.isAbsolute
  found : fs.find root = .ok (.folder entries)
  plain : fs.hasPlainNames

variable {fs fs' tree found : FileTree} {root root' p p' q q' : Path} {names : List String}
  {entries : List (String × FileTree)} {text : String}

theorem at?_of_follow (hup : ".." ∉ names) (hcounts : ∀ s ∈ names, Path.counts s)
    (h : follow [] tree names = .ok found) : tree.at? names = some found := by
  obtain ⟨around, hreached⟩ := Reached.root.follow h
  have hplace := hreached.at?
  rw [List.filter_eq_self.2 hcounts, Path.foldl_walk_names hup, List.append_nil,
    List.reverse_reverse] at hplace
  exact hplace

theorem follow_of_bind_settle {result : Except FileError FileTree} {closed : Bool}
    (h : result.bind (settle closed) = .ok found) : result = .ok found := by
  rcases result with e | (content | entries)
  · cases h
  · cases closed
    · cases h
    · exact h
  · exact h

/-- Beyond the place of a tree, only the tree is looked at. -/
theorem Mounted.find (h : fs.Mounted root entries) (hp : root.Beyond p names) : fs.find p =
    if names.any (·.toList.contains '\x00') then .error .badName
    else if p.text.utf8ByteSize > maxPath then .error .nameTooLong
    else (follow [] (.folder entries) names).bind (settle p.isClosed) := by
  have hroot := h.found
  rw [find_eq (Path.text_ne_of_isAbsolute h.absolute)] at hroot
  rw [find_eq (Path.text_ne_of_isAbsolute hp.absolute), hp.counted, List.any_append]
  split at hroot
  · cases hroot
  · rename_i hnul
    rw [Bool.eq_false_iff.2 hnul, Bool.false_or]
    split at hroot
    · cases hroot
    · obtain ⟨around, hrest⟩ := follow_append (follow_of_bind_settle hroot)
      rw [hrest, follow_of_not_mem hp.inside around []]

/-- A file beyond the place of a tree is a file of the tree, and its folder is beyond the place. -/
theorem Mounted.read (h : fs.Mounted root entries) (hp : root.Beyond p names)
    (hread : fs.read p = .ok text) :
    (folder entries).textAt? names = some text ∧ ∃ dir, (∃ name, names = dir ++ [name]) ∧
      ∃ folder, (∀ base, Loader.folderOf base p = folder) ∧ root.Beyond folder dir := by
  obtain ⟨-, last, hends⟩ := textAt?_of_read hread
  unfold FileTree.read at hread
  rcases hfind : fs.find p with e | place
  · rw [hfind] at hread
    cases hread
  · rw [hfind] at hread
    rw [h.find hp] at hfind
    have hfollow : follow [] (folder entries) names = .ok place := by
      split at hfind
      · cases hfind
      · split at hfind
        · cases hfind
        · exact follow_of_bind_settle hfind
    cases place with
    | folder _ => cases hread
    | file content =>
      have hplace := at?_of_follow hp.inside (fun s hs => hp.counts hs) hfollow
      refine ⟨?_, ?_⟩
      · rw [textAt?, hplace]
        simp only [bind, Except.bind] at hread
        split at hread
        · cases hread
          assumption
        · cases hread
      · -- the tree itself is a folder, so some name leads to the file
        rcases List.eq_nil_or_concat' names with rfl | ⟨dir, name, rfl⟩
        · cases hplace
        · obtain ⟨folder, hparent, hcounted, habsolute, -⟩ := hends.parent?
          have hfolder := habsolute hp.absolute
          refine ⟨dir, ⟨name, rfl⟩, folder, fun base => ?_, hfolder, ?_, ?_⟩
          · unfold Loader.folderOf Loader.anchor
            rw [hparent]
            exact if_neg (Path.text_ne_of_isAbsolute hfolder)
          · rw [hp.counted, ← List.append_assoc] at hcounted
            exact (List.append_inj' hcounted rfl).1.symm
          · exact fun hmem => hp.inside (List.mem_append_left _ hmem)

/-- The documents in a folder beyond the place of a tree are beyond it. -/
theorem Mounted.document (h : fs.Mounted root entries) {found : List String} {name : String}
    (hnames : fs.names? p = some found) (hname : name ∈ documents found) :
    ".." ∉ (⟨name⟩ : Path).counted ∧ ¬ (⟨name⟩ : Path).isAbsolute := by
  obtain ⟨hmem, hdocument⟩ := mem_documents.1 hname
  have hslash := not_mem_of_namesAt? h.plain (namesAt?_of_names? hnames) hmem
  exact Path.counted_of_document hslash hdocument

/-- An operand of a file beyond the place of a tree is relative and does not go up. -/
theorem Mounted.operand (h : fs.Mounted root entries) (hinside : StaysInside (.folder entries))
    (hp : root.Beyond p names) (hread : fs.read p = .ok text) {v : Yaml}
    (hparse : Yaml.ofText? text = some v) {tag s : String} (htag : tag = fileTag ∨ tag = folderTag)
    (hasks : v.Asks tag (.text s)) : ¬ (⟨s⟩ : Path).isAbsolute ∧ ".." ∉ (⟨s⟩ : Path).counted :=
  hinside names v tag s ⟨text, (h.read hp hread).1, hparse⟩ htag hasks

/-- Looking at the same names under two places comes to the same, unless a path is too long. -/
theorem Mounted.find_moved (h : fs.Mounted root entries) (h' : fs'.Mounted root' entries)
    (hp : Path.Moved root root' p p') : fs.find p = fs'.find p' ∨
    (root ≠ root' ∧ maxPath < p.text.utf8ByteSize ∧ fs.find p = .error .nameTooLong) ∨
    (root ≠ root' ∧ maxPath < p'.text.utf8ByteSize ∧ fs'.find p' = .error .nameTooLong) := by
  obtain ⟨names, hbeyond, hbeyond'⟩ := hp.names
  rw [h.find hbeyond, h'.find hbeyond', hp.closed]
  by_cases hnul : names.any (·.toList.contains '\x00')
  · rw [if_pos hnul, if_pos hnul]
    exact .inl rfl
  · rw [if_neg hnul, if_neg hnul]
    have hroot (hsize : p.text.utf8ByteSize ≠ p'.text.utf8ByteSize) : root ≠ root' := by
      rintro hroot
      exact hsize (by rw [hp.fixed hroot])
    by_cases hlong : p.text.utf8ByteSize > maxPath
    · by_cases hlong' : p'.text.utf8ByteSize > maxPath
      · rw [if_pos hlong, if_pos hlong']
        exact .inl rfl
      · exact .inr (.inl ⟨hroot (by omega), hlong, if_pos hlong⟩)
    · by_cases hlong' : p'.text.utf8ByteSize > maxPath
      · exact .inr (.inr ⟨hroot (by omega), hlong', if_pos hlong'⟩)
      · rw [if_neg hlong, if_neg hlong']
        exact .inl rfl

end FileTree

/-! ### Two loads -/

/-- Something could not be loaded as its path is too long. -/
inductive LoadError.Overlong : LoadError → Prop
  | unreadable {p : Path} : FileTree.maxPath < p.text.utf8ByteSize →
      Overlong (.unreadable p .nameTooLong)
  | noFolder {p : Path} : FileTree.maxPath < p.text.utf8ByteSize → Overlong (.noFolder p)

namespace Loader

open FileTree Include

variable {fs fs' : FileTree} {root root' entry p : Path} {entries : List (String × FileTree)}

/-- Under two places of a tree, loading keeps in step. -/
theorem paired_moved (h : fs.Mounted root entries) (h' : fs'.Mounted root' entries)
    (hinside : StaysInside (.folder entries)) :
    Paired fs fs' root root' (Path.Moved root root')
      fun e => root ≠ root' ∧ e.Overlong := by
  -- the folders of two files in a pair are in a pair, but for how they are written
  have hfolder {p p' : Path} {text : String} (hp : Path.Moved root root' p p')
      (htext : fs.read p = .ok text) (htext' : fs'.read p' = .ok text) :
      (∃ names, root.Beyond (folderOf root p) names ∧ root'.Beyond (folderOf root' p') names) ∧
        (root = root' → folderOf root p = folderOf root' p') := by
    obtain ⟨names, hbeyond, hbeyond'⟩ := hp.names
    obtain ⟨-, dir, ⟨name, rfl⟩, folder, hbase, hdir⟩ := h.read hbeyond htext
    obtain ⟨-, dir', ⟨name', hdir'⟩, folder', hbase', hdir''⟩ := h'.read hbeyond' htext'
    obtain rfl := (List.append_inj' hdir' rfl).1
    refine ⟨⟨dir, (hbase root).symm ▸ hdir, (hbase' root').symm ▸ hdir''⟩, fun hroot => ?_⟩
    obtain rfl := hp.fixed hroot
    rw [hbase root, hbase root']
  constructor
  case same => exact fun hp hq => hp.same hq
  case read =>
    intro p p' hp
    rcases h.find_moved h' hp with hfind | ⟨hne, hlong, hfind⟩ | ⟨hne, hlong, hfind⟩
    · left
      rw [FileTree.read, FileTree.read, hfind]
    · refine .inr (.inl ⟨.nameTooLong, ?_, hne, .unreadable hlong⟩)
      rw [FileTree.read, hfind]
      rfl
    · refine .inr (.inr ⟨.nameTooLong, ?_, hne, .unreadable hlong⟩)
      rw [FileTree.read, hfind]
      rfl
  case file =>
    intro p p' text s v hp htext htext' hparse hasks _
    obtain ⟨hnames, hfixed⟩ := hfolder hp htext htext'
    obtain ⟨names, hbeyond, -⟩ := hp.names
    obtain ⟨hrelative, hup⟩ := h.operand hinside hbeyond htext hparse (.inl rfl) hasks
    exact .join hnames hfixed hup hrelative
  case folder =>
    intro p p' q q' text s v hp htext htext' hparse hasks _ hq hq'
    obtain ⟨hnames, hfixed⟩ := hfolder hp htext htext'
    obtain ⟨names, hbeyond, -⟩ := hp.names
    obtain ⟨hrelative, hup⟩ := h.operand hinside hbeyond htext hparse (.inr rfl) hasks
    have hmoved : Path.Moved root root' q q' := hq ▸ hq' ▸ .join hnames hfixed hup hrelative
    have hnone {fs : FileTree} {q : Path} (hfind : fs.find q = .error .nameTooLong) :
        fs.names? q = none := by
      rw [names?, hfind]
    rcases h.find_moved h' hmoved with hfind | ⟨hne, hlong, hfind⟩ | ⟨hne, hlong, hfind⟩
    · refine .inl ⟨hmoved, by rw [names?, names?, hfind], fun names hnames name hname => ?_⟩
      obtain ⟨hup, hrelative⟩ := h.document hnames hname
      exact .join hmoved.names hmoved.fixed hup hrelative
    · exact .inr (.inl ⟨hnone hfind, hne, .noFolder hlong⟩)
    · exact .inr (.inr ⟨hnone hfind, hne, .noFolder hlong⟩)

/-- Two results are the same, where the one place stands for the other one in an error; or one of
them says that a path is too long. -/
def Moves {α : Type} (root root' : Path) (result result' : Except LoadError α) : Prop :=
  Loading.Agree (Path.Relocated root root') result result' ∨
    (∃ e, result = .error e ∧ e.Overlong) ∨ ∃ e, result' = .error e ∧ e.Overlong

/-- **File trees can be moved.**  If one file tree is at two places, and its includes are relative
and do not go up, then what is loaded from an entry under the one place is loaded under the other
one, be it a value, a document or an error, unless a path has become too long.  Nothing outside of
the tree matters: at one place, the result is the same in all file systems. -/
theorem load_moves (h : fs.Mounted root entries) (h' : fs'.Mounted root' entries)
    (hinside : StaysInside (.folder entries)) (hrelative : ¬ entry.isAbsolute)
    (hup : ".." ∉ entry.counted) :
    (Moves root root' (fresh root (loadFile fs entry)) (fresh root' (loadFile fs' entry)) ∧
      Moves root root' (fresh root (loadDocument fs entry)) (fresh root' (loadDocument fs' entry))) ∧
    (root = root' → fresh root (loadFile fs entry) = fresh root' (loadFile fs' entry) ∧
      fresh root (loadDocument fs entry) = fresh root' (loadDocument fs' entry)) := by
  have hentry : Path.Moved root root' (root.join entry) (root'.join entry) :=
    .join ⟨[], ⟨h.absolute, by simp, by simp⟩, ⟨h'.absolute, by simp, by simp⟩⟩ id hup hrelative
  have hfile := (paired_moved h h' hinside).loadPath_matches maxDepth hentry .nil
  have hdocument := loadDocument_matches hentry hfile
  have hmoves {α : Type} {result result' : Except LoadError α}
      (hcases : Loading.Agree (Path.Moved root root') result result' ∨
        (∃ e, result = .error e ∧ root ≠ root' ∧ e.Overlong) ∨
        ∃ e, result' = .error e ∧ root ≠ root' ∧ e.Overlong) :
      Moves root root' result result' ∧ (root = root' → result = result') := by
    rcases hcases with hagree | ⟨e, he, hne, hlong⟩ | ⟨e, he, hne, hlong⟩
    · exact ⟨.inl (hagree.mono fun _ _ hp => hp.relocated h.absolute h'.absolute),
        fun hroot => hagree.eq fun _ _ hp => hp.fixed hroot⟩
    · exact ⟨.inr (.inl ⟨e, he, hlong⟩), fun hroot => absurd hroot hne⟩
    · exact ⟨.inr (.inr ⟨e, he, hlong⟩), fun hroot => absurd hroot hne⟩
  obtain ⟨hvalues, hvalue⟩ := hmoves hfile.agree
  obtain ⟨hdocuments, hdoc⟩ := hmoves hdocument.agree
  exact ⟨⟨hvalues, hdocuments⟩, fun hroot => ⟨hvalue hroot, hdoc hroot⟩⟩

/-- The two files that include each other, in a folder beside another file. -/
def ringInFolder : FileTree :=
  .folder [("b.yaml", .file "1".toUTF8), ("d", ring)]

theorem staysInside_ring : StaysInside ring := by
  intro route v tag s hwrites htag hasks
  obtain ⟨⟨hreadA, hvalueA⟩, hreadB, hvalueB⟩ := ring_values
  obtain ⟨text, htext, hparse⟩ := hwrites
  -- the files of the tree are the two, and each writes one include
  have hroute : route = ["a.yaml"] ∨ route = ["b.yaml"] := by
    unfold textAt? at htext
    split at htext
    · rename_i hfile
      have hmem := mem_fileRoutes hfile
      have hroutes : fileRoutes ring = [["a.yaml"], ["b.yaml"]] := rfl
      simpa [hroutes] using hmem
    · cases htext
  have hname : s = "a.yaml" ∨ s = "b.yaml" := by
    rcases hroute with rfl | rfl
    · have hroute : (⟨"/a.yaml"⟩ : Path).routeFrom [] = ["a.yaml"] := by decide +kernel
      cases (hroute ▸ (textAt?_of_read hreadA).1).symm.trans htext
      cases hvalueA.symm.trans hparse
      exact .inr (Yaml.text.inj ((Yaml.asks_include_iff (.inl rfl)).1 hasks).2)
    · have hroute : (⟨"/b.yaml"⟩ : Path).routeFrom [] = ["b.yaml"] := by decide +kernel
      cases (hroute ▸ (textAt?_of_read hreadB).1).symm.trans htext
      cases hvalueB.symm.trans hparse
      exact .inl (Yaml.text.inj ((Yaml.asks_include_iff (.inl rfl)).1 hasks).2)
  rcases hname with rfl | rfl <;> decide +kernel

theorem load_moves_ring : ∃ entries, ring.Mounted ⟨"/"⟩ entries ∧ ringInFolder.Mounted ⟨"/d"⟩ entries ∧
    StaysInside (.folder entries) ∧
    Moves ⟨"/"⟩ ⟨"/d"⟩ (fresh ⟨"/"⟩ (loadFile ring ⟨"a.yaml"⟩))
      (fresh ⟨"/d"⟩ (loadFile ringInFolder ⟨"a.yaml"⟩)) := by
  have hring : ring.Mounted ⟨"/"⟩ _ := ⟨by decide, rfl, by decide +kernel⟩
  have hfolder : ringInFolder.Mounted ⟨"/d"⟩ _ := ⟨by decide, rfl, by decide +kernel⟩
  exact ⟨_, hring, hfolder, staysInside_ring,
    (load_moves hring hfolder staysInside_ring (by decide) (by decide)).1.1⟩

/-! ### Trees that cannot be moved -/

theorem loadFile_of_long {tree : FileTree} (hroot : root.isAbsolute)
    (hnul : ∀ s ∈ (root.join entry).counted, '\x00' ∉ s.toList)
    (hsize : maxPath < (root.join entry).text.utf8ByteSize) :
    fresh root (loadFile tree entry) = .error (.unreadable (root.join entry) .nameTooLong) := by
  unfold fresh
  rw [run_loadFile, maxDepth,
    run_loadPath_of_long (Path.isAbsolute_join_of_isAbsolute hroot entry) hnul hsize]

/-- One empty file. -/
def blank : FileTree :=
  .folder [("main.yaml", .file "".toUTF8)]

/-- The empty file in a folder. -/
def blankInFolder : FileTree :=
  .folder [("d", blank)]

theorem staysInside_blank : StaysInside blank := by
  intro route v tag s hwrites htag hasks
  obtain ⟨text, htext, hparse⟩ := hwrites
  have hnull : Yaml.ofText? "" = some .null := by cbv
  have hempty : text = "" := by
    unfold textAt? at htext
    split at htext
    · rename_i hfile
      have hmem := mem_fileRoutes hfile
      have hroutes : fileRoutes blank = [["main.yaml"]] := rfl
      obtain rfl : route = ["main.yaml"] := by simpa [hroutes] using hmem
      have hplace : blank.at? ["main.yaml"] = some (.file "".toUTF8) := rfl
      cases hplace.symm.trans hfile
      have hdecoded : String.fromUTF8? "".toUTF8 = some "" := by decide +kernel
      exact Option.some.inj (htext.symm.trans hdecoded)
    · cases htext
  cases hnull.symm.trans (hempty ▸ hparse)
  exact absurd hasks (Yaml.Untagged.scalar rfl).not_asks

/-- A file whose path is nearly too long is loaded under the root, and not in a folder. -/
theorem load_stays : ∃ entries, blank.Mounted ⟨"/"⟩ entries ∧ blankInFolder.Mounted ⟨"/d"⟩ entries ∧
    StaysInside (.folder entries) ∧ ¬ (dotted ⟨"main.yaml"⟩ 2042).isAbsolute ∧
    ".." ∉ (dotted ⟨"main.yaml"⟩ 2042).counted ∧
    fresh ⟨"/"⟩ (loadFile blank (dotted ⟨"main.yaml"⟩ 2042)) = .ok .null ∧
    ¬ Loading.Agree (Path.Relocated ⟨"/"⟩ ⟨"/d"⟩)
      (fresh ⟨"/"⟩ (loadFile blank (dotted ⟨"main.yaml"⟩ 2042)))
      (fresh ⟨"/d"⟩ (loadFile blankInFolder (dotted ⟨"main.yaml"⟩ 2042))) := by
  have hrelative := isAbsolute_dotted ⟨"main.yaml"⟩ 2041
  have hcounted : (dotted ⟨"main.yaml"⟩ 2042).counted = ["main.yaml"] := by
    rw [counted_dotted]
    decide
  have hplain : (⟨"main.yaml"⟩ : Path).EndsIn "main.yaml" := ⟨⟨[], by decide⟩, by decide, by decide⟩
  have hends := endsIn_dotted hplain 2042
  have hsize : (dotted ⟨"main.yaml"⟩ 2042).text.utf8ByteSize = 4093 := by
    rw [utf8ByteSize_dotted]
    decide
  have hjoin : ((⟨"/"⟩ : Path).join (dotted ⟨"main.yaml"⟩ 2042)).text
        = "/" ++ (dotted ⟨"main.yaml"⟩ 2042).text ∧
      ((⟨"/d"⟩ : Path).join (dotted ⟨"main.yaml"⟩ 2042)).text
        = "/d" ++ "/" ++ (dotted ⟨"main.yaml"⟩ 2042).text := by
    rw [Path.join, Path.join, if_neg hrelative, if_neg hrelative, if_neg (by decide),
      if_pos (by decide)]
    exact ⟨rfl, rfl⟩
  have hloaded : fresh ⟨"/"⟩ (loadFile blank (dotted ⟨"main.yaml"⟩ 2042)) = .ok .null := by
    have hread : blank.read ((⟨"/"⟩ : Path).join (dotted ⟨"main.yaml"⟩ 2042)) = .ok "" := by
      have habsolute := Path.isAbsolute_join_of_isAbsolute (p := ⟨"/"⟩) (by decide)
        (dotted ⟨"main.yaml"⟩ 2042)
      have hshort : ¬ ((⟨"/"⟩ : Path).join (dotted ⟨"main.yaml"⟩ 2042)).text.utf8ByteSize
          > maxPath := by
        rw [hjoin.1, String.utf8ByteSize_append, hsize]
        decide
      rw [FileTree.read, find_eq (Path.text_ne_of_isAbsolute habsolute), if_neg hshort,
        (hends.join ⟨"/"⟩).isClosed, Path.counted_join hrelative, hcounted]
      decide +kernel
    have hnull : Yaml.ofText? "" = some .null := by cbv
    exact loadFile_of_untagged hread hnull (.scalar rfl)
  have hlong : fresh ⟨"/d"⟩ (loadFile blankInFolder (dotted ⟨"main.yaml"⟩ 2042))
      = .error (.unreadable ((⟨"/d"⟩ : Path).join (dotted ⟨"main.yaml"⟩ 2042)) .nameTooLong) := by
    have hlong : maxPath < ((⟨"/d"⟩ : Path).join (dotted ⟨"main.yaml"⟩ 2042)).text.utf8ByteSize := by
      rw [hjoin.2, String.utf8ByteSize_append, hsize]
      decide
    have hnul : ∀ s ∈ ((⟨"/d"⟩ : Path).join (dotted ⟨"main.yaml"⟩ 2042)).counted,
        '\x00' ∉ s.toList := by
      rw [Path.counted_join hrelative, hcounted]
      decide +kernel
    exact loadFile_of_long (by decide) hnul hlong
  have hblank : blank.Mounted ⟨"/"⟩ _ := ⟨by decide, rfl, by decide +kernel⟩
  have hfolder : blankInFolder.Mounted ⟨"/d"⟩ _ := ⟨by decide, rfl, by decide +kernel⟩
  refine ⟨_, hblank, hfolder, staysInside_blank, hrelative, ?_, hloaded, ?_⟩
  · rw [hcounted]
    decide
  · rw [hloaded, hlong]
    rintro (- | -)

end Loader

end Timeline
