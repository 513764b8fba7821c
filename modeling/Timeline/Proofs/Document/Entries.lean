/-
Timeline/Proofs/Document/Entries.lean

The ways to a document.

A document is loaded from its path, by a loader of the folder that the path is seen from, or by
any loader from the whole path.  The first takes the path apart and puts it together again, so
that slashes and points that do not count are gone (`Path.EndsIn.respell`).

Main result (`Loader.load_agrees`): all ways lead to the same document or to the same error, as
long as the path is not too long to be followed as it is written; and once a path is absolute,
the base of a loader does not matter, at any depth of includes.
-/
import Timeline.Proofs.Document.Finding
import Timeline.Proofs.Document.Pairing

namespace Timeline

namespace Path

variable {p folder : Path} {name : String}

/-! ### The last name -/

theorem EndsIn.trim_body (h : p.EndsIn name) :
    ∃ inner, p.body = inner ++ [name] ∧ trim p.body.reverse = name :: inner.reverse := by
  obtain ⟨inner, hbody, -⟩ := h.body
  refine ⟨inner, hbody, ?_⟩
  rw [hbody, List.reverse_append]
  simp [trim, h.2.1]

theorem EndsIn.fileName? (h : p.EndsIn name) : p.fileName? = some name := by
  obtain ⟨inner, -, htrim⟩ := h.trim_body
  rw [Path.fileName?, htrim]
  split
  · rename_i heq
    exact absurd (List.cons.inj heq).1 h.2.2
  · rename_i heq
    rw [(List.cons.inj heq).1]
  · contradiction

/-- Of an absolute path, what does not count is dropped in front of its last name. -/
theorem EndsIn.parent_of_isAbsolute (h : p.EndsIn name) (habsolute : p.isAbsolute) :
    ∃ kept dropped, p.segments = "" :: (kept ++ dropped ++ [name]) ∧
      (∀ s ∈ dropped, ¬ counts s) ∧ (∀ s, kept.getLast? = some s → counts s) ∧
      p.parent? = some ⟨"/" ++ "/".intercalate kept⟩ := by
  obtain ⟨inner, hbody, htrim⟩ := h.trim_body
  have hfront : p.front = "/" := if_pos habsolute
  obtain ⟨rest, hrest⟩ := segments_of_isAbsolute habsolute
  have hinner : rest = inner ++ [name] := by
    rw [← hbody, Path.body, if_pos hfront, hrest, List.tail_cons]
  refine ⟨inner.rdropWhile fun s => !counts s, inner.rtakeWhile fun s => !counts s, ?_, ?_, ?_, ?_⟩
  · rw [List.rdropWhile_append_rtakeWhile, hrest, hinner]
  · intro s hs
    simpa using List.mem_rtakeWhile_imp hs
  · intro s hs
    have hne : (inner.rdropWhile fun s => !counts s) ≠ [] := by
      intro hnil
      rw [hnil] at hs
      cases hs
    have hlast := List.rdropWhile_last_not (fun s => !counts s) inner hne
    rw [List.getLast?_eq_some_getLast hne] at hs
    rw [Option.some.inj hs] at hlast
    simpa using hlast
  · rw [Path.parent?, htrim, hfront]
    rfl

/-- What is written if the last name is put behind the folder again. -/
theorem segments_join_name {kept : List String} (hkept : ∀ s ∈ kept, '/' ∉ s.toList)
    (hlast : ∀ s, kept.getLast? = some s → counts s) (hname : '/' ∉ name.toList) :
    ((⟨"/" ++ "/".intercalate kept⟩ : Path).join ⟨name⟩).segments = "" :: (kept ++ [name]) := by
  have hrelative : ¬ (⟨name⟩ : Path).isAbsolute := by
    intro habsolute
    obtain ⟨cs, hcs⟩ := isAbsolute_iff.1 habsolute
    exact hname (by rw [hcs]; exact List.mem_cons_self)
  have hslash (s : String) : "/" ++ s = "" ++ "/" ++ s := by simp
  have hempty : (⟨""⟩ : Path).segments = [""] := by decide
  by_cases hnil : kept = []
  · subst hnil
    have hjoin : (⟨"/" ++ "/".intercalate []⟩ : Path).join ⟨name⟩ = ⟨"/" ++ name⟩ := by
      rw [String.intercalate_nil, String.append_empty, join, if_neg hrelative, if_neg (by decide)]
    rw [hjoin, hslash, segments_slash, hempty, segments_of_not_mem hname]
    rfl
  · have hfolder : (⟨"/" ++ "/".intercalate kept⟩ : Path).segments = "" :: kept := by
      rw [hslash, segments_slash, hempty, segments_intercalate hkept hnil]
      rfl
    have hneeds : needsSlash ("/" ++ "/".intercalate kept) := by
      have hend := List.getLast?_eq_some_getLast hnil
      refine needsSlash_of_getLast? (p := ⟨"/" ++ "/".intercalate kept⟩) (s := kept.getLast hnil) ?_ ?_
      · rw [hfolder, List.getLast?_cons, hend]
        rfl
      · intro hnone
        have hcounts := hlast _ hend
        rw [hnone] at hcounts
        exact absurd hcounts (by decide)
    rw [join, if_neg hrelative, if_pos hneeds, segments_slash, hfolder, segments_of_not_mem hname]
    rfl

/-- **A path is taken apart and put together again**: it says the same, it is seen from the same
folder, and it has not become longer. -/
theorem EndsIn.respell (h : p.EndsIn name) (habsolute : p.isAbsolute)
    (hfolder : p.parent? = some folder) :
    (folder.join ⟨name⟩).EndsIn name ∧ (folder.join ⟨name⟩).isAbsolute ∧
      (folder.join ⟨name⟩).counted = p.counted ∧ (folder.join ⟨name⟩).parent? = some folder ∧
      (folder.join ⟨name⟩).text.utf8ByteSize ≤ p.text.utf8ByteSize := by
  obtain ⟨kept, dropped, hsegments, hdropped, hlast, hparent⟩ := h.parent_of_isAbsolute habsolute
  obtain rfl := Option.some.inj (hfolder.symm.trans hparent)
  have hslash : ∀ s ∈ kept ++ dropped ++ [name], '/' ∉ s.toList := fun s hs =>
    not_mem_of_mem_segments (p := p) (by rw [hsegments]; exact List.mem_cons_of_mem _ hs)
  have hjoined := segments_join_name (fun s hs => hslash s (by simp [hs])) hlast
    (hslash name (by simp))
  have hends : ((⟨"/" ++ "/".intercalate kept⟩ : Path).join ⟨name⟩).EndsIn name :=
    ⟨⟨"" :: kept, hjoined⟩, h.2⟩
  have hroot : (⟨"/" ++ "/".intercalate kept⟩ : Path).isAbsolute := by
    simp [isAbsolute]
  have habsolute' := isAbsolute_join_of_isAbsolute hroot ⟨name⟩
  refine ⟨hends, habsolute', ?_, ?_, ?_⟩
  · have hnone : dropped.filter counts = [] := List.filter_eq_nil_iff.2 hdropped
    rw [counted, counted, hjoined, hsegments]
    simp only [List.filter_cons, List.filter_append, hnone, List.append_nil]
  · obtain ⟨kept', dropped', hsegments', hdropped', -, hparent'⟩ :=
      hends.parent_of_isAbsolute habsolute'
    have hkept : kept = kept' ++ dropped' :=
      List.append_cancel_right (List.cons.inj (hjoined.symm.trans hsegments')).2
    -- nothing is dropped once more, as what is kept ends with what counts
    rcases List.eq_nil_or_concat' dropped' with rfl | ⟨front, last, rfl⟩
    · rw [hparent', hkept, List.append_nil]
    · have hcounts := hlast last (by rw [hkept, ← List.append_assoc, List.getLast?_concat])
      exact absurd hcounts (hdropped' last (by simp))
  · have hbytes := utf8ByteSize_eq p
    have hbytes' := utf8ByteSize_eq ((⟨"/" ++ "/".intercalate kept⟩ : Path).join ⟨name⟩)
    rw [hjoined] at hbytes'
    rw [hsegments] at hbytes
    simp only [List.map_cons, List.map_append, List.sum_cons, List.sum_append] at hbytes hbytes'
    omega

end Path

namespace Loader

open FileTree Include

variable {tree : FileTree} {root base other p q : Path} {name : String}

/-! ### Absolute paths -/

/-- The paths in a file with an absolute path are seen from its folder, whatever the base is. -/
theorem folderOf_of_isAbsolute (h : p.EndsIn name) (habsolute : p.isAbsolute) :
    ∃ folder, p.parent? = some folder ∧ folder.isAbsolute ∧ ∀ base, folderOf base p = folder := by
  obtain ⟨folder, hparent, -, hfolder, -⟩ := h.parent?
  refine ⟨folder, hparent, hfolder habsolute, fun base => ?_⟩
  unfold folderOf anchor
  rw [hparent]
  exact if_neg (Path.text_ne_of_isAbsolute (hfolder habsolute))

/-- Two absolute paths that are one and the same, or two spellings of an entry. -/
def Respelled (entry entry' p p' : Path) : Prop :=
  p.isAbsolute ∧ p'.isAbsolute ∧ (p = p' ∨ p = entry ∧ p' = entry')

/-- From two spellings of an entry, loaders with any bases go on alike. -/
theorem paired_respelled {entry entry' : Path} (hparts : entry.parts = entry'.parts)
    (hparent : entry.parent? = entry'.parent?) (hread : tree.read entry = tree.read entry') :
    Paired tree tree base other (Respelled entry entry') fun _ => False := by
  have hparts' {p p' : Path} (hp : Respelled entry entry' p p') : p.parts = p'.parts := by
    obtain ⟨-, -, rfl | ⟨rfl, rfl⟩⟩ := hp
    · rfl
    · exact hparts
  -- the paths in a file are the same ones, as its folder is
  have hinner {p p' : Path} {text : String} (hp : Respelled entry entry' p p')
      (htext : tree.read p = .ok text) (htext' : tree.read p' = .ok text) :
      ∃ folder : Path, folder.isAbsolute ∧ folderOf base p = folder ∧ folderOf other p' = folder := by
    obtain ⟨habsolute, habsolute', hspelled⟩ := hp
    obtain ⟨-, name, hends⟩ := textAt?_of_read htext
    obtain ⟨-, name', hends'⟩ := textAt?_of_read htext'
    obtain ⟨folder, hfolder, hroot, hbase⟩ := folderOf_of_isAbsolute hends habsolute
    obtain ⟨folder', hfolder', -, hbase'⟩ := folderOf_of_isAbsolute hends' habsolute'
    have hsame : p.parent? = p'.parent? := by
      rcases hspelled with rfl | ⟨rfl, rfl⟩
      · rfl
      · exact hparent
    obtain rfl := Option.some.inj (hfolder.symm.trans (hsame.trans hfolder'))
    exact ⟨folder, hroot, hbase base, hbase' other⟩
  have hself {folder : Path} (hfolder : folder.isAbsolute) (s : String) :
      Respelled entry entry' (folder.join ⟨s⟩) (folder.join ⟨s⟩) :=
    ⟨Path.isAbsolute_join_of_isAbsolute hfolder _,
     Path.isAbsolute_join_of_isAbsolute hfolder _, .inl rfl⟩
  constructor
  case same =>
    intro p p' q q' hp hq
    rw [Path.same, Path.same, hparts' hp, hparts' hq]
  case read =>
    rintro p p' ⟨-, -, rfl | ⟨rfl, rfl⟩⟩
    · exact .inl rfl
    · exact .inl hread
  case file =>
    intro p p' text s v hp htext htext' _ _ _
    obtain ⟨folder, hfolder, hp, hp'⟩ := hinner hp htext htext'
    rw [hp, hp']
    exact hself hfolder s
  case folder =>
    intro p p' q q' text s v hp htext htext' _ _ _ hq hq'
    obtain ⟨folder, hfolder, hp, hp'⟩ := hinner hp htext htext'
    rw [hp] at hq
    rw [hp'] at hq'
    subst hq hq'
    exact .inl ⟨hself hfolder s, rfl, fun names _ name _ =>
      hself (Path.isAbsolute_join_of_isAbsolute hfolder _) name⟩

/-- The base of a loader does not matter for an absolute path. -/
theorem paired_base (tree : FileTree) (base other : Path) :
    Paired tree tree base other (fun p p' => p.isAbsolute ∧ p = p') fun _ => False := by
  have h : Paired tree tree base other (Respelled ⟨""⟩ ⟨""⟩) fun _ => False :=
    paired_respelled rfl rfl rfl
  have hpairs : Respelled ⟨""⟩ ⟨""⟩ = fun p p' : Path => p.isAbsolute ∧ p = p' := by
    funext p p'
    refine propext ⟨?_, ?_⟩
    · rintro ⟨habsolute, -, rfl | ⟨rfl, rfl⟩⟩
      · exact ⟨habsolute, rfl⟩
      · exact ⟨habsolute, rfl⟩
    · rintro ⟨habsolute, rfl⟩
      exact ⟨habsolute, habsolute, .inl rfl⟩
  rwa [hpairs] at h

theorem loadPath_base {active : List Path} (depth : Nat) (hp : p.isAbsolute)
    (hactive : ∀ q ∈ active, q.isAbsolute) (base other : Path) :
    ((loadPath tree depth p).run ⟨base, active⟩).1
      = ((loadPath tree depth p).run ⟨other, active⟩).1 := by
  have hpairs : List.Forall₂ (fun p p' : Path => p.isAbsolute ∧ p = p') active active :=
    List.forall₂_same.2 fun q hq => ⟨hactive q hq, rfl⟩
  have hmatches := (paired_base tree base other).loadPath_matches depth ⟨hp, rfl⟩ hpairs
  rcases hmatches.agree with hagree | ⟨-, -, hnever⟩ | ⟨-, -, hnever⟩
  · exact hagree.eq fun _ _ h => h.2
  · exact hnever.elim
  · exact hnever.elim

/-! ### The ways to a document -/

/-- **All ways lead to the same document.**  A loader of the folder that an entry is seen from and
any other loader that is given the whole path come to the same result.  So does loading the path by
itself, up to the spelling of the path in an error, if the path ends in a name and is not too long
as it is written.  Once a path is absolute, the base does not matter, at whatever depth and
whichever files are being loaded. -/
theorem load_agrees (tree : FileTree) (root entry other : Path) (hroot : root.isAbsolute) :
    fresh other (loadDocument tree (root.join entry)) = fresh root (loadDocument tree entry) ∧
    (∀ name, entry.EndsIn name → (root.join entry).text.utf8ByteSize ≤ maxPath →
      Loading.Agree (fun p p' => p.same p') (Document.load tree (root.join entry))
        (fresh root (loadDocument tree entry))) ∧
    ∀ depth p active, p.isAbsolute → (∀ q ∈ active, q.isAbsolute) → ∀ base,
      ((loadPath tree depth p).run ⟨base, active⟩).1
        = ((loadPath tree depth p).run ⟨other, active⟩).1 := by
  have habsolute := Path.isAbsolute_join_of_isAbsolute hroot entry
  refine ⟨?_, fun name hends hsize => ?_, fun depth p active hp hactive base =>
    loadPath_base depth hp hactive base other⟩
  · -- an absolute path is the same from everywhere
    have hpair : other.join (root.join entry) = root.join entry :=
      Path.join_of_isAbsolute habsolute other
    have hpath : (other.join (root.join entry)).isAbsolute ∧
        other.join (root.join entry) = root.join entry := by
      rw [hpair]
      exact ⟨habsolute, rfl⟩
    have hmatches := loadDocument_matches hpath
      ((paired_base tree other root).loadPath_matches maxDepth hpath .nil)
    rcases hmatches.agree with hagree | ⟨-, -, hnever⟩ | ⟨-, -, hnever⟩
    · exact hagree.eq fun _ _ h => h.2
    · exact hnever.elim
    · exact hnever.elim
  · -- the path is taken apart into folder and name; put together again it may be spelled in
    -- another way, but it leads to the same file
    have hwhole := hends.join root
    obtain ⟨folder, hfolder, -⟩ := folderOf_of_isAbsolute hwhole habsolute
    obtain ⟨hends', habsolute', hcounted, hparent, hshorter⟩ := hwhole.respell habsolute hfolder
    have hload : Document.load tree (root.join entry)
        = fresh folder (loadDocument tree ⟨name⟩) := by
      rw [Document.load, hwhole.fileName?, hfolder]
      rfl
    have hparts : (folder.join ⟨name⟩).parts = (root.join entry).parts := by
      rw [Path.parts_of_isAbsolute habsolute', Path.parts_of_isAbsolute habsolute, hcounted]
    have hfind : tree.find (folder.join ⟨name⟩) = tree.find (root.join entry) := by
      rw [find_eq (Path.text_ne_of_isAbsolute habsolute'),
        find_eq (Path.text_ne_of_isAbsolute habsolute), hcounted,
        if_neg (show ¬ (folder.join ⟨name⟩).text.utf8ByteSize > maxPath by omega),
        if_neg (show ¬ (root.join entry).text.utf8ByteSize > maxPath by omega),
        hends'.isClosed, hwhole.isClosed]
    have hread : tree.read (folder.join ⟨name⟩) = tree.read (root.join entry) := by
      rw [FileTree.read, FileTree.read, hfind]
    have hpath : Respelled (folder.join ⟨name⟩) (root.join entry) (folder.join ⟨name⟩)
        (root.join entry) := ⟨habsolute', habsolute, .inr ⟨rfl, rfl⟩⟩
    have hmatches := loadDocument_matches hpath ((paired_respelled hparts
      (hparent.trans hfolder.symm) hread).loadPath_matches maxDepth hpath .nil)
    rw [hload]
    rcases hmatches.agree with hagree | ⟨-, -, hnever⟩ | ⟨-, -, hnever⟩
    · refine hagree.mono fun p p' hp => ?_
      obtain ⟨-, -, rfl | ⟨rfl, rfl⟩⟩ := hp
      · simp [Path.same]
      · simp [Path.same, hparts]
    · exact hnever.elim
    · exact hnever.elim

/-- A file whose document includes its steps from the same folder. -/
def mainAndSteps : FileTree :=
  .folder [("d", .folder [
    ("main.yaml", .file "scenario: !include steps.yaml".toUTF8),
    ("steps.yaml", .file "[]".toUTF8)])]

theorem load_agrees_mainAndSteps :
    (Document.load mainAndSteps ((⟨"/d"⟩ : Path).join ⟨"./main.yaml"⟩)).toBool ∧
    fresh ⟨"/nowhere"⟩ (loadDocument mainAndSteps ((⟨"/d"⟩ : Path).join ⟨"./main.yaml"⟩))
      = fresh ⟨"/d"⟩ (loadDocument mainAndSteps ⟨"./main.yaml"⟩) ∧
    Loading.Agree (fun p p' => p.same p')
      (Document.load mainAndSteps ((⟨"/d"⟩ : Path).join ⟨"./main.yaml"⟩))
      (fresh ⟨"/d"⟩ (loadDocument mainAndSteps ⟨"./main.yaml"⟩)) ∧
    ((loadPath mainAndSteps 2 ⟨"/d/main.yaml"⟩).run ⟨⟨"/d"⟩, [⟨"/d/steps.yaml"⟩]⟩).1
      = ((loadPath mainAndSteps 2 ⟨"/d/main.yaml"⟩).run ⟨⟨"/nowhere"⟩, [⟨"/d/steps.yaml"⟩]⟩).1 := by
  obtain ⟨hother, halone, hbase⟩ :=
    load_agrees mainAndSteps ⟨"/d"⟩ ⟨"./main.yaml"⟩ ⟨"/nowhere"⟩ (by decide)
  have hends : (⟨"./main.yaml"⟩ : Path).EndsIn "main.yaml" :=
    ⟨⟨["."], by decide +kernel⟩, by decide, by decide⟩
  exact ⟨by decide +kernel, hother, halone "main.yaml" hends (by decide +kernel),
    hbase 2 ⟨"/d/main.yaml"⟩ [⟨"/d/steps.yaml"⟩] (by decide) (by simp [Path.isAbsolute]) ⟨"/d"⟩⟩

/-! ### Entries that are not written as they should be -/

/-- A path that is too long as it is written is not loaded. -/
theorem run_loadPath_of_long (habsolute : p.isAbsolute) (hnul : ∀ s ∈ p.counted, '\x00' ∉ s.toList)
    (hsize : maxPath < p.text.utf8ByteSize) (base : Path) (depth : Nat) :
    (loadPath tree (depth + 1) p).run { base } = (.error (.unreadable p .nameTooLong), { base }) := by
  have hread : tree.read p = .error .nameTooLong := by
    have hany : ¬ p.counted.any (·.toList.contains '\x00') := by
      simpa using hnul
    rw [FileTree.read, find_eq (Path.text_ne_of_isAbsolute habsolute), if_neg hany, if_pos hsize]
    rfl
  rw [run_loadPath, if_neg (by simp [isActive]), hread]

theorem loadDocument_of_long {entry : Path} (hroot : root.isAbsolute)
    (hnul : ∀ s ∈ (root.join entry).counted, '\x00' ∉ s.toList)
    (hsize : maxPath < (root.join entry).text.utf8ByteSize) :
    fresh root (loadDocument tree entry) = .error (.unreadable (root.join entry) .nameTooLong) := by
  have hload : (loadPath tree maxDepth (root.join entry)).run { base := root }
      = (.error (.unreadable (root.join entry) .nameTooLong), { base := root }) :=
    run_loadPath_of_long (Path.isAbsolute_join_of_isAbsolute hroot entry) hnul hsize root _
  unfold fresh
  rw [run_loadDocument, Loading.run_bind_of_error (congrArg Prod.fst hload)]

/-- A path with points in front that do not count. -/
def dotted (p : Path) : Nat → Path
  | 0 => p
  | n + 1 => ⟨"." ++ "/" ++ (dotted p n).text⟩

theorem segments_dotted (p : Path) (n : Nat) :
    (dotted p n).segments = List.replicate n "." ++ p.segments := by
  induction n with
  | zero => rfl
  | succ n ih =>
    have hpoint : (⟨"."⟩ : Path).segments = ["."] := by decide
    rw [dotted, Path.segments_slash, hpoint, ih, List.replicate_succ]
    rfl

theorem utf8ByteSize_dotted (p : Path) (n : Nat) :
    (dotted p n).text.utf8ByteSize = 2 * n + p.text.utf8ByteSize := by
  induction n with
  | zero => simp [dotted]
  | succ n ih =>
    have hfront : ("." ++ "/").utf8ByteSize = 2 := by decide
    rw [dotted, String.utf8ByteSize_append, hfront, ih]
    omega

theorem isAbsolute_dotted (p : Path) (n : Nat) : ¬ (dotted p (n + 1)).isAbsolute := by
  simp [dotted, Path.isAbsolute]

theorem counted_dotted (p : Path) (n : Nat) : (dotted p n).counted = p.counted := by
  have hpoints : (List.replicate n ".").filter Path.counts = [] :=
    List.filter_eq_nil_iff.2 fun s hs => by
      rw [List.eq_of_mem_replicate hs]
      decide
  rw [Path.counted, segments_dotted, List.filter_append, hpoints]
  rfl

theorem endsIn_dotted {name : String} (h : p.EndsIn name) (n : Nat) : (dotted p n).EndsIn name := by
  obtain ⟨⟨before, hbefore⟩, hname⟩ := h
  refine ⟨⟨List.replicate n "." ++ before, ?_⟩, hname⟩
  rw [segments_dotted, hbefore, List.append_assoc]

/-- One file with an empty document. -/
def emptyScenario : FileTree :=
  .folder [("main.yaml", .file "scenario: []".toUTF8)]

/-- By itself, a path is loaded in its short spelling, so points in front of the name do not
matter. -/
theorem load_dotted (n : Nat) :
    Document.load emptyScenario ((⟨"/"⟩ : Path).join (dotted ⟨"main.yaml"⟩ (n + 1)))
      = fresh ⟨"/"⟩ (loadDocument emptyScenario ⟨"main.yaml"⟩) := by
  have hname : (⟨"main.yaml"⟩ : Path).segments = ["main.yaml"] := by decide
  have hentry : (dotted ⟨"main.yaml"⟩ (n + 1)).EndsIn "main.yaml" :=
    endsIn_dotted ⟨⟨[], hname⟩, by decide, by decide⟩ (n + 1)
  have habsolute := Path.isAbsolute_join_of_isAbsolute (p := ⟨"/"⟩) (by decide)
    (dotted ⟨"main.yaml"⟩ (n + 1))
  have hends := hentry.join ⟨"/"⟩
  obtain ⟨kept, dropped, hsegments, hdropped, hlast, hparent⟩ := hends.parent_of_isAbsolute habsolute
  -- before the name there are nothing but points
  have hwhole : ((⟨"/"⟩ : Path).join (dotted ⟨"main.yaml"⟩ (n + 1))).segments
      = "" :: (List.replicate (n + 1) "." ++ ["main.yaml"]) := by
    have htext : "/" ++ (dotted ⟨"main.yaml"⟩ (n + 1)).text
        = "" ++ "/" ++ (dotted ⟨"main.yaml"⟩ (n + 1)).text := by simp
    have hempty : (⟨""⟩ : Path).segments = [""] := by decide
    rw [Path.join, if_neg (isAbsolute_dotted _ n), if_neg (by decide), htext, Path.segments_slash,
      hempty, segments_dotted, hname]
    rfl
  have hpoints : List.replicate (n + 1) "." = kept ++ dropped :=
    List.append_cancel_right (List.cons.inj (hwhole.symm.trans hsegments)).2
  obtain rfl : kept = [] := by
    rcases List.eq_nil_or_concat' kept with hnil | ⟨front, last, rfl⟩
    · exact hnil
    · have hmem : last ∈ List.replicate (n + 1) "." := by simp [hpoints]
      have hcounts := hlast last List.getLast?_concat
      rw [List.eq_of_mem_replicate hmem] at hcounts
      exact absurd hcounts (by decide)
  rw [Document.load, hends.fileName?, hparent]
  rfl

/-- Where an entry is too long as it is written, or goes on behind its name, one way leads to the
document and another one to an error. -/
theorem load_disagrees :
    ((dotted ⟨"main.yaml"⟩ 2100).EndsIn "main.yaml" ∧ ¬ (dotted ⟨"main.yaml"⟩ 2100).isAbsolute ∧
      ".." ∉ (dotted ⟨"main.yaml"⟩ 2100).counted ∧
      ¬ Loading.Agree (fun p p' => p.same p')
        (Document.load emptyScenario ((⟨"/"⟩ : Path).join (dotted ⟨"main.yaml"⟩ 2100)))
        (fresh ⟨"/"⟩ (loadDocument emptyScenario (dotted ⟨"main.yaml"⟩ 2100)))) ∧
    (⟨"main.yaml/"⟩ : Path).fileName? = some "main.yaml" ∧
      ¬ Loading.Agree (fun p p' => p.same p')
        (Document.load emptyScenario ((⟨"/"⟩ : Path).join ⟨"main.yaml/"⟩))
        (fresh ⟨"/"⟩ (loadDocument emptyScenario ⟨"main.yaml/"⟩)) := by
  have hname : (⟨"main.yaml"⟩ : Path).segments = ["main.yaml"] := by decide
  have hcounted : (dotted ⟨"main.yaml"⟩ 2100).counted = ["main.yaml"] := by
    rw [counted_dotted]
    decide
  have hrelative := isAbsolute_dotted ⟨"main.yaml"⟩ 2099
  have hloaded : (fresh ⟨"/"⟩ (loadDocument emptyScenario ⟨"main.yaml"⟩)).toBool := by decide +kernel
  have hjoin : ((⟨"/"⟩ : Path).join (dotted ⟨"main.yaml"⟩ 2100)).text
      = "/" ++ (dotted ⟨"main.yaml"⟩ 2100).text := by
    rw [Path.join, if_neg hrelative, if_neg (by decide)]
  have hdiffer {result result' : Except LoadError Document} (h : result.toBool)
      (h' : ¬ result'.toBool) : ¬ Loading.Agree (fun p p' => p.same p') result result' := by
    rintro (- | -)
    · exact h' h
    · exact Bool.false_ne_true h
  refine ⟨⟨endsIn_dotted ⟨⟨[], hname⟩, by decide, by decide⟩ 2100, hrelative, ?_, hdiffer ?_ ?_⟩,
    by decide +kernel, hdiffer (by decide +kernel) (by decide +kernel)⟩
  · rw [hcounted]
    decide
  · rw [load_dotted 2099]
    exact hloaded
  · rw [loadDocument_of_long (by decide)]
    · exact Bool.false_ne_true
    · rw [Path.counted_join hrelative, hcounted]
      decide +kernel
    · rw [hjoin, String.utf8ByteSize_append, utf8ByteSize_dotted]
      decide

end Loader

end Timeline
