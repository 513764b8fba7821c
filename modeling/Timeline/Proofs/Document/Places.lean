/-
Timeline/Proofs/Document/Places.lean

What is where in a file tree.

A place in a tree is given by its route, the names on the way from the root
(`FileTree.at?`).  A path is followed segment by segment and may go up again; main
result (`FileTree.at?_of_find`): it comes to the place at its route.  There are only so
many places with a file as there are files (`FileTree.length_le_fileCount`).
-/
import Timeline.Proofs.Document.Routes

namespace Timeline

namespace FileTree

variable {tree place : FileTree} {around : List FileTree} {passed : List String} {p : Path}

/-! ### Places -/

/-- What is at a route. -/
def at? : FileTree → List String → Option FileTree
  | tree, [] => some tree
  | .folder entries, name :: route =>
    match entries.lookup name with
    | some inner => inner.at? route
    | none => none
  | .file _, _ :: _ => none

/-- The text of the file at a route. -/
def textAt? (tree : FileTree) (route : List String) : Option String :=
  match tree.at? route with
  | some (.file content) => String.fromUTF8? content
  | _ => none

/-- The names in the folder at a route. -/
def namesAt? (tree : FileTree) (route : List String) : Option (List String) :=
  match tree.at? route with
  | some (.folder entries) => some (entries.map Prod.fst)
  | _ => none

theorem at?_append (tree : FileTree) (route behind : List String) :
    tree.at? (route ++ behind) = (tree.at? route).bind fun inner => inner.at? behind := by
  induction route generalizing tree with
  | nil => rfl
  | cons name route ih =>
    cases tree with
    | file content => rfl
    | folder entries =>
      simp only [List.cons_append, at?]
      split
      · exact ih _
      · rfl

/-! ### Following a path -/

theorem follow_folder (around : List FileTree) (entries : List (String × FileTree))
    (segment : String) (rest : List String) :
    follow around (.folder entries) (segment :: rest) =
      if !Path.counts segment then follow around (.folder entries) rest
      else if segment = ".." then
        match around with
        | [] => follow [] (.folder entries) rest
        | outer :: around => follow around outer rest
      else if segment.utf8ByteSize > maxName then .error .nameTooLong
      else
        match entries.lookup segment with
        | some inner => follow (.folder entries :: around) inner rest
        | none => .error .notFound :=
  follow.eq_def ..

/-- Who has passed some names, the last one first, is at a place with some folders around it. -/
inductive Reached (tree : FileTree) : List String → List FileTree → FileTree → Prop
  | root : Reached tree [] [] tree
  | inner {passed : List String} {around : List FileTree} {entries : List (String × FileTree)}
      {name : String} {place : FileTree} : Reached tree passed around (.folder entries) →
      entries.lookup name = some place →
      Reached tree (name :: passed) (.folder entries :: around) place

theorem Reached.at? (h : tree.Reached passed around place) :
    tree.at? passed.reverse = some place := by
  induction h with
  | root => rfl
  | @inner passed around entries name place _ hlookup ih =>
    rw [List.reverse_cons, at?_append, ih]
    simp only [Option.bind_some, FileTree.at?, hlookup]

/-- Two points lead to the folder around; the root is in itself. -/
theorem Reached.up (h : tree.Reached passed around place) {outer : FileTree}
    (houter : around.head? = some outer) :
    tree.Reached passed.tail around.tail outer ∧ ∃ entries, outer = .folder entries := by
  cases h with
  | root => cases houter
  | inner hbefore _ =>
    cases houter
    exact ⟨hbefore, _, rfl⟩

/-- Following segments passes the names that count. -/
theorem Reached.follow (h : tree.Reached passed around place) {segments : List String}
    {found : FileTree} (hfollow : FileTree.follow around place segments = .ok found) :
    ∃ around', tree.Reached (((segments.filter Path.counts).map Path.part).foldl Path.walk passed)
      around' found := by
  induction segments generalizing passed around place with
  | nil =>
    cases hfollow
    exact ⟨around, h⟩
  | cons segment rest ih =>
    cases place with
    | file content => cases hfollow
    | folder entries =>
      by_cases hcounts : Path.counts segment
      · rw [List.filter_cons_of_pos hcounts, List.map_cons, List.foldl_cons]
        by_cases hup : segment = ".."
        · -- two points drop the last name that was passed
          rw [Path.part, if_pos hup]
          rw [follow_folder, if_neg (by simp [hcounts]), if_pos hup] at hfollow
          rcases around with - | ⟨outer, around⟩
          · cases h with
            | root => exact ih .root hfollow
          · exact ih (h.up rfl).1 hfollow
        · rw [Path.part, if_neg hup]
          rw [follow_folder, if_neg (by simp [hcounts]), if_neg hup] at hfollow
          split at hfollow
          · cases hfollow
          · split at hfollow
            · rename_i hlookup
              exact ih (h.inner hlookup) hfollow
            · cases hfollow
      · rw [List.filter_cons_of_neg hcounts]
        rw [follow_folder, if_pos (by simpa using hcounts)] at hfollow
        exact ih h hfollow

/-- A file is found at the end of a path that ends in its name. -/
theorem Reached.endsIn (h : tree.Reached passed around place) {segments : List String}
    {content : ByteArray} (hfollow : FileTree.follow around place segments = .ok (.file content))
    (hne : segments ≠ []) :
    ∃ before name, segments = before ++ [name] ∧ Path.counts name ∧ name ≠ ".." := by
  induction segments generalizing passed around place with
  | nil => exact absurd rfl hne
  | cons segment rest ih =>
    have hbehind {passed : List String} {around : List FileTree} {place : FileTree}
        (hreached : tree.Reached passed around place)
        (hfollow : FileTree.follow around place rest = .ok (.file content)) (hrest : rest ≠ []) :
        ∃ before name, segment :: rest = before ++ [name] ∧ Path.counts name ∧ name ≠ ".." := by
      obtain ⟨before, name, rfl, hname⟩ := ih hreached hfollow hrest
      exact ⟨segment :: before, name, rfl, hname⟩
    -- nothing is left to follow, and this is no file
    have hfolder {around : List FileTree} {entries : List (String × FileTree)} (hrest : rest = []) :
        FileTree.follow around (.folder entries) rest ≠ .ok (.file content) := by
      rw [hrest]
      simp [FileTree.follow]
    cases place with
    | file content => cases hfollow
    | folder entries =>
      by_cases hcounts : Path.counts segment
      · by_cases hup : segment = ".."
        · rw [follow_folder, if_neg (by simp [hcounts]), if_pos hup] at hfollow
          rcases around with - | ⟨outer, around⟩
          · exact hbehind (by cases h; exact .root) hfollow fun hrest => hfolder hrest hfollow
          · obtain ⟨houter, entries', rfl⟩ := h.up rfl
            exact hbehind houter hfollow fun hrest => hfolder hrest hfollow
        · rw [follow_folder, if_neg (by simp [hcounts]), if_neg hup] at hfollow
          split at hfollow
          · cases hfollow
          · split at hfollow
            · rename_i hlookup
              by_cases hrest : rest = []
              · exact ⟨[], segment, by rw [hrest]; rfl, hcounts, hup⟩
              · exact hbehind (h.inner hlookup) hfollow hrest
            · cases hfollow
      · rw [follow_folder, if_pos (by simpa using hcounts)] at hfollow
        exact hbehind h hfollow fun hrest => hfolder hrest hfollow

theorem follow_of_find (h : tree.find p = .ok place) :
    FileTree.follow [] tree p.segments = .ok place := by
  unfold find at h
  split at h
  · cases h
  · split at h
    · cases h
    · split at h
      · cases h
      · exact h

/-- **A path comes to the place at its route.** -/
theorem at?_of_find (h : tree.find p = .ok place) : tree.at? (p.routeFrom []) = some place := by
  obtain ⟨around, hreached⟩ := Reached.root.follow (follow_of_find h)
  have hplace := hreached.at?
  rw [Path.routeFrom_eq]
  have hstart : (if p.isAbsolute then [] else ([] : List String).reverse) = [] := by
    split <;> rfl
  rw [hstart]
  exact hplace

/-- What is read is the text of the file at the route, and the path ends in the name of the file. -/
theorem textAt?_of_read {text : String} (h : tree.read p = .ok text) :
    tree.textAt? (p.routeFrom []) = some text ∧ ∃ name, p.EndsIn name := by
  unfold read at h
  rcases hfind : tree.find p with e | place
  · rw [hfind] at h
    cases h
  · rw [hfind] at h
    cases place with
    | folder entries => cases h
    | file content =>
      obtain ⟨before, name, hsegments, hcounts, hup⟩ :=
        Reached.root.endsIn (follow_of_find hfind) p.segments_ne_nil
      refine ⟨?_, name, ⟨before, hsegments⟩, hcounts, hup⟩
      rw [textAt?, at?_of_find hfind]
      simp only [bind, Except.bind] at h
      split at h
      · cases h
        assumption
      · cases h

/-- What is read has a path that is not too long. -/
theorem size_le_of_read {text : String} (h : tree.read p = .ok text) :
    p.text.utf8ByteSize ≤ maxPath := by
  by_contra hlong
  have hfind : ∃ e, tree.find p = .error e := by
    unfold find
    split
    · exact ⟨_, rfl⟩
    · rw [if_pos (Nat.lt_of_not_le hlong)]
      exact ⟨_, rfl⟩
  obtain ⟨e, hfind⟩ := hfind
  rw [read, hfind] at h
  cases h

theorem namesAt?_of_names? {names : List String} (h : tree.names? p = some names) :
    tree.namesAt? (p.routeFrom []) = some names := by
  unfold names? at h
  split at h
  · rename_i hfind
    rw [namesAt?, at?_of_find hfind]
    exact h
  · cases h

/-! ### Names -/

mutual

/-- No name has a slash. -/
def hasPlainNames : FileTree → Bool
  | .file _ => true
  | .folder entries => hasPlainNamesIn entries

/-- No name in some entries has a slash. -/
def hasPlainNamesIn : List (String × FileTree) → Bool
  | [] => true
  | (name, tree) :: rest => !name.toList.contains '/' && hasPlainNames tree && hasPlainNamesIn rest

end

theorem hasPlainNamesIn_iff {entries : List (String × FileTree)} : hasPlainNamesIn entries ↔
    ∀ name inner, (name, inner) ∈ entries → '/' ∉ name.toList ∧ hasPlainNames inner := by
  induction entries with
  | nil => simp [hasPlainNamesIn]
  | cons entry rest ih =>
    obtain ⟨name, inner⟩ := entry
    rw [hasPlainNamesIn, Bool.and_eq_true, Bool.and_eq_true, ih]
    constructor
    · rintro ⟨⟨hname, hinner⟩, hrest⟩ other place hmem
      rcases List.mem_cons.1 hmem with heq | hmem
      · cases heq
        exact ⟨by simpa using hname, hinner⟩
      · exact hrest other place hmem
    · intro h
      have hfirst := h name inner List.mem_cons_self
      exact ⟨⟨by simpa using hfirst.1, hfirst.2⟩,
        fun other place hmem => h other place (List.mem_cons_of_mem _ hmem)⟩

theorem hasPlainNames_of_at? {route : List String} (h : tree.hasPlainNames)
    (hplace : tree.at? route = some place) : place.hasPlainNames := by
  induction route generalizing tree with
  | nil =>
    cases hplace
    exact h
  | cons name route ih =>
    cases tree with
    | file content => cases hplace
    | folder entries =>
      simp only [at?] at hplace
      split at hplace
      · rename_i inner hlookup
        obtain ⟨front, back, rfl, -⟩ := List.lookup_eq_some_iff.1 hlookup
        rw [hasPlainNames, hasPlainNamesIn_iff] at h
        exact ih (h name inner (List.mem_append_right _ List.mem_cons_self)).2 hplace
      · cases hplace

/-- Names that are found in a tree have no slash either. -/
theorem not_mem_of_namesAt? {route names : List String} (h : tree.hasPlainNames)
    (hnames : tree.namesAt? route = some names) {name : String} (hname : name ∈ names) :
    '/' ∉ name.toList := by
  unfold namesAt? at hnames
  split at hnames
  · rename_i entries hplace
    cases hnames
    obtain ⟨⟨name, inner⟩, hmem, rfl⟩ := List.mem_map.1 hname
    have hentries := hasPlainNames_of_at? h hplace
    rw [hasPlainNames, hasPlainNamesIn_iff] at hentries
    exact (hentries name inner hmem).1
  · cases hnames

/-! ### Counting -/

mutual

/-- The number of files. -/
def fileCount : FileTree → Nat
  | .file _ => 1
  | .folder entries => fileCountIn entries

/-- The number of files in some entries. -/
def fileCountIn : List (String × FileTree) → Nat
  | [] => 0
  | (_, tree) :: rest => fileCount tree + fileCountIn rest

end

mutual

/-- The routes to all files. -/
def fileRoutes : FileTree → List (List String)
  | .file _ => [[]]
  | .folder entries => fileRoutesIn entries

/-- The routes to all files in some entries. -/
def fileRoutesIn : List (String × FileTree) → List (List String)
  | [] => []
  | (name, tree) :: rest => (fileRoutes tree).map (name :: ·) ++ fileRoutesIn rest

end

theorem length_fileRoutes (tree : FileTree) : (fileRoutes tree).length = fileCount tree := by
  refine fileRoutes.induct (fun tree => (fileRoutes tree).length = fileCount tree)
    (fun entries => (fileRoutesIn entries).length = fileCountIn entries) ?_ ?_ ?_ ?_ tree
  · exact fun _ => rfl
  · exact fun _ ih => ih
  · rfl
  · intro name tree rest htree hrest
    rw [fileRoutesIn, List.length_append, List.length_map, htree, hrest, fileCountIn]

theorem mem_fileRoutesIn {entries : List (String × FileTree)} {name : String}
    {route : List String} (hmem : (name, place) ∈ entries) (hroute : route ∈ fileRoutes place) :
    name :: route ∈ fileRoutesIn entries := by
  induction entries with
  | nil => cases hmem
  | cons entry rest ih =>
    obtain ⟨other, inner⟩ := entry
    rw [fileRoutesIn]
    rcases List.mem_cons.1 hmem with heq | hmem
    · cases heq
      exact List.mem_append_left _ (List.mem_map_of_mem hroute)
    · exact List.mem_append_right _ (ih hmem)

theorem mem_fileRoutes {route : List String} {content : ByteArray}
    (h : tree.at? route = some (.file content)) : route ∈ fileRoutes tree := by
  induction route generalizing tree with
  | nil =>
    cases h
    simp [fileRoutes]
  | cons name route ih =>
    cases tree with
    | file content => cases h
    | folder entries =>
      simp only [at?] at h
      split at h
      · rename_i inner hlookup
        obtain ⟨front, back, rfl, -⟩ := List.lookup_eq_some_iff.1 hlookup
        exact mem_fileRoutesIn (List.mem_append_right _ List.mem_cons_self) (ih h)
      · cases h

/-- **There are only so many places with a file as there are files.** -/
theorem length_le_fileCount {routes : List (List String)} (hnodup : routes.Nodup)
    (hfiles : ∀ route ∈ routes, ∃ content, tree.at? route = some (.file content)) :
    routes.length ≤ tree.fileCount := by
  rw [← length_fileRoutes]
  refine (hnodup.subperm fun route hroute => ?_).length_le
  obtain ⟨content, hfile⟩ := hfiles route hroute
  exact mem_fileRoutes hfile

end FileTree

end Timeline
