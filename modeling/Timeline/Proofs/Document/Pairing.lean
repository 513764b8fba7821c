/-
Timeline/Proofs/Document/Pairing.lean

Two loads side by side.

Two loaders load from two file systems.  Their paths come in pairs, and where paths are in a
pair, the same is found at both.  `Loading.Matches` says that what is done with the one comes
to the same as what is done with the other, up to the paths of an error, unless one of the two
stops for a reason of its own.

Main result (`Loader.Paired.loadPath_matches`): if the paths in files that are in a pair are in
pairs again, then loading keeps in step through all includes.
-/
import Timeline.Proofs.Document.Loading

namespace Timeline

/-! ### Errors and results -/

section

variable {pairs pairs' : Path → Path → Prop}

/-- Two errors are the same, but for paths that are in a pair. -/
inductive LoadError.Alike (pairs : Path → Path → Prop) : LoadError → LoadError → Prop
  | unreadable {p p' : Path} {cause : FileError} : pairs p p' →
      Alike pairs (.unreadable p cause) (.unreadable p' cause)
  | malformed {p p' : Path} : pairs p p' → Alike pairs (.malformed p) (.malformed p')
  | misshapen {p p' : Path} {cause : DataError} : pairs p p' →
      Alike pairs (.misshapen p cause) (.misshapen p' cause)
  | includeNotText {value : Yaml} : Alike pairs (.includeNotText value) (.includeNotText value)
  | includeEmpty : Alike pairs .includeEmpty .includeEmpty
  | noFolder {p p' : Path} : pairs p p' → Alike pairs (.noFolder p) (.noFolder p')
  | circular {p p' : Path} : pairs p p' → Alike pairs (.circular p) (.circular p')
  | badValue {target : String} {value : Float} :
      Alike pairs (.badValue target value) (.badValue target value)
  | endless {p p' : Path} : pairs p p' → Alike pairs (.endless p) (.endless p')

theorem LoadError.Alike.mono {e e' : LoadError} (h : e.Alike pairs e')
    (hpairs : ∀ p p', pairs p p' → pairs' p p') : e.Alike pairs' e' := by
  cases h with
  | unreadable hp => exact .unreadable (hpairs _ _ hp)
  | malformed hp => exact .malformed (hpairs _ _ hp)
  | misshapen hp => exact .misshapen (hpairs _ _ hp)
  | includeNotText => exact .includeNotText
  | includeEmpty => exact .includeEmpty
  | noFolder hp => exact .noFolder (hpairs _ _ hp)
  | circular hp => exact .circular (hpairs _ _ hp)
  | badValue => exact .badValue
  | endless hp => exact .endless (hpairs _ _ hp)

theorem LoadError.Alike.eq {e e' : LoadError} (h : e.Alike pairs e')
    (hpairs : ∀ p p', pairs p p' → p = p') : e = e' := by
  cases h.mono hpairs with
  | includeNotText | includeEmpty | badValue => rfl
  | unreadable hp | malformed hp | misshapen hp | noFolder hp | circular hp | endless hp => rw [hp]

/-- Two results are the same, but for paths of an error that are in a pair. -/
inductive Loading.Agree {α : Type} (pairs : Path → Path → Prop) :
    Except LoadError α → Except LoadError α → Prop
  | ok {a : α} : Agree pairs (.ok a) (.ok a)
  | error {e e' : LoadError} : e.Alike pairs e' → Agree pairs (.error e) (.error e')

variable {α : Type} {result result' : Except LoadError α}

theorem Loading.Agree.mono (h : Loading.Agree pairs result result')
    (hpairs : ∀ p p', pairs p p' → pairs' p p') : Loading.Agree pairs' result result' := by
  cases h with
  | ok => exact .ok
  | error he => exact .error (he.mono hpairs)

theorem Loading.Agree.eq (h : Loading.Agree pairs result result')
    (hpairs : ∀ p p', pairs p p' → p = p') : result = result' := by
  cases h with
  | ok => rfl
  | error he => rw [he.eq hpairs]

end

/-! ### In step -/

/-- Two things that are done with two loaders come to the same, up to paths, and leave both loaders
as they were; or one of them stops. -/
inductive Loading.Matches {α : Type} (pairs : Path → Path → Prop) (stops : LoadError → Prop)
    (act : Loading α) (l : Loader) (act' : Loading α) (l' : Loader) : Prop
  | ok {a : α} : act.run l = (.ok a, l) → act'.run l' = (.ok a, l') →
      Matches pairs stops act l act' l'
  | error {e e' : LoadError} : act.run l = (.error e, l) → act'.run l' = (.error e', l') →
      e.Alike pairs e' → Matches pairs stops act l act' l'
  | left {e : LoadError} : (act.run l).1 = .error e → stops e → Matches pairs stops act l act' l'
  | right {e : LoadError} : (act'.run l').1 = .error e → stops e →
      Matches pairs stops act l act' l'

namespace Loading

variable {α β : Type} {act act' : Loading α} {f f' : α → Loading β} {l l' : Loader}
  {pairs : Path → Path → Prop} {stops : LoadError → Prop}

namespace Matches

/-- What runs in the same way is as much in step. -/
theorem of_run_eq {other other' : Loading α} (h : Matches pairs stops act l act' l')
    (hrun : other.run l = act.run l)
    (hrun' : other'.run l' = act'.run l') : Matches pairs stops other l other' l' := by
  cases h with
  | ok ha ha' => exact .ok (hrun.trans ha) (hrun'.trans ha')
  | error he he' halike => exact .error (hrun.trans he) (hrun'.trans he') halike
  | left he hstops => exact .left (hrun ▸ he) hstops
  | right he hstops => exact .right (hrun' ▸ he) hstops

theorem pure {a : α} : Matches pairs stops (Pure.pure a) l (Pure.pure a) l' :=
  .ok rfl rfl

theorem throw {e e' : LoadError} (h : e.Alike pairs e') :
    Matches pairs stops (MonadExcept.throw e : Loading α) l (MonadExcept.throw e') l' :=
  .error rfl rfl h

theorem bind (h : Matches pairs stops act l act' l')
    (hf : ∀ a, Matches pairs stops (f a) l (f' a) l') :
    Matches pairs stops (act >>= f) l (act' >>= f') l' := by
  cases h with
  | @ok a ha ha' =>
    -- both loaders are as they were, so what comes next starts from the same ones
    exact (hf a).of_run_eq (run_bind_of_ok ha) (run_bind_of_ok ha')
  | @error e e' he he' halike =>
    have hrun : (act >>= f).run l = (.error e, l) := by
      rw [run_bind_of_error (congrArg Prod.fst he), he]
    have hrun' : (act' >>= f').run l' = (.error e', l') := by
      rw [run_bind_of_error (congrArg Prod.fst he'), he']
    exact .error hrun hrun' halike
  | left he hstops => exact .left (congrArg Prod.fst (run_bind_of_error he)) hstops
  | right he hstops => exact .right (congrArg Prod.fst (run_bind_of_error he)) hstops

theorem during {p p' : Path} (hidle : ¬ l.isActive p) (hidle' : ¬ l'.isActive p')
    (h : Matches pairs stops act (l.enter p) act' (l'.enter p')) :
    Matches pairs stops (Loader.during p act) l (Loader.during p' act') l' := by
  have hrun {act : Loading α} {l : Loader} {p : Path} {result : Except LoadError α}
      (hidle : ¬ l.isActive p) (hact : act.run (l.enter p) = (result, l.enter p)) :
      (Loader.during p act).run l = (result, l) := by
    rw [Loader.run_during, hact, Loader.leave_enter hidle]
  cases h with
  | ok ha ha' => exact .ok (hrun hidle ha) (hrun hidle' ha')
  | error he he' halike => exact .error (hrun hidle he) (hrun hidle' he') halike
  | left he hstops => exact .left he hstops
  | right he hstops => exact .right he hstops

/-- What is in step comes to the same, unless one of the two stops. -/
theorem agree (h : Matches pairs stops act l act' l') :
    Agree pairs (act.run l).1 (act'.run l').1 ∨
      (∃ e, (act.run l).1 = .error e ∧ stops e) ∨ ∃ e, (act'.run l').1 = .error e ∧ stops e := by
  cases h with
  | ok ha ha' =>
    rw [ha, ha']
    exact .inl .ok
  | error he he' halike =>
    rw [he, he']
    exact .inl (.error halike)
  | left he hstops => exact .inr (.inl ⟨_, he, hstops⟩)
  | right he hstops => exact .inr (.inr ⟨_, he, hstops⟩)

end Matches

end Loading

/-! ### Values -/

namespace Include

section

variable {tree tree' : FileTree} {load load' : Path → Loading Yaml} {l l' : Loader}
  {source source' : Path} {pairs : Path → Path → Prop} {stops : LoadError → Prop}

/-- With folders of the same names, all documents are loaded in step. -/
theorem folder_matches {path path' : Path} {names : List String}
    (hnames : tree.names? path = some names) (hnames' : tree'.names? path' = some names)
    (hload : ∀ name ∈ documents names,
      (load (path.join ⟨name⟩)).Matches pairs stops l (load' (path'.join ⟨name⟩)) l') :
    (folder tree load path).Matches pairs stops l (folder tree' load' path') l' := by
  have hfold (names : List String) (earlier : List (Yaml × Yaml)) (hload : ∀ name ∈ names,
      (load (path.join ⟨name⟩)).Matches pairs stops l (load' (path'.join ⟨name⟩)) l') :
      Loading.Matches pairs stops
        (names.foldlM (fun earlier name => do
          let content ← load (path.join ⟨name⟩)
          return Yaml.insert (.text (Path.stem name)) content earlier) earlier) l
        (names.foldlM (fun earlier name => do
          let content ← load' (path'.join ⟨name⟩)
          return Yaml.insert (.text (Path.stem name)) content earlier) earlier) l' := by
    induction names generalizing earlier with
    | nil => exact .pure
    | cons name names ih =>
      rw [List.foldlM_cons, List.foldlM_cons]
      have hfirst := hload name List.mem_cons_self
      exact (hfirst.bind fun _ => .pure).bind fun earlier =>
        ih earlier fun name hname => hload name (List.mem_cons_of_mem _ hname)
  unfold folder
  rw [hnames, hnames']
  exact (hfold (documents names) [] hload).bind fun _ => .pure

/-- The operand of an include is a path seen from the folder of the file, or it is none in both. -/
theorem operand_matches {β : Type} {f f' : Path → Loading β} (value : Yaml)
    (h : ∀ s, value = .text s → s ≠ "" → (f ((l.anchor source).join ⟨s⟩)).Matches pairs stops l
      (f' ((l'.anchor source').join ⟨s⟩)) l') :
    (operand source value >>= f).Matches pairs stops l (operand source' value >>= f') l' := by
  cases value with
  | text s =>
    by_cases hs : s = ""
    · subst hs
      simp only [operand, if_pos]
      exact .error rfl rfl .includeEmpty
    · have hrun {source : Path} {l : Loader} : (operand source (.text s)).run l
          = (.ok ((l.anchor source).join ⟨s⟩), l) := by
        simp only [operand, if_neg hs]
        rfl
      exact (h s rfl hs).of_run_eq (Loading.run_bind_of_ok hrun) (Loading.run_bind_of_ok hrun)
  | _ => exact .error rfl rfl .includeNotText

mutual

/-- Values are expanded in step if whatever they ask for is loaded in step. -/
theorem expand_matches (v : Yaml)
    (hfile : ∀ s, v.Asks fileTag (.text s) → s ≠ "" →
      (load ((l.anchor source).join ⟨s⟩)).Matches pairs stops l
        (load' ((l'.anchor source').join ⟨s⟩)) l')
    (hfolder : ∀ s, v.Asks folderTag (.text s) → s ≠ "" →
      (folder tree load ((l.anchor source).join ⟨s⟩)).Matches pairs stops l
        (folder tree' load' ((l'.anchor source').join ⟨s⟩)) l') :
    (expand tree load source v).Matches pairs stops l (expand tree' load' source' v) l' := by
  match v with
  | .tagged tag value =>
    unfold expand
    by_cases htag : tag = fileTag
    · rw [if_pos htag, if_pos htag]
      refine operand_matches value fun s hs hne => hfile s ?_ hne
      rw [htag, hs]
      exact .here
    · rw [if_neg htag, if_neg htag]
      by_cases htag' : tag = folderTag
      · rw [if_pos htag', if_pos htag']
        refine operand_matches value fun s hs hne => hfolder s ?_ hne
        rw [htag', hs]
        exact .here
      · rw [if_neg htag', if_neg htag']
        exact expand_matches value (fun s hasks => hfile s (.dropped htag htag' hasks))
          fun s hasks => hfolder s (.dropped htag htag' hasks)
  | .map entries =>
    unfold expand
    exact (expandPairs_matches entries (fun pair hpair s hasks => hfile s (.value hpair hasks))
      fun pair hpair s hasks => hfolder s (.value hpair hasks)).bind fun _ => .pure
  | .seq items =>
    unfold expand
    exact (expandItems_matches items (fun v hv s hasks => hfile s (.item hv hasks))
      fun v hv s hasks => hfolder s (.item hv hasks)).bind fun _ => .pure
  | .null => exact .pure
  | .bool _ => exact .pure
  | .int _ => exact .pure
  | .float _ => exact .pure
  | .text _ => exact .pure

theorem expandItems_matches (items : List Yaml)
    (hfile : ∀ v ∈ items, ∀ s, v.Asks fileTag (.text s) → s ≠ "" →
      (load ((l.anchor source).join ⟨s⟩)).Matches pairs stops l
        (load' ((l'.anchor source').join ⟨s⟩)) l')
    (hfolder : ∀ v ∈ items, ∀ s, v.Asks folderTag (.text s) → s ≠ "" →
      (folder tree load ((l.anchor source).join ⟨s⟩)).Matches pairs stops l
        (folder tree' load' ((l'.anchor source').join ⟨s⟩)) l') :
    (expandItems tree load source items).Matches pairs stops l
      (expandItems tree' load' source' items) l' := by
  match items with
  | [] => exact .pure
  | v :: rest =>
    unfold expandItems
    have hfirst := expand_matches v (hfile v List.mem_cons_self) (hfolder v List.mem_cons_self)
    have hrest := expandItems_matches rest (fun v hv => hfile v (List.mem_cons_of_mem _ hv))
      fun v hv => hfolder v (List.mem_cons_of_mem _ hv)
    exact hfirst.bind fun _ => hrest.bind fun _ => .pure

theorem expandPairs_matches (entries : List (Yaml × Yaml))
    (hfile : ∀ pair ∈ entries, ∀ s, pair.2.Asks fileTag (.text s) → s ≠ "" →
      (load ((l.anchor source).join ⟨s⟩)).Matches pairs stops l
        (load' ((l'.anchor source').join ⟨s⟩)) l')
    (hfolder : ∀ pair ∈ entries, ∀ s, pair.2.Asks folderTag (.text s) → s ≠ "" →
      (folder tree load ((l.anchor source).join ⟨s⟩)).Matches pairs stops l
        (folder tree' load' ((l'.anchor source').join ⟨s⟩)) l') :
    (expandPairs tree load source entries).Matches pairs stops l
      (expandPairs tree' load' source' entries) l' := by
  match entries with
  | [] => exact .pure
  | (key, v) :: rest =>
    unfold expandPairs
    have hfirst := expand_matches v (hfile (key, v) List.mem_cons_self)
      (hfolder (key, v) List.mem_cons_self)
    have hrest := expandPairs_matches rest
      (fun pair hpair => hfile pair (List.mem_cons_of_mem _ hpair))
      fun pair hpair => hfolder pair (List.mem_cons_of_mem _ hpair)
    exact hfirst.bind fun _ => hrest.bind fun _ => .pure

end

end

end Include

/-! ### Files -/

namespace Loader

open FileTree Include

variable {tree tree' : FileTree} {base base' : Path} {pairs : Path → Path → Prop}
  {stops : LoadError → Prop}

/-- At paths in a pair the same is found in two file systems, or looking there stops, and the paths
that are met from there are in pairs again. -/
structure Paired (tree tree' : FileTree) (base base' : Path) (pairs : Path → Path → Prop)
    (stops : LoadError → Prop) : Prop where
  same : ∀ {p p' q q' : Path}, pairs p p' → pairs q q' → p.same q = p'.same q'
  read : ∀ {p p' : Path}, pairs p p' → tree.read p = tree'.read p' ∨
    (∃ cause, tree.read p = .error cause ∧ stops (.unreadable p cause)) ∨
    ∃ cause, tree'.read p' = .error cause ∧ stops (.unreadable p' cause)
  file : ∀ {p p' : Path} {text s : String} {v : Yaml}, pairs p p' → tree.read p = .ok text →
    tree'.read p' = .ok text → Yaml.ofText? text = some v → v.Asks fileTag (.text s) → s ≠ "" →
    pairs ((folderOf base p).join ⟨s⟩) ((folderOf base' p').join ⟨s⟩)
  folder : ∀ {p p' q q' : Path} {text s : String} {v : Yaml}, pairs p p' → tree.read p = .ok text →
    tree'.read p' = .ok text → Yaml.ofText? text = some v → v.Asks folderTag (.text s) → s ≠ "" →
    q = (folderOf base p).join ⟨s⟩ → q' = (folderOf base' p').join ⟨s⟩ →
    (pairs q q' ∧ tree.names? q = tree'.names? q' ∧ ∀ names, tree.names? q = some names →
      ∀ name ∈ documents names, pairs (q.join ⟨name⟩) (q'.join ⟨name⟩)) ∨
    (tree.names? q = none ∧ stops (.noFolder q)) ∨ tree'.names? q' = none ∧ stops (.noFolder q')

theorem run_folder_of_none {load : Path → Loading Yaml} {l : Loader} {q : Path}
    (h : tree.names? q = none) : (Include.folder tree load q).run l = (.error (.noFolder q), l) := by
  unfold Include.folder
  rw [h]
  rfl

theorem Paired.isActive_eq (h : Paired tree tree' base base' pairs stops) {p p' : Path}
    {active active' : List Path} (hp : pairs p p') (hactive : List.Forall₂ pairs active active') :
    isActive ⟨base, active⟩ p = isActive ⟨base', active'⟩ p' := by
  unfold Loader.isActive
  induction hactive with
  | nil => rfl
  | cons hq _ ih => rw [List.any_cons, List.any_cons, ih, h.same hp hq]

/-- What two files in a pair write is loaded in step if what it leads to is. -/
theorem Paired.valueOf_matches (h : Paired tree tree' base base' pairs stops) {p p' : Path}
    {text : String} {active active' : List Path} {load load' : Path → Loading Yaml}
    (hp : pairs p p') (htext : tree.read p = .ok text) (htext' : tree'.read p' = .ok text)
    (hload : ∀ {q q'}, pairs q q' →
      (load q).Matches pairs stops ⟨base, active⟩ (load' q') ⟨base', active'⟩) :
    (valueOf tree load text p).Matches pairs stops ⟨base, active⟩ (valueOf tree' load' text p')
      ⟨base', active'⟩ := by
  unfold valueOf
  rcases hparse : Yaml.ofText? text with - | v
  · exact .throw (.malformed hp)
  · refine expand_matches v (fun s hasks hs => ?_) fun s hasks hs => ?_
    · exact hload (h.file hp htext htext' hparse hasks hs)
    · rcases h.folder hp htext htext' hparse hasks hs rfl rfl with
        ⟨hq, hnames, hdocuments⟩ | ⟨hnone, hstops⟩ | ⟨hnone, hstops⟩
      · rcases hfound : tree.names? ((folderOf base p).join ⟨s⟩) with - | names
        · have hfound' := hnames.symm.trans hfound
          exact .error (run_folder_of_none hfound) (run_folder_of_none hfound') (.noFolder hq)
        · refine folder_matches hfound (hnames.symm.trans hfound) fun name hname => ?_
          exact hload (hdocuments names hfound name hname)
      · exact .left (congrArg Prod.fst (run_folder_of_none hnone)) hstops
      · exact .right (congrArg Prod.fst (run_folder_of_none hnone)) hstops

/-- **Files are loaded in step**, at any depth of includes. -/
theorem Paired.loadPath_matches (h : Paired tree tree' base base' pairs stops) (depth : Nat)
    {p p' : Path} {active active' : List Path} (hp : pairs p p')
    (hactive : List.Forall₂ pairs active active') :
    (loadPath tree depth p).Matches pairs stops ⟨base, active⟩ (loadPath tree' depth p')
      ⟨base', active'⟩ := by
  -- the induction is on the depth, while the files that are being loaded stay in pairs
  induction depth generalizing p p' active active' with
  | zero => exact .throw (.endless hp)
  | succ depth ih =>
    have hrun := run_loadPath tree depth p ⟨base, active⟩
    have hrun' := run_loadPath tree' depth p' ⟨base', active'⟩
    by_cases hmet : isActive ⟨base, active⟩ p
    · have hmet' := (h.isActive_eq hp hactive).symm.trans hmet
      rw [if_pos hmet] at hrun
      rw [if_pos hmet'] at hrun'
      exact .error hrun hrun' (.circular hp)
    · have hmet' : ¬ isActive ⟨base', active'⟩ p' := h.isActive_eq hp hactive ▸ hmet
      rw [if_neg hmet] at hrun
      rw [if_neg hmet'] at hrun'
      rcases h.read hp with hread | ⟨cause, hread, hstops⟩ | ⟨cause, hread, hstops⟩
      · rcases htext : tree'.read p' with cause | text
        · rw [hread, htext] at hrun
          rw [htext] at hrun'
          exact .error hrun hrun' (.unreadable hp)
        · have hinner : List.Forall₂ pairs (p :: active) (p' :: active') := .cons hp hactive
          have hvalue := h.valueOf_matches hp (hread.trans htext) htext fun hq => ih hq hinner
          rw [hread, htext] at hrun
          rw [htext] at hrun'
          exact (hvalue.during hmet hmet').of_run_eq hrun hrun'
      · rw [hread] at hrun
        exact .left (congrArg Prod.fst hrun) hstops
      · rw [hread] at hrun'
        exact .right (congrArg Prod.fst hrun') hstops

/-- A document is loaded from its path as seen from the base. -/
theorem run_loadDocument (tree : FileTree) (base path : Path) :
    (loadDocument tree path).run { base } = (do
      let value ← loadPath tree maxDepth (base.join path)
      document value (base.join path) : Loading Document).run ⟨base, []⟩ := rfl

theorem document_matches {l l' : Loader} {p p' : Path} (value : Yaml) (hp : pairs p p') :
    Loading.Matches pairs stops (liftM (document value p) : Loading Document) l
      (liftM (document value p')) l' := by
  unfold document
  rcases Document.decode .yaml value.datum with cause | doc
  · exact .throw (.misshapen hp)
  · simp only
    rcases doc.badValue? with - | ⟨target, x⟩
    · exact .pure
    · exact .throw .badValue

/-- Documents are loaded in step if their files are. -/
theorem loadDocument_matches {path path' : Path} (hpath : pairs (base.join path) (base'.join path'))
    (h : (loadPath tree maxDepth (base.join path)).Matches pairs stops ⟨base, []⟩
      (loadPath tree' maxDepth (base'.join path')) ⟨base', []⟩) :
    (loadDocument tree path).Matches pairs stops { base }
      (loadDocument tree' path') { base := base' } :=
  (h.bind fun value => document_matches value hpath).of_run_eq (run_loadDocument tree base path)
    (run_loadDocument tree' base' path')

end Loader

end Timeline
