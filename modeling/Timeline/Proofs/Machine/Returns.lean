/-
Timeline/Proofs/Machine/Returns.lean

Where a `resume` step leads.

The register that a `goto` step writes is a matter of the whole history: of the last
`goto` that was executed, and of what may have emptied the register since.
`Machine.returnAddress` reads it off the milestones, and `Machine.Awaits` says the
same without a function.  Main result (`Config.Reachable.returns`): that is what the
register holds whenever no step is under way, and a `resume` step goes on there.
-/
import Timeline.Proofs.Machine.Strides

namespace Timeline

/-! ### The register, read off the milestones -/

namespace Machine

variable {m : Machine} {events later earlier : List Event} {index : Nat} {step : Step}

/-- The step at an index is a `goto`. -/
def IsGoto (m : Machine) (index : Nat) : Prop :=
  ∃ step label, m.program.step? index = some step ∧ step.action = .goto label

/-- The step at an index is a `resume`. -/
def IsResume (m : Machine) (index : Nat) : Prop :=
  ∃ step, m.program.step? index = some step ∧ step.action = .resume

theorem IsGoto.not_isResume (h : m.IsGoto index) : ¬ m.IsResume index := by
  rintro ⟨step, hstep, hresume⟩
  obtain ⟨step', label, hstep', hgoto⟩ := h
  cases hstep.symm.trans hstep'
  cases hresume.symm.trans hgoto

/-- A milestone that touches the register: a `goto` or a `resume` that was executed, another pass of
a run, or a rewind. -/
inductive Readdresses (m : Machine) : Event → Prop
  | goto {call index : Nat} {flow : Flow} : m.IsGoto index →
      m.Readdresses (.ended call index flow)
  | resume {call index : Nat} {flow : Flow} : m.IsResume index →
      m.Readdresses (.ended call index flow)
  | restarted (call : Nat) : m.Readdresses (.restarted call)
  | rewound (call : Nat) : m.Readdresses (.rewound call)

/-- The `goto` at an index was executed, and nothing has touched the register since. -/
def Awaits (m : Machine) (events : List Event) (index : Nat) : Prop :=
  ∃ later call flow earlier, events = later ++ .ended call index flow :: earlier ∧
    m.IsGoto index ∧ ∀ e ∈ later, ¬ m.Readdresses e

/-- What a milestone makes of the register, if it touches it. -/
def readdress? (m : Machine) : Event → Option (Option Nat)
  | .ended _ index _ =>
    match (m.program.step? index).map Step.action with
    | some (.goto _) => some (some (index + 1))
    | some .resume => some none
    | _ => none
  | .restarted _ => some none
  | .rewound _ => some none
  | _ => none

/-- The register after some milestones, the latest first. -/
def returnAddress (m : Machine) (events : List Event) : Option Nat :=
  (events.findSome? m.readdress?).join

theorem readdress?_of_goto (h : m.IsGoto index) {call : Nat} {flow : Flow} :
    m.readdress? (.ended call index flow) = some (some (index + 1)) := by
  obtain ⟨step, label, hstep, haction⟩ := h
  simp [readdress?, hstep, haction]

theorem readdress?_of_resume (h : m.IsResume index) {call : Nat} {flow : Flow} :
    m.readdress? (.ended call index flow) = some none := by
  obtain ⟨step, hstep, haction⟩ := h
  simp [readdress?, hstep, haction]

theorem readdress?_eq_none_iff {e : Event} : m.readdress? e = none ↔ ¬ m.Readdresses e := by
  constructor
  · intro hnone htouches
    cases htouches with
    | goto h => cases (readdress?_of_goto h).symm.trans hnone
    | resume h => cases (readdress?_of_resume h).symm.trans hnone
    | restarted _ => cases hnone
    | rewound _ => cases hnone
  · intro hnot
    cases e with
    | ended call index flow =>
      simp only [readdress?]
      split
      · rename_i label haction
        obtain ⟨step, hstep, hgoto⟩ := Option.map_eq_some_iff.1 haction
        exact absurd (.goto ⟨step, label, hstep, hgoto⟩) hnot
      · rename_i haction
        obtain ⟨step, hstep, hresume⟩ := Option.map_eq_some_iff.1 haction
        exact absurd (.resume ⟨step, hstep, hresume⟩) hnot
      · rfl
    | restarted call => exact absurd (.restarted call) hnot
    | rewound call => exact absurd (.rewound call) hnot
    | _ => rfl

/-- Only a `goto` that was executed writes an address. -/
theorem readdress?_eq_some_some {e : Event} {a : Nat} (h : m.readdress? e = some (some a)) :
    ∃ call index flow, e = .ended call index flow ∧ m.IsGoto index ∧ a = index + 1 := by
  cases e with
  | ended call index flow =>
    by_cases hgoto : m.IsGoto index
    · rw [readdress?_of_goto hgoto] at h
      cases h
      exact ⟨call, index, flow, rfl, hgoto, rfl⟩
    · by_cases hresume : m.IsResume index
      · rw [readdress?_of_resume hresume] at h
        cases h
      · have hnone : m.readdress? (.ended call index flow) = none := by
          rw [readdress?_eq_none_iff]
          rintro (hgoto' | hresume')
          · exact hgoto hgoto'
          · exact hresume hresume'
        cases hnone.symm.trans h
  | restarted _ => cases h
  | rewound _ => cases h
  | _ => cases h

/-- **The register, read off the milestones.** -/
theorem returnAddress_eq_some_iff {a : Nat} :
    m.returnAddress events = some a ↔ ∃ index, a = index + 1 ∧ m.Awaits events index := by
  rw [returnAddress, Option.join_eq_some_iff, List.findSome?_eq_some_iff]
  constructor
  · rintro ⟨later, e, earlier, hevents, he, hlater⟩
    obtain ⟨call, index, flow, rfl, hgoto, ha⟩ := readdress?_eq_some_some he
    refine ⟨index, ha, later, call, flow, earlier, hevents, hgoto, ?_⟩
    intro e he
    exact readdress?_eq_none_iff.1 (hlater e he)
  · rintro ⟨index, rfl, later, call, flow, earlier, hevents, hgoto, hlater⟩
    refine ⟨later, _, earlier, hevents, readdress?_of_goto hgoto, ?_⟩
    intro e he
    exact readdress?_eq_none_iff.2 (hlater e he)

/-- What does not touch the register leaves it as it was. -/
theorem returnAddress_append (h : ∀ e ∈ later, ¬ m.Readdresses e) :
    m.returnAddress (later ++ earlier) = m.returnAddress earlier := by
  have hnone : later.findSome? m.readdress? = none := by
    rw [List.findSome?_eq_none_iff]
    intro e he
    exact readdress?_eq_none_iff.2 (h e he)
  rw [returnAddress, List.findSome?_append, hnone, Option.none_or, returnAddress]

theorem returnAddress_cons (e : Event) :
    m.returnAddress (e :: earlier) = (m.readdress? e).getD (m.returnAddress earlier) := by
  rw [returnAddress, List.findSome?_cons]
  cases m.readdress? e <;> rfl

/-! ### Steps that are under way -/

/-- What the step at an index does with the register: what it was before, what it is while the step
is under way, and what the step is busy with. -/
inductive Recalls (m : Machine) (index : Nat) (before : Option Nat) :
    Option Nat → Activity → Prop
  /-- A `goto` that goes on at its label. -/
  | goto {target : Nat} : m.IsGoto index →
      m.Recalls index before (some (index + 1)) (.finished (.jump target))
  /-- A `goto` whose label is unknown. -/
  | lost {e : StepError} : m.IsGoto index → m.Recalls index before before (.failed e)
  /-- A `resume` takes the address. -/
  | resume : m.IsResume index →
      m.Recalls index before none (.finished (before.elim .advance .jump))
  /-- Any other step leaves the register alone. -/
  | other {activity : Activity} : ¬ m.IsGoto index → ¬ m.IsResume index →
      m.Recalls index before before activity

/-- A step does with the register what its action says when it begins. -/
theorem recalls_of_begin (hstep : m.program.step? index = some step) {r r' : Registers}
    {activity : Activity} (hbegin : m.begin index step.action r = (r', activity)) :
    m.Recalls index r.returnTo r'.returnTo activity := by
  by_cases hgoto : ∃ label, step.action = .goto label
  · obtain ⟨label, haction⟩ := hgoto
    rw [haction] at hbegin
    rcases htarget : m.program.labelIndex? label with - | target
    · simp only [begin, htarget] at hbegin
      cases hbegin
      exact .lost ⟨step, label, hstep, haction⟩
    · simp only [begin, htarget] at hbegin
      cases hbegin
      exact .goto ⟨step, label, hstep, haction⟩
  · by_cases hresume : step.action = .resume
    · rw [hresume] at hbegin
      have hat : m.IsResume index := ⟨step, hstep, hresume⟩
      rcases haddress : r.returnTo with - | target
      · simp only [begin, haddress] at hbegin
        cases hbegin
        rw [haddress]
        exact .resume hat
      · simp only [begin, haddress] at hbegin
        cases hbegin
        exact .resume hat
    · have hafter := (m.begin_decides index step.action r).2.1
      rw [hbegin] at hafter
      -- no other action is one for the register
      have hsame : m.returnAfter index r.returnTo step.action = r.returnTo := by
        cases haction : step.action with
        | goto label => exact absurd ⟨label, haction⟩ hgoto
        | resume => exact absurd haction hresume
        | _ => rfl
      rw [hsame] at hafter
      rw [hafter]
      refine .other ?_ ?_
      · rintro ⟨step', label, hstep', haction⟩
        cases hstep.symm.trans hstep'
        exact hgoto ⟨label, haction⟩
      · rintro ⟨step', hstep', haction⟩
        cases hstep.symm.trans hstep'
        exact hresume haction

namespace Recalls

variable {before during : Option Nat} {activity activity' : Activity} {s s' : Stage} {flow : Flow}

theorem poll_busy (h : m.Recalls index before during activity)
    (hp : activity.poll s = (s', .busy activity')) :
    m.Recalls index before during activity' := by
  cases h with
  | goto _ => cases hp
  | lost _ => cases hp
  | resume _ => cases hp
  | other hgoto hresume => exact .other hgoto hresume

/-- A step that ends leaves the register as the milestone of its end says. -/
theorem poll_ok (h : m.Recalls index before during activity)
    (hp : activity.poll s = (s', .finished (.ok flow))) :
    (∀ call, (m.readdress? (.ended call index flow)).getD before = during) ∧
      (m.IsResume index → flow = before.elim .advance .jump) := by
  cases h with
  | goto hgoto =>
    refine ⟨fun call => by rw [readdress?_of_goto hgoto]; rfl, ?_⟩
    exact fun hresume => absurd hresume hgoto.not_isResume
  | lost _ => cases hp
  | resume hresume =>
    refine ⟨fun call => by rw [readdress?_of_resume hresume]; rfl, fun _ => ?_⟩
    cases hp
    rfl
  | other hgoto hresume =>
    refine ⟨fun call => ?_, fun h => absurd h hresume⟩
    have hnone : m.readdress? (.ended call index flow) = none := by
      rw [readdress?_eq_none_iff]
      rintro (hgoto' | hresume')
      · exact hgoto hgoto'
      · exact hresume hresume'
    rw [hnone]
    rfl

/-- A step that fails leaves the register as it was. -/
theorem poll_error (h : m.Recalls index before during activity) {e : StepError}
    (hp : activity.poll s = (s', .finished (.error e))) : during = before := by
  cases h with
  | goto _ => cases hp
  | lost _ => rfl
  | resume _ => cases hp
  | other _ _ => rfl

/-- A `resume` has emptied the register from the moment it began. -/
theorem eq_none_of_isResume (h : m.Recalls index before during activity)
    (hresume : m.IsResume index) : during = none := by
  cases h with
  | goto hgoto => exact absurd hresume hgoto.not_isResume
  | lost hgoto => exact absurd hresume hgoto.not_isResume
  | resume _ => rfl
  | other _ hother => exact absurd hresume hother

/-- A hold that is let go still leaves the register alone. -/
theorem released (h : m.Recalls index before during (.holding none)) (release : Release) :
    m.Recalls index before during (.holding (some release)) := by
  cases h with
  | other hgoto hresume => exact .other hgoto hresume

end Recalls

/-- All `resume` steps that were executed have gone on where the register said, or in place if it
was empty. -/
def Resumes (m : Machine) (events : List Event) : Prop :=
  ∀ later call index flow earlier, events = later ++ .ended call index flow :: earlier →
    m.IsResume index → flow = (m.returnAddress earlier).elim .advance .jump

theorem Resumes.cons (h : m.Resumes events) {e : Event}
    (he : ∀ call index flow, e = .ended call index flow → m.IsResume index →
      flow = (m.returnAddress events).elim .advance .jump) : m.Resumes (e :: events) := by
  rintro (- | ⟨e', later⟩) call index flow earlier hevents hresume
  · -- the end in question is the new milestone
    obtain ⟨hend, rfl⟩ := List.cons.inj hevents
    exact he call index flow hend hresume
  · exact h later call index flow earlier (List.cons.inj hevents).2 hresume

theorem Resumes.append (h : m.Resumes earlier)
    (hlater : ∀ e ∈ later, ∀ call index flow, e ≠ .ended call index flow) :
    m.Resumes (later ++ earlier) := by
  induction later with
  | nil => exact h
  | cons e later ih =>
    refine (ih fun e he => hlater e (List.mem_cons_of_mem _ he)).cons ?_
    intro call index flow hend _
    exact absurd hend (hlater e List.mem_cons_self call index flow)

end Machine

namespace Ledger

variable {m : Machine} {l l' : Ledger} {id : Nat} {who : Stepper} {events : List Event}

/-- The register is what the milestones say, up to the step that is under way. -/
structure Addressed (m : Machine) (l : Ledger) : Prop where
  resting : l.Resting → l.registers.returnTo = m.returnAddress l.stage.milestones
  stepping : ∀ {id who index activity}, l.phases id = some (.stepping who index activity) →
    m.Recalls index (m.returnAddress l.stage.milestones) l.registers.returnTo activity
  resumes : m.Resumes l.stage.milestones

theorem Addressed.of_resting (hresting : l.Resting)
    (hreturn : l.registers.returnTo = m.returnAddress l.stage.milestones)
    (hresumes : m.Resumes l.stage.milestones) : l.Addressed m :=
  ⟨fun _ => hreturn, fun hphase => absurd hphase (hresting _ _ _ _), hresumes⟩

theorem not_readdresses_of_returned (h : ∀ e ∈ events, ∃ result, e = .returned id result) :
    ∀ e ∈ events, ¬ m.Readdresses e :=
  fun _ he htouches => absurd_returned h he (by rintro result rfl; cases htouches)

theorem ne_ended_of_returned (h : ∀ e ∈ events, ∃ result, e = .returned id result) :
    ∀ e ∈ events, ∀ call index flow, e ≠ .ended call index flow :=
  fun _ he _ _ _ hend => absurd_returned h he (by rintro result rfl; cases hend)

/-- What touches neither the register nor a step leaves everything as it was. -/
theorem Addressed.aside (h : l.Addressed m) (hsteps : l.SameSteps l')
    (hreturn : l'.registers.returnTo = l.registers.returnTo)
    (hmilestones : l'.stage.milestones = events ++ l.stage.milestones)
    (hevents : ∀ e ∈ events, ∃ result, e = .returned id result) : l'.Addressed m := by
  have haddress : m.returnAddress l'.stage.milestones = m.returnAddress l.stage.milestones := by
    rw [hmilestones]
    exact Machine.returnAddress_append (not_readdresses_of_returned hevents)
  refine ⟨fun hresting => ?_, fun hphase => ?_, ?_⟩
  · rw [hreturn, haddress]
    exact h.resting fun j who index activity hphase =>
      hresting j who index activity ((hsteps j who index activity).2 hphase)
  · rw [hreturn, haddress]
    exact h.stepping ((hsteps _ _ _ _).1 hphase)
  · rw [hmilestones]
    exact h.resumes.append (ne_ended_of_returned hevents)

/-- A step that begins finds the register as the milestones say. -/
theorem Addressed.begins (h : l.Addressed m) (hresting : l.Resting) {l₁ : Ledger}
    (hb : Begins m id who l₁ events l') (hphases : l₁.phases = l.phases)
    (hreturn : l₁.registers.returnTo = l.registers.returnTo)
    (hmilestones : l'.stage.milestones = events ++ l.stage.milestones) : l'.Addressed m := by
  have haddress : m.returnAddress l'.stage.milestones = m.returnAddress l.stage.milestones := by
    rw [hmilestones]
    apply Machine.returnAddress_append
    intro e he htouches
    cases hb <;> simp at he <;> rcases he with rfl | rfl | rfl <;> cases htouches
  obtain ⟨activity, hafter⟩ := hb.phases
  have hphase : l'.phases id = some (.stepping who l₁.registers.cursor activity) := by
    rw [hafter, Function.update_self]
  refine ⟨fun hresting' => absurd hphase (hresting' _ _ _ _), ?_, ?_⟩
  · intro j who' index activity' hstepping
    by_cases hj : j = id
    · subst hj
      obtain ⟨step, hstep, -, hbegin, -⟩ := hb.steps hstepping
      have hrecalls := Machine.recalls_of_begin hstep hbegin
      rw [haddress, ← h.resting hresting, ← hreturn]
      exact hrecalls
    · rw [hafter, Function.update_of_ne hj, hphases] at hstepping
      exact absurd hstepping (hresting _ _ _ _)
  · rw [hmilestones]
    apply h.resumes.append
    intro e he call index flow hend
    subst hend
    cases hb <;> simp at he

/-- A step that goes on has the register in hand as before. -/
theorem Addressed.busy (h : l.Addressed m) {index : Nat} {activity activity' : Activity} {s : Stage}
    (hphase : l.phases id = some (.stepping who index activity))
    (hp : activity.poll l.stage = (s, .busy activity'))
    (hphases : l'.phases = Function.update l.phases id (some (.stepping who index activity')))
    (hregisters : l'.registers = l.registers)
    (hmilestones : l'.stage.milestones = l.stage.milestones) : l'.Addressed m := by
  refine ⟨fun hresting => ?_, fun {j who' i a} hstepping => ?_, ?_⟩
  · refine absurd ?_ (hresting id who index activity')
    rw [hphases, Function.update_self]
  · rw [hregisters, hmilestones]
    by_cases hj : j = id
    · subst hj
      rw [hphases, Function.update_self] at hstepping
      cases hstepping
      exact (h.stepping hphase).poll_busy hp
    · rw [hphases, Function.update_of_ne hj] at hstepping
      exact h.stepping hstepping
  · rw [hmilestones]
    exact h.resumes

/-- A hold that is let go leaves the register alone. -/
theorem Addressed.releases (h : l.Addressed m) {holder index : Nat} {release : Release}
    {after : List Event} (hholder : l.phases holder = some (.stepping who index (.holding none)))
    (hevents : ∀ e ∈ after, ∃ result, e = .returned id result)
    (hfreed : l'.phases holder = some (.stepping who index (.holding (some release))))
    (hnone : ∀ j who index activity, j ≠ holder →
      l'.phases j ≠ some (.stepping who index activity))
    (hregisters : l'.registers = l.registers)
    (hmilestones : l'.stage.milestones = after ++ .released id holder release :: l.stage.milestones) :
    l'.Addressed m := by
  have haddress : m.returnAddress l'.stage.milestones = m.returnAddress l.stage.milestones := by
    rw [hmilestones, Machine.returnAddress_append (not_readdresses_of_returned hevents)]
    rfl
  refine ⟨fun hresting => absurd hfreed (hresting _ _ _ _), fun {j who' i a} hstepping => ?_, ?_⟩
  · rw [hregisters, haddress]
    by_cases hj : j = holder
    · subst hj
      cases hfreed.symm.trans hstepping
      exact (h.stepping hholder).released release
    · exact absurd hstepping (hnone _ _ _ _ hj)
  · rw [hmilestones]
    exact (h.resumes.cons (by simp)).append (ne_ended_of_returned hevents)

/-- A step that ends has left the register as its end says. -/
theorem Addressed.ends (h : l.Addressed m) {index : Nat} {activity : Activity} {s : Stage}
    {flow : Flow} (hphase : l.phases id = some (.stepping who index activity))
    (hp : activity.poll l.stage = (s, .finished (.ok flow))) (hresting : l'.Resting)
    (hregisters : l'.registers = { l.registers with cursor := m.cursorAfter who index flow })
    (hmilestones : l'.stage.milestones =
      who.outro id ++ .ended id index flow :: l.stage.milestones) : l'.Addressed m := by
  obtain ⟨hafter, hflow⟩ := (h.stepping hphase).poll_ok hp
  refine .of_resting hresting ?_ ?_
  · calc l'.registers.returnTo = l.registers.returnTo := by rw [hregisters]
      _ = m.returnAddress (.ended id index flow :: l.stage.milestones) := by
          rw [Machine.returnAddress_cons, hafter id]
      _ = m.returnAddress l'.stage.milestones := by
          rw [hmilestones]
          exact (Machine.returnAddress_append
            (not_readdresses_of_returned returned_of_mem_outro)).symm
  · rw [hmilestones]
    refine Machine.Resumes.append (h.resumes.cons ?_) (ne_ended_of_returned returned_of_mem_outro)
    intro call i flow' hend hresume
    cases hend
    exact hflow hresume

/-- **A deed keeps the register as the milestones say.** -/
theorem Addressed.deed (h : l.Addressed m) (hkept : l.Kept) (hdeed : Deed m id l events l') :
    l'.Addressed m := by
  have hmilestones := hdeed.milestones
  cases hdeed.stride hkept with
  | aside hevents _ hsteps _ hreturn _ => exact h.aside hsteps hreturn hmilestones hevents
  | begins hresting _ haims hphases _ hb =>
    exact h.begins hresting hb hphases haims.returnTo hmilestones
  | busy hphase hp hphases _ hregisters => exact h.busy hphase hp hphases hregisters hmilestones
  | releases _ _ _ hholder hevents hfreed hnone _ hregisters =>
    rw [List.append_assoc] at hmilestones
    exact h.releases hholder hevents hfreed hnone hregisters hmilestones
  | ends hphase hp hresting _ hregisters =>
    rw [List.append_assoc] at hmilestones
    exact h.ends hphase hp hresting hregisters hmilestones
  | fails hphase hp hresting _ hregisters =>
    refine .of_resting hresting ?_ ?_
    · rw [hregisters, hmilestones]
      exact (h.stepping hphase).poll_error hp
    · rw [hmilestones]
      exact h.resumes.append (by simp)
  | restarts _ _ hresting _ hregisters =>
    refine .of_resting hresting ?_ ?_
    · rw [hregisters, hmilestones]
      rfl
    · rw [hmilestones]
      exact h.resumes.append (by simp)
  | rewinds _ _ hresting _ hregisters =>
    refine .of_resting hresting ?_ ?_
    · rw [hregisters, hmilestones]
      rfl
    · rw [hmilestones]
      exact h.resumes.append (by simp)

theorem Addressed.turn (h : l.Addressed m) (hkept : l.Kept) (hturn : Turn m l events l') :
    l'.Addressed m := by
  have hmilestones := hturn.milestones
  have hquiet : ∀ e ∈ ([] : List Event), ∃ result, e = .returned 0 result := by simp
  cases hturn with
  | deed hdeed => exact h.deed hkept hdeed
  | issue call hnone =>
    refine h.aside (sameSteps_of_update rfl ?_ (by simp)) rfl hmilestones hquiet
    intro who index activity hphase
    cases hnone.symm.trans hphase
  | outside _ _ _ => exact h.aside (sameSteps_of_eq rfl) rfl hmilestones hquiet

end Ledger

namespace Config

variable {m : Machine} {c : Config}

theorem Reachable.addressed (h : c.Reachable m) : c.ledger.Addressed m := by
  refine h.induction (fun driver functions => ?_) fun haddressed hkept hturn =>
    haddressed.turn hkept hturn
  refine ⟨fun _ => rfl, fun hphase => (nomatch hphase), ?_⟩
  rintro (- | ⟨e, later⟩) call index flow earlier hevents <;> cases hevents

/-- **The return register.**  Whenever no step is under way, it holds the address behind the last
`goto` that was executed, as long as no `resume` was executed since, no other pass of a run has
begun and nothing was rewound; if there is no such `goto` it is empty.  A `resume` goes on at the
address that is in the register just before it, or in place if there is none; and it leaves the
register empty, with the cursor where it goes on. -/
theorem Reachable.returns (h : c.Reachable m) :
    (c.ledger.Resting → ∀ address, c.registers.returnTo = some address ↔
      ∃ index, address = index + 1 ∧ m.Awaits c.stage.milestones index) ∧
    (∀ later call index flow earlier,
      c.stage.milestones = later ++ .ended call index flow :: earlier → m.IsResume index →
      (∀ i, m.Awaits earlier i → flow = .jump (i + 1)) ∧
        ((∀ i, ¬ m.Awaits earlier i) → flow = .advance)) ∧
    ∀ c' events call index flow, Move m c c' →
      c'.stage.milestones = events ++ c.stage.milestones →
      .ended call index flow ∈ events → m.IsResume index →
      ∃ who activity, c.phase? call = some (.stepping who index activity) ∧
        c'.registers.returnTo = none ∧ c'.registers.cursor = m.cursorAfter who index flow := by
  have haddressed := h.addressed
  refine ⟨fun hresting address => ?_, ?_, ?_⟩
  · have hregister : c.registers.returnTo = m.returnAddress c.stage.milestones :=
      haddressed.resting hresting
    rw [hregister]
    exact Machine.returnAddress_eq_some_iff
  · intro later call index flow earlier hevents hresume
    have hflow := haddressed.resumes later call index flow earlier hevents hresume
    refine ⟨fun i hawaits => ?_, fun hnone => ?_⟩
    · rw [hflow, Machine.returnAddress_eq_some_iff.2 ⟨i, rfl, hawaits⟩]
      rfl
    · have hempty : m.returnAddress earlier = none := by
        rw [Option.eq_none_iff_forall_ne_some]
        intro address haddress
        obtain ⟨i, -, hawaits⟩ := Machine.returnAddress_eq_some_iff.1 haddress
        exact hnone i hawaits
      rw [hflow, hempty]
      rfl
  · intro c' events call index flow hmove hevents hended hresume
    obtain ⟨id, hdeed⟩ := h.ordered.deed_of_milestones hmove hevents hended
    obtain ⟨rfl, who, activity, hphase, hregisters, -⟩ := hdeed.ends hended
    refine ⟨who, activity, hphase, ?_, congrArg Registers.cursor hregisters⟩
    have hsame := congrArg Registers.returnTo hregisters
    calc c'.registers.returnTo = c.registers.returnTo := hsame
      _ = none := (haddressed.stepping hphase).eq_none_of_isResume hresume

/-- A machine that leaves out a comment, and comes back to it. -/
def gotoResume : Machine where
  program := ⟨[⟨{ action := .goto "on" }, none⟩, ⟨{ action := .comment "later" }, none⟩,
    ⟨{ action := .label "on" }, none⟩, ⟨{ action := .resume }, none⟩], ⟨[("on", 2)]⟩⟩

/-- Two calls have executed the `goto` and the label. -/
def beforeResume : Config :=
  (((fresh gotoResume {} {}).issue (.next none)).settle gotoResume 20 |>.issue
    (.next none)).settle gotoResume 20

/-- A third one has begun the `resume`. -/
def inResume : Config :=
  (beforeResume.issue (.next none)).settle gotoResume 2

theorem reachable_beforeResume : beforeResume.Reachable gotoResume :=
  (((Reachable.fresh {} {}).issue (.next none)).settle 20 |>.issue (.next none)).settle 20

theorem returns_gotoResume :
    (beforeResume.registers.returnTo = some 1 ↔
      ∃ index, 1 = index + 1 ∧ gotoResume.Awaits beforeResume.stage.milestones index) ∧
    (∀ i, gotoResume.Awaits inResume.stage.milestones i → Flow.jump 1 = .jump (i + 1)) ∧
    ∃ who activity, inResume.phase? 2 = some (.stepping who 3 activity) ∧
      (inResume.step gotoResume).registers.returnTo = none ∧
      (inResume.step gotoResume).registers.cursor = gotoResume.cursorAfter who 3 (.jump 1) := by
  have hback : inResume.Reachable gotoResume := (reachable_beforeResume.issue (.next none)).settle 2
  have hresume : gotoResume.IsResume 3 := ⟨_, by cbv, rfl⟩
  have hresting : beforeResume.ledger.Resting := by
    intro id who index activity hphase
    have hnone : beforeResume.tasks = [] := by cbv
    have hlookup : beforeResume.tasks.lookup id = _ := hphase
    rw [hnone] at hlookup
    cases hlookup
  refine ⟨reachable_beforeResume.returns.1 hresting 1, ?_, ?_⟩
  · exact ((hback.move .step).returns.2.1 [.returned 2 (.ok ())] 2 3 (.jump 1) _ (by cbv) hresume).1
  · exact hback.returns.2.2 _ [.returned 2 (.ok ()), .ended 2 3 (.jump 1)] 2 3 (.jump 1) .step
      (by cbv) (by simp) hresume

end Config

end Timeline
