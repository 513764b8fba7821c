/-
Timeline/Proofs/Machine/Continuation.lean

Which step follows another one, whoever executes them.

A step that ends says where to go on (`Machine.Decides`).  `Machine.Trail` reads a
list of milestones as a trail of steps: each begins where the one before has said,
at the first step if that is past the end, or where the call asks for that executes
it.

Main result (`Config.Steady.continues`): a machine that is driven by runs and by
calls for one step in any mixture, without rewinds, without another pass and without
failures, leaves such a trail.  As long as no call asks for a label, the steps that
begin are those that the decisions lead to from the first step on
(`Machine.indexAfter`), whoever executes them and in whatever mode.
-/
import Mathlib
import Timeline.Proofs.Machine.Runs
import Timeline.Proofs.Machine.Walker

namespace Timeline

open Relation

/-! ### Where a step says to go on -/

namespace Machine

variable {m m' : Machine}

/-- The address that a `resume` step takes once a step at an index has begun. -/
def returnAfter (m : Machine) (index : Nat) (returnTo : Option Nat) : Action → Option Nat
  | .goto label => if (m.program.labelIndex? label).isSome then some (index + 1) else returnTo
  | .resume => none
  | _ => returnTo

/-- The address that a `resume` step takes after some milestones, the latest first. -/
def returnTo (m : Machine) : List Event → Option Nat
  | [] => none
  | .began _ index :: earlier =>
    match m.program.step? index with
    | some step => m.returnAfter index (m.returnTo earlier) step.action
    | none => m.returnTo earlier
  | _ :: earlier => m.returnTo earlier

/-- Where the step at an index may say to go on, given the address that a `resume` step takes and
how a hold was let go. -/
def Decides (m : Machine) (index : Nat) (returnTo : Option Nat) (release : Option Release) :
    Action → Flow → Prop
  | .hold, flow => release.map Release.flow = some flow
  | .goto label, flow => (m.program.labelIndex? label).map Flow.jump = some flow
  | .resume, flow => flow = returnTo.elim .advance .jump
  | .ifJump _ onTrue onFalse, flow =>
    (∃ label ∈ onTrue :: onFalse.toList, (m.program.labelIndex? label).map Flow.jump = some flow) ∨
      onFalse = none ∧ flow = .advance
  | .ifThen _, flow => flow = .advance ∨ flow = .jump (m.program.skipBranch index true)
  | .ifElse, flow => flow = .jump (m.program.skipBranch index false)
  | _, flow => flow = .advance

theorem jump_decides {p : Program} {label : String} {Q : Flow → Prop}
    (h : ∀ flow, (p.labelIndex? label).map Flow.jump = some flow → Q flow) :
    (p.jump label).Meets .free Q := by
  unfold Program.jump
  split
  · rename_i target htarget
    exact h _ (by rw [htarget]; rfl)
  · trivial

/-- Whatever a step comes to, it says where to go on as its action does; the registers are left
with the address for a `resume` step, and with the cursor where it was. -/
theorem begin_decides (m : Machine) (index : Nat) (action : Action) (r : Registers) :
    (m.begin index action r).2.Meets .free (m.Decides index r.returnTo none action) ∧
      (m.begin index action r).1.returnTo = m.returnAfter index r.returnTo action ∧
      (m.begin index action r).1.cursor = r.cursor := by
  have hplain (h : action.Plain) (hQ : m.Decides index r.returnTo none action = (· = .advance))
      (hreturn : m.returnAfter index r.returnTo action = r.returnTo) :
      (m.begin index action r).2.Meets .free (m.Decides index r.returnTo none action) ∧
        (m.begin index action r).1.returnTo = m.returnAfter index r.returnTo action ∧
        (m.begin index action r).1.cursor = r.cursor := by
    obtain ⟨hbegin, hmeets⟩ := m.begin_plain index h r
    rw [hQ, hreturn]
    refine ⟨hmeets, ?_, ?_⟩
    · rw [hbegin]
    · rw [hbegin]
  cases action with
  | hold => exact ⟨fun _ h => (nomatch h), rfl, rfl⟩
  | use block => exact ⟨(rfl : Flow.advance = .advance), rfl, rfl⟩
  | goto label =>
    simp only [begin, returnAfter]
    rcases h : m.program.labelIndex? label with - | target
    · exact ⟨trivial, rfl, rfl⟩
    · exact ⟨by simp [Activity.finished, Activity.Meets, Course.Meets, Work.Meets, Decides, h],
        rfl, rfl⟩
  | resume =>
    simp only [begin, returnAfter]
    rcases h : r.returnTo with - | target
    · exact ⟨(rfl : Flow.advance = _), h, rfl⟩
    · exact ⟨(rfl : Flow.jump target = _), rfl, rfl⟩
  | stop => exact ⟨(rfl : Flow.advance = .advance), rfl, rfl⟩
  | ifJump condition onTrue onFalse =>
    refine ⟨condition.holds.meets_free.bind fun holds _ => ?_, rfl, rfl⟩
    cases holds with
    | true => exact jump_decides fun flow h => .inl ⟨onTrue, List.mem_cons_self, h⟩
    | false =>
      cases onFalse with
      | none => exact (.inr ⟨rfl, rfl⟩ : m.Decides index r.returnTo none (.ifJump ..) .advance)
      | some label => exact jump_decides fun flow h => .inl ⟨label, by simp, h⟩
  | ifThen condition =>
    refine ⟨condition.holds.meets_free.bind fun holds _ => ?_, rfl, rfl⟩
    cases holds with
    | true => exact (.inl rfl : m.Decides index r.returnTo none (.ifThen _) .advance)
    | false => exact (.inr rfl : m.Decides index r.returnTo none (.ifThen _) (.jump _))
  | ifElse => exact ⟨(rfl : Flow.jump _ = _), rfl, rfl⟩
  | ifEnd => exact ⟨(rfl : Flow.advance = .advance), rfl, rfl⟩
  | _ => exact hplain trivial rfl rfl

/-- A cursor that a call for one step puts back leads to the same step. -/
theorem wrap_cursorAfter (m : Machine) (who : Stepper) (index : Nat) (flow : Flow) :
    m.wrap (m.cursorAfter who index flow) = m.wrap (flow.next index) := by
  unfold cursorAfter wrap
  split
  · rename_i h
    rw [if_pos h.2.2]
    split <;> rfl
  · rfl

/-- The index of a step that begins after some decisions, from the first step on. -/
def indexAfter (m : Machine) (flows : List Flow) : Nat :=
  flows.foldl (fun index flow => m.wrap (flow.next index)) 0

theorem indexAfter_concat (m : Machine) (flows : List Flow) (flow : Flow) :
    m.indexAfter (flows ++ [flow]) = m.wrap (flow.next (m.indexAfter flows)) := by
  simp [indexAfter]

theorem indexAfter_congr (h : m'.program = m.program) : m'.indexAfter = m.indexAfter := by
  funext flows
  simp only [indexAfter, wrap, h]

/-! ### Trails -/

/-- The index of the label that a call asks for. -/
def sought? (m : Machine) (calls : List Call) (id : Nat) : Option Nat :=
  match calls[id]? with
  | some (.next (some label)) => m.program.labelIndex? label
  | _ => none

end Machine

/-- How far a trail of steps has come. -/
inductive Stand where
  /-- The next step is the one at an index. -/
  | resting (cursor : Nat)
  /-- A call executes the step at an index since some milestones, and a hold may have been let
  go. -/
  | amid (earlier : List Event) (id index : Nat) (release : Option Release)

/-- Whether a milestone says nothing about steps. -/
def Event.isAside : Event → Bool
  | .began _ _ | .ended _ _ _ | .failed _ _ _ | .released _ _ _ | .restarted _ | .rewound _ => false
  | _ => true

/-- If a hold was let go, that was by a call for one step, which says where to go on. -/
def Machine.Frees (m : Machine) (calls : List Call) (holder : Nat) (events : List Event)
    (release : Option Release) : Prop :=
  ∀ r, release = some r →
    ∃ caller, r = .resumed (m.sought? calls caller) ∧ .released caller holder r ∈ events

theorem Machine.Frees.cons {m : Machine} {calls : List Call} {holder : Nat} {events : List Event}
    {release : Option Release} (h : m.Frees calls holder events release) {e : Event} :
    m.Frees calls holder (e :: events) release := by
  intro r hr
  obtain ⟨caller, hcaller, hmem⟩ := h r hr
  exact ⟨caller, hcaller, List.mem_cons_of_mem _ hmem⟩

/-- Some milestones, the latest first, are a trail of steps. -/
inductive Machine.Trail (m : Machine) (calls : List Call) : List Event → Stand → Prop
  | start : m.Trail calls [] (.resting 0)
  | aside {e : Event} {events : List Event} {stand : Stand} : m.Trail calls events stand →
      e.isAside = true → m.Trail calls (e :: events) stand
  | began {events : List Event} {cursor id : Nat} : m.Trail calls events (.resting cursor) →
      m.Trail calls (.began id (m.wrap ((m.sought? calls id).getD cursor)) :: events)
        (.amid events id (m.wrap ((m.sought? calls id).getD cursor)) none)
  | released {events earlier : List Event} {id index caller : Nat} :
      m.Trail calls events (.amid earlier id index none) →
      m.Trail calls (.released caller id (.resumed (m.sought? calls caller)) :: events)
        (.amid earlier id index (some (.resumed (m.sought? calls caller))))
  | ended {events earlier : List Event} {id index : Nat} {release : Option Release} {step : Step}
      {flow : Flow} : m.Trail calls events (.amid earlier id index release) →
      m.program.step? index = some step →
      m.Decides index (m.returnTo earlier) release step.action flow →
      m.Trail calls (.ended id index flow :: events) (.resting (flow.next index))

/-- The steps that have begun, by their indices. -/
def begun (events : List Event) : List Nat :=
  events.reverse.filterMap fun
    | .began _ index => some index
    | _ => none

/-- What the steps that have ended said about where to go on. -/
def decided (events : List Event) : List Flow :=
  events.reverse.filterMap fun
    | .ended _ _ flow => some flow
    | _ => none

theorem begun_aside {e : Event} (h : e.isAside = true) (events : List Event) :
    begun (e :: events) = begun events ∧ decided (e :: events) = decided events := by
  cases e with
  | began _ _ => cases h
  | ended _ _ _ => cases h
  | _ => exact ⟨by simp [begun], by simp [decided]⟩

theorem Machine.returnTo_asides (m : Machine) {later : List Event}
    (haside : ∀ e ∈ later, e.isAside = true) (events : List Event) :
    m.returnTo (later ++ events) = m.returnTo events := by
  induction later with
  | nil => rfl
  | cons e later ih =>
    have he := haside e List.mem_cons_self
    rw [← ih fun e he => haside e (List.mem_cons_of_mem _ he)]
    cases e with
    | began _ _ => cases he
    | _ => rfl

/-- The steps that have begun are as many as those that have ended, but for one that is under way,
and the decisions lead to the next one. -/
def Stand.Led (m : Machine) (events : List Event) : Stand → Prop
  | resting cursor => (begun events).length = (decided events).length ∧
      m.wrap cursor = m.indexAfter (decided events)
  | amid _ _ index _ => (begun events).length = (decided events).length + 1 ∧
      index = m.indexAfter (decided events)

namespace Machine.Trail

variable {m : Machine} {calls : List Call} {events later between earlier : List Event}
  {stand : Stand} {a i : Nat}

theorem suffix (h : m.Trail calls (later ++ events) stand) :
    ∃ stand', m.Trail calls events stand' := by
  induction later generalizing stand with
  | nil => exact ⟨stand, h⟩
  | cons e later ih =>
    cases h with
    | aside h _ => exact ih h
    | began h => exact ih h
    | released h => exact ih h
    | ended h _ _ => exact ih h

/-- A trail without steps stays at the first one. -/
theorem stand_of_not_began (h : m.Trail calls events stand)
    (hnone : ∀ id index, .began id index ∉ events) : stand = .resting 0 := by
  induction h with
  | start => rfl
  | aside _ _ ih => exact ih fun id index hmem => hnone id index (List.mem_cons_of_mem _ hmem)
  | began _ _ => exact absurd List.mem_cons_self (hnone _ _)
  | released _ ih =>
    cases ih fun id index hmem => hnone id index (List.mem_cons_of_mem _ hmem)
  | ended _ _ _ ih =>
    cases ih fun id index hmem => hnone id index (List.mem_cons_of_mem _ hmem)

theorem asides (h : m.Trail calls events stand) (haside : ∀ e ∈ later, e.isAside = true) :
    m.Trail calls (later ++ events) stand := by
  induction later with
  | nil => exact h
  | cons e later ih =>
    exact (ih fun e he => haside e (List.mem_cons_of_mem _ he)).aside
      (haside e List.mem_cons_self)

/-- What has happened since a step began: it is under way, or it has said where to go on. -/
theorem since_began (h : m.Trail calls (between ++ .began a i :: earlier) stand)
    (hnone : ∀ id index, .began id index ∉ between) :
    (∃ release, stand = .amid earlier a i release ∧ m.Frees calls a between release) ∨
    ∃ step flow release, stand = .resting (flow.next i) ∧ m.program.step? i = some step ∧
      .ended a i flow ∈ between ∧ m.Frees calls a between release ∧
      m.Decides i (m.returnTo earlier) release step.action flow := by
  induction between generalizing stand with
  | nil =>
    cases h with
    | aside _ haside => cases haside
    | began _ => exact .inl ⟨none, rfl, fun _ hr => (nomatch hr)⟩
  | cons e between ih =>
    have hbefore : ∀ id index, .began id index ∉ between :=
      fun id index hmem => hnone id index (List.mem_cons_of_mem _ hmem)
    cases h with
    | aside h _ =>
      rcases ih h hbefore with ⟨release, hstand, hfrees⟩ |
        ⟨step, flow, release, hstand, hstep, hended, hfrees, hdecides⟩
      · exact .inl ⟨release, hstand, hfrees.cons⟩
      · exact .inr ⟨step, flow, release, hstand, hstep, List.mem_cons_of_mem _ hended, hfrees.cons,
          hdecides⟩
    | began _ => exact absurd List.mem_cons_self (hnone _ _)
    | @released _ _ _ _ caller h =>
      rcases ih h hbefore with ⟨release, hstand, -⟩ | ⟨_, _, _, hstand, -⟩
      · cases hstand
        refine .inl ⟨_, rfl, fun r hr => ?_⟩
        cases hr
        exact ⟨caller, rfl, List.mem_cons_self⟩
      · cases hstand
    | @ended _ _ _ _ release _ _ h hstep hdecides =>
      rcases ih h hbefore with ⟨release', hstand, hfrees⟩ | ⟨_, _, _, hstand, -⟩
      · cases hstand
        exact .inr ⟨_, _, release, rfl, hstep, List.mem_cons_self, hfrees.cons, hdecides⟩
      · cases hstand

/-- As long as no call asks for a label, the steps that begin are those that the decisions lead
to. -/
theorem led (h : m.Trail calls events stand) (hsought : ∀ id, m.sought? calls id = none) :
    stand.Led m events ∧ ∀ k index, (begun events)[k]? = some index →
      index = m.indexAfter ((decided events).take k) := by
  induction h with
  | start => exact ⟨⟨rfl, by simp [Machine.wrap, decided, Machine.indexAfter]⟩, by simp [begun]⟩
  | @aside e events stand _ haside ih =>
    obtain ⟨hbegun, hdecided⟩ := begun_aside haside events
    unfold Stand.Led at ih ⊢
    rw [hbegun, hdecided]
    exact ih
  | @began events cursor id _ ih =>
    obtain ⟨⟨hlength, hcursor⟩, hall⟩ := ih
    rw [hsought, Option.getD_none, hcursor]
    have hdecided (x : Nat) : decided (.began id x :: events) = decided events := by simp [decided]
    have hbegun (x : Nat) : begun (.began id x :: events) = begun events ++ [x] := by simp [begun]
    unfold Stand.Led
    rw [hdecided, hbegun]
    refine ⟨⟨by rw [List.length_append, hlength]; rfl, rfl⟩, fun k index hk => ?_⟩
    by_cases hlt : k < (begun events).length
    · rw [List.getElem?_append_left hlt] at hk
      exact hall k index hk
    · -- the step that has just begun is the one that all decisions lead to
      have hkeq : k = (begun events).length := by
        have := (List.getElem?_eq_some_iff.1 hk).1
        rw [List.length_append, List.length_singleton] at this
        omega
      rw [hkeq, List.getElem?_concat_length] at hk
      rw [hkeq, hlength, List.take_length]
      exact (Option.some.inj hk).symm
  | @released events earlier id index caller _ ih =>
    have hbegun (r : Release) : begun (.released caller id r :: events) = begun events := by
      simp [begun]
    have hdecided (r : Release) : decided (.released caller id r :: events) = decided events := by
      simp [decided]
    unfold Stand.Led at ih ⊢
    rw [hbegun, hdecided]
    exact ih
  | @ended events earlier id index release step flow _ _ _ ih =>
    obtain ⟨⟨hlength, hindex⟩, hall⟩ := ih
    have hdecided : decided (.ended id index flow :: events) = decided events ++ [flow] := by
      simp [decided]
    have hbegun : begun (.ended id index flow :: events) = begun events := by simp [begun]
    unfold Stand.Led
    rw [hdecided, hbegun, Machine.indexAfter_concat, ← hindex]
    refine ⟨⟨by rw [hlength, List.length_append]; rfl, rfl⟩, fun k x hk => ?_⟩
    have hle : k ≤ (decided events).length := by
      have := (List.getElem?_eq_some_iff.1 hk).1
      omega
    rw [List.take_append_of_le_length hle]
    exact hall k x hk

end Machine.Trail

/-! ### Calls and their phases -/

/-- A machine is driven by runs and by calls for one step only, and runs make one pass. -/
structure Machine.Steady (m : Machine) (calls : List Call) : Prop where
  mode : m.settings.drive = .manual ∨ m.settings.looping = false
  stop : .stop ∉ calls
  reset : .reset ∉ calls

/-- What a call may want the registers for. -/
def Machine.Wants (m : Machine) : Call → Purpose → Prop
  | call, .clear _ => call = .start
  | call, .step _ => call = .start
  | call, .restart _ => call = .start ∧ m.settings.drive = .auto ∧ m.settings.looping = true
  | call, .next seek =>
    ∃ label, call = .next label ∧ label.map m.program.labelIndex? = seek.map some
  | call, .rewind => call = .stop ∨ call = .reset

/-- A phase that a call may come to. -/
def Machine.Serves (m : Machine) (call : Call) : Phase → Prop
  | .issued call' => call = call'
  | .seeking purpose => m.Wants call purpose
  | .queued purpose => m.Wants call purpose
  | .stepping (.run _) _ _ => call = .start
  | .stepping .next _ _ => ∃ label, call = .next label
  | .moving _ => ∃ batch, call = .animate batch

theorem Machine.sought?_eq_none {m : Machine} {calls : List Call}
    (h : ∀ label, .next (some label) ∉ calls) (id : Nat) : m.sought? calls id = none := by
  unfold sought?
  split
  · rename_i label hcall
    exact absurd (List.mem_of_getElem? hcall) (h label)
  · rfl

theorem Machine.sought?_of_wants {m : Machine} {calls : List Call} {call : Call} {id : Nat}
    {seek : Option Nat} (hcall : calls[id]? = some call) (h : m.Wants call (.next seek)) :
    m.sought? calls id = seek := by
  obtain ⟨label, rfl, hlabel⟩ := h
  unfold sought?
  rw [hcall]
  cases label with
  | none =>
    cases seek with
    | none => rfl
    | some index => cases hlabel
  | some label =>
    cases seek with
    | none => cases hlabel
    | some index => exact Option.some.inj hlabel

namespace Ledger

variable {m : Machine} {calls : List Call} {l l' : Ledger} {id : Nat} {who : Stepper}
  {events : List Event} {call : Call}

theorem Begins.serves (h : Begins m id who l events l') {phase' : Phase}
    (hwho : ∀ index activity, m.Serves call (.stepping who index activity))
    (hphase' : l'.phases id = some phase') : m.Serves call phase' := by
  cases h with
  | hold _ _ =>
    cases setPhase_self.symm.trans hphase'
    exact hwho _ _
  | step _ _ _ =>
    cases setPhase_self.symm.trans hphase'
    exact hwho _ _

theorem Entry.serves {purpose : Purpose} (h : Entry m id l purpose events l')
    (hwants : m.Wants call purpose) (hauto : purpose.epoch?.isSome → m.settings.drive = .auto)
    {phase' : Phase} (hphase' : l'.phases id = some phase') : m.Serves call phase' := by
  cases h with
  | clear =>
    cases setPhase_self.symm.trans hphase'
    exact hwants
  | around _ _ _ hloops _ =>
    cases setPhase_self.symm.trans hphase'
    exact ⟨hwants, hauto rfl, hloops⟩
  | step _ _ hb => exact hb.serves (fun _ _ => hwants) hphase'
  | restart _ =>
    cases setPhase_self.symm.trans hphase'
    exact hwants.1
  | next hb =>
    obtain ⟨label, hlabel, -⟩ := hwants
    exact hb.serves (fun _ _ => ⟨label, hlabel⟩) hphase'
  | _ => cases finish_self.symm.trans hphase'

/-- A call stays with what it was issued for. -/
theorem Deed.serves (h : Deed m id l events l') (hruns : l.Runs m) {phase phase' : Phase}
    (hphase : l.phases id = some phase) (hserves : m.Serves call phase)
    (hphase' : l'.phases id = some phase') : m.Serves call phase' := by
  have hauto {purpose : Purpose} (hepoch : phase.epoch? = purpose.epoch?)
      (hsome : purpose.epoch?.isSome) : m.settings.drive = .auto := by
    obtain ⟨epoch, he⟩ := Option.isSome_iff_exists.1 hsome
    exact hruns.auto (((run?_of_phases hphase).trans hepoch).trans he)
  obtain ⟨before, hbefore, hshift⟩ := h.shift hphase'
  obtain rfl := Option.some.inj (hphase.symm.trans hbefore)
  cases hshift with
  | quiet hpasses _ _ =>
    cases hpasses with
    | start _ => exact hserves
    | ask hlabel => exact ⟨_, hserves, hlabel⟩
    | rewind hcall => exact hserves ▸ hcall
    | animate => exact ⟨_, hserves⟩
    | seek => exact hserves
    | queue => exact hserves
    | wait => exact hserves
    | withdraw => exact hserves
  | drop => exact hserves
  | entry hb _ hwas =>
    rcases hwas with rfl | rfl
    · exact hb.serves hserves (hauto rfl) hphase'
    · exact hb.serves hserves (hauto rfl) hphase'
  | @busy who _ _ _ _ _ _ =>
    cases who with
    | run epoch => exact hserves
    | next => exact hserves
  | ended => exact hserves
  | move _ _ => exact hserves

/-- Every call is in a phase that it was issued for. -/
def Charged (m : Machine) (calls : List Call) (l : Ledger) : Prop :=
  ∀ id phase, l.phases id = some phase → ∃ call, calls[id]? = some call ∧ m.Serves call phase

theorem Charged.deed (h : l.Charged m calls) (hruns : l.Runs m) (hdeed : Deed m id l events l') :
    l'.Charged m calls := by
  intro j phase' hphase'
  by_cases hj : j = id
  · subst hj
    obtain ⟨phase, hphase⟩ := hdeed.present
    obtain ⟨call, hcall, hserves⟩ := h j phase hphase
    exact ⟨call, hcall, hdeed.serves hruns hphase hserves hphase'⟩
  · rcases hdeed.other hj with hsame | ⟨who, index, release, -, hholder, -, hreleased⟩
    · exact h j phase' (hsame ▸ hphase')
    · obtain ⟨call, hcall, hserves⟩ := h j _ hholder
      cases hreleased.symm.trans hphase'
      refine ⟨call, hcall, ?_⟩
      cases who with
      | run epoch => exact hserves
      | next => exact hserves

theorem Charged.issue (h : l.Charged m calls) (hcall : calls[l.calls]? = some call) :
    ({ l with calls := l.calls + 1 }.setPhase l.calls (.issued call)).Charged m calls := by
  intro j phase hphase
  by_cases hj : j = l.calls
  · subst hj
    cases setPhase_self.symm.trans hphase
    exact ⟨call, hcall, rfl⟩
  · rw [setPhase_of_ne hj] at hphase
    exact h j phase hphase

end Ledger

/-! ### The step that is under way -/

/-- What a step with an action may be busy with at an index. -/
inductive Machine.Engaged (m : Machine) (action : Action) (index : Nat) (returnTo : Option Nat) :
    Option Release → Activity → Prop
  | busy {activity : Activity} : activity.Meets .free (m.Decides index returnTo none action) →
      (activity = .holding none → action = .hold) →
      m.Engaged action index returnTo none activity
  /-- A hold that was let go. -/
  | freed (r : Release) : action = .hold →
      m.Engaged action index returnTo (some r) (.holding (some r))

namespace Machine.Engaged

variable {m : Machine} {action : Action} {index : Nat} {returnTo : Option Nat}
  {release : Option Release} {activity activity' : Activity} {s s' : Stage} {flow : Flow}

theorem poll_busy (h : m.Engaged action index returnTo release activity)
    (hp : activity.poll s = (s', .busy activity')) :
    m.Engaged action index returnTo release activity' := by
  cases h with
  | busy hmeets hholds =>
    have hpolled := (Activity.poll_meets hmeets (Bounds.free_covers s)).2
    rw [hp] at hpolled
    refine .busy hpolled.1 fun hheld => ?_
    rcases Activity.holding_of_poll_busy hp with ⟨hwas, -⟩ | ⟨-, hnot⟩
    · exact hholds hwas
    · exact absurd hheld (hnot none)
  | freed r _ => cases hp

theorem poll_ok (h : m.Engaged action index returnTo release activity)
    (hp : activity.poll s = (s', .finished (.ok flow))) :
    m.Decides index returnTo release action flow := by
  cases h with
  | busy hmeets _ =>
    have hpolled := (Activity.poll_meets hmeets (Bounds.free_covers s)).2
    rw [hp] at hpolled
    exact hpolled
  | freed r haction =>
    cases hp
    rw [haction]
    rfl

end Machine.Engaged

namespace Ledger

variable {m : Machine} {calls : List Call} {l l' : Ledger} {id : Nat} {who : Stepper}
  {events : List Event}

/-- Nobody executes a step. -/
def Resting (l : Ledger) : Prop :=
  ∀ id who index activity, l.phases id ≠ some (.stepping who index activity)

/-- A ledger is as far as a trail. -/
inductive Stands (m : Machine) (l : Ledger) : Stand → Prop
  | resting {cursor : Nat} : m.wrap l.registers.cursor = m.wrap cursor → l.Resting →
      l.Stands m (.resting cursor)
  | amid {earlier : List Event} {id index : Nat} {release : Option Release} {who : Stepper}
      {activity : Activity} {step : Step} :
      l.phases id = some (.stepping who index activity) → m.program.step? index = some step →
      m.Engaged step.action index (m.returnTo earlier) release activity →
      l.Stands m (.amid earlier id index release)

/-- The milestones are a trail of steps, and the ledger is as far as they are. -/
structure Trailing (m : Machine) (calls : List Call) (l : Ledger) : Prop where
  returnTo : l.registers.returnTo = m.returnTo l.stage.milestones
  stand : ∃ stand, m.Trail calls l.stage.milestones stand ∧ l.Stands m stand

/-- What says nothing about steps leaves a trail. -/
theorem Trailing.aside (h : l.Trailing m calls) (haside : ∀ e ∈ events, e.isAside = true)
    (hmilestones : l'.stage.milestones = events ++ l.stage.milestones)
    (hcursor : m.wrap l'.registers.cursor = m.wrap l.registers.cursor)
    (hreturn : l'.registers.returnTo = l.registers.returnTo)
    (hphases : ∀ j who index activity, l'.phases j = some (.stepping who index activity) ↔
      l.phases j = some (.stepping who index activity)) : l'.Trailing m calls where
  returnTo := by
    rw [hreturn, h.returnTo, hmilestones, m.returnTo_asides haside]
  stand := by
    obtain ⟨stand, htrail, hstands⟩ := h.stand
    refine ⟨stand, ?_, ?_⟩
    · rw [hmilestones]
      exact htrail.asides haside
    · cases hstands with
      | resting hwrap hresting =>
        exact .resting (hcursor.trans hwrap) fun j who index activity hphase =>
          hresting j who index activity ((hphases j who index activity).1 hphase)
      | amid hphase hstep hengaged =>
        exact .amid ((hphases _ _ _ _).2 hphase) hstep hengaged

/-- A step begins, as the one that the trail leads to or that its call asks for. -/
theorem Trailing.begins (h : l.Trailing m calls) (hresting : l.Resting) {l₁ : Ledger}
    (hb : Begins m id who l₁ events l')
    (hindex : l₁.registers.cursor = m.wrap ((m.sought? calls id).getD l.registers.cursor))
    (hreturn : l₁.registers.returnTo = l.registers.returnTo)
    (hmilestones : l₁.stage.milestones = l.stage.milestones) : l'.Trailing m calls := by
  obtain ⟨stand, htrail, hstands⟩ := h.stand
  cases hstands with
  | amid hphase _ _ => exact absurd hphase (hresting _ _ _ _)
  | @resting cursor hwrap _ =>
    obtain ⟨activity, hphases⟩ := hb.phases
    have hphase : l'.phases id = some (.stepping who l₁.registers.cursor activity) := by
      rw [hphases, Function.update_self]
    obtain ⟨step, hstep, -, hbegin, -⟩ := hb.steps hphase
    obtain ⟨hmeets, hafter, -⟩ :=
      m.begin_decides l₁.registers.cursor step.action l₁.registers
    rw [hbegin, hreturn, h.returnTo] at hmeets
    rw [hbegin, hreturn, h.returnTo] at hafter
    -- the step is where the trail leads to, unless the call asks for a label
    have hlead : m.wrap ((m.sought? calls id).getD cursor) = l₁.registers.cursor := by
      rw [hindex]
      cases m.sought? calls id with
      | none => exact hwrap.symm
      | some _ => rfl
    have hpublished : m.Trail calls (.published (m.position l₁.registers.cursor) ::
        l.stage.milestones) (.resting cursor) := htrail.aside rfl
    have hbegan : m.Trail calls (.began id (m.wrap ((m.sought? calls id).getD cursor)) :: _) _ :=
      hpublished.began
    rw [hlead] at hbegan
    have hengaged : m.Engaged step.action l₁.registers.cursor
        (m.returnTo (.published (m.position l₁.registers.cursor) :: l.stage.milestones)) none
        activity := by
      refine .busy hmeets fun hholds => ?_
      rw [hholds] at hbegin
      exact (Machine.begin_holding hbegin).1
    have hreturnTo : m.returnTo (.began id l₁.registers.cursor ::
        .published (m.position l₁.registers.cursor) :: l.stage.milestones)
        = l'.registers.returnTo := by
      simp only [Machine.returnTo, hstep]
      exact hafter.symm
    have hrecorded := hb.milestones
    rw [hmilestones] at hrecorded
    refine ⟨?_, _, ?_, .amid hphase hstep hengaged⟩
    · rw [hrecorded]
      cases hb with
      | hold _ _ => exact hreturnTo.symm
      | step _ _ _ => exact hreturnTo.symm
    · rw [hrecorded]
      cases hb with
      | hold _ _ => exact hbegan.aside rfl
      | step _ _ _ => exact hbegan

/-- Whoever executes a step is the one that the trail is amid. -/
theorem Trailing.amid (h : l.Trailing m calls) (hkept : l.Kept) {index : Nat} {activity : Activity}
    (hphase : l.phases id = some (.stepping who index activity)) :
    ∃ earlier release step, m.Trail calls l.stage.milestones (.amid earlier id index release) ∧
      m.program.step? index = some step ∧
      m.Engaged step.action index (m.returnTo earlier) release activity := by
  obtain ⟨stand, htrail, hstands⟩ := h.stand
  cases hstands with
  | resting _ hresting => exact absurd hphase (hresting _ _ _ _)
  | @amid earlier j index' release who' activity' step hother hstep hengaged =>
    obtain rfl : id = j :=
      Option.some.inj ((hkept.owner hphase).symm.trans (hkept.owner hother))
    cases hphase.symm.trans hother
    exact ⟨earlier, release, step, htrail, hstep, hengaged⟩

/-- Nobody begins or ends a step if a call goes from one phase to another that are none of a
step. -/
theorem stepping_update {phases : Nat → Option Phase} {x : Option Phase}
    (hold : ∀ who index activity, phases id ≠ some (.stepping who index activity))
    (hnew : ∀ who index activity, x ≠ some (.stepping who index activity)) (j : Nat)
    (who : Stepper) (index : Nat) (activity : Activity) :
    Function.update phases id x j = some (.stepping who index activity) ↔
      phases j = some (.stepping who index activity) := by
  by_cases hj : j = id
  · subst hj
    rw [Function.update_self]
    exact ⟨fun h => absurd h (hnew _ _ _), fun h => absurd h (hold _ _ _)⟩
  · rw [Function.update_of_ne hj]

theorem Begins.lt_length (h : Begins m id who l events l') :
    l.registers.cursor < m.program.length := by
  have hsome {step : Step} (hstep : m.program.step? l.registers.cursor = some step) :
      l.registers.cursor < m.program.length := by
    rw [← Nat.not_le, ← Program.step?_eq_none_iff, hstep]
    simp
  cases h with
  | hold hstep _ => exact hsome hstep
  | step hstep _ _ => exact hsome hstep

/-- Whoever has become the owner of the registers leaves a trail. -/
theorem Trailing.entry (h : l.Trailing m calls) (hsteady : m.Steady calls) (hresting : l.Resting)
    {l₁ : Ledger} {purpose : Purpose} (hb : Entry m id l₁ purpose events l')
    (hregisters : l₁.registers = l.registers) (hphases : l₁.phases = l.phases)
    (hmilestones : l₁.stage.milestones = l.stage.milestones) {call : Call}
    (hcall : calls[id]? = some call) (hwants : m.Wants call purpose)
    (hauto : purpose.epoch?.isSome → m.settings.drive = .auto) : l'.Trailing m calls := by
  have hrecorded := hb.milestones
  rw [hmilestones] at hrecorded
  -- runs of a steady machine begin no second pass
  have hloops (hsome : purpose.epoch?.isSome) (hloop : m.settings.looping = true) : False := by
    rcases hsteady.mode with hmanual | hnot
    · rw [hauto hsome] at hmanual
      cases hmanual
    · rw [hloop] at hnot
      cases hnot
  have hstepping {x : Option Phase}
      (hnew : ∀ who index activity, x ≠ some (.stepping who index activity)) (j : Nat)
      (who : Stepper) (index : Nat) (activity : Activity) :
      Function.update l₁.phases id x j = some (.stepping who index activity) ↔
        l.phases j = some (.stepping who index activity) := by
    rw [hphases]
    exact stepping_update (hresting id) hnew j who index activity
  have hstart (hcall' : call = .start) : m.sought? calls id = none := by
    unfold Machine.sought?
    rw [hcall, hcall']
  cases hb with
  | clear =>
    refine h.aside (by simp) hrecorded ?_ ?_ (hstepping (by simp))
    · rw [← hregisters]
      rfl
    · rw [← hregisters]
      rfl
  | stopped _ =>
    refine h.aside (by simp [Event.isAside]) hrecorded ?_ ?_ (hstepping (by simp))
    · rw [← hregisters]
      rfl
    · rw [← hregisters]
      rfl
  | finished _ _ _ _ =>
    refine h.aside (by simp [Event.isAside]) hrecorded ?_ ?_ (hstepping (by simp))
    · rw [← hregisters]
      rfl
    · rw [← hregisters]
      rfl
  | around _ _ _ hloop _ => exact (hloops rfl hloop).elim
  | step _ _ hb =>
    refine h.begins hresting hb ?_ (by rw [hregisters]) hmilestones
    rw [hstart hwants, Option.getD_none, ← hregisters, Machine.wrap,
      if_neg (Nat.not_le.2 hb.lt_length)]
  | cancelled _ => exact (hloops rfl hwants.2.2).elim
  | restart _ => exact (hloops rfl hwants.2.2).elim
  | next hb =>
    refine h.begins hresting hb ?_ (by rw [hregisters]) hmilestones
    rw [Machine.sought?_of_wants hcall hwants, hregisters]
  | vain hempty =>
    have hwrap (index : Nat) : m.wrap index = 0 := if_pos (hempty ▸ Nat.zero_le _)
    refine h.aside (by simp [Event.isAside]) hrecorded ?_ ?_ (hstepping (by simp))
    · rw [hwrap, hwrap]
    · rw [← hregisters]
      rfl
  | rewind =>
    rcases hwants with rfl | rfl
    · exact absurd (List.mem_of_getElem? hcall) hsteady.stop
    · exact absurd (List.mem_of_getElem? hcall) hsteady.reset

/-- A step that ends says where the trail leads to. -/
theorem Trailing.ends (h : l.Trailing m calls) (hkept : l.Kept) {index : Nat}
    {activity : Activity} {s : Stage} {flow : Flow} {x : Option Phase}
    (hphase : l.phases id = some (.stepping who index activity))
    (hp : activity.poll l.stage = (s, .finished (.ok flow)))
    (haside : ∀ e ∈ events, e.isAside = true)
    (hmilestones : l'.stage.milestones
      = events ++ [.ended id index flow] ++ l.stage.milestones)
    (hregisters : l'.registers = { l.registers with cursor := m.cursorAfter who index flow })
    (hphases : l'.phases = Function.update l.phases id x)
    (hx : ∀ who index activity, x ≠ some (.stepping who index activity)) :
    l'.Trailing m calls := by
  obtain ⟨earlier, release, step, htrail, hstep, hengaged⟩ := h.amid hkept hphase
  rw [List.append_assoc] at hmilestones
  refine ⟨?_, .resting (flow.next index), ?_, .resting ?_ fun j who' index' activity' hstepping => ?_⟩
  · rw [hregisters, hmilestones, m.returnTo_asides haside]
    exact h.returnTo
  · rw [hmilestones]
    exact (htrail.ended hstep (hengaged.poll_ok hp)).asides haside
  · rw [hregisters]
    exact m.wrap_cursorAfter who index flow
  · -- whoever executes a step is the owner, and that was the one whose step has ended
    rw [hphases] at hstepping
    by_cases hj : j = id
    · subst hj
      rw [Function.update_self] at hstepping
      exact hx _ _ _ hstepping
    · rw [Function.update_of_ne hj] at hstepping
      exact hj (Option.some.inj ((hkept.owner hstepping).symm.trans (hkept.owner hphase)))

/-- A call for one step lets the parked hold go, which is what the trail is amid. -/
theorem Trailing.resumes (h : l.Trailing m calls) (hkept : l.Kept) {seek : Option Nat}
    (hcall : calls[id]? = some call) (hwants : m.Wants call (.next seek)) {holder index : Nat}
    (hne : holder ≠ id) (hholder : l.phases holder = some (.stepping who index (.holding none))) :
    ((l.letGo id holder who index (.resumed seek)).finish id (.ok ())).Trailing m calls := by
  obtain ⟨earlier, release, step, htrail, hstep, hengaged⟩ := h.amid hkept hholder
  cases hengaged with
  | busy _ hholds =>
    have hreleased : m.Trail calls (.released id holder (.resumed (m.sought? calls id)) :: _) _ :=
      htrail.released
    rw [Machine.sought?_of_wants hcall hwants] at hreleased
    have hfreed : ((l.letGo id holder who index (.resumed seek)).finish id (.ok ())).phases holder
        = some (.stepping who index (.holding (some (.resumed seek)))) := by
      rw [finish_of_ne hne]
      exact setPhase_self
    exact ⟨h.returnTo, .amid earlier holder index (some (.resumed seek)), hreleased.aside rfl,
      .amid hfreed hstep (.freed (.resumed seek) (hholds rfl))⟩

/-- **A deed leaves a trail**, as long as no step fails. -/
theorem Trailing.deed (h : l.Trailing m calls) (hsteady : m.Steady calls) (hkept : l.Kept)
    (hruns : l.Runs m) (hcharged : l.Charged m calls) (hdeed : Deed m id l events l')
    (hfailed : ∀ i index e, .failed i index e ∉ events) : l'.Trailing m calls := by
  have hrecorded := hdeed.milestones
  have hserves {phase : Phase} (hphase : l.phases id = some phase) :
      ∃ call, calls[id]? = some call ∧ m.Serves call phase := hcharged id phase hphase
  -- a call that neither executed a step before nor does so now
  have haside {phase : Phase} {x : Option Phase} (hphase : l.phases id = some phase)
      (hphases : l'.phases = Function.update l.phases id x)
      (hold : ∀ who index activity, phase ≠ .stepping who index activity)
      (hnew : ∀ who index activity, x ≠ some (.stepping who index activity))
      (hevents : ∀ e ∈ events, e.isAside = true) (hregisters : l'.registers = l.registers) :
      l'.Trailing m calls := by
    refine h.aside hevents hrecorded (by rw [hregisters]) (by rw [hregisters]) ?_
    rw [hphases]
    refine stepping_update (fun who index activity hx => ?_) hnew
    exact hold who index activity (Option.some.inj (hphase.symm.trans hx))
  have hauto {phase : Phase} {purpose : Purpose} (hphase : l.phases id = some phase)
      (hepoch : phase.epoch? = purpose.epoch?) (hsome : purpose.epoch?.isSome) :
      m.settings.drive = .auto := by
    obtain ⟨epoch, he⟩ := Option.isSome_iff_exists.1 hsome
    exact hruns.auto (((run?_of_phases hphase).trans hepoch).trans he)
  cases hdeed with
  | start hphase _ _ => exact haside hphase rfl (by simp) (by simp) (by simp) rfl
  | idle hphase _ =>
    exact haside hphase rfl (by simp) (by simp) (by simp [Event.isAside]) rfl
  | ask hphase _ _ => exact haside hphase rfl (by simp) (by simp) (by simp) rfl
  | empty hphase _ =>
    exact haside hphase rfl (by simp) (by simp) (by simp [Event.isAside]) rfl
  | lost hphase _ =>
    exact haside hphase rfl (by simp) (by simp) (by simp [Event.isAside]) rfl
  | stop hphase => exact haside hphase rfl (by simp) (by simp) (by simp) rfl
  | reset hphase => exact haside hphase rfl (by simp) (by simp) (by simp) rfl
  | animate hphase => exact haside hphase rfl (by simp) (by simp) (by simp) rfl
  | drop hphase _ _ _ =>
    obtain ⟨call, hcall, rfl | rfl⟩ := hserves hphase
    · exact absurd (List.mem_of_getElem? hcall) hsteady.stop
    · exact absurd (List.mem_of_getElem? hcall) hsteady.reset
  | resume hphase _ hne hholder =>
    obtain ⟨call, hcall, hwants⟩ := hserves hphase
    exact h.resumes hkept hcall hwants hne hholder
  | rest hphase _ _ => exact h.aside (by simp) hrecorded rfl rfl fun _ _ _ _ => .rfl
  | permit hphase _ _ _ _ _ => exact h.aside (by simp) hrecorded rfl rfl fun _ _ _ _ => .rfl
  | queue hphase _ _ _ => exact haside hphase rfl (by simp) (by simp) (by simp) rfl
  | take hphase _ hfree _ hb =>
    obtain ⟨call, hcall, hwants⟩ := hserves hphase
    refine h.entry hsteady (fun j who index activity hstepping => ?_) hb rfl rfl rfl hcall hwants
      (hauto hphase rfl)
    cases hfree.symm.trans (hkept.owner hstepping)
  | enter hphase howner _ hb =>
    obtain ⟨call, hcall, hwants⟩ := hserves hphase
    refine h.entry hsteady (fun j who index activity hstepping => ?_) hb rfl rfl rfl hcall hwants
      (hauto hphase rfl)
    obtain rfl : id = j := Option.some.inj (howner.symm.trans (hkept.owner hstepping))
    cases hphase.symm.trans hstepping
  | withdraw hphase _ _ => exact haside hphase rfl (by simp) (by simp) (by simp) rfl
  | wait _ _ _ => exact h.aside (by simp) hrecorded rfl rfl fun _ _ _ _ => .rfl
  | busy hphase hp =>
    obtain ⟨earlier, release, step, htrail, hstep, hengaged⟩ := h.amid hkept hphase
    refine ⟨?_, _, ?_, .amid setPhase_self hstep (hengaged.poll_busy hp)⟩
    · rw [hrecorded]
      exact h.returnTo
    · rw [hrecorded]
      exact htrail
  | ended hphase hp =>
    exact h.ends hkept hphase hp (by simp) (show _ = [] ++ [_] ++ _ from hrecorded) rfl rfl
      (by simp)
  | @executed index activity s flow hphase hp =>
    exact h.ends hkept hphase hp (by simp [Event.isAside])
      (show _ = [.returned id (.ok ())] ++ [_] ++ _ from hrecorded) rfl rfl (by simp)
  | @crashed _ index _ _ e _ _ => exact absurd (by simp) (hfailed id index e)
  | @failed index _ _ e _ _ => exact absurd (by simp) (hfailed id index e)
  | move hphase _ => exact haside hphase rfl (by simp) (by simp) (by simp) rfl
  | moved hphase _ =>
    exact haside hphase rfl (by simp) (by simp) (by simp [Event.isAside]) rfl

end Ledger

/-! ### Scripts -/

namespace Config

variable {m m' : Machine} {calls calls' : List Call} {c c' : Config} {id : Nat}

/-- A machine is driven by a script: its calls come one after the other, at any time, and between
them anything may happen but another call. -/
inductive Driven (m : Machine) (calls : List Call) : Config → Prop
  | fresh (driver : Driver Float) (functions : Registry) :
      Driven m calls (Config.fresh m driver functions)
  | issue {c : Config} {call : Call} : Driven m calls c → calls[c.calls]? = some call →
      Driven m calls (c.issue call)
  | move {c c' : Config} : Driven m calls c → Move m c c' → c'.calls = c.calls → Driven m calls c'

theorem Driven.reachable (h : c.Driven m calls) : c.Reachable m := by
  induction h with
  | fresh driver functions => exact .fresh driver functions
  | issue _ _ ih => exact ih.issue _
  | move _ hmove _ ih => exact ih.move hmove

theorem Driven.settle (h : c.Driven m calls) (fuel : Nat) : (c.settle m fuel).Driven m calls := by
  induction fuel generalizing c with
  | zero => exact h
  | succ fuel ih =>
    unfold Config.settle
    split
    · exact h
    · refine ih (h.move .step ?_)
      rcases hready : c.ready with - | ⟨id, rest⟩
      · rw [step_of_idle hready]
      · obtain ⟨events, hdeed⟩ := h.reachable.ordered.deed (m := m) hready
        exact hdeed.frame.2

/-- What happens between two calls is a deed or something outside. -/
theorem Ordered.turn_of_calls_eq (h : c.Ordered) (hmove : Move m c c') (hcalls : c'.calls = c.calls) :
    (∃ id events, Ledger.Deed m id c.ledger events c'.ledger) ∨
      ∃ s, s.milestones = c.stage.milestones ∧ c'.ledger = { c.ledger with stage := s } := by
  obtain ⟨events, hturn⟩ := h.turn hmove
  generalize hl : c.ledger = l at hturn
  generalize hl' : c'.ledger = l' at hturn
  have hsame : l'.calls = l.calls := by
    rw [← hl, ← hl']
    exact hcalls
  cases hturn with
  | deed hdeed => exact .inl ⟨_, _, hdeed⟩
  | issue _ _ => exact absurd hsame (Nat.succ_ne_self _)
  | outside hmilestones _ _ =>
    refine .inr ⟨_, ?_, rfl⟩
    rw [hmilestones, ← hl]
    rfl

theorem Driven.charged (h : c.Driven m calls) : c.ledger.Charged m calls := by
  induction h with
  | fresh driver functions => exact fun _ _ hphase => (nomatch hphase)
  | @issue c call hdriven hcall ih =>
    have hnone : c.phase? c.calls = none :=
      role_eq_absent_iff.1 (hdriven.reachable.ordered.fresh _ (Nat.le_refl _))
    rw [ledger_issue hnone]
    exact ih.issue hcall
  | move hdriven hmove hcalls ih =>
    rcases hdriven.reachable.ordered.turn_of_calls_eq hmove hcalls with
      ⟨id, events, hdeed⟩ | ⟨s, -, hs⟩
    · exact ih.deed hdriven.reachable.runs hdeed
    · rw [hs]
      exact ih

/-- **A steady script leaves a trail**, as long as no step fails. -/
theorem Driven.trailing (h : c.Driven m calls) (hsteady : m.Steady calls)
    (hfailed : ∀ i index e, .failed i index e ∉ c.stage.milestones) :
    c.ledger.Trailing m calls := by
  induction h with
  | fresh driver functions =>
    exact ⟨rfl, .resting 0, .start, .resting rfl fun _ _ _ _ h => (nomatch h)⟩
  | @issue c call hdriven hcall ih =>
    have hnone : c.phase? c.calls = none :=
      role_eq_absent_iff.1 (hdriven.reachable.ordered.fresh _ (Nat.le_refl _))
    rw [ledger_issue hnone]
    refine (ih hfailed).aside (by simp) (show _ = [] ++ _ from rfl) rfl rfl
      (Ledger.stepping_update (fun who index activity hphase => ?_) (by simp))
    cases hnone.symm.trans hphase
  | @move c c' hdriven hmove hcalls ih =>
    have hordered := hdriven.reachable.ordered
    rcases hordered.turn_of_calls_eq hmove hcalls with ⟨id, events, hdeed⟩ | ⟨s, hs, hledger⟩
    · have hmilestones : c'.stage.milestones = events ++ c.stage.milestones := hdeed.milestones
      have hbefore : ∀ i index e, .failed i index e ∉ c.stage.milestones := fun i index e hmem =>
        hfailed i index e (hmilestones ▸ List.mem_append_right _ hmem)
      have hnew : ∀ i index e, .failed i index e ∉ events := fun i index e hmem =>
        hfailed i index e (hmilestones ▸ List.mem_append_left _ hmem)
      exact (ih hbefore).deed hsteady hordered.kept hdriven.reachable.runs hdriven.charged hdeed hnew
    · have hmilestones : c'.stage.milestones = c.stage.milestones := by
        rw [← hs]
        exact congrArg (fun l : Ledger => l.stage.milestones) hledger
      rw [hledger]
      rw [hmilestones] at hfailed
      exact (ih hfailed).aside (by simp) (show _ = [] ++ _ from hs) rfl rfl fun _ _ _ _ => .rfl

/-- A machine has been driven by a steady script, and no step has failed. -/
structure Steady (m : Machine) (calls : List Call) (c : Config) : Prop where
  driven : c.Driven m calls
  steady : m.Steady calls
  failed : ∀ i index e, .failed i index e ∉ c.stage.milestones

/-- **Whoever drives, no step is skipped or repeated.**  A machine is driven by runs and calls for
one step in any mixture, manual or in one pass.  The first step that begins is the first one of the
program.  Of two steps that begin one after the other, the first has ended by then, and the other
one is where it said to go on, or the first one of the program past the end; if a hold was let go,
it said what the call that let it go had asked for.  The only exception is a call that asks for a
label and executes a step itself, the one at the label.

If no call asks for a label, two machines on the same program begin the same steps, as long as what
has ended said the same. -/
theorem Steady.continues (h : c.Steady m calls) :
    (∀ later earlier b j, c.stage.milestones = later ++ .began b j :: earlier →
      (∀ id index, .began id index ∉ earlier) → j = m.wrap ((m.sought? calls b).getD 0)) ∧
    (∀ later between earlier a b i j,
      c.stage.milestones = later ++ .began b j :: (between ++ .began a i :: earlier) →
      (∀ id index, .began id index ∉ between) →
      ∃ step flow release, m.program.step? i = some step ∧ .ended a i flow ∈ between ∧
        m.Frees calls a between release ∧
        m.Decides i (m.returnTo earlier) release step.action flow ∧
        j = m.wrap ((m.sought? calls b).getD (flow.next i))) ∧
    ∀ (m' : Machine) (calls' : List Call) (c' : Config), c'.Steady m' calls' →
      m'.program = m.program →
      (∀ label, .next (some label) ∉ calls) → (∀ label, .next (some label) ∉ calls') →
      ∀ k i i', (begun c.stage.milestones)[k]? = some i →
        (begun c'.stage.milestones)[k]? = some i' →
        (decided c.stage.milestones).take k = (decided c'.stage.milestones).take k → i = i' := by
  obtain ⟨stand, htrail, -⟩ := (h.driven.trailing h.steady h.failed).stand
  -- the part of the trail before a step begins says where it is
  have hfollow {later events : List Event} {b j : Nat}
      (hevents : c.stage.milestones = later ++ .began b j :: events) :
      ∃ cursor, m.Trail calls events (.resting cursor) ∧
        j = m.wrap ((m.sought? calls b).getD cursor) := by
    have hwhole : m.Trail calls (later ++ .began b j :: events) stand := hevents ▸ htrail
    obtain ⟨stand', hsuffix⟩ := hwhole.suffix
    cases hsuffix with
    | aside _ haside => cases haside
    | began hbefore => exact ⟨_, hbefore, rfl⟩
  refine ⟨fun later earlier b j hevents hnone => ?_,
    fun later between earlier a b i j hevents hnone => ?_, ?_⟩
  · obtain ⟨cursor, hbefore, hj⟩ := hfollow hevents
    cases hbefore.stand_of_not_began hnone
    exact hj
  · obtain ⟨cursor, hbefore, hj⟩ := hfollow hevents
    rcases hbefore.since_began hnone with
      ⟨release, hstand, -⟩ | ⟨step, flow, release, hstand, hstep, hended, hfrees, hdecides⟩
    · cases hstand
    · cases hstand
      exact ⟨step, flow, release, hstep, hended, hfrees, hdecides, hj⟩
  · intro m' calls' c' h' hprogram hcalls hcalls' k i i' hi hi' hflows
    obtain ⟨stand', htrail', -⟩ := (h'.driven.trailing h'.steady h'.failed).stand
    calc i = m.indexAfter ((decided c.stage.milestones).take k) :=
          (htrail.led (Machine.sought?_eq_none hcalls)).2 k i hi
      _ = m'.indexAfter ((decided c'.stage.milestones).take k) := by
          rw [hflows, Machine.indexAfter_congr hprogram]
      _ = i' := ((htrail'.led (Machine.sought?_eq_none hcalls')).2 k i' hi').symm

/-- A machine that holds, comments, and has a label behind that. -/
def holdLabel : Machine where
  program := ⟨[⟨{ action := .hold }, none⟩, ⟨{ action := .comment "skipped" }, none⟩,
    ⟨{ action := .label "on" }, none⟩], ⟨[("on", 2)]⟩⟩

/-- A call executes the hold, another one lets it go and asks for the label, and a run goes on. -/
def labelCalls : List Call := [.next none, .next (some "on"), .start]

/-- The machine after these calls. -/
def pastLabel : Config :=
  (((((fresh holdLabel {} {}).issue (.next none)).settle holdLabel 20).issue
    (.next (some "on"))).settle holdLabel 20 |>.issue .start).settle holdLabel 20

theorem driven_pastLabel : pastLabel.Driven holdLabel labelCalls := by
  have hholds : (((fresh holdLabel {} {}).issue (.next none)).settle holdLabel 20).Driven
      holdLabel labelCalls :=
    ((Driven.fresh {} {}).issue rfl).settle 20
  exact (((hholds.issue (by cbv)).settle 20).issue (by cbv)).settle 20

theorem steady_pastLabel : pastLabel.Steady holdLabel labelCalls where
  driven := driven_pastLabel
  steady := ⟨.inr rfl, by simp [labelCalls], by simp [labelCalls]⟩
  failed i index e := by
    have hnone : pastLabel.stage.milestones.any Event.isFailure = false := by cbv
    exact fun hmem => List.any_eq_false.1 hnone _ hmem rfl

/-- What happened between the hold and the step at the label. -/
def labelEvents : List Event :=
  [.published ⟨2, "on"⟩, .returned 0 (.ok ()), .ended 0 0 (.jump 2), .returned 1 (.ok ()),
    .released 1 0 (.resumed (some 2)), .parked 0]

theorem continues_pastLabel : ∃ step flow release, holdLabel.program.step? 0 = some step ∧
    .ended 0 0 flow ∈ labelEvents ∧ holdLabel.Frees labelCalls 0 labelEvents release ∧
    holdLabel.Decides 0 (holdLabel.returnTo [.published ⟨0, "hold-0"⟩]) release step.action flow ∧
    2 = holdLabel.wrap ((holdLabel.sought? labelCalls 2).getD (flow.next 0)) :=
  steady_pastLabel.continues.2.1 [.returned 2 (.ok ()), .ended 2 2 .advance] labelEvents
    [.published ⟨0, "hold-0"⟩] 0 2 0 2
    (by cbv) (by simp [labelEvents])

end Config

end Timeline
