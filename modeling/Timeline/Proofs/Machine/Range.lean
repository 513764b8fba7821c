/-
Timeline/Proofs/Machine/Range.lean

The registers stay in range.

The cursor stands at a step of the program or behind the last one, and so does the
address that a `resume` step takes.  What moves them is what steps say where to go
on, what a call for one step asks for, and what it puts back; none of them looks at
the length of the program, but for a call for one step.  So it is the labels that
must lead to steps (`Program.Anchored`), which they do in whatever a scenario
compiles to, and the ends of branches, which are never behind the program even if
the brackets do not match.

Main results: whatever a step decides leads into range (`Machine.lands_of_decides`),
and the registers of a reachable configuration are in range, as is all that calls
ask for (`Config.Reachable.inRange`).
-/
import Timeline.Proofs.Machine.Strides
import Timeline.Proofs.Program.Labels
import Timeline.Proofs.Program.Matching

namespace Timeline

open Relation

/-! ### Labels -/

/-- All labels lead to steps of the program. -/
def Program.Anchored (p : Program) : Prop :=
  ∀ label index, p.labelIndex? label = some index → index < p.length

/-- The labels of a program that a scenario compiles to lead to its steps, whatever errors there
are. -/
theorem Scenario.anchored_compile (scenario : Scenario) (options : CompileOptions) :
    (scenario.compile options).program.Anchored :=
  fun _ _ hlabel => scenario.labelIndex?_lt options hlabel

/-! ### Where a step leads -/

theorem Activity.Meets.mono {B : Bounds} {Q Q' : Flow → Prop} {activity : Activity}
    (h : activity.Meets B Q) (hQ : ∀ flow, Q flow → Q' flow) : activity.Meets B Q' := by
  cases activity with
  | working course =>
    cases course with
    | ahead work => exact Work.Meets.mono h hQ
    | asleep _ _ rest => exact fun v => (h v).mono hQ
  | preparing members => exact ⟨h.1, hQ _ h.2⟩
  | animating convoy => exact ⟨h.1, hQ _ h.2⟩
  | holding release => exact fun r hr => hQ _ (h r hr)

namespace Machine

variable {m : Machine} {index : Nat} {returnTo : Option Nat} {release : Option Release}
  {action : Action} {flow : Flow}

/-- To go on so after the step at an index leads to a step of the program, or behind the last
one. -/
def Lands (m : Machine) (index : Nat) (flow : Flow) : Prop :=
  flow.next index ≤ m.program.length

theorem lands_advance (hindex : index < m.program.length) : m.Lands index .advance :=
  hindex

theorem lands_jump (hanchored : m.program.Anchored) {label : String}
    (h : (m.program.labelIndex? label).map Flow.jump = some flow) : m.Lands index flow := by
  obtain ⟨target, htarget, rfl⟩ := Option.map_eq_some_iff.1 h
  exact Nat.le_of_lt (hanchored label target htarget)

/-- **Whatever a step decides** leads into range, if the address that a `resume` step takes does. -/
theorem lands_of_decides (hanchored : m.program.Anchored) (hindex : index < m.program.length)
    (hreturn : ∀ target, returnTo = some target → target ≤ m.program.length)
    (hrelease : ∀ r, release = some r → m.Lands index r.flow)
    (h : m.Decides index returnTo release action flow) : m.Lands index flow := by
  have hplain (hflow : flow = .advance) : m.Lands index flow := hflow ▸ lands_advance hindex
  cases action with
  | hold =>
    obtain ⟨r, hr, rfl⟩ := Option.map_eq_some_iff.1 h
    exact hrelease r hr
  | goto label => exact lands_jump hanchored h
  | resume =>
    obtain rfl : flow = returnTo.elim .advance .jump := h
    cases returnTo with
    | none => exact lands_advance hindex
    | some target => exact hreturn target rfl
  | ifJump condition onTrue onFalse =>
    rcases h with ⟨label, -, hlabel⟩ | ⟨-, hflow⟩
    · exact lands_jump hanchored hlabel
    · exact hplain hflow
  | ifThen condition =>
    rcases h with hflow | rfl
    · exact hplain hflow
    · exact (Program.skipBranch_mem_Ioc hindex).2
  | ifElse =>
    obtain rfl : flow = .jump (m.program.skipBranch index false) := h
    exact (Program.skipBranch_mem_Ioc hindex).2
  | _ => exact hplain h

theorem wrap_lt (hlength : 0 < m.program.length) : m.wrap index < m.program.length := by
  unfold wrap
  split
  · exact hlength
  · omega

theorem wrap_le : m.wrap index ≤ m.program.length := by
  unfold wrap
  split <;> omega

end Machine

/-! ### Registers -/

/-- The registers lead to steps of the program or behind the last one; the cursor of a manual
machine always leads to a step. -/
structure Registers.InRange (m : Machine) (r : Registers) : Prop where
  cursor : r.cursor ≤ m.program.length
  returnTo : ∀ target, r.returnTo = some target → target ≤ m.program.length
  manual : m.settings.drive = .manual → 0 < m.program.length → r.cursor < m.program.length

namespace Registers

variable {m : Machine} {r : Registers} {index : Nat}

theorem inRange_zero (hcursor : r.cursor = 0) (hreturn : r.returnTo = none) : r.InRange m where
  cursor := hcursor ▸ Nat.zero_le _
  returnTo target htarget := by cases hreturn.symm.trans htarget
  manual _ hlength := hcursor ▸ hlength

/-- What a call for one step makes of a cursor is in range. -/
theorem InRange.wrap (h : r.InRange m) (index : Nat) :
    InRange m { r with cursor := m.wrap index } where
  cursor := Machine.wrap_le
  returnTo := h.returnTo
  manual _ hlength := Machine.wrap_lt hlength

/-- A step that begins leaves the cursor alone and remembers the step behind it at most. -/
theorem InRange.begin (h : r.InRange m) (hindex : index < m.program.length) (action : Action) :
    (m.begin index action r).1.InRange m := by
  obtain ⟨-, hreturn, hcursor⟩ := m.begin_decides index action r
  refine ⟨hcursor ▸ h.cursor, fun target htarget => ?_, fun hmanual => hcursor ▸ h.manual hmanual⟩
  rw [hreturn] at htarget
  cases action with
  | goto label =>
    rcases ite_eq_iff.1 htarget with ⟨-, hnext⟩ | ⟨-, hkept⟩
    · obtain rfl := Option.some.inj hnext
      exact hindex
    · exact h.returnTo target hkept
  | resume => cases htarget
  | _ => exact h.returnTo target htarget

/-- The end of a step moves the cursor into range; a manual machine executes no step for a run. -/
theorem InRange.ends (h : r.InRange m) {who : Stepper} {flow : Flow} (hlands : m.Lands index flow)
    (hwho : m.settings.drive = .manual → who = .next) :
    InRange m { r with cursor := m.cursorAfter who index flow } where
  cursor := by
    show m.cursorAfter who index flow ≤ _
    unfold Machine.cursorAfter
    split
    · exact Nat.zero_le _
    · exact hlands
  returnTo := h.returnTo
  manual hmanual hlength := by
    show m.cursorAfter who index flow < _
    unfold Machine.cursorAfter
    split
    · exact hlength
    · rename_i hnot
      exact Nat.lt_of_not_le fun hle => hnot ⟨hwho hmanual, hmanual, hle⟩

end Registers

/-! ### Calls -/

/-- A call for one step is served by a machine that has steps only, and asks for one of them. -/
def Purpose.InRange (m : Machine) : Purpose → Prop
  | next seek =>
    0 < m.program.length ∧ ∀ target, seek = some target → target < m.program.length
  | _ => True

/-- What a call asks for, and what comes after the step that it executes, is in range. -/
def Phase.InRange (m : Machine) : Phase → Prop
  | seeking purpose => purpose.InRange m
  | queued purpose => purpose.InRange m
  | stepping _ index activity =>
    index < m.program.length ∧ activity.Meets .free (m.Lands index)
  | _ => True

namespace Ledger

variable {m : Machine} {l l' : Ledger} {id : Nat} {events : List Event}

/-- The registers and all calls are in range. -/
structure InRange (m : Machine) (l : Ledger) : Prop where
  registers : l.registers.InRange m
  phases : ∀ id phase, l.phases id = some phase → phase.InRange m

/-- One call goes over to another phase. -/
theorem InRange.update (h : l.InRange m) {x : Option Phase}
    (hphases : l'.phases = Function.update l.phases id x)
    (hx : ∀ phase, x = some phase → phase.InRange m) (hregisters : l'.registers.InRange m) :
    l'.InRange m where
  registers := hregisters
  phases j phase hphase := by
    rw [hphases] at hphase
    by_cases hj : j = id
    · subst hj
      rw [Function.update_self] at hphase
      exact hx phase hphase
    · rw [Function.update_of_ne hj] at hphase
      exact h.phases j phase hphase

theorem InRange.enters (h : l.InRange m) {phase : Phase}
    (hphases : l'.phases = Function.update l.phases id (some phase)) (hphase : phase.InRange m)
    (hregisters : l'.registers.InRange m) : l'.InRange m :=
  h.update hphases (fun _ hx => Option.some.inj hx ▸ hphase) hregisters

/-- A call that is over asks for nothing. -/
theorem InRange.over (h : l.InRange m) (hphases : l'.phases = Function.update l.phases id none)
    (hregisters : l'.registers.InRange m) : l'.InRange m :=
  h.update hphases (fun _ hx => by cases hx) hregisters

theorem InRange.begins (h : l.InRange m) {who : Stepper} (hanchored : m.program.Anchored)
    (hb : Begins m id who l events l') : l'.InRange m := by
  have hindex := hb.lt_length
  cases hb with
  | hold _ _ =>
    refine h.enters rfl ?_ h.registers
    exact ⟨hindex, fun _ hr => (nomatch hr)⟩
  | @step step r activity _ _ hbegin =>
    have hregisters := h.registers.begin hindex step.action
    have hmeets := (m.begin_decides l.registers.cursor step.action l.registers).1
    rw [hbegin] at hregisters hmeets
    refine h.enters rfl ?_ hregisters
    refine ⟨hindex, hmeets.mono fun flow hflow => ?_⟩
    exact Machine.lands_of_decides hanchored hindex h.registers.returnTo (fun _ hr => by cases hr)
      hflow

/-- Whoever has become the owner of the registers keeps them in range. -/
theorem InRange.entry (h : l.InRange m) (hanchored : m.program.Anchored) {purpose : Purpose}
    (hentry : Entry m id l purpose events l') : l'.InRange m := by
  -- a call for one step moves the cursor before it begins the step
  have hwrapped (index : Nat) :
      InRange m { l with registers := { l.registers with cursor := m.wrap index } } :=
    ⟨h.registers.wrap index, h.phases⟩
  cases hentry with
  | clear =>
    refine h.enters rfl ?_ ⟨h.registers.cursor, h.registers.returnTo, h.registers.manual⟩
    exact trivial
  | stopped _ => exact h.over rfl h.registers
  | finished _ _ _ _ => exact h.over rfl h.registers
  | around _ _ _ _ _ =>
    refine h.enters rfl ?_ h.registers
    exact trivial
  | step _ _ hb => exact h.begins hanchored hb
  | cancelled _ => exact h.over rfl h.registers
  | restart _ =>
    refine h.enters rfl ?_ (Registers.inRange_zero rfl rfl)
    exact trivial
  | next hb => exact (hwrapped _).begins hanchored hb
  | vain _ => exact h.over rfl (h.registers.wrap _)
  | rewind => exact h.over rfl (Registers.inRange_zero rfl rfl)

/-- A parked hold that is let go leads into range. -/
theorem InRange.letGo (h : l.InRange m) {who : Stepper} {holder index : Nat} {release : Release}
    (hholder : l.phases holder = some (.stepping who index (.holding none)))
    (hlands : index < m.program.length → m.Lands index release.flow) :
    (l.letGo id holder who index release).InRange m := by
  have hindex : index < m.program.length := (h.phases _ _ hholder).1
  refine h.enters rfl ?_ h.registers
  exact ⟨hindex, fun r hr => Option.some.inj hr ▸ hlands hindex⟩

/-- A deed keeps all in range. -/
theorem InRange.deed (h : l.InRange m) (hanchored : m.program.Anchored) (hruns : l.Runs m)
    (hdeed : Deed m id l events l') : l'.InRange m := by
  have hpoll {who : Stepper} {index : Nat} {activity : Activity} {s : Stage}
      {p : Progress Activity _} (hphase : l.phases id = some (.stepping who index activity))
      (hp : activity.poll l.stage = (s, p)) :
      p.Meets (fun a => a.Meets .free (m.Lands index)) .free (m.Lands index) := by
    have hmeets := (Activity.poll_meets (h.phases _ _ hphase).2 (Bounds.free_covers l.stage)).2
    rw [hp] at hmeets
    cases p with
    | busy _ => exact hmeets.1
    | finished result => cases result <;> exact hmeets
  -- a call goes over to another phase, and leaves the registers as they are
  have henters {phase : Phase} (hphases : l'.phases = Function.update l.phases id (some phase))
      (hphase : phase.InRange m) (hregisters : l'.registers = l.registers) : l'.InRange m :=
    h.enters hphases hphase (hregisters ▸ h.registers)
  have hsame {l₁ : Ledger} (hphases : l₁.phases = l.phases)
      (hregisters : l₁.registers = l.registers) : l₁.InRange m :=
    ⟨hregisters ▸ h.registers, hphases ▸ h.phases⟩
  cases hdeed with
  | start _ _ _ => exact henters rfl trivial rfl
  | idle _ _ => exact h.over rfl h.registers
  | @ask label seek _ hlength hseek =>
    refine henters rfl ⟨hlength, fun target htarget => ?_⟩ rfl
    subst htarget
    obtain ⟨name, -, hname⟩ := Option.map_eq_some_iff.1 hseek
    exact hanchored name target hname
  | empty _ _ => exact h.over rfl h.registers
  | lost _ _ => exact h.over rfl h.registers
  | stop _ => exact henters rfl trivial rfl
  | reset _ => exact henters rfl trivial rfl
  | animate _ => exact henters rfl trivial rfl
  | drop _ _ _ hholder => exact h.letGo hholder Machine.lands_advance
  | @resume holder index who seek hphase _ _ hholder =>
    have hfreed : (l.letGo id holder who index (.resumed seek)).InRange m := by
      refine h.letGo hholder fun hindex => ?_
      cases seek with
      | none => exact hindex
      | some target => exact Nat.le_of_lt ((h.phases _ _ hphase).2 target rfl)
    exact hfreed.over rfl hfreed.registers
  | rest _ _ _ => exact hsame rfl rfl
  | permit _ _ _ _ _ _ => exact hsame rfl rfl
  | @queue purpose hphase _ _ _ =>
    have hpurpose : purpose.InRange m := h.phases _ _ hphase
    exact henters rfl hpurpose rfl
  | take _ _ _ _ hb =>
    refine InRange.entry ?_ hanchored hb
    exact hsame rfl rfl
  | enter _ _ _ hb =>
    refine InRange.entry ?_ hanchored hb
    exact hsame rfl rfl
  | @withdraw purpose hphase _ _ =>
    have hpurpose : purpose.InRange m := h.phases _ _ hphase
    exact henters rfl hpurpose rfl
  | wait _ _ _ => exact hsame rfl rfl
  | busy hphase hp => exact henters rfl ⟨(h.phases _ _ hphase).1, hpoll hphase hp⟩ rfl
  | ended hphase hp =>
    refine h.enters rfl ?_ (h.registers.ends (hpoll hphase hp) fun hmanual => ?_)
    · exact trivial
    cases (hruns.auto (run?_of_phases hphase)).symm.trans hmanual
  | executed hphase hp => exact h.over rfl (h.registers.ends (hpoll hphase hp) fun _ => rfl)
  | crashed _ _ => exact h.over rfl h.registers
  | failed _ _ => exact h.over rfl h.registers
  | move _ _ => exact henters rfl trivial rfl
  | moved _ _ => exact h.over rfl h.registers

/-- Whatever happens keeps all in range. -/
theorem InRange.turn (h : l.InRange m) (hanchored : m.program.Anchored) (hruns : l.Runs m)
    (hturn : Turn m l events l') : l'.InRange m := by
  cases hturn with
  | deed hdeed => exact h.deed hanchored hruns hdeed
  | issue call _ =>
    refine h.enters rfl ?_ h.registers
    exact trivial
  | outside _ _ _ => exact ⟨h.registers, h.phases⟩

/-- Whoever is about to execute a step finds one at the cursor, but for a run that has come to the
end of the program and looks for that first. -/
theorem InRange.aims (h : l.InRange m) {who : Stepper} {r : Registers} (haims : l.Aims m id who r) :
    r.cursor < m.program.length ∨ r.cursor = m.program.length ∧ ∃ epoch, who = .run epoch := by
  cases haims with
  | @run epoch _ =>
    exact (Nat.lt_or_eq_of_le h.registers.cursor).imp_right fun heq => ⟨heq, epoch, rfl⟩
  | next hseeks =>
    have hpurpose : Purpose.InRange m (.next _) :=
      hseeks.elim (fun hphase => h.phases _ _ hphase) fun hphase => h.phases _ _ hphase
    exact .inl (Machine.wrap_lt hpurpose.1)

end Ledger

namespace Config

variable {m : Machine} {c : Config}

/-- **The registers of a reachable configuration are in range**, and so is all that calls ask
for. -/
theorem Reachable.inRange (h : c.Reachable m) (hanchored : m.program.Anchored) :
    c.ledger.InRange m := by
  -- the end of a step of a run is in range because no manual machine has one
  have hboth : c.ledger.InRange m ∧ c.ledger.Runs m := by
    refine h.induction (P := fun l => l.InRange m ∧ l.Runs m) (fun driver functions => ?_)
      fun hl _ hturn => ⟨hl.1.turn hanchored hl.2 hturn, hl.2.turn hturn⟩
    exact ⟨⟨Registers.inRange_zero rfl rfl, fun _ _ hphase => by cases hphase⟩,
      (Reachable.fresh driver functions).runs⟩
  exact hboth.1

end Config

end Timeline
