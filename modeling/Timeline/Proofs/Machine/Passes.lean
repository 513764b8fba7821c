/-
Timeline/Proofs/Machine/Passes.lean

What is lost when a run begins another pass.

A run that loops sees the end of the program as the owner of the registers, gives
them up, and takes them again to restart them.  Whoever queues for the registers
comes in between, and the run does not look at the cursor again.  Main result
(`Config.Reachable.restart_discards`): what a restart can discard was done by others
since the run saw the end.  If no step has begun since, the registers are those of
the end of the program or those of a rewind, and if nobody stood in the queue they
are those of the end.

`discards_step` is a run that discards the step of a call that came in between.
-/
import Timeline.Proofs.Machine.Cancellation
import Timeline.Proofs.Machine.Continuation
import Timeline.Proofs.Machine.Turns
import Timeline.Proofs.Stage.Dealings

namespace Timeline

open Relation

/-- Only a run begins another pass. -/
theorem Phase.epoch?_of_restarts {phase : Phase} (h : phase.restarts = true) :
    ∃ epoch, phase.epoch? = some epoch := by
  rcases phase with _ | ⟨⟨⟩⟩ | ⟨⟨⟩⟩ | _ | _ <;> cases h
  all_goals exact ⟨_, rfl⟩

namespace Ledger

variable {m : Machine} {l l' : Ledger} {id epoch : Nat} {events base : List Event}
  {phase phase' : Phase} {seen : Registers}

/-! ### While nobody executes a step -/

/-- As long as no step begins nobody executes one. -/
theorem Deed.resting (h : Deed m id l events l') (hresting : l.Resting) :
    l'.Resting ∨ ∃ index, .began id index ∈ events := by
  by_cases hbegan : ∃ index, .began id index ∈ events
  · exact .inr hbegan
  · left
    intro j who index activity hphase
    -- who executes a step after a deed did so before, or has just begun it
    by_cases hj : j = id
    · subst hj
      rcases h.steps hphase with ⟨⟨before, hbefore⟩, -⟩ | ⟨-, -, -, -, hmem⟩
      · exact hresting _ _ _ _ hbefore
      · exact hbegan ⟨index, hmem⟩
    · rcases h.other hj with hsame | ⟨who', index', -, -, hholder, -, -⟩
      · exact hresting _ _ _ _ (hsame ▸ hphase)
      · exact hresting _ _ _ _ hholder

/-- Who is no run leaves the registers alone, rewinds them, or begins a step. -/
theorem Deed.registers_of_resting (h : Deed m id l events l') (hresting : l.Resting)
    (hrun : l.run? id = none) (hlength : 0 < m.program.length) :
    l'.registers = l.registers ∨ .rewound id ∈ events ∧ l'.registers = {} ∨
      ∃ index, .began id index ∈ events := by
  have hentry {l₁ : Ledger} {purpose : Purpose} (hb : Entry m id l₁ purpose events l')
      (hregisters : l₁.registers = l.registers)
      (hphase : l.phases id = some (.seeking purpose) ∨ l.phases id = some (.queued purpose)) :
      l'.registers = l.registers ∨ .rewound id ∈ events ∧ l'.registers = {} ∨
        ∃ index, .began id index ∈ events := by
    -- so the registers are not wanted by a run
    have hnone : purpose.epoch? = none := by
      rcases hphase with hphase | hphase
      · exact (run?_of_phases hphase).symm.trans hrun
      · exact (run?_of_phases hphase).symm.trans hrun
    cases hb with
    | next hb => exact .inr (.inr ⟨_, hb.began⟩)
    | vain hempty =>
      rw [hempty] at hlength
      cases hlength
    | rewind => exact .inr (.inl ⟨by simp, rfl⟩)
    | _ => cases hnone
  cases h with
  | take hphase _ _ _ hb => exact hentry hb rfl (.inl hphase)
  | enter hphase _ _ hb => exact hentry hb rfl (.inr hphase)
  | ended hphase _ => exact absurd hphase (hresting _ _ _ _)
  | executed hphase _ => exact absurd hphase (hresting _ _ _ _)
  | _ => exact .inl rfl

/-! ### How a run comes to begin another pass -/

/-- A run sees the end of the program, as the owner of the registers, and gives them up. -/
structure SeesEnd (m : Machine) (id epoch : Nat) (l l' : Ledger) : Prop where
  cursor : m.program.length ≤ l.registers.cursor
  nonempty : 0 < m.program.length
  looping : m.settings.looping = true
  current : l.epoch = epoch
  unstopped : l.registers.stopped = false
  /-- The run has taken the registers, or was handed them. -/
  owner : l.phases id = some (.seeking (.step epoch)) ∧ l.stage.turn ≠ 0 ∧ l.lock.owner = none ∨
    l.phases id = some (.queued (.step epoch)) ∧ l.lock.owner = some id
  phase : l'.phases id = some (.seeking (.restart epoch))
  registers : l'.registers = l.registers
  lock : l'.lock = ⟨l.lock.queue.head?, l.lock.queue.tail⟩

/-- An owner of the registers that is about to begin another pass has seen the end of the program. -/
theorem Entry.seesEnd {l₁ : Ledger} {purpose : Purpose} (h : Entry m id l₁ purpose events l')
    (howns : l.Owns id purpose l₁) (hphase' : l'.phases id = some phase')
    (hrestarts : phase'.restarts = true) : events = [] ∧ ∃ epoch, SeesEnd m id epoch l l' := by
  have hset {l₁ : Ledger} {phase : Phase} (hx : (l₁.setPhase id phase).phases id = some phase')
      (hnot : phase.restarts = false) : False := by
    rw [eq_of_setPhase hx, hrestarts] at hnot
    cases hnot
  have hbegins {l₁ : Ledger} {who : Stepper} (hb : Begins m id who l₁ events l') : False := by
    cases hb with
    | hold _ _ => exact hset hphase' rfl
    | step _ _ _ => exact hset hphase' rfl
  cases h with
  | @around epoch he hs hend hloop hlength =>
    refine ⟨rfl, epoch, ?_⟩
    exact
      { cursor := howns.registers ▸ hend
        nonempty := hlength
        looping := hloop
        current := howns.epoch ▸ he
        unstopped := howns.registers ▸ hs
        owner := howns.owner
        phase := setPhase_self
        registers := howns.registers
        lock := congrArg (fun queue => Lock.mk queue.head? queue.tail) howns.queue }
  | clear => exact (hset hphase' rfl).elim
  | restart _ => exact (hset hphase' rfl).elim
  | step _ _ hb => exact (hbegins hb).elim
  | next hb => exact (hbegins hb).elim
  | _ => cases finish_self.symm.trans hphase'

/-- Who is about to begin another pass was so before, or has just seen the end of the program. -/
theorem Deed.restarts (h : Deed m id l events l') (hphase' : l'.phases id = some phase')
    (hrestarts : phase'.restarts = true) :
    events = [] ∧ ((∃ phase, l.phases id = some phase ∧ phase.restarts = true ∧
      l'.registers = l.registers) ∨ ∃ epoch, SeesEnd m id epoch l l') := by
  obtain ⟨phase, hphase, hshift⟩ := h.shift hphase'
  cases hshift with
  | quiet hpasses hevents hregisters =>
    refine ⟨hevents, .inl ⟨phase, hphase, ?_, hregisters⟩⟩
    cases hpasses with
    | seek => exact hrestarts
    | wait => exact hrestarts
    | @queue purpose => cases purpose <;> exact hrestarts
    | @withdraw purpose => cases purpose <;> exact hrestarts
    | _ => cases hrestarts
  | entry hb howns _ =>
    obtain ⟨hevents, hsees⟩ := hb.seesEnd howns hphase' hrestarts
    exact ⟨hevents, .inr hsees⟩
  | _ => cases hrestarts

/-- The registers are restarted by a run that is about to begin another pass. -/
theorem Deed.restarted (h : Deed m id l events l') {i : Nat} (hmem : .restarted i ∈ events) :
    i = id ∧ ∃ phase, l.phases id = some phase ∧ phase.restarts = true ∧
      l'.registers = l.registers.restart := by
  have hbegins {l₁ : Ledger} {who : Stepper} (hb : Begins m id who l₁ events l') : False := by
    cases hb <;> simp at hmem
  have hentry {l₁ : Ledger} {purpose : Purpose} (hb : Entry m id l₁ purpose events l') :
      i = id ∧ (∃ epoch, purpose = .restart epoch) ∧ l'.registers = l₁.registers.restart := by
    cases hb with
    | @restart epoch _ =>
      cases List.mem_singleton.1 hmem
      exact ⟨rfl, ⟨epoch, rfl⟩, rfl⟩
    | step _ _ hb => exact (hbegins hb).elim
    | next hb => exact (hbegins hb).elim
    | _ => simp at hmem
  cases h with
  | take hphase _ _ _ hb =>
    obtain ⟨rfl, ⟨epoch, rfl⟩, hregisters⟩ := hentry hb
    exact ⟨rfl, _, hphase, rfl, hregisters⟩
  | enter hphase _ _ hb =>
    obtain ⟨rfl, ⟨epoch, rfl⟩, hregisters⟩ := hentry hb
    exact ⟨rfl, _, hphase, rfl, hregisters⟩
  | _ => simp at hmem

/-- When a run has seen the end of the program nobody executes a step. -/
theorem SeesEnd.resting (h : SeesEnd m id epoch l l') (hkept : l.Kept)
    (hdeed : Deed m id l events l') : l'.Resting := by
  intro j who index activity hphase
  by_cases hj : j = id
  · subst hj
    cases hphase.symm.trans h.phase
  · obtain ⟨activity', hbefore⟩ : ∃ activity, l.phases j = some (.stepping who index activity) := by
      rcases hdeed.other hj with hsame | ⟨_, _, _, -, hholder, -, hreleased⟩
      · exact ⟨activity, hsame ▸ hphase⟩
      · cases hreleased.symm.trans hphase
        exact ⟨_, hholder⟩
    -- whoever executes a step owns the registers, and the run did
    have howner := hkept.owner hbefore
    rcases h.owner with ⟨-, -, hfree⟩ | ⟨-, hown⟩
    · cases howner.symm.trans hfree
    · exact hj (Option.some.inj (howner.symm.trans hown))

/-! ### Between the end of the program and the restart -/

/-- What has become of the registers that a run has seen at the end of the program, after some more
milestones: a step has begun, or they are as they were, or as a rewind leaves them. -/
def Turned (seen : Registers) (since : List Event) (l : Ledger) : Prop :=
  (∃ j index, .began j index ∈ since) ∨
    l.Resting ∧ ((∃ j, .rewound j ∈ since) ∧ l.registers = {} ∨ l.registers = seen)

/-- What others do keeps that. -/
theorem Turned.other {since : List Event} (h : Turned seen since l)
    (hlength : 0 < m.program.length) (hdeed : Deed m id l events l') (hrun : l.run? id = none) :
    Turned seen (events ++ since) l' := by
  rcases h with ⟨j, index, hbegan⟩ | ⟨hresting, hregisters⟩
  · exact .inl ⟨j, index, List.mem_append_right _ hbegan⟩
  · rcases hdeed.resting hresting with hresting' | ⟨index, hbegan⟩
    · rcases hdeed.registers_of_resting hresting hrun hlength with
        hsame | ⟨hrewound, hinitial⟩ | ⟨index, hbegan⟩
      · refine .inr ⟨hresting', ?_⟩
        rw [hsame]
        apply hregisters.imp_left
        rintro ⟨⟨j, hj⟩, hinitial⟩
        exact ⟨⟨j, List.mem_append_right _ hj⟩, hinitial⟩
      · exact .inr ⟨hresting', .inl ⟨⟨id, List.mem_append_left _ hrewound⟩, hinitial⟩⟩
      · exact .inl ⟨id, index, List.mem_append_left _ hbegan⟩
    · exact .inl ⟨id, index, List.mem_append_left _ hbegan⟩

end Ledger

namespace Config

variable {m : Machine} {c c' c₀ : Config} {id epoch : Nat} {phase : Phase} {seen : Registers}

/-- Whatever happens is a small step of a call, or leaves all calls in their phases, records nothing
and spares the values. -/
theorem Ordered.step_or_aside (h : c.Ordered) (hmove : Move m c c') :
    (∃ id rest events, c.ready = id :: rest ∧ c' = c.step m ∧
      Ledger.Deed m id c.ledger events c'.ledger) ∨
    c'.registers = c.registers ∧ c'.stage.milestones = c.stage.milestones ∧
      (∀ id phase, c'.phase? id = some phase →
        c.phase? id = some phase ∨ ∃ call, phase = .issued call) ∧
      c.stage.Refrains c'.stage ∧ c'.stage.position = c.stage.position := by
  cases hmove with
  | step =>
    rcases hready : c.ready with - | ⟨id, rest⟩
    · rw [step_of_idle hready]
      exact .inr ⟨rfl, rfl, fun _ _ hphase => .inl hphase, .refl, rfl⟩
    · obtain ⟨events, hdeed⟩ := h.deed (m := m) hready
      exact .inl ⟨id, rest, events, rfl, rfl, hdeed⟩
  | issue call =>
    have hnone : c.phase? c.calls = none := role_eq_absent_iff.1 (h.fresh _ (Nat.le_refl _))
    refine .inr ⟨rfl, rfl, ?_, .refl, rfl⟩
    intro id phase hphase
    rw [phase?_issue hnone] at hphase
    by_cases hid : id = c.calls
    · subst hid
      rw [Function.update_self] at hphase
      exact .inr ⟨call, (Option.some.inj hphase).symm⟩
    · rw [Function.update_of_ne hid] at hphase
      exact .inl hphase
  | @tick due _ _ =>
    obtain ⟨ready, hready⟩ := c.tick_eq due
    rw [hready]
    exact .inr ⟨rfl, rfl, fun _ _ hphase => .inl hphase, ⟨rfl, fun _ => rfl⟩, rfl⟩
  | wait _ _ _ =>
    exact .inr ⟨rfl, rfl, fun _ _ hphase => .inl hphase, ⟨rfl, fun _ => rfl⟩, rfl⟩
  | write target value =>
    have hacts := Stage.Acts.set (B := .free) c.stage target value
    exact .inr ⟨rfl, Stage.milestones_of_acts hacts, fun _ _ hphase => .inl hphase,
      .set c.stage target value, hacts.frame.position⟩
  | register _ =>
    exact .inr ⟨rfl, rfl, fun _ _ hphase => .inl hphase, ⟨rfl, fun _ => rfl⟩, rfl⟩

/-- A run has seen the end of the program at `c₀`, and has done nothing since but wait for the
registers. -/
structure SinceEnd (m : Machine) (id epoch : Nat) (c₀ : Config) (since : List Event) (c : Config) :
    Prop where
  reachable : c₀.Reachable m
  head : c₀.ready.head? = some id
  sees : Ledger.SeesEnd m id epoch c₀.ledger (c₀.step m).ledger
  moves : ReflTransGen (Move m) (c₀.step m) c
  milestones : c.stage.milestones = since ++ (c₀.step m).stage.milestones
  others : Ledger.ofCall id since = []
  turned : Ledger.Turned c₀.registers since c.ledger

namespace SinceEnd

variable {since : List Event}

/-- The run goes on waiting. -/
theorem own (h : SinceEnd m id epoch c₀ since c) (hdeed : Ledger.Deed m id c.ledger []
    (c.step m).ledger) (hregisters : (c.step m).registers = c.registers) :
    SinceEnd m id epoch c₀ since (c.step m) where
  reachable := h.reachable
  head := h.head
  sees := h.sees
  moves := h.moves.tail .step
  milestones := hdeed.milestones.trans h.milestones
  others := h.others
  turned := by
    apply h.turned.imp_right
    rintro ⟨hresting, hkeeps⟩
    constructor
    · exact (hdeed.resting hresting).resolve_right (by simp)
    · rwa [show (c.step m).ledger.registers = _ from hregisters]

/-- Somebody else does something. -/
theorem other (h : SinceEnd m id epoch c₀ since c) {j : Nat} {events : List Event}
    (hdeed : Ledger.Deed m j c.ledger events (c.step m).ledger) (hj : id ≠ j)
    (hrun : c.ledger.run? j = none) : SinceEnd m id epoch c₀ (events ++ since) (c.step m) where
  reachable := h.reachable
  head := h.head
  sees := h.sees
  moves := h.moves.tail .step
  milestones := by
    rw [List.append_assoc, ← h.milestones]
    exact hdeed.milestones
  others := by
    rw [Ledger.ofCall_append, hdeed.ofCall_of_ne hj, h.others]
    rfl
  turned := h.turned.other h.sees.nonempty hdeed hrun

/-- Nobody does anything. -/
theorem aside (h : SinceEnd m id epoch c₀ since c) (hmove : Move m c c')
    (hregisters : c'.registers = c.registers)
    (hmilestones : c'.stage.milestones = c.stage.milestones)
    (hphases : ∀ id phase, c'.phase? id = some phase →
      c.phase? id = some phase ∨ ∃ call, phase = .issued call) :
    SinceEnd m id epoch c₀ since c' where
  reachable := h.reachable
  head := h.head
  sees := h.sees
  moves := h.moves.tail hmove
  milestones := hmilestones.trans h.milestones
  others := h.others
  turned := by
    apply h.turned.imp_right
    rintro ⟨hresting, hkeeps⟩
    constructor
    · intro j who index activity hj
      rcases hphases j _ hj with hold | ⟨call, hissued⟩
      · exact hresting _ _ _ _ hold
      · cases hissued
    · rwa [show c'.ledger.registers = _ from hregisters]

end SinceEnd

/-- Whoever is about to begin another pass has seen the end of the program. -/
theorem Reachable.sinceEnd (h : c.Reachable m) (hphase : c.phase? id = some phase)
    (hrestarts : phase.restarts = true) : ∃ epoch c₀ since, SinceEnd m id epoch c₀ since c := by
  obtain ⟨driver, functions, hmoves⟩ := h
  induction hmoves generalizing phase with
  | refl => cases hphase
  | @tail c₁ c₂ hmoves hmove ih =>
    have hreach : c₁.Reachable m := ⟨driver, functions, hmoves⟩
    rcases hreach.ordered.step_or_aside hmove with
      ⟨j, rest, events, hready, rfl, hdeed⟩ | ⟨hregisters, hmilestones, hphases, -, -⟩
    · by_cases hj : id = j
      · subst hj
        obtain ⟨rfl, ⟨before, hbefore, hwas, hregisters⟩ | ⟨epoch, hsees⟩⟩ :=
          hdeed.restarts hphase hrestarts
        · obtain ⟨epoch, c₀, since, hsince⟩ := ih hbefore hwas
          exact ⟨epoch, c₀, since, hsince.own hdeed hregisters⟩
        · -- the run has just seen the end
          refine ⟨epoch, c₁, [], ?_⟩
          exact
            { reachable := hreach
              head := by rw [hready]; rfl
              sees := hsees
              moves := .refl
              milestones := rfl
              others := rfl
              turned := .inr ⟨hsees.resting hreach.ordered.kept hdeed, .inr hsees.registers⟩ }
      · have hbefore : c₁.phase? id = some phase := by
          rcases hdeed.other hj with hsame | ⟨who, index, release, -, -, -, hreleased⟩
          · exact hsame.symm.trans hphase
          · cases hreleased.symm.trans hphase
            cases hrestarts
        obtain ⟨epoch, c₀, since, hsince⟩ := ih hbefore hrestarts
        refine ⟨epoch, c₀, events ++ since, hsince.other hdeed hj ?_⟩
        -- there is one run at most
        rcases hrun : c₁.ledger.run? j with - | e
        · rfl
        · obtain ⟨e', he'⟩ := Phase.epoch?_of_restarts hrestarts
          have hid : c₁.ledger.run? id = some e' := (Ledger.run?_of_phases hbefore).trans he'
          exact absurd (hreach.runs.unique hid hrun) hj
    · rcases hphases id phase hphase with hbefore | ⟨call, rfl⟩
      · obtain ⟨epoch, c₀, since, hsince⟩ := ih hbefore hrestarts
        exact ⟨epoch, c₀, since, hsince.aside hmove hregisters hmilestones hphases⟩
      · cases hrestarts

/-! ### A restart that comes at once -/

/-- A run that has its turn is about to restart the registers, which nobody owns or waits for. -/
structure AtRestart (id epoch : Nat) (seen : Registers) (c : Config) : Prop where
  head : c.ready.head? = some id
  phase : c.phase? id = some (.seeking (.restart epoch))
  turn : c.stage.turn ≠ 0
  owner : c.lock.owner = none
  registers : c.registers = seen

/-- The run keeps its place when it sees the end of the program. -/
theorem head?_of_sees (hhead : c.ready.head? = some id)
    (h : Ledger.SeesEnd m id epoch c.ledger (c.step m).ledger) :
    (c.step m).ready.head? = some id := by
  obtain ⟨rest, hready⟩ := List.head?_eq_some_iff.1 hhead
  -- the registers are given up, and the turn goes on
  have henter {c₁ : Config} (hhead₁ : c₁.ready.head? = some id) (hepoch : c₁.epoch = c.epoch)
      (hregisters : c₁.registers = c.registers) :
      (c₁.enter m id (.step epoch)).ready.head? = some id := by
    have hcurrent : c.epoch = epoch := h.current
    have hunstopped : c.registers.stopped = false := h.unstopped
    have hend : m.program.length ≤ c.registers.cursor := h.cursor
    rw [Config.enter, if_neg (by simp [hepoch, hcurrent, hregisters, hunstopped]),
      if_pos (hregisters ▸ hend), if_pos (by simp [h.looping, h.nonempty])]
    exact head?_unlock hhead₁
  rcases h.owner with ⟨hphase, hturn, hfree⟩ | ⟨hphase, howner⟩
  · rw [step_of_ready hready hphase]
    show (c.seek m id (.step epoch)).ready.head? = _
    have hturn' : c.stage.turn ≠ 0 := hturn
    have hfree' : c.lock.owner = none := hfree
    rw [seek_eq (.inl rfl), if_neg hturn', if_pos hfree']
    exact henter hhead rfl rfl
  · rw [step_of_ready hready hphase]
    show (c.leaveQueue m id (.step epoch)).ready.head? = _
    have howner' : c.lock.owner = some id := howner
    rw [leaveQueue, if_pos howner']
    exact henter hhead rfl rfl

/-- A run that is about to restart the registers does so next, unless it was cancelled. -/
theorem AtRestart.move (h : c.AtRestart id epoch seen) (hordered : c.Ordered)
    (hmove : Move m c c') : c'.AtRestart id epoch seen ∧ c'.stage.milestones = c.stage.milestones ∨
      ∃ e, c'.stage.milestones = e :: c.stage.milestones ∧ e.call? = some id := by
  obtain ⟨rest, hready⟩ := List.head?_eq_some_iff.1 h.head
  have hbusy (hquiet : c.quiet) : False := by
    rw [(ready_of_quiet hquiet).1] at hready
    cases hready
  cases hmove with
  | step =>
    right
    -- the registers are free, and the turn is not used up
    rw [step_of_ready hready h.phase]
    show ∃ e, (c.seek m id (.restart epoch)).stage.milestones = _ ∧ _
    rw [seek_eq (.inl rfl), if_neg h.turn, if_pos h.owner]
    simp only [Config.enter]
    split
    · refine ⟨.returned id (.ok ()), ?_, rfl⟩
      show (Config.finishRun _ id (.ok ())).ledger.stage.milestones = _
      rw [ledger_finishRun, ledger_unlock]
      rfl
    · refine ⟨.restarted id, ?_, rfl⟩
      show (Config.unlock _).ledger.stage.nextTurn.milestones = _
      rw [ledger_unlock]
      rfl
  | issue call =>
    have hnone : c.phase? c.calls = none :=
      role_eq_absent_iff.1 (hordered.fresh _ (Nat.le_refl _))
    refine .inl ⟨⟨?_, ?_, h.turn, h.owner, h.registers⟩, rfl⟩
    · rw [issue, List.head?_append, h.head]
      rfl
    · rw [phase?_issue hnone, Function.update_of_ne, h.phase]
      rintro rfl
      cases hnone.symm.trans h.phase
  | tick hquiet _ => exact (hbusy hquiet).elim
  | wait hquiet _ _ => exact (hbusy hquiet).elim
  | write target value =>
    have hacts := Stage.Acts.set (B := .free) c.stage target value
    have hturn : (c.stage.set target value).2.turn ≠ 0 := by
      rw [Stage.turn_set]
      exact h.turn
    exact .inl ⟨⟨h.head, h.phase, hturn, h.owner, h.registers⟩,
      Stage.milestones_of_acts hacts⟩
  | register _ => exact .inl ⟨⟨h.head, h.phase, h.turn, h.owner, h.registers⟩, rfl⟩

/-- It stays so until the run records something. -/
theorem AtRestart.moves (h : c.AtRestart id epoch seen) (hreach : c.Reachable m)
    (hmoves : ReflTransGen (Move m) c c') :
    ∃ since, c'.stage.milestones = since ++ c.stage.milestones ∧
      (c'.AtRestart id epoch seen ∨ ∃ e ∈ since, e.call? = some id) := by
  induction hmoves with
  | refl => exact ⟨[], rfl, .inl h⟩
  | @tail c₁ c₂ hmoves hmove ih =>
    obtain ⟨since, hsince, hstate⟩ := ih
    have hordered := (hreach.moves hmoves).ordered
    rcases hstate with hrestart | ⟨e, hmem, he⟩
    · rcases hrestart.move hordered hmove with ⟨hstays, hsame⟩ | ⟨e, hgrown, he⟩
      · exact ⟨since, hsame.trans hsince, .inl hstays⟩
      · refine ⟨e :: since, ?_, .inr ⟨e, List.mem_cons_self, he⟩⟩
        rw [hgrown, hsince]
        rfl
    · obtain ⟨events, hturn⟩ := hordered.turn hmove
      refine ⟨events ++ since, ?_, .inr ⟨e, List.mem_append_right _ hmem, he⟩⟩
      rw [List.append_assoc, ← hsince]
      exact hturn.milestones

/-- A run that sees the end of the program while nobody waits for the registers restarts them as they
are. -/
theorem SinceEnd.registers_of_queue {since : List Event} (h : SinceEnd m id epoch c₀ since c)
    (hqueue : c₀.lock.queue = []) (hturn : (c₀.step m).stage.turn ≠ 0) :
    c.registers = c₀.registers := by
  have hlock : (c₀.step m).lock = ⟨c₀.lock.queue.head?, c₀.lock.queue.tail⟩ := h.sees.lock
  have hstart : (c₀.step m).AtRestart id epoch c₀.registers :=
    { head := head?_of_sees h.head h.sees
      phase := h.sees.phase
      turn := hturn
      owner := by rw [hlock, hqueue]; rfl
      registers := h.sees.registers }
  obtain ⟨since', hsince', hstate⟩ := hstart.moves (h.reachable.move .step) h.moves
  obtain rfl : since' = since := List.append_cancel_right (hsince'.symm.trans h.milestones)
  rcases hstate with hrestart | ⟨e, hmem, he⟩
  · exact hrestart.registers
  · -- the run has recorded nothing
    have hown : e ∈ Ledger.ofCall id since' := List.mem_filter.2 ⟨hmem, by simpa using he⟩
    rw [h.others] at hown
    cases hown

/-- **What a restart discards.**  Before a run restarts the registers it has seen the end of the
program, and has done nothing since.  Unless a step has begun since, the registers are as they were
then, past the last step, or as a rewind leaves them, and if nobody stood in the queue then they are
as they were. -/
theorem Reachable.restart_discards (h : c.Reachable m)
    (hrestarted : (c.step m).stage.milestones = .restarted id :: c.stage.milestones) :
    (c.step m).registers = c.registers.restart ∧
    ∃ epoch c₀ since, SinceEnd m id epoch c₀ since c ∧
      ((∃ j index, .began j index ∈ since) ∨ (∃ j, .rewound j ∈ since) ∧ c.registers = {} ∨
        m.program.length ≤ c.registers.cursor ∧ c.registers = c₀.registers) ∧
      (c₀.lock.queue = [] → (c₀.step m).stage.turn ≠ 0 →
        m.program.length ≤ c.registers.cursor ∧ c.registers = c₀.registers) := by
  rcases hready : c.ready with - | ⟨j, rest⟩
  · rw [step_of_idle hready] at hrestarted
    exact absurd hrestarted (List.cons_ne_self _ _).symm
  · obtain ⟨events, hdeed⟩ := h.ordered.deed (m := m) hready
    have hmem : .restarted id ∈ events := by
      have hevents : events ++ c.stage.milestones = [.restarted id] ++ c.stage.milestones :=
        hdeed.milestones.symm.trans hrestarted
      rw [List.append_cancel_right hevents]
      exact List.mem_singleton_self _
    obtain ⟨rfl, phase, hphase, hrestarts, hregisters⟩ := hdeed.restarted hmem
    obtain ⟨epoch, c₀, since, hsince⟩ := h.sinceEnd hphase hrestarts
    have hsame (heq : c.registers = c₀.registers) :
        m.program.length ≤ c.registers.cursor ∧ c.registers = c₀.registers :=
      ⟨heq ▸ hsince.sees.cursor, heq⟩
    refine ⟨hregisters, epoch, c₀, since, hsince, ?_, ?_⟩
    · rcases hsince.turned with hbegan | ⟨-, hrewound | heq⟩
      · exact .inl hbegan
      · exact .inr (.inl hrewound)
      · exact .inr (.inr (hsame heq))
    · intro hqueue hturn
      exact hsame (hsince.registers_of_queue hqueue hturn)

/-! ### A call that comes in between -/

/-- A machine that loops over two vibrations of ten milliseconds. -/
def loopOfTwo : Machine where
  program := ⟨[⟨{ action := .vibrate }, none⟩, ⟨{ action := .vibrate }, none⟩], {}⟩
  settings := { looping := true, vibration := .always }
  haptics := some ⟨10000000⟩

/-- A run vibrates, and a call for one step waits to do so. -/
def firstVibration : Config :=
  (((fresh loopOfTwo {} {}).issue .start).settle loopOfTwo 20 |>.issue (.next none)).settle
    loopOfTwo 20

/-- That call vibrates, and behind the run a second one waits. -/
def secondVibration : Config :=
  ((firstVibration.tick 10).settle loopOfTwo 20 |>.issue (.next none)).settle loopOfTwo 20

/-- The run has seen the end, and the second call is about to end the first step. -/
def thirdVibration : Config :=
  ((secondVibration.tick 20).settle loopOfTwo 20).tick 30

theorem reachable_thirdVibration : thirdVibration.Reachable loopOfTwo := by
  have hfirst : firstVibration.Reachable loopOfTwo :=
    (((Reachable.fresh {} {}).issue .start).settle 20).issue (.next none) |>.settle 20
  have hsecond : secondVibration.Reachable loopOfTwo :=
    (((hfirst.move (.tick (by cbv) (by cbv))).settle 20).issue (.next none)).settle 20
  exact ((hsecond.move (.tick (by cbv) (by cbv))).settle 20).move (.tick (by cbv) (by cbv))

/-- The step of the second call is discarded, and the run executes it once more. -/
theorem discards_step : ∃ c : Config, c.Reachable loopOfTwo ∧
    c.stage.milestones
      = .returned 2 (.ok ()) :: .ended 2 0 .advance :: thirdVibration.stage.milestones ∧
    c.registers.cursor = 1 ∧ c.registers.cursor < loopOfTwo.program.length ∧
    (c.step loopOfTwo).stage.milestones = .restarted 0 :: c.stage.milestones ∧
    (c.settle loopOfTwo 3).stage.milestones
      = .began 0 0 :: .published ⟨0, "vibrate-0"⟩ :: .restarted 0 :: c.stage.milestones := by
  refine ⟨thirdVibration.step loopOfTwo, reachable_thirdVibration.move .step, ?_, ?_, ?_, ?_, ?_⟩
  · cbv
  · cbv
  · cbv
  · cbv
  · cbv

/-- A run has seen the end while nobody else is there. -/
def vibratingAlone : Config :=
  ((((fresh loopOfTwo {} {}).issue .start).settle loopOfTwo 20 |>.tick 10).settle loopOfTwo
    20 |>.tick 20).settle loopOfTwo 2

theorem reachable_vibratingAlone : vibratingAlone.Reachable loopOfTwo := by
  have hstart : (((fresh loopOfTwo {} {}).issue .start).settle loopOfTwo 20).Reachable
      loopOfTwo :=
    ((Reachable.fresh {} {}).issue .start).settle 20
  have htick : (((((fresh loopOfTwo {} {}).issue .start).settle loopOfTwo 20).tick 10).settle
      loopOfTwo 20).Reachable loopOfTwo :=
    (hstart.move (.tick (by cbv) (by cbv))).settle 20
  exact (htick.move (.tick (by cbv) (by cbv))).settle 2

theorem restart_discards_loopOfTwo :
    (vibratingAlone.step loopOfTwo).registers = vibratingAlone.registers.restart ∧
    ∃ epoch c₀ since, SinceEnd loopOfTwo 0 epoch c₀ since vibratingAlone ∧
      ((∃ j index, .began j index ∈ since) ∨
        (∃ j, .rewound j ∈ since) ∧ vibratingAlone.registers = {} ∨
        loopOfTwo.program.length ≤ vibratingAlone.registers.cursor ∧
          vibratingAlone.registers = c₀.registers) ∧
      (c₀.lock.queue = [] → (c₀.step loopOfTwo).stage.turn ≠ 0 →
        loopOfTwo.program.length ≤ vibratingAlone.registers.cursor ∧
          vibratingAlone.registers = c₀.registers) := by
  have hrestarted : (vibratingAlone.step loopOfTwo).stage.milestones
      = .restarted 0 :: vibratingAlone.stage.milestones := by cbv
  exact reachable_vibratingAlone.restart_discards hrestarted

end Config

end Timeline
