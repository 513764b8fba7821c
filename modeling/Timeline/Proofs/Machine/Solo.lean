/-
Timeline/Proofs/Machine/Solo.lean

Runs that nobody disturbs.

A run that nobody disturbs is alone with the machine: nothing happens but its small
steps and the time that passes.  Main result (`Config.begins_as_walked`): such a
run of the program of a scenario begins what a walker along the scenario begins, in
the same order and on the same stage, and when it is over, so is the walker, and
the cursor is at the end of the program.
-/
import Mathlib
import Timeline.Proofs.Machine.Bystanders
import Timeline.Proofs.Machine.Walker

namespace Timeline

open Relation

/-! ### What the journal tells about visits -/

/-- What a walker visits where an event happens. -/
def Event.visit (p : Program) : Event → List (Nat × Action)
  | .began _ index => (p.step? index).elim [] (Step.visit index)
  | _ => []

/-- The plain steps and the conditions that have begun so far, the latest first. -/
def Stage.visits (p : Program) (s : Stage) : List (Nat × Action) :=
  s.journal.flatMap fun r => r.event.visit p

namespace Stage

variable {p : Program} {s s' s'' : Stage}

/-- Nobody who acts on the stage begins a step. -/
theorem visits_of_acts {B : Bounds} (h : Acts B s s') : s'.visits p = s.visits p := by
  obtain ⟨new, hnew, hall⟩ := h.frame.journal
  have hvisit : (new.flatMap fun r => r.event.visit p) = [] := by
    rw [List.flatMap_eq_nil_iff]
    intro r hr
    obtain ⟨-, -, he⟩ := hall r hr
    cases hevent : r.event <;> rw [hevent] at he
    case began => exact he.elim
    all_goals rfl
  rw [visits, hnew, List.flatMap_append, hvisit]
  rfl

namespace Passes

theorem refl (s : Stage) : Passes s s :=
  ⟨rfl, rfl, rfl, [], rfl, by simp⟩

theorem trans (h : Passes s s') (h' : Passes s' s'') : Passes s s'' where
  driver := h'.driver.trans h.driver
  functions := h'.functions.trans h.functions
  tickets := h'.tickets.trans h.tickets
  journal := Stage.journal_trans h.journal h'.journal

theorem note (h : Passes s s') {e : Event} (he : ¬ Bounds.free.Permits e) :
    Passes s (s'.note e) := by
  refine h.trans ⟨rfl, rfl, rfl, [⟨s'.now, s'.position.index, e⟩], rfl, fun r hr => ?_⟩
  obtain rfl := List.mem_singleton.1 hr
  exact he

theorem publish (h : Passes s s') (position : Position) : Passes s (s'.publish position) := by
  have hmoved : Passes s { s' with position } := h.trans ⟨rfl, rfl, rfl, [], rfl, by simp⟩
  exact hmoved.note fun he => he

/-- The clock and the turns are nobody's. -/
theorem turn (h : Passes s s') {now turn : Nat} : Passes s { s' with now, turn } :=
  h.trans ⟨rfl, rfl, rfl, [], rfl, by simp⟩

end Passes

end Stage

namespace Config

variable {m : Machine} {c c' : Config} {id : Nat} {w : Walker} {o : Outline}
  {base : List (Nat × Action)}

/-! ### Undisturbed runs -/

/-- One thing that happens while nobody calls, writes or registers anything. -/
inductive Undisturbed (m : Machine) (c : Config) : Config → Prop
  | step : Undisturbed m c (c.step m)
  /-- Nobody can go on, and the clock moves on to the next alarm. -/
  | tick {due : Nat} : c.quiet → c.nextDue? = some due → Undisturbed m c (c.tick due)
  /-- Nobody can go on, and the clock moves on to a time before the next alarm. -/
  | wait {time : Nat} : c.quiet → c.stage.now ≤ time →
      (∀ due, c.nextDue? = some due → time < due) →
      Undisturbed m c { c with stage := { c.stage with now := time } }

theorem Undisturbed.move (h : Undisturbed m c c') : Move m c c' := by
  cases h with
  | step => exact .step
  | tick hquiet hdue => exact .tick hquiet hdue
  | wait hquiet hnow hdue => exact .wait hquiet hnow hdue

/-- Nobody disturbs a machine that goes on as far as it can. -/
theorem undisturbed_settle (h : ReflTransGen (Undisturbed m) c c') (fuel : Nat) :
    ReflTransGen (Undisturbed m) c (c'.settle m fuel) := by
  induction fuel generalizing c' with
  | zero => exact h
  | succ fuel ih =>
    unfold settle
    split
    · exact h
    · exact ih (h.tail .step)

/-- How far a run in some phase has come, if a walker is busy with a deed and has some outlines
ahead. -/
inductive Follows (m : Machine) (c : Config) (id : Nat) :
    Option Phase → Option Deed → Itinerary → Prop
  | issued {todo : Itinerary} : c.running = false → Ahead m.program c.registers.cursor todo →
      Follows m c id (some (.issued .start)) none todo
  | clear {todo : Itinerary} : Ahead m.program c.registers.cursor todo →
      Follows m c id (some (.seeking (.clear c.epoch))) none todo
  | step {todo : Itinerary} : c.registers.stopped = false →
      Ahead m.program c.registers.cursor todo →
      Follows m c id (some (.seeking (.step c.epoch))) none todo
  | stepping {activity : Activity} {deed : Option Deed} {todo : Itinerary} :
      c.registers.stopped = false → Busy m.program c.registers.cursor activity deed todo →
      Follows m c id (some (.stepping (.run c.epoch) c.registers.cursor activity)) deed todo
  | ended : c.registers.cursor = m.program.length →
      (∃ r ∈ c.stage.journal, r.event = .returned id (.ok ())) →
      Follows m c id none none []

/-- A call is alone with the machine, and a walker on the same stage has visited what has begun. -/
structure Beside (m : Machine) (base : List (Nat × Action)) (id : Nat) (w : Walker) (c : Config) :
    Prop where
  alone : ∀ j ≠ id, c.phase? j = none
  stage : w.stage.Passes c.stage
  vibrated : w.vibrated = c.registers.vibrated
  visits : c.stage.visits m.program = w.visits ++ base

/-- A walker goes with a call that is alone with the machine. -/
structure Tracks (m : Machine) (base : List (Nat × Action)) (id : Nat) (w : Walker) (c : Config) :
    Prop extends c.Beside m base id w where
  follows : c.Follows m id (c.phase? id) w.deed w.todo

/-- A call is over because a step has failed, and it was the only one. -/
structure Failed (id : Nat) (c : Config) : Prop where
  ended : ∀ j, c.phase? j = none
  failed : ∃ r ∈ c.stage.journal, ∃ index e, r.event = .failed id index e

theorem Beside.congr (h : c.Beside m base id w) (hstage : c.stage.Passes c'.stage)
    (hvisits : c'.stage.visits m.program = c.stage.visits m.program)
    (htasks : c'.tasks = c.tasks)
    (hvibrated : c'.registers.vibrated = c.registers.vibrated) :
    c'.Beside m base id w where
  alone j hj := by
    rw [phase?, htasks]
    exact h.alone j hj
  stage := h.stage.trans hstage
  vibrated := h.vibrated.trans hvibrated.symm
  visits := hvisits.trans h.visits

theorem Tracks.congr (h : c.Tracks m base id w) (hstage : c.stage.Passes c'.stage)
    (hjournal : c'.stage.journal = c.stage.journal)
    (htasks : c'.tasks = c.tasks) (hregisters : c'.registers = c.registers)
    (hepoch : c'.epoch = c.epoch) (hrunning : c'.running = c.running) :
    c'.Tracks m base id w where
  toBeside := h.toBeside.congr hstage (by rw [Stage.visits, hjournal]; rfl) htasks
    (by rw [hregisters])
  follows := by
    have hphase : c'.phase? id = c.phase? id := by rw [phase?, htasks]; rfl
    rw [hphase]
    have hfollows := h.follows
    generalize c.phase? id = phase at hfollows ⊢
    generalize w.deed = deed at hfollows ⊢
    generalize w.todo = todo at hfollows ⊢
    cases hfollows with
    | issued hrun hahead => exact .issued (hrunning.trans hrun) (hregisters ▸ hahead)
    | clear hahead =>
      rw [← hepoch]
      exact .clear (hregisters ▸ hahead)
    | step hstopped hahead =>
      rw [← hepoch]
      exact .step (hregisters ▸ hstopped) (hregisters ▸ hahead)
    | stepping hstopped hbusy =>
      rw [← hepoch, ← hregisters]
      exact .stepping (hregisters ▸ hstopped) (hregisters ▸ hbusy)
    | ended hcursor hreturned => exact .ended (hregisters ▸ hcursor) (hjournal ▸ hreturned)

/-- The call that is alone goes over to another phase. -/
theorem Beside.setPhase (h : c.Beside m base id w) (hpresent : (c.phase? id).isSome)
    (phase : Phase) (hfollows : (c.setPhase id phase).Follows m id (some phase) w.deed w.todo) :
    (c.setPhase id phase).Tracks m base id w where
  alone j hj := by
    rw [phase?_setPhase hpresent, Function.update_of_ne hj]
    exact h.alone j hj
  stage := h.stage
  vibrated := h.vibrated
  visits := h.visits
  follows := by
    rw [phase?_setPhase hpresent, Function.update_self]
    exact hfollows

/-- The call that is alone is over. -/
theorem Beside.phase?_finish (h : c.Beside m base id w) (result : Except StepError Unit) (j : Nat) :
    (c.finish id result).phase? j = none := by
  rw [Config.phase?_finish]
  by_cases hj : j = id
  · rw [hj, Function.update_self]
  · rw [Function.update_of_ne hj]
    exact h.alone j hj

/-! ### Who stands in the way -/

/-- Whoever has a phase is the call that is alone. -/
theorem eq_of_alone (halone : ∀ j ≠ id, c.phase? j = none) {j : Nat} {phase : Phase}
    (hphase : c.phase? j = some phase) : j = id := by
  by_contra hj
  rw [halone j hj] at hphase
  cases hphase

/-- Nobody owns the registers if nobody executes a step. -/
theorem Ordered.owner_eq_none (h : c.Ordered) (hqueued : ∀ j releases, c.role j ≠ .queued releases)
    (howner : ∀ j parked rests, c.role j ≠ .owner parked rests) : c.lock.owner = none := by
  rw [Option.eq_none_iff_forall_ne_some]
  intro j hj
  have hfits := h.fits j
  have howns : (c.roster.standing j).owner := hj
  rcases hj' : c.role j with - | ⟨_, _⟩ | releases | ⟨parked, rests⟩ <;> rw [hj'] at hfits
  · exact hfits.2.2.owner howns
  · exact hfits.2.owner howns
  · exact hqueued j releases hj'
  · exact howner j parked rests hj'

/-- A call that is alone finds the registers free. -/
theorem Beside.owner_eq_none (h : c.Beside m base id w) (hordered : c.Ordered) {purpose : Purpose}
    (hphase : c.phase? id = some (.seeking purpose)) : c.lock.owner = none := by
  have hrole (j : Nat) : c.role j = .absent ∨ c.role j = .aside purpose.release?.isSome false := by
    by_cases hj : j = id
    · subst hj
      exact .inr (role_of_phase? hphase)
    · exact .inl (role_eq_absent_iff.2 (h.alone j hj))
  refine hordered.owner_eq_none (fun j releases hj => ?_) fun j parked rests hj => ?_
  · rcases hrole j with h | h <;> rw [h] at hj <;> cases hj
  · rcases hrole j with h | h <;> rw [h] at hj <;> cases hj

/-! ### Small steps -/

/-- The step at the cursor begins, for the machine and for the walker. -/
theorem Beside.beginStep (h : c.Beside m base id w) (hpresent : (c.phase? id).isSome)
    (hstopped : c.registers.stopped = false) (hdeed : w.deed = none)
    (hahead : Ahead m.program c.registers.cursor w.todo) {step : Step}
    (hstep : m.program.step? c.registers.cursor = some step) :
    ∃ w', Walker.Walks m w w' ∧ (c.beginStep m id (.run c.epoch)).Tracks m base id w' := by
  rcases hbegin : m.begin c.registers.cursor step.action c.registers with ⟨r, activity⟩
  obtain ⟨hkeeps, deed, todo, hwalks, hbusy⟩ :=
    hahead.begin hstep hdeed rfl h.vibrated.symm hbegin
  have hhold : step.action ≠ .hold := by
    intro hhold
    rw [hhold] at hbegin
    exact hbusy.ne_holding none (Prod.mk.inj hbegin).2.symm
  have hcursor : r.cursor = c.registers.cursor := by rw [hkeeps]
  have hbeside : { c with stage := c.atCursor m id, registers := r }.Beside m base id
      { w with
        vibrated := r.vibrated, deed, todo
        visits := step.visit c.registers.cursor ++ w.visits } := by
    refine ⟨h.alone, (h.stage.publish _).note fun he => he, rfl, ?_⟩
    show (m.program.step? c.registers.cursor).elim [] (Step.visit c.registers.cursor)
      ++ c.stage.visits m.program = _
    rw [hstep, h.visits, List.append_assoc]
    rfl
  refine ⟨_, hwalks, ?_⟩
  rw [beginStep_of_ne_hold hstep hhold hbegin]
  apply hbeside.setPhase hpresent _
  rw [← hcursor] at hbusy ⊢
  refine .stepping ?_ hbusy
  show r.stopped = false
  rw [hkeeps]
  exact hstopped

/-- A run that has just become the owner of the registers begins the step at the cursor, or is over
at the end of the program. -/
theorem Beside.enter (h : c.Beside m base id w) (hpresent : (c.phase? id).isSome)
    (hloop : m.settings.looping = false) (hstopped : c.registers.stopped = false)
    (hdeed : w.deed = none) (hahead : Ahead m.program c.registers.cursor w.todo) :
    ∃ w', Walker.Walks m w w' ∧ (c.enter m id (.step c.epoch)).Tracks m base id w' := by
  by_cases hend : m.program.length ≤ c.registers.cursor
  · have hover : c.enter m id (.step c.epoch) = c.unlock.finishRun id (.ok ()) := by
      simp [Config.enter, hstopped, hend, hloop]
    obtain ⟨hcursor, hwalks⟩ :=
      hahead.walks_atEnd (m := m) (Program.step?_eq_none_iff.2 hend) hdeed rfl
    refine ⟨_, hwalks, ?_⟩
    rw [hover, unlock_eq]
    have hphase := h.phase?_finish (.ok ())
    refine ⟨⟨fun j _ => hphase j, ?_, h.vibrated, ?_⟩, ?_⟩
    · exact (h.stage.turn).note fun he => he
    · exact h.visits
    · have hnone : (c.finish id (.ok ())).phase? id = none := hphase id
      show Follows m _ id ((c.finish id (.ok ())).phase? id) w.deed []
      rw [hnone, hdeed]
      exact .ended hcursor ⟨_, List.mem_cons_self, rfl⟩
  · have hgo : c.enter m id (.step c.epoch) = c.beginStep m id (.run c.epoch) := by
      simp [Config.enter, hstopped, hend]
    obtain ⟨step, hstep⟩ : ∃ step, m.program.step? c.registers.cursor = some step := by
      rw [← Option.ne_none_iff_exists', ne_eq, Program.step?_eq_none_iff]
      exact hend
    rw [hgo]
    exact h.beginStep hpresent hstopped hdeed hahead hstep

/-- A run asks for the registers. -/
theorem Tracks.seek (h : c.Tracks m base id w) (hordered : c.Ordered) {purpose : Purpose}
    (hphase : c.phase? id = some (.seeking purpose)) (hrelease : purpose.release? = none)
    (henter : ∀ {c' : Config}, c'.Beside m base id w → c'.tasks = c.tasks →
      c'.registers = c.registers → c'.epoch = c.epoch →
      ∃ w', Walker.Walks m w w' ∧ (c'.enter m id purpose).Tracks m base id w') :
    ∃ w', Walker.Walks m w w' ∧ (c.seek m id purpose).Tracks m base id w' := by
  rw [seek_eq (.inl hrelease)]
  split
  · exact ⟨w, .refl, h.congr (Stage.Passes.refl _).turn rfl rfl rfl rfl rfl⟩
  · rw [if_pos (h.owner_eq_none hordered hphase)]
    exact henter (h.toBeside.congr (Stage.Passes.refl _).turn rfl rfl rfl) rfl rfl rfl

/-- A run executes a step. -/
theorem Tracks.poll (h : c.Tracks m base id w) {activity : Activity}
    (hphase : c.phase? id = some (.stepping (.run c.epoch) c.registers.cursor activity))
    (hstopped : c.registers.stopped = false)
    (hbusy : Busy m.program c.registers.cursor activity w.deed w.todo) :
    (∃ w', Walker.Walks m w w' ∧
        (c.advance m id (.stepping (.run c.epoch) c.registers.cursor activity)).Tracks m base id w') ∨
      (c.advance m id (.stepping (.run c.epoch) c.registers.cursor activity)).Failed id := by
  have hpresent : (c.phase? id).isSome := by
    rw [hphase]
    rfl
  -- the walker waits as long as the machine does, and then goes on like the machine
  have hwait : Walker.Walks m w { w with stage := c.stage } := .single (.pass h.stage)
  obtain ⟨hacts, -⟩ := Activity.poll_meets activity.meets_free (Bounds.free_covers c.stage)
  have hvisits := (Stage.visits_of_acts (p := m.program) hacts).trans h.visits
  simp only [Config.advance]
  rcases hp : activity.poll c.stage with ⟨s, activity' | e | flow⟩ <;> rw [hp] at hvisits <;>
    dsimp only
  · obtain ⟨deed, hwalks, hbusy'⟩ := Busy.poll_busy (w := { w with stage := c.stage }) hbusy hp
    have hbeside : { c with stage := s }.Beside m base id { w with stage := s, deed } :=
      ⟨h.alone, .refl s, h.vibrated, hvisits⟩
    have htracks := hbeside.setPhase hpresent
      (.stepping (.run c.epoch) c.registers.cursor activity') (.stepping hstopped hbusy')
    refine .inl ⟨_, hwait.trans hwalks, ?_⟩
    unfold Config.pause
    split
    · exact htracks.congr (Stage.Passes.refl _).turn rfl rfl rfl rfl rfl
    · exact htracks.congr (Stage.Passes.refl _).turn rfl rfl rfl rfl rfl
  · refine .inr ⟨fun j => ?_, ?_⟩
    · simp only [Config.failStep, unlock_eq]
      exact h.phase?_finish (.error e) j
    · simp only [Config.failStep, unlock_eq]
      exact ⟨_, List.mem_cons_of_mem _ List.mem_cons_self, _, _, rfl⟩
  · obtain ⟨-, todo, hwalks, hahead⟩ := Busy.poll_ok (w := { w with stage := c.stage }) hbusy hp
    refine .inl ⟨_, hwait.trans hwalks, ?_⟩
    have hend : { c with stage := s }.endStep m id (.run c.epoch) c.registers.cursor flow
        = ({ c with
            stage := s
            registers := { c.registers with cursor := flow.next c.registers.cursor } }.note
            (.ended id c.registers.cursor flow)).unlock.setPhase id (.seeking (.step c.epoch)) := by
      simp [Config.endStep]
    rw [hend, unlock_eq]
    apply Beside.setPhase
    · exact ⟨h.alone, (Stage.Passes.refl s).note fun he => he, h.vibrated, hvisits⟩
    · exact hpresent
    · exact .step hstopped hahead

/-- **One small step of a run that is alone**: a walker goes along, unless a step fails. -/
theorem Tracks.advance (h : c.Tracks m base id w) (hordered : c.Ordered)
    (hdrive : m.settings.drive = .auto) (hloop : m.settings.looping = false) {phase : Phase}
    (hphase : c.phase? id = some phase) :
    (∃ w', Walker.Walks m w w' ∧ (c.advance m id phase).Tracks m base id w') ∨
      (c.advance m id phase).Failed id := by
  have hpresent : (c.phase? id).isSome := by
    rw [hphase]
    rfl
  have hfollows := h.follows
  rw [hphase] at hfollows
  generalize hdeed : w.deed = deed at hfollows
  generalize htodo : w.todo = todo at hfollows
  cases hfollows with
  | issued hrunning hahead =>
    have haccept : c.advance m id (.issued .start)
        = { c with running := true }.setPhase id (.seeking (.clear c.epoch)) := by
      simp [Config.advance, accept, hdrive, hrunning]
    have hbeside : { c with running := true }.Beside m base id w :=
      h.toBeside.congr (.refl _) rfl rfl rfl
    rw [haccept]
    refine .inl ⟨w, .refl, hbeside.setPhase hpresent _ ?_⟩
    rw [hdeed, htodo]
    exact .clear hahead
  | clear hahead =>
    refine .inl (h.seek hordered hphase rfl fun {c'} hbeside htasks hregisters hepoch => ?_)
    have hpresent' : (c'.phase? id).isSome := by
      rw [phase?, htasks]
      exact hpresent
    refine ⟨w, .refl, ?_⟩
    simp only [Config.enter, unlock_eq]
    apply Beside.setPhase
    · exact hbeside.congr (.refl _) rfl rfl rfl
    · exact hpresent'
    · rw [hdeed, htodo, ← hepoch]
      rw [← hregisters] at hahead
      exact .step rfl hahead
  | step hstopped hahead =>
    refine .inl (h.seek hordered hphase rfl fun {c'} hbeside htasks hregisters hepoch => ?_)
    have hpresent' : (c'.phase? id).isSome := by
      rw [phase?, htasks]
      exact hpresent
    rw [← hepoch]
    rw [← hregisters] at hstopped hahead
    exact hbeside.enter hpresent' hloop hstopped hdeed (htodo ▸ hahead)
  | stepping hstopped hbusy =>
    rw [← hdeed, ← htodo] at hbusy
    exact h.poll hphase hstopped hbusy

/-! ### Whole runs -/

theorem Tracks.step (h : c.Tracks m base id w) (hordered : c.Ordered)
    (hdrive : m.settings.drive = .auto) (hloop : m.settings.looping = false) :
    (∃ w', Walker.Walks m w w' ∧ (c.step m).Tracks m base id w') ∨ (c.step m).Failed id := by
  rcases hready : c.ready with - | ⟨j, rest⟩
  · rw [step_of_idle hready]
    exact .inl ⟨w, .refl, h.congr (.refl _) rfl rfl rfl rfl rfl⟩
  · obtain ⟨phase, hphase⟩ := Option.isSome_iff_exists.1
      (hordered.isSome_phase? (hready ▸ List.mem_cons_self : j ∈ c.ready))
    obtain rfl := eq_of_alone h.alone hphase
    rw [step_of_ready hready hphase]
    exact h.advance hordered hdrive hloop hphase

/-- A walker goes along with whatever happens to a run that nobody disturbs, unless a step fails. -/
theorem Tracks.move (h : c.Tracks m base id w) (hordered : c.Ordered)
    (hdrive : m.settings.drive = .auto) (hloop : m.settings.looping = false)
    (hmove : Undisturbed m c c') :
    (∃ w', Walker.Walks m w w' ∧ c'.Tracks m base id w') ∨ c'.Failed id := by
  cases hmove with
  | step => exact h.step hordered hdrive hloop
  | tick _ _ =>
    obtain ⟨ready, hready⟩ := c.tick_eq _
    rw [hready]
    exact .inl ⟨w, .refl, h.congr (Stage.Passes.refl _).turn rfl rfl rfl rfl rfl⟩
  | wait _ _ _ => exact .inl ⟨w, .refl, h.congr (Stage.Passes.refl _).turn rfl rfl rfl rfl rfl⟩

/-- When the only call is over nothing happens any more. -/
theorem Failed.move (h : c.Failed id) (hordered : c.Ordered) (hmove : Undisturbed m c c') :
    c'.Failed id := by
  cases hmove with
  | step =>
    rcases hready : c.ready with - | ⟨j, rest⟩
    · rw [step_of_idle hready]
      exact ⟨h.ended, h.failed⟩
    · have hpresent := hordered.isSome_phase? (hready ▸ List.mem_cons_self : j ∈ c.ready)
      rw [h.ended j] at hpresent
      cases hpresent
  | tick _ _ =>
    obtain ⟨ready, hready⟩ := c.tick_eq _
    rw [hready]
    exact ⟨h.ended, h.failed⟩
  | wait _ _ _ => exact ⟨h.ended, h.failed⟩

theorem phase?_of_tasks_eq_nil (h : c.tasks = []) (j : Nat) : c.phase? j = none := by
  rw [phase?, h]
  rfl

theorem tasks_eq_nil (h : ∀ j, c.phase? j = none) : c.tasks = [] := by
  rcases htasks : c.tasks with - | ⟨⟨j, phase⟩, rest⟩
  · rfl
  · have hphase := h j
    rw [phase?, htasks, List.lookup_cons_self] at hphase
    cases hphase

/-- A run is started while nobody else drives the machine. -/
theorem tracks_issue (hidle : c.tasks = []) (hrunning : c.running = false)
    (hahead : Ahead m.program c.registers.cursor [(0, o)]) :
    (c.issue .start).Tracks m (c.stage.visits m.program) c.calls
      (.before c.stage c.registers.vibrated o) := by
  have hphase : (c.issue .start).phase?
      = Function.update c.phase? c.calls (some (.issued .start)) :=
    phase?_issue (phase?_of_tasks_eq_nil hidle c.calls)
  refine ⟨⟨fun j hj => ?_, .refl _, rfl, rfl⟩, ?_⟩
  · rw [hphase, Function.update_of_ne hj]
    exact phase?_of_tasks_eq_nil hidle j
  · rw [hphase, Function.update_self]
    exact .issued hrunning hahead

/-- A run that is alone can always go on, or waits for an alarm. -/
theorem Tracks.not_stuck (h : c.Tracks m base id w) (hordered : c.Ordered) (htasks : c.tasks ≠ []) :
    ¬ c.quiet ∨ c.nextDue?.isSome := by
  by_cases hquiet : c.quiet = true
  · right
    have hidle := not_goes_of_quiet hquiet id
    have hfits := hordered.fits id
    have hfollows := h.follows
    rcases hphase : c.phase? id with - | phase
    · refine absurd (tasks_eq_nil fun j => ?_) htasks
      by_cases hj : j = id
      · rw [hj, hphase]
      · exact h.alone j hj
    · rw [hphase] at hfollows
      generalize w.deed = deed at hfollows
      generalize w.todo = todo at hfollows
      -- whoever is about to do something can go on
      have haside (hrole : phase.role = .aside false false) : False := by
        rw [role_of_phase? hphase, hrole] at hfits
        rcases hfits.1 with hgoes | hgoes | hgoes
        · exact hidle (.inl hgoes)
        · exact hidle (.inr hgoes)
        · cases hgoes
      cases hfollows with
      | issued _ _ => exact (haside rfl).elim
      | clear _ => exact (haside rfl).elim
      | step _ _ => exact (haside rfl).elim
      | @stepping activity _ _ _ hbusy =>
        have halarms : activity.alarms ≠ [] := fun hnil =>
          hidle (hordered.goes_of_stepping hphase (hbusy.ne_holding none) hnil)
        obtain ⟨alarm, halarm⟩ := Option.isSome_iff_exists.1 (Alarm.isSome_first? halarms)
        obtain ⟨due, hdue, -⟩ := exists_nextDue? hphase halarm
        rw [hdue]
        rfl
  · exact .inl hquiet

/-- **A run begins what a walker begins.**  A scenario whose outline is spelled by plain steps,
blocks and conditionals is compiled without errors, and a run of its program is started at the begin
while nobody else drives the machine.  As long as nobody disturbs the run and no step of it fails, a
walker along the scenario goes along on the same stage: what has begun is what he has visited, every
step once at most and in the order of the outline.  The run can always go on or waits for an alarm;
when it is over, the walker is at his end and the cursor at the end of the program. -/
theorem begins_as_walked {scenario : Scenario} {options : CompileOptions}
    (hspells : o.Spells options.blocks scenario)
    (herrors : (scenario.compile options).errors = [])
    (hprogram : m.program = (scenario.compile options).program)
    (hdrive : m.settings.drive = .auto) (hloop : m.settings.looping = false) {c₀ : Config}
    (hreach : c₀.Reachable m) (hidle : c₀.tasks = []) (hrunning : c₀.running = false)
    (hcursor : c₀.registers.cursor = 0) (hrun : ReflTransGen (Undisturbed m) (c₀.issue .start) c)
    (hfails : ∀ r ∈ c.stage.journal, ∀ index e, r.event ≠ .failed c₀.calls index e) :
    ∃ w, Walker.Walks m (.before c₀.stage c₀.registers.vibrated o) w ∧ w.stage = c.stage ∧
      c.stage.visits m.program = w.visits ++ c₀.stage.visits m.program ∧
      (w.visits.map Prod.fst).Pairwise (· > ·) ∧
      (c.tasks ≠ [] → ¬ c.quiet ∨ c.nextDue?.isSome) ∧
      (c.tasks = [] → w.Over ∧ c.registers.cursor = m.program.length ∧
        ∃ r ∈ c.stage.journal, r.event = .returned c₀.calls (.ok ())) := by
  have hahead : Ahead m.program c₀.registers.cursor [(0, o)] := by
    rw [hcursor, hprogram]
    exact hspells.ahead herrors
  -- the walker goes along through all that happens
  have hfollow : c.Reachable m ∧
      ((∃ w, Walker.Walks m (.before c₀.stage c₀.registers.vibrated o) w ∧
          c.Tracks m (c₀.stage.visits m.program) c₀.calls w) ∨ c.Failed c₀.calls) := by
    clear hfails
    induction hrun with
    | refl => exact ⟨hreach.issue .start, .inl ⟨_, .refl, tracks_issue hidle hrunning hahead⟩⟩
    | tail _ hmove ih =>
      obtain ⟨hreach', htracks⟩ := ih
      refine ⟨hreach'.move hmove.move, ?_⟩
      rcases htracks with ⟨w, hwalks, htracks⟩ | hfailed
      · rcases htracks.move hreach'.ordered hdrive hloop hmove with ⟨w', hwalks', htracks'⟩ | hfailed
        · exact .inl ⟨w', hwalks.trans hwalks', htracks'⟩
        · exact .inr hfailed
      · exact .inr (hfailed.move hreach'.ordered hmove)
  obtain ⟨hreach', htracks⟩ := hfollow
  rcases htracks with ⟨w, hwalks, htracks⟩ | hfailed
  · have hwait : Walker.Walks m w { w with stage := c.stage } := .single (.pass htracks.stage)
    refine ⟨{ w with stage := c.stage }, hwalks.trans hwait, rfl, htracks.visits,
      (Walker.Walks.visits hwalks).2, htracks.not_stuck hreach'.ordered, fun htasks => ?_⟩
    have hfollows := htracks.follows
    rw [phase?_of_tasks_eq_nil htasks] at hfollows
    generalize hdeed : w.deed = deed at hfollows
    generalize htodo : w.todo = todo at hfollows
    cases hfollows with
    | ended hend hreturned => exact ⟨⟨rfl, rfl⟩, hend, hreturned⟩
  · obtain ⟨r, hr, index, e, he⟩ := hfailed.failed
    exact absurd he (hfails r hr index e)

end Config

end Timeline
