/-
Timeline/Proofs/Machine/Walker.lean

Walking along a scenario.

A walker executes a scenario as the tree that it is, without a program and a cursor:
it walks into every block that is used, resolves every condition that it comes to,
and walks into the branch that is taken.  The indices that it carries along only
tell where the outlines that are ahead of it would stand in a program.

`Ahead p index todo` says that whoever goes on in a program `p` at `index` has
some outlines ahead.  Main results: the program of a scenario has the outline of
the scenario ahead (`ahead_of_reads`), and what begins at an index and what follows
from it is what a walker begins and what follows for it (`Ahead.begin`,
`Busy.poll_busy`, `Busy.poll_ok`).
-/
import Timeline.Proofs.Machine.Drive
import Timeline.Proofs.Program.Outline
import Timeline.Proofs.Stage.Courses

namespace Timeline

open Relation

/-! ### Walkers -/

/-- Outlines that are ahead, each one with the index from which it is written out. -/
abbrev Itinerary := List (Nat × Outline)

/-- What a walker is busy with. -/
inductive Deed where
  /-- A plain step. -/
  | step (activity : Activity)
  /-- A condition, and what is ahead if it holds and if it does not. -/
  | choice (condition : Course Bool) (onTrue onFalse : Itinerary)

/-- Somebody who walks along a scenario. -/
structure Walker where
  stage : Stage
  /-- Whether a vibration was felt. -/
  vibrated : Bool := false
  todo : Itinerary
  deed : Option Deed := none
  /-- The plain steps and the conditions that were begun, the latest first. -/
  visits : List (Nat × Action) := []

namespace Walker

/-- What a walker does next; nothing when it is at its end or when a step fails. -/
def next (m : Machine) (w : Walker) : Option Walker :=
  match w.deed, w.todo with
  | some (.step activity), _ =>
    match activity.poll w.stage with
    | (stage, .busy activity) => some { w with stage, deed := some (.step activity) }
    | (stage, .finished (.ok _)) => some { w with stage, deed := none }
    | (_, .finished (.error _)) => none
  | some (.choice condition onTrue onFalse), _ =>
    match condition.poll w.stage with
    | (stage, .busy condition) =>
      some { w with stage, deed := some (.choice condition onTrue onFalse) }
    | (stage, .finished (.ok b)) =>
      some { w with stage, deed := none, todo := if b then onTrue else onFalse }
    | (_, .finished (.error _)) => none
  | none, [] => none
  | none, (_, .nil) :: later => some { w with todo := later }
  | none, (index, .plain action _ rest) :: later =>
    let (registers, activity) := m.begin index action { vibrated := w.vibrated }
    some { w with
      vibrated := registers.vibrated
      deed := some (.step activity)
      todo := (index + 1, rest) :: later
      visits := (index, action) :: w.visits }
  | none, (index, .block body rest) :: later =>
    some { w with todo := (index, body) :: (index + body.flat.length, rest) :: later }
  | none, (index, .ifThen condition body rest) :: later =>
    let after := (index + 1 + body.flat.length + 1, rest) :: later
    some { w with
      deed := some (.choice (.ahead condition.holds) ((index + 1, body) :: after) after)
      visits := (index, .ifThen condition) :: w.visits }
  | none, (index, .ifThenElse condition body other rest) :: later =>
    let middle := index + 1 + body.flat.length + 1
    let after := (middle + other.flat.length + 1, rest) :: later
    some { w with
      deed := some
        (.choice (.ahead condition.holds) ((index + 1, body) :: after) ((middle, other) :: after))
      visits := (index, .ifThen condition) :: w.visits }

end Walker

/-- From one stage to another time passes; others may record what they do with the machine, but
nobody acts on the stage. -/
structure Stage.Passes (s s' : Stage) : Prop where
  driver : s'.driver = s.driver
  functions : s'.functions = s.functions
  tickets : s'.tickets = s.tickets
  journal : ∃ new, s'.journal = new ++ s.journal ∧ ∀ r ∈ new, ¬ Bounds.free.Permits r.event

namespace Walker

/-- A walker goes on, or time passes. -/
inductive Move (m : Machine) (w : Walker) : Walker → Prop
  | next {w' : Walker} : w.next m = some w' → Move m w w'
  | pass {stage : Stage} : w.stage.Passes stage → Move m w { w with stage }

/-- Any number of moves of a walker. -/
abbrev Walks (m : Machine) : Walker → Walker → Prop :=
  ReflTransGen (Move m)

/-- A walker that has come to its end. -/
structure Over (w : Walker) : Prop where
  deed : w.deed = none
  todo : w.todo = []

/-- A walker that stands before a scenario. -/
def before (stage : Stage) (vibrated : Bool) (o : Outline) : Walker :=
  { stage, vibrated, todo := [(0, o)] }

end Walker

/-! ### What is ahead in a program -/

/-- Whoever goes on at an index of a program has some outlines ahead.  Brackets on the way are
passed: one that divides a conditional leads behind the conditional, one that closes it is followed
by the next step. -/
inductive Ahead (p : Program) : Nat → Itinerary → Prop
  | atEnd : Ahead p p.length []
  | nil {index : Nat} {later : Itinerary} :
      Ahead p index later → Ahead p index ((index, .nil) :: later)
  | plain {index : Nat} {later : Itinerary} {step : Step} {rest : Outline}
      (isPlain : step.action.Plain) : p.step? index = some step →
      Ahead p (index + 1) ((index + 1, rest) :: later) →
      Ahead p index ((index, .plain step.action isPlain rest) :: later)
  | block {index : Nat} {later : Itinerary} {body rest : Outline} :
      Ahead p index ((index, body) :: (index + body.flat.length, rest) :: later) →
      Ahead p index ((index, .block body rest) :: later)
  | ifThen {index after : Nat} {later : Itinerary} {step : Step} {condition : Operand}
      {body rest : Outline} : p.step? index = some step → step.action = .ifThen condition →
      after = index + 1 + body.flat.length + 1 → p.skipBranch index true = after →
      Ahead p (index + 1) ((index + 1, body) :: (after, rest) :: later) →
      Ahead p after ((after, rest) :: later) →
      Ahead p index ((index, .ifThen condition body rest) :: later)
  | ifThenElse {index middle after : Nat} {later : Itinerary} {step : Step} {condition : Operand}
      {body other rest : Outline} : p.step? index = some step → step.action = .ifThen condition →
      middle = index + 1 + body.flat.length + 1 → after = middle + other.flat.length + 1 →
      p.skipBranch index true = middle →
      Ahead p (index + 1) ((index + 1, body) :: (after, rest) :: later) →
      Ahead p middle ((middle, other) :: (after, rest) :: later) →
      Ahead p index ((index, .ifThenElse condition body other rest) :: later)
  | divider {index : Nat} {later : Itinerary} {step : Step} :
      p.step? index = some step → step.action = .ifElse →
      Ahead p (p.skipBranch index false) later → Ahead p index later
  | closing {index : Nat} {later : Itinerary} {step : Step} :
      p.step? index = some step → step.action = .ifEnd →
      Ahead p (index + 1) later → Ahead p index later

section Ahead

variable {p : Program}

/-- **Where an outline is written out, it is ahead**, and what is ahead behind it comes later. -/
theorem ahead_of_reads (o : Outline) {index : Nat} {later : Itinerary}
    (hreads : p.Reads index o.flat) (hlater : Ahead p (index + o.flat.length) later) :
    Ahead p index ((index, o) :: later) := by
  induction o generalizing index later with
  | nil => exact .nil hlater
  | plain action isPlain rest ih =>
    obtain ⟨⟨step, hstep, rfl⟩, hrest⟩ := hreads.cons
    refine .plain isPlain hstep (ih hrest ?_)
    rw [Nat.add_assoc, Nat.add_comm 1]
    exact hlater
  | block body rest ihbody ih =>
    obtain ⟨hbody, hrest⟩ := hreads.append
    refine .block (ihbody hbody (ih hrest ?_))
    rw [Nat.add_assoc, ← List.length_append]
    exact hlater
  | ifThen condition body rest ihbody ih =>
    obtain ⟨⟨step, hstep, haction⟩, hinner⟩ := hreads.cons
    obtain ⟨hbody, hclosing⟩ := hinner.append
    obtain ⟨⟨last, hlast, hend⟩, hrest⟩ := hclosing.cons
    have hafter : Ahead p (index + 1 + body.flat.length + 1)
        ((index + 1 + body.flat.length + 1, rest) :: later) := by
      apply ih hrest
      have hlength : index + 1 + body.flat.length + 1 + rest.flat.length
          = index + (Outline.ifThen condition body rest).flat.length := by
        simp only [Outline.flat, List.length_cons, List.length_append]
        omega
      rw [hlength]
      exact hlater
    exact .ifThen hstep haction rfl (hinner.skipBranch_eq (.inl rfl))
      (ihbody hbody (.closing hlast hend hafter)) hafter
  | ifThenElse condition body other rest ihbody ihother ih =>
    obtain ⟨⟨step, hstep, haction⟩, hinner⟩ := hreads.cons
    obtain ⟨hbody, hdivider⟩ := hinner.append
    obtain ⟨⟨half, hhalf, helse⟩, houter⟩ := hdivider.cons
    obtain ⟨hother, hclosing⟩ := houter.append
    obtain ⟨⟨last, hlast, hend⟩, hrest⟩ := hclosing.cons
    have hafter : Ahead p (index + 1 + body.flat.length + 1 + other.flat.length + 1)
        ((index + 1 + body.flat.length + 1 + other.flat.length + 1, rest) :: later) := by
      apply ih hrest
      have hlength : index + 1 + body.flat.length + 1 + other.flat.length + 1 + rest.flat.length
          = index + (Outline.ifThenElse condition body other rest).flat.length := by
        simp only [Outline.flat, List.length_cons, List.length_append]
        omega
      rw [hlength]
      exact hlater
    -- the divider skips the other branch
    have hskip : Ahead p (index + 1 + body.flat.length)
        ((index + 1 + body.flat.length + 1 + other.flat.length + 1, rest) :: later) := by
      refine .divider hhalf helse ?_
      rw [houter.skipBranch_eq (.inl rfl)]
      exact hafter
    exact .ifThenElse hstep haction rfl rfl (hinner.skipBranch_eq (.inr ⟨rfl, rfl⟩))
      (ihbody hbody hskip) (ihother hother (.closing hlast hend hafter))

/-- The outline of a scenario is ahead of whoever stands at the begin of its program. -/
theorem Outline.Spells.ahead {o : Outline} {scenario : Scenario} {options : CompileOptions}
    (h : o.Spells options.blocks scenario) (herrors : (scenario.compile options).errors = []) :
    Ahead (scenario.compile options).program 0 [(0, o)] := by
  obtain ⟨hreads, hlength⟩ := h.reads_compile herrors
  apply ahead_of_reads o hreads
  rw [Nat.zero_add, ← hlength]
  exact .atEnd

/-- What is ahead is ahead in the program. -/
theorem Ahead.le_length {index : Nat} {todo : Itinerary} (h : Ahead p index todo) :
    index ≤ p.length := by
  have inside {index : Nat} {step : Step} (hstep : p.step? index = some step) :
      index ≤ p.length := by
    rcases Nat.le_total index p.length with hle | hge
    · exact hle
    · rw [Program.step?_eq_none_iff.2 hge] at hstep
      cases hstep
  induction h with
  | atEnd => exact Nat.le_refl _
  | nil _ ih => exact ih
  | plain _ hstep _ _ => exact inside hstep
  | block _ ih => exact ih
  | ifThen hstep _ _ _ _ _ _ _ => exact inside hstep
  | ifThenElse hstep _ _ _ _ _ _ _ _ => exact inside hstep
  | divider hstep _ _ _ => exact inside hstep
  | closing hstep _ _ _ => exact inside hstep

/-- Whoever is at the end of the program has come to the end of what is ahead. -/
theorem Ahead.walks_atEnd {m : Machine} {w : Walker} {index : Nat} {todo : Itinerary}
    (h : Ahead p index todo) (hstep : p.step? index = none) (hdeed : w.deed = none)
    (htodo : w.todo = todo) :
    index = p.length ∧ Walker.Walks m w { w with todo := [] } := by
  have outside {index : Nat} {step : Step} (hnone : p.step? index = none)
      (hsome : p.step? index = some step) : False := by
    rw [hnone] at hsome
    cases hsome
  induction h generalizing w with
  | atEnd =>
    refine ⟨rfl, ?_⟩
    rw [← htodo]
  | @nil index later _ ih =>
    have hnext : w.next m = some { w with todo := later } := by
      simp only [Walker.next, hdeed, htodo]
    obtain ⟨hend, hwalks⟩ := @ih { w with todo := later } hstep hdeed rfl
    exact ⟨hend, .head (.next hnext) hwalks⟩
  | plain _ hsome _ _ => exact (outside hstep hsome).elim
  | @block index later body rest _ ih =>
    let todo := (index, body) :: (index + body.flat.length, rest) :: later
    have hnext : w.next m = some { w with todo } := by
      simp only [Walker.next, hdeed, htodo, todo]
    obtain ⟨hend, hwalks⟩ := @ih { w with todo } hstep hdeed rfl
    exact ⟨hend, .head (.next hnext) hwalks⟩
  | ifThen hsome _ _ _ _ _ _ _ => exact (outside hstep hsome).elim
  | ifThenElse hsome _ _ _ _ _ _ _ _ => exact (outside hstep hsome).elim
  | divider hsome _ _ _ => exact (outside hstep hsome).elim
  | closing hsome _ _ _ => exact (outside hstep hsome).elim

end Ahead

/-! ### Steps of a machine and deeds of a walker -/

/-- A course, then what its result asks for. -/
def Course.bind {α β : Type} (f : α → Work β) : Course α → Course β
  | ahead work => ahead (work.bind f)
  | asleep alarm inner rest => asleep alarm inner fun v => (rest v).bind f

/-- What follows a visit to a course for what its result asks for. -/
def Course.follow {α β : Type} (f : α → Work β) :
    Stage × Progress (Course α) (Except StepError α) →
      Stage × Progress (Course β) (Except StepError β)
  | (s, .busy course) => (s, .busy (course.bind f))
  | (s, .finished (.ok result)) => (f result).perform s
  | (s, .finished (.error e)) => (s, .finished (.error e))

theorem Work.perform_bind {α β : Type} (f : α → Work β) (w : Work α) (s : Stage) :
    (w.bind f).perform s = Course.follow f (w.perform s) := by
  induction w generalizing s with
  | done result => rfl
  | fail e => rfl
  | sleep time rest ih =>
    rcases h : s.await (s.alarmAfter time) with ⟨- | alarm, s'⟩ <;>
      simp only [bind, perform, h]
    · exact ih s'
    · rfl
  | look target rest ih => exact ih _ s
  | set target value rest ih =>
    rcases h : s.set target value with ⟨known, s'⟩
    cases known <;> simp only [bind, perform, h]
    · rfl
    · exact ih _
  | vibrate rest ih => exact ih _
  | call name arg rest ih =>
    rcases h : s.call? name arg with - | ⟨body, s'⟩ <;> simp only [bind, perform, h]
    · rfl
    · rcases hrun : body.run s' with ⟨s'', ⟨alarm, inner⟩ | e | v⟩
      · rfl
      · rfl
      · exact ih v s''
  | run body rest ih =>
    rcases hrun : body.run s with ⟨s', ⟨alarm, inner⟩ | e | v⟩ <;>
      simp only [bind, perform, hrun]
    · rfl
    · rfl
    · exact ih v s'

theorem Course.poll_bind {α β : Type} (f : α → Work β) (c : Course α) (s : Stage) :
    (c.bind f).poll s = follow f (c.poll s) := by
  cases c with
  | ahead work => exact work.perform_bind f s
  | asleep alarm inner rest =>
    rcases h : s.await alarm with ⟨- | alarm', s'⟩ <;> simp only [bind, poll, h]
    · exact (Work.run inner rest).perform_bind f s'
    · rfl

/-- Where a condition leads that is resolved. -/
def Flow.branch (target : Nat) (holds : Bool) : Work Flow :=
  if holds then .done .advance else .done (.jump target)

/-- How a conditional begins. -/
theorem Machine.begin_ifThen (m : Machine) (index : Nat) (condition : Operand) (r : Registers) :
    m.begin index (.ifThen condition) r
      = (r, .working ((Course.ahead condition.holds).bind
          (Flow.branch (m.program.skipBranch index true)))) :=
  rfl

/-- A plain step looks at nothing of the registers but whether a vibration was felt, changes nothing
else, and is followed by the next step. -/
theorem Machine.begin_plain (m : Machine) (index : Nat) {action : Action} (h : action.Plain)
    (r : Registers) :
    m.begin index action r
        = ({ r with vibrated := (m.begin index action { vibrated := r.vibrated }).1.vibrated },
          (m.begin index action { vibrated := r.vibrated }).2) ∧
      (m.begin index action r).2.Meets .free fun flow => flow = .advance := by
  have hprepared {tweens : List Tween} :
      (Activity.tweens tweens).Meets .free fun flow => flow = .advance := by
    refine ⟨fun p hp => ?_, rfl⟩
    obtain ⟨t, -, rfl⟩ := List.mem_map.1 hp
    exact t.prepare.meets_free.mono fun _ _ => .inr trivial
  cases action with
  | move tween => exact ⟨rfl, hprepared⟩
  | parallel tweens => exact ⟨rfl, hprepared⟩
  | delay duration => exact ⟨rfl, (duration.duration.meets_free).bind fun _ _ => rfl⟩
  | vibrate =>
    simp only [begin]
    split
    · refine ⟨rfl, ?_⟩
      dsimp only
      split
      · exact (rfl : Flow.advance = .advance)
      · exact (rfl : Flow.advance = .advance)
    · exact ⟨rfl, (rfl : Flow.advance = .advance)⟩
  | callback name value =>
    refine ⟨rfl, ?_⟩
    cases value with
    | none => exact ⟨.inr trivial, fun _ => rfl⟩
    | some operand =>
      exact (operand.resolve.meets_free).bind fun _ _ => ⟨.inr trivial, fun _ => rfl⟩
  | label name => exact ⟨rfl, (rfl : Flow.advance = .advance)⟩
  | comment text => exact ⟨rfl, (rfl : Flow.advance = .advance)⟩
  | set target value =>
    exact ⟨rfl, (value.number "value").meets_free.bind fun _ _ => ⟨.inr trivial, rfl⟩⟩
  | _ => exact h.elim

/-- What the step at an index is busy with is what a walker is busy with; a step that is a bracket
only is nothing to a walker.  Whatever it comes to, it leads forward. -/
inductive Busy (p : Program) (index : Nat) : Activity → Option Deed → Itinerary → Prop
  | step {activity : Activity} {todo : Itinerary} : (∀ release, activity ≠ .holding release) →
      (activity.Meets .free fun flow => flow = .advance) → Ahead p (index + 1) todo →
      Busy p index activity (some (.step activity)) todo
  | choice {condition : Course Bool} {target : Nat} {onTrue onFalse todo : Itinerary} :
      index < target → Ahead p (index + 1) onTrue → Ahead p target onFalse →
      Busy p index (.working (condition.bind (Flow.branch target)))
        (some (.choice condition onTrue onFalse)) todo
  | bracket {flow : Flow} {todo : Itinerary} : index < flow.next index →
      Ahead p (flow.next index) todo → Busy p index (.finished flow) none todo

/-- What a walker visits where a machine begins a step: nothing, if the step only ends a branch. -/
def Step.visit (index : Nat) (s : Step) : List (Nat × Action) :=
  match s.bracket? with
  | some .divider => []
  | some .closing => []
  | _ => [(index, s.action)]

section Steps

variable {m : Machine} {w : Walker} {index : Nat} {todo : Itinerary}

/-- A walker has done what a machine does that begins a step, which touches no register but the mark
of a vibration. -/
def Walker.Begins (m : Machine) (w : Walker) (index : Nat) (step : Step) (r r' : Registers)
    (activity : Activity) : Prop :=
  r' = { r with vibrated := r'.vibrated } ∧
    ∃ deed todo', Walker.Walks m w
        { w with
          vibrated := r'.vibrated, deed, todo := todo', visits := step.visit index ++ w.visits } ∧
      Busy m.program index activity deed todo'

variable {step : Step} {r r' : Registers} {activity : Activity} {later : Itinerary}

/-- A walker that looks at its itinerary differently begins the same. -/
theorem Walker.Begins.of_todo (hnext : w.next m = some { w with todo })
    (h : Walker.Begins m { w with todo } index step r r' activity) :
    Walker.Begins m w index step r r' activity := by
  obtain ⟨hkeeps, deed, todo', hwalks, hbusy⟩ := h
  exact ⟨hkeeps, deed, todo', .head (.next hnext) hwalks, hbusy⟩

/-- A walker stays where it is while the machine passes a bracket. -/
theorem Walker.Begins.bracket {flow : Flow} (hvisit : step.visit index = []) (hdeed : w.deed = none)
    (htodo : w.todo = later) (hr : r.vibrated = w.vibrated) (hforward : index < flow.next index)
    (hlater : Ahead m.program (flow.next index) later) :
    Walker.Begins m w index step r r (.finished flow) := by
  have hsame : { w with
      vibrated := r.vibrated, deed := none, todo := later, visits := step.visit index ++ w.visits }
      = w := by
    rw [hvisit, hr, ← htodo, ← hdeed]
    rfl
  refine ⟨rfl, none, later, ?_, .bracket hforward hlater⟩
  rw [hsame]

theorem Walker.Begins.plain {rest : Outline} (isPlain : step.action.Plain) (hdeed : w.deed = none)
    (htodo : w.todo = (index, .plain step.action isPlain rest) :: later)
    (hr : r.vibrated = w.vibrated) (hbegin : m.begin index step.action r = (r', activity))
    (hrest : Ahead m.program (index + 1) ((index + 1, rest) :: later)) :
    Walker.Begins m w index step r r' activity := by
  obtain ⟨hplain, hmeets⟩ := m.begin_plain index isPlain r
  rw [hbegin, hr] at hplain
  rw [hbegin] at hmeets
  obtain ⟨hregisters, hactivity⟩ := Prod.mk.inj hplain
  have hvisit : step.visit index = [(index, step.action)] := by
    simp only [Step.visit, Step.bracket?_of_plain isPlain]
  have hnext : w.next m = some { w with
      vibrated := r'.vibrated
      deed := some (.step activity)
      todo := (index + 1, rest) :: later
      visits := step.visit index ++ w.visits } := by
    simp only [Walker.next, hdeed, htodo, hvisit, hregisters, hactivity]
    rfl
  have hhold (release : Option Release) : activity ≠ .holding release := by
    rintro rfl
    rw [(Machine.begin_holding hbegin).1] at isPlain
    exact isPlain
  refine ⟨?_, _, _, .single (.next hnext), .step hhold hmeets hrest⟩
  rw [hregisters]

/-- A walker that comes to a conditional chooses between what the machine chooses between. -/
theorem Walker.Begins.choice {condition : Operand} {target : Nat} {onTrue onFalse : Itinerary}
    (haction : step.action = .ifThen condition) (hskip : m.program.skipBranch index true = target)
    (hr : r.vibrated = w.vibrated) (hbegin : m.begin index step.action r = (r', activity))
    (hnext : w.next m = some { w with
      deed := some (.choice (.ahead condition.holds) onTrue onFalse)
      visits := (index, .ifThen condition) :: w.visits })
    (hforward : index < target) (htrue : Ahead m.program (index + 1) onTrue)
    (hfalse : Ahead m.program target onFalse) : Walker.Begins m w index step r r' activity := by
  rw [haction, Machine.begin_ifThen, hskip] at hbegin
  obtain ⟨rfl, rfl⟩ := Prod.mk.inj hbegin
  have hvisit : step.visit index = [(index, .ifThen condition)] := by
    simp only [Step.visit, Step.bracket?, haction]
  refine ⟨rfl, _, w.todo, .single (.next (hnext.trans ?_)), .choice hforward htrue hfalse⟩
  rw [hvisit, hr]
  rfl

/-- **What begins at an index is what a walker begins** to whom the same is ahead. -/
theorem Ahead.begin (h : Ahead m.program index todo) (hstep : m.program.step? index = some step)
    (hdeed : w.deed = none) (htodo : w.todo = todo) (hr : r.vibrated = w.vibrated)
    (hbegin : m.begin index step.action r = (r', activity)) :
    Walker.Begins m w index step r r' activity := by
  have same {index : Nat} {first second : Step} (hfirst : m.program.step? index = some first)
      (hsecond : m.program.step? index = some second) : first = second :=
    Option.some.inj (hfirst.symm.trans hsecond)
  induction h generalizing w with
  | atEnd =>
    rw [Program.step?_eq_none_iff.2 (Nat.le_refl _)] at hstep
    cases hstep
  | @nil index later _ ih =>
    have hnext : w.next m = some { w with todo := later } := by
      simp only [Walker.next, hdeed, htodo]
    exact .of_todo hnext (ih hstep hdeed rfl hr hbegin)
  | @block index later body rest _ ih =>
    let todo := (index, body) :: (index + body.flat.length, rest) :: later
    have hnext : w.next m = some { w with todo } := by
      simp only [Walker.next, hdeed, htodo, todo]
    exact .of_todo hnext (ih hstep hdeed rfl hr hbegin)
  | plain isPlain hplain hrest _ =>
    obtain rfl := same hplain hstep
    exact .plain isPlain hdeed htodo hr hbegin hrest
  | ifThen hfirst haction hafter hskip hbody hrest =>
    obtain rfl := same hfirst hstep
    refine .choice haction hskip hr hbegin ?_ (by omega) hbody hrest
    simp only [Walker.next, hdeed, htodo, hafter]
  | ifThenElse hfirst haction hmiddle hafter hskip hbody hother =>
    obtain rfl := same hfirst hstep
    refine .choice haction hskip hr hbegin ?_ (by omega) hbody hother
    simp only [Walker.next, hdeed, htodo, hafter, hmiddle]
  | divider hdivider haction hlater _ =>
    obtain rfl := same hdivider hstep
    rw [haction, Machine.begin] at hbegin
    obtain ⟨rfl, rfl⟩ := Prod.mk.inj hbegin
    exact .bracket (by simp only [Step.visit, Step.bracket?, haction]) hdeed htodo hr
      (Program.lt_skipBranch ..) hlater
  | closing hclosing haction hlater _ =>
    obtain rfl := same hclosing hstep
    rw [haction, Machine.begin] at hbegin
    obtain ⟨rfl, rfl⟩ := Prod.mk.inj hbegin
    exact .bracket (by simp only [Step.visit, Step.bracket?, haction]) hdeed htodo hr
      (Nat.lt_succ_self _) hlater

theorem Busy.ne_holding {activity : Activity} {deed : Option Deed}
    (h : Busy m.program index activity deed todo) (release : Option Release) :
    activity ≠ .holding release := by
  rintro rfl
  cases h with
  | step hhold _ _ => exact hhold release rfl

/-- A step that a machine is busy with is one that a walker is busy with. -/
theorem Busy.poll_busy {activity activity' : Activity} {stage : Stage}
    (h : Busy m.program index activity w.deed w.todo)
    (hpoll : activity.poll w.stage = (stage, .busy activity')) :
    ∃ deed, Walker.Walks m w { w with stage, deed } ∧ Busy m.program index activity' deed w.todo := by
  generalize hdeed : w.deed = deed at h
  generalize htodo : w.todo = todo at h ⊢
  cases h with
  | step hhold hmeets hahead =>
    obtain ⟨-, hmeets'⟩ := Activity.poll_meets hmeets (Bounds.free_covers w.stage)
    rw [hpoll] at hmeets'
    have hhold' : ∀ release, activity' ≠ .holding release := by
      rcases Activity.holding_of_poll_busy hpoll with ⟨rfl, -⟩ | ⟨-, hne⟩
      · exact absurd rfl (hhold none)
      · exact hne
    have hnext : w.next m = some { w with stage, todo, deed := some (.step activity') } := by
      simp only [Walker.next, hdeed, hpoll, htodo]
    exact ⟨_, .single (.next hnext), .step hhold' hmeets'.1 hahead⟩
  | @choice condition target onTrue onFalse _ hforward htrue hfalse =>
    simp only [Activity.poll, Course.poll_bind] at hpoll
    rcases hcondition : condition.poll w.stage with ⟨s, condition' | e | b⟩ <;>
      rw [hcondition] at hpoll <;> simp only [Course.follow] at hpoll
    · simp only [Prod.mk.injEq, Progress.busy.injEq] at hpoll
      obtain ⟨rfl, rfl⟩ := hpoll
      have hnext : w.next m
          = some { w with stage := s, todo, deed := some (.choice condition' onTrue onFalse) } := by
        simp only [Walker.next, hdeed, hcondition, htodo]
      exact ⟨_, .single (.next hnext), .choice hforward htrue hfalse⟩
    · cases hpoll
    · cases b <;> cases hpoll
  | bracket _ _ => cases hpoll

/-- A step that comes to its end is one that comes to its end for a walker; it leads forward, and what
is ahead of the machine is ahead of the walker. -/
theorem Busy.poll_ok {activity : Activity} {stage : Stage} {flow : Flow}
    (h : Busy m.program index activity w.deed w.todo)
    (hpoll : activity.poll w.stage = (stage, .finished (.ok flow))) :
    index < flow.next index ∧ ∃ todo, Walker.Walks m w { w with stage, deed := none, todo } ∧
      Ahead m.program (flow.next index) todo := by
  generalize hdeed : w.deed = deed at h
  generalize htodo : w.todo = todo at h
  cases h with
  | step _ hmeets hahead =>
    obtain ⟨-, hmeets'⟩ := Activity.poll_meets hmeets (Bounds.free_covers w.stage)
    rw [hpoll] at hmeets'
    obtain rfl : flow = .advance := hmeets'
    have hnext : w.next m = some { w with stage, deed := none, todo } := by
      simp only [Walker.next, hdeed, hpoll, htodo]
    exact ⟨Nat.lt_succ_self _, _, .single (.next hnext), hahead⟩
  | @choice condition target onTrue onFalse _ hforward htrue hfalse =>
    simp only [Activity.poll, Course.poll_bind] at hpoll
    rcases hcondition : condition.poll w.stage with ⟨s, condition' | e | b⟩ <;>
      rw [hcondition] at hpoll <;> simp only [Course.follow] at hpoll
    · cases hpoll
    · cases hpoll
    · have hnext : w.next m
          = some { w with stage := s, deed := none, todo := if b then onTrue else onFalse } := by
        simp only [Walker.next, hdeed, hcondition]
      cases b with
      | true =>
        cases hpoll
        exact ⟨Nat.lt_succ_self _, _, .single (.next hnext), htrue⟩
      | false =>
        cases hpoll
        exact ⟨hforward, _, .single (.next hnext), hfalse⟩
  | bracket hforward hahead =>
    cases hpoll
    refine ⟨hforward, todo, ?_, hahead⟩
    have hsame : { w with stage := w.stage, deed := none, todo } = w := by
      rw [← hdeed, ← htodo]
    rw [hsame]

end Steps

/-! ### No step is walked twice -/

/-- Outlines that are written out one behind the other, from an index on and up to another one. -/
def Itinerary.Spans (stop : Nat) : Nat → Itinerary → Prop
  | start, [] => start ≤ stop
  | start, (index, o) :: later => start ≤ index ∧ Itinerary.Spans stop (index + o.flat.length) later

/-- What may be ahead of a walker: two things while he resolves a condition. -/
def Walker.prospects (w : Walker) : List Itinerary :=
  match w.deed with
  | some (.choice _ onTrue onFalse) => [onTrue, onFalse]
  | _ => [w.todo]

/-- What may be ahead of a walker is written out from an index on and up to another one; what was
visited stands before, in this order. -/
structure Walker.Forward (stop : Nat) (w : Walker) (start : Nat) : Prop where
  prospects : ∀ todo ∈ w.prospects, Itinerary.Spans stop start todo
  visits : ∀ v ∈ w.visits, v.1 < start
  pairwise : (w.visits.map Prod.fst).Pairwise (· > ·)

theorem Itinerary.Spans.mono {stop start start' : Nat} {todo : Itinerary}
    (h : Itinerary.Spans stop start todo) (hle : start' ≤ start) :
    Itinerary.Spans stop start' todo := by
  cases todo with
  | nil => exact Nat.le_trans hle h
  | cons _ _ => exact ⟨Nat.le_trans hle h.1, h.2⟩

theorem Itinerary.Spans.le {stop start : Nat} {todo : Itinerary}
    (h : Itinerary.Spans stop start todo) : start ≤ stop := by
  induction todo generalizing start with
  | nil => exact h
  | cons first later ih =>
    have := ih h.2
    have := h.1
    omega

namespace Walker

variable {m : Machine} {w w' : Walker} {stop start : Nat}

/-- A walker goes on to an outline that was ahead, and begins a step there. -/
theorem Forward.visit (h : w.Forward stop start) {index : Nat} (hindex : start ≤ index)
    {action : Action} (hvisits : w'.visits = (index, action) :: w.visits)
    (hprospects : ∀ todo ∈ w'.prospects, Itinerary.Spans stop (index + 1) todo) :
    w'.Forward stop (index + 1) := by
  refine ⟨hprospects, fun v hv => ?_, ?_⟩
  · rw [hvisits] at hv
    rcases List.mem_cons.1 hv with rfl | hv
    · exact Nat.lt_succ_self _
    · exact Nat.lt_of_lt_of_le (h.visits v hv) (Nat.le_succ_of_le hindex)
  · rw [hvisits]
    refine List.pairwise_cons.2 ⟨fun j hj => ?_, h.pairwise⟩
    obtain ⟨v, hv, rfl⟩ := List.mem_map.1 hj
    exact Nat.lt_of_lt_of_le (h.visits v hv) hindex

/-- A walker who is at no step goes on to the next outline. -/
theorem Forward.turn (h : w.Forward stop start) (hdeed : w.deed = none) (hnext : w.next m = some w') :
    ∃ start', w'.Forward stop start' := by
  obtain ⟨stage, vibrated, todo, deed, visits⟩ := w
  subst hdeed
  rcases todo with - | ⟨⟨index, o⟩, later⟩
  · cases hnext
  · obtain ⟨hindex, hlater⟩ : Itinerary.Spans stop start ((index, o) :: later) :=
      h.prospects _ List.mem_cons_self
    cases o with
    | nil =>
      cases hnext
      refine ⟨start, fun todo htodo => ?_, h.visits, h.pairwise⟩
      obtain rfl := List.mem_singleton.1 htodo
      exact hlater.mono hindex
    | plain action isPlain rest =>
      cases hnext
      refine ⟨index + 1, h.visit hindex rfl fun todo htodo => ?_⟩
      obtain rfl := List.mem_singleton.1 htodo
      refine ⟨Nat.le_refl _, hlater.mono ?_⟩
      simp only [Outline.flat, List.length_cons]
      omega
    | block body rest =>
      cases hnext
      refine ⟨start, fun todo htodo => ?_, h.visits, h.pairwise⟩
      obtain rfl := List.mem_singleton.1 htodo
      refine ⟨hindex, Nat.le_refl _, hlater.mono ?_⟩
      simp only [Outline.flat, List.length_append]
      omega
    | ifThen condition body rest =>
      cases hnext
      -- the bracket behind the branch, and what comes then
      have hafter : Itinerary.Spans stop (index + 1 + body.flat.length)
          ((index + 1 + body.flat.length + 1, rest) :: later) := by
        refine ⟨Nat.le_succ _, hlater.mono ?_⟩
        simp only [Outline.flat, List.length_cons, List.length_append]
        omega
      refine ⟨index + 1, h.visit hindex rfl fun todo htodo => ?_⟩
      rcases List.mem_cons.1 htodo with rfl | htodo
      · exact ⟨Nat.le_refl _, hafter⟩
      · obtain rfl := List.mem_singleton.1 htodo
        exact hafter.mono (by omega)
    | ifThenElse condition body other rest =>
      cases hnext
      have hafter : Itinerary.Spans stop
          (index + 1 + body.flat.length + 1 + other.flat.length)
          ((index + 1 + body.flat.length + 1 + other.flat.length + 1, rest) :: later) := by
        refine ⟨Nat.le_succ _, hlater.mono ?_⟩
        simp only [Outline.flat, List.length_cons, List.length_append]
        omega
      refine ⟨index + 1, h.visit hindex rfl fun todo htodo => ?_⟩
      rcases List.mem_cons.1 htodo with rfl | htodo
      · exact ⟨Nat.le_refl _, hafter.mono (by omega)⟩
      · obtain rfl := List.mem_singleton.1 htodo
        exact ⟨by omega, hafter.mono (by omega)⟩

/-- A walker goes forward. -/
theorem Forward.next (h : w.Forward stop start) (hnext : w.next m = some w') :
    ∃ start', w'.Forward stop start' := by
  rcases hdeed : w.deed with - | ⟨activity | ⟨condition, onTrue, onFalse⟩⟩
  · exact h.turn hdeed hnext
  · obtain ⟨stage, vibrated, todo, deed, visits⟩ := w
    subst hdeed
    rcases hpoll : activity.poll stage with ⟨s, activity' | e | flow⟩ <;>
      simp only [Walker.next, hpoll] at hnext
    · cases hnext
      exact ⟨start, h.prospects, h.visits, h.pairwise⟩
    · cases hnext
    · cases hnext
      exact ⟨start, h.prospects, h.visits, h.pairwise⟩
  · obtain ⟨stage, vibrated, todo, deed, visits⟩ := w
    subst hdeed
    rcases hpoll : condition.poll stage with ⟨s, condition' | e | b⟩ <;>
      simp only [Walker.next, hpoll] at hnext
    · cases hnext
      exact ⟨start, h.prospects, h.visits, h.pairwise⟩
    · cases hnext
    · -- one of the two things that may be ahead is
      cases hnext
      refine ⟨start, fun todo htodo => h.prospects todo ?_, h.visits, h.pairwise⟩
      obtain rfl := List.mem_singleton.1 htodo
      cases b with
      | true => exact List.mem_cons_self
      | false => exact List.mem_cons_of_mem _ List.mem_cons_self

/-- **A walker visits every step once at most**, in the order in which the outline is written
out. -/
theorem Walks.visits {stage : Stage} {vibrated : Bool} {o : Outline}
    (h : Walks m (before stage vibrated o) w) :
    (∀ v ∈ w.visits, v.1 < o.flat.length) ∧ (w.visits.map Prod.fst).Pairwise (· > ·) := by
  have hforward : ∃ start, w.Forward o.flat.length start := by
    induction h with
    | refl =>
      refine ⟨0, fun todo htodo => ?_, fun v hv => (nomatch hv), .nil⟩
      obtain rfl := List.mem_singleton.1 htodo
      exact ⟨Nat.le_refl _, Nat.le_of_eq (Nat.zero_add _)⟩
    | tail _ hmove ih =>
      obtain ⟨start, hstart⟩ := ih
      cases hmove with
      | next hnext => exact hstart.next hnext
      | pass _ => exact ⟨start, hstart.prospects, hstart.visits, hstart.pairwise⟩
  obtain ⟨start, hstart⟩ := hforward
  refine ⟨fun v hv => Nat.lt_of_lt_of_le (hstart.visits v hv) ?_, hstart.pairwise⟩
  obtain ⟨todo, htodo⟩ : ∃ todo, todo ∈ w.prospects := by
    unfold prospects
    split
    · exact ⟨_, List.mem_cons_self⟩
    · exact ⟨_, List.mem_cons_self⟩
  exact (hstart.prospects todo htodo).le

end Walker

end Timeline
