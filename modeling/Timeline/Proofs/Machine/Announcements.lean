/-
Timeline/Proofs/Machine/Announcements.lean

What a machine publishes.

Whoever watches a machine sees the positions that it publishes.  A position is
published for a step that begins and for a rewind, right before; in between nothing
is published, and all that is recorded bears the position that was published last.
`Machine.Announces` says so of a whole journal, `Stage.Amid` of what has come to
pass while a step is executed, and `Machine.Tells` of what one small step adds.

Main result (`Config.Reachable.range_and_announcements`): the registers of every
reachable configuration are in range, so that whoever executes a step finds one, and
what was published are the positions of the steps that have begun and of the rewinds.
-/
import Timeline.Proofs.Machine.Passes
import Timeline.Proofs.Machine.Failures
import Timeline.Proofs.Machine.Range

namespace Timeline

open Relation

/-! ### Journals -/

namespace Event

/-- The position that an event publishes. -/
def published? : Event → Option Position
  | published position => some position
  | _ => none

/-- The index that is published before an event. -/
def place? : Event → Option Nat
  | began _ index => some index
  | rewound _ => some 0
  | _ => none

/-- An event that neither publishes a position nor needs one. -/
def Plain (e : Event) : Prop :=
  e.published? = none ∧ e.place? = none

end Event

namespace Machine

variable {m : Machine} {i : Nat}

/-- The position of a step bears its text. -/
theorem exists_position_eq (h : i < m.program.length) :
    ∃ step, m.program.step? i = some step ∧ m.position i = ⟨i, step.display i⟩ := by
  rcases hstep : m.program.step? i with - | step
  · exact absurd h (Nat.not_lt.2 (Program.step?_eq_none_iff.1 hstep))
  · exact ⟨step, rfl, by simp [position, Program.display?, hstep]⟩

/-- A position of a program without steps bears no text. -/
theorem position_of_empty (h : m.program.length = 0) : m.position i = ⟨i, ""⟩ := by
  have hstep : m.program.step? i = none := Program.step?_eq_none_iff.2 (h ▸ Nat.zero_le i)
  simp [position, Program.display?, hstep]

end Machine

/-- A journal, the latest record first, and the position that was published last.  A position is
published for one event, right before it, and every record bears the position of its time. -/
inductive Machine.Announces (m : Machine) : Position → List Record → Prop
  | fresh : m.Announces (m.position 0) []
  | announced {position : Position} {journal : List Record} {time index : Nat} {event : Event} :
      m.Announces position journal → event.place? = some index →
      m.Announces (m.position index)
        (⟨time, index, event⟩ :: ⟨time, index, .published (m.position index)⟩ :: journal)
  | plain {position : Position} {journal : List Record} {record : Record} :
      m.Announces position journal → record.event.Plain → record.index = position.index →
      m.Announces position (record :: journal)

/-- What was published are the positions of the steps that have begun, and that of the first step for
every rewind. -/
theorem Machine.Announces.published {m : Machine} {position : Position} {journal : List Record}
    (h : m.Announces position journal) :
    journal.filterMap (·.event.published?)
      = (journal.filterMap (·.event.place?)).map m.position := by
  induction h with
  | fresh => rfl
  | @announced _ _ _ index event _ hplace ih =>
    have hevent : event.published? = none := by
      cases event <;> first | rfl | cases hplace
    have hposition : (Event.published (m.position index)).published? = some (m.position index) := rfl
    have hnone : (Event.published (m.position index)).place? = none := rfl
    simp only [List.filterMap_cons, hevent, hplace, hposition, hnone, ih, List.map_cons]
  | plain _ hplain _ ih => simp [hplain.1, hplain.2, ih]

namespace Stage

variable {m : Machine} {s s' s'' : Stage} {id i : Nat}

/-- The position stays, and what is recorded bears it and needs no other. -/
structure Continues (s s' : Stage) : Prop where
  position : s'.position = s.position
  journal : ∃ new, s'.journal = new ++ s.journal ∧
    ∀ r ∈ new, r.event.Plain ∧ r.index = s.position.index

namespace Continues

theorem refl (s : Stage) : Continues s s :=
  ⟨rfl, [], rfl, by simp⟩

theorem trans (h : Continues s s') (h' : Continues s' s'') : Continues s s'' where
  position := h'.position.trans h.position
  journal := by
    refine journal_trans h.journal ?_
    rw [← h.position]
    exact h'.journal

theorem note (h : Continues s s') {e : Event} (he : e.Plain) : Continues s (s'.note e) :=
  h.trans ⟨rfl, [⟨s'.now, s'.position.index, e⟩], rfl, by simp [he]⟩

/-- Who acts on the stage publishes nothing. -/
theorem of_acts {B : Bounds} (h : Acts B s s') : Continues s s' := by
  refine ⟨h.frame.position, ?_⟩
  obtain ⟨new, hnew, hall⟩ := h.frame.journal
  refine ⟨new, hnew, fun r hr => ?_⟩
  obtain ⟨-, hindex, hpermits⟩ := hall r hr
  refine ⟨?_, hindex⟩
  cases hevent : r.event <;> rw [hevent] at hpermits <;>
    first | exact ⟨rfl, rfl⟩ | exact hpermits.elim

end Continues

/-- The step at an index is executed: its position was published right before it began, and all
that has come to pass since bears it. -/
structure Amid (m : Machine) (id i : Nat) (s : Stage) : Prop where
  position : s.position = m.position i
  journal : ∃ since time before,
    s.journal = since ++ ⟨time, i, .began id i⟩ :: ⟨time, i, .published (m.position i)⟩ :: before ∧
    ∀ r ∈ since, r.event.Plain ∧ r.index = i

theorem Amid.begin (s : Stage) : ((s.publish (m.position i)).note (.began id i)).Amid m id i :=
  ⟨rfl, [], s.now, s.journal, rfl, by simp⟩

theorem Amid.extended (h : s.Amid m id i) (hs : s.Continues s') : s'.Amid m id i where
  position := hs.position.trans h.position
  journal := by
    obtain ⟨since, time, before, hsince, hall⟩ := h.journal
    obtain ⟨new, hnew, hall'⟩ := hs.journal
    refine ⟨new ++ since, time, before, by rw [hnew, hsince, List.append_assoc], fun r hr => ?_⟩
    rcases List.mem_append.1 hr with hr | hr
    · obtain ⟨hplain, hindex⟩ := hall' r hr
      exact ⟨hplain, hindex.trans (congrArg Position.index h.position)⟩
    · exact hall r hr

end Stage

/-- What one small step tells: nothing new about where the machine is, or that it is at a position,
for one event. -/
inductive Machine.Tells (m : Machine) (s : Stage) (events : List Event) : Stage → Prop
  | nothing {s' : Stage} : (∀ e ∈ events, e.place? = none) → s.Continues s' → m.Tells s events s'
  | position {event : Event} {index : Nat} {s₁ s' : Stage} : event ∈ events →
      event.place? = some index → (∀ e ∈ events, e.place? ≠ none → e = event) → s.Continues s₁ →
      ((s₁.publish (m.position index)).note event).Continues s' → m.Tells s events s'

namespace Machine

variable {m : Machine} {position : Position} {journal new : List Record} {s s' : Stage}
  {id i : Nat} {events : List Event}

theorem Announces.extended (h : m.Announces s.position s.journal) (hs : s.Continues s') :
    m.Announces s'.position s'.journal := by
  obtain ⟨new, hnew, hall⟩ := hs.journal
  rw [hs.position, hnew]
  clear hnew
  induction new with
  | nil => exact h
  | cons r new ih =>
    obtain ⟨hplain, hindex⟩ := hall r List.mem_cons_self
    exact .plain (ih fun r' hr' => hall r' (List.mem_cons_of_mem r hr')) hplain hindex

/-- Whatever is told keeps to the order of announcements. -/
theorem Announces.tells (h : m.Announces s.position s.journal) (htells : m.Tells s events s') :
    m.Announces s'.position s'.journal := by
  cases htells with
  | nothing _ hs => exact h.extended hs
  | position _ hplace _ hs hs' =>
    have hbefore := h.extended hs
    refine Announces.extended ?_ hs'
    exact .announced hbefore hplace

theorem Tells.after {s₁ : Stage} (hs : s.Continues s₁) (h : m.Tells s₁ events s') :
    m.Tells s events s' := by
  cases h with
  | nothing hnone hs' => exact .nothing hnone (hs.trans hs')
  | position hmem hplace hunique hs' hafter =>
    exact .position hmem hplace hunique (hs.trans hs') hafter

/-- Where no step begins and nothing is rewound, nothing is published. -/
theorem Tells.silent (h : m.Tells s events s') (hnone : ∀ e ∈ events, e.place? = none) :
    s.Continues s' := by
  cases h with
  | nothing _ hs => exact hs
  | position hmem hplace _ _ _ => cases (hnone _ hmem).symm.trans hplace

/-- A step that has begun is being executed. -/
theorem Tells.amid (h : m.Tells s events s') (hmem : .began id i ∈ events) : s'.Amid m id i := by
  cases h with
  | nothing hnone _ => cases hnone _ hmem
  | position _ hplace hunique _ hs' =>
    obtain rfl := hunique _ hmem (by simp [Event.place?])
    cases hplace
    exact (Stage.Amid.begin _).extended hs'

end Machine

/-! ### Deeds -/

namespace Ledger

variable {m : Machine} {l l' : Ledger} {id : Nat} {who : Stepper} {events : List Event}

theorem Begins.tells (h : Begins m id who l events l') : m.Tells l.stage events l'.stage := by
  cases h with
  | hold _ _ =>
    exact .position (by simp) rfl (by simp [Event.place?]) (.refl _)
      ((Stage.Continues.refl _).note ⟨rfl, rfl⟩)
  | step _ _ _ => exact .position (by simp) rfl (by simp [Event.place?]) (.refl _) (.refl _)

theorem Entry.tells {purpose : Purpose} (h : Entry m id l purpose events l') :
    m.Tells l.stage events l'.stage := by
  have hturn (s : Stage) : s.Continues s.nextTurn := ⟨rfl, [], rfl, by simp⟩
  cases h with
  | step _ _ hb => exact hb.tells
  | next hb => exact hb.tells
  | clear => exact .nothing (by simp) (.refl _)
  | around _ _ _ _ _ => exact .nothing (by simp) (.refl _)
  | restart _ =>
    exact .nothing (by simp [Event.place?])
      (((Stage.Continues.refl _).note ⟨rfl, rfl⟩).trans (hturn _))
  | rewind =>
    have hmem : Event.rewound id
        ∈ [.returned id (.ok ()), .rewound id, .published (m.position 0)] := by simp
    exact .position hmem rfl (by simp [Event.place?])
      (.of_acts (Stage.Acts.restore (B := .free) m.initial.entries l.stage))
      ((hturn _).note ⟨rfl, rfl⟩)
  | _ => exact .nothing (by simp [Event.place?]) ((hturn _).note ⟨rfl, rfl⟩)

/-- **A deed tells** where the machine is if a step begins or the machine is rewound, and nothing
otherwise. -/
theorem Deed.tells (h : Deed m id l events l') : m.Tells l.stage events l'.stage := by
  have hturn {s : Stage} (hs : l.stage.Continues s) : l.stage.Continues s.nextTurn :=
    hs.trans ⟨rfl, [], rfl, by simp⟩
  have hspend : l.stage.Continues l.stage.spend := ⟨rfl, [], rfl, by simp⟩
  have hactivity {activity : Activity} {s : Stage} {p : Progress Activity _}
      (hp : activity.poll l.stage = (s, p)) : l.stage.Continues s :=
    .of_acts (Activity.poll_acts hp)
  have hconvoy {convoy : Convoy} {s : Stage} {p : Progress Convoy _}
      (hp : convoy.poll false l.stage = (s, p)) : l.stage.Continues s :=
    .of_acts (Convoy.poll_acts hp)
  cases h with
  | start _ _ _ => exact .nothing (by simp) (.refl _)
  | ask _ _ _ => exact .nothing (by simp) (.refl _)
  | stop _ => exact .nothing (by simp) (.refl _)
  | reset _ => exact .nothing (by simp) (.refl _)
  | animate _ => exact .nothing (by simp) (.refl _)
  | drop _ _ _ _ =>
    exact .nothing (by simp [Event.place?]) ((Stage.Continues.refl _).note ⟨rfl, rfl⟩)
  | resume _ _ _ _ =>
    exact .nothing (by simp [Event.place?])
      ((hturn ((Stage.Continues.refl _).note ⟨rfl, rfl⟩)).note ⟨rfl, rfl⟩)
  | rest _ _ _ => exact .nothing (by simp) (hturn (.refl _))
  | permit _ _ _ _ _ _ => exact .nothing (by simp) (.refl _)
  | queue _ _ _ _ => exact .nothing (by simp) (hturn (.refl _))
  | take _ _ _ _ hb => exact hb.tells.after hspend
  | enter _ _ _ hb => exact hb.tells.after hspend
  | withdraw _ _ _ => exact .nothing (by simp) (.refl _)
  | wait _ _ _ => exact .nothing (by simp) (hturn (.refl _))
  | busy _ hp => exact .nothing (by simp) (hturn (hactivity hp))
  | ended _ hp => exact .nothing (by simp [Event.place?]) ((hactivity hp).note ⟨rfl, rfl⟩)
  | executed _ hp =>
    exact .nothing (by simp [Event.place?])
      ((hturn ((hactivity hp).note ⟨rfl, rfl⟩)).note ⟨rfl, rfl⟩)
  | crashed _ hp =>
    exact .nothing (by simp [Event.place?])
      ((hturn ((hactivity hp).note ⟨rfl, rfl⟩)).note ⟨rfl, rfl⟩)
  | failed _ hp =>
    exact .nothing (by simp [Event.place?])
      ((hturn ((hactivity hp).note ⟨rfl, rfl⟩)).note ⟨rfl, rfl⟩)
  | move _ hp => exact .nothing (by simp) (hturn (hconvoy hp))
  | moved _ hp => exact .nothing (by simp [Event.place?]) ((hturn (hconvoy hp)).note ⟨rfl, rfl⟩)
  | _ => exact .nothing (by simp [Event.place?]) ((hturn (.refl _)).note ⟨rfl, rfl⟩)

/-- A step begins inside of the program. -/
theorem Deed.lt_length (h : Deed m id l events l') (hkept : l.Kept) {j i : Nat}
    (hmem : .began j i ∈ events) : i < m.program.length := by
  obtain ⟨-, -, _, _, -, rfl, hb⟩ := h.begins hkept hmem
  exact hb.lt_length

end Ledger

/-! ### Reachable configurations -/

namespace Config

variable {m : Machine} {c c' : Config} {id i : Nat} {who : Stepper}

/-- Whatever happens tells where the machine is if a step begins or the machine is rewound. -/
theorem Ordered.tells (h : c.Ordered) (hmove : Move m c c') :
    ∃ events, c'.stage.milestones = events ++ c.stage.milestones ∧
      m.Tells c.stage events c'.stage := by
  have hnothing {s : Stage} (hjournal : s.journal = c.stage.journal)
      (hposition : s.position = c.stage.position) :
      ∃ events, s.milestones = events ++ c.stage.milestones ∧ m.Tells c.stage events s :=
    ⟨[], by simp [Stage.milestones, hjournal], .nothing (by simp) ⟨hposition, [], hjournal, by simp⟩⟩
  cases hmove with
  | step =>
    rcases hready : c.ready with - | ⟨id, rest⟩
    · rw [step_of_idle hready]
      exact hnothing rfl rfl
    · obtain ⟨events, hdeed⟩ := h.deed (m := m) hready
      exact ⟨events, hdeed.milestones, hdeed.tells⟩
  | issue call => exact hnothing rfl rfl
  | @tick due _ _ =>
    obtain ⟨ready, hready⟩ := c.tick_eq due
    rw [hready]
    exact hnothing rfl rfl
  | wait _ _ _ => exact hnothing rfl rfl
  | write target value =>
    have hacts := Stage.Acts.set (B := .free) c.stage target value
    exact ⟨[], Stage.milestones_of_acts hacts, .nothing (by simp) (.of_acts hacts)⟩
  | register _ => exact hnothing rfl rfl

/-- **A position is published for every step that begins and every rewind**, and never
otherwise. -/
theorem Reachable.announces (h : c.Reachable m) : m.Announces c.stage.position c.stage.journal := by
  obtain ⟨driver, functions, hmoves⟩ := h
  induction hmoves with
  | refl => exact .fresh
  | tail hmoves hmove ih =>
    have hordered := (Reachable.ordered ⟨driver, functions, hmoves⟩ : Ordered _)
    obtain ⟨events, -, htells⟩ := hordered.tells hmove
    exact ih.tells htells

/-- **While a step is executed** its position is the one that was published last. -/
theorem Reachable.amid (h : c.Reachable m) {activity : Activity}
    (hphase : c.phase? id = some (.stepping who i activity)) : c.stage.Amid m id i := by
  obtain ⟨driver, functions, hmoves⟩ := h
  induction hmoves generalizing activity with
  | refl => cases hphase
  | @tail c₁ c₂ hmoves hmove ih =>
    have hreach : c₁.Reachable m := ⟨driver, functions, hmoves⟩
    have hkept := hreach.ordered.kept
    rcases hreach.ordered.step_or_aside hmove with
      ⟨j, rest, events, hready, rfl, hdeed⟩ | ⟨-, hmilestones, hphases, -, -⟩
    · have htells := hdeed.tells
      by_cases hj : id = j
      · subst hj
        rcases hdeed.steps hphase with ⟨⟨before, hbefore⟩, -⟩ | ⟨-, -, -, -, hmem⟩
        · -- the call goes on with the step
          rcases hdeed.polls hbefore with ⟨-, -, -, rfl, -⟩ | ⟨-, -, -, hidle⟩ | ⟨-, -, -, hidle, -⟩
          · exact (ih hbefore).extended (htells.silent (by simp))
          · exact absurd hphase (hidle _ _ _)
          · exact absurd hphase (hidle _ _ _)
        · exact htells.amid hmem
      · -- somebody else does something, and does not own the registers
        have hothers {before : Activity} (hbefore : c₁.phase? id = some (.stepping who i before)) :
            (c₁.step m).stage.Amid m id i := by
          obtain ⟨-, -, hevents⟩ := hdeed.bystander hkept (hkept.owner hbefore) hj
          refine (ih hbefore).extended (htells.silent fun e he => ?_)
          rcases hevents e he with ⟨_, rfl⟩ | ⟨_, _, rfl⟩ <;> rfl
        rcases hdeed.other hj with hsame | ⟨_, _, _, -, hholder, -, hreleased⟩
        · exact hothers (hsame.symm.trans hphase)
        · cases hreleased.symm.trans hphase
          exact hothers hholder
    · -- nothing but the stage has changed, and no milestone has come to pass
      rcases hphases id _ hphase with hbefore | ⟨call, hissued⟩
      · obtain ⟨events, hevents, htells⟩ := hreach.ordered.tells hmove
        obtain rfl : [] = events := List.append_cancel_right (hmilestones.symm.trans hevents)
        exact (ih hbefore).extended (htells.silent (by simp))
      · cases hissued

/-- Every step that has begun is a step of the program. -/
theorem Reachable.lt_length_of_began (h : c.Reachable m) (hmem : .began id i ∈ c.stage.milestones) :
    i < m.program.length := by
  have hall : ∀ j k, .began j k ∈ c.stage.milestones → k < m.program.length := by
    refine h.induction (P := fun l => ∀ j k, .began j k ∈ l.stage.milestones → k < m.program.length)
      (fun _ _ _ _ hmem => by cases hmem) fun {l l' events} hl hkept hturn j k hmem => ?_
    rw [hturn.milestones] at hmem
    rcases List.mem_append.1 hmem with hmem | hmem
    · cases hturn with
      | deed hdeed => exact hdeed.lt_length hkept hmem
      | _ => cases hmem
    · exact hl j k hmem
  exact hall id i hmem

/-- Every position that is published bears the text of its step; if there are no steps it is the
first one, without a text. -/
theorem Reachable.display_of_published (h : c.Reachable m) {position : Position}
    (hmem : position ∈ c.stage.journal.filterMap (·.event.published?)) :
    (∃ step, m.program.step? position.index = some step ∧
      position.label = step.display position.index) ∨
    m.program.length = 0 ∧ position = ⟨0, ""⟩ := by
  -- what was published is the position of a step that has begun, or the first one
  rw [h.announces.published] at hmem
  obtain ⟨index, hindex, rfl⟩ := List.mem_map.1 hmem
  have hlt (hlt : index < m.program.length) : ∃ step, m.program.step? index = some step ∧
      (m.position index).label = step.display index := by
    obtain ⟨step, hstep, hposition⟩ := m.exists_position_eq hlt
    exact ⟨step, hstep, congrArg Position.label hposition⟩
  obtain ⟨r, hr, hplace⟩ := List.mem_filterMap.1 hindex
  cases hevent : r.event <;> rw [hevent] at hplace <;> cases hplace
  case began id =>
    exact .inl (hlt (h.lt_length_of_began (Stage.mem_milestones_iff.2 ⟨rfl, r, hr, hevent⟩)))
  case rewound id =>
    rcases Nat.eq_zero_or_pos m.program.length with hempty | hlength
    · exact .inr ⟨hempty, m.position_of_empty hempty⟩
    · exact .inl (hlt hlength)

/-- **Registers and announcements**, in every reachable configuration of a machine on what any
scenario compiles to, with or without errors.

The cursor is at a step of the program or behind the last one, and so is the address that a `resume`
step takes; the cursor of a manual machine is at a step, if there is one.  So whoever is about to
execute the step at the cursor finds one, but for a run at the end of the program, which looks for
that first.

The positions that were published are those of the steps that have begun, and that of the first step
for every rewind, each right before (`Machine.Announces`) and with the text of its step.  While a
step is executed its position is the last one that was published, and all that has come to pass since
it began bears it (`Stage.Amid`). -/
theorem Reachable.range_and_announcements {scenario : Scenario} {options : CompileOptions}
    (hprogram : m.program = (scenario.compile options).program) (h : c.Reachable m) :
    (c.registers.cursor ≤ m.program.length ∧
      (∀ target, c.registers.returnTo = some target → target ≤ m.program.length) ∧
      (m.settings.drive = .manual → 0 < m.program.length →
        c.registers.cursor < m.program.length)) ∧
    (∀ id who r, c.ledger.Aims m id who r →
      r.cursor < m.program.length ∨ r.cursor = m.program.length ∧ ∃ epoch, who = .run epoch) ∧
    (∀ id i, .began id i ∈ c.stage.milestones → i < m.program.length) ∧
    m.Announces c.stage.position c.stage.journal ∧
    c.stage.journal.filterMap (·.event.published?)
      = (c.stage.journal.filterMap (·.event.place?)).map m.position ∧
    (∀ position ∈ c.stage.journal.filterMap (·.event.published?),
      (∃ step, m.program.step? position.index = some step ∧
        position.label = step.display position.index) ∨
      m.program.length = 0 ∧ position = ⟨0, ""⟩) ∧
    ∀ id who i activity, c.phase? id = some (.stepping who i activity) →
      c.stage.Amid m id i := by
  have hanchored : m.program.Anchored := hprogram ▸ scenario.anchored_compile options
  have hrange := h.inRange hanchored
  refine ⟨⟨hrange.registers.cursor, hrange.registers.returnTo, hrange.registers.manual⟩, ?_, ?_,
    h.announces, h.announces.published, ?_, ?_⟩
  · exact fun id who r haims => hrange.aims haims
  · exact fun id i hmem => h.lt_length_of_began hmem
  · exact fun position hmem => h.display_of_published hmem
  · exact fun id who i activity hphase => h.amid hphase

/-- A hold between a label and a conditional that is never closed. -/
def openBranch : Scenario :=
  [.step { action := .label "in" }, .step { action := .hold },
    .step { action := .ifThen (.literal (.bool false)) }]

/-- A machine that goes through it step by step. -/
def manualBranch : Machine where
  program := (openBranch.compile {}).program
  settings := { drive := .manual }

/-- The hold was let go twice, at first to go on at the label; the conditional has been skipped, the
machine was stopped, and another call has parked the hold again. -/
def parkedAgain : Config :=
  [.next none, .next none, .next (some "in"), .next none, .next none, .next none, .next none, .stop,
    .next none, .next none].foldl (fun c call => (c.issue call).settle manualBranch 20)
    (fresh manualBranch {} {})

theorem reachable_parkedAgain : parkedAgain.Reachable manualBranch := by
  have hcalls (calls : List Call) {c : Config} (h : c.Reachable manualBranch) :
      (calls.foldl (fun c call => (c.issue call).settle manualBranch 20) c).Reachable
        manualBranch := by
    induction calls generalizing c with
    | nil => exact h
    | cons call calls ih => exact ih ((h.issue call).settle 20)
  exact hcalls _ (Reachable.fresh {} {})

theorem range_and_announcements_parkedAgain :
    (openBranch.compile {}).errors.length = 1 ∧
    manualBranch.program = (openBranch.compile {}).program ∧ parkedAgain.Reachable manualBranch ∧
    parkedAgain.registers.cursor < manualBranch.program.length ∧
    parkedAgain.stage.journal.filterMap (·.event.published?)
      = [1, 0, 0, 2, 1, 0, 1, 0].map manualBranch.position ∧
    parkedAgain.stage.Amid manualBranch 9 1 := by
  have hprogram : manualBranch.program = (openBranch.compile {}).program := rfl
  obtain ⟨⟨-, -, hmanual⟩, -, -, -, hpublished, -, hamid⟩ :=
    reachable_parkedAgain.range_and_announcements hprogram
  have hplaces : parkedAgain.stage.journal.filterMap (·.event.place?)
      = [1, 0, 0, 2, 1, 0, 1, 0] := by
    cbv
  have hlength : 0 < manualBranch.program.length := by cbv
  have hparked : parkedAgain.phase? 9 = some (.stepping .next 1 (.holding none)) := by cbv
  rw [hplaces] at hpublished
  exact ⟨by cbv, hprogram, reachable_parkedAgain, hmanual rfl hlength, hpublished,
    hamid _ _ _ _ hparked⟩

end Config

end Timeline
