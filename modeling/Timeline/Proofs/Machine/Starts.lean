/-
Timeline/Proofs/Machine/Starts.lean

What becomes of a call to start.

A call to start begins a run unless one is active; then it returns at once.  A run
that was cancelled is active until it has returned, so a call to start may return
because of a run that begins no step any more.  Main result
(`Config.Reachable.start_heard`): that is the only way in which a call to start is
lost, and it is so exactly if a run was active at all times since the last call to stop
was heard.  While nobody can go on and nobody owns the registers, none is.

`loses_start` is a call to start that comes to nothing.
-/
import Timeline.Proofs.Machine.Cancellation

namespace Timeline

open Relation

namespace Ledger

variable {m : Machine} {l l' : Ledger} {id start : Nat} {events : List Event}

/-- A call to start begins a run of the machine's epoch if none is active, and returns otherwise. -/
theorem Deed.starts (h : Deed m id l events l') (hphase : l.phases id = some (.issued .start))
    (hauto : m.settings.drive = .auto) :
    l.running = false ∧ events = [] ∧ l'.epoch = l.epoch ∧ l'.run? id = some l.epoch ∨
    l.running = true ∧ events = [.returned id (.ok ())] ∧ l'.epoch = l.epoch := by
  have hsame {phase : Phase} (hold : l.phases id = some phase) : phase = .issued .start :=
    Option.some.inj (hold.symm.trans hphase)
  cases h with
  | start _ _ hrunning => exact .inl ⟨hrunning, rfl, rfl, run?_setPhase ..⟩
  | idle _ hidle =>
    refine .inr ⟨hidle.resolve_left ?_, rfl, rfl⟩
    rw [hauto]
    simp
  | _ => cases hsame ‹l.phases id = some _›

/-- Whoever is a run after something has happened was one before, or begins while there is none and
has the machine's epoch. -/
theorem Turn.run?_cases (h : Turn m l events l') {epoch : Nat} (hrun : l'.run? id = some epoch) :
    l.run? id = some epoch ∨ l.running = false ∧ l.epoch = epoch := by
  cases h with
  | @deed i _ _ hdeed =>
    by_cases hid : id = i
    · subst hid
      rcases hdeed.run? with ⟨hsame, -⟩ | ⟨-, hidle, -, hbegun, -⟩ | ⟨-, hover, -⟩
      · exact .inl (hsame ▸ hrun)
      · exact .inr ⟨hidle, Option.some.inj (hbegun.symm.trans hrun)⟩
      · cases hover.symm.trans hrun
    · exact .inl (hdeed.run?_of_ne hid ▸ hrun)
  | issue call hnone =>
    by_cases hid : id = l.calls
    · subst hid
      cases (run?_of_phases setPhase_self).symm.trans hrun
    · rw [run?, setPhase_of_ne hid] at hrun
      exact .inl hrun
  | outside _ _ _ => exact .inl hrun

theorem Turn.epoch_le (h : Turn m l events l') : l.epoch ≤ l'.epoch := by
  cases h with
  | deed hdeed => exact hdeed.frame.1
  | issue _ _ => exact Nat.le_refl _
  | outside _ _ _ => exact Nat.le_refl _

/-- All runs have begun when an epoch had come. -/
def RunsFrom (start : Nat) (l : Ledger) : Prop :=
  start ≤ l.epoch ∧ ∀ id epoch, l.run? id = some epoch → start ≤ epoch

theorem RunsFrom.turn (h : RunsFrom start l) (hturn : Turn m l events l') : RunsFrom start l' := by
  obtain ⟨hcome, hruns⟩ := h
  constructor
  · exact Nat.le_trans hcome hturn.epoch_le
  · intro j epoch hj
    rcases hturn.run?_cases hj with hold | ⟨-, rfl⟩
    · exact hruns j epoch hold
    · exact hcome

end Ledger

namespace Config

variable {m : Machine} {c c₀ : Config} {id : Nat}

/-- A run that has begun after a moment without one, and after the last call to stop, was not
cancelled. -/
theorem Reachable.run?_of_idle (h : c₀.Reachable m) (hmoves : ReflTransGen (Move m) c₀ c)
    (hidle : c₀.running = false) (hepoch : c₀.epoch = c.epoch) {e : Nat}
    (hrun : c.ledger.run? id = some e) : e = c.epoch := by
  have hnone : Ledger.RunsFrom c₀.epoch c₀.ledger := by
    refine ⟨Nat.le_refl _, ?_⟩
    intro j epoch hj
    have hrunning : c₀.running = true := h.runs.running hj
    rw [hidle] at hrunning
    cases hrunning
  have hfrom : Ledger.RunsFrom c₀.epoch c.ledger := by
    apply h.keeps hmoves hnone
    intro l l' events hfrom _ hturn
    exact hfrom.turn hturn
  have hlate : c.epoch ≤ e := hepoch ▸ hfrom.2 id e hrun
  exact Nat.le_antisymm ((h.moves hmoves).runs.epoch hrun) hlate

/-- A run has begun at a moment without one, and has the epoch of that moment. -/
theorem Reachable.begun_of_run? (h : c.Reachable m) {e : Nat} (hrun : c.ledger.run? id = some e) :
    ∃ c₀ : Config, c₀.Reachable m ∧ ReflTransGen (Move m) c₀ c ∧ c₀.running = false ∧
      c₀.epoch = e := by
  obtain ⟨driver, functions, hmoves⟩ := h
  induction hmoves with
  | refl => cases hrun
  | @tail c₁ c₂ hmoves hmove ih =>
    have hreach : c₁.Reachable m := ⟨driver, functions, hmoves⟩
    have hbefore (hold : c₁.ledger.run? id = some e) : ∃ c₀ : Config, c₀.Reachable m ∧
        ReflTransGen (Move m) c₀ c₂ ∧ c₀.running = false ∧ c₀.epoch = e := by
      obtain ⟨c₀, h₀, hsince, hidle, hepoch⟩ := ih hold
      exact ⟨c₀, h₀, hsince.tail hmove, hidle, hepoch⟩
    obtain ⟨events, hturn⟩ := hreach.ordered.turn hmove
    rcases hturn.run?_cases hrun with hold | ⟨hidle, hepoch⟩
    · exact hbefore hold
    · -- this is the moment in which it begins
      exact ⟨c₁, hreach, .single hmove, hidle, hepoch⟩

/-- While nobody can go on and nobody owns the registers, no run is active. -/
theorem Reachable.running_of_quiet (h : c.Reachable m) (hquiet : c.quiet)
    (howner : c.lock.owner = none) : c.running = false := by
  rw [← Bool.not_eq_true]
  intro hrunning
  obtain ⟨id, epoch, hrun⟩ := h.runs.active hrunning
  obtain ⟨phase, hphase, hepoch⟩ := Option.bind_eq_some_iff.1 hrun
  obtain ⟨owner, -, -, -, hown, -⟩ := h.ordered.stepping_of_quiet hquiet hphase hepoch
  cases howner.symm.trans hown

/-- **What becomes of a call to start.**  There is one run at most, and the machine is marked as
running exactly while there is one; when nobody can go on and nobody owns the registers there is
none.  A call to start that is heard while there is no run begins one, which is not cancelled.
Otherwise it returns at once and the active run goes on; that run is not cancelled exactly if there
was no run at some moment since the last call to stop was heard. -/
theorem Reachable.start_heard (h : c.Reachable m) (hauto : m.settings.drive = .auto) :
    (∀ i j e e', c.ledger.run? i = some e → c.ledger.run? j = some e' → i = j) ∧
    (c.running = true ↔ ∃ id e, c.ledger.run? id = some e) ∧
    (c.quiet → c.lock.owner = none → c.running = false) ∧
    ∀ s rest, c.ready = s :: rest → c.phase? s = some (.issued .start) →
      (c.running = false → (c.step m).ledger.run? s = some (c.step m).epoch) ∧
      (c.running = true →
        (c.step m).stage.milestones = .returned s (.ok ()) :: c.stage.milestones ∧
        ∃ id e, (c.step m).ledger.run? id = some e ∧
          (e = (c.step m).epoch ↔ ∃ c₀ : Config, c₀.Reachable m ∧ ReflTransGen (Move m) c₀ c ∧
            c₀.running = false ∧ c₀.epoch = c.epoch)) := by
  have hruns := h.runs
  refine ⟨?_, ⟨hruns.active, ?_⟩, h.running_of_quiet, ?_⟩
  · intro i j e e' hi hj
    exact hruns.unique hi hj
  · rintro ⟨id, e, hrun⟩
    exact hruns.running hrun
  · intro s rest hready hs
    obtain ⟨events, hdeed⟩ := h.ordered.deed (m := m) hready
    rcases hdeed.starts hs hauto with ⟨hidle, -, hepoch, hrun⟩ | ⟨hrunning, rfl, hepoch⟩
    · constructor
      · intro _
        exact hrun.trans (congrArg some hepoch.symm)
      · intro hrunning
        cases hidle.symm.trans hrunning
    · constructor
      · intro hidle
        cases hrunning.symm.trans hidle
      · intro _
        refine ⟨hdeed.milestones, ?_⟩
        -- the run that is active is somebody else, and goes on
        obtain ⟨id, e, hrun⟩ := hruns.active hrunning
        have hne : id ≠ s := by
          rintro rfl
          cases (Ledger.run?_of_phases (l := c.ledger) hs).symm.trans hrun
        have hepoch' : (c.step m).epoch = c.epoch := hepoch
        refine ⟨id, e, (hdeed.run?_of_ne hne).trans hrun, ?_⟩
        rw [hepoch']
        constructor
        · rintro rfl
          exact h.begun_of_run? hrun
        · rintro ⟨c₀, h₀, hmoves, hidle, hsame⟩
          exact h₀.run?_of_idle hmoves hidle hsame hrun

/-! ### A call to start that comes to nothing -/

/-- A machine that vibrates for ten milliseconds and comments. -/
def oneVibration : Machine where
  program := ⟨[⟨{ action := .vibrate }, none⟩, ⟨{ action := .comment "over" }, none⟩], {}⟩
  haptics := some ⟨10000000⟩

/-- A run vibrates, a call to stop waits for it, and a call to start has come. -/
def startingAgain : Config :=
  (((fresh oneVibration {} {}).issue .start).settle oneVibration 20 |>.issue .stop).settle
    oneVibration 20 |>.issue .start

theorem reachable_startingAgain : startingAgain.Reachable oneVibration :=
  ((((Reachable.fresh {} {}).issue .start).settle 20).issue .stop).settle 20 |>.issue .start

/-- The call to start returns because of the run that was cancelled, and that run ends after the
vibration: the machine is at rest before its first step. -/
theorem loses_start : startingAgain.Reachable oneVibration ∧
    startingAgain.phase? 2 = some (.issued .start) ∧
    (startingAgain.step oneVibration).stage.milestones
      = .returned 2 (.ok ()) :: startingAgain.stage.milestones ∧
    startingAgain.ledger.run? 0 = some 0 ∧ startingAgain.epoch = 1 ∧
    (((startingAgain.settle oneVibration 20).tick 10).settle oneVibration 20).stage.milestones
      = [.returned 0 (.ok ()), .returned 1 (.ok ()), .rewound 1, .published ⟨0, "vibrate-0"⟩,
        .ended 0 0 .advance] ++ (startingAgain.settle oneVibration 20).stage.milestones ∧
    (((startingAgain.settle oneVibration 20).tick 10).settle oneVibration 20).tasks.isEmpty ∧
    (((startingAgain.settle oneVibration 20).tick 10).settle oneVibration 20).registers = {} := by
  refine ⟨reachable_startingAgain, ?_, ?_, ?_, ?_, ?_, ?_, ?_⟩
  · cbv
  · cbv
  · cbv
  · cbv
  · cbv
  · cbv
  · cbv

theorem start_heard_oneVibration :
    (startingAgain.step oneVibration).stage.milestones
      = .returned 2 (.ok ()) :: startingAgain.stage.milestones ∧
    ∃ id e, (startingAgain.step oneVibration).ledger.run? id = some e ∧
      (e = (startingAgain.step oneVibration).epoch ↔ ∃ c₀ : Config, c₀.Reachable oneVibration ∧
        ReflTransGen (Move oneVibration) c₀ startingAgain ∧ c₀.running = false ∧
        c₀.epoch = startingAgain.epoch) := by
  have hready : startingAgain.ready = [2] := by cbv
  have hs : startingAgain.phase? 2 = some (.issued .start) := by cbv
  have hrunning : startingAgain.running = true := by cbv
  exact ((reachable_startingAgain.start_heard rfl).2.2.2 2 [] hready hs).2 hrunning

end Config

end Timeline
