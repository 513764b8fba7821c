/-
Timeline/Proofs/Machine/Joins.lean

Targets that are moved together.

A step departs when its tweens are about to be resolved (`Config.Departs`).  `Config.Joined`
says what has become of it since: each target is written as its animation asks, and the
step is executed until the last of the animations is over.

Main result (`Config.Departs.moves_together`): targets that are moved together are written as each
of them would be alone, in whatever order they stand; the step comes to its end, just when
the last one of them would alone; and a single target is moved together with no others as
it is moved alone.
-/
import Timeline.Proofs.Machine.Convoys
import Timeline.Proofs.Machine.Singles

namespace Timeline

open Relation Stage

/-- By a time the animations of some tweens are over that began on a stage. -/
def Stage.AllOver (b : Stage) (ts : List Tween) (time : Nat) : Prop :=
  ∀ t ∈ ts, ∀ m, t.motion? b = some m → m.OverBy b.driver.frame time

namespace Config

variable {m m' : Machine} {b : Stage} {c c' d d' : Config} {id id' index index' : Nat}
  {ts ts' : List Tween}

/-- A call is about to resolve the tweens of a step, at once and all to some animation, and it has
nobody to share the targets with. -/
structure Departs (m : Machine) (c : Config) (id index : Nat) (ts : List Tween) : Prop where
  reachable : c.Reachable m
  head : c.ready.head? = some id
  begins : ∃ who step, m.program.step? index = some step ∧ step.action.Moves ts ∧
    c.phase? id = some (.stepping who index (m.begin index step.action c.registers).2)
  calm : c.Calm
  frame : 0 < c.stage.driver.frame.nanos
  distinct : (ts.map Tween.target).Nodup
  quick : ∀ t ∈ ts, t.Quick c.stage.sight
  found : ∀ t ∈ ts, (t.motion? c.stage).isSome

/-- Nobody can go on in a step, or it is over. -/
def Settled (c : Config) (id index : Nat) : Prop :=
  c.quiet ∨ ¬ c.Executes id index

/-- What has become of a step and its targets since its tweens were resolved on a stage. -/
structure Joined (b : Stage) (id index : Nat) (ts : List Tween) (c : Config) : Prop where
  since : b.now ≤ c.stage.now
  /-- All other targets are left alone. -/
  others : ∀ target, target ∉ ts.map Tween.target →
    c.stage.driver.get? target = b.driver.get? target ∧ c.stage.writes target = b.writes target
  /-- Each target is written as its animation alone asks. -/
  written : c.Settled id index → ∀ t ∈ ts, ∀ m, t.motion? b = some m →
    c.stage.writes t.target
        = (m.writesUntil b.driver.frame c.stage.now).reverse ++ b.writes t.target ∧
      c.stage.driver.get? t.target
        = (m.writesUntil b.driver.frame c.stage.now).getLast?.map Prod.snd
  /-- The step is executed no longer than until all animations are over. -/
  before : ∀ time, b.now ≤ time → time < c.stage.now → ¬ b.AllOver ts time
  busy : c.quiet → c.Executes id index → ¬ b.AllOver ts c.stage.now
  /-- It is over when all animations are. -/
  ended : ¬ c.Executes id index → b.AllOver ts c.stage.now ∧
    ∃ r ∈ c.stage.journal, r.time = c.stage.now ∧ r.event = .ended id index .advance

/-! ### One step -/

section Motions

variable {ms : List (Motion Float)} (hmotions : ts.map (Tween.motion? b) = ms.map some)

include hmotions

theorem allOver_iff {time : Nat} : b.AllOver ts time ↔ ∀ m ∈ ms, m.OverBy b.driver.frame time := by
  refine ⟨fun h m hm => ?_, fun h t ht m hm => ?_⟩
  · obtain ⟨t, ht, heq⟩ := Tween.of_mem_motions hmotions hm
    exact h t ht m heq
  · obtain ⟨m', hm', heq⟩ := Tween.mem_motions hmotions ht
    obtain rfl := Option.some.inj (heq.symm.trans hm)
    exact h m' hm'

/-- Rides that are on track leave all other targets alone. -/
theorem others_of_onTrack {rides : Convoy} {s : Stage} (h : Convoy.OnTrack ms b rides s)
    (target : String) (hnot : target ∉ ts.map Tween.target) :
    s.driver.get? target = b.driver.get? target ∧ s.writes target = b.writes target := by
  rw [← Tween.targets_motions hmotions] at hnot
  exact ⟨by rw [Driver.get?, Driver.get?, h.slots target hnot], h.writes target hnot⟩

/-- Rides that are on track and wait, or are over, have written what their animations ask. -/
theorem written_of_onTrack {rides : Convoy} {s : Stage} (h : Convoy.OnTrack ms b rides s)
    (hrest : ∀ r, .busy r ∈ rides → r.Waits s.now) (t : Tween) (ht : t ∈ ts) (m : Motion Float)
    (hm : t.motion? b = some m) :
    s.writes t.target = (m.writesUntil b.driver.frame s.now).reverse ++ b.writes t.target ∧
      s.driver.get? t.target = (m.writesUntil b.driver.frame s.now).getLast?.map Prod.snd := by
  obtain ⟨m', hmem, hm'⟩ := Tween.mem_motions hmotions ht
  obtain rfl : m' = m := Option.some.inj (hm'.symm.trans hm)
  obtain ⟨i, hi⟩ := List.mem_iff_getElem?.1 hmem
  have hlt : i < rides.length := h.length ▸ (List.getElem?_eq_some_iff.1 hi).1
  have hsettled := (h.rides i m' _ hi (List.getElem?_eq_getElem hlt)).settled
    fun r hr => hrest r (hr ▸ List.getElem_mem hlt)
  rwa [(Tween.of_motion? hm).2.1] at hsettled

/-- Where a step is under way that has departed from a stage. -/
theorem joined_of_underway {who : Stepper} {rides : Convoy}
    (h : Underway ms b id index who rides c) : c.Joined b id index ts where
  since := h.track.begun
  others := others_of_onTrack hmotions h.track
  written hsettled := by
    have hquiet := hsettled.resolve_right (not_not_intro h.executes)
    exact written_of_onTrack hmotions h.track
      (h.goes.resolve_left (not_goes_of_quiet hquiet id))
  before time _ hlt hover := by
    obtain ⟨m, hm, hnot⟩ := h.last hlt
    exact hnot ((allOver_iff hmotions).1 hover m hm)
  busy hquiet _ hover := by
    obtain ⟨r, hr⟩ := h.busy
    obtain ⟨a, ha, -, hlt⟩ := h.goes.resolve_left (not_goes_of_quiet hquiet id) r hr
    obtain ⟨i, hi⟩ := List.mem_iff_getElem?.1 hr
    have hlength : i < ms.length := h.track.length ▸ (List.getElem?_eq_some_iff.1 hi).1
    have hride := h.track.rides i _ _ (List.getElem?_eq_getElem hlength) hi
    exact hride.not_overBy ha hlt ((allOver_iff hmotions).1 hover _ (List.getElem_mem hlength))
  ended hended := absurd h.executes hended

/-- Where a step is over that has departed from a stage. -/
theorem joined_of_arrived (h : Arrived ms b id index c) : c.Joined b id index ts := by
  obtain ⟨rides, htrack, hover⟩ := h.rides
  refine ⟨htrack.begun, others_of_onTrack hmotions htrack,
    fun _ => written_of_onTrack hmotions htrack ?_, ?_,
    fun _ hexecutes => absurd hexecutes h.ended, fun _ => ⟨(allOver_iff hmotions).2 ?_, h.record⟩⟩
  · intro r hr
    cases hover _ hr
  · intro time hle hlt hall
    obtain ⟨m, hm, hnot⟩ := h.last time hle hlt
    exact hnot ((allOver_iff hmotions).1 hall m hm)
  · intro m hm
    obtain ⟨i, hi⟩ := List.mem_iff_getElem?.1 hm
    have hlt : i < rides.length := htrack.length ▸ (List.getElem?_eq_some_iff.1 hi).1
    have hride := htrack.rides i m _ hi (List.getElem?_eq_getElem hlt)
    rw [hover _ (List.getElem_mem hlt)] at hride
    exact hride.overBy

end Motions

/-! ### The course of a step -/

section Course

variable {ms : List (Motion Float)}

theorem Departs.launches (h : c.Departs m id index ts)
    (hmotions : ts.map (Tween.motion? c.stage) = ms.map some) : Launches ms c.stage where
  starts m hm := by
    obtain ⟨t, -, heq⟩ := Tween.of_mem_motions hmotions hm
    exact (Tween.of_motion? heq).2.2
  distinct := by
    rw [Tween.targets_motions hmotions]
    exact h.distinct
  frame := h.frame

/-- The tweens are resolved and the animations begin. -/
theorem Departs.first (h : c.Departs m id index ts)
    (hmotions : ts.map (Tween.motion? c.stage) = ms.map some) :
    (∃ who rides, Underway ms c.stage id index who rides (c.step m)) ∨
      Arrived ms c.stage id index (c.step m) := by
  obtain ⟨who, step, -, hmoves, hphase⟩ := h.begins
  rw [Machine.begin_moves hmoves] at hphase
  obtain ⟨rest, hready⟩ := List.head?_eq_some_iff.1 h.head
  have hlaunches := h.launches hmotions
  obtain ⟨s, hconsults, hpoll⟩ := Activity.poll_tweens h.quick hmotions
  have htrack := Convoy.OnTrack.start (s := s) hlaunches.starts hconsults.now hconsults.driver
    hconsults.writes
  exact (hlaunches.visit (m := m) h.calm hready hphase hpoll htrack hconsults.now
    fun time hle hlt => absurd (Nat.lt_of_le_of_lt hle hlt) (Nat.lt_irrefl _)).imp_left
    fun hunderway => ⟨who, hunderway⟩

theorem Departs.course (h : c.Departs m id index ts)
    (hmotions : ts.map (Tween.motion? c.stage) = ms.map some)
    (hunfolds : Unfolds m id index (c.step m) c') :
    c'.Reachable m ∧ ((∃ who rides, Underway ms c.stage id index who rides c') ∨
      Arrived ms c.stage id index c') := by
  induction hunfolds with
  | refl => exact ⟨h.reachable.move .step, h.first hmotions⟩
  | tail _ hmove ih =>
    obtain ⟨hreach, ⟨who, rides, hunderway⟩ | harrived⟩ := ih
    · refine ⟨hreach.move hmove.2.move, ?_⟩
      exact (hunderway.move (h.launches hmotions) hreach hmove.2).imp_left fun h => ⟨who, h⟩
    · exact absurd hmove.1 harrived.ended

/-- What becomes of a step that has departed. -/
theorem Departs.joined (h : c.Departs m id index ts) (hunfolds : Unfolds m id index (c.step m) c') :
    c'.Joined c.stage id index ts := by
  obtain ⟨ms, hmotions⟩ := Tween.exists_motions h.found
  obtain ⟨-, ⟨who, rides, hunderway⟩ | harrived⟩ := h.course hmotions hunfolds
  · exact joined_of_underway hmotions hunderway
  · exact joined_of_arrived hmotions harrived

/-- Undisturbed, a step that has departed comes to its end. -/
theorem Departs.ends (h : c.Departs m id index ts) (hunfolds : Unfolds m id index (c.step m) c') :
    ∃ c'', ReflTransGen (fun c c' => c.Executes id index ∧ Undisturbed m c c') c' c'' ∧
      ¬ c''.Executes id index := by
  obtain ⟨ms, hmotions⟩ := Tween.exists_motions h.found
  obtain ⟨hreach, ⟨who, rides, hunderway⟩ | harrived⟩ := h.course hmotions hunfolds
  · obtain ⟨c'', hmoves, harrived⟩ := hunderway.ends (h.launches hmotions) hreach
    exact ⟨c'', hmoves, harrived.ended⟩
  · exact ⟨c', .refl, harrived.ended⟩

end Course

/-! ### Two steps that move some of the same targets -/

/-- Since two stages a target was written with the same values at the same times on two others. -/
def WrittenAlike (target : String) (b s b' s' : Stage) : Prop :=
  s'.driver.get? target = s.driver.get? target ∧
    ∃ new, s.writes target = new ++ b.writes target ∧ s'.writes target = new ++ b'.writes target

/-- Two steps have come equally far: to one moment at which nobody can go on, or to their ends. -/
def Abreast (id index : Nat) (c : Config) (id' index' : Nat) (c' : Config) : Prop :=
  c.quiet ∧ c'.quiet ∧ c'.stage.now = c.stage.now ∨
    ¬ c.Executes id index ∧ ¬ c'.Executes id' index'

section Two

variable (h : c.Departs m id index ts) (hunfolds : Unfolds m id index (c.step m) c')
  (hother : d.Departs m' id' index' ts') (hunfolds' : Unfolds m' id' index' (d.step m') d')
  (halike : c.stage.Alike d.stage)

include h hother halike

/-- A tween that stands in two steps has one animation, which is over at one time in both. -/
theorem Departs.alike {t : Tween} (ht : t ∈ ts) (ht' : t ∈ ts') :
    ∃ n n', t.motion? c.stage = some n ∧ t.motion? d.stage = some n' ∧ n.Alike n' := by
  obtain ⟨n, hn⟩ := Option.isSome_iff_exists.1 (h.found t ht)
  obtain ⟨n', hn'⟩ := Option.isSome_iff_exists.1 (hother.found t ht')
  exact ⟨n, n', hn, hn', (h.quick t ht).alike halike hn hn'⟩

theorem Departs.allOver (hsub : ts' ⊆ ts) {time : Nat} (hover : c.stage.AllOver ts time) :
    d.stage.AllOver ts' time := by
  intro t ht' m' hm'
  obtain ⟨n, n', hn, hn', hsame⟩ := h.alike hother halike (hsub ht') ht'
  obtain rfl : n' = m' := Option.some.inj (hn'.symm.trans hm')
  rw [halike.frame]
  exact hsame.overBy_iff.1 (hover t (hsub ht') n hn)

include hunfolds hunfolds'

/-- Each target is written alike in two steps. -/
theorem Departs.writtenAlike {t : Tween} (ht : t ∈ ts) (ht' : t ∈ ts')
    (habreast : Abreast id index c' id' index' d') :
    WrittenAlike t.target c.stage c'.stage d.stage d'.stage := by
  have hjoined := h.joined hunfolds
  have hjoined' := hother.joined hunfolds'
  obtain ⟨n, n', hn, hn', hsame⟩ := h.alike hother halike ht ht'
  have hsettled : c'.Settled id index ∧ d'.Settled id' index' := by
    rcases habreast with ⟨hquiet, hquiet', -⟩ | ⟨hended, hended'⟩
    · exact ⟨.inl hquiet, .inl hquiet'⟩
    · exact ⟨.inr hended, .inr hended'⟩
  obtain ⟨hwrites, hvalue⟩ := hjoined.written hsettled.1 t ht n hn
  obtain ⟨hwrites', hvalue'⟩ := hjoined'.written hsettled.2 t ht' n' hn'
  have htrack : n'.writesUntil d.stage.driver.frame d'.stage.now
      = n.writesUntil c.stage.driver.frame c'.stage.now := by
    rw [halike.frame, ← hsame.writesUntil]
    rcases habreast with ⟨-, -, hnow⟩ | ⟨hended, hended'⟩
    · rw [hnow]
    · -- both have written all that they ever write
      have hover := (hjoined.ended hended).1 t ht n hn
      have hover' := (hjoined'.ended hended').1 t ht' n' hn'
      rw [halike.frame, ← hsame.overBy_iff] at hover'
      exact hover'.writesUntil_eq hover
  rw [htrack] at hwrites' hvalue'
  exact ⟨hvalue'.trans hvalue.symm, _, hwrites, hwrites'⟩

/-- Fewer targets are not moved for a longer time. -/
theorem Departs.now_le (hsub : ts' ⊆ ts) (hended : ¬ c'.Executes id index) :
    d'.stage.now ≤ c'.stage.now := by
  by_contra hlate
  have hjoined := h.joined hunfolds
  have hover := h.allOver hother halike hsub (hjoined.ended hended).1
  exact (hother.joined hunfolds').before _ (halike.now ▸ hjoined.since) (Nat.lt_of_not_le hlate) hover

/-- The order of the tweens does not matter. -/
theorem Departs.now_eq (hperm : ts.Perm ts') (hended : ¬ c'.Executes id index)
    (hended' : ¬ d'.Executes id' index') : d'.stage.now = c'.stage.now := by
  have hback : d.stage.Alike c.stage := ⟨halike.now.symm, halike.frame.symm, halike.sight.symm⟩
  exact Nat.le_antisymm
    (h.now_le hunfolds hother hunfolds' halike (fun _ => hperm.mem_iff.2) hended)
    (hother.now_le hunfolds' h hunfolds hback (fun _ => hperm.mem_iff.1) hended')

end Two

/-- One of the animations is not over before the step is. -/
theorem Joined.exists_last (h : c.Joined b id index ts) (hne : ts ≠ []) :
    ∃ t ∈ ts, ∀ n, t.motion? b = some n → ∀ time, b.now ≤ time → time < c.stage.now →
      ¬ n.OverBy b.driver.frame time := by
  rcases Nat.lt_or_ge b.now c.stage.now with hlt | hge
  · have hnot := h.before (c.stage.now - 1) (by omega) (by omega)
    unfold AllOver at hnot
    push Not at hnot
    obtain ⟨t, ht, n, hn, hlate⟩ := hnot
    refine ⟨t, ht, fun n' hn' time _ htime hover => hlate ?_⟩
    obtain rfl : n = n' := Option.some.inj (hn.symm.trans hn')
    exact hover.mono (by omega)
  · obtain ⟨t, ht⟩ := List.exists_mem_of_ne_nil ts hne
    exact ⟨t, ht, fun _ _ time hle htime => by omega⟩

/-- **Targets that are moved together** do not mind each other.  A step departs with tweens for
targets of its own whose operands answer at once, always in the same way, and from then on nobody
outside writes or animates a target.  Each of its targets is written as its animation asks and all
others are left alone; the step is executed until the last of its animations is over, and undisturbed
it comes to that.

Another step may depart at one moment with some of the same tweens, with only one of them for
instance or with all of them in another order: then the targets of both are written alike.  With no
other tweens it is over no later, with the same ones at the same time, and one of the tweens takes
as long alone.  To move a single target together with no others is to move it: such steps begin
alike, and machines that differ in nothing else do the same. -/
theorem Departs.moves_together (h : c.Departs m id index ts)
    (hunfolds : Unfolds m id index (c.step m) c') :
    c'.Joined c.stage id index ts ∧
      (∃ c'', ReflTransGen (fun c c' => c.Executes id index ∧ Undisturbed m c c') c' c'' ∧
        ¬ c''.Executes id index) ∧
      (∀ {m' : Machine} {d d' : Config} {id' index' : Nat} {ts' : List Tween},
        d.Departs m' id' index' ts' → c.stage.Alike d.stage →
        Unfolds m' id' index' (d.step m') d' →
        (∀ t ∈ ts, t ∈ ts' → Abreast id index c' id' index' d' →
          WrittenAlike t.target c.stage c'.stage d.stage d'.stage) ∧
        (¬ c'.Executes id index → ts' ⊆ ts → d'.stage.now ≤ c'.stage.now) ∧
        (¬ c'.Executes id index → ¬ d'.Executes id' index' → ts.Perm ts' →
          d'.stage.now = c'.stage.now)) ∧
      (¬ c'.Executes id index → ts ≠ [] → ∃ t ∈ ts,
        ∀ {m' : Machine} {d d' : Config} {id' index' : Nat},
          d.Departs m' id' index' [t] → c.stage.Alike d.stage →
          Unfolds m' id' index' (d.step m') d' → ¬ d'.Executes id' index' →
          d'.stage.now = c'.stage.now) ∧
      (∀ (t : Tween) (index : Nat) (r : Registers),
        m.begin index (.parallel [t]) r = m.begin index (.move t) r) ∧
      ∀ m', m.Resembles m' → ∀ c : Config, c.step m' = c.step m := by
  have hjoined := h.joined hunfolds
  refine ⟨hjoined, h.ends hunfolds, fun hother halike hunfolds' => ⟨fun t ht ht' habreast =>
      h.writtenAlike hunfolds hother hunfolds' halike ht ht' habreast,
    fun hended hsub => h.now_le hunfolds hother hunfolds' halike hsub hended,
    fun hended hended' hperm =>
      h.now_eq hunfolds hother hunfolds' halike hperm hended hended'⟩, ?_,
    fun _ _ _ => rfl, fun m' hresembles => hresembles.step⟩
  intro hended hne
  obtain ⟨t, ht, hlast⟩ := hjoined.exists_last hne
  refine ⟨t, ht, fun {m' d d' id' index'} hother halike hunfolds' hended' => ?_⟩
  have hle := h.now_le hunfolds hother hunfolds' halike
    (fun _ hmem => List.mem_singleton.1 hmem ▸ ht) hended
  refine Nat.le_antisymm hle (Nat.le_of_not_lt fun hlt => ?_)
  -- alone, it would be over too early
  obtain ⟨n, n', hn, hn', hsame⟩ := h.alike hother halike ht List.mem_cons_self
  have hjoined' := hother.joined hunfolds'
  have hover := (hjoined'.ended hended').1 t List.mem_cons_self n' hn'
  rw [halike.frame, ← hsame.overBy_iff] at hover
  exact hlast n hn _ (halike.now ▸ hjoined'.since) hlt hover

/-! ### Two targets -/

/-- A target that is moved for some time, and one that is moved at once by as much as a function
tells. -/
def pair : List Tween :=
  [⟨"x", .absolute (.literal (.num (.int 1))), .literal (.num (.int 40)), none, false⟩,
    ⟨"y", .inc (.named "shift"), .literal (.num (.int 0)), none, false⟩]

/-- A machine that moves them together. -/
def pairing : Machine where
  program := ⟨[⟨{ action := .parallel pair }, none⟩], {}⟩

/-- The function. -/
def shift : Handler := fun _ _ => .read "x" fun x => .value (.num (.float (x.getD 0)))

/-- The machine before the tweens are resolved. -/
def departing : Config :=
  ((fresh pairing (.ofValues [("x", 0), ("y", 0)] 16) (.ofList [("shift", shift)])).issue
    .start).settle pairing 3

theorem tasks_departing : departing.tasks = [(0, .stepping (.run 0) 0 (.tweens pair))] :=
  rfl

theorem departs_departing : departing.Departs pairing 0 0 pair where
  reachable := ((Reachable.fresh _ _).issue .start).settle 3
  head := by decide +kernel
  begins := by
    refine ⟨.run 0, { action := .parallel pair }, rfl, .parallel pair, ?_⟩
    rw [phase?, tasks_departing]
    rfl
  calm j phase h := by
    obtain ⟨before, after, htasks, -⟩ := List.lookup_eq_some_iff.1 h
    have hmem : (j, phase) ∈ departing.tasks :=
      htasks ▸ List.mem_append_right _ List.mem_cons_self
    rw [tasks_departing] at hmem
    obtain ⟨-, rfl⟩ := Prod.mk.inj (List.mem_singleton.1 hmem)
    rfl
  frame := by decide
  distinct := by decide
  quick t ht := by
    rcases List.mem_cons.1 ht with rfl | ht
    · exact ⟨trivial, trivial⟩
    · obtain rfl := List.mem_singleton.1 ht
      refine ⟨fun handler hhandler => ?_, trivial⟩
      obtain rfl : shift = handler := Option.some.inj hhandler
      exact ⟨_, .read _ _ fun _ => .done _, fun _ => rfl⟩
  found := by decide +kernel

theorem moves_together_pair : departing.Departs pairing 0 0 pair ∧
    (departing.step pairing).Joined departing.stage 0 0 pair ∧
    ∃ c, ReflTransGen (fun c c' => c.Executes 0 0 ∧ Undisturbed pairing c c')
      (departing.step pairing) c ∧ ¬ c.Executes 0 0 := by
  obtain ⟨hjoined, hends, -⟩ := departs_departing.moves_together .refl
  exact ⟨departs_departing, hjoined, hends⟩

/-! ### A function that counts -/

/-- A function that neither waits nor writes, and tells how often it was called. -/
def counter : Handler := fun n _ => .value (.num (.int n))

/-- Two targets that it moves. -/
def counted (first second : String) : List Tween :=
  [⟨first, .absolute (.named "counter"), .literal (.num (.int 0)), none, false⟩,
    ⟨second, .absolute (.named "counter"), .literal (.num (.int 0)), none, false⟩]

/-- A machine that moves them together. -/
def counting (first second : String) : Machine where
  program := ⟨[⟨{ action := .parallel (counted first second) }, none⟩], {}⟩

/-- The machine after a run. -/
def ranCounting (first second : String) : Config :=
  ((fresh (counting first second) (.ofValues [("x", 0), ("y", 0)] 16)
    (.ofList [("counter", counter)])).issue .start).settle (counting first second) 20

/-- Where operands are resolved by a function that counts its calls, the order of the tweens does
matter. -/
theorem counter_minds_order : (∀ n arg, (counter n arg).Prompt) ∧
    ((counted "x" "y").map Tween.target).Nodup ∧ (counted "x" "y").Perm (counted "y" "x") ∧
    (ranCounting "x" "y").tasks = [] ∧ (ranCounting "y" "x").tasks = [] ∧
    (ranCounting "x" "y").stage.writes "x" = [(0, 1)] ∧
    (ranCounting "y" "x").stage.writes "x" = [(0, 2)] :=
  ⟨fun _ _ => .done _, by decide, .swap _ _ _, List.isEmpty_iff.1 (by decide +kernel),
    List.isEmpty_iff.1 (by decide +kernel), by decide +kernel, by decide +kernel⟩

end Config

end Timeline
