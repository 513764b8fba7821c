/-
Timeline/Proofs/Machine/Holds.lean

Parked holds stand in nobody's way.

A parked hold keeps the registers, and a call that could release it may have
looked for a hold before it was parked.  Main result
(`Config.Reachable.no_control_behind_hold`): whenever nobody can go on, no call
that could release a hold waits behind one.  If such a call waits at all, the
owner of the registers executes a step that is no `hold` and has an alarm to
wait for.
-/
import Mathlib
import Timeline.Proofs.Machine.Underway

namespace Timeline

namespace Config

variable {m : Machine} {c : Config} {id : Nat}

/-- While nobody can go on, whoever waits in the queue is neither handed the registers nor
notified. -/
theorem Ordered.queued_of_quiet (h : c.Ordered) (hquiet : c.quiet) {purpose : Purpose}
    (hphase : c.phase? id = some (.queued purpose)) :
    c.lock.owner ≠ some id ∧ id ∈ c.lock.queue ∧ id ∉ c.signal.notified ∧
      (id ∈ c.signal.listeners ↔ purpose.release?.isSome) := by
  have hqueued := h.queued (role_of_phase? hphase)
  have hidle : id ∉ c.ready := by simp [(ready_of_quiet hquiet).1]
  have hnotified : id ∉ c.signal.notified := fun hn => hidle (hqueued.woken hn)
  obtain ⟨howner, hqueue⟩ := hqueued.waits.resolve_left fun hw => hidle hw.2.1
  refine ⟨howner, hqueue, hnotified, ?_⟩
  rw [← hqueued.listens]
  exact ⟨.inl, fun hl => hl.resolve_right hnotified⟩

/-- **No lost signal.**  While nobody can go on, nobody who could release a hold waits if there is
one. -/
theorem Ordered.hold_eq_none_of_waiting (h : c.Ordered) (hquiet : c.quiet) {purpose : Purpose}
    (hphase : c.phase? id = some (.queued purpose)) (hcontrol : purpose.release?.isSome) :
    c.hold = none := by
  obtain ⟨hready, hyielded⟩ := ready_of_quiet hquiet
  by_contra hhold
  have hlisten : id ∈ c.signal.listeners := (h.queued_of_quiet hquiet hphase).2.2.2.2 hcontrol
  rcases h.heard hhold (List.ne_nil_of_mem hlisten) with hnotified | ⟨j, rests, hrole⟩
  · -- a notified listener could go on
    obtain ⟨j, hj⟩ := List.exists_mem_of_ne_nil _ hnotified
    have hfits := h.fits j
    rcases hrole : c.role j with - | ⟨_, _⟩ | _ | ⟨_, _⟩ <;> rw [hrole] at hfits
    · exact hfits.2.2.notified hj
    · exact hfits.2.notified hj
    · have hgoes : j ∈ c.ready := hfits.woken hj
      simp [hready] at hgoes
    · exact hfits.notified hj
  · -- somebody about to release the hold could go on
    have hfits := h.fits j
    rw [hrole] at hfits
    have hgoes : ¬ (j ∈ c.ready ∨ j ∈ c.yielded) := by simp [hready, hyielded]
    have hrests : rests = true := by
      rcases hfits.1 with hr | hy | hrests
      · exact absurd (.inl hr) hgoes
      · exact absurd (.inr hy) hgoes
      · exact hrests
    exact not_rests_of_releases (hrests ▸ hrole)

/-- While nobody can go on and somebody waits for the registers, their owner executes a step. -/
theorem Ordered.owner_of_quiet (h : c.Ordered) (hquiet : c.quiet) (hqueue : id ∈ c.lock.queue) :
    ∃ owner who index activity, c.lock.owner = some owner ∧
      c.phase? owner = some (.stepping who index activity) ∧
      (activity = .holding none ∧ c.hold = some owner ∨ activity.alarms ≠ []) := by
  obtain ⟨hready, hyielded⟩ := ready_of_quiet hquiet
  rcases howner : c.lock.owner with - | owner
  · have hfree : c.lock.queue = [] := h.free howner
    rw [hfree] at hqueue
    cases hqueue
  · have hfits := h.fits owner
    have howns : (c.roster.standing owner).owner := howner
    have hidle : ¬ owner ∈ c.ready := by simp [hready]
    rcases hrole : c.role owner with - | ⟨_, _⟩ | _ | ⟨parked, rests⟩ <;> rw [hrole] at hfits
    · exact absurd howns hfits.2.2.owner
    · exact absurd howns hfits.2.owner
    · exact absurd (hfits.waits.resolve_right fun hw => hw.1 howns).2.1 hidle
    · obtain ⟨who, index, activity, hphase⟩ := phase?_of_role_owner hrole
      refine ⟨owner, who, index, activity, rfl, hphase, ?_⟩
      by_cases hhold : activity = .holding none
      · subst hhold
        rw [role_of_phase? hphase] at hrole
        cases hrole
        exact .inl ⟨rfl, hfits.parked.2 rfl⟩
      · rw [role_of_phase? hphase, Phase.role_stepping hhold] at hrole
        cases hrole
        have hyield : ¬ owner ∈ c.yielded := by simp [hyielded]
        have := (hfits.rests.resolve_left hidle).resolve_left hyield
        exact .inr (by simpa using this)

/-- **No control call is stuck behind a hold.**  Whenever nobody can go on, no call that could
release a hold waits for the registers while one is parked.  So if such a call waits, the owner of
the registers executes a step that is no hold, and waits for an alarm. -/
theorem Reachable.no_control_behind_hold (h : c.Reachable m) (hquiet : c.quiet) :
    (∀ holder who index, c.phase? holder = some (.stepping who index (.holding none)) →
      ∀ id purpose, c.phase? id = some (.queued purpose) → purpose.release? = none) ∧
    ∀ id purpose, c.phase? id = some (.queued purpose) → purpose.release?.isSome →
      ∃ owner who index activity step, c.lock.owner = some owner ∧
        c.phase? owner = some (.stepping who index activity) ∧
        m.program.step? index = some step ∧ step.action ≠ .hold ∧
        (Phase.stepping who index activity).alarm?.isSome := by
  have hordered := h.ordered
  constructor
  · intro holder who index hholder id purpose hphase
    have hhold : c.hold = some holder :=
      (hordered.owner (role_of_phase? hholder)).parked.2 rfl
    by_contra hcontrol
    have hnone := hordered.hold_eq_none_of_waiting hquiet hphase
      (Option.isSome_iff_ne_none.2 hcontrol)
    rw [hhold] at hnone
    cases hnone
  · intro id purpose hphase hcontrol
    have hnone := hordered.hold_eq_none_of_waiting hquiet hphase hcontrol
    obtain ⟨owner, who, index, activity, howner, hstepping, hrest⟩ :=
      hordered.owner_of_quiet hquiet (hordered.queued_of_quiet hquiet hphase).2.1
    have halarms : activity.alarms ≠ [] := by
      refine hrest.resolve_left fun ⟨_, hhold⟩ => ?_
      rw [hnone] at hhold
      cases hhold
    obtain ⟨-, ⟨step, hstep, hiff⟩, -⟩ := h.sound.phases hstepping
    refine ⟨owner, who, index, activity, step, howner, hstepping, hstep, fun haction => ?_,
      Alarm.isSome_first? halarms⟩
    obtain ⟨release, rfl⟩ := hiff.1 haction
    exact halarms rfl

/-- A machine whose only step vibrates for a millisecond. -/
def vibrating : Machine :=
  { program := ⟨[⟨{ action := .vibrate }, none⟩], {}⟩, haptics := some ⟨1000000⟩ }

/-- A reset was asked for while the machine vibrates. -/
def resetWhileVibrating : Config :=
  ((((fresh vibrating {} {}).issue .start).settle vibrating 9).issue .reset).settle vibrating 9

theorem no_control_behind_hold_vibrating :
    resetWhileVibrating.Reachable vibrating ∧ resetWhileVibrating.quiet ∧
      resetWhileVibrating.phase? 1 = some (.queued .rewind) ∧
      ∃ owner who index activity step, resetWhileVibrating.lock.owner = some owner ∧
        resetWhileVibrating.phase? owner = some (.stepping who index activity) ∧
        vibrating.program.step? index = some step ∧ step.action ≠ .hold ∧
        (Phase.stepping who index activity).alarm?.isSome := by
  have hreach : resetWhileVibrating.Reachable vibrating :=
    ((((Reachable.fresh {} {}).issue .start).settle 9).issue .reset).settle 9
  have hquiet : resetWhileVibrating.quiet = true := by cbv
  have hwaits : resetWhileVibrating.phase? 1 = some (.queued .rewind) := by cbv
  exact ⟨hreach, hquiet, hwaits,
    (hreach.no_control_behind_hold hquiet).2 1 .rewind hwaits rfl⟩

end Config

end Timeline
