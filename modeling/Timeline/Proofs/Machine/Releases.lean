/-
Timeline/Proofs/Machine/Releases.lean

What happens between a rewind that lets a parked hold go and the rewind itself.

A rewind that finds a parked hold lets it go and then queues for the registers.
Main result (`Config.Reachable.no_step_before_rewind`): if nobody but cancelled runs
stands in the queue at that moment, no step begins before the registers are rewound.

Who else stands in the queue comes first: a run that was not cancelled goes on with
the step after the hold (`leaks_step_of_run`), and so does a call for one step that
was issued after the rewind, because a call that is told of a hold gives up its place
in the queue (`leaks_step_of_call`).
-/
import Timeline.Proofs.Machine.Cancellation
import Timeline.Proofs.Machine.Turns

namespace Timeline

open Relation

namespace Ledger

variable {m : Machine} {l l' : Ledger} {id rewinder : Nat} {events : List Event}

/-- A run was cancelled by a call to stop. -/
def Cancelled (l : Ledger) (id : Nat) : Prop :=
  ∃ epoch, l.run? id = some epoch ∧ epoch < l.epoch

/-- A cancelled run can only be over; others are not cancelled anew. -/
theorem Cancelled.of_run? {j : Nat} (h : l.Cancelled j) (hrun : l'.run? j = l.run? j)
    (hepoch : l.epoch ≤ l'.epoch) : l'.Cancelled j := by
  obtain ⟨epoch, hj, hlt⟩ := h
  exact ⟨epoch, hrun.trans hj, Nat.lt_of_lt_of_le hlt hepoch⟩

/-! ### Nobody is told of a hold while no step begins -/

theorem Entry.unparked {purpose : Purpose} (h : Entry m id l purpose events l')
    (hnotified : l.signal.notified = []) (hhold : l.hold = none) :
    l'.signal.notified = [] ∧ l'.hold = none ∨ ∃ index, .began id index ∈ events := by
  cases h with
  | step _ _ hbegins => exact .inr ⟨_, hbegins.began⟩
  | next hbegins => exact .inr ⟨_, hbegins.began⟩
  | _ => exact .inl ⟨hnotified, hhold⟩

/-- As long as no step begins, no hold is parked and nobody is told of one. -/
theorem Deed.unparked (h : Deed m id l events l') (hnotified : l.signal.notified = [])
    (hhold : l.hold = none) :
    l'.signal.notified = [] ∧ l'.hold = none ∨ ∃ index, .began id index ∈ events := by
  cases h with
  | drop _ _ _ _ => exact .inl ⟨hnotified, rfl⟩
  | resume _ _ _ _ => exact .inl ⟨hnotified, rfl⟩
  | queue _ _ _ _ =>
    refine .inl ⟨?_, hhold⟩
    show Signal.notified (ite _ _ _) = []
    split
    · exact hnotified
    · exact hnotified
  | take _ _ _ _ hb => exact hb.unparked hnotified hhold
  | enter _ _ _ hb =>
    refine hb.unparked ?_ hhold
    show Signal.notified (ite _ _ _) = []
    split
    · simp [Signal.without, hnotified]
    · exact hnotified
  | withdraw _ _ hmem =>
    rw [hnotified] at hmem
    cases hmem
  | _ => exact .inl ⟨hnotified, hhold⟩

/-! ### A rewind that nobody but cancelled runs can come before -/

/-- A call begins no step any more before it gives the registers up: a cancelled run that was handed
them, or a hold that was let go. -/
def Spent (l : Ledger) (owner : Nat) : Prop :=
  l.Cancelled owner ∧ (∃ purpose, l.phases owner = some (.queued purpose)) ∨
    ∃ who index release, l.phases owner = some (.stepping who index (.holding (some release)))

/-- A call is the owner of the registers, or only cancelled runs and a spent owner come before it. -/
def Cleared (l : Ledger) (rewinder : Nat) : Prop :=
  l.lock.owner = some rewinder ∨
    ∃ owner front back, l.lock.owner = some owner ∧ l.lock.queue = front ++ rewinder :: back ∧
      (∀ j ∈ front, l.Cancelled j) ∧ l.Spent owner

/-- A rewind stands in the queue, and the way is cleared for it. -/
structure Barred (rewinder : Nat) (l : Ledger) : Prop where
  phase : l.phases rewinder = some (.queued .rewind)
  notified : l.signal.notified = []
  hold : l.hold = none
  next : l.Cleared rewinder

/-- Whoever stands in the queue stays there while others go on. -/
theorem Deed.queued_of_ne (h : Deed m id l events l') {j : Nat} (hj : j ≠ id) {purpose : Purpose}
    (hphase : l.phases j = some (.queued purpose)) : l'.phases j = some (.queued purpose) := by
  rcases h.other hj with hsame | ⟨_, _, _, -, hholder, -, -⟩
  · exact hsame.trans hphase
  · cases hphase.symm.trans hholder

/-- A run that is cancelled stays so while others go on. -/
theorem Cancelled.of_ne {j : Nat} (h : l.Cancelled j) (hj : j ≠ id) (hdeed : Deed m id l events l') :
    l'.Cancelled j :=
  h.of_run? (hdeed.run?_of_ne hj) hdeed.frame.1

theorem Spent.of_ne {owner : Nat} (h : l.Spent owner) (hne : owner ≠ id)
    (hdeed : Deed m id l events l') : l'.Spent owner := by
  rcases h with ⟨hcancelled, purpose, hqueued⟩ | ⟨who, index, release, hholds⟩
  · exact .inl ⟨hcancelled.of_ne hne hdeed, purpose, hdeed.queued_of_ne hne hqueued⟩
  · refine .inr ⟨who, index, release, ?_⟩
    rcases hdeed.other hne with hsame | ⟨_, _, _, -, hholder, -, -⟩
    · exact hsame.trans hholds
    · cases hholds.symm.trans hholder

/-- The owner gives the registers up. -/
theorem Cleared.of_handed {owner : Nat} {front back : List Nat} (hkept : l.Kept)
    (howner : l.lock.owner = some owner) (hqueue : l.lock.queue = front ++ rewinder :: back)
    (hfront : ∀ j ∈ front, l.Cancelled j) (hdeed : Deed m owner l events l')
    (hlock : l'.lock = ⟨l.lock.queue.head?, l.lock.queue.tail⟩) : l'.Cleared rewinder := by
  unfold Cleared
  rw [hlock, hqueue]
  -- whoever stands in the queue is not the old owner
  have hne {j : Nat} (hj : j ∈ front) : j ≠ owner := by
    rintro rfl
    exact hkept.apart howner (hqueue ▸ List.mem_append_left _ hj)
  have hstay {j : Nat} (hj : j ∈ front) : l'.Cancelled j := (hfront j hj).of_ne (hne hj) hdeed
  rcases front with - | ⟨first, front⟩
  · exact .inl rfl
  · refine .inr ⟨first, front, back, rfl, rfl, fun j hj => hstay (List.mem_cons_of_mem _ hj),
      .inl ⟨hstay List.mem_cons_self, ?_⟩⟩
    have hmem : first ∈ l.lock.queue := hqueue ▸ List.mem_append_left _ List.mem_cons_self
    obtain ⟨purpose, hphase⟩ := hkept.queued hmem
    exact ⟨purpose, hdeed.queued_of_ne (hne List.mem_cons_self) hphase⟩

/-- A cancelled run that was handed the registers gives them up and begins no step. -/
theorem Deed.cancelled_owner (h : Deed m id l events l') (hcancelled : l.Cancelled id)
    {purpose : Purpose} (hphase : l.phases id = some (.queued purpose))
    (howner : l.lock.owner = some id) :
    l'.lock = ⟨l.lock.queue.head?, l.lock.queue.tail⟩ ∧ ∀ j index, .began j index ∉ events := by
  obtain ⟨epoch, hrun, hlt⟩ := hcancelled
  have hepoch : purpose.epoch? = some epoch := (run?_of_phases hphase).symm.trans hrun
  have hentry {l₁ : Ledger} (hb : Entry m id l₁ purpose events l') (hlock : l₁.lock = l.lock)
      (hsame : l₁.epoch = l.epoch) :
      l'.lock = ⟨l.lock.queue.head?, l.lock.queue.tail⟩ ∧ ∀ j index, .began j index ∉ events := by
    have hnot {e : Nat} (he : l₁.epoch = e) (hp : some e = some epoch) : False := by
      rw [hsame] at he
      cases hp
      exact Nat.lt_irrefl _ (he ▸ hlt)
    rw [← hlock]
    cases hb with
    | clear => exact ⟨rfl, by simp⟩
    | stopped _ => exact ⟨rfl, by simp⟩
    | cancelled _ => exact ⟨rfl, by simp⟩
    | finished he _ _ _ => exact (hnot he hepoch).elim
    | around he _ _ _ _ => exact (hnot he hepoch).elim
    | step he _ _ => exact (hnot he hepoch).elim
    | restart he => exact (hnot he hepoch).elim
    | next _ => cases hepoch
    | vain _ => cases hepoch
    | rewind => cases hepoch
  cases h with
  | enter hold _ _ hb =>
    cases hphase.symm.trans hold
    exact hentry hb rfl rfl
  | withdraw _ hother _ => exact absurd howner hother
  | wait _ hother _ => exact absurd howner hother
  | _ => cases hphase.symm.trans ‹l.phases id = some _›

/-- A hold that was let go ends its step. -/
theorem Deed.released_owner (h : Deed m id l events l') {who : Stepper} {index : Nat}
    {release : Release}
    (hphase : l.phases id = some (.stepping who index (.holding (some release)))) :
    l'.lock = ⟨l.lock.queue.head?, l.lock.queue.tail⟩ ∧ ∀ j index, .began j index ∉ events := by
  have hpoll : (Activity.holding (some release)).poll l.stage
      = (l.stage.spend, .finished (.ok release.flow)) := rfl
  cases h with
  | busy hold hp =>
    cases hphase.symm.trans hold
    cases hpoll.symm.trans hp
  | crashed hold hp =>
    cases hphase.symm.trans hold
    cases hpoll.symm.trans hp
  | failed hold hp =>
    cases hphase.symm.trans hold
    cases hpoll.symm.trans hp
  | ended _ _ => exact ⟨rfl, by simp⟩
  | executed _ _ => exact ⟨rfl, by simp⟩
  | _ => cases hphase.symm.trans ‹l.phases id = some _›

/-- Others join the queue at its end. -/
theorem Deed.joins (h : Deed m id l events l') (hnotified : l.signal.notified = [])
    {owner : Nat} (hkept : l.Kept) (howner : l.lock.owner = some owner) (hne : owner ≠ id) :
    ∃ back, l'.lock.queue = l.lock.queue ++ back := by
  have hnot {who : Stepper} {index : Nat} {activity : Activity}
      (hphase : l.phases id = some (.stepping who index activity)) : False :=
    hne (Option.some.inj (howner.symm.trans (hkept.owner hphase)))
  cases h with
  | queue _ _ _ _ => exact ⟨[id], rfl⟩
  | take _ _ hfree _ _ => cases howner.symm.trans hfree
  | enter _ hown _ _ => exact (hne (Option.some.inj (howner.symm.trans hown))).elim
  | withdraw _ _ hmem =>
    rw [hnotified] at hmem
    cases hmem
  | ended hphase _ => exact (hnot hphase).elim
  | executed hphase _ => exact (hnot hphase).elim
  | crashed hphase _ => exact (hnot hphase).elim
  | failed hphase _ => exact (hnot hphase).elim
  | _ => exact ⟨[], (List.append_nil _).symm⟩

/-- Whoever stands in the queue, is not the owner and was not told of a hold goes on waiting. -/
theorem Deed.waits (h : Deed m id l events l') {purpose : Purpose}
    (hphase : l.phases id = some (.queued purpose)) (howner : l.lock.owner ≠ some id)
    (hnotified : l.signal.notified = []) : events = [] ∧ l' = l.block := by
  cases h with
  | enter _ hown _ _ => exact absurd hown howner
  | withdraw _ _ hmem =>
    rw [hnotified] at hmem
    cases hmem
  | wait _ _ _ => exact ⟨rfl, rfl⟩
  | _ => cases hphase.symm.trans ‹l.phases id = some _›

/-- A rewind that finds neither a hold nor a signal queues for the registers. -/
theorem Deed.queues (h : Deed m id l events l') (hphase : l.phases id = some (.seeking .rewind))
    (hturn : l.stage.turn ≠ 0) (hhold : l.hold = none) (howned : l.lock.owner ≠ none)
    (hpermit : l.signal.permit = false) : events = [] ∧
      l' = ({ l with
        lock := { l.lock with queue := l.lock.queue ++ [id] }
        signal := { l.signal with listeners := l.signal.listeners ++ [id] } }.setPhase id
          (.queued .rewind)).block := by
  cases h with
  | drop _ hsome _ _ => cases hhold.symm.trans hsome
  | rest _ hzero _ => exact absurd hzero hturn
  | permit _ _ _ _ _ hkept => cases hpermit.symm.trans hkept
  | take _ _ hfree _ _ => exact absurd hfree howned
  | queue hold _ _ _ =>
    cases hphase.symm.trans hold
    exact ⟨rfl, rfl⟩
  | _ => cases hphase.symm.trans ‹l.phases id = some _›

/-- A spent owner gives the registers up and begins no step. -/
theorem Spent.hands_over (h : l.Spent id) (howner : l.lock.owner = some id)
    (hdeed : Deed m id l events l') :
    l'.lock = ⟨l.lock.queue.head?, l.lock.queue.tail⟩ ∧ ∀ j index, .began j index ∉ events := by
  rcases h with ⟨hcancelled, purpose, hqueued⟩ | ⟨who, index, release, hholds⟩
  · exact hdeed.cancelled_owner hcancelled hqueued howner
  · exact hdeed.released_owner hholds

/-- Nobody but the owner begins a step, and the owner stays. -/
theorem Deed.began_of_ne (h : Deed m id l events l') (hkept : l.Kept) {owner : Nat}
    (howner : l.lock.owner = some owner) (hne : owner ≠ id) :
    l'.lock.owner = some owner ∧ ∀ j index, .began j index ∉ events := by
  obtain ⟨-, hkeeps, hevents⟩ := h.bystander hkept howner hne
  refine ⟨hkeeps, fun j index hbegan => ?_⟩
  rcases hevents _ hbegan with ⟨_, he⟩ | ⟨_, _, he⟩ <;> cases he

/-- While others go on the way stays cleared, and none of them begins a step. -/
theorem Cleared.of_ne (h : l.Cleared rewinder) (hid : id ≠ rewinder) (hkept : l.Kept)
    (hnotified : l.signal.notified = []) (hdeed : Deed m id l events l') :
    (∀ j index, .began j index ∉ events) ∧ l'.Cleared rewinder := by
  rcases h with howner | ⟨owner, front, back, howner, hqueue, hfront, hspent⟩
  · obtain ⟨hkeeps, hnone⟩ := hdeed.began_of_ne hkept howner (Ne.symm hid)
    exact ⟨hnone, .inl hkeeps⟩
  · by_cases hio : owner = id
    · subst hio
      obtain ⟨hlock, hnone⟩ := hspent.hands_over howner hdeed
      exact ⟨hnone, .of_handed hkept howner hqueue hfront hdeed hlock⟩
    · obtain ⟨hkeeps, hnone⟩ := hdeed.began_of_ne hkept howner hio
      obtain ⟨more, hmore⟩ := hdeed.joins hnotified hkept howner hio
      by_cases hmem : id ∈ l.lock.queue
      · -- whoever stands in the queue already goes on waiting
        obtain ⟨purpose, hwaits⟩ := hkept.queued hmem
        have hnot : l.lock.owner ≠ some id := fun hown => hkept.apart hown hmem
        obtain ⟨-, rfl⟩ := hdeed.waits hwaits hnot hnotified
        exact ⟨hnone, .inr ⟨owner, front, back, howner, hqueue, hfront, hspent⟩⟩
      · refine ⟨hnone, .inr ⟨owner, front, back ++ more, hkeeps, ?_, fun j hj => ?_,
          hspent.of_ne hio hdeed⟩⟩
        · rw [hmore, hqueue, List.append_assoc, List.cons_append]
        · refine (hfront j hj).of_ne ?_ hdeed
          rintro rfl
          exact hmem (hqueue ▸ List.mem_append_left _ hj)

/-- The rewind waits for the registers, and rewinds once it has been handed them. -/
theorem Barred.own (h : Barred rewinder l) (hdeed : Deed m rewinder l events l') :
    .rewound rewinder ∈ events ∨
      (∀ j index, .began j index ∉ events) ∧ Barred rewinder l' := by
  by_cases howner : l.lock.owner = some rewinder
  · left
    cases hdeed with
    | enter hold _ _ hb =>
      cases h.phase.symm.trans hold
      cases hb with
      | rewind => simp
    | withdraw _ hother _ => exact absurd howner hother
    | wait _ hother _ => exact absurd howner hother
    | _ => cases h.phase.symm.trans ‹l.phases rewinder = some _›
  · obtain ⟨rfl, rfl⟩ := hdeed.waits h.phase howner h.notified
    exact .inr ⟨by simp, h.phase, h.notified, h.hold, h.next⟩

/-- **Nobody begins a step before the rewind.** -/
theorem Barred.deed (h : Barred rewinder l) (hkept : l.Kept) (hdeed : Deed m id l events l') :
    .rewound rewinder ∈ events ∨
      (∀ j index, .began j index ∉ events) ∧ Barred rewinder l' := by
  by_cases hid : id = rewinder
  · subst hid
    exact h.own hdeed
  · right
    obtain ⟨hnone, hnext⟩ := h.next.of_ne hid hkept h.notified hdeed
    rcases hdeed.unparked h.notified h.hold with ⟨hnotified, hhold⟩ | ⟨index, hbegan⟩
    · exact ⟨hnone, hdeed.queued_of_ne (Ne.symm hid) h.phase, hnotified, hhold, hnext⟩
    · exact absurd hbegan (hnone id index)

theorem Barred.turn (h : Barred rewinder l) (hkept : l.Kept) (hturn : Turn m l events l') :
    .rewound rewinder ∈ events ∨
      (∀ j index, .began j index ∉ events) ∧ Barred rewinder l' := by
  cases hturn with
  | deed hdeed => exact h.deed hkept hdeed
  | outside _ _ _ => exact .inr ⟨by simp, h.phase, h.notified, h.hold, h.next⟩
  | issue call hnone =>
    -- the new call is none of those that stand in the queue
    have hold {j : Nat} {phase : Phase} (hj : l.phases j = some phase) :
        ({ l with calls := l.calls + 1 }.setPhase l.calls (.issued call)).phases j
          = some phase := by
      rw [setPhase_of_ne, hj]
      rintro rfl
      rw [hnone] at hj
      cases hj
    have hcancelled {j : Nat} (hj : l.Cancelled j) :
        ({ l with calls := l.calls + 1 }.setPhase l.calls (.issued call)).Cancelled j := by
      obtain ⟨epoch, hrun, hlt⟩ := hj
      obtain ⟨phase, hphase, -⟩ := Option.bind_eq_some_iff.1 hrun
      exact ⟨epoch, (run?_of_phases (hold hphase)).trans
        ((run?_of_phases hphase).symm.trans hrun), hlt⟩
    refine .inr ⟨by simp, hold h.phase, h.notified, h.hold, ?_⟩
    rcases h.next with howner | ⟨owner, front, back, howner, hqueue, hfront, hstate⟩
    · exact .inl howner
    · refine .inr ⟨owner, front, back, howner, hqueue, fun j hj => hcancelled (hfront j hj), ?_⟩
      rcases hstate with ⟨hown, purpose, hqueued⟩ | ⟨who, index, release, hholds⟩
      · exact .inl ⟨hcancelled hown, purpose, hold hqueued⟩
      · exact .inr ⟨who, index, release, hold hholds⟩

end Ledger

namespace Config

variable {m : Machine} {c₀ c c' : Config} {id holder : Nat} {rest : List Nat}

/-! ### A rewind that has let a hold go -/

/-- A rewind has just let a hold go, and is about to queue for the registers. -/
structure AfterRelease (id : Nat) (c : Config) : Prop where
  head : c.ready.head? = some id
  phase : c.phase? id = some (.seeking .rewind)
  turn : c.stage.turn ≠ 0
  notified : c.signal.notified = []
  hold : c.hold = none
  owner : ∃ owner who index release, c.lock.owner = some owner ∧
    c.phase? owner = some (.stepping who index (.holding (some release)))
  queue : ∀ j ∈ c.lock.queue, c.ledger.Cancelled j

/-- The rewind uses up a signal that is kept, or it queues. -/
theorem AfterRelease.step (h : c.AfterRelease id) (hordered : c.Ordered) :
    (c.step m).stage.milestones = c.stage.milestones ∧
      ((c.step m).AfterRelease id ∨ Ledger.Barred id (c.step m).ledger) := by
  obtain ⟨rest, hready⟩ := List.head?_eq_some_iff.1 h.head
  obtain ⟨owner, who, index, release, howner, hstepping⟩ := h.owner
  have howned : c.lock.owner ≠ none := by
    rw [howner]
    simp
  rcases hpermit : c.signal.permit with - | -
  · obtain ⟨events, hdeed⟩ := hordered.deed (m := m) hready
    obtain ⟨rfl, hqueued⟩ := hdeed.queues h.phase h.turn h.hold howned hpermit
    have hne : owner ≠ id := by
      rintro rfl
      cases h.phase.symm.trans hstepping
    refine ⟨hdeed.milestones, .inr ?_⟩
    rw [hqueued]
    refine ⟨Ledger.setPhase_self, h.notified, h.hold, .inr ⟨owner, c.lock.queue, [], howner, rfl,
      fun j hj => ?_, .inr ⟨who, index, release, ?_⟩⟩⟩
    · -- whoever stands in the queue is not the one that joins it
      refine (h.queue j hj).of_run? ?_ (Nat.le_refl _)
      rw [Ledger.run?, Ledger.run?]
      refine congrArg (·.bind Phase.epoch?) (Ledger.setPhase_of_ne ?_)
      rintro rfl
      obtain ⟨purpose, hphase⟩ := hordered.kept.queued hj
      cases h.phase.symm.trans hphase
    · exact (Ledger.setPhase_of_ne hne).trans hstepping
  · have hstep : c.step m = { c with signal := { c.signal with permit := false } } := by
      rw [step_of_ready hready h.phase]
      show c.seek m id .rewind = _
      rw [seek_eq (.inr h.hold), if_neg h.turn, if_neg howned, if_pos (by simp [hpermit,
        Purpose.release?])]
    rw [hstep]
    exact ⟨rfl, .inl ⟨h.head, h.phase, h.turn, h.notified, h.hold,
      ⟨owner, who, index, release, howner, hstepping⟩, h.queue⟩⟩

/-- What happens outside leaves the rewind about to queue. -/
theorem AfterRelease.move (h : c.AfterRelease id) (hordered : c.Ordered) (hmove : Move m c c') :
    c'.stage.milestones = c.stage.milestones ∧
      (c'.AfterRelease id ∨ Ledger.Barred id c'.ledger) := by
  obtain ⟨rest, hready⟩ := List.head?_eq_some_iff.1 h.head
  have hbusy (hquiet : c.quiet) : False := by
    rw [(ready_of_quiet hquiet).1] at hready
    cases hready
  cases hmove with
  | step => exact h.step hordered
  | issue call =>
    have hnone : c.phase? c.calls = none :=
      role_eq_absent_iff.1 (hordered.fresh _ (Nat.le_refl _))
    have hold {j : Nat} {phase : Phase} (hj : c.phase? j = some phase) :
        (c.issue call).phase? j = some phase := by
      rw [phase?_issue hnone, Function.update_of_ne, hj]
      rintro rfl
      rw [hnone] at hj
      cases hj
    obtain ⟨owner, who, index, release, howner, hstepping⟩ := h.owner
    refine ⟨rfl, .inl ⟨?_, hold h.phase, h.turn, h.notified, h.hold,
      ⟨owner, who, index, release, howner, hold hstepping⟩, fun j hj => ?_⟩⟩
    · rw [issue, List.head?_append, h.head]
      rfl
    · obtain ⟨epoch, hrun, hlt⟩ := h.queue j hj
      obtain ⟨phase, hphase, hepoch⟩ := Option.bind_eq_some_iff.1 hrun
      exact ⟨epoch, (Ledger.run?_of_phases (hold hphase)).trans hepoch, hlt⟩
  | tick hquiet _ => exact (hbusy hquiet).elim
  | wait hquiet _ _ => exact (hbusy hquiet).elim
  | write target value =>
    have hacts := Stage.Acts.set (B := .free) c.stage target value
    have hturn : (c.stage.set target value).2.turn ≠ 0 := by
      rw [Stage.turn_set]
      exact h.turn
    exact ⟨Stage.milestones_of_acts hacts, .inl ⟨h.head, h.phase, hturn, h.notified, h.hold,
      h.owner, h.queue⟩⟩
  | register _ =>
    exact ⟨rfl, .inl ⟨h.head, h.phase, h.turn, h.notified, h.hold, h.owner, h.queue⟩⟩

/-- Whom the signal has reached can let a hold go, and stands in the queue or was handed the
registers. -/
theorem Ordered.queued_of_notified (h : c.Ordered) (hid : id ∈ c.signal.notified) :
    ∃ purpose, c.phase? id = some (.queued purpose) ∧ purpose.release?.isSome ∧
      (c.lock.owner = some id ∨ id ∈ c.lock.queue) := by
  have hfits := h.fits id
  rcases hphase : c.phase? id with - | phase
  · rw [role_eq_absent_iff.2 hphase] at hfits
    exact absurd hid hfits.2.2.notified
  · rw [role_of_phase? hphase] at hfits
    cases phase with
    | issued _ => exact absurd hid hfits.2.notified
    | seeking _ => exact absurd hid hfits.2.notified
    | queued purpose =>
      exact ⟨purpose, rfl, hfits.listens.1 (.inr hid), hfits.waits.imp And.left And.right⟩
    | stepping who index activity =>
      by_cases hhold : activity = .holding none
      · subst hhold
        exact absurd hid hfits.notified
      · rw [Phase.role_stepping hhold] at hfits
        exact absurd hid hfits.notified
    | moving _ => exact absurd hid hfits.2.notified

/-- While a hold is parked and nobody but cancelled runs stands in the queue, the signal has reached
nobody: whom it has reached could let a hold go, and no run can. -/
theorem Ordered.notified_eq_nil (h : c.Ordered) {who : Stepper} {index : Nat}
    (hholder : c.phase? holder = some (.stepping who index (.holding none)))
    (hqueue : ∀ j ∈ c.lock.queue, c.ledger.Cancelled j) : c.signal.notified = [] := by
  rw [List.eq_nil_iff_forall_not_mem]
  intro j hj
  obtain ⟨purpose, hwaits, hreleases, howner | hmem⟩ := h.queued_of_notified hj
  · cases howner.symm.trans (h.owner_of_stepping hholder)
    cases hwaits.symm.trans hholder
  · obtain ⟨epoch, hrun, -⟩ := hqueue j hmem
    have hwho := (Ledger.run?_of_phases (l := c.ledger) hwaits).symm.trans hrun
    cases purpose with
    | next seek => cases hwho
    | rewind => cases hwho
    | _ => cases hreleases

/-- A rewind lets a parked hold go, while nobody but cancelled runs stands in the queue. -/
theorem Reachable.afterRelease (h : c.Reachable m) (hready : c.ready = id :: rest)
    (hphase : c.phase? id = some (.seeking .rewind)) (hhold : c.hold = some holder)
    (hqueue : ∀ j ∈ c.lock.queue, c.ledger.Cancelled j) :
    (c.step m).stage.milestones = .released id holder .dropped :: c.stage.milestones ∧
      (c.step m).AfterRelease id := by
  have hordered := h.ordered
  obtain ⟨who, index, hholder⟩ := hordered.hold_iff.1 hhold
  have hne : holder ≠ id := by
    rintro rfl
    cases hphase.symm.trans hholder
  have hstep : c.step m = c.releaseHold id holder .dropped := by
    rw [step_of_ready hready hphase]
    show c.seek m id .rewind = _
    rw [seek_of_hold rfl hhold, if_pos rfl]
  have hledger : (c.step m).ledger = c.ledger.letGo id holder who index .dropped := by
    rw [hstep, ledger_releaseHold hholder]
  have hhead : c.ready.head? = some id := by
    rw [hready]
    rfl
  have hsame {j : Nat} (hj : j ≠ holder) : (c.step m).phase? j = c.phase? j := by
    show (c.step m).ledger.phases j = _
    rw [hledger]
    exact Ledger.letGo_of_ne hj
  refine ⟨?_, ?_, (hsame (Ne.symm hne)).trans hphase, ?_, ?_, ?_, ⟨holder, who, index, .dropped,
    ?_, ?_⟩, fun j hj => ?_⟩
  · show (c.step m).ledger.stage.milestones = _
    rw [hledger]
    rfl
  · rw [hstep, releaseHold_eq hholder]
    exact head?_handed_of_head? hhead [holder] c.yielded
  · have hturn : (c.step m).stage.turn = c.stage.turn := by
      show (c.step m).ledger.stage.turn = _
      rw [hledger]
      rfl
    rw [hturn, h.paced.turn_of_head hhead hphase rfl]
    decide
  · have hnotified : (c.step m).signal.notified = c.signal.notified := by
      show (c.step m).ledger.signal.notified = _
      rw [hledger]
      rfl
    rw [hnotified]
    exact hordered.notified_eq_nil hholder hqueue
  · show (c.step m).ledger.hold = none
    rw [hledger]
    rfl
  · show (c.step m).ledger.lock.owner = _
    rw [hledger]
    exact hordered.owner_of_stepping hholder
  · show (c.step m).ledger.phases holder = _
    rw [hledger]
    exact Ledger.setPhase_self
  · have hmem : j ∈ c.lock.queue := by
      have hlock : (c.step m).ledger.lock = c.lock := by
        rw [hledger]
        rfl
      exact hlock ▸ hj
    -- only the holder has changed, and as the owner it does not stand in the queue
    refine (hqueue j hmem).of_run? ?_ ?_
    · rw [Ledger.run?, Ledger.run?]
      refine congrArg (·.bind Phase.epoch?) (hsame ?_)
      rintro rfl
      exact hordered.kept.apart (hordered.owner_of_stepping hholder) hmem
    · rw [hledger]
      exact Nat.le_refl _

/-- **No step begins between a release and its rewind**, if nobody but cancelled runs stands in the
queue when a rewind lets a parked hold go. -/
theorem Reachable.no_step_before_rewind (h : c₀.Reachable m) (hready : c₀.ready = id :: rest)
    (hphase : c₀.phase? id = some (.seeking .rewind)) (hhold : c₀.hold = some holder)
    (hqueue : ∀ j ∈ c₀.lock.queue, c₀.ledger.Cancelled j)
    (hmoves : ReflTransGen (Move m) (c₀.step m) c) :
    ∃ since, c.stage.milestones = since ++ c₀.stage.milestones ∧
      .released id holder .dropped ∈ since ∧
      (.rewound id ∉ since → ∀ j index, .began j index ∉ since) := by
  obtain ⟨hmilestones, hafter⟩ := h.afterRelease hready hphase hhold hqueue
  have hreach : (c₀.step m).Reachable m := h.move .step
  suffices hall : ∃ since, c.stage.milestones = since ++ c₀.stage.milestones ∧
      .released id holder .dropped ∈ since ∧
      (.rewound id ∈ since ∨ (∀ j index, .began j index ∉ since) ∧
        (c.AfterRelease id ∨ Ledger.Barred id c.ledger)) by
    obtain ⟨since, hsince, hreleased, hnone⟩ := hall
    exact ⟨since, hsince, hreleased, fun hnot => (hnone.resolve_left hnot).1⟩
  induction hmoves with
  | refl => exact ⟨[_], hmilestones, by simp, .inr ⟨by simp, .inl hafter⟩⟩
  | @tail c₁ c₂ hmoves hmove ih =>
    obtain ⟨since, hsince, hreleased, hstate⟩ := ih
    have hordered : c₁.Ordered := (hreach.moves hmoves).ordered
    obtain ⟨events, hturn⟩ := hordered.turn hmove
    have hgrown : c₂.stage.milestones = events ++ c₁.stage.milestones := hturn.milestones
    refine ⟨events ++ since, ?_, List.mem_append_right _ hreleased, ?_⟩
    · rw [hgrown, hsince, List.append_assoc]
    rcases hstate with hrewound | ⟨hnone, hrelease | hbarred⟩
    · exact .inl (List.mem_append_right _ hrewound)
    · obtain ⟨hsame, hnext⟩ := hrelease.move hordered hmove
      obtain rfl : events = [] := List.self_eq_append_left.1 (hsame.symm.trans hgrown)
      exact .inr ⟨hnone, hnext⟩
    · rcases hbarred.turn hordered.kept hturn with hrewound | ⟨hnew, hnext⟩
      · exact .inl (List.mem_append_left _ hrewound)
      · refine .inr ⟨fun j index hmem => ?_, .inr hnext⟩
        rcases List.mem_append.1 hmem with hmem | hmem
        · exact hnew j index hmem
        · exact hnone j index hmem

/-! ### Who comes before the rewind otherwise -/

/-- A machine that vibrates for ten milliseconds, holds, and comments. -/
def vibrateHold : Machine where
  program := ⟨[⟨{ action := .vibrate }, none⟩, ⟨{ action := .hold }, none⟩,
    ⟨{ action := .comment "after" }, none⟩], {}⟩
  haptics := some ⟨10000000⟩

/-- A run vibrates and a call for a step executes the hold, so that the run queues behind it.  Then
a call to reset finds the hold. -/
def resettingBeforeRun : Config :=
  ((((((fresh vibrateHold {} {}).issue .start).settle vibrateHold 20).issue
    (.next none)).settle vibrateHold 20 |>.tick 10).settle vibrateHold 20 |>.issue .reset).step
      vibrateHold

theorem reachable_resettingBeforeRun : resettingBeforeRun.Reachable vibrateHold := by
  have hvibrates : (((((fresh vibrateHold {} {}).issue .start).settle vibrateHold 20).issue
      (.next none)).settle vibrateHold 20).Reachable vibrateHold :=
    (((Reachable.fresh {} {}).issue .start).settle 20).issue (.next none) |>.settle 20
  exact (((hvibrates.move (.tick (by cbv) (by cbv))).settle 20).issue .reset).move .step

/-- The run goes on with the step after the hold, and the rewind comes later. -/
theorem leaks_step_of_run : ∃ (c₀ c : Config) (since : List Event), c₀.Reachable vibrateHold ∧
    c₀.phase? 2 = some (.seeking .rewind) ∧ c₀.hold = some 1 ∧
    (c₀.step vibrateHold).stage.milestones = .released 2 1 .dropped :: c₀.stage.milestones ∧
    ReflTransGen (Move vibrateHold) (c₀.step vibrateHold) c ∧
    c.stage.milestones = since ++ (c₀.step vibrateHold).stage.milestones ∧
    .began 0 2 ∈ since ∧ .rewound 2 ∉ since := by
  refine ⟨resettingBeforeRun,
    ((((resettingBeforeRun.step vibrateHold).step vibrateHold).step vibrateHold).step
      vibrateHold).step vibrateHold,
    [.began 0 2, .published ⟨2, "comment-2"⟩, .returned 1 (.ok ()), .ended 1 1 .advance],
    reachable_resettingBeforeRun, ?_, ?_, ?_, ?_, ?_, by simp, by simp⟩
  · cbv
  · cbv
  · cbv
  · exact (((ReflTransGen.single .step).tail .step).tail .step).tail .step
  · cbv

/-- Two calls for a step vibrate and execute the hold, a call to stop queues behind them and another
call for a step behind that one.  Told of the hold, the call to stop has left the queue. -/
def stoppingBeforeCall : Config :=
  (((((((fresh vibrateHold {} {}).issue (.next none)).settle vibrateHold 20).issue
    (.next none)).settle vibrateHold 20 |>.issue .stop).settle vibrateHold 20 |>.issue
      (.next none)).settle vibrateHold 20 |>.tick 10).settle vibrateHold 4

theorem reachable_stoppingBeforeCall : stoppingBeforeCall.Reachable vibrateHold := by
  have hvibrates : (((((((fresh vibrateHold {} {}).issue (.next none)).settle vibrateHold
      20).issue (.next none)).settle vibrateHold 20 |>.issue .stop).settle vibrateHold 20 |>.issue
        (.next none)).settle vibrateHold 20).Reachable vibrateHold :=
    ((((((Reachable.fresh {} {}).issue (.next none)).settle 20).issue (.next none)).settle
      20).issue .stop |>.settle 20).issue (.next none) |>.settle 20
  exact (hvibrates.move (.tick (by cbv) (by cbv))).settle 4

/-- The call for a step that was issued after the call to stop comes before the rewind. -/
theorem leaks_step_of_call : ∃ (c₀ c : Config) (since : List Event), c₀.Reachable vibrateHold ∧
    c₀.phase? 2 = some (.seeking .rewind) ∧ c₀.hold = some 1 ∧
    (c₀.step vibrateHold).stage.milestones = .released 2 1 .dropped :: c₀.stage.milestones ∧
    ReflTransGen (Move vibrateHold) (c₀.step vibrateHold) c ∧
    c.stage.milestones = since ++ (c₀.step vibrateHold).stage.milestones ∧
    .began 3 2 ∈ since ∧ .rewound 2 ∉ since := by
  refine ⟨stoppingBeforeCall,
    (((stoppingBeforeCall.step vibrateHold).step vibrateHold).step vibrateHold).step vibrateHold,
    [.began 3 2, .published ⟨2, "comment-2"⟩, .returned 1 (.ok ()), .ended 1 1 .advance],
    reachable_stoppingBeforeCall, ?_, ?_, ?_, ?_, ?_, by simp, by simp⟩
  · cbv
  · cbv
  · cbv
  · exact ((ReflTransGen.single .step).tail .step).tail .step
  · cbv

/-- A run executes the hold, and a call to reset finds it while nobody queues. -/
def resettingAlone : Config :=
  ((((fresh vibrateHold {} {}).issue .start).settle vibrateHold 20 |>.tick 10).settle
    vibrateHold 20 |>.issue .reset).step vibrateHold

theorem reachable_resettingAlone : resettingAlone.Reachable vibrateHold := by
  have hvibrates : (((fresh vibrateHold {} {}).issue .start).settle vibrateHold 20).Reachable
      vibrateHold :=
    ((Reachable.fresh {} {}).issue .start).settle 20
  exact (((hvibrates.move (.tick (by cbv) (by cbv))).settle 20).issue .reset).move .step

theorem no_step_before_rewind_vibrateHold :
    ∃ since, ((resettingAlone.step vibrateHold).step vibrateHold).stage.milestones
        = since ++ resettingAlone.stage.milestones ∧
      .released 1 0 .dropped ∈ since ∧
      (.rewound 1 ∉ since → ∀ j index, .began j index ∉ since) := by
  have hphase : resettingAlone.phase? 1 = some (.seeking .rewind) := by cbv
  have hhold : resettingAlone.hold = some 0 := by cbv
  have hqueue : resettingAlone.lock.queue = [] := by cbv
  have hready : resettingAlone.ready = [1] := by cbv
  refine reachable_resettingAlone.no_step_before_rewind hready hphase hhold (fun j hj => ?_)
    (.single .step)
  rw [hqueue] at hj
  cases hj

end Config

end Timeline
