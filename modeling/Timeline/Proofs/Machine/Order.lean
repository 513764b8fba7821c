/-
Timeline/Proofs/Machine/Order.lean

The order that the calls keep among themselves.

What a phase asks of the roster is its `Role`: a call that is over stands
nowhere, a call in the queue listens for a parked hold if and only if it can
release one, the owner of the registers waits for an alarm or is a parked hold,
and so on.  `Roster.Orderly` says that every call stands as its role asks, that
nobody stands anywhere twice, and that no parked hold is overheard: while there
is one and somebody listens, a listener has been notified or somebody who is
about to release it can go on (`Orderly.heard`).

Every way in which a roster changes keeps the order (`Orderly.leave` to
`Orderly.flush`).
-/
import Timeline.Proofs.Machine.Roster

namespace Timeline

/-! ### Roles -/

/-- What the phase of a call asks of the roster. -/
inductive Role where
  /-- The call is over, or it was never issued. -/
  | absent
  /-- It neither owns the registers nor queues for them.  It may be about to release a hold, and
  it may have an alarm to wait for. -/
  | aside (releases rests : Bool)
  /-- It queues for the registers, and may have the power to release a hold. -/
  | queued (releases : Bool)
  /-- It owns the registers; it may be a parked hold, or have an alarm to wait for. -/
  | owner (parked rests : Bool)
deriving DecidableEq

/-- The role of a call in a phase. -/
def Phase.role : Phase → Role
  | issued _ => .aside false false
  | seeking purpose => .aside purpose.release?.isSome false
  | moving convoy => .aside false !convoy.alarms.isEmpty
  | queued purpose => .queued purpose.release?.isSome
  | stepping _ _ (.holding none) => .owner true false
  | stepping _ _ activity => .owner false !activity.alarms.isEmpty

theorem Phase.role_stepping {who : Stepper} {index : Nat} {activity : Activity}
    (h : activity ≠ .holding none) :
    (stepping who index activity).role = .owner false !activity.alarms.isEmpty := by
  rcases activity with _ | _ | _ | ⟨_ | _⟩
  · rfl
  · rfl
  · rfl
  · exact absurd rfl h
  · rfl

namespace Config

/-- The role of a call. -/
def role (c : Config) (id : Nat) : Role :=
  (c.phase? id).elim .absent Phase.role

variable {c : Config} {id : Nat} {phase : Phase}

theorem role_of_phase? (h : c.phase? id = some phase) : c.role id = phase.role := by
  rw [role, h]
  rfl

/-- A call without a phase is over, or was not issued. -/
theorem role_eq_absent_iff : c.role id = .absent ↔ c.phase? id = none := by
  rcases hphase : c.phase? id with - | ⟨_ | _ | _ | ⟨_, _, _ | _ | _ | ⟨_ | _⟩⟩ | _⟩ <;>
    simp [role, hphase, Phase.role]

/-- Who is about to release a hold can go on. -/
theorem not_rests_of_releases : c.role id ≠ .aside true true := by
  rcases hphase : c.phase? id with - | ⟨_ | _ | _ | ⟨_, _, _ | _ | _ | ⟨_ | _⟩⟩ | _⟩ <;>
    simp [role, hphase, Phase.role]

/-- The owner of the registers executes a step. -/
theorem phase?_of_role_owner {parked rests : Bool} (h : c.role id = .owner parked rests) :
    ∃ who index activity, c.phase? id = some (.stepping who index activity) := by
  unfold role at h
  rcases hphase : c.phase? id with - | ⟨_ | _ | _ | ⟨who, index, activity⟩ | _⟩ <;>
    rw [hphase] at h
  · cases h
  · cases h
  · cases h
  · cases h
  · exact ⟨who, index, activity, rfl⟩
  · cases h

/-- A parked hold is a step that waits to be released. -/
theorem phase?_of_role_parked {rests : Bool} (h : c.role id = .owner true rests) :
    ∃ who index, c.phase? id = some (.stepping who index (.holding none)) := by
  obtain ⟨who, index, activity, hphase⟩ := phase?_of_role_owner h
  by_cases hhold : activity = .holding none
  · exact ⟨who, index, hhold ▸ hphase⟩
  · rw [role_of_phase? hphase, Phase.role_stepping hhold] at h
    cases h

theorem role_issue {call : Call} (h : c.phase? c.calls = none) :
    (c.issue call).role = Function.update c.role c.calls (.aside false false) := by
  funext j
  by_cases hj : j = c.calls
  · subst hj
    simp [role, phase?_issue h, Phase.role]
  · simp [role, phase?_issue h, hj]

theorem role_setPhase (h : (c.phase? id).isSome) :
    (c.setPhase id phase).role = Function.update c.role id phase.role := by
  funext j
  by_cases hj : j = id
  · subst hj
    simp [role, phase?_setPhase h]
  · simp [role, phase?_setPhase h, hj]

theorem role_finish {result : Except StepError Unit} :
    (c.finish id result).role = Function.update c.role id .absent := by
  funext j
  by_cases hj : j = id
  · subst hj
    simp [role, phase?_finish]
  · simp [role, phase?_finish, hj]

end Config

/-! ### Standing -/

/-- Where a call stands in a roster. -/
structure Standing where
  ready : Prop
  yielded : Prop
  owner : Prop
  queued : Prop
  listening : Prop
  notified : Prop
  parked : Prop

/-- Where a call stands. -/
def Roster.standing (r : Roster) (id : Nat) : Standing where
  ready := id ∈ r.ready
  yielded := id ∈ r.yielded
  owner := r.lock.owner = some id
  queued := id ∈ r.lock.queue
  listening := id ∈ r.signal.listeners
  notified := id ∈ r.signal.notified
  parked := r.hold = some id

namespace Standing

/-- Somebody who has nothing to do with the registers. -/
structure Aside (s : Standing) : Prop where
  owner : ¬ s.owner
  queued : ¬ s.queued
  listening : ¬ s.listening
  notified : ¬ s.notified
  parked : ¬ s.parked

/-- Somebody in the queue, or whom the registers have just been handed. -/
structure Queued (s : Standing) (releases : Prop) : Prop where
  yielded : ¬ s.yielded
  parked : ¬ s.parked
  waits : s.owner ∧ s.ready ∧ ¬ s.queued ∨ ¬ s.owner ∧ s.queued
  woken : s.notified → s.ready
  listens : s.listening ∨ s.notified ↔ releases

/-- The owner of the registers. -/
structure Owner (s : Standing) (holds rests : Prop) : Prop where
  owner : s.owner
  queued : ¬ s.queued
  listening : ¬ s.listening
  notified : ¬ s.notified
  parked : s.parked ↔ holds
  rests : s.ready ∨ s.yielded ∨ holds ∨ rests

/-- A call stands as its role asks. -/
def Fits (s : Standing) : Role → Prop
  | .absent => ¬ s.ready ∧ ¬ s.yielded ∧ s.Aside
  | .aside _ rests => (s.ready ∨ s.yielded ∨ rests) ∧ s.Aside
  | .queued releases => s.Queued releases
  | .owner parked rests => s.Owner parked rests

/-- Who stands as his role asks does so too if he can go on. -/
theorem Fits.ready {s : Standing} {x : Role} (h : s.Fits x) (hx : x ≠ .absent) {p : Prop}
    (hp : s.ready → p) : { s with ready := p }.Fits x := by
  cases x with
  | absent => exact absurd rfl hx
  | aside _ _ => exact ⟨h.1.imp_left hp, ⟨h.2.owner, h.2.queued, h.2.listening, h.2.notified,
      h.2.parked⟩⟩
  | queued _ =>
    exact ⟨h.yielded, h.parked, h.waits.imp_left fun hw => ⟨hw.1, hp hw.2.1, hw.2.2⟩,
      fun hn => hp (h.woken hn), h.listens⟩
  | owner _ _ =>
    exact ⟨h.owner, h.queued, h.listening, h.notified, h.parked, h.rests.imp_left hp⟩

end Standing

namespace Roster

/-- All calls stand as their roles ask, and nobody stands anywhere twice. -/
structure Orderly (roles : Nat → Role) (r : Roster) : Prop where
  fits : ∀ id, (r.standing id).Fits (roles id)
  ready : (r.ready ++ r.yielded).Nodup
  queue : r.lock.queue.Nodup
  listeners : (r.signal.listeners ++ r.signal.notified).Nodup
  /-- Nobody queues for registers that nobody owns. -/
  free : r.lock.owner = none → r.lock.queue = []
  /-- Numbers that were not given to a call yet. -/
  fresh : ∀ id, r.calls ≤ id → roles id = .absent
  /-- A parked hold is not overheard. -/
  heard : r.hold ≠ none → r.signal.listeners ≠ [] →
    r.signal.notified ≠ [] ∨ ∃ id rests, roles id = .aside true rests

namespace Orderly

variable {r : Roster} {roles : Nat → Role} {id : Nat} {rest : List Nat} {x : Role}

/-! ### What the order says about a call -/

theorem owner (h : r.Orderly roles) {parked rests : Bool} (hid : roles id = .owner parked rests) :
    (r.standing id).Owner parked rests := by
  have := h.fits id
  rwa [hid] at this

theorem queued (h : r.Orderly roles) {releases : Bool} (hid : roles id = .queued releases) :
    (r.standing id).Queued releases := by
  have := h.fits id
  rwa [hid] at this

theorem aside (h : r.Orderly roles) {releases rests : Bool}
    (hid : roles id = .aside releases rests) : (r.standing id).Aside := by
  have := h.fits id
  rw [hid] at this
  exact this.2

/-- A parked hold owns the registers. -/
theorem owner_of_hold (h : r.Orderly roles) (hhold : r.hold = some id) :
    ∃ rests, roles id = .owner true rests := by
  have hfits := h.fits id
  rcases hrole : roles id with - | ⟨releases, rests⟩ | releases | ⟨parked, rests⟩ <;>
    rw [hrole] at hfits
  · exact absurd hhold hfits.2.2.parked
  · exact absurd hhold hfits.2.parked
  · exact absurd hhold hfits.parked
  · obtain rfl : parked = true := hfits.parked.1 hhold
    exact ⟨rests, rfl⟩

/-- As long as the owner of the registers is no parked hold, there is none. -/
theorem hold_eq_none (h : r.Orderly roles) (howner : ∀ o, r.lock.owner = some o →
    ¬ ∃ rests, roles o = .owner true rests) : r.hold = none := by
  rcases hhold : r.hold with - | holder
  · rfl
  · obtain ⟨rests, hrole⟩ := h.owner_of_hold hhold
    exact absurd ⟨rests, hrole⟩ (howner holder (h.owner hrole).owner)

theorem hold_eq_none_of_owner (h : r.Orderly roles) {rests : Bool}
    (hid : roles id = .owner false rests) : r.hold = none :=
  h.hold_eq_none fun o ho => by
    obtain rfl : id = o := Option.some.inj ((h.owner hid).owner.symm.trans ho)
    simp [hid]

theorem hold_eq_none_of_queued (h : r.Orderly roles) {releases : Bool}
    (hid : roles id = .queued releases) (howner : r.lock.owner = some id) : r.hold = none :=
  h.hold_eq_none fun o ho => by
    obtain rfl : id = o := Option.some.inj (howner.symm.trans ho)
    simp [hid]

/-- A call that can go on is not over. -/
theorem lt_calls (h : r.Orderly roles) (hid : roles id ≠ .absent) : id < r.calls :=
  Nat.lt_of_not_le fun hle => hid (h.fresh id hle)

/-- A call that takes another role is not a new one. -/
theorem fresh_update (h : r.Orderly roles) (hid : roles id ≠ .absent) (j : Nat)
    (hj : r.calls ≤ j) : Function.update roles id x j = .absent := by
  rw [Function.update_of_ne (Nat.ne_of_gt (Nat.lt_of_lt_of_le (h.lt_calls hid) hj))]
  exact h.fresh j hj

theorem not_mem_of_head (h : r.Orderly roles) (hready : r.ready = id :: rest) :
    id ∉ rest ∧ id ∉ r.yielded := by
  have := h.ready
  rw [hready, List.cons_append, List.nodup_cons, List.mem_append, not_or] at this
  exact this.1

/-! ### What keeps the order -/

/-- A call may take another role that asks for the same. -/
theorem change (h : r.Orderly roles) (hid : roles id ≠ .absent) (hfits : (r.standing id).Fits x)
    (hheard : r.hold = none ∨ (∀ rests, roles id ≠ .aside true rests) ∨
      ∃ rests, x = .aside true rests) :
    r.Orderly (Function.update roles id x) where
  fits j := by
    by_cases hj : j = id
    · subst hj
      simpa using hfits
    · simpa [hj] using h.fits j
  ready := h.ready
  queue := h.queue
  listeners := h.listeners
  free := h.free
  fresh := h.fresh_update hid
  heard hhold hlisten := by
    refine (h.heard hhold hlisten).imp_right fun ⟨j, rests, hj⟩ => ?_
    rcases hheard with hnone | hnot | ⟨rests', rfl⟩
    · exact absurd hnone hhold
    · refine ⟨j, rests, ?_⟩
      rw [Function.update_of_ne, hj]
      rintro rfl
      exact hnot rests hj
    · by_cases hji : j = id
      · exact ⟨id, rests', by simp⟩
      · exact ⟨j, rests, by simpa [hji] using hj⟩

/-- The turn of the call that is going on is over; it may have yielded. -/
theorem leave (h : r.Orderly roles) (hready : r.ready = id :: rest) {late : List Nat}
    (hlate : late = r.yielded ∨ late = r.yielded ++ [id])
    (hfits : ({ r with ready := rest, yielded := late }.standing id).Fits (roles id)) :
    { r with ready := rest, yielded := late }.Orderly roles where
  fits j := by
    by_cases hj : j = id
    · exact hj ▸ hfits
    · have hsame : { r with ready := rest, yielded := late }.standing j = r.standing j := by
        rcases hlate with rfl | rfl <;> simp [standing, hready, hj]
      exact hsame ▸ h.fits j
  ready := by
    have := h.ready
    rw [hready, List.cons_append, List.nodup_cons] at this
    rcases hlate with rfl | rfl
    · exact this.2
    · rw [← List.append_assoc]
      exact (List.perm_append_singleton id _).nodup_iff.2 (List.nodup_cons.2 this)
  queue := h.queue
  listeners := h.listeners
  free := h.free
  fresh := h.fresh
  heard := h.heard

/-- Somebody who can do without going on is woken. -/
theorem wake (h : r.Orderly roles) (hid : roles id ≠ .absent) :
    { r with ready := woken r.ready r.yielded id }.Orderly roles where
  fits j := by
    by_cases hj : j = id
    · subst hj
      exact (h.fits j).ready hid fun hr => mem_woken.2 (.inl hr)
    · have hsame : { r with ready := woken r.ready r.yielded id }.standing j = r.standing j := by
        simp [standing, mem_woken, hj]
      exact hsame ▸ h.fits j
  ready := nodup_woken h.ready id
  queue := h.queue
  listeners := h.listeners
  free := h.free
  fresh := h.fresh
  heard := h.heard

/-- The call that is going on is over. -/
theorem finish (h : r.Orderly roles) (hready : r.ready = id :: rest) {releases rests : Bool}
    (hrole : roles id = .aside releases rests) (hheard : releases → r.hold = none) :
    { r with ready := rest }.Orderly (Function.update roles id .absent) := by
  obtain ⟨hrest, hyielded⟩ := h.not_mem_of_head hready
  have haside := h.aside hrole
  have hchange : r.Orderly (Function.update roles id (.aside false true)) := by
    refine h.change (by simp [hrole]) ⟨.inr (.inr rfl), haside⟩ ?_
    cases releases with
    | true => exact .inl (hheard rfl)
    | false => exact .inr (.inl (by simp [hrole]))
  have hleave := hchange.leave hready (.inl rfl)
    (by rw [Function.update_self]; exact ⟨.inr (.inr rfl), haside.owner, haside.queued,
      haside.listening, haside.notified, haside.parked⟩)
  have habsent : { r with ready := rest }.Orderly
      (Function.update (Function.update roles id (.aside false true)) id .absent) :=
    hleave.change (by simp) ⟨hrest, hyielded, haside.owner, haside.queued, haside.listening,
      haside.notified, haside.parked⟩ (.inr (.inl (by simp)))
  rwa [Function.update_idem] at habsent

/-- Those who have yielded go on once nobody else can. -/
theorem flush (h : r.Orderly roles) (hready : r.ready = []) :
    { r with ready := r.yielded, yielded := [] }.Orderly roles where
  fits j := by
    have hfits := h.fits j
    have hidle : ¬ (r.standing j).ready := by simp [standing, hready]
    rcases hrole : roles j with - | ⟨releases, rests⟩ | releases | ⟨parked, rests⟩ <;>
      rw [hrole] at hfits
    · exact ⟨hfits.2.1, List.not_mem_nil, hfits.2.2.1, hfits.2.2.2, hfits.2.2.3, hfits.2.2.4,
        hfits.2.2.5⟩
    · exact ⟨(hfits.1.resolve_left hidle).imp_right .inr, hfits.2.1, hfits.2.2, hfits.2.3,
        hfits.2.4, hfits.2.5⟩
    · exact ⟨List.not_mem_nil, hfits.parked,
        .inr (hfits.waits.resolve_left fun hw => hidle hw.2.1),
        fun hn => absurd (hfits.woken hn) hidle, hfits.listens⟩
    · exact ⟨hfits.owner, hfits.queued, hfits.listening, hfits.notified, hfits.parked,
        (hfits.rests.resolve_left hidle).imp_right .inr⟩
  ready := by
    have := h.ready
    rw [hready, List.nil_append] at this
    simpa using this
  queue := h.queue
  listeners := h.listeners
  free := h.free
  fresh := h.fresh
  heard := h.heard

/-- A new call can go on. -/
theorem issue (h : r.Orderly roles) :
    { r with calls := r.calls + 1, ready := r.ready ++ [r.calls] }.Orderly
      (Function.update roles r.calls (.aside false false)) where
  fits j := by
    by_cases hj : j = r.calls
    · subst hj
      have hfits := h.fits r.calls
      rw [h.fresh _ (Nat.le_refl _)] at hfits
      rw [Function.update_self]
      exact ⟨.inl (by simp [standing]), hfits.2.2.1, hfits.2.2.2, hfits.2.2.3, hfits.2.2.4,
        hfits.2.2.5⟩
    · have hsame : { r with calls := r.calls + 1, ready := r.ready ++ [r.calls] }.standing j
          = r.standing j := by
        simp [standing, hj]
      rw [Function.update_of_ne hj, hsame]
      exact h.fits j
  ready := by
    have hfits := h.fits r.calls
    rw [h.fresh _ (Nat.le_refl _)] at hfits
    have hout : r.calls ∉ r.ready ++ r.yielded := by
      rw [List.mem_append, not_or]
      exact ⟨hfits.1, hfits.2.1⟩
    simp only [List.append_assoc]
    exact List.perm_middle.nodup_iff.2 (List.nodup_cons.2 ⟨hout, h.ready⟩)
  queue := h.queue
  listeners := h.listeners
  free := h.free
  fresh j hj := by
    have hj' : r.calls + 1 ≤ j := hj
    rw [Function.update_of_ne (by omega)]
    exact h.fresh j (by omega)
  heard hhold hlisten := by
    refine (h.heard hhold hlisten).imp_right fun ⟨j, rests, hj⟩ => ⟨j, rests, ?_⟩
    rw [Function.update_of_ne, hj]
    rintro rfl
    rw [h.fresh _ (Nat.le_refl _)] at hj
    cases hj

/-! ### The registers change hands -/

/-- Registers that nobody owns are taken. -/
theorem take (h : r.Orderly roles) (hid : id ∈ r.ready) (hfree : r.lock.owner = none)
    {releases rests : Bool} (hrole : roles id = .aside releases rests) :
    { r with lock := { r.lock with owner := some id } }.Orderly
      (Function.update roles id (.owner false false)) where
  fits j := by
    by_cases hj : j = id
    · subst hj
      have haside := h.aside hrole
      rw [Function.update_self]
      exact ⟨rfl, haside.queued, haside.listening, haside.notified,
        ⟨fun hp => absurd hp haside.parked, fun hp => by cases hp⟩, .inl hid⟩
    · have hsame : { r with lock := { r.lock with owner := some id } }.standing j
          = r.standing j := by
        simp [standing, hfree, Ne.symm hj]
      rw [Function.update_of_ne hj, hsame]
      exact h.fits j
  ready := h.ready
  queue := h.queue
  listeners := h.listeners
  free howner := by cases howner
  fresh := h.fresh_update (by simp [hrole])
  heard hhold := by
    refine absurd (h.hold_eq_none ?_) hhold
    simp [hfree]

/-- The owner gives the registers to the first one in the queue. -/
theorem unlock (h : r.Orderly roles) (hid : id ∈ r.ready) {rests : Bool}
    (hrole : roles id = .owner false rests) (releases rests' : Bool) :
    { r with
      lock := ⟨r.lock.queue.head?, r.lock.queue.tail⟩
      ready := handed r.lock.queue r.ready r.yielded }.Orderly
      (Function.update roles id (.aside releases rests')) where
  fits j := by
    have howner := h.owner hrole
    have hfits := h.fits j
    by_cases hj : j = id
    · subst hj
      rw [Function.update_self]
      exact ⟨.inl (mem_handed.2 (.inl hid)), fun hq => howner.queued (List.mem_of_mem_head? hq),
        fun hq => howner.queued (List.mem_of_mem_tail hq), howner.listening, howner.notified,
        fun hp => Bool.false_ne_true (howner.parked.1 hp)⟩
    · rw [Function.update_of_ne hj]
      have hother : ¬ (r.standing j).owner := fun ho =>
        hj (Option.some.inj (ho.symm.trans howner.owner))
      by_cases hfirst : r.lock.queue.head? = some j
      · -- the new owner was queued, and can go on now
        have hqueued : (r.standing j).queued := List.mem_of_mem_head? hfirst
        have hout : j ∉ r.lock.queue.tail := by
          obtain ⟨queue, hqueue⟩ := List.head?_eq_some_iff.1 hfirst
          have := h.queue
          rw [hqueue, List.nodup_cons] at this
          rw [hqueue]
          exact this.1
        rcases hj : roles j with - | ⟨_, _⟩ | releases | ⟨_, _⟩ <;> rw [hj] at hfits
        · exact absurd hqueued hfits.2.2.queued
        · exact absurd hqueued hfits.2.queued
        · exact ⟨hfits.yielded, hfits.parked,
            .inl ⟨hfirst, mem_handed.2 (.inr ⟨hfirst, hfits.yielded⟩), hout⟩,
            fun hn => mem_handed.2 (.inl (hfits.woken hn)), hfits.listens⟩
        · exact absurd hqueued hfits.queued
      · have htail : j ∈ r.lock.queue.tail ↔ j ∈ r.lock.queue := by
          rcases hqueue : r.lock.queue with - | ⟨first, queue⟩
          · simp
          · have hne : j ≠ first := fun he => hfirst (by simp [hqueue, he])
            simp [hne]
        have hsame : { r with
            lock := ⟨r.lock.queue.head?, r.lock.queue.tail⟩
            ready := handed r.lock.queue r.ready r.yielded }.standing j = r.standing j := by
          simpa [standing, mem_handed, hfirst, htail] using hother
        rw [hsame]
        exact hfits
  ready := nodup_handed h.ready _
  queue := h.queue.sublist (List.tail_sublist _)
  listeners := h.listeners
  free hnone := by
    rw [List.head?_eq_none_iff] at hnone
    simp [hnone]
  fresh := h.fresh_update (by simp [hrole])
  heard hhold := absurd (h.hold_eq_none_of_owner hrole) hhold

/-- Who owns the registers stops listening. -/
theorem own (h : r.Orderly roles) (hid : id ∈ r.ready) (howner : r.lock.owner = some id)
    {releases : Bool} (hrole : roles id = .queued releases) :
    { r with signal :=
      ⟨r.signal.permit, r.signal.listeners.erase id, r.signal.notified.erase id⟩ }.Orderly
      (Function.update roles id (.owner false false)) where
  fits j := by
    obtain ⟨hlisteners, hnotified, -⟩ := List.nodup_append.1 h.listeners
    by_cases hj : j = id
    · subst hj
      have hqueued := h.queued hrole
      rw [Function.update_self]
      exact ⟨howner, fun hq => hqueued.waits.elim (fun hw => hw.2.2 hq) fun hw => hw.1 howner,
        hlisteners.not_mem_erase, hnotified.not_mem_erase,
        ⟨fun hp => absurd hp hqueued.parked, fun hp => by cases hp⟩, .inl hid⟩
    · have hsame : { r with signal := ⟨r.signal.permit, r.signal.listeners.erase id,
          r.signal.notified.erase id⟩ }.standing j = r.standing j := by
        simp [standing, List.mem_erase_of_ne hj]
      rw [Function.update_of_ne hj, hsame]
      exact h.fits j
  ready := h.ready
  queue := h.queue
  listeners := h.listeners.sublist
    (List.Sublist.append List.erase_sublist List.erase_sublist)
  free := h.free
  fresh := h.fresh_update (by simp [hrole])
  heard hhold := absurd (h.hold_eq_none_of_queued hrole howner) hhold

/-! ### Parked holds -/

/-- The signal wakes the listener that it reaches. -/
theorem notify (h : r.Orderly roles) :
    { r with
      signal := r.signal.sent
      ready := handed r.signal.listeners r.ready r.yielded }.Orderly roles where
  fits j := by
    have hfits := h.fits j
    by_cases hfirst : r.signal.listeners.head? = some j
    · -- whoever listens is queued, and can go on now
      have hlistening : (r.standing j).listening := List.mem_of_mem_head? hfirst
      rcases hj : roles j with - | ⟨_, _⟩ | releases | ⟨_, _⟩ <;> rw [hj] at hfits
      · exact absurd hlistening hfits.2.2.listening
      · exact absurd hlistening hfits.2.listening
      · have hgoes : j ∈ handed r.signal.listeners r.ready r.yielded :=
          mem_handed.2 (.inr ⟨hfirst, hfits.yielded⟩)
        refine ⟨hfits.yielded, hfits.parked, hfits.waits.imp_left fun hw => ⟨hw.1, hgoes, hw.2.2⟩,
          fun _ => hgoes, iff_of_true (.inr ?_) (hfits.listens.1 (.inl hlistening))⟩
        simp [standing, Signal.sent_notified, hfirst]
      · exact absurd hlistening hfits.listening
    · have htail : j ∈ r.signal.listeners.tail ↔ j ∈ r.signal.listeners := by
        rcases hlisteners : r.signal.listeners with - | ⟨first, others⟩
        · simp
        · have hne : j ≠ first := fun he => hfirst (by simp [hlisteners, he])
          simp [hne]
      have hsame : { r with
          signal := r.signal.sent
          ready := handed r.signal.listeners r.ready r.yielded }.standing j = r.standing j := by
        simp [standing, mem_handed, Signal.sent_listeners, Signal.sent_notified, hfirst, htail]
      rw [hsame]
      exact hfits
  ready := nodup_handed h.ready _
  queue := h.queue
  listeners := by
    have hnodup := h.listeners
    rcases hlisteners : r.signal.listeners with - | ⟨first, others⟩
    · simpa [Signal.sent, hlisteners] using hnodup
    · rw [hlisteners, List.cons_append] at hnodup
      rw [Signal.sent_listeners, Signal.sent_notified, hlisteners, ← List.append_assoc]
      exact (List.perm_append_singleton first _).nodup_iff.2 hnodup
  free := h.free
  fresh := h.fresh
  heard _ hlisten :=
    .inl fun hnone => hlisten (Signal.sent_listeners_eq_nil hnone)

/-- The owner of the registers parks a hold, and nobody is left to be told. -/
theorem park (h : r.Orderly roles) {rests : Bool} (hrole : roles id = .owner false rests)
    (hheard : r.signal.listeners ≠ [] → r.signal.notified ≠ []) :
    { r with hold := some id }.Orderly (Function.update roles id (.owner true false)) where
  fits j := by
    have hnone := h.hold_eq_none_of_owner hrole
    by_cases hj : j = id
    · subst hj
      have howner := h.owner hrole
      rw [Function.update_self]
      exact ⟨howner.owner, howner.queued, howner.listening, howner.notified, by simp [standing],
        .inr (.inr (.inl rfl))⟩
    · have hsame : { r with hold := some id }.standing j = r.standing j := by
        simp [standing, hnone, Ne.symm hj]
      rw [Function.update_of_ne hj, hsame]
      exact h.fits j
  ready := h.ready
  queue := h.queue
  listeners := h.listeners
  free := h.free
  fresh := h.fresh_update (by simp [hrole])
  heard _ hlisten := .inl (hheard hlisten)

/-- A parked hold that can go on is let go. -/
theorem release (h : r.Orderly roles) (hhold : r.hold = some id)
    (hgoes : id ∈ r.ready ∨ id ∈ r.yielded) :
    { r with hold := none }.Orderly (Function.update roles id (.owner false false)) where
  fits j := by
    obtain ⟨rests, hrole⟩ := h.owner_of_hold hhold
    by_cases hj : j = id
    · subst hj
      have howner := h.owner hrole
      rw [Function.update_self]
      exact ⟨howner.owner, howner.queued, howner.listening, howner.notified, by simp [standing],
        hgoes.imp_right .inl⟩
    · have hsame : { r with hold := none }.standing j = r.standing j := by
        simp [standing, hhold, Ne.symm hj]
      rw [Function.update_of_ne hj, hsame]
      exact h.fits j
  ready := h.ready
  queue := h.queue
  listeners := h.listeners
  free := h.free
  fresh := by
    obtain ⟨rests, hrole⟩ := h.owner_of_hold hhold
    exact h.fresh_update (by simp [hrole])
  heard hnone := absurd rfl hnone

/-! ### The queue -/

/-- A call queues for the registers; if it could release a hold it listens for one. -/
theorem enqueue (h : r.Orderly roles) (hid : id ∈ r.ready) {releases rests : Bool}
    (hrole : roles id = .aside releases rests) (howned : r.lock.owner ≠ none)
    (hnone : releases → r.hold = none) :
    { r with
      lock := { r.lock with queue := r.lock.queue ++ [id] }
      signal := { r.signal with
        listeners := if releases then r.signal.listeners ++ [id] else r.signal.listeners } }.Orderly
      (Function.update roles id (.queued releases)) where
  fits j := by
    by_cases hj : j = id
    · subst hj
      have haside := h.aside hrole
      have hyielded : j ∉ r.yielded := fun hy =>
        (List.nodup_append.1 h.ready).2.2 j hid j hy rfl
      rw [Function.update_self]
      refine ⟨hyielded, haside.parked, .inr ⟨haside.owner, by simp [standing]⟩,
        fun hn => absurd hn haside.notified, ?_⟩
      have hlistening : j ∉ r.signal.listeners := haside.listening
      have hnotified : j ∉ r.signal.notified := haside.notified
      cases releases <;> simp [standing, hlistening, hnotified]
    · have hsame : { r with
          lock := { r.lock with queue := r.lock.queue ++ [id] }
          signal := { r.signal with
            listeners := if releases then r.signal.listeners ++ [id] else r.signal.listeners
            } }.standing j = r.standing j := by
        cases releases <;> simp [standing, hj]
      rw [Function.update_of_ne hj, hsame]
      exact h.fits j
  ready := h.ready
  queue := (List.perm_append_singleton id _).nodup_iff.2
    (List.nodup_cons.2 ⟨(h.aside hrole).queued, h.queue⟩)
  listeners := by
    have haside := h.aside hrole
    have hout : id ∉ r.signal.listeners ++ r.signal.notified := by
      rw [List.mem_append, not_or]
      exact ⟨haside.listening, haside.notified⟩
    cases releases with
    | false => exact h.listeners
    | true =>
      simp only [if_true, List.append_assoc]
      exact List.perm_middle.nodup_iff.2 (List.nodup_cons.2 ⟨hout, h.listeners⟩)
  free := fun hfree => absurd hfree howned
  fresh := h.fresh_update (by simp [hrole])
  heard hhold hlisten := by
    cases releases with
    | true => exact absurd (hnone rfl) hhold
    | false =>
      refine (h.heard hhold hlisten).imp_right fun ⟨j, rests', hj⟩ => ⟨j, rests', ?_⟩
      rw [Function.update_of_ne, hj]
      rintro rfl
      rw [hrole] at hj
      cases hj

/-- Whom the signal has reached leaves the queue to release the hold. -/
theorem withdraw (h : r.Orderly roles) (hnotified : id ∈ r.signal.notified)
    (hother : r.lock.owner ≠ some id) {releases : Bool} (hrole : roles id = .queued releases) :
    { r with
      lock := { r.lock with queue := r.lock.queue.erase id }
      signal := { r.signal with notified := r.signal.notified.erase id } }.Orderly
      (Function.update roles id (.aside true false)) where
  fits j := by
    by_cases hj : j = id
    · subst hj
      have hqueued := h.queued hrole
      obtain ⟨-, hnodup, hapart⟩ := List.nodup_append.1 h.listeners
      rw [Function.update_self]
      exact ⟨.inl (hqueued.woken hnotified), hother, h.queue.not_mem_erase,
        fun hl => hapart j hl j hnotified rfl, hnodup.not_mem_erase, hqueued.parked⟩
    · have hsame : { r with
          lock := { r.lock with queue := r.lock.queue.erase id }
          signal := { r.signal with notified := r.signal.notified.erase id } }.standing j
          = r.standing j := by
        simp [standing, List.mem_erase_of_ne hj]
      rw [Function.update_of_ne hj, hsame]
      exact h.fits j
  ready := h.ready
  queue := h.queue.erase id
  listeners := h.listeners.sublist (List.Sublist.append (List.Sublist.refl _) List.erase_sublist)
  free hfree := by
    have := h.free hfree
    simp [this]
  fresh := h.fresh_update (by simp [hrole])
  heard _ _ := .inr ⟨id, false, by simp⟩

/-- Keeping a signal, or using up the one that is kept, concerns nobody. -/
theorem permit (h : r.Orderly roles) (permit : Bool) :
    { r with signal := { r.signal with permit } }.Orderly roles :=
  ⟨h.fits, h.ready, h.queue, h.listeners, h.free, h.fresh, h.heard⟩

end Orderly

end Roster

end Timeline
