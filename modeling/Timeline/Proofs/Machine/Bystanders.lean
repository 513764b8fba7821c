/-
Timeline/Proofs/Machine/Bystanders.lean

Calls that stand by while somebody else executes a step.

As long as somebody owns the registers, and nobody animates targets directly, all others
can do no more than get in line.  `Config.Yields` says what such a call does in a small
step: it leaves the stage and all others alone and comes nearer to waiting, which
`Config.bustle` measures.  Main result (`Config.Ordered.stands_by`): every small step of a
bystander is one.

Time passes when nobody can go on.  The clock moves on to the alarm of whoever executes the
step (`Config.Reachable.nextDue?_of_calm`), who can go on then (`Config.goes_of_tick`).
-/
import Mathlib
import Timeline.Proofs.Machine.Callers
import Timeline.Proofs.Stage.Answers

namespace Timeline

open Relation

/-! ### Alarms -/

/-- No alarm goes off before the first one. -/
theorem Alarm.first?_le {alarms : List Alarm} {a : Alarm} (h : first? alarms = some a) :
    ∀ b ∈ alarms, a.due ≤ b.due := by
  induction alarms generalizing a with
  | nil => exact fun _ hb => absurd hb List.not_mem_nil
  | cons x rest ih =>
    rcases hrest : first? rest with - | y <;> simp only [first?, hrest] at h
    · obtain rfl := Option.some.inj h
      have hnil : rest = [] := by
        by_contra hne
        have hsome := isSome_first? hne
        rw [hrest] at hsome
        cases hsome
      rw [hnil, List.forall_mem_singleton]
    · have hy := ih hrest
      obtain rfl := Option.some.inj h
      rw [List.forall_mem_cons]
      by_cases hbefore : y.before x = true
      · rw [if_pos hbefore]
        refine ⟨?_, hy⟩
        simp only [before, Bool.or_eq_true, Bool.and_eq_true, decide_eq_true_eq, beq_iff_eq]
          at hbefore
        omega
      · rw [if_neg hbefore]
        refine ⟨Nat.le_refl _, fun b hb => Nat.le_trans ?_ (hy b hb)⟩
        simp only [before, Bool.or_eq_true, Bool.and_eq_true, decide_eq_true_eq, beq_iff_eq]
          at hbefore
        omega

/-- The first one of some alarms is one of them. -/
theorem Alarm.first?_mem {alarms : List Alarm} {a : Alarm} (h : first? alarms = some a) :
    a ∈ alarms := by
  induction alarms generalizing a with
  | nil => cases h
  | cons x rest ih =>
    rcases hrest : first? rest with - | y <;> simp only [first?, hrest] at h
    · obtain rfl := Option.some.inj h
      exact List.mem_cons_self
    · obtain rfl := Option.some.inj h
      split
      · exact List.mem_cons_of_mem _ (ih hrest)
      · exact List.mem_cons_self

namespace Config

variable {m : Machine} {c c' : Config} {id owner : Nat} {phase : Phase}

theorem mem_alarms_of_phase? {a : Alarm} (hphase : c.phase? id = some phase)
    (ha : phase.alarm? = some a) : (a, id) ∈ c.alarms := by
  obtain ⟨before, after, htasks, -⟩ := List.lookup_eq_some_iff.1 hphase
  refine List.mem_filterMap.2 ⟨(id, phase), ?_, by simp only [ha, Option.map_some]⟩
  rw [htasks]
  exact List.mem_append_right _ List.mem_cons_self

/-- The next alarm is due when that of any call is, or before. -/
theorem exists_nextDue? {a : Alarm} (hphase : c.phase? id = some phase)
    (ha : phase.alarm? = some a) : ∃ due, c.nextDue? = some due ∧ due ≤ a.due := by
  have hmem : a ∈ c.alarms.map Prod.fst :=
    List.mem_map.2 ⟨(a, id), mem_alarms_of_phase? hphase ha, rfl⟩
  obtain ⟨first, hfirst⟩ := Option.isSome_iff_exists.1
    (Alarm.isSome_first? (List.ne_nil_of_mem hmem))
  refine ⟨first.due, ?_, Alarm.first?_le hfirst a hmem⟩
  rw [nextDue?, hfirst]
  rfl

/-- A call can go on, now or once nobody else can. -/
def Goes (c : Config) (id : Nat) : Prop :=
  id ∈ c.ready ∨ id ∈ c.yielded

theorem not_goes_of_quiet (h : c.quiet) (id : Nat) : ¬ c.Goes id := by
  obtain ⟨hready, hyielded⟩ := ready_of_quiet h
  rintro (hmem | hmem)
  · rw [hready] at hmem
    cases hmem
  · rw [hyielded] at hmem
    cases hmem

/-- Whoever executes a step that waits for no alarm can go on, unless it is a parked hold. -/
theorem Ordered.goes_of_stepping (h : c.Ordered) {who : Stepper} {index : Nat} {activity : Activity}
    (hphase : c.phase? id = some (.stepping who index activity)) (hhold : activity ≠ .holding none)
    (halarms : activity.alarms = []) : c.Goes id := by
  have hfits := h.fits id
  rw [role_of_phase? hphase, Phase.role_stepping hhold, halarms] at hfits
  rcases hfits.rests with hgoes | hgoes | hgoes | hgoes
  · exact .inl hgoes
  · exact .inr hgoes
  · cases hgoes
  · cases hgoes

theorem Goes.wake (h : c.Goes id) (j : Nat) : (c.wake j).Goes id := by
  rw [wake_eq]
  exact h.imp_left fun hmem => mem_woken.2 (.inl hmem)

theorem goes_wake (c : Config) (id : Nat) : (c.wake id).Goes id := by
  by_cases hyielded : id ∈ c.yielded
  · rw [wake_eq]
    exact .inr hyielded
  · rw [wake_eq]
    exact .inl (mem_woken.2 (.inr ⟨rfl, hyielded⟩))

/-- Whoever has an alarm that is due can go on once the clock has moved on. -/
theorem goes_of_tick {a : Alarm} {time : Nat} (hphase : c.phase? id = some phase)
    (ha : phase.alarm? = some a) (hdue : a.due ≤ time) : (c.tick time).Goes id := by
  have hwakes (alarms : List (Alarm × Nat)) (c : Config) (h : c.Goes id ∨ (a, id) ∈ alarms) :
      (alarms.foldl (fun c a => c.wake a.2) c).Goes id := by
    induction alarms generalizing c with
    | nil => exact h.resolve_right List.not_mem_nil
    | cons x rest ih =>
      refine ih (c.wake x.2) ?_
      rcases h with hgoes | hmem
      · exact .inl (hgoes.wake x.2)
      · rcases List.mem_cons.1 hmem with rfl | hmem
        · exact .inl (goes_wake c id)
        · exact .inr hmem
  refine hwakes _ _ (.inr ?_)
  rw [List.mem_mergeSort, List.mem_filter]
  exact ⟨mem_alarms_of_phase? hphase ha, by simpa using hdue⟩

end Config

/-! ### Getting in line -/

/-- Whether a call animates targets directly, or is about to. -/
def Phase.animates : Phase → Bool
  | .issued (.animate _) | .moving _ => true
  | _ => false

/-- How far a call is from waiting in the queue. -/
def Phase.eager : Phase → Nat
  | .issued _ => 2
  | .seeking _ => 1
  | _ => 0

namespace Config

variable {m : Machine} {c c' : Config} {id owner : Nat} {phase : Phase}

/-- How much is still to do before all calls that own nothing wait in the queue. -/
def bustle (c : Config) : Nat :=
  ∑ j ∈ Finset.range c.calls, ((c.phase? j).elim 0 Phase.eager) +
    (2 * c.signal.notified.length + c.signal.permit.toNat)

/-- Nobody animates targets directly. -/
def Calm (c : Config) : Prop :=
  ∀ j phase, c.phase? j = some phase → phase.animates = false

/-- When nobody animates targets directly, the next alarm is that of the step that is executed. -/
theorem Reachable.nextDue?_of_calm (h : c.Reachable m) (hcalm : c.Calm) {who : Stepper}
    {index : Nat} {activity : Activity} (hphase : c.phase? id = some (.stepping who index activity))
    {a : Alarm} (ha : (Phase.stepping who index activity).alarm? = some a) :
    c.nextDue? = some a.due := by
  have honly : ∀ x ∈ c.alarms, x.1 = a := by
    intro x hx
    obtain ⟨phase, hphase', halarm⟩ := h.phase?_of_mem_alarms (show (x.1, x.2) ∈ c.alarms from hx)
    cases phase with
    | stepping who' index' activity' =>
      have hid : x.2 = id := Option.some.inj
        ((h.ordered.owner_of_stepping hphase').symm.trans (h.ordered.owner_of_stepping hphase))
      rw [hid, hphase] at hphase'
      rw [← Option.some.inj hphase', ha] at halarm
      exact (Option.some.inj halarm).symm
    | moving convoy => exact Bool.noConfusion (hcalm x.2 _ hphase')
    | _ => cases halarm
  have hmem : a ∈ c.alarms.map Prod.fst :=
    List.mem_map.2 ⟨(a, id), mem_alarms_of_phase? hphase ha, rfl⟩
  obtain ⟨first, hfirst⟩ := Option.isSome_iff_exists.1
    (Alarm.isSome_first? (List.ne_nil_of_mem hmem))
  obtain ⟨x, hx, rfl⟩ := List.mem_map.1 (Alarm.first?_mem hfirst)
  rw [nextDue?, hfirst, honly x hx]
  rfl

/-- What a small step of a call is that can do no more than get in line. -/
structure Yields (c c' : Config) (id : Nat) : Prop where
  stage : c.stage.Consults c'.stage
  turn : c.stage.turn = Stage.fullTurn → c'.stage.turn = Stage.fullTurn
  yielded : c'.yielded = c.yielded
  ready : c'.ready = c.ready ∨ c'.ready = c.ready.tail
  others : ∀ j, j ≠ id → c'.phase? j = c.phase? j
  calm : ∀ phase, c'.phase? id = some phase → phase.animates = false
  bustle : c'.bustle < c.bustle ∨ c'.bustle = c.bustle ∧ c'.ready = c.ready.tail

/-- A call gets nearer to waiting when it goes over to another phase. -/
theorem bustle_lt {x : Option Phase} (hlt : id < c.calls) (hcalls : c'.calls = c.calls)
    (hphase : c.phase? id = some phase) (hphases : c'.phase? = Function.update c.phase? id x)
    (hnearer : x.elim 0 Phase.eager + (2 * c'.signal.notified.length + c'.signal.permit.toNat)
      < phase.eager + (2 * c.signal.notified.length + c.signal.permit.toNat)) :
    c'.bustle < c.bustle := by
  have hmem : id ∈ Finset.range c.calls := Finset.mem_range.2 hlt
  have hothers : ∑ j ∈ (Finset.range c.calls).erase id, ((c'.phase? j).elim 0 Phase.eager)
      = ∑ j ∈ (Finset.range c.calls).erase id, ((c.phase? j).elim 0 Phase.eager) := by
    refine Finset.sum_congr rfl fun j hj => ?_
    rw [hphases, Function.update_of_ne (Finset.ne_of_mem_erase hj)]
  unfold bustle
  rw [hcalls, ← Finset.add_sum_erase _ _ hmem, ← Finset.add_sum_erase _ _ hmem, hothers, hphase,
    hphases, Function.update_self, Option.elim_some]
  omega

theorem yields_of {x : Option Phase} (hlt : id < c.calls) (hphase : c.phase? id = some phase)
    (hstage : c.stage.Consults c'.stage)
    (hturn : c.stage.turn = Stage.fullTurn → c'.stage.turn = Stage.fullTurn)
    (hyielded : c'.yielded = c.yielded) (hready : c'.ready = c.ready ∨ c'.ready = c.ready.tail)
    (hcalls : c'.calls = c.calls) (hphases : c'.phase? = Function.update c.phase? id x)
    (hcalm : ∀ phase, x = some phase → phase.animates = false)
    (hnearer : x.elim 0 Phase.eager + (2 * c'.signal.notified.length + c'.signal.permit.toNat)
      < phase.eager + (2 * c.signal.notified.length + c.signal.permit.toNat)) :
    Yields c c' id where
  stage := hstage
  turn := hturn
  yielded := hyielded
  ready := hready
  others j hj := by rw [hphases, Function.update_of_ne hj]
  calm p hp := hcalm p (by rwa [hphases, Function.update_self] at hp)
  bustle := .inl (bustle_lt hlt hcalls hphase hphases hnearer)

section Accept

variable {call : Call} {result : Except StepError Unit} {purpose : Purpose}

theorem yields_finish (hlt : id < c.calls) (hphase : c.phase? id = some (.issued call)) :
    Yields c (c.finish id result) id :=
  yields_of hlt hphase ⟨rfl, rfl, rfl, fun _ => rfl⟩ (fun _ => rfl) rfl (.inr rfl) rfl
    phase?_finish nofun (Nat.add_lt_add_right Nat.zero_lt_two _)

/-- A call that was issued wants the registers; what else it changes nobody minds. -/
theorem yields_ask {c₁ : Config} (hlt : id < c.calls) (hphase : c.phase? id = some (.issued call))
    (htasks : c₁.tasks = c.tasks) (hstage : c₁.stage = c.stage) (hready : c₁.ready = c.ready)
    (hyielded : c₁.yielded = c.yielded) (hcalls : c₁.calls = c.calls)
    (hsignal : c₁.signal = c.signal) :
    Yields c (c₁.setPhase id (.seeking purpose)) id := by
  have hsame : c₁.phase? = c.phase? := by
    funext j
    rw [phase?, htasks]
    rfl
  refine yields_of hlt hphase (x := some (.seeking purpose)) ?_ ?_ hyielded (.inl hready) hcalls ?_
    (fun p hp => by cases hp; rfl) ?_
  · show c.stage.Consults c₁.stage
    rw [hstage]
    exact .refl _
  · show c.stage.turn = _ → c₁.stage.turn = _
    rw [hstage]
    exact fun hfull => hfull
  · rw [phase?_setPhase (by rw [hsame, hphase]; rfl), hsame]
  · show 1 + (2 * c₁.signal.notified.length + c₁.signal.permit.toNat) < 2 + _
    rw [hsignal]
    exact Nat.add_lt_add_right Nat.one_lt_two _

theorem yields_accept (hlt : id < c.calls) (hphase : c.phase? id = some (.issued call))
    (hcalm : Phase.animates (.issued call) = false) : Yields c (c.accept m id call) id := by
  cases call with
  | start =>
    simp only [accept]
    split
    · exact yields_finish hlt hphase
    · exact yields_ask hlt hphase rfl rfl rfl rfl rfl rfl
  | next label =>
    cases label with
    | none =>
      simp only [accept]
      split
      · exact yields_finish hlt hphase
      · exact yields_ask hlt hphase rfl rfl rfl rfl rfl rfl
    | some label =>
      simp only [accept]
      split
      · exact yields_finish hlt hphase
      · split
        · exact yields_finish hlt hphase
        · exact yields_ask hlt hphase rfl rfl rfl rfl rfl rfl
  | stop => exact yields_ask hlt hphase rfl rfl rfl rfl rfl rfl
  | reset => exact yields_ask hlt hphase rfl rfl rfl rfl rfl rfl
  | animate batch => cases hcalm

end Accept

section Queue

variable {purpose : Purpose}

/-- A call goes on waiting in the queue, or begins to. -/
theorem yields_enqueue {c₁ : Config} (hlt : id < c.calls)
    (hphase : c.phase? id = some (.seeking purpose)) (htasks : c₁.tasks = c.tasks)
    (hstage : c₁.stage = c.stage) (hready : c₁.ready = c.ready) (hyielded : c₁.yielded = c.yielded)
    (hcalls : c₁.calls = c.calls) (hnotified : c₁.signal.notified = c.signal.notified)
    (hpermit : c₁.signal.permit = c.signal.permit) :
    Yields c (c₁.setPhase id (.queued purpose)).block id := by
  have hsame : c₁.phase? = c.phase? := by
    funext j
    rw [phase?, htasks]
    rfl
  refine yields_of hlt hphase (x := some (.queued purpose)) ?_ (fun _ => rfl) hyielded (.inr ?_)
    hcalls ?_ (fun p hp => by cases hp; rfl) ?_
  · show c.stage.Consults c₁.stage.nextTurn
    rw [hstage]
    exact ⟨rfl, rfl, rfl, fun _ => rfl⟩
  · show c₁.ready.tail = _
    rw [hready]
  · show (c₁.setPhase id (.queued purpose)).phase? = _
    rw [phase?_setPhase (by rw [hsame, hphase]; rfl), hsame]
  · show 0 + (2 * c₁.signal.notified.length + c₁.signal.permit.toNat) < 1 + _
    rw [hnotified, hpermit]
    exact Nat.add_lt_add_right Nat.zero_lt_one _

/-- Who asks for registers that somebody else owns uses up a signal that is kept, or queues. -/
theorem yields_seek (hlt : id < c.calls) (hphase : c.phase? id = some (.seeking purpose))
    (howner : c.lock.owner = some owner) (hhold : c.hold = none) (hturn : 0 < c.stage.turn) :
    Yields c (c.seek m id purpose) id := by
  have howned : c.lock.owner ≠ none := by
    rw [howner]
    exact nofun
  rw [seek_eq (.inr hhold), if_neg (Nat.ne_of_gt hturn), if_neg howned]
  split
  · rename_i hpermit
    have hkept : c.signal.permit = true := (Bool.and_eq_true _ _ ▸ hpermit).2
    have hself : Function.update c.phase? id (some (.seeking purpose)) = c.phase? := by
      rw [← hphase, Function.update_eq_self]
    refine yields_of hlt hphase (.refl _) (fun hfull => hfull) rfl (.inl rfl) rfl hself.symm
      (fun p hp => by cases hp; rfl) ?_
    rw [hkept]
    exact Nat.add_lt_add_left (Nat.add_lt_add_left Nat.zero_lt_one _) _
  · split
    · exact yields_enqueue hlt hphase rfl rfl rfl rfl rfl rfl rfl
    · exact yields_enqueue hlt hphase rfl rfl rfl rfl rfl rfl rfl

/-- Who stands in the queue leaves it when the signal has come, and else goes on waiting. -/
theorem yields_leaveQueue (hlt : id < c.calls) (hphase : c.phase? id = some (.queued purpose))
    (howner : c.lock.owner = some owner) (hne : owner ≠ id) :
    Yields c (c.leaveQueue m id purpose) id := by
  have hnot : c.lock.owner ≠ some id := by
    rw [howner]
    exact fun he => hne (Option.some.inj he)
  rw [leaveQueue, if_neg hnot]
  split
  · rename_i hnotified
    refine yields_of hlt hphase (x := some (.seeking purpose)) (.refl _) (fun hfull => hfull) rfl
      (.inl rfl) rfl (phase?_setPhase (by rw [phase?] at hphase ⊢; simp [hphase]))
      (fun p hp => by cases hp; rfl) ?_
    show 1 + (2 * (c.signal.notified.erase id).length + c.signal.permit.toNat)
      < 0 + (2 * c.signal.notified.length + c.signal.permit.toNat)
    have hpos := List.length_pos_of_mem hnotified
    rw [List.length_erase_of_mem hnotified]
    omega
  · exact ⟨⟨rfl, rfl, rfl, fun _ => rfl⟩, fun _ => rfl, rfl, .inr rfl, fun _ _ => rfl,
      fun p hp => by cases hphase.symm.trans hp; rfl, .inr ⟨rfl, rfl⟩⟩

end Queue

/-- **A bystander does no more than get in line.** -/
theorem Ordered.stands_by (h : c.Ordered) (hcalm : c.Calm) (howner : c.lock.owner = some owner)
    (hhold : c.hold = none) (hturn : 0 < c.stage.turn) {rest : List Nat}
    (hready : c.ready = id :: rest) (hne : owner ≠ id) : Yields c (c.step m) id := by
  obtain ⟨phase, hphase⟩ := Option.isSome_iff_exists.1
    (h.isSome_phase? (hready ▸ List.mem_cons_self : id ∈ c.ready))
  have hlt : id < c.calls := Roster.Orderly.lt_calls h fun hnone => by
    rw [role_eq_absent_iff.1 hnone] at hphase
    cases hphase
  rw [step_of_ready hready hphase]
  cases phase with
  | issued call => exact yields_accept hlt hphase (hcalm id _ hphase)
  | seeking purpose => exact yields_seek hlt hphase howner hhold hturn
  | queued purpose => exact yields_leaveQueue hlt hphase howner hne
  | stepping who index activity =>
    exact absurd (Option.some.inj (howner.symm.trans (h.owner_of_stepping hphase))) hne
  | moving convoy => exact Bool.noConfusion (hcalm id _ hphase)

end Config

end Timeline
