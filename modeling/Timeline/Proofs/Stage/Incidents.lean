/-
Timeline/Proofs/Stage/Incidents.lean

The law of a shared driver, as a property of what has happened.

A log lists incidents, the latest first: who claimed which target, wrote it or came to
its end.  `Log.Lawful` says which incident may follow which: a claim is the first deed
of an operation, only the last claimer of a target writes it, an operation that is over
does nothing more, and it ends well in two ways, superseded or by its last write.

Main results, for every lawful log: nobody who came before a claim of a target writes
the target after it (`Lawful.superseded`), nobody does anything after its end
(`Lawful.silent_after_end`), and once the last claimer of a target has done anything but
claim it, the latest write of the target is its own (`Lawful.lastWrite?_of_claimer?`).
-/
import Timeline.Proofs.Stage.Visits

namespace Timeline

/-- An operation: a call, and the number of the operation among those of the call. -/
structure Claimant where
  call : Nat
  member : Nat
deriving DecidableEq, Repr

/-- A deed of an operation on a target. -/
structure Incident where
  time : Nat
  who : Claimant
  target : String
  deed : Ride.Deed

namespace Incident

/-- Who claims a target by an incident. -/
def claimer? (e : Incident) (target : String) : Option Claimant :=
  match e.deed with
  | .claimed => if e.target = target then some e.who else none
  | _ => none

/-- Who writes a target by an incident, and the value. -/
def write? (e : Incident) (target : String) : Option (Claimant × Float) :=
  match e.deed with
  | .wrote value => if e.target = target then some (e.who, value) else none
  | _ => none

end Incident

/-- What has happened, the latest first. -/
abbrev Log := List Incident

namespace Log

/-- The last claimer of a target. -/
def claimer? (log : Log) (target : String) : Option Claimant :=
  log.findSome? fun e => e.claimer? target

/-- The latest write of a target: by whom, and the value. -/
def lastWrite? (log : Log) (target : String) : Option (Claimant × Float) :=
  log.findSome? fun e => e.write? target

/-- The number of claims on a target. -/
def claims (log : Log) (target : String) : Nat :=
  log.countP fun e => (e.claimer? target).isSome

/-- The deeds of an operation. -/
def deedsOf (log : Log) (who : Claimant) : Log :=
  log.filter fun e => e.who = who

/-- What a log makes of a slot: the value is the one that was written last, if there is one, and the
generation counts the claims. -/
def slotAfter (log : Log) (target : String) (slot : Slot Float) : Slot Float :=
  ⟨((log.lastWrite? target).map Prod.snd).getD slot.value, slot.generation + log.claims target⟩

/-- An operation has done nothing yet. -/
def Untouched (log : Log) (who : Claimant) : Prop :=
  ∀ e ∈ log, e.who ≠ who

/-- An operation has not come to its end. -/
def Open (log : Log) (who : Claimant) : Prop :=
  ∀ e ∈ log, e.who = who → ∀ result, e.deed ≠ .ended result

/-- Which incidents may follow one another. -/
inductive Lawful : Log → Prop
  | nil : Lawful []
  | claim {log : Log} {who : Claimant} (time : Nat) (target : String) :
      Lawful log → log.Untouched who → Lawful (⟨time, who, target, .claimed⟩ :: log)
  /-- Only the last claimer writes a target. -/
  | write {log : Log} {who : Claimant} {target : String} (time : Nat) (value : Float) :
      Lawful log → log.claimer? target = some who → log.Open who →
      Lawful (⟨time, who, target, .wrote value⟩ :: log)
  | refuse {log : Log} {who : Claimant} (time : Nat) (target : String) :
      Lawful log → log.Untouched who →
      Lawful (⟨time, who, target, .ended (.error (.unknownTarget target))⟩ :: log)
  /-- Who is superseded may end at any time. -/
  | giveUp {log : Log} {who : Claimant} {target : String} (time : Nat) :
      Lawful log → log.claimer? target ≠ some who → log.Open who →
      Lawful (⟨time, who, target, .ended (.ok ())⟩ :: log)
  /-- Who is not superseded ends after a write. -/
  | finish {log : Log} {who : Claimant} {target : String} (time : Nat) (value : Float) :
      Lawful log → log.lastWrite? target = some (who, value) → log.Open who →
      Lawful (⟨time, who, target, .ended (.ok ())⟩ :: log)

/-! ### The last claimer and the latest write -/

variable {log later earlier : Log} {e w : Incident} {who : Claimant} {target : String}

@[simp] theorem claimer?_cons (e : Incident) (log : Log) (target : String) :
    claimer? (e :: log) target = (e.claimer? target).or (log.claimer? target) := by
  simp only [claimer?, List.findSome?_cons]
  cases e.claimer? target <;> rfl

@[simp] theorem lastWrite?_cons (e : Incident) (log : Log) (target : String) :
    lastWrite? (e :: log) target = (e.write? target).or (log.lastWrite? target) := by
  simp only [lastWrite?, List.findSome?_cons]
  cases e.write? target <;> rfl

/-! ### What an incident changes -/

section Changes

variable (time : Nat) (who : Claimant) (target other : String) (value : Float)
  (result : Except StepError Unit) (log : Log)

theorem claimer?_claimed : claimer? (⟨time, who, target, .claimed⟩ :: log) other
    = if other = target then some who else log.claimer? other := by
  by_cases h : other = target
  · simp [Incident.claimer?, h]
  · simp [Incident.claimer?, h, Ne.symm h]

@[simp] theorem claimer?_wrote :
    claimer? (⟨time, who, target, .wrote value⟩ :: log) other = log.claimer? other := by
  simp [Incident.claimer?]

@[simp] theorem claimer?_ended :
    claimer? (⟨time, who, target, .ended result⟩ :: log) other = log.claimer? other := by
  simp [Incident.claimer?]

theorem lastWrite?_wrote : lastWrite? (⟨time, who, target, .wrote value⟩ :: log) other
    = if other = target then some (who, value) else log.lastWrite? other := by
  by_cases h : other = target
  · simp [Incident.write?, h]
  · simp [Incident.write?, h, Ne.symm h]

theorem slotAfter_claimed : slotAfter (⟨time, who, target, .claimed⟩ :: log) other
    = if other = target then fun slot =>
        ⟨(log.slotAfter other slot).value, (log.slotAfter other slot).generation + 1⟩
      else log.slotAfter other := by
  funext slot
  by_cases h : other = target
  · simp [slotAfter, claims, Incident.claimer?, Incident.write?, h, Nat.add_assoc]
  · simp [slotAfter, claims, Incident.claimer?, Incident.write?, h, Ne.symm h]

theorem slotAfter_wrote : slotAfter (⟨time, who, target, .wrote value⟩ :: log) other
    = if other = target then fun slot => ⟨value, (log.slotAfter other slot).generation⟩
      else log.slotAfter other := by
  funext slot
  by_cases h : other = target
  · simp [slotAfter, claims, Incident.claimer?, Incident.write?, h]
  · simp [slotAfter, claims, Incident.claimer?, Incident.write?, h, Ne.symm h]

@[simp] theorem slotAfter_ended :
    slotAfter (⟨time, who, target, .ended result⟩ :: log) other = log.slotAfter other := by
  funext slot
  simp [slotAfter, claims, Incident.claimer?, Incident.write?]

end Changes

/-- What happens later changes what earlier incidents have made of a slot. -/
theorem slotAfter_append (later earlier : Log) (target : String) (slot : Slot Float) :
    slotAfter (later ++ earlier) target slot
      = later.slotAfter target (earlier.slotAfter target slot) := by
  rcases hlast : later.lastWrite? target with - | w <;>
    simp only [slotAfter, claims, lastWrite?, List.findSome?_append, List.countP_append]
      at hlast ⊢ <;>
    rw [hlast] <;> simp <;> omega

/-- What happens to other targets leaves a slot as it is. -/
theorem slotAfter_of_forall_ne (h : ∀ e ∈ log, e.target ≠ target) (slot : Slot Float) :
    log.slotAfter target slot = slot := by
  induction log with
  | nil => rfl
  | cons e log ih =>
    have hhead : target ≠ e.target := (h e List.mem_cons_self).symm
    have hrest := ih fun e he => h e (List.mem_cons_of_mem _ he)
    obtain ⟨time, who, other, deed⟩ := e
    cases deed with
    | claimed => rw [slotAfter_claimed, if_neg hhead, hrest]
    | wrote value => rw [slotAfter_wrote, if_neg hhead, hrest]
    | ended result => rw [slotAfter_ended, hrest]

/-- The last claimer has claimed the target. -/
theorem exists_claim (h : log.claimer? target = some who) :
    ∃ e ∈ log, e.who = who ∧ e.target = target ∧ e.deed = .claimed := by
  obtain ⟨e, he, hclaim⟩ := List.exists_of_findSome?_eq_some h
  unfold Incident.claimer? at hclaim
  split at hclaim
  · rename_i hdeed
    split at hclaim
    · rename_i htarget
      exact ⟨e, he, Option.some.inj hclaim, htarget, hdeed⟩
    · cases hclaim
  · cases hclaim

theorem Untouched.claimer?_ne (h : log.Untouched who) (target : String) :
    log.claimer? target ≠ some who := by
  intro hclaimer
  obtain ⟨e, he, hwho, -⟩ := exists_claim hclaimer
  exact h e he hwho

/-- Whoever came last to a target before something happened came with a claim: it is a later one, if
there is a later claim. -/
theorem claimer?_append_of_claim (hdeed : e.deed = .claimed) (htarget : e.target = target)
    (h : claimer? (later ++ e :: earlier) target = some who) :
    ∃ c mid, (∃ front, later ++ [e] = front ++ c :: mid) ∧ c.who = who ∧ c.deed = .claimed := by
  have hlast : claimer? (later ++ [e]) target = some who := by
    have hsplit : later ++ e :: earlier = (later ++ [e]) ++ earlier := by simp
    rw [hsplit, claimer?, List.findSome?_append] at h
    have hsome : (claimer? (later ++ [e]) target).isSome := by
      rw [claimer?, List.isSome_findSome?]
      simp [Incident.claimer?, hdeed, htarget]
    obtain ⟨c, hc⟩ := Option.isSome_iff_exists.1 hsome
    rw [claimer?] at hc
    rw [hc] at h
    exact hc.trans h
  obtain ⟨c, hc, hwho, -, hclaimed⟩ := exists_claim hlast
  obtain ⟨front, mid, hsplit⟩ := List.append_of_mem hc
  exact ⟨c, mid, ⟨front, hsplit⟩, hwho, hclaimed⟩

/-! ### What a lawful log keeps -/

namespace Lawful

/-- A log is lawful up to every moment. -/
theorem of_append (h : Lawful (later ++ earlier)) : Lawful earlier := by
  induction later with
  | nil => exact h
  | cons e later ih =>
    apply ih
    cases h <;> assumption

/-- **Only the last claimer of a target writes it.** -/
theorem claimer?_of_write (h : Lawful (later ++ e :: earlier)) {value : Float}
    (hdeed : e.deed = .wrote value) : claimer? earlier e.target = some e.who := by
  cases h.of_append with
  | write _ _ _ hclaimer _ => exact hclaimer
  | _ => cases hdeed

/-- A claim is the first deed of an operation. -/
theorem untouched_of_claim (h : Lawful (later ++ e :: earlier)) (hdeed : e.deed = .claimed) :
    Untouched earlier e.who := by
  cases h.of_append with
  | claim _ _ _ hnew => exact hnew
  | _ => cases hdeed

/-- **Whoever is superseded writes no more.**  After a claim of a target nobody writes the target who
has done anything before the claim. -/
theorem superseded (h : Lawful (later ++ e :: earlier)) (hclaim : e.deed = .claimed)
    (hw : w ∈ later) (htarget : w.target = e.target) {value : Float}
    (hwrote : w.deed = .wrote value) :
    Untouched earlier w.who := by
  obtain ⟨front, mid, rfl⟩ := List.append_of_mem hw
  rw [List.append_assoc, List.cons_append] at h
  obtain ⟨c, rest, ⟨front', hsplit⟩, hwho, hclaimed⟩ :=
    claimer?_append_of_claim hclaim htarget.symm (h.claimer?_of_write hwrote)
  -- the claim by which the writer came is the claim in question or a later one
  have hlog : front ++ w :: (mid ++ e :: earlier)
      = (front ++ w :: front') ++ c :: (rest ++ earlier) := by
    have hmid : mid ++ e :: earlier = front' ++ c :: (rest ++ earlier) := by
      simpa using congrArg (· ++ earlier) hsplit
    rw [hmid, List.append_assoc, List.cons_append]
  rw [hlog] at h
  intro x hx
  rw [← hwho]
  exact h.untouched_of_claim hclaimed x (List.mem_append_right _ hx)

/-- **Nobody does anything after its end.** -/
theorem silent_after_end (h : Lawful (later ++ e :: earlier)) {result : Except StepError Unit}
    (hdeed : e.deed = .ended result) : Untouched later e.who := by
  induction later with
  | nil => exact fun _ hx => absurd hx List.not_mem_nil
  | cons x later ih =>
    have hmem : e ∈ later ++ e :: earlier := List.mem_append_right _ List.mem_cons_self
    have hrest : Lawful (later ++ e :: earlier) :=
      of_append (show Lawful ([x] ++ (later ++ e :: earlier)) from h)
    have hhead : x.who ≠ e.who := by
      intro heq
      cases h with
      | claim _ _ _ hnew => exact hnew e hmem heq.symm
      | write _ _ _ _ hopen => exact hopen e hmem heq.symm result hdeed
      | refuse _ _ _ hnew => exact hnew e hmem heq.symm
      | giveUp _ _ _ hopen => exact hopen e hmem heq.symm result hdeed
      | finish _ _ _ _ hopen => exact hopen e hmem heq.symm result hdeed
    exact List.forall_mem_cons.2 ⟨hhead, ih hrest⟩

/-- **The last claimer writes last.**  Once the last claimer of a target has done more than claim it,
the latest write of the target is its own. -/
theorem lastWrite?_of_claimer? (h : Lawful log) (hclaimer : log.claimer? target = some who)
    (he : ∃ e ∈ log, e.who = who ∧ e.target = target ∧ e.deed ≠ .claimed) :
    ∃ value, log.lastWrite? target = some (who, value) := by
  induction h with
  | nil => cases hclaimer
  | @claim log who' time target' _ hnew ih =>
    obtain ⟨e, he, hwho, htarget, hdeed⟩ := he
    have he' : e ∈ log := (List.mem_cons.1 he).resolve_left fun heq => hdeed (heq ▸ rfl)
    by_cases ht : target' = target
    · -- the claim is the latest one, and the claimer has done nothing before
      have hwho' : who' = who := by simpa [Incident.claimer?, ht] using hclaimer
      exact absurd (hwho.trans hwho'.symm) (hnew e he')
    · have hkept : log.claimer? target = some who := by
        simpa [Incident.claimer?, ht] using hclaimer
      obtain ⟨value, hvalue⟩ := ih hkept ⟨e, he', hwho, htarget, hdeed⟩
      exact ⟨value, by simpa [Incident.write?] using hvalue⟩
  | @write log who' target' time value _ hlast _ ih =>
    have hkept : log.claimer? target = some who := by
      simpa [Incident.claimer?] using hclaimer
    by_cases ht : target' = target
    · subst ht
      obtain rfl : who' = who := Option.some.inj (hlast.symm.trans hkept)
      exact ⟨value, by simp [Incident.write?]⟩
    · obtain ⟨e, he, hwho, htarget, hdeed⟩ := he
      have he' : e ∈ log := (List.mem_cons.1 he).resolve_left fun heq => by
        subst heq
        exact ht htarget
      obtain ⟨value', hvalue⟩ := ih hkept ⟨e, he', hwho, htarget, hdeed⟩
      exact ⟨value', by simpa [Incident.write?, ht] using hvalue⟩
  | @refuse log who' time target' _ hnew ih =>
    have hkept : log.claimer? target = some who := by
      simpa [Incident.claimer?] using hclaimer
    obtain ⟨e, he, hwho, htarget, hdeed⟩ := he
    have he' : e ∈ log := (List.mem_cons.1 he).resolve_left fun heq => by
      subst heq
      exact hnew.claimer?_ne target (hkept.trans (congrArg some hwho.symm))
    obtain ⟨value, hvalue⟩ := ih hkept ⟨e, he', hwho, htarget, hdeed⟩
    exact ⟨value, by simpa [Incident.write?] using hvalue⟩
  | @giveUp log who' target' time _ hother _ ih =>
    have hkept : log.claimer? target = some who := by
      simpa [Incident.claimer?] using hclaimer
    obtain ⟨e, he, hwho, htarget, hdeed⟩ := he
    have he' : e ∈ log := (List.mem_cons.1 he).resolve_left fun heq => by
      subst heq
      obtain rfl : target' = target := htarget
      exact hother (hkept.trans (congrArg some hwho.symm))
    obtain ⟨value, hvalue⟩ := ih hkept ⟨e, he', hwho, htarget, hdeed⟩
    exact ⟨value, by simpa [Incident.write?] using hvalue⟩
  | @finish log who' target' time value _ hlast _ ih =>
    have hkept : log.claimer? target = some who := by
      simpa [Incident.claimer?] using hclaimer
    obtain ⟨e, he, hwho, htarget, hdeed⟩ := he
    rcases List.mem_cons.1 he with rfl | he'
    · obtain rfl : target' = target := htarget
      obtain rfl : who' = who := hwho
      exact ⟨value, by simpa [Incident.write?] using hlast⟩
    · obtain ⟨value', hvalue⟩ := ih hkept ⟨e, he', hwho, htarget, hdeed⟩
      exact ⟨value', by simpa [Incident.write?] using hvalue⟩

end Lawful

end Log

end Timeline
