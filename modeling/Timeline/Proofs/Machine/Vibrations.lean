/-
Timeline/Proofs/Machine/Vibrations.lean

Vibrations are counted pass by pass.

Of all that the journal records, three things matter: that a `vibrate` step begins, that a
vibration is felt, and that the registers are restarted or rewound (`Beat`).  A vibration is due
right after the begin of a step that is to be felt (`Machine.Due`); then the owner of the registers
is about to vibrate, and nobody else can come in between.  `Ledger.InRhythm` says so of a ledger, and
that the flag in the registers tells whether a `vibrate` step has begun in the current stretch;
every deed keeps it (`Ledger.InRhythm.deed`).

Main result (`Config.Reachable.vibrations_counted`): in every stretch between two rewinds, a
machine that vibrates once does so at the first `vibrate` step that begins, whoever executes it, and
one that always vibrates does so at every one of them.
-/
import Timeline.Proofs.Machine.Passes
import Timeline.Proofs.Machine.Strides
import Timeline.Proofs.Stage.Stillness

namespace Timeline

open Relation

/-! ### Beats -/

/-- What happens to vibrations. -/
inductive Beat where
  /-- A `vibrate` step begins. -/
  | begun
  /-- A vibration is felt. -/
  | felt
  /-- The registers are restarted or rewound. -/
  | turned
deriving DecidableEq, Repr

/-- Whether an action is to vibrate. -/
def Action.vibrates : Action → Bool
  | .vibrate => true
  | _ => false

/-- What an event means for vibrations. -/
def Machine.beat? (m : Machine) : Event → Option Beat
  | .began _ index =>
    if (m.program.step? index).any (·.action.vibrates) then some .begun else none
  | .vibrated => some .felt
  | .restarted _ | .rewound _ => some .turned
  | _ => none

/-- The beats in the journal, the latest first. -/
def Stage.beats (m : Machine) (s : Stage) : List Beat :=
  s.journal.filterMap fun r => m.beat? r.event

namespace Beat

/-- The beats since the last turn, in order. -/
def stretch : List Beat → List Beat
  | [] => []
  | turned :: _ => []
  | beat :: before => stretch before ++ [beat]

/-- The stretches that have come to a turn, the latest first. -/
def earlier : List Beat → List (List Beat)
  | [] => []
  | turned :: before => stretch before :: earlier before
  | _ :: before => earlier before

theorem earlier_append {new before : List Beat} (h : turned ∉ new) :
    earlier (new ++ before) = earlier before := by
  induction new with
  | nil => rfl
  | cons beat rest ih =>
    obtain ⟨hbeat, hrest⟩ := not_or.1 (mt List.mem_cons.2 h)
    rw [List.cons_append, ← ih hrest]
    cases beat with
    | turned => exact absurd rfl hbeat
    | _ => rfl

end Beat

open Beat

namespace Machine

variable {m : Machine} {beats : List Beat}

/-- A `vibrate` step has just begun and is to be felt. -/
def Due (m : Machine) : List Beat → Prop
  | .begun :: before =>
    m.haptics.isSome ∧ (m.settings.vibration = .always ∨ .begun ∉ stretch before)
  | _ => False

/-- A vibration is felt exactly where it is due. -/
inductive Rhythm (m : Machine) : List Beat → Prop
  | nil : Rhythm m []
  | begun {before : List Beat} : Rhythm m before → ¬ m.Due before → Rhythm m (.begun :: before)
  | felt {before : List Beat} : Rhythm m before → m.Due before → Rhythm m (.felt :: before)
  | turned {before : List Beat} : Rhythm m before → ¬ m.Due before → Rhythm m (.turned :: before)

/-- What a stretch may look like that is not in the midst of a step. -/
def Counts (m : Machine) (stretch : List Beat) : Prop :=
  match m.haptics, m.settings.vibration with
  | none, _ => .felt ∉ stretch
  | some _, .always => ∃ n, stretch = (List.replicate n [.begun, .felt]).flatten
  | some _, .once => stretch = [] ∨ ∃ n, stretch = [.begun, .felt] ++ List.replicate n .begun

theorem Counts.nil : m.Counts [] := by
  unfold Counts
  split
  · simp
  · exact ⟨0, rfl⟩
  · exact .inl rfl

/-- A step that is not to be felt is counted as it begins. -/
theorem Counts.begun (h : m.Counts (stretch beats)) (hdue : ¬ m.Due (.begun :: beats)) :
    m.Counts (stretch (.begun :: beats)) := by
  have hstretch : stretch (.begun :: beats) = stretch beats ++ [.begun] := rfl
  unfold Counts at h ⊢
  rw [hstretch]
  split
  · rename_i hhaptics
    rw [hhaptics] at h
    simpa using h
  · rename_i hhaptics halways
    exact absurd ⟨by rw [hhaptics]; rfl, .inl halways⟩ hdue
  · rename_i hhaptics honce
    rw [hhaptics, honce] at h
    have hmem : Beat.begun ∈ stretch beats := by
      by_contra hnot
      exact hdue ⟨by rw [hhaptics]; rfl, .inr hnot⟩
    obtain hnil | ⟨n, hn⟩ := h
    · rw [hnil] at hmem
      cases hmem
    · refine .inr ⟨n + 1, ?_⟩
      rw [hn, List.replicate_succ', List.append_assoc]

/-- A step that is to be felt is counted with its vibration. -/
theorem Counts.felt (h : m.Counts (stretch beats)) (hdue : m.Due (.begun :: beats)) :
    m.Counts (stretch (.felt :: .begun :: beats)) := by
  have hstretch : stretch (.felt :: .begun :: beats) = stretch beats ++ [.begun, .felt] := by
    show stretch beats ++ [.begun] ++ [.felt] = _
    rw [List.append_assoc]
    rfl
  obtain ⟨hhaptics, hfeels⟩ := hdue
  unfold Counts at h ⊢
  rw [hstretch]
  split
  · rename_i hnone
    rw [hnone] at hhaptics
    cases hhaptics
  · rename_i hsome halways
    rw [hsome, halways] at h
    obtain ⟨n, hn⟩ := h
    refine ⟨n + 1, ?_⟩
    rw [hn, List.replicate_succ', List.flatten_append]
    rfl
  · rename_i hsome honce
    rw [hsome, honce] at h
    rw [honce] at hfeels
    have hnot : Beat.begun ∉ stretch beats := hfeels.resolve_left (by simp)
    obtain hnil | ⟨n, hn⟩ := h
    · exact .inr ⟨0, by rw [hnil]; rfl⟩
    · exact absurd (by rw [hn]; simp) hnot

/-- Who vibrates once does not do so twice. -/
theorem Counts.felt_le_one {s : List Beat} (h : m.Counts s) (honce : m.settings.vibration = .once) :
    s.count .felt ≤ 1 := by
  unfold Counts at h
  rw [honce] at h
  split at h
  · rw [List.count_eq_zero_of_not_mem h]
    exact Nat.zero_le _
  · contradiction
  · obtain rfl | ⟨n, rfl⟩ := h
    · exact Nat.zero_le _
    · simp [List.count_replicate]

/-- **In a rhythm every stretch is counted**; only the last step that has begun may still be due. -/
theorem Rhythm.counts (h : m.Rhythm beats) : (∀ s ∈ earlier beats, m.Counts s) ∧
    (¬ m.Due beats → m.Counts (stretch beats)) ∧
    (m.Due beats → ∃ before, beats = .begun :: before ∧ m.Counts (stretch before)) := by
  induction h with
  | nil => exact ⟨by simp [earlier], fun _ => .nil, fun hdue => hdue.elim⟩
  | begun _ hdue ih =>
    exact ⟨ih.1, fun hnot => (ih.2.1 hdue).begun hnot, fun _ => ⟨_, rfl, ih.2.1 hdue⟩⟩
  | felt _ hdue ih =>
    refine ⟨ih.1, fun _ => ?_, fun hdue => hdue.elim⟩
    obtain ⟨before, rfl, hcounts⟩ := ih.2.2 hdue
    exact hcounts.felt hdue
  | turned _ hdue ih =>
    refine ⟨?_, fun _ => .nil, fun hdue => hdue.elim⟩
    rintro s (- | ⟨-, hs⟩)
    · exact ih.2.1 hdue
    · exact ih.1 s hs

end Machine

/-! ### Beats of a deed -/

namespace Stage

variable {m : Machine} {s s' : Stage}

theorem beats_note (s : Stage) (e : Event) : (s.note e).beats m = (m.beat? e).toList ++ s.beats m := by
  unfold beats note
  rw [List.filterMap_cons]
  cases m.beat? e <;> rfl

/-- Acts without a vibration have no beats. -/
theorem Acts.beats {B : Bounds} (h : Acts B s s') (hcount : s'.vibrations = s.vibrations) :
    s'.beats m = s.beats m := by
  obtain ⟨new, hnew, hall⟩ := h.not_vibrated hcount
  have hnone : new.filterMap (fun r => m.beat? r.event) = [] := by
    rw [List.filterMap_eq_nil_iff]
    intro r hr
    obtain ⟨hpermits, hvibration⟩ := hall r hr
    cases hevent : r.event <;> rw [hevent] at hpermits hvibration <;>
      first | rfl | exact hpermits.elim | cases hvibration
  rw [Stage.beats, hnew, List.filterMap_append, hnone]
  rfl

theorem vibrations_restored (m : Machine) (s : Stage) :
    (m.restored s).vibrations = s.vibrations := by
  unfold Machine.restored
  induction m.initial.entries generalizing s with
  | nil => rfl
  | cons entry rest ih =>
    rw [List.foldl_cons]
    refine (ih _).trans ?_
    have hset := vibrations_set s entry.1 entry.2
    rcases h : s.set entry.1 entry.2 with ⟨known, s'⟩
    rw [h] at hset
    exact (vibrations_note rfl).trans hset

theorem beats_restored (s : Stage) : (m.restored s).beats m = s.beats m :=
  (Acts.restore (B := .free) m.initial.entries s).beats (vibrations_restored m s)

end Stage

namespace Ledger

variable {m : Machine} {l l' : Ledger} {id : Nat} {who : Stepper} {events : List Event}

theorem filterMap_beat? (e : Event) (events : List Event) :
    (e :: events).filterMap m.beat? = (m.beat? e).toList ++ events.filterMap m.beat? := by
  rw [List.filterMap_cons]
  cases m.beat? e <;> rfl

theorem Begins.beats (h : Begins m id who l events l') :
    l'.stage.beats m = events.filterMap m.beat? ++ l.stage.beats m := by
  cases h with
  | hold _ _ =>
    rw [filterMap_beat?, filterMap_beat?, filterMap_beat?]
    show Stage.beats m (Stage.note (Stage.note (Stage.note _ _) _) _) = _
    rw [Stage.beats_note, Stage.beats_note, Stage.beats_note]
    simp only [List.filterMap_nil, List.append_nil, List.append_assoc]
    rfl
  | step _ _ _ =>
    rw [filterMap_beat?, filterMap_beat?]
    show Stage.beats m (Stage.note (Stage.note _ _) _) = _
    rw [Stage.beats_note, Stage.beats_note]
    simp only [List.filterMap_nil, List.append_nil, List.append_assoc]
    rfl

theorem Entry.beats {purpose : Purpose} (h : Entry m id l purpose events l') :
    l'.stage.beats m = events.filterMap m.beat? ++ l.stage.beats m := by
  cases h with
  | step _ _ hbegins => exact hbegins.beats
  | next hbegins => exact hbegins.beats
  | rewind =>
    show .turned :: (m.restored l.stage).beats m = _
    rw [Stage.beats_restored]
    rfl
  | _ => rfl

/-- The beats of a deed are those of its milestones, unless it is to vibrate. -/
theorem Deed.beats (h : Deed m id l events l')
    (hstill : ∀ who index activity, l.phases id = some (.stepping who index activity) →
      activity.Still) :
    l'.stage.beats m = events.filterMap m.beat? ++ l.stage.beats m := by
  have hactivity {who : Stepper} {index : Nat} {activity : Activity} {s : Stage}
      {p : Progress Activity _} (hphase : l.phases id = some (.stepping who index activity))
      (hp : activity.poll l.stage = (s, p)) : s.beats m = l.stage.beats m := by
    have hcount := Activity.poll_still (hstill _ _ _ hphase) l.stage
    rw [hp] at hcount
    refine (Activity.poll_acts hp).beats ?_
    rcases p with a | result
    · exact hcount.1
    · exact hcount
  have hconvoy {convoy : Convoy} {s : Stage} {p : Progress Convoy _}
      (hp : convoy.poll false l.stage = (s, p)) : s.beats m = l.stage.beats m := by
    have hcount := convoy.vibrations_poll false l.stage
    rw [hp] at hcount
    exact (Convoy.poll_acts hp).beats hcount
  cases h with
  | take _ _ _ _ hentry => exact hentry.beats
  | enter _ _ _ hentry => exact hentry.beats
  | busy hphase hp =>
    have hs := hactivity hphase hp
    exact hs
  | ended hphase hp | executed hphase hp | crashed hphase hp | failed hphase hp =>
    have hs := hactivity hphase hp
    exact hs
  | move _ hp =>
    have hs := hconvoy hp
    exact hs
  | moved _ hp =>
    have hs := hconvoy hp
    exact hs
  | _ => rfl

/-- Whoever is to vibrate does so, and what is left of the step is still. -/
theorem Deed.vibrates (h : Deed m id l events l') {index : Nat} {time : Duration}
    (hphase : l.phases id = some (.stepping who index (.vibrating time))) :
    l'.stage.beats m = .felt :: l.stage.beats m ∧
      l'.registers.vibrated = l.registers.vibrated ∧
      ∀ who index activity, l'.phases id = some (.stepping who index activity) →
        activity.Still := by
  have hpoll := Activity.poll_vibrating time l.stage
  have hbeats {s : Stage} (hjournal : s.journal = (l.stage.note .vibrated).journal) :
      s.beats m = .felt :: l.stage.beats m := by
    rw [Stage.beats, hjournal]
    rfl
  cases h
  case busy hphase' hp =>
    cases hphase.symm.trans hphase'
    rw [hp] at hpoll
    obtain ⟨s, hs, -⟩ | ⟨s, a, hs, hstill, hjournal⟩ := hpoll
    · cases hs
    · cases hs
      refine ⟨hbeats hjournal, rfl, fun who index activity hafter => ?_⟩
      cases setPhase_self.symm.trans hafter
      exact hstill
  case ended hphase' hp =>
    cases hphase.symm.trans hphase'
    rw [hp] at hpoll
    obtain ⟨s, hs, hjournal⟩ | ⟨s, a, hs, -⟩ := hpoll
    · cases hs
      have hfelt := hbeats hjournal
      refine ⟨hfelt, rfl, fun who index activity hafter => ?_⟩
      cases setPhase_self.symm.trans hafter
    · cases hs
  case executed hphase' hp =>
    cases hphase.symm.trans hphase'
    rw [hp] at hpoll
    obtain ⟨s, hs, hjournal⟩ | ⟨s, a, hs, -⟩ := hpoll
    · cases hs
      have hfelt := hbeats hjournal
      refine ⟨hfelt, rfl, fun who index activity hafter => ?_⟩
      cases finish_self.symm.trans hafter
    · cases hs
  case crashed hphase' hp =>
    cases hphase.symm.trans hphase'
    rw [hp] at hpoll
    obtain ⟨s, hs, -⟩ | ⟨s, a, hs, -⟩ := hpoll <;> cases hs
  case failed hphase' hp =>
    cases hphase.symm.trans hphase'
    rw [hp] at hpoll
    obtain ⟨s, hs, -⟩ | ⟨s, a, hs, -⟩ := hpoll <;> cases hs
  all_goals cases hphase.symm.trans ‹l.phases id = some _›

theorem filterMap_beat?_eq_nil (h : ∀ e ∈ events, m.beat? e = none) :
    events.filterMap m.beat? = [] :=
  List.filterMap_eq_nil_iff.2 h

theorem beat?_of_returned (h : ∀ e ∈ events, ∃ result, e = .returned id result) :
    ∀ e ∈ events, m.beat? e = none := by
  intro e he
  obtain ⟨result, rfl⟩ := h e he
  rfl

/-- The beats of a step that begins, and how it goes on. -/
theorem Begins.activity (h : Begins m id who l events l') :
    ∃ (step : Step) (activity : Activity),
      m.begin l.registers.cursor step.action l.registers = (l'.registers, activity) ∧
      l'.phases = Function.update l.phases id
        (some (.stepping who l.registers.cursor activity)) ∧
      events.filterMap m.beat? = if step.action.vibrates then [.begun] else [] := by
  cases h with
  | @hold step hstep hhold =>
    refine ⟨step, _, ?_, rfl, ?_⟩
    · rw [hhold]
      rfl
    · simp [List.filterMap_cons, Machine.beat?, hstep, hhold, Action.vibrates]
  | @step step r activity hstep hhold hbegin =>
    refine ⟨step, activity, hbegin, rfl, ?_⟩
    cases hvibrates : step.action.vibrates <;>
      simp [List.filterMap_cons, Machine.beat?, hstep, hvibrates]

/-- Only a call that rewinds or a run that begins another pass comes to a turn. -/
theorem Deed.turns (h : Deed m id l events l') (hturned : .turned ∈ events.filterMap m.beat?) :
    l.Seeks id .rewind ∨ ∃ epoch, l.Seeks id (.restart epoch) := by
  obtain ⟨e, hmem, he⟩ := List.mem_filterMap.1 hturned
  have hbegins {l₁ : Ledger} {who : Stepper} (hb : Begins m id who l₁ events l') : False := by
    obtain ⟨step, activity, -, -, hevents⟩ := hb.activity
    rw [hevents] at hturned
    cases hvibrates : step.action.vibrates <;> simp [hvibrates] at hturned
  have hentry {l₁ : Ledger} {purpose : Purpose} (hb : Entry m id l₁ purpose events l')
      (hseeks : l.Seeks id purpose) : l.Seeks id .rewind ∨ ∃ epoch, l.Seeks id (.restart epoch) := by
    cases hb with
    | step _ _ hb => exact (hbegins hb).elim
    | next hb => exact (hbegins hb).elim
    | restart _ => exact .inr ⟨_, hseeks⟩
    | rewind => exact .inl hseeks
    | cancelled _ => exact .inr ⟨_, hseeks⟩
    | clear | around _ _ _ _ _ => cases hmem
    | _ =>
      rw [List.mem_singleton.1 hmem] at he
      cases he
  cases h with
  | take hphase _ _ _ hb => exact hentry hb (.inl hphase)
  | enter hphase _ _ hb => exact hentry hb (.inr hphase)
  | idle _ _ | empty _ _ | lost _ _ | drop _ _ _ _ | ended _ _ | moved _ _ =>
    rw [List.mem_singleton.1 hmem] at he
    cases he
  | resume _ _ _ _ | executed _ _ | crashed _ _ | failed _ _ =>
    rcases List.mem_cons.1 hmem with rfl | hmem
    · cases he
    · rw [List.mem_singleton.1 hmem] at he
      cases he
  | _ => cases hmem

theorem Aims.vibrated {r : Registers} (h : l.Aims m id who r) :
    r.vibrated = l.registers.vibrated := by
  cases h <;> rfl

/-! ### Pace -/

/-- Vibrations keep to the rhythm, the flag in the registers tells whether a `vibrate` step has
begun in the current stretch, and what executes a step is still, unless a vibration is due. -/
structure InRhythm (m : Machine) (l : Ledger) : Prop where
  rhythm : m.Rhythm (l.stage.beats m)
  flag : l.registers.vibrated = true ↔ .begun ∈ stretch (l.stage.beats m)
  due : m.Due (l.stage.beats m) →
    ∃ id who index time, l.phases id = some (.stepping who index (.vibrating time))
  still : ∀ {id who index activity}, l.phases id = some (.stepping who index activity) →
    activity.Still ∨ m.Due (l.stage.beats m) ∧ ∃ time, activity = .vibrating time

namespace InRhythm

/-- Whatever has no beat keeps the pace, if it leaves whoever is about to vibrate alone. -/
theorem congr (h : l.InRhythm m) (hbeats : l'.stage.beats m = l.stage.beats m)
    (hflag : l'.registers.vibrated = l.registers.vibrated)
    (hdue : ∀ {j who index time}, l.phases j = some (.stepping who index (.vibrating time)) →
      l'.phases j = l.phases j)
    (hsteps : ∀ {j who index activity}, l'.phases j = some (.stepping who index activity) →
      activity.Still ∨ l.phases j = some (.stepping who index activity)) : l'.InRhythm m where
  rhythm := hbeats ▸ h.rhythm
  flag := by
    rw [hbeats, hflag]
    exact h.flag
  due hfelt := by
    obtain ⟨j, who, index, time, hphase⟩ := h.due (hbeats ▸ hfelt)
    exact ⟨j, who, index, time, (hdue hphase).trans hphase⟩
  still hphase := by
    rw [hbeats]
    rcases hsteps hphase with hstill | hsame
    · exact .inl hstill
    · exact h.still hsame

/-- The registers are restarted or rewound. -/
theorem turned (h : l.InRhythm m) (hdue : ¬ m.Due (l.stage.beats m)) (hresting : l'.Resting)
    (hbeats : l'.stage.beats m = .turned :: l.stage.beats m)
    (hflag : l'.registers.vibrated = false) : l'.InRhythm m where
  rhythm := hbeats ▸ h.rhythm.turned hdue
  flag := by
    rw [hbeats, hflag]
    simp [stretch]
  due hfelt := by
    rw [hbeats] at hfelt
    exact hfelt.elim
  still hphase := absurd hphase (hresting _ _ _ _)

/-- Whoever is about to vibrate does so. -/
theorem vibrates (h : l.InRhythm m) (hkept : l.Kept) (hdeed : Deed m id l events l') {index : Nat}
    {time : Duration} (hphase : l.phases id = some (.stepping who index (.vibrating time))) :
    l'.InRhythm m := by
  have hdue : m.Due (l.stage.beats m) :=
    ((h.still hphase).resolve_left (Activity.not_still_vibrating time)).1
  obtain ⟨hbeats, hflag, hstill⟩ := hdeed.vibrates hphase
  refine ⟨hbeats ▸ h.rhythm.felt hdue, ?_, fun hfelt => ?_, fun {j who' index' activity} hj => ?_⟩
  · rw [hbeats, hflag, h.flag]
    simp [stretch]
  · rw [hbeats] at hfelt
    exact hfelt.elim
  · -- nobody else executes a step
    by_cases hne : j = id
    · subst hne
      exact .inl (hstill _ _ _ hj)
    · have hother {who index activity} (hx : l.phases j = some (.stepping who index activity)) :
          False :=
        hne (Option.some.inj ((hkept.owner hx).symm.trans (hkept.owner hphase)))
      rcases hdeed.other hne with hsame | ⟨_, _, _, -, hholder, -, -⟩
      · exact (hother (hsame ▸ hj)).elim
      · exact (hother hholder).elim

/-- While somebody is about to vibrate nobody else comes in between. -/
theorem bystander (h : l.InRhythm m) (hkept : l.Kept) (hdeed : Deed m id l events l') {owner : Nat}
    (hne : owner ≠ id) {index : Nat} {time : Duration}
    (hphase : l.phases owner = some (.stepping who index (.vibrating time))) : l'.InRhythm m := by
  have honly {j : Nat} {who' : Stepper} {index' : Nat} {activity : Activity}
      (hj : l.phases j = some (.stepping who' index' activity)) : j = owner :=
    Option.some.inj ((hkept.owner hj).symm.trans (hkept.owner hphase))
  obtain ⟨hregisters, -, hevents⟩ := hdeed.bystander hkept (hkept.owner hphase) hne
  have hbeats : l'.stage.beats m = l.stage.beats m := by
    rw [hdeed.beats fun _ _ _ hx => absurd (honly hx) hne.symm, filterMap_beat?_eq_nil]
    · rfl
    · intro e he
      rcases hevents e he with ⟨result, rfl⟩ | ⟨holder, release, rfl⟩ <;> rfl
  have hsame {j : Nat} (hj : j ≠ id) : l'.phases j = l.phases j := by
    rcases hdeed.other hj with hsame | ⟨_, _, _, -, hholder, -, -⟩
    · exact hsame
    · cases hphase.symm.trans (honly hholder ▸ hholder)
  refine h.congr hbeats (by rw [hregisters]) (fun hx => ?_) fun {j who' index' activity} hj => ?_
  · obtain rfl := honly hx
    exact hsame hne
  · by_cases hji : j = id
    · subst hji
      rcases hdeed.steps hj with ⟨⟨before, hbefore⟩, -⟩ | ⟨-, -, -, -, hbegan⟩
      · exact absurd (honly hbefore) hne.symm
      · rcases hevents _ hbegan with ⟨_, hnot⟩ | ⟨_, _, hnot⟩ <;> cases hnot
    · exact .inr (hsame hji ▸ hj)

/-- A step begins. -/
theorem begins (h : l.InRhythm m) (hdue : ¬ m.Due (l.stage.beats m)) (hresting : l.Resting)
    {l₁ : Ledger} (hb : Begins m id who l₁ events l') (hphases : l₁.phases = l.phases)
    (hflag : l₁.registers.vibrated = l.registers.vibrated)
    (hbeats : l'.stage.beats m = events.filterMap m.beat? ++ l.stage.beats m) : l'.InRhythm m := by
  obtain ⟨step, activity, hbegin, hphases', hevents⟩ := hb.activity
  have hactivity {j : Nat} {who' : Stepper} {index' : Nat} {activity' : Activity}
      (hj : l'.phases j = some (.stepping who' index' activity')) : activity' = activity := by
    rw [hphases', hphases] at hj
    by_cases hji : j = id
    · rw [hji, Function.update_self] at hj
      cases hj
      rfl
    · rw [Function.update_of_ne hji] at hj
      exact absurd hj (hresting _ _ _ _)
  rw [hevents] at hbeats
  by_cases hvibrate : step.action = .vibrate
  · rw [hvibrate] at hbegin hbeats
    replace hbeats : l'.stage.beats m = .begun :: l.stage.beats m := hbeats
    obtain ⟨hset, hfelt⟩ := Machine.begin_vibrate hbegin
    -- the step is to be felt exactly if it is due
    have hfeels : m.feels l₁.registers ↔
        m.settings.vibration = .always ∨ .begun ∉ stretch (l.stage.beats m) := by
      rw [Machine.feels, hflag, ← h.flag, Bool.not_eq_true]
    refine ⟨hbeats ▸ h.rhythm.begun hdue, ?_, fun hdue' => ?_, fun hj => ?_⟩
    · rw [hbeats, hset]
      simp [stretch]
    · rw [hbeats] at hdue'
      rcases hfelt with ⟨time, -, -, rfl⟩ | ⟨hnot, -⟩
      · exact ⟨id, who, _, time, by rw [hphases', Function.update_self]⟩
      · exact absurd ⟨hdue'.1, hfeels.2 hdue'.2⟩ hnot
    · obtain rfl := hactivity hj
      rcases hfelt with ⟨time, hhaptics, hfelt, rfl⟩ | ⟨-, hstill⟩
      · refine .inr ⟨?_, time, rfl⟩
        rw [hbeats]
        exact ⟨by rw [hhaptics]; rfl, hfeels.1 hfelt⟩
      · exact .inl hstill
  · obtain ⟨hset, hstill⟩ := Machine.begin_still hvibrate hbegin
    have hnot : step.action.vibrates = false := by
      cases haction : step.action <;> first | rfl | exact absurd haction hvibrate
    rw [hnot] at hbeats
    refine h.congr hbeats (hset.trans hflag) (fun hx => absurd hx (hresting _ _ _ _)) fun hj => ?_
    exact .inl (hactivity hj ▸ hstill)

/-- **Every deed keeps the pace.** -/
theorem deed (h : l.InRhythm m) (hkept : l.Kept) (hdeed : Deed m id l events l') : l'.InRhythm m := by
  by_cases hdue : m.Due (l.stage.beats m)
  · obtain ⟨owner, who, index, time, hphase⟩ := h.due hdue
    by_cases howner : owner = id
    · subst howner
      exact h.vibrates hkept hdeed hphase
    · exact h.bystander hkept hdeed howner hphase
  · -- nobody is about to vibrate
    have hstill {j : Nat} {who : Stepper} {index : Nat} {activity : Activity}
        (hj : l.phases j = some (.stepping who index activity)) : activity.Still :=
      (h.still hj).resolve_right fun hnot => hdue hnot.1
    have hnobody {P : Prop} {j : Nat} {who : Stepper} {index : Nat} {time : Duration}
        (hj : l.phases j = some (.stepping who index (.vibrating time))) : P :=
      absurd (hstill hj) (Activity.not_still_vibrating time)
    have hbeats := hdeed.beats fun _ _ _ hj => hstill hj
    have hquiet (hevents : ∀ e ∈ events, m.beat? e = none) :
        l'.stage.beats m = l.stage.beats m := by
      rw [hbeats, filterMap_beat?_eq_nil hevents]
      rfl
    cases hdeed.stride hkept with
    | aside hevents _ hsteps _ _ hflag =>
      exact h.congr (hquiet (beat?_of_returned hevents)) hflag (fun hj => hnobody hj)
        fun hj => .inr ((hsteps _ _ _ _).1 hj)
    | begins hresting _ haims hphases _ hb =>
      exact h.begins hdue hresting hb hphases haims.vibrated hbeats
    | @busy who index activity activity' s _ hphase hp hphases _ hregisters =>
      refine h.congr hbeats (by rw [hregisters]) (fun hj => hnobody hj) fun {j _ _ _} hj => ?_
      rw [hphases] at hj
      by_cases hji : j = id
      · rw [hji, Function.update_self] at hj
        cases hj
        have hpoll := Activity.poll_still (hstill hphase) l.stage
        rw [hp] at hpoll
        exact .inl hpoll.2
      · rw [Function.update_of_ne hji] at hj
        exact .inr hj
    | @releases _ release holder _ _ _ _ _ _ _ hholder hreturned hfreed hothers _ hregisters =>
      refine h.congr (hquiet fun e he => ?_) (by rw [hregisters]) (fun hj => hnobody hj)
        fun {j _ _ _} hj => ?_
      · rcases List.mem_append.1 he with he | he
        · exact beat?_of_returned hreturned e he
        · rw [List.mem_singleton.1 he]
          rfl
      · by_cases hjh : j = holder
        · subst hjh
          cases hfreed.symm.trans hj
          exact .inl trivial
        · exact absurd hj (hothers _ _ _ _ hjh)
    | ends _ _ hresting _ hregisters =>
      refine h.congr (hquiet fun e he => ?_) (by rw [hregisters]) (fun hj => hnobody hj)
        fun hj => absurd hj (hresting _ _ _ _)
      rcases List.mem_append.1 he with he | he
      · exact beat?_of_returned returned_of_mem_outro e he
      · rw [List.mem_singleton.1 he]
        rfl
    | fails _ _ hresting _ hregisters =>
      exact h.congr hbeats (by rw [hregisters]) (fun hj => hnobody hj)
        fun hj => absurd hj (hresting _ _ _ _)
    | restarts _ _ hresting _ hregisters =>
      exact h.turned hdue hresting hbeats (by rw [hregisters]; rfl)
    | rewinds _ _ hresting _ hregisters =>
      exact h.turned hdue hresting hbeats (by rw [hregisters])

/-- A new stretch begins only where the registers are restarted or rewound. -/
theorem earlier (h : l.InRhythm m) (hdeed : Deed m id l events l')
    (hnew : earlier (l'.stage.beats m) ≠ earlier (l.stage.beats m)) :
    l.Seeks id .rewind ∨ ∃ epoch, l.Seeks id (.restart epoch) := by
  by_cases hvibrating : ∃ who index time, l.phases id = some (.stepping who index (.vibrating time))
  · obtain ⟨who, index, time, hphase⟩ := hvibrating
    rw [(hdeed.vibrates hphase).1] at hnew
    exact absurd rfl hnew
  · have hbeats := hdeed.beats fun who index activity hphase =>
      (h.still hphase).resolve_right fun ⟨_, time, htime⟩ =>
        hvibrating ⟨who, index, time, htime ▸ hphase⟩
    refine hdeed.turns ?_
    by_contra hnot
    rw [hbeats, earlier_append hnot] at hnew
    exact hnew rfl

end InRhythm

end Ledger

/-! ### Runs of a machine -/

namespace Config

variable {m : Machine} {c c' : Config}

/-- Whatever happens is a deed, a new call, or has no beat and leaves all else alone. -/
theorem Ordered.deed_or_aside (h : c.Ordered) (hmove : Move m c c') :
    (∃ id events, Ledger.Deed m id c.ledger events c'.ledger) ∨
    c'.stage.beats m = c.stage.beats m ∧ c'.registers = c.registers ∧
      ((∃ call, c.phase? c.calls = none ∧
        c'.ledger.phases = Function.update c.ledger.phases c.calls (some (.issued call))) ∨
        c'.ledger.phases = c.ledger.phases) := by
  cases hmove with
  | step =>
    rcases hready : c.ready with - | ⟨id, rest⟩
    · rw [step_of_idle hready]
      exact .inr ⟨rfl, rfl, .inr rfl⟩
    · exact .inl ⟨id, h.deed hready⟩
  | issue call =>
    have hnone : c.phase? c.calls = none := role_eq_absent_iff.1 (h.fresh _ (Nat.le_refl _))
    rw [ledger_issue hnone]
    exact .inr ⟨rfl, rfl, .inl ⟨call, hnone, rfl⟩⟩
  | @tick due _ _ =>
    obtain ⟨ready, hready⟩ := c.tick_eq due
    rw [hready]
    exact .inr ⟨rfl, rfl, .inr rfl⟩
  | wait _ _ _ => exact .inr ⟨rfl, rfl, .inr rfl⟩
  | write target value =>
    have hacts := Stage.Acts.set (B := .free) c.stage target value
    exact .inr ⟨hacts.beats (Stage.vibrations_set _ _ _), rfl, .inr rfl⟩
  | register _ => exact .inr ⟨rfl, rfl, .inr rfl⟩

/-- **Whatever happens keeps to the rhythm.** -/
theorem Ordered.inRhythm (h : c.Ordered) (hrhythm : c.ledger.InRhythm m) (hmove : Move m c c') :
    c'.ledger.InRhythm m := by
  rcases h.deed_or_aside hmove with ⟨id, events, hdeed⟩ | ⟨hbeats, hregisters, hphases⟩
  · exact hrhythm.deed h.kept hdeed
  · refine hrhythm.congr hbeats (congrArg Registers.vibrated hregisters) (fun {j _ _ _} hj => ?_)
      fun {j _ _ _} hj => .inr ?_
    · rcases hphases with ⟨call, hnone, hphases⟩ | hphases
      · rw [hphases, Function.update_of_ne]
        rintro rfl
        cases hnone.symm.trans hj
      · rw [hphases]
    · rcases hphases with ⟨call, hnone, hphases⟩ | hphases
      · rw [hphases] at hj
        by_cases hjc : j = c.calls
        · rw [hjc, Function.update_self] at hj
          cases hj
        · rwa [Function.update_of_ne hjc] at hj
      · rwa [hphases] at hj

theorem Reachable.inRhythm (h : c.Reachable m) : c.ledger.InRhythm m := by
  obtain ⟨driver, functions, hmoves⟩ := h
  induction hmoves with
  | refl => exact ⟨.nil, ⟨(nomatch ·), (nomatch ·)⟩, nofun, nofun⟩
  | tail hbefore hmove ih => exact Ordered.inRhythm (Reachable.ordered ⟨_, _, hbefore⟩) ih hmove

/-- When nobody can go on nobody is about to vibrate. -/
theorem Reachable.not_due_of_quiet (h : c.Reachable m) (hquiet : c.quiet) :
    ¬ m.Due (c.stage.beats m) := by
  intro hdue
  obtain ⟨hready, hyielded⟩ := ready_of_quiet hquiet
  obtain ⟨id, who, index, time, hphase⟩ := h.inRhythm.due hdue
  have hrole : c.role id = .owner false false := role_of_phase? hphase
  rcases (Roster.Orderly.owner h.ordered hrole).rests with hr | hy | hfalse | hfalse
  · replace hr : id ∈ c.ready := hr
    rw [hready] at hr
    cases hr
  · replace hy : id ∈ c.yielded := hy
    rw [hyielded] at hy
    cases hy
  · cases hfalse
  · cases hfalse

/-- Only a run of a machine that loops begins another pass. -/
theorem Reachable.looping_of_restarts (h : c.Reachable m) {id : Nat} {phase : Phase}
    (hphase : c.phase? id = some phase) (hrestarts : phase.restarts = true) :
    m.settings.looping = true := by
  have hall : ∀ {id phase}, c.ledger.phases id = some phase → phase.restarts = true →
      m.settings.looping = true := by
    refine h.induction (P := fun l => ∀ {id phase}, l.phases id = some phase →
      phase.restarts = true → m.settings.looping = true) (fun _ _ => nofun) ?_
    intro l l' events ih _ hturn j phase hphase hrestarts
    cases hturn with
    | @deed id _ _ hdeed =>
      by_cases hj : j = id
      · subst hj
        rcases (hdeed.restarts hphase hrestarts).2 with ⟨before, hbefore, hb, -⟩ | ⟨epoch, hsees⟩
        · exact ih hbefore hb
        · exact hsees.looping
      · rcases hdeed.other hj with hsame | ⟨_, _, _, -, -, -, hreleased⟩
        · exact ih (hsame ▸ hphase) hrestarts
        · cases hreleased.symm.trans hphase
          cases hrestarts
    | issue call _ =>
      by_cases hj : j = l.calls
      · subst hj
        cases Ledger.setPhase_self.symm.trans hphase
        cases hrestarts
      · rw [Ledger.setPhase_of_ne hj] at hphase
        exact ih hphase hrestarts
    | outside _ _ _ => exact ih hphase hrestarts
  exact hall hphase hrestarts

/-- **Vibrations are counted pass by pass.**  In every stretch that has come to a rewind or a
restart, a machine that can vibrate and is to do so once does so at the first `vibrate` step that
begins and at no other, and one that always vibrates does so at each of them.  The same holds of the
current stretch, but for a step that has just begun, whose vibration is felt before anybody waits.
A new stretch begins only when a call to stop or to reset rewinds the machine, or when a run of a
machine that loops begins another pass. -/
theorem Reachable.vibrations_counted (h : c.Reachable m) :
    (∀ s ∈ earlier (c.stage.beats m), m.Counts s) ∧
    (m.Counts (stretch (c.stage.beats m)) ∨
      c.quiet = false ∧ ∃ s, stretch (c.stage.beats m) = s ++ [.begun] ∧ m.Counts s) ∧
    (m.settings.vibration = .once → (stretch (c.stage.beats m)).count .felt ≤ 1) ∧
    ∀ c', Move m c c' → earlier (c'.stage.beats m) ≠ earlier (c.stage.beats m) →
      (∃ id, c.ledger.Seeks id .rewind) ∨
      m.settings.looping = true ∧ ∃ id epoch, c.ledger.Seeks id (.restart epoch) := by
  have hrhythm := h.inRhythm
  obtain ⟨hearlier, hcurrent, hamid⟩ := hrhythm.rhythm.counts
  have hstretch : m.Counts (stretch (c.stage.beats m)) ∨
      c.quiet = false ∧ ∃ s, stretch (c.stage.beats m) = s ++ [.begun] ∧ m.Counts s := by
    by_cases hdue : m.Due (c.stage.beats m)
    · obtain ⟨before, hbefore, hcounts⟩ := hamid hdue
      refine .inr ⟨Bool.eq_false_iff.2 fun hquiet => h.not_due_of_quiet hquiet hdue,
        stretch before, ?_, hcounts⟩
      show stretch (c.ledger.stage.beats m) = _
      rw [hbefore]
      rfl
    · exact .inl (hcurrent hdue)
  refine ⟨hearlier, hstretch, fun honce => ?_, fun c' hmove hnew => ?_⟩
  · rcases hstretch with hcounts | ⟨-, s, hs, hcounts⟩
    · exact hcounts.felt_le_one honce
    · rw [hs, List.count_append]
      exact hcounts.felt_le_one honce
  · rcases h.ordered.deed_or_aside hmove with ⟨id, events, hdeed⟩ | ⟨hbeats, -, -⟩
    · refine (hrhythm.earlier hdeed hnew).imp (fun hseeks => ⟨id, hseeks⟩) ?_
      rintro ⟨epoch, hseeks⟩
      refine ⟨?_, id, epoch, hseeks⟩
      rcases hseeks with hphase | hphase
      · exact h.looping_of_restarts hphase rfl
      · exact h.looping_of_restarts hphase rfl
    · rw [hbeats] at hnew
      exact absurd rfl hnew

/-- A machine that stops between two vibrations of ten milliseconds. -/
def halting : Machine where
  program := ⟨[⟨{ action := .vibrate }, none⟩, ⟨{ action := .stop }, none⟩,
    ⟨{ action := .vibrate }, none⟩], {}⟩
  haptics := some ⟨10000000⟩

/-- It was started a second time after the `stop` step, has been reset, and executes one more
step. -/
def haltingAgain : Config :=
  ((((((fresh halting {} {}).issue .start).settle halting 20).tick 10).settle halting 20
    |>.issue .start).settle halting 20 |>.issue .reset).settle halting 20 |>.issue (.next none)
    |>.settle halting 20

theorem reachable_haltingAgain : haltingAgain.Reachable halting := by
  have hstart : (((fresh halting {} {}).issue .start).settle halting 20).Reachable halting :=
    ((Reachable.fresh {} {}).issue .start).settle 20
  have htick : (((((fresh halting {} {}).issue .start).settle halting 20).tick 10).settle
      halting 20).Reachable halting :=
    (hstart.move (.tick (by cbv) (by cbv))).settle 20
  exact (((((htick.issue .start).settle 20).issue .reset).settle 20).issue (.next none)).settle 20

theorem vibrations_counted_haltingAgain :
    haltingAgain.stage.beats halting = [.felt, .begun, .turned, .begun, .felt, .begun] ∧
    (∀ s ∈ [[Beat.begun, .felt, .begun]], halting.Counts s) ∧
    (halting.Counts [.begun, .felt] ∨
      haltingAgain.quiet = false ∧ ∃ s, [Beat.begun, .felt] = s ++ [.begun] ∧ halting.Counts s) ∧
    [Beat.begun, .felt].count .felt ≤ 1 := by
  have hbeats : haltingAgain.stage.beats halting
      = [.felt, .begun, .turned, .begun, .felt, .begun] := by cbv
  obtain ⟨hearlier, hstretch, honce, -⟩ := reachable_haltingAgain.vibrations_counted
  rw [hbeats] at hearlier hstretch honce
  exact ⟨hbeats, hearlier, hstretch, honce rfl⟩

end Config

end Timeline
