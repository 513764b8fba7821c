/-
Timeline/Proofs/Machine/Accounting.lean

Holds and calls for one step, accounted for.

A call for one step lets a parked hold go, or it executes a step; `Machine.Answers`
lists what it has recorded when it returns.  Main result
(`Config.Driven.accounts`): whatever the program and the calls are, every hold is
parked where none is, every call that lets a hold go reaches the parked one, every hold
that ends was let go by one such call, and every call for one step does one of its two
things.
-/
import Timeline.Proofs.Machine.Cancellation
import Timeline.Proofs.Machine.Parking
import Timeline.Proofs.Program.Labels

namespace Timeline

/-! ### Calls for one step -/

namespace Machine

/-- What a call for one step has recorded by the time it returns. -/
inductive Answers (id : Nat) (seek : Option Nat) : List Event → Prop
  /-- It has let a parked hold go. -/
  | releases (holder : Nat) :
      Answers id seek [.returned id (.ok ()), .released id holder (.resumed seek)]
  /-- It has executed a step. -/
  | executes (index : Nat) (flow : Flow) :
      Answers id seek [.returned id (.ok ()), .ended id index flow, .began id index]
  /-- It has executed a hold, and somebody else has let it go. -/
  | holds (index : Nat) (flow : Flow) :
      Answers id seek [.returned id (.ok ()), .ended id index flow, .parked id, .began id index]
  /-- The step that it has begun has failed. -/
  | fails (index : Nat) (e : StepError) :
      Answers id seek [.returned id (.error e), .failed id index e, .began id index]

/-- How far a call for one step has come, and what it has recorded. -/
inductive Attends (id : Nat) (seek : Option Nat) : Option Phase → List Event → Prop
  | waits {phase : Phase} : (∀ who index activity, phase ≠ .stepping who index activity) →
      Attends id seek (some phase) []
  | executes {who : Stepper} {index : Nat} {activity : Activity} :
      Attends id seek (some (.stepping who index activity)) [.began id index]
  | holds {who : Stepper} {index : Nat} {release : Option Release} :
      Attends id seek (some (.stepping who index (.holding release)))
        [.parked id, .began id index]
  | returned {events : List Event} : Answers id seek events → Attends id seek none events

variable {id : Nat} {seek : Option Nat} {phase : Phase} {events : List Event}

theorem Attends.eq_nil (h : Attends id seek (some phase) events)
    (hphase : ∀ who index activity, phase ≠ .stepping who index activity) : events = [] := by
  cases h with
  | waits _ => rfl
  | executes => exact absurd rfl (hphase _ _ _)
  | holds => exact absurd rfl (hphase _ _ _)

theorem Attends.busy {who : Stepper} {index : Nat} {activity activity' : Activity} {s s' : Stage}
    (h : Attends id seek (some (.stepping who index activity)) events)
    (hp : activity.poll s = (s', .busy activity')) :
    Attends id seek (some (.stepping who index activity')) events := by
  cases h with
  | waits hnot => exact absurd rfl (hnot _ _ _)
  | executes => exact .executes
  | holds =>
    rcases Activity.holding_of_poll_busy hp with ⟨-, rfl⟩ | ⟨hnot, -⟩
    · exact .holds
    · exact absurd rfl (hnot _)

theorem Attends.ended {who : Stepper} {index : Nat} {activity : Activity} {s s' : Stage}
    {flow : Flow} (h : Attends id seek (some (.stepping who index activity)) events)
    (hp : activity.poll s = (s', .finished (.ok flow))) :
    Answers id seek (.returned id (.ok ()) :: .ended id index flow :: events) := by
  cases h with
  | waits hnot => exact absurd rfl (hnot _ _ _)
  | executes => exact .executes index flow
  | holds => exact .holds index flow

theorem Attends.failed {who : Stepper} {index : Nat} {activity : Activity} {s s' : Stage}
    {e : StepError} (h : Attends id seek (some (.stepping who index activity)) events)
    (hp : activity.poll s = (s', .finished (.error e))) :
    Answers id seek (.returned id (.error e) :: .failed id index e :: events) := by
  cases h with
  | waits hnot => exact absurd rfl (hnot _ _ _)
  | executes => exact .fails index e
  | @holds _ _ release => cases release <;> cases hp

end Machine

namespace Ledger

open Machine

variable {m : Machine} {calls : List Call} {l l' : Ledger} {id : Nat} {who : Stepper}
  {events : List Event} {label : Option String} {seek : Option Nat}

theorem seek_eq_of_wants (hlabel : label.map m.program.labelIndex? = seek.map some)
    {seek' : Option Nat} (hwants : m.Wants (.next label) (.next seek')) : seek' = seek := by
  obtain ⟨label', hlabel', hseek⟩ := hwants
  cases hlabel'
  exact Option.map_injective (Option.some_injective _) (hseek.symm.trans hlabel)

/-- A call that begins a step records that. -/
theorem Begins.attends (h : Begins m id who l events l') :
    Attends id seek (l'.phases id) (ofCall id events) := by
  cases h with
  | hold _ _ =>
    rw [setPhase_self, ofCall_cons rfl, ofCall_cons rfl]
    exact .holds
  | step _ _ _ =>
    rw [setPhase_self, ofCall_cons rfl]
    exact .executes

/-- A call for one step that has become the owner of the registers begins a step. -/
theorem Entry.attends {purpose : Purpose} (h : Entry m id l purpose events l')
    (hwants : m.Wants (.next label) purpose) (hlength : 0 < m.program.length) :
    Attends id seek (l'.phases id) (ofCall id events) := by
  cases h with
  | next hb => exact hb.attends
  | vain hempty => exact absurd hempty hlength.ne'
  | clear => cases hwants
  | stopped _ => cases hwants
  | finished _ _ _ _ => cases hwants
  | around _ _ _ _ _ => cases hwants
  | step _ _ _ => cases hwants
  | cancelled _ => cases hwants.1
  | restart _ => cases hwants.1
  | rewind => rcases hwants with hwants | hwants <;> cases hwants

/-- What a call for one step does is a part of its account. -/
theorem Deed.attends (h : Deed m id l events l') {earlier : List Event}
    (hattends : Attends id seek (l.phases id) earlier)
    (hserves : ∀ phase, l.phases id = some phase → m.Serves (.next label) phase)
    (hlength : 0 < m.program.length) (hlabel : label.map m.program.labelIndex? = seek.map some) :
    Attends id seek (l'.phases id) (ofCall id events ++ earlier) := by
  -- a call that has not begun a step yet has recorded nothing
  have hnil {phase : Phase} (hphase : l.phases id = some phase)
      (hnot : ∀ who index activity, phase ≠ .stepping who index activity) : earlier = [] := by
    rw [hphase] at hattends
    exact hattends.eq_nil hnot
  have hwaits {phase phase' : Phase} (hphase : l.phases id = some phase)
      (hphase' : l'.phases id = some phase')
      (hnot : ∀ who index activity, phase ≠ .stepping who index activity)
      (hnot' : ∀ who index activity, phase' ≠ .stepping who index activity) :
      Attends id seek (l'.phases id) earlier := by
    rw [hphase', hnil hphase hnot]
    exact .waits hnot'
  have hbegins {phase : Phase} (hphase : l.phases id = some phase)
      (hnot : ∀ who index activity, phase ≠ .stepping who index activity)
      (hentry : Attends id seek (l'.phases id) (ofCall id events)) :
      Attends id seek (l'.phases id) (ofCall id events ++ earlier) := by
    rw [hnil hphase hnot, List.append_nil]
    exact hentry
  cases h with
  -- most deeds are those of other calls, as no call for one step is in their phases
  | start hphase _ _ => cases hserves _ hphase
  | idle hphase _ => cases hserves _ hphase
  | ask hphase _ _ => exact hwaits hphase setPhase_self (by simp) (by simp)
  | empty _ hempty => exact absurd hempty hlength.ne'
  | @lost name hphase hunknown =>
    cases hserves _ hphase
    rw [Option.map_some, hunknown] at hlabel
    cases seek <;> cases hlabel
  | stop hphase => cases hserves _ hphase
  | reset hphase => cases hserves _ hphase
  | animate hphase => cases hserves _ hphase
  | drop hphase _ _ _ => rcases hserves _ hphase with hwants | hwants <;> cases hwants
  | @resume holder index who seek' hphase _ _ _ =>
    obtain rfl := seek_eq_of_wants hlabel (hserves _ hphase)
    rw [hnil hphase (by simp), finish_self, ofCall_cons rfl, ofCall_cons rfl]
    exact .returned (.releases holder)
  | rest hphase _ _ => exact hwaits hphase hphase (by simp) (by simp)
  | permit hphase _ _ _ _ _ => exact hwaits hphase hphase (by simp) (by simp)
  | queue hphase _ _ _ => exact hwaits hphase setPhase_self (by simp) (by simp)
  | take hphase _ _ _ hb => exact hbegins hphase (by simp) (hb.attends (hserves _ hphase) hlength)
  | enter hphase _ _ hb => exact hbegins hphase (by simp) (hb.attends (hserves _ hphase) hlength)
  | withdraw hphase _ _ => exact hwaits hphase setPhase_self (by simp) (by simp)
  | wait hphase _ _ => exact hwaits hphase hphase (by simp) (by simp)
  | busy hphase hp =>
    rw [hphase] at hattends
    have hself := hattends.busy hp
    rw [← setPhase_self] at hself
    exact hself
  | ended hphase _ => cases hserves _ hphase
  | executed hphase hp =>
    rw [hphase] at hattends
    rw [finish_self, ofCall_cons rfl, ofCall_cons rfl]
    exact .returned (hattends.ended hp)
  | crashed hphase _ => cases hserves _ hphase
  | failed hphase hp =>
    rw [hphase] at hattends
    rw [finish_self, ofCall_cons rfl, ofCall_cons rfl]
    exact .returned (hattends.failed hp)
  | move hphase _ =>
    obtain ⟨batch, hanimate⟩ := hserves _ hphase
    cases hanimate
  | moved hphase _ =>
    obtain ⟨batch, hanimate⟩ := hserves _ hphase
    cases hanimate

/-- A call for one step stays as far as it is while others go on. -/
theorem Deed.attends_of_ne (h : Deed m id l events l') {j : Nat} (hj : j ≠ id)
    {earlier : List Event} (hattends : Attends j seek (l.phases j) earlier) :
    Attends j seek (l'.phases j) (ofCall j events ++ earlier) := by
  rw [h.ofCall_of_ne hj, List.nil_append]
  rcases h.other hj with hsame | ⟨who, index, release, -, hholder, -, hreleased⟩
  · rw [hsame]
    exact hattends
  · rw [hholder] at hattends
    rw [hreleased]
    cases hattends with
    | waits hnot => exact absurd rfl (hnot _ _ _)
    | executes => exact .executes
    | holds => exact .holds

/-! ### The slot of the parked hold -/

theorem Begins.of_began (h : Begins m id who l events l') {j index : Nat}
    (hmem : .began j index ∈ events) : j = id ∧ index = l.registers.cursor := by
  cases h <;> simpa using hmem

/-- A hold is parked where there is none. -/
theorem Stride.parked (h : Stride m id l events l') {j : Nat} (hmem : .parked j ∈ events) :
    l.hold = none ∧ l'.hold = some j := by
  rcases h.mem_cases hmem with ⟨_, ⟨⟩⟩ | ⟨_, _, -, hhold, -, hb⟩ | ⟨_, _, ⟨⟩, -⟩ | ⟨_, _, ⟨⟩⟩ |
    ⟨_, _, ⟨⟩, -⟩ | ⟨⟨⟩⟩ | ⟨⟨⟩⟩ | ⟨_, ⟨⟩⟩
  cases hb with
  | hold _ _ =>
    obtain rfl : j = id := by simpa using hmem
    exact ⟨hhold, rfl⟩
  | step _ _ _ => simp at hmem

/-- What lets a hold go finds it parked. -/
theorem Stride.released (h : Stride m id l events l') {caller holder : Nat} {release : Release}
    (hmem : .released caller holder release ∈ events) : l.hold = some holder ∧ l'.hold = none := by
  rcases h.mem_cases hmem with ⟨_, ⟨⟩⟩ | ⟨_, _, -, -, -, hb⟩ | ⟨_, _, ⟨⟩, hhold, hnone⟩ |
    ⟨_, _, ⟨⟩⟩ | ⟨_, _, ⟨⟩, -⟩ | ⟨⟨⟩⟩ | ⟨⟨⟩⟩ | ⟨_, ⟨⟩⟩
  · cases hb <;> simp at hmem
  · exact ⟨hhold, hnone⟩

/-- A step begins at the cursor of the registers that its call has got ready. -/
theorem Stride.began (h : Stride m id l events l') {j index : Nat}
    (hmem : .began j index ∈ events) :
    j = id ∧ index < m.program.length ∧ ∃ who r, l.Aims m id who r ∧ index = r.cursor := by
  rcases h.mem_cases hmem with ⟨_, ⟨⟩⟩ | ⟨_, _, -, -, haims, hb⟩ | ⟨_, _, ⟨⟩, -⟩ | ⟨_, _, ⟨⟩⟩ |
    ⟨_, _, ⟨⟩, -⟩ | ⟨⟨⟩⟩ | ⟨⟨⟩⟩ | ⟨_, ⟨⟩⟩
  obtain ⟨rfl, rfl⟩ := hb.of_began hmem
  exact ⟨rfl, hb.lt_length, _, _, haims, rfl⟩

/-! ### All calls -/

/-- All calls for one step that were issued are accounted for. -/
def Attended (m : Machine) (calls : List Call) (l : Ledger) : Prop :=
  ∀ id label seek, calls[id]? = some (.next label) →
    label.map m.program.labelIndex? = seek.map some → 0 < m.program.length →
    (id < l.calls → Attends id seek (l.phases id) (ofCall id l.stage.milestones)) ∧
      (l.calls ≤ id → ofCall id l.stage.milestones = [])

end Ledger

namespace Config

variable {m : Machine} {calls : List Call} {c : Config} {id : Nat}

theorem Driven.attended (h : c.Driven m calls) : c.ledger.Attended m calls := by
  intro id label seek hid hlabel hlength
  induction h with
  | fresh driver functions => exact ⟨fun hlt => (nomatch hlt), fun _ => rfl⟩
  | @issue c call hdriven hcall ih =>
    have hnone : c.phase? c.calls = none :=
      role_eq_absent_iff.1 (hdriven.reachable.ordered.fresh _ (Nat.le_refl _))
    rw [ledger_issue hnone]
    refine ⟨fun hlt => ?_, fun hle => ih.2 (Nat.le_of_succ_le hle)⟩
    by_cases hnew : id = c.calls
    · -- a call that has just come has recorded nothing
      subst hnew
      have hnothing : Ledger.ofCall c.calls c.stage.milestones = [] := ih.2 (Nat.le_refl _)
      show Machine.Attends c.calls seek _ (Ledger.ofCall c.calls c.stage.milestones)
      rw [Ledger.setPhase_self, hnothing]
      exact .waits (by simp)
    · rw [Ledger.setPhase_of_ne hnew]
      exact ih.1 (Nat.lt_of_le_of_ne (Nat.le_of_lt_succ hlt) hnew)
  | @move c c' hdriven hmove hcalls ih =>
    have hordered := hdriven.reachable.ordered
    rcases hordered.turn_of_calls_eq hmove hcalls with ⟨i, events, hdeed⟩ | ⟨s, hs, hledger⟩
    · rw [hdeed.milestones, Ledger.ofCall_append]
      have hsame : c'.ledger.calls = c.ledger.calls := hcalls
      rw [hsame]
      by_cases hi : id = i
      · subst hi
        obtain ⟨phase, hphase⟩ := hdeed.present
        have hlt : id < c.calls := by
          by_contra hle
          have hnone := role_eq_absent_iff.1 (hordered.fresh id (Nat.not_lt.1 hle))
          cases hnone.symm.trans hphase
        refine ⟨fun _ => hdeed.attends (ih.1 hlt) (fun phase hphase => ?_) hlength hlabel,
          fun hle => absurd hlt (Nat.not_lt.2 hle)⟩
        obtain ⟨call, hcall, hserves⟩ := hdriven.charged id phase hphase
        cases hid.symm.trans hcall
        exact hserves
      · refine ⟨fun hlt => hdeed.attends_of_ne hi (ih.1 hlt), fun hle => ?_⟩
        rw [hdeed.ofCall_of_ne hi, ih.2 hle]
        rfl
    · rw [hledger]
      show (_ → Machine.Attends id seek _ (Ledger.ofCall id s.milestones)) ∧
        (_ → Ledger.ofCall id s.milestones = [])
      rw [hs]
      exact ih

/-! ### The account -/

/-- The account of holds and of calls for one step, as far as a script has driven a machine. -/
structure Accounts (m : Machine) (calls : List Call) (c : Config) : Prop where
  /-- The hold that there is belongs to the owner of the registers, who has parked it; and nobody has
  let it go. -/
  hold_iff : ∀ id, c.hold = some id ↔
    c.lock.owner = some id ∧ ∃ index, m.Parks id index c.stage.milestones
  /-- A hold is parked where there is none. -/
  parked : ∀ c' events id, Move m c c' → c'.stage.milestones = events ++ c.stage.milestones →
    .parked id ∈ events → c.hold = none ∧ c'.hold = some id
  /-- What lets a hold go reaches the hold that is parked. -/
  released : ∀ c' events caller holder release, Move m c c' →
    c'.stage.milestones = events ++ c.stage.milestones → .released caller holder release ∈ events →
    c.hold = some holder ∧ c'.hold = none
  /-- A hold that was let go ends as it was told, or is still to end so and can go on; until then
  nothing happens but that others return. -/
  delivered : ∀ later caller holder release earlier,
    c.stage.milestones = later ++ .released caller holder release :: earlier →
    ∃ index, m.Parks holder index earlier ∧ caller ≠ holder ∧
      (∃ call, calls[caller]? = some call ∧ m.Releases call release) ∧
      ((∃ who, c.phase? holder = some (.stepping who index (.holding (some release)))) ∧
          (holder ∈ c.ready ∨ holder ∈ c.yielded) ∧ OthersReturn holder later ∨
        ∃ after waiting, later = after ++ .ended holder index release.flow :: waiting ∧
          OthersReturn holder waiting)
  /-- A hold that ends was let go by one call, and ends as that call said. -/
  ended : ∀ later id index flow earlier,
    c.stage.milestones = later ++ .ended id index flow :: earlier → m.IsHold index →
    ∃ caller release, m.Freed calls id index caller release earlier ∧ flow = release.flow
  /-- No hold fails. -/
  failed : ∀ id index e, .failed id index e ∈ c.stage.milestones → ¬ m.IsHold index
  /-- A call for one step that has returned has let a parked hold go, or begun a step; not both. -/
  answered : ∀ id label seek result, calls[id]? = some (.next label) →
    label.map m.program.labelIndex? = seek.map some → 0 < m.program.length →
    .returned id result ∈ c.stage.milestones →
    Machine.Answers id seek (Ledger.ofCall id c.stage.milestones)
  /-- The step that it begins is the one at its label, or at the cursor, or the first one. -/
  began : ∀ c' events id index label seek, Move m c c' →
    c'.stage.milestones = events ++ c.stage.milestones → .began id index ∈ events →
    calls[id]? = some (.next label) → label.map m.program.labelIndex? = seek.map some →
    index = m.wrap (seek.getD c.registers.cursor) ∧
      ∀ (scenario : Scenario) (options : CompileOptions) (target : Nat),
        m.program = (scenario.compile options).program → seek = some target → index = target

theorem Ordered.can_go_on (h : c.Ordered) {who : Stepper} {index : Nat} {release : Release}
    (hphase : c.phase? id = some (.stepping who index (.holding (some release)))) :
    id ∈ c.ready ∨ id ∈ c.yielded := by
  have hrole : c.role id = .owner false false :=
    (role_of_phase? hphase).trans (Phase.role_stepping (by simp))
  rcases (h.owner hrole).rests with hready | hyielded | hnot | hnot
  · exact .inl hready
  · exact .inr hyielded
  · cases hnot
  · cases hnot

theorem Driven.hold_iff (h : c.Driven m calls) : c.hold = some id ↔
    c.lock.owner = some id ∧ ∃ index, m.Parks id index c.stage.milestones := by
  have hkept := h.reachable.ordered.kept
  obtain ⟨parking, hcustody, hguards⟩ := h.guarded
  constructor
  · intro hhold
    obtain ⟨who, index, hphase⟩ := hkept.hold.1 hhold
    obtain rfl := hguards.releases hkept hphase
    exact ⟨hkept.owner hphase, index, hcustody.parks⟩
  · rintro ⟨-, index, hparks⟩
    obtain rfl := hcustody.eq_parked hparks
    cases hguards with
    | parked hphase => exact hkept.hold.2 ⟨_, _, hphase⟩

theorem Driven.delivered (h : c.Driven m calls) {later earlier : List Event}
    {caller holder : Nat} {release : Release}
    (hevents : c.stage.milestones = later ++ .released caller holder release :: earlier) :
    ∃ index, m.Parks holder index earlier ∧ caller ≠ holder ∧
      (∃ call, calls[caller]? = some call ∧ m.Releases call release) ∧
      ((∃ who, c.phase? holder = some (.stepping who index (.holding (some release)))) ∧
          (holder ∈ c.ready ∨ holder ∈ c.yielded) ∧ OthersReturn holder later ∨
        ∃ after waiting, later = after ++ .ended holder index release.flow :: waiting ∧
          OthersReturn holder waiting) := by
  obtain ⟨parking, hcustody, hguards⟩ := h.guarded
  obtain ⟨index, hparks, hne, hcall, hlater⟩ := hcustody.of_released hevents
  refine ⟨index, hparks, hne, hcall, hlater.imp_left ?_⟩
  rintro ⟨rfl, hwaiting⟩
  cases hguards with
  | freed hphase => exact ⟨⟨_, hphase⟩, h.reachable.ordered.can_go_on hphase, hwaiting⟩

/-- Milestones up to one of them can be read as what becomes of holds. -/
theorem Driven.custody (h : c.Driven m calls) {later earlier : List Event}
    (hevents : c.stage.milestones = later ++ earlier) :
    ∃ parking, m.Custody calls earlier parking := by
  obtain ⟨parking, hcustody, -⟩ := h.guarded
  exact hcustody.suffix hevents

theorem Driven.answered (h : c.Driven m calls) {label : Option String} {seek : Option Nat}
    {result : Except StepError Unit} (hid : calls[id]? = some (.next label))
    (hlabel : label.map m.program.labelIndex? = seek.map some) (hlength : 0 < m.program.length)
    (hreturned : .returned id result ∈ c.stage.milestones) :
    Machine.Answers id seek (Ledger.ofCall id c.stage.milestones) := by
  have hmem : .returned id result ∈ Ledger.ofCall id c.stage.milestones :=
    List.mem_filter.2 ⟨hreturned, by simp [Event.call?]⟩
  obtain ⟨hissued, hnot⟩ := h.attended id label seek hid hlabel hlength
  rcases Nat.lt_or_ge id c.calls with hlt | hle
  · have hattends := hissued hlt
    generalize c.ledger.phases id = phase at hattends
    generalize hevents : Ledger.ofCall id c.stage.milestones = events at hmem
    have hsame : Ledger.ofCall id c.ledger.stage.milestones = events := hevents
    rw [hsame] at hattends
    cases hattends with
    | waits _ => cases hmem
    | executes => simp at hmem
    | holds => simp at hmem
    | returned hanswers => exact hanswers
  · have hnothing : Ledger.ofCall id c.stage.milestones = [] := hnot hle
    rw [hnothing] at hmem
    cases hmem

theorem Driven.began (h : c.Driven m calls) {i index : Nat} {events : List Event} {l' : Ledger}
    (hdeed : Ledger.Deed m i c.ledger events l') (hbegan : .began id index ∈ events)
    {label : Option String} {seek : Option Nat} (hid : calls[id]? = some (.next label))
    (hlabel : label.map m.program.labelIndex? = seek.map some) :
    index = m.wrap (seek.getD c.registers.cursor) ∧
      ∀ (scenario : Scenario) (options : CompileOptions) (target : Nat),
        m.program = (scenario.compile options).program → seek = some target → index = target := by
  obtain ⟨rfl, hlt, who, r, haims, rfl⟩ := (hdeed.stride h.reachable.ordered.kept).began hbegan
  have hcharged {phase : Phase} (hphase : c.ledger.phases id = some phase) :
      m.Serves (.next label) phase := by
    obtain ⟨call, hcall, hserves⟩ := h.charged id phase hphase
    cases hid.symm.trans hcall
    exact hserves
  have hwants {purpose : Purpose} (hseeks : c.ledger.Seeks id purpose) :
      m.Wants (.next label) purpose := hseeks.elim hcharged hcharged
  cases haims with
  | run hseeks => cases hwants hseeks
  | @next seek' hseeks =>
    obtain rfl := Ledger.seek_eq_of_wants hlabel (hwants hseeks)
    refine ⟨rfl, ?_⟩
    rintro scenario options target hprogram rfl
    cases label with
    | none => cases hlabel
    | some name =>
      have htarget : m.program.labelIndex? name = some target := Option.some.inj hlabel
      rw [hprogram] at htarget
      have hinside := scenario.labelIndex?_lt options htarget
      rw [← hprogram] at hinside
      exact if_neg (Nat.not_le.2 hinside)

/-- **Holds and calls for one step, accounted for.**  Whatever the program and the calls are, the
account is right at all times. -/
theorem Driven.accounts (h : c.Driven m calls) : c.Accounts m calls where
  hold_iff id := h.hold_iff
  parked c' events id hmove hevents hparked := by
    obtain ⟨_, hdeed⟩ := h.reachable.ordered.deed_of_milestones hmove hevents hparked
    exact (hdeed.stride h.reachable.ordered.kept).parked hparked
  released c' events caller holder release hmove hevents hreleased := by
    obtain ⟨_, hdeed⟩ := h.reachable.ordered.deed_of_milestones hmove hevents hreleased
    exact (hdeed.stride h.reachable.ordered.kept).released hreleased
  delivered later caller holder release earlier hevents := h.delivered hevents
  ended later id index flow earlier hevents hhold := by
    obtain ⟨parking, hcustody⟩ := h.custody hevents
    exact hcustody.freed_of_ended hhold
  failed id index e hfailed := by
    obtain ⟨later, earlier, hevents⟩ := List.append_of_mem hfailed
    obtain ⟨parking, hcustody⟩ := h.custody hevents
    exact hcustody.not_isHold_of_failed
  answered id label seek result hid hlabel hlength hreturned :=
    h.answered hid hlabel hlength hreturned
  began c' events id index label seek hmove hevents hbegan hid hlabel := by
    obtain ⟨_, hdeed⟩ := h.reachable.ordered.deed_of_milestones hmove hevents hbegan
    exact h.began hdeed hbegan hid hlabel

/-- A call that has parked a hold is let go by one that asks for a label. -/
theorem accounts_pastLabel :
    (∃ caller release,
      holdLabel.Freed labelCalls 0 0 caller release
        [.returned 1 (.ok ()), .released 1 0 (.resumed (some 2)), .parked 0, .began 0 0,
          .published ⟨0, "hold-0"⟩] ∧ Flow.jump 2 = release.flow) ∧
    Machine.Answers 0 none (Ledger.ofCall 0 pastLabel.stage.milestones) ∧
    Machine.Answers 1 (some 2) (Ledger.ofCall 1 pastLabel.stage.milestones) := by
  have hevents : pastLabel.stage.milestones = [.returned 2 (.ok ()), .ended 2 2 .advance,
      .began 2 2, .published ⟨2, "on"⟩, .returned 0 (.ok ())] ++ .ended 0 0 (.jump 2) ::
        [.returned 1 (.ok ()), .released 1 0 (.resumed (some 2)), .parked 0, .began 0 0,
          .published ⟨0, "hold-0"⟩] := by cbv
  refine ⟨driven_pastLabel.accounts.ended _ 0 0 (.jump 2) _ hevents ⟨_, by cbv, rfl⟩, ?_, ?_⟩
  · exact driven_pastLabel.accounts.answered 0 none none (.ok ()) (by cbv) rfl (by cbv)
      (by simp [hevents])
  · exact driven_pastLabel.accounts.answered 1 (some "on") (some 2) (.ok ()) (by cbv) (by cbv)
      (by cbv) (by simp [hevents])

end Config

end Timeline
