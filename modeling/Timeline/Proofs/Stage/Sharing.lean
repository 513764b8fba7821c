/-
Timeline/Proofs/Stage/Sharing.lean

The rules of a driver that many share.

However calls that set and animate targets come and go on one driver, the last claimer
of a target has it to itself.  `Traffic.Rules` says what this comes to for the writes of
targets, for the animations that are superseded, for the ends of calls and for the
values that are left.

Main result (`Traffic.Reachable.keeps_rules`): all traffic keeps the rules.
-/
import Timeline.Proofs.Stage.Tending

namespace Timeline

namespace Traffic

open Log Relation

variable {d : Driver Float} {recorded : Bool} {y y' : Traffic} {call : Nat} {b : Convoy}
  {who : Claimant} {m : Motion Float} {next : Alarm} {target : String}

/-! ### What the calls change -/

/-- **What happens from one moment to another one** is what operations do to targets that their calls
name, and it accounts for all that becomes of the slots. -/
theorem Reachable.changes (h : y.Reachable d) (hmoves : Moves y y') :
    ∃ new, y'.log = new ++ y.log ∧ (∀ e ∈ new, y'.Names e.who e.target) ∧
      ∀ target, y'.driver.slots.get? target
        = (y.driver.slots.get? target).map (new.slotAfter target) := by
  obtain ⟨new, hnew⟩ := log_of_steps (steps_of_moves h.tidy hmoves)
  have hbefore := h.governed
  have hafter := (h.moves hmoves).governed
  refine ⟨new, hnew, fun e he => ?_, fun target => ?_⟩
  · exact hafter.named.log e (by rw [hnew]; exact List.mem_append_left _ he)
  · rw [hafter.sound.slots, hbefore.sound.slots, hnew, Option.map_map]
    congr 1
    funext slot
    exact slotAfter_append ..

/-- Whatever does not happen to a target leaves its slot as it is. -/
theorem get?_slots_of_forall_ne {new : Log}
    (hslots : y'.driver.slots.get? target = (y.driver.slots.get? target).map (new.slotAfter target))
    (h : ∀ e ∈ new, e.target ≠ target) :
    y'.driver.slots.get? target = y.driver.slots.get? target := by
  have hsame : new.slotAfter target = id := funext (slotAfter_of_forall_ne h)
  rw [hslots, hsame, Option.map_id_fun]
  rfl

/-- Visits to the rides of a call are incidents of the call. -/
theorem logAfter_eq (call : Nat) (log : Log) (visits : List (Visit Ride Unit)) :
    ∃ new, logAfter call log visits = new ++ log ∧ ∀ e ∈ new, e.who.call = call := by
  induction visits generalizing log with
  | nil => exact ⟨[], rfl, fun _ he => absurd he List.not_mem_nil⟩
  | cons v visits ih =>
    obtain ⟨new, hnew, hcall⟩ := ih (incidents v.before.now ⟨call, v.member⟩ v.deeds ++ log)
    refine ⟨new ++ incidents v.before.now ⟨call, v.member⟩ v.deeds, ?_, ?_⟩
    · rw [List.append_assoc]
      exact hnew
    · intro e he
      rcases List.mem_append.1 he with he | he
      · exact hcall e he
      · obtain ⟨_, -, rfl⟩ := List.mem_map.1 he
        rfl

theorem log_visit (recorded : Bool) (y : Traffic) (call : Nat) (b : Convoy) :
    (y.visit recorded call b).log = logAfter call y.log (b.tour recorded y.stage) := by
  unfold visit
  rcases b.poll recorded y.stage with ⟨s', b' | result⟩ <;> rfl

/-- **A visit to a call spares all targets that the call does not name.** -/
theorem Reachable.visit_spares (h : y.Reachable d) (hcall : y.calls call = some b)
    (hnot : ∀ i, ¬ y.Names ⟨call, i⟩ target) :
    (y.visit recorded call b).driver.slots.get? target = y.driver.slots.get? target := by
  obtain ⟨new, hnew, hnames, hslots⟩ := h.changes (.single (.visit recorded hcall))
  refine get?_slots_of_forall_ne (hslots target) fun e he htarget => ?_
  -- all that happens is the doing of the call
  obtain ⟨new', hnew', hof⟩ := logAfter_eq call y.log (b.tour recorded y.stage)
  obtain rfl : new' = new := by
    rw [log_visit, hnew'] at hnew
    exact List.append_cancel_right hnew
  obtain ⟨q, hq, hmember⟩ := hnames e he
  rw [(visit_visited recorded y call b).requests, hof e he] at hq
  exact hnot e.who.member ⟨q, hq, htarget ▸ hmember⟩

/-- To set a target spares all others. -/
theorem set_spares {other : String} (hne : other ≠ target) (value : Float) :
    (y.set target value).driver.slots.get? other = y.driver.slots.get? other :=
  (Stage.get?_slots_set ..).trans (if_neg hne)

/-- An unknown target stays unknown, operations on it are refused, and to set it changes nothing. -/
theorem Reachable.unknown (h : y.Reachable d) (hnone : d.slots.get? target = none) :
    y.driver.slots.get? target = none ∧
      (∀ e ∈ y.log, e.target = target → e.deed = .ended (.error (.unknownTarget target))) ∧
      ∀ value, (y.set target value).driver = y.driver := by
  have hslot : y.driver.slots.get? target = none := by
    rw [h.governed.sound.slots, hnone]
    rfl
  refine ⟨hslot, fun e he htarget => ?_, fun value => ?_⟩
  · rcases h.governed.fitting e he with ⟨-, hdeed⟩ | ⟨hsome, -⟩
    · rw [hdeed, htarget]
    · rw [htarget, hnone] at hsome
      cases hsome
  · show (y.stage.set target value).2.driver = y.driver
    simp [Stage.set, Driver.set?, Driver.claim?, hslot]

/-- **The last claimer leaves its value.** -/
theorem Reachable.settled (h : y.Reachable d) (hclaimer : y.log.claimer? target = some who)
    (he : ∃ e ∈ y.log, e.who = who ∧ e.target = target ∧ e.deed ≠ .claimed) :
    ∃ value, y.log.lastWrite? target = some (who, value) ∧ y.driver.get? target = some value := by
  have hgoverned := h.governed
  obtain ⟨value, hvalue⟩ := hgoverned.sound.lawful.lastWrite?_of_claimer? hclaimer he
  refine ⟨value, hvalue, ?_⟩
  obtain ⟨e, hmem, -, htarget, hdeed⟩ := exists_claim hclaimer
  -- a target that somebody has claimed is known
  have hknown : (d.slots.get? target).isSome := by
    rcases hgoverned.fitting e hmem with ⟨-, hrefused⟩ | ⟨hsome, -⟩
    · rw [hdeed] at hrefused
      cases hrefused
    · exact htarget ▸ hsome
  obtain ⟨slot, hslot⟩ := Option.isSome_iff_exists.1 hknown
  rw [Driver.get?, hgoverned.sound.slots, hslot]
  simp [slotAfter, hvalue]

/-- The last claimer leaves its value, if its call has ended well. -/
theorem Reachable.settled_of_resolved (h : y.Reachable d)
    (hclaimer : y.log.claimer? target = some who) {time : Nat}
    (hending : ⟨time, who.call, .resolved (.ok ())⟩ ∈ y.endings) :
    ∃ value, y.log.lastWrite? target = some (who, value) ∧ y.driver.get? target = some value := by
  have hgoverned := h.governed
  obtain ⟨claim, hmem, hwho, htarget, -⟩ := exists_claim hclaimer
  obtain ⟨q, hq, hmember⟩ := hgoverned.named.log claim hmem
  obtain ⟨q', hq', hended⟩ := hgoverned.answered.endings _ hending _ rfl
  rw [hwho] at hq hmember
  obtain rfl : q = q' := Option.some.inj (hq.symm.trans hq')
  obtain ⟨e, he, hwho', hdeed⟩ := hended who.member (List.getElem?_eq_some_iff.1 hmember).1
  refine h.settled hclaimer ⟨e, he, hwho', ?_, by rw [hdeed]; exact fun heq => by cases heq⟩
  -- an operation keeps to its target
  obtain ⟨q'', hq'', hmember'⟩ := hgoverned.named.log e he
  rw [hwho'] at hq'' hmember'
  obtain rfl : q = q'' := Option.some.inj (hq.symm.trans hq'')
  rw [← htarget]
  exact Option.some.inj (hmember'.symm.trans hmember)

/-! ### How calls end -/

/-- A call that is over stays so, and its operations do nothing more. -/
theorem Reachable.gone (h : y.Reachable d) (hlt : call < y.requests.length)
    (hcall : y.calls call = none) (hmoves : Moves y y') :
    y'.calls call = none ∧ ∀ i, y'.log.deedsOf ⟨call, i⟩ = y.log.deedsOf ⟨call, i⟩ := by
  have hsteps := steps_of_moves h.tidy hmoves
  have hgone (i : Nat) : y.Gone ⟨call, i⟩ := by
    refine ⟨hlt, fun r hr => ?_⟩
    obtain ⟨b, hc, -⟩ := hr
    rw [hcall] at hc
    cases hc
  refine ⟨?_, fun i => ((hgone i).steps hsteps).2⟩
  -- the ending that the call has had is the only one
  obtain ⟨ending, hmem, hending⟩ :=
    List.countP_pos_iff.1 (h.governed.counted.endingsOf_pos hlt hcall)
  have hpos : 0 < y'.endingsOf call :=
    List.countP_pos_iff.2 ⟨ending, mem_endings_of_steps hsteps hmem, hending⟩
  rcases hc : y'.calls call with - | b
  · rfl
  · have hzero := (h.moves hmoves).governed.counted.endingsOf_eq_zero hc
    omega

/-- A ride that is superseded fades, and nothing of it is left after the time of its next frame. -/
theorem Reachable.fades (h : y.Reachable d) (hr : y.Rides who (.moving m next))
    (hclaimer : y.log.claimer? m.target ≠ some who) (hmoves : Moves y y') :
    Fades y who m next y' ∧ (next.due < y'.now → y'.Gone who) := by
  have hfades : Fades y who m next y' :=
    Fades.steps (.waits hr rfl hclaimer rfl) h.governed (steps_of_moves h.tidy hmoves)
  refine ⟨hfades, fun hlate => ?_⟩
  cases hfades with
  | ended hgone _ => exact hgone
  | lost hgone _ _ _ _ => exact hgone
  | waits hr' hdue _ _ =>
    obtain ⟨_, -, -, hle, -⟩ := (h.moves hmoves).governed.timed.rides _ _ hr'
    omega

/-- **A call with a single animation that is superseded has its result at the next frame**, unless
it is dropped before. -/
theorem Reachable.resolves (h : y.Reachable d) {q : Request} (hq : y.requests[call]? = some q)
    (hone : q.targets.length = 1) (hr : y.Rides ⟨call, 0⟩ (.moving m next))
    (hclaimer : y.log.claimer? m.target ≠ some ⟨call, 0⟩) (hmoves : Moves y y')
    (hlate : next.due < y'.now) :
    ⟨next.due, call, .resolved (.ok ())⟩ ∈ y'.endings ∨
      ∃ time, ⟨time, call, .dropped⟩ ∈ y'.endings := by
  have hafter := (h.moves hmoves).governed
  have hq' := requests_of_steps (steps_of_moves h.tidy hmoves) hq
  obtain ⟨hfades, hgone⟩ := h.fades hr hclaimer hmoves
  cases hfades with
  | waits hr' _ _ _ => exact absurd hr' ((hgone hlate).2 _)
  | ended _ hdeeds =>
    have hmem : (⟨next.due, ⟨call, 0⟩, m.target, .ended (.ok ())⟩ : Incident) ∈ y'.log :=
      (List.mem_filter.1 (hdeeds ▸ List.mem_cons_self)).1
    exact .inl (hafter.prompt.mem_endings (h.moves hmoves).tidy hmem hq' hone rfl)
  | @lost ending _ hdeeds hmem hcall hfate =>
    obtain ⟨time, call', fate⟩ := ending
    obtain rfl : call' = call := hcall
    rcases fate with (error | u) | -
    · -- a call that fails has an operation that fails, and this one is the only one
      obtain ⟨i, e, he, hwho, hdeed⟩ := hafter.answered.endings _ hmem _ rfl
      obtain ⟨q', hq₁, htarget⟩ := hafter.named.log e he
      rw [hwho, hq'] at hq₁
      obtain rfl := Option.some.inj hq₁
      rw [hwho] at htarget
      obtain rfl : i = 0 := by
        have hlt : i < _ := (List.getElem?_eq_some_iff.1 htarget).1
        omega
      -- but it had not ended before, and it has done nothing since
      have hbefore : e ∈ y.log.deedsOf ⟨call', 0⟩ := by
        rw [← hdeeds]
        exact List.mem_filter.2 ⟨he, by simpa using hwho⟩
      exact absurd hdeed
        ((h.governed.sound.rides _ _ hr).1 e (List.mem_filter.1 hbefore).1 hwho _)
    · exact absurd rfl hfate
    · exact .inr ⟨time, hmem⟩

/-! ### The rules -/

/-- What holds at any moment of the traffic on a driver that was `d` in the beginning. -/
structure Rules (d : Driver Float) (y : Traffic) : Prop where
  /-- A target is written by its last claimer. -/
  claimed : ∀ later e earlier value, y.log = later ++ e :: earlier → e.deed = .wrote value →
    claimer? earlier e.target = some e.who
  /-- Once a target is claimed, nobody writes it any more who has come before. -/
  superseded : ∀ later e earlier, y.log = later ++ e :: earlier → e.deed = .claimed →
    ∀ w ∈ later, w.target = e.target → ∀ value, w.deed = .wrote value → Untouched earlier w.who
  /-- An animation that is superseded ends well at its own next frame and does nothing before, unless
  its call is over earlier. -/
  fades : ∀ who m next, y.Rides who (.moving m next) → y.log.claimer? m.target ≠ some who →
    ∀ y', Moves y y' → Fades y who m next y' ∧ (next.due < y'.now → y'.Gone who)
  /-- A call for a single animation ends with it. -/
  resolves : ∀ call q m next, y.requests[call]? = some q → q.targets.length = 1 →
    y.Rides ⟨call, 0⟩ (.moving m next) → y.log.claimer? m.target ≠ some ⟨call, 0⟩ →
    ∀ y', Moves y y' → next.due < y'.now →
      ⟨next.due, call, .resolved (.ok ())⟩ ∈ y'.endings ∨ ∃ time, ⟨time, call, .dropped⟩ ∈ y'.endings
  /-- Nobody does anything after its end. -/
  silent : ∀ later e earlier result, y.log = later ++ e :: earlier → e.deed = .ended result →
    Untouched later e.who
  /-- A call that was issued is under way or has one ending. -/
  counted : y.Counted
  /-- A call has the result of its operations: it ends well when all of them have, and fails when one
  of them does. -/
  accounted : ∀ ending ∈ y.endings, ∀ result, ending.fate = .resolved result →
    y.Accounted ending.call result
  /-- No call is under way for ever. -/
  timed : ∀ call b, y.calls call = some b →
    ∃ time, y.IssuedAt call time ∧ y.now ≤ time + Animation.longest + d.frame.ceilMillis
  /-- Nothing but the calls that go on is needed for all of them to have results, as long as there is
  any time between two frames. -/
  tended : 0 < d.frame.nanos → ∀ recorded, ∃ y', Tends recorded y y' ∧ (∀ call, y'.calls call = none) ∧
    ∀ call b, y.calls call = some b → ∃ time result, ⟨time, call, .resolved result⟩ ∈ y'.endings
  /-- The operations of a call that is over do nothing more. -/
  gone : ∀ call, call < y.requests.length → y.calls call = none → ∀ y', Moves y y' →
    y'.calls call = none ∧ ∀ i, y'.log.deedsOf ⟨call, i⟩ = y.log.deedsOf ⟨call, i⟩
  /-- Values and generations change by what operations do to targets that their calls name. -/
  changes : ∀ y', Moves y y' → ∃ new, y'.log = new ++ y.log ∧
    (∀ e ∈ new, y'.Names e.who e.target) ∧
    ∀ target, y'.driver.slots.get? target = (y.driver.slots.get? target).map (new.slotAfter target)
  /-- A visit to a call spares the targets that the call does not name. -/
  visit_spares : ∀ recorded call b target, y.calls call = some b →
    (∀ i, ¬ y.Names ⟨call, i⟩ target) →
    (y.visit recorded call b).driver.slots.get? target = y.driver.slots.get? target
  /-- To set a target spares all others. -/
  set_spares : ∀ target value other, other ≠ target →
    (y.set target value).driver.slots.get? other = y.driver.slots.get? other
  /-- An unknown target stays unknown, operations on it are refused, and to set it changes nothing. -/
  unknown : ∀ target, d.slots.get? target = none → y.driver.slots.get? target = none ∧
    (∀ e ∈ y.log, e.target = target → e.deed = .ended (.error (.unknownTarget target))) ∧
    ∀ value, (y.set target value).driver = y.driver
  /-- The value of a target is what its last claimer wrote last, once it has done more than claim. -/
  settled : ∀ target who, y.log.claimer? target = some who →
    (∃ e ∈ y.log, e.who = who ∧ e.target = target ∧ e.deed ≠ .claimed) →
    ∃ value, y.log.lastWrite? target = some (who, value) ∧ y.driver.get? target = some value
  /-- And so it is once its call has ended well. -/
  resolved : ∀ target who time, y.log.claimer? target = some who →
    ⟨time, who.call, .resolved (.ok ())⟩ ∈ y.endings →
    ∃ value, y.log.lastWrite? target = some (who, value) ∧ y.driver.get? target = some value

/-- **All traffic on a driver keeps the rules.** -/
theorem Reachable.keeps_rules (h : y.Reachable d) : y.Rules d where
  claimed _ _ _ _ hlog hdeed := (hlog ▸ h.governed.sound.lawful).claimer?_of_write hdeed
  superseded _ _ _ hlog hclaim _ hw htarget _ hwrote :=
    (hlog ▸ h.governed.sound.lawful).superseded hclaim hw htarget hwrote
  fades _ _ _ hr hclaimer _ hmoves := h.fades hr hclaimer hmoves
  resolves _ _ _ _ hq hone hr hclaimer _ hmoves hlate := h.resolves hq hone hr hclaimer hmoves hlate
  silent _ _ _ _ hlog hdeed := (hlog ▸ h.governed.sound.lawful).silent_after_end hdeed
  counted := h.governed.counted
  accounted := h.governed.answered.endings
  timed _ _ hcall := h.governed.timed.now_le h.tidy hcall
  tended hframe recorded := h.tended hframe recorded
  gone _ hlt hcall _ hmoves := h.gone hlt hcall hmoves
  changes _ hmoves := h.changes hmoves
  visit_spares _ _ _ _ hcall hnot := h.visit_spares hcall hnot
  set_spares _ value _ hne := set_spares hne value
  unknown _ hnone := h.unknown hnone
  settled _ _ hclaimer he := h.settled hclaimer he
  resolved _ _ _ hclaimer hending := h.settled_of_resolved hclaimer hending

/-! ### A run -/

/-- Nobody has called a driver yet. -/
def quiet : Traffic where
  stage := { driver := .ofValues [("opacity", 0)] 1, functions := {}, position := ⟨0, ""⟩ }

/-- What the first call asks for. -/
def fadeIn : List (String × Animation Float) :=
  [("opacity", ⟨1, .ofMillis 10000, .linear, false⟩)]

/-- It has written its first frame, -/
def animated : Traffic :=
  (quiet.issue fadeIn).visit false 0 (.ofBatch fadeIn)

/-- its target is set, -/
def overtaken : Traffic :=
  animated.set "opacity" 0.25

/-- the time of its next frame comes, -/
def aFrameLater : Traffic :=
  { overtaken with stage := { overtaken.stage with now := overtaken.now + 1 } }

/-- and it goes on. -/
def superseded : Traffic :=
  match aFrameLater.calls 0 with
  | some b => aFrameLater.visit false 0 b
  | none => aFrameLater

theorem reachable_overtaken : overtaken.Reachable quiet.driver := by
  have hissue : Move quiet (quiet.issue fadeIn) := .issue fadeIn
  have hvisit : Move (quiet.issue fadeIn) animated := .visit false rfl
  have hset : Move animated overtaken := .set "opacity" 0.25
  exact ⟨quiet.stage, rfl, ((ReflTransGen.single hissue).tail hvisit).tail hset⟩

/-- The animation waits for its next frame. -/
theorem rests_overtaken (call : Nat) : overtaken.Rests call := by
  intro b hc
  have htidy := reachable_overtaken.tidy
  have hlength : overtaken.requests.length = 2 := by decide +kernel
  have hlt := htidy.lt_of_calls hc
  have hover : (overtaken.calls 1).isNone := by decide +kernel
  have hzero : (overtaken.calls 0).map (fun b => (b.restless overtaken.now, b.length))
      = some (0, 1) := by decide +kernel
  obtain rfl : call = 0 := by
    by_contra hne
    obtain rfl : call = 1 := by omega
    rw [hc] at hover
    cases hover
  rw [hc] at hzero
  obtain ⟨hrestless, hone⟩ := Prod.mk.inj (Option.some.inj hzero)
  rcases htidy.rests_or hc with hrests | ⟨r, hr, hwaits⟩ | rfl
  · exact hrests b hc
  · exact absurd hrestless (Nat.ne_of_gt (Convoy.restless_pos hr hwaits))
  · cases hone

theorem moves_superseded : Moves overtaken superseded := by
  have hwait : Moves overtaken aFrameLater := (tend_rest false rests_overtaken).moves
  unfold superseded
  split
  · rename_i b hc
    exact hwait.tail (.visit false hc)
  · exact hwait

/-- An animation that was superseded by a write ends at its next frame and leaves the value alone. -/
theorem keeps_rules_superseded : superseded.Rules quiet.driver ∧
    (superseded.log.deedsOf ⟨0, 0⟩).map Incident.time = [1, 0, 0] ∧
    superseded.endings.map (fun ending => (ending.time, ending.call)) = [(1, 0), (0, 1)] ∧
    superseded.log.claimer? "opacity" = some ⟨1, 0⟩ ∧ superseded.driver.get? "opacity" = some 0.25 :=
  ⟨(reachable_overtaken.moves moves_superseded).keeps_rules, by decide +kernel, by decide +kernel,
    by decide +kernel, by decide +kernel⟩

end Traffic

end Timeline
