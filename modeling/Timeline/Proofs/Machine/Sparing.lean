/-
Timeline/Proofs/Machine/Sparing.lean

What a step has done before it fails.

A step resolves all its operands before it deals with the values, and where it has
changed the registers when it began it cannot fail any more.  `Activity.Spares` says so of
what a step is busy with, and is all that is needed to know about the single kinds of steps.
Main results: every step begins in that way (`Machine.begin_spares`), and goes on in that way
until it is over (`Activity.poll_spares`).
-/
import Timeline.Proofs.Machine.Safety
import Timeline.Proofs.Stage.Dealings

namespace Timeline

/-! ### Errors of operands -/

/-- The tweens of a step. -/
def Action.tweens : Action → List Tween
  | .move tween => [tween]
  | .parallel tweens => tweens
  | _ => []

/-- The destination of a tween is relative to the value that its target has. -/
def Tween.IsRelative (t : Tween) : Prop :=
  ∀ o, t.destination ≠ .absolute o

/-- An error with which an operand of a step may fail to be resolved.  It may have a value of the
wrong kind, or a function may fail or be missing; and the target that it is relative to may be
unknown. -/
def Action.OperandError (action : Action) (e : StepError) : Prop :=
  e.IsRuntime ∨ ∃ t ∈ action.tweens, t.IsRelative ∧ e = .unknownTarget t.target

/-- What is known of the work of a step: it may write what it cannot fail to resolve. -/
def Action.care (action : Action) (known : String → Prop) (fails : Prop) : Care where
  known := known
  dealt target := ¬ action.OperandError (.unknownTarget target)
  fails := fails

/-- An unknown target that no operand is relative to is no error of an operand. -/
theorem Action.not_operandError {action : Action} (known : String → Prop) {target : String}
    (hunknown : ¬ known target) (hfound : ∀ t ∈ action.tweens, t.IsRelative → known t.target) :
    ¬ action.OperandError (.unknownTarget target) := by
  rintro ((⟨_, _, he⟩ | ⟨_, he⟩) | ⟨t, ht, hrelative, he⟩)
  · cases he
  · cases he
  · cases he
    exact hunknown (hfound t ht hrelative)

/-! ### Operands are resolved with care -/

section Operands

variable {C : Care}

theorem Operand.resolve_careful (o : Operand) (h : C.fails) :
    o.resolve.Careful C fun _ => True := by
  cases o with
  | literal v => trivial
  | named name => exact ⟨h, fun _ => trivial⟩
  | function body => exact ⟨.inl h, fun _ => trivial⟩

theorem Operand.number_careful (o : Operand) (field : String) (h : C.fails) :
    (o.number field).Careful C fun _ => True := by
  refine (resolve_careful (C := C.resolving) o h).bind fun v _ => ?_
  rcases v.float? with - | x
  · exact h
  · trivial

theorem Operand.duration_careful (o : Operand) (h : C.fails) :
    o.duration.Careful C fun _ => True := by
  refine (resolve_careful (C := C.resolving) o h).bind fun v _ => ?_
  rcases v.float?.bind Duration.ofMillis? with - | d
  · exact h
  · trivial

theorem Operand.holds_careful (o : Operand) (h : C.fails) : o.holds.Careful C fun _ => True :=
  (resolve_careful (C := C.resolving) o h).bind fun _ _ => trivial

/-- A relative destination that is resolved has found its target. -/
theorem Destination.number_careful (d : Destination) (target : String) (h : C.fails) :
    (d.number target).Careful C fun _ => (∀ o, d ≠ .absolute o) → C.known target := by
  refine (Operand.number_careful (C := C.resolving) d.operand "to" h).bind fun amount _ => ?_
  cases d with
  | absolute o => exact fun hrelative => absurd rfl (hrelative o)
  | inc _ | dec _ =>
    intro v hv
    rcases v with - | x
    · exact h
    · exact fun _ => hv.1 rfl

theorem Tween.prepare_careful (t : Tween) (h : C.fails) :
    t.prepare.Careful C fun _ => t.IsRelative → C.known t.target := by
  refine (Destination.number_careful (C := C.resolving) t.destination t.target h).bind
    fun _ hfound => ?_
  exact (Operand.duration_careful (C := C.resolving) t.duration h).bind fun _ _ => hfound

theorem Program.jump_careful (p : Program) (label : String) (h : C.fails) :
    (p.jump label).Careful C fun _ => True := by
  rcases hlabel : p.labelIndex? label with - | target <;> simp only [jump, hlabel]
  · exact h
  · trivial

end Operands

/-! ### Steps spare the values as long as they may fail -/

/-- What is known of the operands of a tween while they are resolved, and afterwards. -/
def Tween.Resolves (C : Care) (t : Tween) :
    Progress (Course (String × Animation Float)) (Except StepError (String × Animation Float)) →
      Prop
  | .busy course => course.Careful C.resolving fun _ => t.IsRelative → C.known t.target
  | .finished (.ok _) => t.IsRelative → C.known t.target
  | .finished (.error _) => True

/-- The same, by the number of the tween. -/
def Action.Resolves (action : Action) (known : String → Prop) (fails : Prop) (i : Nat)
    (p : Progress (Course (String × Animation Float))
      (Except StepError (String × Animation Float))) : Prop :=
  ∃ t, action.tweens[i]? = some t ∧ t.Resolves (action.care known fails) p

namespace Activity

variable {action : Action} {known : String → Prop} {fails : Prop} {s : Stage}

/-- Whether a step waits for animations. -/
def Animates : Activity → Prop
  | animating _ => True
  | _ => False

/-- A step is busy with resolving its operands; or it waits for animations, and all that it could
fail to resolve has been resolved. -/
def Spares (action : Action) (known : String → Prop) (fails : Prop) : Activity → Prop
  | working course => course.Careful (action.care known fails) fun _ => True
  | preparing members => fails ∧ members.length = action.tweens.length ∧
      Join.Each (action.Resolves known fails) members
  | animating convoy => fails ∧ Join.Each (fun _ => Ride.Blames known) convoy ∧
      ∀ t ∈ action.tweens, t.IsRelative → known t.target
  | holding _ => True

/-- Tweens begin with their operands. -/
theorem tweens_spares {ts : List Tween} (hts : action.tweens = ts) (h : fails) :
    (tweens ts).Spares action known fails := by
  subst hts
  refine ⟨h, List.length_map _, fun i p hp => ?_⟩
  obtain ⟨t, ht, rfl⟩ := Option.map_eq_some_iff.1 ((List.getElem?_map ..).symm.trans hp)
  exact ⟨t, ht, Tween.prepare_careful (C := (action.care known fails).resolving) t h⟩

end Activity

/-- **Every step begins with what could fail.**  It changes the registers only if it cannot fail. -/
theorem Machine.begin_spares (m : Machine) (index : Nat) (action : Action) (r : Registers)
    (known : String → Prop) :
    (m.begin index action r).2.Spares action known ((m.begin index action r).1 = r) := by
  rcases action with
      tween | duration | tweens | _ | ⟨name, value⟩ | _ | name | text | block | label |
      ⟨target, value⟩ | _ | _ | ⟨condition, onTrue, onFalse⟩ | condition | _ | _ <;>
    simp only [Machine.begin]
  case move => exact Activity.tweens_spares rfl trivial
  case delay =>
    exact (Operand.duration_careful (C := (Action.care _ known True).resolving) duration
      trivial).bind fun _ _ => trivial
  case parallel => exact Activity.tweens_spares rfl trivial
  case vibrate =>
    split
    · dsimp only
      split <;> trivial
    · trivial
  case callback =>
    rcases value with - | o
    · exact ⟨trivial, fun _ => trivial⟩
    · exact (Operand.resolve_careful (C := (Action.care _ known True).resolving) o trivial).bind
        fun _ _ => ⟨trivial, fun _ => trivial⟩
  case goto =>
    rcases hlabel : m.program.labelIndex? label with - | target
    · trivial
    · trivial
  case resume =>
    rcases r.returnTo with - | target
    · trivial
    · trivial
  case set =>
    have hset : ¬ (Action.set target value).OperandError (.unknownTarget target) :=
      Action.not_operandError (fun _ => False) id fun _ ht => absurd ht List.not_mem_nil
    exact (Operand.number_careful (C := (Action.care _ known True).resolving) value "value"
      trivial).bind fun _ _ => ⟨hset, trivial, _, rfl, trivial⟩
  case ifJump =>
    refine (Operand.holds_careful (C := (Action.care _ known True).resolving) condition
      trivial).bind fun b _ => ?_
    cases b with
    | true => exact Program.jump_careful _ _ trivial
    | false =>
      rcases onFalse with - | label
      · trivial
      · exact Program.jump_careful _ _ trivial
  case ifThen =>
    refine (Operand.holds_careful (C := (Action.care _ known True).resolving) condition
      trivial).bind fun b _ => ?_
    cases b <;> trivial
  all_goals trivial

/-! ### Steps go on -/

namespace Activity

variable {action : Action} {known : String → Prop} {fails : Prop} {s : Stage}

theorem pollConvoy_spares {convoy : Convoy}
    (h : (animating convoy).Spares action known fails) (hs : s.Knows known) :
    match (pollConvoy convoy s).2 with
    | .busy a => a.Spares action known fails ∧ a.Animates
    | .finished (.ok _) => True
    | .finished (.error e) => fails ∧ ¬ action.OperandError e := by
  obtain ⟨hfails, hblames, hfound⟩ := h
  have hpoll := Convoy.poll_blames true hblames hs
  rcases hp : convoy.poll true s with ⟨s', c | e | u⟩ <;> rw [hp] at hpoll <;>
    simp only [pollConvoy, hp]
  · exact ⟨⟨hfails, hpoll, hfound⟩, trivial⟩
  · obtain ⟨target, rfl, hunknown⟩ := hpoll
    exact ⟨hfails, Action.not_operandError known hunknown hfound⟩

/-- What is known of the operands of a tween is known after a visit. -/
theorem minds_resolves (action : Action) (known : String → Prop) (fails : Prop) :
    Join.Minds Course.poll (Stage.Knows · known) (action.Resolves known fails) Stage.Refrains where
  refl _ := .refl
  trans := .trans
  mono hs h := h.refrains hs
  one {s i course} hs h := by
    obtain ⟨t, ht, hcareful⟩ := h
    have hpoll := Course.poll_careful hcareful hs
    rcases hp : course.poll s with ⟨s', c | e | result⟩ <;> rw [hp] at hpoll
    · exact ⟨hpoll.1, t, ht, hpoll.2⟩
    · exact ⟨hpoll.2.resolve_right fun ⟨_, hdealt, _⟩ => hdealt, t, ht, trivial⟩
    · exact ⟨hpoll.1.resolve_right fun ⟨_, hdealt⟩ => hdealt, t, ht, hpoll.2⟩

/-- The animations of tweens whose operands have all been resolved. -/
theorem ofBatch_spares (batch : List (String × Animation Float)) {size : Nat}
    (hfails : fails) (hlength : size = action.tweens.length)
    (h : ∀ i < size, ∃ r, action.Resolves known fails i (.finished (.ok r))) :
    (animating (.ofBatch batch)).Spares action known fails := by
  refine ⟨hfails, fun i p hp e he => ?_, fun t ht => ?_⟩
  · obtain ⟨_, -, rfl⟩ := Option.map_eq_some_iff.1 ((List.getElem?_map ..).symm.trans hp)
    cases he
  · obtain ⟨i, hi⟩ := List.mem_iff_getElem?.1 ht
    obtain ⟨_, t', ht', hfound⟩ := h i (hlength ▸ (List.getElem?_eq_some_iff.1 hi).1)
    obtain rfl : t = t' := Option.some.inj (hi.symm.trans ht')
    exact hfound

/-- **Every step goes on with what could fail**, until it deals with the values.  If it fails
because of an operand it has not dealt with them. -/
theorem poll_spares {a : Activity} (h : a.Spares action known fails) (hs : s.Knows known) :
    match (a.poll s).2 with
    | .busy a' => a'.Spares action known fails ∧
      (a'.Animates ∨ ¬ a.Animates ∧ s.Refrains (a.poll s).1)
    | .finished (.ok _) => True
    | .finished (.error e) =>
      fails ∧ (action.OperandError e → ¬ a.Animates ∧ s.Refrains (a.poll s).1) := by
  cases a with
  | working course =>
    have hpoll := Course.poll_careful h hs
    rcases hp : course.poll s with ⟨s', c | e | flow⟩ <;> rw [hp] at hpoll <;>
      simp only [poll, hp]
    · exact ⟨hpoll.2, .inr ⟨id, hpoll.1⟩⟩
    · refine ⟨hpoll.1, fun he => ⟨id, hpoll.2.resolve_right ?_⟩⟩
      rintro ⟨target, hnot, rfl⟩
      exact hnot he
  | preparing members =>
    obtain ⟨hfails, hlength, heach⟩ := h
    obtain ⟨hkept, hcomes⟩ := (minds_resolves action known fails).poll Course.alarm? heach hs
    rcases hp : Join.poll Course.poll Course.alarm? members s with ⟨s', j | e | batch⟩ <;>
      rw [hp] at hkept hcomes <;> simp only [poll, hp]
    · exact ⟨⟨hfails, hcomes.1.trans hlength, hcomes.2⟩, .inr ⟨id, hkept⟩⟩
    · exact ⟨hfails, fun _ => ⟨id, hkept⟩⟩
    · have hpoll := pollConvoy_spares (ofBatch_spares batch hfails hlength hcomes)
        (hs.refrains hkept)
      rcases hc : pollConvoy (.ofBatch batch) s' with ⟨s'', a | e | flow⟩ <;> rw [hc] at hpoll
      · exact ⟨hpoll.1, .inl hpoll.2⟩
      · exact ⟨hpoll.1, fun he => absurd he hpoll.2⟩
      · trivial
  | animating convoy =>
    have hpoll := pollConvoy_spares h hs
    simp only [poll]
    rcases hp : pollConvoy convoy s with ⟨s', a | e | flow⟩ <;> rw [hp] at hpoll
    · exact ⟨hpoll.1, .inl hpoll.2⟩
    · exact ⟨hpoll.1, fun he => absurd he hpoll.2⟩
    · trivial
  | holding release =>
    rcases release with - | release
    · exact ⟨trivial, .inr ⟨id, .refl⟩⟩
    · trivial

end Activity

end Timeline
