/-
Timeline/Machine/Execution.lean

The execution of one step.  Operands are resolved when the step begins: a value
stands for itself, a name calls the function of that name, a function is called.
What a step does to the registers it does when it begins; what it does on the
stage is an activity that may take time.
-/
import Timeline.Machine.Basic

namespace Timeline

/-! ### Operands -/

namespace Operand

/-- The value of an operand. -/
def resolve : Operand → Work Json
  | literal v => .done v
  | named name => .call name none .done
  | function body => .run body .done

/-- The number that an operand comes to. -/
def number (field : String) (o : Operand) : Work Float := do
  let v ← o.resolve
  match v.float? with
  | some x => return x
  | none => .fail (.invalidOperand field v)

/-- The duration that an operand comes to, in milliseconds. -/
def duration (o : Operand) : Work Duration := do
  let v ← o.resolve
  match v.float?.bind Duration.ofMillis? with
  | some d => return d
  | none => .fail (.invalidOperand "duration" v)

/-- Whether an operand counts as true. -/
def holds (o : Operand) : Work Bool := do
  let v ← o.resolve
  return v.truthy

end Operand

/-- The number that a destination comes to; what is relative looks at the target, after the operand
is resolved. -/
def Destination.number (target : String) (destination : Destination) : Work Float := do
  let amount ← destination.operand.number "to"
  match destination with
  | .absolute _ => return amount
  | relative =>
    .look target fun current =>
      match relative.against? current amount with
      | some x => .done x
      | none => .fail (.unknownTarget target)

/-- The animation that a tween asks for, with its target. -/
def Tween.prepare (t : Tween) : Work (String × Animation Float) := do
  let destination ← t.destination.number t.target
  let duration ← t.duration.duration
  return (t.target, { destination, duration, easing := t.easing.getD .linear, native := t.native })

/-! ### Activities -/

/-- What a step is busy with. -/
inductive Activity where
  /-- Something that one course does. -/
  | working (course : Course Flow)
  /-- Resolving the operands of tweens. -/
  | preparing (tweens : Join (Course (String × Animation Float)) (String × Animation Float))
  /-- Waiting for animations. -/
  | animating (convoy : Convoy)
  /-- Waiting until it is released. -/
  | holding (release : Option Release)

namespace Activity

/-- Nothing to do but to go on. -/
def finished (flow : Flow) : Activity :=
  .working (.ahead (.done flow))

/-- A step that fails at once. -/
def failed (e : StepError) : Activity :=
  .working (.ahead (.fail e))

/-- Tweens that run together. -/
def tweens (ts : List Tween) : Activity :=
  .preparing (ts.map fun t => .busy (.ahead t.prepare))

/-- Go on with the animations of a step. -/
def pollConvoy (convoy : Convoy) (s : Stage) :
    Stage × Progress Activity (Except StepError Flow) :=
  match convoy.poll true s with
  | (s, .busy convoy) => (s, .busy (.animating convoy))
  | (s, .finished (.ok ())) => (s, .finished (.ok .advance))
  | (s, .finished (.error e)) => (s, .finished (.error e))

/-- Go on with an activity as far as it goes. -/
def poll : Activity → Stage → Stage × Progress Activity (Except StepError Flow)
  | working course, s =>
    match course.poll s with
    | (s, .busy course) => (s, .busy (.working course))
    | (s, .finished result) => (s, .finished result)
  | preparing members, s =>
    match Join.poll Course.poll Course.alarm? members s with
    | (s, .busy members) => (s, .busy (.preparing members))
    | (s, .finished (.ok batch)) => pollConvoy (.ofBatch batch) s
    | (s, .finished (.error e)) => (s, .finished (.error e))
  | animating convoy, s => pollConvoy convoy s
  | holding none, s => (s, .busy (.holding none))
  | holding (some release), s => (s.spend, .finished (.ok release.flow))

/-- The alarms that an activity waits for. -/
def alarms : Activity → List Alarm
  | working course => course.alarm?.toList
  | preparing members => Join.alarms Course.alarm? members
  | animating convoy => convoy.alarms
  | holding _ => []

end Activity

/-! ### Steps -/

/-- Jump to a label. -/
def Program.jump (p : Program) (label : String) : Work Flow :=
  match p.labelIndex? label with
  | some target => .done (.jump target)
  | none => .fail (.unknownLabel label)

namespace Machine

/-- What is left of a step after it has begun at an index: the registers as the step leaves them,
and its activity. -/
def begin (m : Machine) (index : Nat) (action : Action) (r : Registers) : Registers × Activity :=
  match action with
  | .move tween => (r, .tweens [tween])
  | .parallel tweens => (r, .tweens tweens)
  | .delay duration =>
    (r, .working <| .ahead do
      let d ← duration.duration
      .sleep d (.done .advance))
  | .vibrate =>
    if m.settings.vibration = .always || !r.vibrated then
      ({ r with vibrated := true },
        .working <| .ahead <|
          match m.haptics with
          | some time => .vibrate (.sleep time (.done .advance))
          | none => .done .advance)
    else (r, .finished .advance)
  | .callback name value =>
    (r, .working <| .ahead <|
      match value with
      | some operand => do
        let arg ← operand.resolve
        .call name (some arg) fun _ => .done .advance
      | none => .call name none fun _ => .done .advance)
  | .hold => (r, .holding none)
  | .label _ | .comment _ | .ifEnd | .use _ => (r, .finished .advance)
  | .goto label =>
    match m.program.labelIndex? label with
    | some target => ({ r with returnTo := some (index + 1) }, .finished (.jump target))
    | none => (r, .failed (.unknownLabel label))
  | .resume =>
    match r.returnTo with
    | some target => ({ r with returnTo := none }, .finished (.jump target))
    | none => (r, .finished .advance)
  | .set target value =>
    (r, .working <| .ahead do
      let x ← value.number "value"
      .set target x (.done .advance))
  | .stop => ({ r with stopped := true }, .finished .advance)
  | .ifJump condition onTrue onFalse =>
    (r, .working <| .ahead do
      if ← condition.holds then m.program.jump onTrue
      else
        match onFalse with
        | some label => m.program.jump label
        | none => return .advance)
  | .ifThen condition =>
    (r, .working <| .ahead do
      if ← condition.holds then return .advance
      else return .jump (m.program.skipBranch index true))
  | .ifElse => (r, .finished (.jump (m.program.skipBranch index false)))

end Machine

/-- The index of the step after one at `index`. -/
def Flow.next (flow : Flow) (index : Nat) : Nat :=
  match flow with
  | advance => index + 1
  | jump target => target

end Timeline
