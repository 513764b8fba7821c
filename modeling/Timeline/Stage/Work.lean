/-
Timeline/Stage/Work.lean

Work: what a step has still to do on the stage before it comes to a result.  Work
runs until it must wait; it is then a course that is asleep until its alarm goes
off.
-/
import Timeline.Stage.Basic

namespace Timeline

/-- Something that goes on, or is over with a result. -/
inductive Progress (σ ρ : Type) where
  | busy (state : σ)
  | finished (result : ρ)

/-- Run a routine until it waits or gives its result. -/
def Routine.run : Routine → Stage →
    Stage × Progress (Alarm × Routine) (Except CallError Json)
  | .done result, s => (s, .finished result)
  | .sleep time rest, s =>
    match s.await (s.alarmAfter time) with
    | (none, s) => rest.run s
    | (some alarm, s) => (s, .busy (alarm, rest))
  | .write target value rest, s => rest.run (s.set target value).2
  | .read target rest, s => (rest (s.driver.get? target)).run s

/-- Run a routine to its end, while nobody else is on the stage. -/
def Routine.complete : Routine → Stage → Stage × Except CallError Json
  | .done result, s => (s, result)
  | .sleep time rest, s => rest.complete { s with now := s.now + time.ceilMillis }
  | .write target value rest, s => rest.complete (s.set target value).2
  | .read target rest, s => (rest (s.driver.get? target)).complete s

/-- What is still to do before a result or a failure. -/
inductive Work (α : Type) where
  | done (result : α)
  | fail (error : StepError)
  /-- Wait. -/
  | sleep (time : Duration) (rest : Work α)
  /-- Look at the value of a target. -/
  | look (target : String) (rest : Option Float → Work α)
  /-- Write a target, which must be known. -/
  | set (target : String) (value : Float) (rest : Work α)
  /-- Vibrate. -/
  | vibrate (rest : Work α)
  /-- Call a function by its name. -/
  | call (name : String) (arg : Option Json) (rest : Json → Work α)
  /-- Call a function that is given. -/
  | run (body : Routine) (rest : Json → Work α)

/-- Work that runs now, or that sleeps inside of a called function. -/
inductive Course (α : Type) where
  | ahead (work : Work α)
  | asleep (alarm : Alarm) (inner : Routine) (rest : Json → Work α)

namespace Work

variable {α β : Type}

/-- Do some work, then what its result asks for. -/
def bind : Work α → (α → Work β) → Work β
  | done result, f => f result
  | fail e, _ => fail e
  | sleep time rest, f => sleep time (rest.bind f)
  | look target rest, f => look target fun v => (rest v).bind f
  | set target value rest, f => set target value (rest.bind f)
  | vibrate rest, f => vibrate (rest.bind f)
  | call name arg rest, f => call name arg fun v => (rest v).bind f
  | run body rest, f => run body fun v => (rest v).bind f

instance : Monad Work where
  pure := done
  bind := bind

/-- Run some work until it waits, fails or is done. -/
def perform : Work α → Stage → Stage × Progress (Course α) (Except StepError α)
  | done result, s => (s, .finished (.ok result))
  | fail e, s => (s, .finished (.error e))
  | sleep time rest, s =>
    match s.await (s.alarmAfter time) with
    | (none, s) => rest.perform s
    | (some alarm, s) => (s, .busy (.asleep alarm (.value .null) fun _ => rest))
  | look target rest, s => (rest (s.driver.get? target)).perform s
  | set target value rest, s =>
    let (known, s) := s.set target value
    let s := s.note (.set target value known)
    if known then rest.perform s else (s, .finished (.error (.unknownTarget target)))
  | vibrate rest, s => rest.perform (s.note .vibrated)
  | call name arg rest, s =>
    match s.call? name arg with
    | none => (s.note (.missed name), .finished (.error (.call (.notFound name))))
    | some (body, s) =>
      match body.run s with
      | (s, .finished (.ok v)) => (rest v).perform s
      | (s, .finished (.error e)) => (s, .finished (.error (.call e)))
      | (s, .busy (alarm, inner)) => (s, .busy (.asleep alarm inner rest))
  | run body rest, s =>
    match body.run s with
    | (s, .finished (.ok v)) => (rest v).perform s
    | (s, .finished (.error e)) => (s, .finished (.error (.call e)))
    | (s, .busy (alarm, inner)) => (s, .busy (.asleep alarm inner rest))

end Work

namespace Course

variable {α : Type}

/-- Go on, if the time has come. -/
def poll : Course α → Stage → Stage × Progress (Course α) (Except StepError α)
  | ahead work, s => work.perform s
  | asleep alarm inner rest, s =>
    match s.await alarm with
    | (none, s) => (Work.run inner rest).perform s
    | (some alarm, s) => (s, .busy (asleep alarm inner rest))

/-- The alarm that a course waits for. -/
def alarm? : Course α → Option Alarm
  | ahead _ => none
  | asleep alarm _ _ => some alarm

end Course

end Timeline
