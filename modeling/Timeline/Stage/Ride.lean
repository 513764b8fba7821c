/-
Timeline/Stage/Ride.lean

Rides: animations on the stage.  A ride claims its target when it is first
visited, and from then on writes a frame whenever its alarm goes off.  The rides
of a machine are recorded in the journal, those that are asked for from outside
are not.
-/
import Timeline.Stage.Join

namespace Timeline

/-- An animation that has not begun, or that waits for its next frame. -/
inductive Ride where
  | ahead (target : String) (animation : Animation Float)
  | moving (motion : Motion Float) (next : Alarm)

namespace Ride

/-- Record an event of a ride, if its rides are recorded. -/
def report (recorded : Bool) (s : Stage) (event : Event) : Stage :=
  if recorded then s.note event else s

/-- Write one frame. -/
def write (recorded : Bool) (m : Motion Float) (s : Stage) :
    Stage × Progress Ride (Except StepError Unit) :=
  match m.frame? s.driver s.now with
  | none => (report recorded s (.animated m.target true), .finished (.ok ()))
  | some driver =>
    let (value, last) := m.valueAt s.now
    let s := { s with driver }.note (.wrote m.target value)
    if last then (report recorded s (.animated m.target true), .finished (.ok ()))
    else
      let (next, s) := s.setAlarm { due := m.nextFrame s.driver.frame s.now }
      (s, .busy (.moving m next))

/-- Write a frame when its alarm goes off. -/
def frame (recorded : Bool) (m : Motion Float) (next : Alarm) (s : Stage) :
    Stage × Progress Ride (Except StepError Unit) :=
  match s.await next with
  | (none, s) => write recorded m s
  | (some next, s) => (s, .busy (.moving m next))

/-- Begin, or go on if the time has come.  A ride that takes no time does not wait for its only
frame. -/
def poll (recorded : Bool) : Ride → Stage → Stage × Progress Ride (Except StepError Unit)
  | ahead target animation, s =>
    let s := report recorded s (.animate target animation)
    match s.driver.launch? target animation s.now with
    | none =>
      (report recorded s (.animated target false), .finished (.error (.unknownTarget target)))
    | some (m, driver) =>
      let s := { s with driver }
      if animation.duration = .zero then write recorded m s
      else frame recorded m (s.alarmAfter .zero) s
  | moving m next, s => frame recorded m next s

/-- The alarm that a ride waits for. -/
def alarm? : Ride → Option Alarm
  | ahead _ _ => none
  | moving _ next => some next

end Ride

/-- Rides that begin together. -/
abbrev Convoy := Join Ride Unit

namespace Convoy

/-- The rides of some animations. -/
def ofBatch (batch : List (String × Animation Float)) : Convoy :=
  batch.map fun (target, animation) => .busy (.ahead target animation)

/-- Go on with the rides. -/
def poll (recorded : Bool) (c : Convoy) (s : Stage) :
    Stage × Progress Convoy (Except StepError Unit) :=
  match Join.poll (Ride.poll recorded) Ride.alarm? c s with
  | (s, .busy c) => (s, .busy c)
  | (s, .finished result) => (s, .finished (result.map fun _ => ()))

/-- The alarms that rides wait for. -/
def alarms (c : Convoy) : List Alarm :=
  Join.alarms Ride.alarm? c

end Convoy

end Timeline
