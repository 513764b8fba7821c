/-
Timeline/Scenario/Decode.lean

Reading steps, tweens, scenarios and blocks from plain data.  A step is an
object whose `type` says what it does; the other fields are set aside until the
type is known, so that a wrong type is reported before anything else.  The fields
of the tween of a `move` are read after its tag.
-/
import Timeline.Data.Decode
import Timeline.Scenario.Basic

namespace Timeline

/-- Read an operand. -/
def Operand.decode (form : Form) (d : Datum) : Decoded Operand :=
  (form.value d).map .ofJson

/-- Read a destination. -/
def Destination.decode (form : Form) (d : Datum) : Decoded Destination :=
  (form.value d).map .ofJson

/-- Read the name of a curve. -/
def Easing.decode (form : Form) (d : Datum) : Decoded Easing :=
  form.choice (Easing.all.map fun e => (e.name, e)) d

namespace Tween

/-- The fields of a tween as far as they are known. -/
structure Fields where
  target : Option String := none
  destination : Option Destination := none
  duration : Option Operand := none
  easing : Option Easing := none
  native : Bool := false

/-- How a tween is read. -/
def shape (form : Form) : RecordShape Fields where
  name := "struct Tween"
  fields := [
    { name := "target", required := true
      read := fun d t => do return { t with target := some (← form.text d) } },
    { name := "to", required := true
      read := fun d t => do return { t with destination := some (← Destination.decode form d) } },
    { name := "duration", required := true
      read := fun d t => do return { t with duration := some (← Operand.decode form d) } },
    { name := "easing"
      read := fun d t => do return { t with easing := ← Form.optional (Easing.decode form) d } },
    { name := "native"
      read := fun d t => do return { t with native := ← form.bool d } }]

/-- The tween of some fields, if none is missing. -/
def ofFields (f : Fields) : Decoded Tween := do
  let target ← need "target" f.target
  let destination ← need "to" f.destination
  let duration ← need "duration" f.duration
  return { target, destination, duration, easing := f.easing, native := f.native }

/-- Read a tween. -/
def decode (form : Form) (d : Datum) : Decoded Tween := do
  ofFields (← (shape form).read form {} d)

end Tween

namespace Step

/-- The fields of all kinds of steps, as far as they are known. -/
structure Fields where
  label : Option String := none
  duration : Option Operand := none
  targets : Option (List Tween) := none
  name : Option String := none
  value : Option Operand := none
  comment : Option String := none
  block : Option String := none
  target : Option String := none
  condition : Option Operand := none
  onTrue : Option String := none
  onFalse : Option String := none

namespace Fields

/-- The tag of a step. -/
def shownTag : Field Fields where
  name := "label"
  read := fun d f => do return { f with label := ← Form.optional Form.buffered.text d }

/-- The label of a step that is nothing without one. -/
def labelName : Field Fields where
  name := "label"
  required := true
  read := fun d f => do return { f with label := some (← Form.buffered.text d) }

/-- A text that must be there. -/
def requiredText (name : String) (put : String → Fields → Fields) : Field Fields where
  name := name
  required := true
  read := fun d f => do return put (← Form.buffered.text d) f

/-- An operand that must be there. -/
def requiredOperand (name : String) (put : Operand → Fields → Fields) : Field Fields where
  name := name
  required := true
  read := fun d f => do return put (← Operand.decode .buffered d) f

/-- The tweens of a `parallel`. -/
def tweens : Field Fields where
  name := "targets"
  required := true
  read := fun d f => do
    let items ← Form.buffered.seq d
    return { f with targets := some (← items.mapM (Tween.decode .buffered)) }

/-- The argument of a `callback`. -/
def argument : Field Fields where
  name := "value"
  read := fun d f => do
    return { f with value := ← Form.optional (Operand.decode .buffered) d }

/-- Where an `ifJump` goes if the condition does not hold. -/
def elsewhere : Field Fields where
  name := "labelFalse"
  read := fun d f => do return { f with onFalse := ← Form.optional Form.buffered.text d }

end Fields

open Fields

/-- Read the fields of a step that does the action made of them. -/
def decodeAs (name : String) (fields : List (Field Fields))
    (action : Fields → Decoded Action) (d : Datum) : Decoded Step := do
  let shape : RecordShape Fields := ⟨"struct " ++ name, fields⟩
  let f ← shape.read .buffered {} d
  return ⟨← action f, f.label⟩

/-- Read a step that has no fields but its tag. -/
def decodePlain (name : String) (action : Action) : Datum → Decoded Step :=
  decodeAs name [shownTag] fun _ => .ok action

/-- Read a `move`: its tag first, then its tween. -/
def decodeMove : Datum → Decoded Step
  | .map pairs => do
    let label ← match pairs.find? fun p => p.1 matches .text "label" with
      | some (_, d) => Form.optional Form.buffered.text d
      | none => .ok none
    let tween ← Tween.decode .buffered (.map pairs)
    return ⟨.move tween, label⟩
  | d => .error (Form.buffered.mismatch d "struct MoveStep")

/-- How the steps of every kind are read. -/
def decoders : List (String × (Datum → Decoded Step)) := [
  ("move", decodeMove),
  ("delay", decodeAs "DelayStep"
    [shownTag, requiredOperand "duration" fun v f => { f with duration := some v }]
    fun f => do return .delay (← need "duration" f.duration)),
  ("parallel", decodeAs "ParallelStep" [shownTag, tweens]
    fun f => do return .parallel (← need "targets" f.targets)),
  ("vibrate", decodePlain "VibrateStep" .vibrate),
  ("callback", decodeAs "CallbackStep"
    [shownTag, requiredText "name" fun v f => { f with name := some v }, argument]
    fun f => do return .callback (← need "name" f.name) f.value),
  ("hold", decodePlain "HoldStep" .hold),
  ("label", decodeAs "LabelStep" [labelName]
    fun f => do return .label (← need "label" f.label)),
  ("comment", decodeAs "CommentStep"
    [shownTag, requiredText "comment" fun v f => { f with comment := some v }]
    fun f => do return .comment (← need "comment" f.comment)),
  ("use", decodeAs "UseStep"
    [shownTag, requiredText "block" fun v f => { f with block := some v }]
    fun f => do return .use (← need "block" f.block)),
  ("goto", decodeAs "GotoStep" [labelName]
    fun f => do return .goto (← need "label" f.label)),
  ("set", decodeAs "SetStep"
    [shownTag, requiredText "target" fun v f => { f with target := some v },
      requiredOperand "value" fun v f => { f with value := some v }]
    fun f => do return .set (← need "target" f.target) (← need "value" f.value)),
  ("resume", decodePlain "ResumeStep" .resume),
  ("stop", decodePlain "StopStep" .stop),
  ("ifJump", decodeAs "IfJumpStep"
    [shownTag, requiredOperand "condition" fun v f => { f with condition := some v },
      requiredText "labelTrue" fun v f => { f with onTrue := some v }, elsewhere]
    fun f => do
      return .ifJump (← need "condition" f.condition) (← need "labelTrue" f.onTrue) f.onFalse),
  ("ifThen", decodeAs "IfThenStep"
    [shownTag, requiredOperand "condition" fun v f => { f with condition := some v }]
    fun f => do return .ifThen (← need "condition" f.condition)),
  ("ifElse", decodePlain "IfElseStep" .ifElse),
  ("ifEnd", decodePlain "IfEndStep" .ifEnd)]

/-- The decoder that the type of a step asks for. -/
def decoder : Datum → Decoded (Datum → Decoded Step)
  | .text kind => Form.word decoders kind
  | d => .error (Form.json.mismatch d "variant identifier")

/-- Read a step: an object with a `type`, or a sequence that begins with it. -/
def decode : Datum → Decoded Step
  | .map pairs =>
    match pairs.find? fun p => p.1 matches .text "type" with
    | some (_, kind) => do
      (← decoder kind) (.map (pairs.filter fun p => !(p.1 matches .text "type")))
    | none => .error (.missingField "type")
  | .seq (kind :: rest) => do (← decoder kind) (.seq rest)
  | .seq [] => .error (.missingField "type")
  | d => .error (Form.json.mismatch d "internally tagged enum Step")

/-- Read a JSON value as a step. -/
def ofJson (v : Json) : Decoded Step :=
  decode (.ofJson v)

end Step

/-- Read a scenario; its entries are kept as they are. -/
def Scenario.decode (form : Form) (d : Datum) : Decoded Scenario := do
  let items ← form.seq d
  items.mapM fun item => (form.value item).map .raw

/-- Read some blocks. -/
def Blocks.decode (form : Form) (d : Datum) : Decoded Blocks := do
  let pairs ← form.map d
  let named ← pairs.mapM fun (key, value) => do
    let name ← form.text key
    let scenario ← Scenario.decode form value
    return (name, scenario)
  return .ofList named

end Timeline
