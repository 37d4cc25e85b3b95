/-
# Activity of graph nodes

Beside the events of the translator, a run shows what the nodes of a graph do: their life
cycle, their interrupts, and that an interrupted graph is being resumed.

* `Activity.project` : the activity of one output;
* `Activity.resumed?` : the acknowledgement of a resume.
-/
import AgentStream.Engine.Graph
import AgentStream.Engine.Output
import AgentStream.Event.Basic

namespace AgentStream.Activity

open Engine (Output NodeReport StepReport ResumeCommand)

/-- Which activity is shown. -/
structure Switches where
  lifecycle : Bool := false
  interrupt : Bool := false
  /-- Interrupts of nested invocations are left out. -/
  topLevelOnly : Bool := false
deriving DecidableEq

/-- The kind of life cycle activity. -/
def lifecycleKind : String := "graph.node.lifecycle"

/-- The kind of interrupt activity. -/
def interruptKind : String := "graph.node.interrupt"

/-- The operation of a patch that adds a value at a path. -/
def addOperation (path : String) (value : Json) : Json :=
  .ofMembers [("op", .str "add"), ("path", .str path), ("value", value)]

/-! ## Life cycle and interrupts -/

/-- The node object of an output, as it was given, if it is a node report. -/
def node? (o : Output) : Option Json :=
  match o.blob? Engine.nodeKey with
  | none => none
  | some raw =>
    match decodeText Decoder.any raw with
    | .error _ => none
    | .ok value =>
      match decodeJson NodeReport.record.decode value with
      | .error _ => none
      | .ok _ => some value

/-- The step of an output that was interrupted, if there is one. -/
def interrupted? (o : Output) : Option StepReport :=
  match o.blob? Engine.stepKey with
  | none => none
  | some raw =>
    match decodeText StepReport.record.decode raw with
    | .error _ => none
    | .ok step => if step.isInterrupted then some step else none

/-- The message that carries the activity of an output. -/
def messageId (o : Output) (fresh : String) : String := if o.id.isEmpty then fresh else o.id

/-- Life cycle activity; `fresh` names it if the output has no id. -/
def lifecycle (o : Output) (fresh : String) : List Event :=
  match node? o with
  | some value =>
    [Body.activityDelta (messageId o fresh) lifecycleKind [addOperation "/node" value]]
  | none => []

/-- Interrupt activity; `fresh` names it if the output has no id. -/
def interrupt (o : Output) (fresh : String) : List Event :=
  match interrupted? o with
  | some step =>
    [Body.activityDelta (messageId o fresh) interruptKind
      [addOperation "/interrupt" step.toJson.sorted]]
  | none => []

/-- The activity of an output; metadata that cannot be decoded is skipped. -/
def project (switches : Switches) (fresh fresh' : String) (o : Output) : List Event :=
  (if switches.lifecycle then lifecycle o fresh else [])
    ++ (if switches.interrupt && (!switches.topLevelOnly || o.isTopLevel) then interrupt o fresh'
      else [])

/-! ## Resuming -/

/-- What a graph is resumed with. -/
inductive Resume
  | map (values : Members)
  | value (value : Json)
deriving DecidableEq

/-- The resume that the state itself holds: a map that is not empty, or else a single value. -/
def stateResume? (state : Members) : Option Resume :=
  match state.lookup Engine.resumeMapKey with
  | some (.obj (m :: ms)) => some (.map (m :: ms))
  | _ => (state.lookup Engine.resumeKey).map .value

/-- The resume command of a state, if there is one. -/
def command? (state : Members) : Option ResumeCommand :=
  match state.lookup Engine.commandKey with
  | none => none
  | some raw =>
    match decodeJson ResumeCommand.record.decode raw with
    | .ok c => some c
    | .error _ => none

/-- What a state resumes a graph with.  A command comes first, its map before its value; a
command with an empty map resumes nothing. -/
def resume? (state : Members) : Option Resume :=
  match command? state with
  | some ⟨some [], _⟩ => none
  | some ⟨some map, _⟩ => some (.map map)
  | some ⟨none, some value⟩ => some (.value value)
  | _ => stateResume? state

/-- A member that repeats a state which is a string and not empty. -/
def identity (state : Members) (key name : String) : Members :=
  match state.lookup key with
  | some (.str s) => Json.nonempty name s
  | _ => []

/-- The payload that acknowledges a resume. -/
def payload (state : Members) (r : Resume) : Json :=
  .ofMembers
    ((match r with
      | .map values => [("resumeMap", .obj values)]
      | .value value => [("resume", value)])
    ++ identity state Engine.lineageKey "lineageId"
    ++ identity state Engine.checkpointKey "checkpointId")

/-- The acknowledgement of a resume: the interrupt is taken back and the resume shown. -/
def resumed? (fresh : String) (state : Members) : Option Event :=
  (resume? state).map fun r =>
    Body.activityDelta fresh interruptKind
      [addOperation "/interrupt" .null, addOperation "/resume" (payload state r)]

end AgentStream.Activity
