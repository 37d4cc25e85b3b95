/-
# Metadata of graph engines

A graph engine reports what its nodes do in blobs of JSON under well-known keys, and is told
in its runtime state how to resume.  Only the fields that are used here are typed.

* `NodeReport`, `StepReport` : a node's life cycle; a step that may have been interrupted;
* `ModelReport`, `ToolReport`, `CustomReport` : what a node has produced;
* `ResumeCommand` : the command to resume an interrupted graph.
-/
import AgentStream.Message.Codec

namespace AgentStream.Engine

open Decoder (string list bool unsigned signed double any object oneOf)

/-! ## Keys -/

/-- The blob of a node's life cycle. -/
def nodeKey : String := "_node_metadata"

/-- The blob of a step. -/
def stepKey : String := "_pregel_metadata"

/-- The blob of a model's output. -/
def modelKey : String := "_model_metadata"

/-- The blob of a tool's execution. -/
def toolKey : String := "_tool_metadata"

/-- The blob of a node's own event. -/
def customKey : String := "_node_custom_metadata"

/-- The state that names the lineage of a graph. -/
def lineageKey : String := "lineage_id"

/-- The state that names a checkpoint. -/
def checkpointKey : String := "checkpoint_id"

/-- The state that holds a `ResumeCommand`. -/
def commandKey : String := "__command__"

/-- The state that holds resume values by interrupt. -/
def resumeMapKey : String := "__resume_map__"

/-- The state that holds a single resume value, `null` included. -/
def resumeKey : String := "__resume__"

/-! ## Phases and categories -/

/-- Where a node or a tool is in its execution. -/
inductive Phase
  | start
  | complete
  | error
deriving DecidableEq

namespace Phase

/-- The phases of a tool by name. -/
def table : List (String × Phase) :=
  [("start", start), ("complete", complete), ("error", error)]

/-- The phases of a node by name; the end of a node has two names. -/
def nodeTable : List (String × Phase) := table ++ [("end", complete)]

/-- The name of a phase. -/
def name : Phase → String
  | start => "start"
  | complete => "complete"
  | error => "error"

end Phase

/-- What a node's own event is about. -/
inductive Category
  | custom
  | progress
  | text
deriving DecidableEq

namespace Category

/-- The categories by name. -/
def table : List (String × Category) :=
  [("custom", custom), ("progress", progress), ("text", text)]

/-- The name of a category. -/
def name : Category → String
  | custom => "custom"
  | progress => "progress"
  | text => "text"

end Category

/-! ## Reports -/

/-- A node's life cycle. -/
structure NodeReport where
  nodeId : String
  nodeType : String
  phase : Phase
  attempt : Option Nat
  stepNumber : Option Int
  error : Option String
  modelName : Option String
deriving DecidableEq

/-- A step of the graph. -/
structure StepReport where
  stepNumber : Int
  nodeId : String
  interruptValue : Option Json
deriving DecidableEq

/-- What a model has put out. -/
structure ModelReport where
  responseId : String
  nodeId : String
  output : String
deriving DecidableEq

/-- The execution of a tool. -/
structure ToolReport where
  toolId : String
  toolName : String
  phase : Phase
  input : String
  responseId : String
deriving DecidableEq

/-- A node's own event. -/
structure CustomReport where
  category : Category
  eventType : String
  nodeId : String
  message : String
  progress : Double
  payload : Option Json
  stepNumber : Int
  timestamp : Int
deriving DecidableEq

/-- The command to resume an interrupted graph. -/
structure ResumeCommand where
  resumeMap : Option Members
  resume : Option Json
deriving DecidableEq

/-- The step was interrupted: there is an interrupt value, and it is not `null` or empty. -/
def StepReport.isInterrupted (r : StepReport) : Bool :=
  match r.interruptValue with
  | none => false
  | some .null => false
  | some (.str s) => !s.isEmpty
  | some _ => true

/-! ## JSON -/

namespace NodeReport

/-- A report as it is written. -/
def toJson (r : NodeReport) : Json :=
  .obj (Json.member "nodeId" (.str r.nodeId) ++ Json.member "nodeType" (.str r.nodeType)
    ++ Json.member "phase" (.str r.phase.name)
    ++ Json.optional "attempt" (r.attempt.map fun n => .int n)
    ++ Json.optional "stepNumber" (r.stepNumber.map .int)
    ++ Json.optional "error" (r.error.map .str)
    ++ Json.optional "modelName" (r.modelName.map .str))

/-- The fields of a report. -/
def record : Record NodeReport :=
  mk <$> .required (plain "nodeId") string
    <*> .required (plain "nodeType") string
    <*> .required (plain "phase") (oneOf Phase.nodeTable)
    <*> .optional (plain "attempt") (unsigned 32)
    <*> .optional (plain "stepNumber") signed
    <*> .optional (plain "error") string
    <*> .optional (plain "modelName") string

end NodeReport

namespace StepReport

/-- A report as it is written. -/
def toJson (r : StepReport) : Json :=
  .obj (Json.member "stepNumber" (.int r.stepNumber) ++ Json.nonempty "nodeId" r.nodeId
    ++ Json.optional "interruptValue" r.interruptValue)

/-- The fields of a report. -/
def record : Record StepReport :=
  mk <$> .required (plain "stepNumber") signed
    <*> .defaulted (plain "nodeId") string ""
    <*> .optional (plain "interruptValue") any

end StepReport

namespace ModelReport

/-- A report as it is written. -/
def toJson (r : ModelReport) : Json :=
  .obj (Json.member "responseId" (.str r.responseId) ++ Json.member "nodeId" (.str r.nodeId)
    ++ Json.member "output" (.str r.output))

/-- The fields of a report. -/
def record : Record ModelReport :=
  mk <$> .defaulted (plain "responseId") string ""
    <*> .defaulted (plain "nodeId") string ""
    <*> .defaulted (plain "output") string ""

end ModelReport

namespace ToolReport

/-- A report as it is written. -/
def toJson (r : ToolReport) : Json :=
  .obj (Json.member "toolId" (.str r.toolId) ++ Json.member "toolName" (.str r.toolName)
    ++ Json.member "phase" (.str r.phase.name) ++ Json.member "input" (.str r.input)
    ++ Json.member "responseId" (.str r.responseId))

/-- The fields of a report. -/
def record : Record ToolReport :=
  mk <$> .required (plain "toolId") string
    <*> .required (plain "toolName") string
    <*> .required (plain "phase") (oneOf Phase.table)
    <*> .defaulted (plain "input") string ""
    <*> .defaulted (plain "responseId") string ""

end ToolReport

namespace CustomReport

/-- A report as it is written. -/
def toJson (r : CustomReport) : Json :=
  .obj (Json.member "category" (.str r.category.name) ++ Json.member "eventType" (.str r.eventType)
    ++ Json.member "nodeId" (.str r.nodeId) ++ Json.member "message" (.str r.message)
    ++ Json.member "progress" (.double r.progress) ++ Json.optional "payload" r.payload
    ++ Json.member "stepNumber" (.int r.stepNumber)
    ++ Json.member "timestamp" (.int r.timestamp))

/-- The fields of a report. -/
def record : Record CustomReport :=
  mk <$> .defaulted (plain "category") (oneOf Category.table) .custom
    <*> .defaulted (plain "eventType") string ""
    <*> .defaulted (plain "nodeId") string ""
    <*> .defaulted (plain "message") string ""
    <*> .defaulted (plain "progress") double (.ofMagnitude false 0)
    <*> .optional (plain "payload") any
    <*> .defaulted (plain "stepNumber") signed 0
    <*> .defaulted (plain "timestamp") signed 0

end CustomReport

namespace ResumeCommand

/-- A command as it is written. -/
def toJson (c : ResumeCommand) : Json :=
  .obj (Json.optional "resumeMap" (c.resumeMap.map .obj) ++ Json.optional "resume" c.resume)

/-- The fields of a command. -/
def record : Record ResumeCommand :=
  mk <$> .optional (plain "resumeMap") object <*> .optional (plain "resume") any

end ResumeCommand

end AgentStream.Engine
