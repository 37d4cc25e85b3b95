/-
# Events

What a client of a run is sent.  Every event has a body of one of twenty kinds, and may carry
a timestamp and the engine's own form of it.

* `Body` : the twenty kinds of event;
* `Event` : a body with what every event may carry;
* `Event.isTerminal` : whether the event ends a run.
-/
import AgentStream.Message.Basic

namespace AgentStream

/-- What an event says. -/
inductive Body
  | runStarted (threadId runId : String) (parentRunId : Option String) (input : Option Json)
  | runFinished (threadId runId : String) (result : Option Json)
  | runError (message : String) (code runId : Option String)
  | stepStarted (name : String)
  | stepFinished (name : String)
  | textStart (messageId : String) (role : Role)
  | textContent (messageId delta : String)
  | textEnd (messageId : String)
  | textChunk (messageId : Option String) (role : Option Role) (delta : Option String)
  | toolStart (callId name : String) (parent : Option String)
  | toolArgs (callId delta : String)
  | toolEnd (callId : String)
  | toolResult (messageId callId content : String) (role : Option Role)
  | stateSnapshot (snapshot : Json)
  | stateDelta (delta : List Json)
  | messagesSnapshot (messages : List Message)
  | activitySnapshot (messageId kind : String) (content : Json) (replace : Option Bool)
  | activityDelta (messageId kind : String) (patch : List Json)
  | raw (event : Json) (source : Option String)
  | custom (name : String) (value : Json)
deriving DecidableEq

/-- The name of an event's kind. -/
def Body.kind : Body → String
  | runStarted .. => "RUN_STARTED"
  | runFinished .. => "RUN_FINISHED"
  | runError .. => "RUN_ERROR"
  | stepStarted .. => "STEP_STARTED"
  | stepFinished .. => "STEP_FINISHED"
  | textStart .. => "TEXT_MESSAGE_START"
  | textContent .. => "TEXT_MESSAGE_CONTENT"
  | textEnd .. => "TEXT_MESSAGE_END"
  | textChunk .. => "TEXT_MESSAGE_CHUNK"
  | toolStart .. => "TOOL_CALL_START"
  | toolArgs .. => "TOOL_CALL_ARGS"
  | toolEnd .. => "TOOL_CALL_END"
  | toolResult .. => "TOOL_CALL_RESULT"
  | stateSnapshot .. => "STATE_SNAPSHOT"
  | stateDelta .. => "STATE_DELTA"
  | messagesSnapshot .. => "MESSAGES_SNAPSHOT"
  | activitySnapshot .. => "ACTIVITY_SNAPSHOT"
  | activityDelta .. => "ACTIVITY_DELTA"
  | raw .. => "RAW"
  | custom .. => "CUSTOM"

/-- Whether a body ends a run. -/
def Body.isTerminal : Body → Bool
  | runFinished .. => true
  | runError .. => true
  | _ => false

/-- A body with what every event may carry. -/
structure Event where
  body : Body
  /-- Milliseconds since the epoch. -/
  timestamp : Option Nat := none
  rawEvent : Option Json := none
deriving DecidableEq

instance : Coe Body Event := ⟨fun body => { body }⟩

namespace Event

/-- The name of the event's kind. -/
def kind (e : Event) : String := e.body.kind

/-- Whether the event ends a run. -/
def isTerminal (e : Event) : Bool := e.body.isTerminal

/-- The event with a timestamp. -/
def withTimestamp (e : Event) (ms : Nat) : Event := { e with timestamp := some ms }

/-! ## Events without optional parts -/

/-- A run begins. -/
def runStarted (threadId runId : String) : Event := Body.runStarted threadId runId none none

/-- A run ends well. -/
def runFinished (threadId runId : String) : Event := Body.runFinished threadId runId none

/-- A run fails; the run is named when it is known. -/
def runError (message : String) (runId : Option String) : Event := Body.runError message none runId

/-- The result of a tool call, from the tool. -/
def toolResult (messageId callId content : String) : Event :=
  Body.toolResult messageId callId content (some .tool)

end Event

end AgentStream
