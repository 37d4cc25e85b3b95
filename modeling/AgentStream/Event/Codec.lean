/-
# Events as JSON

An event is one object: its kind under `type`, the fields of its body in the order of their
declaration, then `timestamp` and `rawEvent` where present.

* `Event.toJson`, `Event.encode` : the written form and its bytes;
* `Event.decode`, `Event.ofBytes` : from a document and from bytes.
-/
import AgentStream.Event.Basic
import AgentStream.Message.Codec

namespace AgentStream

open Decoder (string any list bool unsigned)

namespace Body

/-! ## Written form -/

/-- The fields of a body as they are written. -/
def members : Body → Members
  | runStarted threadId runId parentRunId input =>
    Json.member "threadId" (.str threadId) ++ Json.member "runId" (.str runId)
      ++ Json.optional "parentRunId" (parentRunId.map .str) ++ Json.optional "input" input
  | runFinished threadId runId result =>
    Json.member "threadId" (.str threadId) ++ Json.member "runId" (.str runId)
      ++ Json.optional "result" result
  | runError message code runId =>
    Json.member "message" (.str message) ++ Json.optional "code" (code.map .str)
      ++ Json.optional "runId" (runId.map .str)
  | stepStarted name => Json.member "stepName" (.str name)
  | stepFinished name => Json.member "stepName" (.str name)
  | textStart messageId role =>
    Json.member "messageId" (.str messageId) ++ Json.member "role" (.str role.name)
  | textContent messageId delta =>
    Json.member "messageId" (.str messageId) ++ Json.member "delta" (.str delta)
  | textEnd messageId => Json.member "messageId" (.str messageId)
  | textChunk messageId role delta =>
    Json.optional "messageId" (messageId.map .str)
      ++ Json.optional "role" (role.map fun r => .str r.name)
      ++ Json.optional "delta" (delta.map .str)
  | toolStart callId name parent =>
    Json.member "toolCallId" (.str callId) ++ Json.member "toolCallName" (.str name)
      ++ Json.optional "parentMessageId" (parent.map .str)
  | toolArgs callId delta =>
    Json.member "toolCallId" (.str callId) ++ Json.member "delta" (.str delta)
  | toolEnd callId => Json.member "toolCallId" (.str callId)
  | toolResult messageId callId content role =>
    Json.member "messageId" (.str messageId) ++ Json.member "toolCallId" (.str callId)
      ++ Json.member "content" (.str content)
      ++ Json.optional "role" (role.map fun r => .str r.name)
  | stateSnapshot snapshot => Json.member "snapshot" snapshot
  | stateDelta delta => Json.member "delta" (.arr delta)
  | messagesSnapshot messages => Json.member "messages" (.arr (messages.map Message.toJson))
  | activitySnapshot messageId kind content replace =>
    Json.member "messageId" (.str messageId) ++ Json.member "activityType" (.str kind)
      ++ Json.member "content" content ++ Json.optional "replace" (replace.map .bool)
  | activityDelta messageId kind patch =>
    Json.member "messageId" (.str messageId) ++ Json.member "activityType" (.str kind)
      ++ Json.member "patch" (.arr patch)
  | raw event source => Json.member "event" event ++ Json.optional "source" (source.map .str)
  | custom name value => Json.member "name" (.str name) ++ Json.member "value" value

/-! ## Fields -/

/-- The fields that name a message. -/
def messageId : Record String := .required (plain "messageId") string

/-- The fields that name a tool call. -/
def callId : Record String := .required (plain "toolCallId") string

/-- A free value that has to be given, be it `null`. -/
def value (name : String) : Record Json := .required (plain name) any

/-- The bodies by the name of their kind. -/
def records : List (String × Record Body) :=
  [ ("RUN_STARTED",
      runStarted <$> .required (plain "threadId") string <*> .required (plain "runId") string
        <*> .optional (plain "parentRunId") string <*> .optional (plain "input") any),
    ("RUN_FINISHED",
      runFinished <$> .required (plain "threadId") string <*> .required (plain "runId") string
        <*> .optional (plain "result") any),
    ("RUN_ERROR",
      runError <$> .required (plain "message") string <*> .optional (plain "code") string
        <*> .optional (plain "runId") string),
    ("STEP_STARTED", stepStarted <$> .required (plain "stepName") string),
    ("STEP_FINISHED", stepFinished <$> .required (plain "stepName") string),
    ("TEXT_MESSAGE_START",
      textStart <$> messageId <*> .defaulted (plain "role") Role.decode .assistant),
    ("TEXT_MESSAGE_CONTENT", textContent <$> messageId <*> .required (plain "delta") string),
    ("TEXT_MESSAGE_END", textEnd <$> messageId),
    ("TEXT_MESSAGE_CHUNK",
      textChunk <$> .optional (plain "messageId") string <*> .optional (plain "role") Role.decode
        <*> .optional (plain "delta") string),
    ("TOOL_CALL_START",
      toolStart <$> callId <*> .required (plain "toolCallName") string
        <*> .optional (plain "parentMessageId") string),
    ("TOOL_CALL_ARGS", toolArgs <$> callId <*> .required (plain "delta") string),
    ("TOOL_CALL_END", toolEnd <$> callId),
    ("TOOL_CALL_RESULT",
      toolResult <$> messageId <*> callId <*> .required (plain "content") string
        <*> .optional (plain "role") Role.decode),
    ("STATE_SNAPSHOT", stateSnapshot <$> value "snapshot"),
    ("STATE_DELTA", stateDelta <$> .required (plain "delta") (list any)),
    ("MESSAGES_SNAPSHOT",
      messagesSnapshot <$> .required (plain "messages") (list Message.decode)),
    ("ACTIVITY_SNAPSHOT",
      activitySnapshot <$> messageId <*> .required (plain "activityType") string
        <*> value "content" <*> .optional (plain "replace") bool),
    ("ACTIVITY_DELTA",
      activityDelta <$> messageId <*> .required (plain "activityType") string
        <*> .required (plain "patch") (list any)),
    ("RAW", raw <$> value "event" <*> .optional (plain "source") string),
    ("CUSTOM",
      custom <$> .required (plain "name") string <*> .defaulted (plain "value") any .null) ]

end Body

namespace Event

/-- An event as it is written. -/
def toJson (e : Event) : Json :=
  .obj (Json.member "type" (.str e.kind) ++ e.body.members
    ++ Json.optional "timestamp" (e.timestamp.map fun t => .int t)
    ++ Json.optional "rawEvent" e.rawEvent)

/-- The event as one line of text. -/
def text (e : Event) : String := e.toJson.compact

/-- The bytes of the written form. -/
def encode (e : Event) : Bytes := e.toJson.encode

/-! ## Decoding -/

/-- What every event may carry. -/
def carried : Record (Option Nat × Option Json) :=
  Prod.mk <$> .optional (plain "timestamp") (unsigned 64) <*> .optional (plain "rawEvent") any

/-- Events with bodies of one kind.  The body is decoded first, then what every event may
carry from the same members; an array does not do. -/
def kindOf (body : Record Body) : Kind Event where
  ofMembers members := do
    let body ← body.ofMembers false .setAside members
    let (timestamp, rawEvent) ← carried.ofMembers false .setAside members
    pure { body, timestamp, rawEvent }
  ofItems _ := .error .invalidType

/-- An event by its `type`. -/
def decode : Decoder Event :=
  tagged "type" (Body.records.map fun (name, body) => (name, kindOf body))

/-- Why bytes are no event. -/
inductive ReadError
  | empty
  | fault (fault : Fault)
deriving DecidableEq

/-- The text of a read error. -/
def ReadError.message : ReadError → String
  | empty => "empty event payload"
  | fault f => "decode event: " ++ f.message

/-- The event that bytes encode. -/
def ofBytes (payload : Bytes) : Except ReadError Event :=
  if payload.isEmpty then .error .empty
  else (decodeText decode payload).mapError .fault

end Event

end AgentStream
