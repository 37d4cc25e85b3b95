/-
# Output of the engine

An engine answers a run with a stream of outputs.  An output may carry a response of the model
and named blobs of metadata.

* `Engine.Response` : output of the model or of the engine's own runner;
* `Engine.Output` : one element of the engine's stream;
* `Engine.Output.blob?` : a blob that is there and not empty.
-/
import AgentStream.Engine.Message
import AgentStream.Json.Printer

namespace AgentStream.Engine

open Decoder (string list bool unsigned map)

/-! ## Responses -/

/-- Token counts of a response. -/
structure Usage where
  promptTokens : Nat
  completionTokens : Nat
  totalTokens : Nat
deriving DecidableEq

/-- The failure that a response reports. -/
structure ResponseError where
  message : String
  kind : String := ""
  code : Option String := none
deriving DecidableEq

/-- One alternative of a response: a whole message, or the next piece of one. -/
structure Choice where
  index : Nat := 0
  message : Message := {}
  delta : Message := {}
  finishReason : Option String := none
deriving DecidableEq

/-- Output of the model or of the engine's own runner. -/
structure Response where
  id : String := ""
  /-- What kind of response it is; empty for echoed user input. -/
  object : String := ""
  model : String := ""
  choices : List Choice := []
  usage : Option Usage := none
  error : Option ResponseError := none
  done : Bool := false
deriving DecidableEq

namespace Response

/-- The kind of a whole chat message. -/
def completionKind : String := "chat.completion"

/-- The kind of a piece of a chat message. -/
def chunkKind : String := "chat.completion.chunk"

/-- The kind of a tool's result. -/
def toolKind : String := "tool.response"

/-- The kind that marks the end of the engine's run. -/
def endKind : String := "runner.completion"

/-- The kind of a failure. -/
def errorKind : String := "error"

/-- A whole chat message of the assistant. -/
def completion (id content : String) : Response :=
  { id, object := completionKind, choices := [{ message := .assistant content }], done := true }

/-- A piece of a chat message of the assistant. -/
def chunk (id delta : String) : Response :=
  { id, object := chunkKind, choices := [{ delta := .assistant delta }] }

/-- The response with a finish reason on its first choice. -/
def withFinishReason (r : Response) (reason : String) : Response :=
  match r.choices with
  | [] => r
  | c :: rest => { r with choices := { c with finishReason := some reason } :: rest }

/-- The result of a tool call. -/
def toolResult (id toolId toolName content : String) : Response :=
  { id, object := toolKind, choices := [{ message := .tool toolId toolName content }],
    done := true }

/-- A failure. -/
def failure (message : String) : Response :=
  { object := errorKind, error := some { message }, done := true }

/-- The mark that the engine's run has ended. -/
def runEnd : Response := { object := endKind, done := true }

/-- The first choice carries tool calls. -/
def callsTools (r : Response) : Bool :=
  match r.choices with
  | [] => false
  | c :: _ => !c.message.toolCalls.isEmpty || !c.delta.toolCalls.isEmpty

/-- The first choice carries the result of a tool call. -/
def givesToolResult (r : Response) : Bool :=
  match r.choices with
  | [] => false
  | c :: _ => !c.message.toolId.isEmpty || !c.delta.toolId.isEmpty

end Response

/-! ## Outputs -/

/-- One element of the engine's stream. -/
structure Output where
  id : String
  invocationId : String := ""
  /-- Given for outputs of nested invocations. -/
  parentInvocationId : Option String := none
  author : String := ""
  response : Option Response := none
  /-- Blobs by key, sorted by key. -/
  blobs : List (String × Bytes) := []
deriving DecidableEq

namespace Output

/-- The output marks the end of the engine's run. -/
def isRunEnd (o : Output) : Bool :=
  match o.response with
  | some r => r.object == Response.endKind
  | none => false

/-- The output comes from the invocation that the run started. -/
def isTopLevel (o : Output) : Bool := (o.parentInvocationId.getD "").isEmpty

/-- The blob under a key, if it is there and not empty. -/
def blob? (o : Output) (key : String) : Option Bytes :=
  (o.blobs.lookup key).filter fun raw => !raw.isEmpty

/-- Put a blob in its place among blobs sorted by key, replacing one of the same key. -/
def insertBlob (key : String) (raw : Bytes) : List (String × Bytes) → List (String × Bytes)
  | [] => [(key, raw)]
  | (k, v) :: rest =>
    if key = k then (key, raw) :: rest
    else if key < k then (key, raw) :: (k, v) :: rest
    else (k, v) :: insertBlob key raw rest

/-- Blobs sorted by key, the last of several with one key winning. -/
def sortBlobs (blobs : List (String × Bytes)) : List (String × Bytes) :=
  blobs.foldl (fun sorted (key, raw) => insertBlob key raw sorted) []

end Output

/-! ## JSON -/

namespace Usage

/-- Counts as they are written. -/
def toJson (u : Usage) : Json :=
  .obj (Json.member "prompt_tokens" (.int u.promptTokens)
    ++ Json.member "completion_tokens" (.int u.completionTokens)
    ++ Json.member "total_tokens" (.int u.totalTokens))

/-- The fields of counts. -/
def record : Record Usage :=
  mk <$> .required (plain "prompt_tokens") (unsigned 32)
    <*> .required (plain "completion_tokens") (unsigned 32)
    <*> .required (plain "total_tokens") (unsigned 32)

end Usage

namespace ResponseError

/-- A failure as it is written. -/
def toJson (e : ResponseError) : Json :=
  .obj (Json.member "message" (.str e.message) ++ Json.member "type" (.str e.kind)
    ++ Json.optional "code" (e.code.map .str))

/-- The fields of a failure. -/
def record : Record ResponseError :=
  mk <$> .required (plain "message") string
    <*> .defaulted (plain "type") string ""
    <*> .optional (plain "code") string

end ResponseError

namespace Choice

/-- A choice as it is written. -/
def toJson (c : Choice) : Json :=
  .obj (Json.member "index" (.int c.index) ++ Json.member "message" c.message.toJson
    ++ Json.member "delta" c.delta.toJson
    ++ Json.optional "finish_reason" (c.finishReason.map .str))

/-- The fields of a choice. -/
def record : Record Choice :=
  mk <$> .defaulted (plain "index") (unsigned 32) 0
    <*> .defaulted (plain "message") Message.decode {}
    <*> .defaulted (plain "delta") Message.decode {}
    <*> .optional (plain "finish_reason") string

end Choice

namespace Response

/-- A response as it is written. -/
def toJson (r : Response) : Json :=
  .obj (Json.member "id" (.str r.id) ++ Json.member "object" (.str r.object)
    ++ Json.member "model" (.str r.model)
    ++ Json.member "choices" (.arr (r.choices.map Choice.toJson))
    ++ Json.optional "usage" (r.usage.map Usage.toJson)
    ++ Json.optional "error" (r.error.map ResponseError.toJson)
    ++ Json.member "done" (.bool r.done))

/-- The fields of a response. -/
def record : Record Response :=
  mk <$> .required (plain "id") string
    <*> .defaulted (plain "object") string ""
    <*> .defaulted (plain "model") string ""
    <*> .defaulted (plain "choices") (list Choice.record.decode) []
    <*> .optional (plain "usage") Usage.record.decode
    <*> .optional (plain "error") ResponseError.record.decode
    <*> .defaulted (plain "done") bool false

end Response

namespace Output

/-- Blobs as they are written: arrays of bytes under their keys. -/
def blobsJson (blobs : List (String × Bytes)) : Json :=
  .obj (blobs.map fun (key, raw) => (key, .arr (raw.map fun b => .int b.toNat)))

/-- An output as it is written. -/
def toJson (o : Output) : Json :=
  .obj (Json.member "id" (.str o.id) ++ Json.member "invocation_id" (.str o.invocationId)
    ++ Json.optional "parent_invocation_id" (o.parentInvocationId.map .str)
    ++ Json.member "author" (.str o.author)
    ++ Json.optional "response" (o.response.map Response.toJson)
    ++ (if o.blobs.isEmpty then [] else Json.member "state_delta" (blobsJson o.blobs)))

/-- A blob: an array of bytes. -/
def decodeBlob : Decoder Bytes := fun origin d =>
  (list (unsigned 8) origin d).map fun ns => ns.map UInt8.ofNat

/-- The fields of an output. -/
def record : Record Output :=
  mk <$> .required (plain "id") string
    <*> .defaulted (plain "invocation_id") string ""
    <*> .optional (plain "parent_invocation_id") string
    <*> .defaulted (plain "author") string ""
    <*> .optional (plain "response") Response.record.decode
    <*> (sortBlobs <$> .defaulted (plain "state_delta") (map decodeBlob) [])

/-- An output. -/
def decode : Decoder Output := record.decode

end Output

end AgentStream.Engine
