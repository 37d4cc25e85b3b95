/-
# Run requests

A request names a thread and a run and carries the conversation so far; its last message
drives the run.  Names are accepted in two spellings, and other members are an error.

* `Request` : a request to run an agent;
* `Request.toJson`, `Request.decode`.
-/
import AgentStream.Message.Codec

namespace AgentStream

open Decoder (string any list)

/-- A readable value that the client shares with the agent. -/
structure SharedValue where
  description : String
  value : Json
deriving DecidableEq

/-- A tool that the client declares. -/
structure ToolDeclaration where
  name : String
  description : String
  parameters : Option Json
deriving DecidableEq

/-- A request to run an agent. -/
structure Request where
  threadId : String
  runId : String := ""
  parentRunId : Option String := none
  messages : List Message := []
  tools : List ToolDeclaration := []
  context : List SharedValue := []
  state : Option Json := none
  forwardedProps : Option Json := none
deriving DecidableEq

namespace SharedValue

/-- A shared value as it is written. -/
def toJson (c : SharedValue) : Json :=
  .obj (Json.member "description" (.str c.description) ++ Json.member "value" c.value)

/-- A shared value. -/
def record : Record SharedValue :=
  mk <$> .required (plain "description") string <*> .required (plain "value") any

end SharedValue

namespace ToolDeclaration

/-- A declaration as it is written. -/
def toJson (t : ToolDeclaration) : Json :=
  .obj (Json.member "name" (.str t.name) ++ Json.member "description" (.str t.description)
    ++ Json.optional "parameters" t.parameters)

/-- A declaration. -/
def record : Record ToolDeclaration :=
  mk <$> .required (plain "name") string
    <*> .defaulted (plain "description") string ""
    <*> .omittable (plain "parameters") any

end ToolDeclaration

namespace Request

/-- A request as it is written. -/
def toJson (r : Request) : Json :=
  .obj (Json.member "threadId" (.str r.threadId) ++ Json.member "runId" (.str r.runId)
    ++ Json.optional "parentRunId" (r.parentRunId.map .str)
    ++ Json.member "messages" (.arr (r.messages.map Message.toJson))
    ++ Json.nonemptyList "tools" (r.tools.map ToolDeclaration.toJson)
    ++ Json.nonemptyList "context" (r.context.map SharedValue.toJson)
    ++ Json.optional "state" r.state ++ Json.optional "forwardedProps" r.forwardedProps)

/-- The fields of a request. -/
def record : Record Request :=
  mk <$> .required (spelled "threadId" ["thread_id"]) string
    <*> .defaulted (spelled "runId" ["run_id"]) string ""
    <*> .optional (spelled "parentRunId" ["parent_run_id"]) string
    <*> .required (plain "messages") (list Message.decode)
    <*> .defaulted (plain "tools") (list ToolDeclaration.record.decode) []
    <*> .defaulted (plain "context") (list SharedValue.record.decode) []
    <*> .optional (plain "state") any
    <*> .optional (spelled "forwardedProps" ["forwarded_props"]) any

/-- A request, without members that it does not know. -/
def decode : Decoder Request := record.decodeClosed

/-- The last message, which drives the run. -/
def lastMessage? (r : Request) : Option Message := r.messages.getLast?

end Request

end AgentStream
