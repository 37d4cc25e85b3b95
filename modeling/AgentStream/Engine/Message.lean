/-
# Messages of the engine

What an agent engine is given and gives back.  Either the text or the parts carry the content
of a message.

* `Engine.Message` : a message exchanged with the engine;
* `Engine.Message.toJson`, `Engine.Message.decode`.
-/
import AgentStream.Message.Codec

namespace AgentStream.Engine

open Decoder (string list oneOf)

/-! ## Types -/

/-- Who an engine message is from. -/
inductive Role
  | system
  | user
  | assistant
  | tool
deriving DecidableEq, Inhabited

/-- One part of an engine message. -/
inductive Part
  | text (text : String)
  | image (url detail mimeType : String)
deriving DecidableEq

/-- A message exchanged with the engine. -/
structure Message where
  role : Role := .assistant
  content : String := ""
  parts : List Part := []
  toolId : String := ""
  toolName : String := ""
  toolCalls : List ToolCall := []
deriving DecidableEq, Inhabited

namespace Role

/-- The roles by name. -/
def table : List (String × Role) :=
  [("system", system), ("user", user), ("assistant", assistant), ("tool", tool)]

/-- The name of a role. -/
def name : Role → String
  | system => "system"
  | user => "user"
  | assistant => "assistant"
  | tool => "tool"

/-- The role under which a client sees a message. -/
def shown : Role → AgentStream.Role
  | system => .system
  | user => .user
  | assistant => .assistant
  | tool => .tool

end Role

namespace Message

/-- A user message with a text. -/
def user (content : String) : Message := { role := .user, content }

/-- A user message with parts. -/
def userParts (parts : List Part) : Message := { role := .user, parts }

/-- An assistant message with a text. -/
def assistant (content : String) : Message := { content }

/-- The result of a tool call. -/
def tool (toolId toolName content : String) : Message :=
  { role := .tool, content, toolId, toolName }

end Message

/-! ## JSON -/

namespace Part

/-- A part as it is written. -/
def toJson : Part → Json
  | text t => .obj (Json.member "type" (.str "text") ++ Json.member "text" (.str t))
  | image url detail mimeType =>
    .obj (Json.member "type" (.str "image") ++ Json.member "url" (.str url)
      ++ Json.member "detail" (.str detail) ++ Json.nonempty "mimeType" mimeType)

/-- The fields of a text part. -/
def textRecord : Record Part := text <$> .required (plain "text") string

/-- The fields of an image part. -/
def imageRecord : Record Part :=
  image <$> .required (plain "url") string
    <*> .defaulted (plain "detail") string ""
    <*> .defaulted (plain "mimeType") string ""

/-- A part by its `type`. -/
def decode : Decoder Part :=
  tagged "type" [("text", textRecord.kind), ("image", imageRecord.kind)]

end Part

namespace Message

/-- A message as it is written. -/
def toJson (m : Message) : Json :=
  .obj (Json.member "role" (.str m.role.name) ++ Json.member "content" (.str m.content)
    ++ Json.nonemptyList "content_parts" (m.parts.map Part.toJson)
    ++ Json.nonempty "tool_id" m.toolId ++ Json.nonempty "tool_name" m.toolName
    ++ Json.nonemptyList "tool_calls" (m.toolCalls.map ToolCall.toJson))

/-- The fields of a message; each may be left out. -/
def record : Record Message :=
  mk <$> .defaulted (plain "role") (oneOf Role.table) .assistant
    <*> .defaulted (plain "content") string ""
    <*> .defaulted (plain "content_parts") (list Part.decode) []
    <*> .defaulted (plain "tool_id") string ""
    <*> .defaulted (plain "tool_name") string ""
    <*> .defaulted (plain "tool_calls") (list (ToolCall.record "").decode) []

/-- A message. -/
def decode : Decoder Message := record.decode

end Message

end AgentStream.Engine
