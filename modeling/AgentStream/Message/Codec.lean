/-
# Messages as JSON

Every type comes with the value it is written as and the record it is decoded from.  Fields
with several names are written under the first.

* `Message.toJson`, `Message.decode`;
* `Part.toJson`, `Part.decode`;
* `Message.ofParts` : a user message from typed parts.
-/
import AgentStream.Json.Decode
import AgentStream.Message.Basic

namespace AgentStream

open Decoder (string any oneOf list)

/-- A field with one name. -/
def plain (name : String) : FieldName := { primary := name }

/-- A field with other names. -/
def spelled (name : String) (others : List String) : FieldName := ⟨name, others⟩

/-! ## Roles and parts -/

/-- A role by its name. -/
def Role.decode : Decoder Role := oneOf Role.table

namespace Part

/-- A part as it is written. -/
def toJson : Part → Json
  | text t => .obj (Json.member "type" (.str "text") ++ Json.member "text" (.str t))
  | binary mimeType id url data filename =>
    .obj (Json.member "type" (.str "binary") ++ Json.member "mimeType" (.str mimeType)
      ++ Json.optional "id" (id.map .str) ++ Json.optional "url" (url.map .str)
      ++ Json.optional "data" (data.map .str) ++ Json.optional "filename" (filename.map .str))

/-- The fields of a text part. -/
def textRecord : Record Part := text <$> .required (plain "text") string

/-- The fields of a binary part. -/
def binaryRecord : Record Part :=
  binary <$> .defaulted (spelled "mimeType" ["mime_type"]) string ""
    <*> .omittable (plain "id") string
    <*> .omittable (plain "url") string
    <*> .omittable (plain "data") string
    <*> .omittable (plain "filename") string

/-- A part by its `type`. -/
def decode : Decoder Part :=
  tagged "type" [("text", textRecord.kind), ("binary", binaryRecord.kind)]

end Part

/-! ## Tool calls -/

namespace FunctionCall

/-- A function call as it is written. -/
def toJson (f : FunctionCall) : Json :=
  .obj (Json.member "name" (.str f.name) ++ Json.member "arguments" (.str f.arguments))

/-- A function call; its arguments may be left out. -/
def record : Record FunctionCall :=
  mk <$> .required (plain "name") string <*> .defaulted (plain "arguments") string ""

end FunctionCall

namespace ToolCall

/-- A tool call as it is written. -/
def toJson (c : ToolCall) : Json :=
  .obj (Json.member "id" (.str c.id) ++ Json.member "type" (.str c.kind)
    ++ Json.member "function" c.function.toJson)

/-- A tool call whose kind, if left out, is `kind`. -/
def record (kind : String) : Record ToolCall :=
  mk <$> .required (plain "id") string
    <*> .defaulted (plain "type") string kind
    <*> .required (plain "function") FunctionCall.record.decode

end ToolCall

/-! ## Messages -/

namespace Message

/-- A message as it is written; what is absent is left out. -/
def toJson (m : Message) : Json :=
  .obj (Json.optional "id" (m.id.map .str) ++ Json.member "role" (.str m.role.name)
    ++ Json.optional "content" m.content ++ Json.optional "name" (m.name.map .str)
    ++ Json.nonemptyList "toolCalls" (m.toolCalls.map ToolCall.toJson)
    ++ Json.optional "toolCallId" (m.toolCallId.map .str)
    ++ Json.optional "toolName" (m.toolName.map .str)
    ++ Json.optional "activityType" (m.activityType.map .str))

/-- The fields of a message. -/
def record : Record Message :=
  mk <$> .optional (plain "id") string
    <*> .required (plain "role") Role.decode
    <*> .optional (spelled "content" ["delta", "parts"]) any
    <*> .optional (plain "name") string
    <*> .defaulted (spelled "toolCalls" ["tool_calls"]) (list (ToolCall.record "function").decode) []
    <*> .optional (spelled "toolCallId" ["tool_call_id", "toolId", "tool_id"]) string
    <*> .optional (spelled "toolName" ["tool_name"]) string
    <*> .optional (plain "activityType") string

/-- A message. -/
def decode : Decoder Message := record.decode

/-- A user message from typed parts. -/
def ofParts (parts : List Part) : Message :=
  { role := .user, content := some (.arr (parts.map fun p => p.toJson.sorted)) }

end Message

end AgentStream
