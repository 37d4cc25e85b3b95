/-
# Conversation messages

A message has a role and a content that is left untyped: a request may give a string or a
list of parts, an activity record an object.

* `Role` : who a message is from;
* `Part` : one part of a request message's content;
* `Message` : a message of a request or of a replayed conversation.
-/
import AgentStream.Json.Basic

namespace AgentStream

/-! ## Roles -/

/-- Who a message is from. -/
inductive Role
  | developer
  | system
  | assistant
  | user
  | tool
  | activity
  | reasoning
deriving DecidableEq, Inhabited

/-- The roles by name. -/
def Role.table : List (String × Role) :=
  [("developer", .developer), ("system", .system), ("assistant", .assistant), ("user", .user),
    ("tool", .tool), ("activity", .activity), ("reasoning", .reasoning)]

/-- The name of a role. -/
def Role.name : Role → String
  | developer => "developer"
  | system => "system"
  | assistant => "assistant"
  | user => "user"
  | tool => "tool"
  | activity => "activity"
  | reasoning => "reasoning"

/-! ## Parts -/

/-- One part of a request message's content. -/
inductive Part
  | text (text : String)
  | binary (mimeType : String) (id url data filename : Option String)
deriving DecidableEq

/-- A binary part given by its address. -/
def Part.ofUrl (mimeType url : String) : Part := .binary mimeType none (some url) none none

/-! ## Tool calls -/

/-- The function that a tool call invokes, its arguments as the model wrote them. -/
structure FunctionCall where
  name : String
  arguments : String
deriving DecidableEq, Inhabited

/-- A tool call of an assistant message. -/
structure ToolCall where
  id : String
  kind : String
  function : FunctionCall
deriving DecidableEq, Inhabited

/-- A function call without arguments so far. -/
def ToolCall.ofFunction (id name : String) : ToolCall := ⟨id, "function", ⟨name, ""⟩⟩

/-! ## Messages -/

/-- A message of a request or of a replayed conversation. -/
structure Message where
  id : Option String := none
  role : Role
  content : Option Json := none
  name : Option String := none
  toolCalls : List ToolCall := []
  toolCallId : Option String := none
  toolName : Option String := none
  activityType : Option String := none
deriving DecidableEq

namespace Message

/-- A user message with a text. -/
def user (text : String) : Message := { role := .user, content := some (.str text) }

/-- An assistant message with a text. -/
def assistant (text : String) : Message := { role := .assistant, content := some (.str text) }

/-- The result of a tool call. -/
def tool (text callId : String) : Message :=
  { role := .tool, content := some (.str text), toolCallId := some callId }

/-- An activity record. -/
def activity (kind : String) (content : Json) : Message :=
  { role := .activity, content := some content, activityType := some kind }

/-- The content, if it is a string. -/
def text? (m : Message) : Option String := m.content.bind Json.asString?

/-- The message under a name, unless it has one that is not empty. -/
def withFallbackName (m : Message) (name : String) : Message :=
  if (m.name.getD "").isEmpty then { m with name := some name } else m

/-- Such a message has a name. -/
theorem withFallbackName_eq (m : Message) (name : String) :
    m.withFallbackName name
      = { m with name := some (if (m.name.getD "").isEmpty then name else m.name.getD "") } := by
  unfold withFallbackName
  split
  · rfl
  · cases m with
    | mk _ _ _ own =>
      cases own with
      | none => contradiction
      | some own => rfl

@[simp]
theorem role_withFallbackName (m : Message) (name : String) :
    (m.withFallbackName name).role = m.role := by
  rw [withFallbackName_eq]

@[simp]
theorem content_withFallbackName (m : Message) (name : String) :
    (m.withFallbackName name).content = m.content := by
  rw [withFallbackName_eq]

end Message

end AgentStream
