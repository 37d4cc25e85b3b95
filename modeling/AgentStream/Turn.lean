/-
# The turn of a request

The last message of a request is the engine's input: a user's text or parts, or the result of a
tool call.  Everything else about the conversation is the engine's own business.

* `Turn.ofMessages` : the turn of a list of messages, or the first reason why there is none;
* `Turn.record?` : what is kept of a user's turn.
-/
import AgentStream.Engine.Message

namespace AgentStream

/-- Why a request has no turn. -/
inductive TurnError
  | noMessages
  | unsupportedRole
  | missingToolCallId
  | contentNotString
  | unsupportedContentType (kind : String)
  | invalidContent (fault : Fault)
  | missingBinaryUrl
deriving DecidableEq

/-- The text of a turn error. -/
def TurnError.message : TurnError → String
  | noMessages => "no messages provided"
  | unsupportedRole => "last message role must be user or tool"
  | missingToolCallId => "tool message missing tool call id"
  | contentNotString => "last message content is not a string"
  | unsupportedContentType kind => "unsupported input content type: " ++ kind
  | invalidContent fault => "decode input content: " ++ fault.message
  | missingBinaryUrl => "binary input content requires a url"

/-- Where a turn comes from. -/
inductive TurnSource
  /-- A user's turn, with the message as it is kept in the log. -/
  | user (record : Message)
  /-- The result of a tool call, shown to the client once more. -/
  | tool (callId content : String)
deriving DecidableEq

/-- The input of one run. -/
structure Turn where
  message : Engine.Message
  messageId : String
  source : TurnSource
deriving DecidableEq

namespace Turn

/-! ## Parts -/

/-- The engine's part for one item of a content list. -/
def part (item : Json) : Except TurnError Engine.Part :=
  let kind := ((item.get? "type").bind Json.asString?).getD ""
  if kind = "text" ∨ kind = "binary" then
    match decodeJson Part.decode item with
    | .error fault => .error (.invalidContent fault)
    | .ok (.text text) => .ok (.text text)
    | .ok (.binary mimeType _ url _ _) =>
      if (url.getD "").isEmpty then .error .missingBinaryUrl
      else .ok (.image (url.getD "") "" mimeType)
  else .error (.unsupportedContentType kind)

/-- The engine's parts for a content list; the first bad item decides the error. -/
def parts : List Json → Except TurnError (List Engine.Part)
  | [] => .ok []
  | item :: rest => do
    let p ← part item
    let ps ← parts rest
    pure (p :: ps)

/-! ## Messages -/

/-- The engine's message for a user's content. -/
def userMessage : Option Json → Except TurnError Engine.Message
  | some (.str text) => .ok (.user text)
  | some (.arr items) => (parts items).map .userParts
  | _ => .error .contentNotString

/-- The first of two names that is given and not empty, or else the empty name. -/
def firstName (a b : Option String) : String :=
  if (a.getD "").isEmpty then b.getD "" else a.getD ""

/-- The turn of one message; `fresh` names it if it has no id. -/
def ofMessage (fresh : String) (last : Message) : Except TurnError Turn :=
  let messageId := if (last.id.getD "").isEmpty then fresh else last.id.getD ""
  match last.role with
  | .user => do
    let message ← userMessage last.content
    pure ⟨message, messageId, .user { last with id := some messageId }⟩
  | .tool =>
    let callId := last.toolCallId.getD ""
    if callId.isEmpty then .error .missingToolCallId
    else
      match last.content with
      | some (.str content) =>
        .ok ⟨.tool callId (firstName last.toolName last.name) content, messageId,
          .tool callId content⟩
      | _ => .error .contentNotString
  | _ => .error .unsupportedRole

/-- The turn of a conversation is that of its last message. -/
def ofMessages (fresh : String) (messages : List Message) : Except TurnError Turn :=
  match messages.getLast? with
  | none => .error .noMessages
  | some last => ofMessage fresh last

/-- What is kept of a user's turn: its message, named after the user unless it has a name. -/
def record? (t : Turn) (userId : String) : Option Message :=
  match t.source with
  | .user record => some (record.withFallbackName userId)
  | .tool _ _ => none

end Turn

end AgentStream
