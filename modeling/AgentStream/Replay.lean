/-
# Replay of a log

A session's log is reduced to the messages that a client would have shown.  Every event is
checked against what came before it; the first failure ends the replay, and the messages so far
stand.

* `Replay` : the messages so far and what is known of texts and tool calls;
* `Replay.step` : one event;
* `replay` : a log, with the messages and the first failure.
-/
import AgentStream.Log.Entry

namespace AgentStream

/-! ## Failures -/

/-- Why a log cannot be replayed. -/
inductive ReplayError
  | decode (error : Event.ReadError)
  | userMessage (fault : Fault)
  | unsupportedRole (role : Role)
  | textStartMissingId
  | duplicateTextStart (id : String)
  | textContentWithoutStart (id : String)
  | textContentAfterEnd (id : String)
  | textEndWithoutStart (id : String)
  | duplicateTextEnd (id : String)
  | textChunkMissingId
  | duplicateTextChunk (id : String)
  | toolStartMissingId
  | duplicateToolStart (id : String)
  | toolStartMissingParent
  | toolArgsWithoutStart (id : String)
  | toolArgsInvalidPhase (id : String)
  | toolEndWithoutStart (id : String)
  | duplicateToolEnd (id : String)
  | toolEndMissingParent (id : String)
  | toolResultMissingIds
  | toolResultWithoutCall (id : String)
  | textNotClosed (id : String)
  | toolCallNotCompleted (id : String)
deriving DecidableEq

/-- The text of a replay error. -/
def ReplayError.message : ReplayError → String
  | decode error => "unmarshal track event payload: " ++ error.message
  | userMessage fault => "decode user message: " ++ fault.message
  | unsupportedRole role => "unsupported role: " ++ role.name
  | textStartMissingId => "text message start missing id"
  | duplicateTextStart id => "duplicate text message start: " ++ id
  | textContentWithoutStart id => "text message content without start: " ++ id
  | textContentAfterEnd id => "text message content after end: " ++ id
  | textEndWithoutStart id => "text message end without start: " ++ id
  | duplicateTextEnd id => "duplicate text message end: " ++ id
  | textChunkMissingId => "text message chunk missing id"
  | duplicateTextChunk id => "duplicate text message chunk: " ++ id
  | toolStartMissingId => "tool call start missing id"
  | duplicateToolStart id => "duplicate tool call start: " ++ id
  | toolStartMissingParent => "tool call start missing parent message id"
  | toolArgsWithoutStart id => "tool call args without start: " ++ id
  | toolArgsInvalidPhase id => "tool call args invalid phase: " ++ id
  | toolEndWithoutStart id => "tool call end without start: " ++ id
  | duplicateToolEnd id => "duplicate tool call end: " ++ id
  | toolEndMissingParent id => "tool call end missing parent message: " ++ id
  | toolResultMissingIds => "tool call result missing identifiers"
  | toolResultWithoutCall id => "tool call result without completed call: " ++ id
  | textNotClosed id => "text message " ++ id ++ " not closed"
  | toolCallNotCompleted id => "tool call " ++ id ++ " not completed"

/-! ## State -/

/-- A text message: its pieces so far, whether it has ended, and where it stands. -/
structure TextState where
  content : String
  ended : Bool
  index : Nat
deriving DecidableEq

/-- Where a tool call is. -/
inductive CallPhase
  | awaitingArgs
  | awaitingResult
  | completed
deriving DecidableEq

/-- A tool call: the message it belongs to, its arguments so far, and its place there. -/
structure CallState where
  messageId : String
  arguments : String
  phase : CallPhase
  index : Nat
deriving DecidableEq

/-- The messages so far and what is known of texts and tool calls, in the order they came up. -/
structure Replay where
  app : String
  user : String
  texts : List (String × TextState) := []
  calls : List (String × CallState) := []
  messages : List Message := []
deriving DecidableEq

namespace Replay

/-- Change what is known under an id. -/
def update {α : Type} (id : String) (f : α → α) (table : List (String × α)) : List (String × α) :=
  table.map fun (k, v) => if k = id then (k, f v) else (k, v)

/-- Change the message at a place. -/
def setMessage (r : Replay) (index : Nat) (f : Message → Message) : Replay :=
  { r with messages := r.messages.modify index f }

/-- Add a message. -/
def push (r : Replay) (m : Message) : Replay := { r with messages := r.messages ++ [m] }

/-- Add a text message under a new id. -/
def pushText (r : Replay) (id : String) (m : Message) (content : String) (ended : Bool) : Replay :=
  { r with
    messages := r.messages ++ [m]
    texts := r.texts ++ [(id, ⟨content, ended, r.messages.length⟩)] }

/-- The name under which a text message is shown: the user's or the app's. -/
def nameFor (r : Replay) : Role → Except ReplayError String
  | .user => .ok r.user
  | .assistant => .ok r.app
  | role => .error (.unsupportedRole role)

/-! ## Text messages -/

/-- A text message starts. -/
def textStart (r : Replay) (id : String) (role : Role) : Except ReplayError Replay :=
  if id.isEmpty then .error .textStartMissingId
  else if (r.texts.lookup id).isSome then .error (.duplicateTextStart id)
  else do
    let name ← r.nameFor role
    pure (r.pushText id { id := some id, role, name := some name } "" false)

/-- A piece of a text message. -/
def textContent (r : Replay) (id delta : String) : Except ReplayError Replay :=
  match r.texts.lookup id with
  | none => .error (.textContentWithoutStart id)
  | some t =>
    if t.ended then .error (.textContentAfterEnd id)
    else .ok { r with texts := update id (fun t => { t with content := t.content ++ delta }) r.texts }

/-- A text message ends; its content is shown. -/
def textEnd (r : Replay) (id : String) : Except ReplayError Replay :=
  match r.texts.lookup id with
  | none => .error (.textEndWithoutStart id)
  | some t =>
    if t.ended then .error (.duplicateTextEnd id)
    else
      .ok
        ({ r with texts := update id (fun t => { t with ended := true }) r.texts }.setMessage t.index
          fun m => { m with content := some (.str t.content) })

/-- A text message in one piece. -/
def textChunk (r : Replay) (id : Option String) (role : Option Role) (delta : Option String) :
    Except ReplayError Replay :=
  let id := id.getD ""
  if id.isEmpty then .error .textChunkMissingId
  else if (r.texts.lookup id).isSome then .error (.duplicateTextChunk id)
  else do
    let role := role.getD .assistant
    let name ← r.nameFor role
    let content := delta.getD ""
    pure (r.pushText id
      { id := some id, role, name := some name, content := some (.str content) } content true)

/-! ## Tool calls -/

/-- A tool call starts.  Without a text message to belong to it is given one of the assistant,
which has no content. -/
def toolStart (r : Replay) (id name : String) (parent : Option String) :
    Except ReplayError Replay :=
  if id.isEmpty then .error .toolStartMissingId
  else if (r.calls.lookup id).isSome then .error (.duplicateToolStart id)
  else
    match parent with
    | none => .error .toolStartMissingParent
    | some parent =>
      let r :=
        if (r.texts.lookup parent).isSome then r
        else r.pushText parent { id := some parent, role := .assistant, name := some r.app } "" true
      let place := ((r.texts.lookup parent).map (·.index)).getD 0
      let earlier := (r.messages[place]?.map (·.toolCalls)).getD []
      let r := r.setMessage place fun m =>
        { m with toolCalls := m.toolCalls ++ [ToolCall.ofFunction id name] }
      .ok { r with calls := r.calls ++ [(id, ⟨parent, "", .awaitingArgs, earlier.length⟩)] }

/-- A piece of a tool call's arguments. -/
def toolArgs (r : Replay) (id delta : String) : Except ReplayError Replay :=
  match r.calls.lookup id with
  | none => .error (.toolArgsWithoutStart id)
  | some c =>
    if c.phase ≠ .awaitingArgs then .error (.toolArgsInvalidPhase id)
    else
      .ok { r with calls := update id (fun c => { c with arguments := c.arguments ++ delta }) r.calls }

/-- The arguments of a tool call are complete and shown. -/
def toolEnd (r : Replay) (id : String) : Except ReplayError Replay :=
  match r.calls.lookup id with
  | none => .error (.toolEndWithoutStart id)
  | some c =>
    if c.phase ≠ .awaitingArgs then .error (.duplicateToolEnd id)
    else
      match r.texts.lookup c.messageId with
      | none => .error (.toolEndMissingParent c.messageId)
      | some t =>
        let r := r.setMessage t.index fun m =>
          { m with
            toolCalls := m.toolCalls.modify c.index fun call =>
              { call with function := { call.function with arguments := c.arguments } } }
        .ok { r with calls := update id (fun c => { c with phase := .awaitingResult }) r.calls }

/-- The result of a tool call. -/
def toolResult (r : Replay) (messageId callId content : String) (role : Option Role) :
    Except ReplayError Replay :=
  if messageId.isEmpty || callId.isEmpty then .error .toolResultMissingIds
  else
    match r.calls.lookup callId with
    | none => .error (.toolResultWithoutCall callId)
    | some c =>
      if c.phase ≠ .awaitingResult then .error (.toolResultWithoutCall callId)
      else
        .ok
          ({ r with calls := update callId (fun c => { c with phase := .completed }) r.calls }.push
            { id := some messageId, role := role.getD .tool, content := some (.str content),
              toolCallId := some callId })

/-! ## Other events -/

/-- The name of the custom event that records a user's turn. -/
def userMessageName : String := "user.message"

/-- A user's turn. -/
def userMessage (r : Replay) (value : Json) : Except ReplayError Replay :=
  match decodeJson Message.decode value with
  | .error fault => .error (.userMessage fault)
  | .ok m =>
    if m.role ≠ .user then .error (.unsupportedRole m.role)
    else .ok (r.push (m.withFallbackName r.user))

/-- A string or `null`. -/
def orNull (s : Option String) : Json := (s.map .str).getD .null

/-- What an event without a message of its own is shown as, if it is shown. -/
def activityContent : Body → Option Json
  | .stepStarted name => some (.ofMembers [("stepName", .str name)])
  | .stepFinished name => some (.ofMembers [("stepName", .str name)])
  | .stateSnapshot snapshot => some (.ofMembers [("snapshot", snapshot)])
  | .stateDelta delta => some (.ofMembers [("delta", .arr delta)])
  | .messagesSnapshot messages =>
    some (.ofMembers [("messages", .arr (messages.map fun m => m.toJson.sorted))])
  | .activitySnapshot messageId kind content replace =>
    some (.ofMembers [("messageId", .str messageId), ("activityType", .str kind),
      ("content", content), ("replace", (replace.map .bool).getD .null)])
  | .activityDelta messageId kind patch =>
    some (.ofMembers [("messageId", .str messageId), ("activityType", .str kind),
      ("patch", .arr patch)])
  | .custom name value => some (.ofMembers [("name", .str name), ("value", value)])
  | .raw event source => some (.ofMembers [("source", orNull source), ("event", event)])
  | _ => none

/-- The activity message of an event with a timestamp. -/
def activityMessage (kind : String) (timestamp : Nat) (content : Json) : Message :=
  { Message.activity kind content with id := some ("activity-" ++ toString timestamp) }

/-- An event that is shown as an activity. -/
def activity (r : Replay) (body : Body) (timestamp : Nat) : Replay :=
  match activityContent body with
  | some content => r.push (activityMessage body.kind timestamp content)
  | none => r

/-! ## Logs -/

/-- One event. -/
def event (r : Replay) (timestamp : Nat) (body : Body) : Except ReplayError Replay :=
  match body with
  | .textStart id role => r.textStart id role
  | .textContent id delta => r.textContent id delta
  | .textEnd id => r.textEnd id
  | .textChunk id role delta => r.textChunk id role delta
  | .toolStart id name parent => r.toolStart id name parent
  | .toolArgs id delta => r.toolArgs id delta
  | .toolEnd id => r.toolEnd id
  | .toolResult messageId callId content role => r.toolResult messageId callId content role
  | .custom name value =>
    if name = userMessageName then r.userMessage value else .ok (r.activity body timestamp)
  | .runStarted .. => .ok r
  | .runFinished .. => .ok r
  | .runError .. => .ok r
  | _ => .ok (r.activity body timestamp)

/-- One entry; an empty one says nothing. -/
def step (r : Replay) (e : Entry) : Except ReplayError Replay :=
  if e.payload.isEmpty then .ok r
  else
    match e.event with
    | .error error => .error (.decode error)
    | .ok event => r.event e.timestamp event.body

/-- Entries up to the first failure: the state before it, and the failure. -/
def steps (r : Replay) : List Entry → Replay × Option ReplayError
  | [] => (r, none)
  | e :: rest =>
    match r.step e with
    | .ok r => steps r rest
    | .error error => (r, some error)

/-- What is left open at the end of a log: the first text that has not ended, or else the
first tool call without a result. -/
def unfinished (r : Replay) : Option ReplayError :=
  match r.texts.find? fun (_, t) => !t.ended with
  | some (id, _) => some (.textNotClosed id)
  | none =>
    match r.calls.find? fun (_, c) => c.phase != .completed with
    | some (id, _) => some (.toolCallNotCompleted id)
    | none => none

end Replay

/-- The messages of a log and its first failure. -/
structure Replayed where
  messages : List Message
  error : Option ReplayError
deriving DecidableEq

/-- Replay a log of a user of an app. -/
def replay (app user : String) (log : List Entry) : Replayed :=
  match ({ app, user } : Replay).steps log with
  | (r, some error) => ⟨r.messages, some error⟩
  | (r, none) => ⟨r.messages, r.unfinished⟩

end AgentStream
