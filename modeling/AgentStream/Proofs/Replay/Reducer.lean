/-
# Replays by index

A replay may keep the texts and tool calls that it knows in tables by id, beside the order in which
they came up, and point from there into its messages.  Then every access may miss: a list may have
nothing at an index, and a table nothing under an id.  Such a replay is given here, with all its
accesses; one that misses halts it, which no failure of a log does.

* `Halt`, `Reducer.placed`, `Reducer.keyed` : accesses, and what becomes of one that misses;
* `Reducer` : the messages so far, the tables and the orders;
* `Reducer.event`, `Reducer.step`, `Reducer.steps` : the handlers, an entry and a log;
* `Reducer.finalize` : what is left open at the end;
* `Reducer.reduce` : what a log comes to, unless an access misses;
* `Reducer.Valid` : every index of a table points where it should.
-/
import Mathlib.Data.List.Basic
import AgentStream.Replay

namespace AgentStream

/-- Why a reducer goes no further. -/
inductive Halt
  | failed (error : ReplayError)
  /-- A list has nothing at an index, or a table nothing under an id. -/
  | missed
deriving DecidableEq

/-- The messages so far, what is known of texts and tool calls by id, and the orders in which they
came up. -/
structure Reducer where
  app : String
  user : String
  texts : Std.HashMap String TextState := {}
  textOrder : List String := []
  calls : Std.HashMap String CallState := {}
  callOrder : List String := []
  messages : List Message := []

namespace Reducer

/-! ## Accesses -/

/-- What a list has at an index. -/
def placed {α : Type} (xs : List α) (index : Nat) : Except Halt α :=
  match xs[index]? with
  | some a => .ok a
  | none => .error .missed

/-- What a table has under an id that it must have. -/
def keyed {α : Type} (table : Std.HashMap String α) (id : String) : Except Halt α :=
  match table[id]? with
  | some a => .ok a
  | none => .error .missed

/-- A failure of the log. -/
def fail {α : Type} (error : ReplayError) : Except Halt α := .error (.failed error)

/-- Change the message at an index. -/
def setMessage (s : Reducer) (index : Nat) (f : Message → Except Halt Message) :
    Except Halt Reducer := do
  let m ← placed s.messages index
  let m ← f m
  pure { s with messages := s.messages.set index m }

/-- Add a message. -/
def push (s : Reducer) (m : Message) : Reducer := { s with messages := s.messages ++ [m] }

/-- Add a text message; the table points at the last message. -/
def pushText (s : Reducer) (id : String) (m : Message) (content : String) (ended : Bool) :
    Reducer :=
  let messages := s.messages ++ [m]
  { s with
    messages
    textOrder := s.textOrder ++ [id]
    texts := s.texts.insert id ⟨content, ended, messages.length - 1⟩ }

/-- The name under which a text message is shown: the user's or the app's. -/
def nameFor (s : Reducer) : Role → Except Halt String
  | .user => .ok s.user
  | .assistant => .ok s.app
  | role => fail (.unsupportedRole role)

/-! ## Text messages -/

def textStart (s : Reducer) (id : String) (role : Role) : Except Halt Reducer :=
  if id.isEmpty then fail .textStartMissingId
  else if s.texts.contains id then fail (.duplicateTextStart id)
  else do
    let name ← s.nameFor role
    pure (s.pushText id { id := some id, role, name := some name } "" false)

def textContent (s : Reducer) (id delta : String) : Except Halt Reducer :=
  match s.texts[id]? with
  | none => fail (.textContentWithoutStart id)
  | some t =>
    if t.ended then fail (.textContentAfterEnd id)
    else .ok { s with texts := s.texts.insert id { t with content := t.content ++ delta } }

/-- The content of a text that ends goes to the message that the table points at. -/
def textEnd (s : Reducer) (id : String) : Except Halt Reducer :=
  match s.texts[id]? with
  | none => fail (.textEndWithoutStart id)
  | some t =>
    if t.ended then fail (.duplicateTextEnd id)
    else
      { s with texts := s.texts.insert id { t with ended := true } }.setMessage t.index fun m =>
        pure { m with content := some (.str t.content) }

def textChunk (s : Reducer) (id : Option String) (role : Option Role) (delta : Option String) :
    Except Halt Reducer :=
  let id := id.getD ""
  if id.isEmpty then fail .textChunkMissingId
  else if s.texts.contains id then fail (.duplicateTextChunk id)
  else do
    let role := role.getD .assistant
    let name ← s.nameFor role
    let content := delta.getD ""
    pure (s.pushText id
      { id := some id, role, name := some name, content := some (.str content) } content true)

/-! ## Tool calls -/

/-- The reducer with a text that tools are called from, which is added if it is not known. -/
def ensureText (s : Reducer) (parent : String) : Reducer :=
  if s.texts.contains parent then s
  else s.pushText parent { id := some parent, role := .assistant, name := some s.app } "" true

/-- The reducer with one more tool call from a text; the table points at the last call of the
message. -/
def pushCall (s : Reducer) (id name parent : String) : Except Halt Reducer := do
  let t ← keyed s.texts parent
  let m ← placed s.messages t.index
  let toolCalls := m.toolCalls ++ [ToolCall.ofFunction id name]
  pure { s with
    messages := s.messages.set t.index { m with toolCalls }
    callOrder := s.callOrder ++ [id]
    calls := s.calls.insert id ⟨parent, "", .awaitingArgs, toolCalls.length - 1⟩ }

def toolStart (s : Reducer) (id name : String) (parent : Option String) : Except Halt Reducer :=
  if id.isEmpty then fail .toolStartMissingId
  else if s.calls.contains id then fail (.duplicateToolStart id)
  else
    match parent with
    | none => fail .toolStartMissingParent
    | some parent => (s.ensureText parent).pushCall id name parent

def toolArgs (s : Reducer) (id delta : String) : Except Halt Reducer :=
  match s.calls[id]? with
  | none => fail (.toolArgsWithoutStart id)
  | some c =>
    if c.phase ≠ .awaitingArgs then fail (.toolArgsInvalidPhase id)
    else .ok { s with calls := s.calls.insert id { c with arguments := c.arguments ++ delta } }

/-- The arguments of a tool call that ends go to the call that the tables point at. -/
def toolEnd (s : Reducer) (id : String) : Except Halt Reducer :=
  match s.calls[id]? with
  | none => fail (.toolEndWithoutStart id)
  | some c =>
    if c.phase ≠ .awaitingArgs then fail (.duplicateToolEnd id)
    else
      match s.texts[c.messageId]? with
      | none => fail (.toolEndMissingParent c.messageId)
      | some t => do
        let s ← s.setMessage t.index fun m => do
          let call ← placed m.toolCalls c.index
          let call := { call with function := { call.function with arguments := c.arguments } }
          pure { m with toolCalls := m.toolCalls.set c.index call }
        pure { s with calls := s.calls.insert id { c with phase := .awaitingResult } }

def toolResult (s : Reducer) (messageId callId content : String) (role : Option Role) :
    Except Halt Reducer :=
  if messageId.isEmpty || callId.isEmpty then fail .toolResultMissingIds
  else
    match s.calls[callId]? with
    | none => fail (.toolResultWithoutCall callId)
    | some c =>
      if c.phase ≠ .awaitingResult then fail (.toolResultWithoutCall callId)
      else
        .ok ({ s with calls := s.calls.insert callId { c with phase := .completed } }.push
          { id := some messageId, role := role.getD .tool, content := some (.str content),
            toolCallId := some callId })

/-! ## Other events -/

def userMessage (s : Reducer) (value : Json) : Except Halt Reducer :=
  match decodeJson Message.decode value with
  | .error fault => fail (.userMessage fault)
  | .ok m =>
    if m.role ≠ .user then fail (.unsupportedRole m.role)
    else .ok (s.push (m.withFallbackName s.user))

def activity (s : Reducer) (body : Body) (timestamp : Nat) : Reducer :=
  match Replay.activityContent body with
  | some content => s.push (Replay.activityMessage body.kind timestamp content)
  | none => s

/-! ## Logs -/

def event (s : Reducer) (timestamp : Nat) (body : Body) : Except Halt Reducer :=
  match body with
  | .textStart id role => s.textStart id role
  | .textContent id delta => s.textContent id delta
  | .textEnd id => s.textEnd id
  | .textChunk id role delta => s.textChunk id role delta
  | .toolStart id name parent => s.toolStart id name parent
  | .toolArgs id delta => s.toolArgs id delta
  | .toolEnd id => s.toolEnd id
  | .toolResult messageId callId content role => s.toolResult messageId callId content role
  | .custom name value =>
    if name = Replay.userMessageName then s.userMessage value else .ok (s.activity body timestamp)
  | .runStarted .. => .ok s
  | .runFinished .. => .ok s
  | .runError .. => .ok s
  | _ => .ok (s.activity body timestamp)

def step (s : Reducer) (e : Entry) : Except Halt Reducer :=
  if e.payload.isEmpty then .ok s
  else
    match e.event with
    | .error error => fail (.decode error)
    | .ok event => s.event e.timestamp event.body

/-- Entries up to the first one that halts the reducer: the state before it, and why it does. -/
def steps (s : Reducer) : List Entry → Reducer × Option Halt
  | [] => (s, none)
  | e :: rest =>
    match s.step e with
    | .ok s => steps s rest
    | .error halt => (s, some halt)

/-- Fail at the first of some ids that is open. -/
def checkClosed {α : Type} (table : Std.HashMap String α) (isOpen : α → Bool)
    (error : String → ReplayError) : List String → Except Halt Unit
  | [] => .ok ()
  | id :: rest => do
    let a ← keyed table id
    if isOpen a then fail (error id) else checkClosed table isOpen error rest

/-- Fail if something is left open: a text first, and then a tool call. -/
def finalize (s : Reducer) : Except Halt Unit := do
  checkClosed s.texts (fun t => !t.ended) .textNotClosed s.textOrder
  checkClosed s.calls (fun c => c.phase != .completed) .toolCallNotCompleted s.callOrder

/-- The messages of a log and its first failure, unless an access misses. -/
def reduce (app user : String) (log : List Entry) : Option Replayed :=
  match ({ app, user } : Reducer).steps log with
  | (s, some (.failed error)) => some ⟨s.messages, some error⟩
  | (_, some .missed) => none
  | (s, none) =>
    match s.finalize with
    | .ok () => some ⟨s.messages, none⟩
    | .error (.failed error) => some ⟨s.messages, some error⟩
    | .error .missed => none

/-! ## Indices -/

/-- Every index of a table points where it should, and the orders list the keys of the tables. -/
structure Valid (s : Reducer) : Prop where
  /-- The message of a text stands at its index. -/
  text : ∀ (id : String) (t : TextState), s.texts[id]? = some t →
    ∃ m : Message, s.messages[t.index]? = some m ∧ m.id = some id
  /-- Two texts have two indices. -/
  apart : ∀ (id id' : String) (t t' : TextState), s.texts[id]? = some t →
    s.texts[id']? = some t' → id ≠ id' → t.index ≠ t'.index
  /-- A tool call stands at its index among those of the message of a known text. -/
  call : ∀ (id : String) (c : CallState), s.calls[id]? = some c →
    ∃ (t : TextState) (m : Message) (call : ToolCall), s.texts[c.messageId]? = some t ∧
      s.messages[t.index]? = some m ∧ m.toolCalls[c.index]? = some call ∧ call.id = id
  textOrder : s.textOrder.Nodup ∧ ∀ id, id ∈ s.textOrder ↔ id ∈ s.texts
  callOrder : s.callOrder.Nodup ∧ ∀ id, id ∈ s.callOrder ↔ id ∈ s.calls

end Reducer

end AgentStream
