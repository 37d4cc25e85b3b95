/-
# What a log tells

A log tells a conversation whatever order its pieces come in.  Some of its events open a message
each; the content of a text is all that was said of it, and its tool calls are those that were
started from it, with all the arguments that they were given.

* `Body.textOf`, `Body.argumentsOf`, `Body.callsFrom` : what is said of a text and of a tool call,
  and the tool calls from a text;
* `Opening`, `openings` : the events that open a message;
* `Account`, `Opening.shown` : the message of an opening, given what is told of texts and calls;
* `Account.full`, `Account.soFar` : all that is told, and what is told of what has ended.
-/
import AgentStream.Proofs.Replay.Grammar
import Mathlib.Data.List.Basic

namespace AgentStream

/-- What an entry says, with its time. -/
def Entry.said? (e : Entry) : Option (Nat × Body) := e.body?.map fun b => (e.timestamp, b)

/-! ## Texts and tool calls -/

namespace Body

/-- The text that is known once the event has come. -/
def opensId? : Body → Option String
  | textStart id _ => some id
  | textChunk id _ _ => id
  | toolStart _ _ parent => parent
  | _ => none

/-- What an event adds to a text. -/
def pieceOf? (id : String) : Body → Option String
  | textContent id' delta => if id' = id then some delta else none
  | _ => none

/-- What an event adds to the arguments of a tool call. -/
def argumentOf? (id : String) : Body → Option String
  | toolArgs id' delta => if id' = id then some delta else none
  | _ => none

/-- The tool call, with its function, that an event starts from a text. -/
def callFrom? (id : String) : Body → Option (String × String)
  | toolStart call name parent => if parent = some id then some (call, name) else none
  | _ => none

/-- The event ends a text or the arguments of a tool call. -/
def isEnd : Body → Bool
  | textEnd _ => true
  | toolEnd _ => true
  | _ => false

/-- The event neither starts a tool call nor goes on with a text or a call. -/
structure Silent (b : Body) : Prop where
  call : ∀ id, b.callFrom? id = none
  piece : ∀ id, b.pieceOf? id = none
  argument : ∀ id, b.argumentOf? id = none
  ends : b.isEnd = false

/-- All that is said of a text. -/
def textOf (id : String) (bodies : List Body) : String :=
  String.join (bodies.filterMap (pieceOf? id))

/-- All arguments that a tool call is given. -/
def argumentsOf (id : String) (bodies : List Body) : String :=
  String.join (bodies.filterMap (argumentOf? id))

/-- The tool calls from a text, in the order in which they started. -/
def callsFrom (id : String) (bodies : List Body) : List (String × String) :=
  bodies.filterMap (callFrom? id)

/-- The content of a text, once it has ended. -/
def contentSoFar (id : String) (bodies : List Body) : Option Json :=
  if textEnd id ∈ bodies then some (.str (textOf id bodies)) else none

/-- The arguments of a tool call, once they are complete. -/
def argumentsSoFar (id : String) (bodies : List Body) : String :=
  if toolEnd id ∈ bodies then argumentsOf id bodies else ""

end Body

open Body

/-! ## Messages -/

/-- What opens a message. -/
inductive Opening
  /-- A text that starts. -/
  | text (id : String) (role : Role)
  /-- A text in one piece. -/
  | whole (id : String) (role : Role) (content : String)
  /-- The first tool call from a text of which nothing has been said. -/
  | parent (id : String)
  /-- A user's turn. -/
  | turn (m : Message)
  /-- The result of a tool call, or an activity. -/
  | alone (m : Message)

/-- The opening of an activity: a message that is named after its time. -/
def Opening.activity (timestamp : Nat) (kind : String) (said : Members) : Opening :=
  .alone { id := some ("activity-" ++ toString timestamp), role := .activity,
           content := some (.obj said), activityType := some kind }

/-- What an event opens behind others: nothing if it is about a run, goes on with a text or a tool
call, or calls a tool from a text that is known. -/
def opening? (before : List Body) (timestamp : Nat) : Body → Option Opening
  | runStarted .. => none
  | runFinished .. => none
  | runError .. => none
  | textContent .. => none
  | textEnd .. => none
  | toolArgs .. => none
  | toolEnd .. => none
  | textStart id role => some (.text id role)
  | textChunk id role delta =>
    id.map fun id => .whole id (role.getD .assistant) (delta.getD "")
  | toolStart _ _ parent =>
    (parent.filter fun id => before.all fun b => b.opensId? != some id).map .parent
  | toolResult messageId callId content role =>
    some (.alone { id := some messageId, role := role.getD .tool, content := some (.str content),
                   toolCallId := some callId })
  | stepStarted name => some (.activity timestamp "STEP_STARTED" [("stepName", .str name)])
  | stepFinished name => some (.activity timestamp "STEP_FINISHED" [("stepName", .str name)])
  | stateSnapshot snapshot =>
    some (.activity timestamp "STATE_SNAPSHOT" [("snapshot", snapshot)])
  | stateDelta delta => some (.activity timestamp "STATE_DELTA" [("delta", .arr delta)])
  | messagesSnapshot messages =>
    some (.activity timestamp "MESSAGES_SNAPSHOT"
      [("messages", .arr (messages.map fun m => m.toJson.sorted))])
  | activitySnapshot messageId kind content replace =>
    some (.activity timestamp "ACTIVITY_SNAPSHOT"
      [("activityType", .str kind), ("content", content), ("messageId", .str messageId),
        ("replace", (replace.map .bool).getD .null)])
  | activityDelta messageId kind patch =>
    some (.activity timestamp "ACTIVITY_DELTA"
      [("activityType", .str kind), ("messageId", .str messageId), ("patch", .arr patch)])
  | raw event source =>
    some (.activity timestamp "RAW"
      [("event", event), ("source", (source.map .str).getD .null)])
  | custom name value =>
    if name = "user.message" then (decodeJson Message.decode value).toOption.map .turn
    else some (.activity timestamp "CUSTOM" [("name", .str name), ("value", value)])

/-- What is opened behind events, in order. -/
def openingsAfter (before : List Body) : List (Nat × Body) → List Opening
  | [] => []
  | (timestamp, b) :: rest =>
    (opening? before timestamp b).toList ++ openingsAfter (before ++ [b]) rest

/-- What is opened by what is said. -/
def openings (said : List (Nat × Body)) : List Opening := openingsAfter [] said

/-- What is told of a text: its content, and the tool calls from it. -/
structure Account where
  content : String → Option Json
  calls : String → List ToolCall

/-- Tool calls, given their arguments. -/
def Account.callsWith (arguments : String → String) (calls : List (String × String)) :
    List ToolCall :=
  calls.map fun (call, name) => ⟨call, "function", ⟨name, arguments call⟩⟩

/-- All that is told of texts and tool calls. -/
def Account.full (bodies : List Body) : Account where
  content id := some (.str (textOf id bodies))
  calls id := callsWith (fun call => argumentsOf call bodies) (callsFrom id bodies)

/-- What is told so far: a text has no content before it ends, and a tool call no arguments. -/
def Account.soFar (bodies : List Body) : Account where
  content id := contentSoFar id bodies
  calls id := callsWith (fun call => argumentsSoFar call bodies) (callsFrom id bodies)

namespace Opening

/-- The text that is opened. -/
def text? : Opening → Option String
  | text id _ => some id
  | whole id _ _ => some id
  | parent id => some id
  | turn _ => none
  | alone _ => none

/-- The message of an opening. -/
def shown (app user : String) (told : Account) : Opening → Message
  | text id role =>
    { id := some id, role, name := some (if role = .user then user else app),
      content := told.content id, toolCalls := told.calls id }
  | whole id role content =>
    { id := some id, role, name := some (if role = .user then user else app),
      content := some (.str content), toolCalls := told.calls id }
  | parent id =>
    { id := some id, role := .assistant, name := some app, toolCalls := told.calls id }
  | turn m =>
    { m with name := some (if (m.name.getD "").isEmpty then user else m.name.getD "") }
  | alone m => m

end Opening

/-! ## One more event -/

variable {before bodies : List Body} {b : Body} {id : String} {said : List (Nat × Body)}

theorem openingsAfter_append (before : List Body) (xs ys : List (Nat × Body)) :
    openingsAfter before (xs ++ ys)
      = openingsAfter before xs ++ openingsAfter (before ++ xs.map Prod.snd) ys := by
  induction xs generalizing before with
  | nil => rw [List.nil_append, List.map_nil, List.append_nil]; rfl
  | cons x xs ih =>
    obtain ⟨timestamp, b⟩ := x
    rw [List.cons_append, openingsAfter, openingsAfter, ih, List.append_assoc, List.append_assoc]
    rfl

theorem openings_append (xs ys : List (Nat × Body)) :
    openings (xs ++ ys) = openings xs ++ openingsAfter (xs.map Prod.snd) ys :=
  openingsAfter_append [] xs ys

theorem openings_concat (said : List (Nat × Body)) (timestamp : Nat) (b : Body) :
    openings (said ++ [(timestamp, b)])
      = openings said ++ (opening? (said.map Prod.snd) timestamp b).toList := by
  rw [openings_append, openingsAfter, openingsAfter, List.append_nil]

/-- What is opened was opened by an event. -/
theorem mem_openingsAfter {o : Opening} (h : o ∈ openingsAfter before said) :
    ∃ x ∈ said, ∃ before', opening? before' x.1 x.2 = some o := by
  induction said generalizing before with
  | nil => exact absurd h List.not_mem_nil
  | cons x said ih =>
    rcases List.mem_append.1 h with h | h
    · exact ⟨x, List.mem_cons_self, before, Option.mem_toList.1 h⟩
    · obtain ⟨y, hy, hopened⟩ := ih h
      exact ⟨y, List.mem_cons_of_mem _ hy, hopened⟩

/-- A text that starts was started by an event. -/
theorem textStart_of_opening {role : Role} (h : Opening.text id role ∈ openings said) :
    textStart id role ∈ said.map Prod.snd := by
  obtain ⟨⟨timestamp, b⟩, hx, before, hopened⟩ := mem_openingsAfter h
  have hb : b = textStart id role := by
    cases b with
    | textStart =>
      cases hopened
      rfl
    | textChunk id' => cases id' <;> cases hopened
    | toolStart _ _ parent =>
      obtain ⟨_, -, hparent⟩ := Option.map_eq_some_iff.1 hopened
      cases hparent
    | custom name value =>
      rw [opening?] at hopened
      split at hopened
      · obtain ⟨_, -, hturn⟩ := Option.map_eq_some_iff.1 hopened
        cases hturn
      · cases hopened
    | _ => cases hopened
  rw [← hb]
  exact List.mem_map_of_mem hx

namespace Body

theorem textOf_concat (id : String) (bodies : List Body) (b : Body) :
    textOf id (bodies ++ [b]) = textOf id bodies ++ (b.pieceOf? id).getD "" := by
  rw [textOf, List.filterMap_append, String.join_append, textOf]
  congr 1
  rw [List.filterMap_cons]
  cases b.pieceOf? id <;> simp

theorem argumentsOf_concat (id : String) (bodies : List Body) (b : Body) :
    argumentsOf id (bodies ++ [b]) = argumentsOf id bodies ++ (b.argumentOf? id).getD "" := by
  rw [argumentsOf, List.filterMap_append, String.join_append, argumentsOf]
  congr 1
  rw [List.filterMap_cons]
  cases b.argumentOf? id <;> simp

theorem mem_concat_iff_of_ne {b' : Body} (hb : b ≠ b') : b' ∈ bodies ++ [b] ↔ b' ∈ bodies := by
  rw [List.mem_append, List.mem_singleton]
  exact or_iff_left fun he => hb he.symm

theorem ne_textEnd (hb : b.isEnd = false) (id : String) : b ≠ textEnd id := by
  rintro rfl
  cases hb

theorem ne_toolEnd (hb : b.isEnd = false) (id : String) : b ≠ toolEnd id := by
  rintro rfl
  cases hb

/-- The content of a text stands unless the text ends now. -/
theorem contentSoFar_concat (hend : b ≠ textEnd id)
    (hpiece : textEnd id ∈ bodies → b.pieceOf? id = none) :
    contentSoFar id (bodies ++ [b]) = contentSoFar id bodies := by
  rw [contentSoFar, contentSoFar, textOf_concat]
  simp only [mem_concat_iff_of_ne hend]
  split
  · rename_i hended
    rw [hpiece hended, Option.getD_none, String.append_empty]
  · rfl

/-- The arguments of a tool call stand unless they are completed now. -/
theorem argumentsSoFar_concat (hend : b ≠ toolEnd id)
    (hargument : toolEnd id ∈ bodies → b.argumentOf? id = none) :
    argumentsSoFar id (bodies ++ [b]) = argumentsSoFar id bodies := by
  rw [argumentsSoFar, argumentsSoFar, argumentsOf_concat]
  simp only [mem_concat_iff_of_ne hend]
  split
  · rename_i hended
    rw [hargument hended, Option.getD_none, String.append_empty]
  · rfl

theorem callsFrom_concat (id : String) (bodies : List Body) (b : Body) :
    callsFrom id (bodies ++ [b]) = callsFrom id bodies ++ (b.callFrom? id).toList := by
  rw [callsFrom, List.filterMap_append]
  rfl

end Body

/-! ## Messages that are shown -/

namespace Opening

variable {app user : String} {told told' : Account} {o : Opening}

/-- A message says nothing but what is told of its own text. -/
theorem shown_congr (hcontent : ∀ id role, o = text id role → told'.content id = told.content id)
    (hcalls : ∀ id, o.text? = some id → told'.calls id = told.calls id) :
    o.shown app user told' = o.shown app user told := by
  cases o with
  | text id role => rw [shown, shown, hcontent id role rfl, hcalls id rfl]
  | whole id role content => rw [shown, shown, hcalls id rfl]
  | parent id => rw [shown, shown, hcalls id rfl]
  | turn m => rfl
  | alone m => rfl

/-- If only the tool calls from a text change, only they do in its message. -/
theorem shown_calls {id : String} (ho : o.text? = some id) (change : List ToolCall → List ToolCall)
    (hcontent : told'.content id = told.content id)
    (hcalls : told'.calls id = change (told.calls id)) :
    o.shown app user told' =
      { o.shown app user told with toolCalls := change (o.shown app user told).toolCalls } := by
  cases o with
  | text id' role =>
    cases ho
    rw [shown, shown, hcontent, hcalls]
  | whole id' role content =>
    cases ho
    rw [shown, shown, hcalls]
  | parent id' =>
    cases ho
    rw [shown, shown, hcalls]
  | turn m => cases ho
  | alone m => cases ho

theorem shown_toolCalls {id : String} (ho : o.text? = some id) :
    (o.shown app user told).toolCalls = told.calls id := by
  cases o with
  | text id' role =>
    cases ho
    rfl
  | whole id' role content =>
    cases ho
    rfl
  | parent id' =>
    cases ho
    rfl
  | turn m => cases ho
  | alone m => cases ho

end Opening

end AgentStream
