/-
# Framing of messages and tool calls

The translator that runs use unless they bring their own.  Text comes as a frame of a start,
pieces and an end, and at most one text frame is open at a time; a new message closes the one
before it.  A tool call is framed once and in one piece, whoever announces it.

* `allBlank` : a text of nothing but blanks;
* `Framer` : what is remembered between outputs;
* `Framer.translate` : the events of one output.
-/
import AgentStream.Engine.Graph
import AgentStream.Translation

namespace AgentStream

open Engine (Output Response ModelReport ToolReport CustomReport)

/-! ## Blank texts -/

/-- The characters with the property White_Space of Unicode, as ranges of code points. -/
def blankRanges : List (Nat × Nat) :=
  [(0x9, 0xD), (0x20, 0x20), (0x85, 0x85), (0xA0, 0xA0), (0x1680, 0x1680), (0x2000, 0x200A),
    (0x2028, 0x2029), (0x202F, 0x202F), (0x205F, 0x205F), (0x3000, 0x3000)]

/-- Whether a character is blank. -/
def isBlankChar (c : Char) : Bool :=
  blankRanges.any fun (low, high) => decide (low ≤ c.toNat ∧ c.toNat ≤ high)

/-- Whether a text has no character but blanks. -/
def allBlank (s : String) : Bool := s.toList.all isBlankChar

/-! ## State -/

/-- What is remembered between outputs. -/
structure Framer where
  threadId : String
  runId : String
  /-- The message spoken of last. -/
  lastId : String := ""
  /-- The frame of `lastId` is open. -/
  isOpen : Bool := false
  seenResponses : List String := []
  seenCalls : List String := []
deriving DecidableEq

namespace Framer

/-! ## Steps

Every step takes the state and gives events and the next state. -/

/-- Events and the next state. -/
abbrev Step := List Event × Framer

/-- A step after another one. -/
def andThen (s : Step) (next : Framer → Step) : Step :=
  let (events, f) := next s.2
  (s.1 ++ events, f)

/-- A failure of the run. -/
def failure (f : Framer) (message : String) : Event := Event.runError message (some f.runId)

/-- Remember a response. -/
def seeResponse (f : Framer) (id : String) : Framer :=
  { f with seenResponses := f.seenResponses.insert id }

/-- Close the open frame, if there is one. -/
def close (f : Framer) : Step :=
  if f.isOpen then ([Body.textEnd f.lastId], { f with isOpen := false }) else ([], f)

/-- A whole frame of one piece. -/
def wholeText (id : String) (role : Role) (text : String) : List Event :=
  [Body.textStart id role, Body.textContent id text, Body.textEnd id]

/-- A whole frame of a tool call; arguments that are left out have no piece. -/
def wholeCall (id name : String) (parent : Option String) (arguments : Option String) :
    List Event :=
  [(Body.toolStart id name parent : Event)]
    ++ (arguments.map fun a => (Body.toolArgs id a : Event)).toList
    ++ [(Body.toolEnd id : Event)]

/-- A text unless it is empty. -/
def nonempty (s : String) : Option String := if s.isEmpty then none else some s

/-! ## Chat responses -/

/-- A piece of a chat message.  A piece of another message opens its frame, unless it is
empty; a finish reason closes the frame. -/
def chunk (f : Framer) (r : Response) : Step :=
  match r.choices with
  | [] => ([], f)
  | c :: _ =>
    let f := f.seeResponse r.id
    let delta := c.delta.content
    let pieces : List Event := if delta.isEmpty then [] else [Body.textContent r.id delta]
    let finished := !(c.finishReason.getD "").isEmpty
    let ending : List Event := if finished then [Body.textEnd r.id] else []
    if f.lastId = r.id then
      if f.isOpen then (pieces ++ ending, { f with isOpen := !finished })
      else ([], f)
    else if delta.isEmpty then ([], f)
    else
      let (closing, f) := f.close
      (closing ++ [(Body.textStart r.id c.delta.role.shown : Event)] ++ pieces ++ ending,
        { f with lastId := r.id, isOpen := !finished })

/-- A whole chat message.  It closes the frame of the message that was streamed before it;
of another message it is a whole frame, unless it is empty. -/
def completion (f : Framer) (r : Response) : Step :=
  match r.choices with
  | [] => ([], f)
  | c :: _ =>
    let f := f.seeResponse r.id
    let content := c.message.content
    if f.lastId = r.id then f.close
    else if content.isEmpty then ([], f)
    else
      let (closing, f) := f.close
      (closing ++ wholeText r.id c.message.role.shown content, { f with lastId := r.id })

/-- Frame the calls that were not framed before. -/
def calls (parent : Option String) : List ToolCall → Framer → Step
  | [], f => ([], f)
  | call :: rest, f =>
    if f.seenCalls.contains call.id then calls parent rest f
    else
      andThen
        (wholeCall call.id call.function.name parent (nonempty call.function.arguments),
          { f with seenCalls := f.seenCalls.insert call.id })
        (calls parent rest)

/-- The tool calls of all choices. -/
def toolCalls (f : Framer) (r : Response) : Step :=
  let (events, f) := calls (nonempty r.id) (r.choices.flatMap (·.message.toolCalls)) f
  (events, if f.isOpen then f else { f with lastId := r.id })

/-- The tool results of all choices, under the id of the output or else of the response. -/
def toolResults (f : Framer) (fresh : String) (o : Output) (r : Response) : Step :=
  let messageId := (nonempty o.id).getD ((nonempty r.id).getD fresh)
  let results := (r.choices.map (·.message)).filter fun m => !m.toolId.isEmpty
  (results.map fun m => Event.toolResult messageId m.toolId m.content,
    if f.isOpen then f else { f with lastId := messageId })

/-! ## Reports of graph nodes -/

/-- The report under a key, nothing without one, or the failure to decode it. -/
def report {α : Type} (f : Framer) (o : Output) (key kind : String) (dec : Decoder α) :
    Except Event (Option α) :=
  match o.blob? key with
  | none => .ok none
  | some raw =>
    match decodeText dec raw with
    | .ok a => .ok (some a)
    | .error fault =>
      .error (f.failure ("invalid graph " ++ kind ++ " metadata: " ++ fault.message))

/-- The output of a model, as a whole frame unless its response was seen before. -/
def modelReport (f : Framer) (m : ModelReport) : Step :=
  if m.output.isEmpty || f.seenResponses.contains m.responseId then ([], f)
  else
    let (closing, f) := if f.lastId = m.responseId then ([], f) else f.close
    let f := f.seeResponse m.responseId
    (closing ++ wholeText m.responseId .assistant m.output,
      { f with lastId := m.responseId, isOpen := false })

/-- The start of a tool, as a whole frame unless its call was framed before. -/
def toolReport (f : Framer) (t : ToolReport) : Step :=
  if t.phase ≠ .start || f.seenCalls.contains t.toolId then ([], f)
  else
    (wholeCall t.toolId t.toolName (nonempty t.responseId)
        (if allBlank t.input then none else some t.input),
      { f with seenCalls := f.seenCalls.insert t.toolId })

/-- The step number of a payload, if it is positive. -/
def stepMember (n : Int) : Members := if 0 < n then [("stepNumber", .int n)] else []

/-- A node's own event under its declared name, or else under a name for its category. -/
def customEvent (r : CustomReport) (name : String) (payload : Members) : Event :=
  Body.custom (if r.eventType.isEmpty then name else r.eventType)
    (.ofMembers (("nodeId", .str r.nodeId) :: payload))

/-- A node's own event.  Text goes into the open frame, if there is one. -/
def customReport (f : Framer) (r : CustomReport) : Step :=
  match r.category with
  | .progress =>
    ([customEvent r "node.progress"
        ([("progress", .double r.progress), ("message", .str r.message)]
          ++ stepMember r.stepNumber)], f)
  | .text =>
    if f.isOpen && !r.message.isEmpty then ([Body.textContent f.lastId r.message], f)
    else
      ([customEvent r "node.text" ([("content", .str r.message)] ++ stepMember r.stepNumber)], f)
  | .custom =>
    ([customEvent r "node.custom"
        (Json.optional "payload" r.payload ++ Json.nonempty "message" r.message
          ++ stepMember r.stepNumber ++ [("timestamp", .int r.timestamp)])], f)

/-- The step of a report, if there is one; a report that cannot be decoded fails the run. -/
def reported {α : Type} (o : Output) (key kind : String) (dec : Decoder α)
    (step : Framer → α → Step) (f : Framer) : Step :=
  match f.report o key kind dec with
  | .ok none => ([], f)
  | .ok (some a) => step f a
  | .error e => ([e], f)

/-! ## Outputs -/

/-- The events of a response without an error. -/
def response (fresh : String) (o : Output) (r : Response) (f : Framer) : Step :=
  let text := if r.object = Response.chunkKind then f.chunk r
    else if r.object = Response.completionKind then f.completion r
    else ([], f)
  let called := andThen text fun f => if r.callsTools then f.toolCalls r else ([], f)
  let answered := andThen called fun f =>
    if r.object = Response.toolKind || r.givesToolResult then f.toolResults fresh o r else ([], f)
  andThen answered fun f =>
    if r.object = Response.endKind then
      andThen f.close fun f => ([Event.runFinished f.threadId f.runId], f)
    else ([], f)

/-- The events of one output: the reports of graph nodes, then the response. -/
def translate (f : Framer) (fresh : String) (o : Output) : Step :=
  let model := reported o Engine.modelKey "model" ModelReport.record.decode modelReport f
  let tool := andThen model
    (reported o Engine.toolKey "tool" ToolReport.record.decode toolReport)
  let custom := andThen tool
    (reported o Engine.customKey "node custom" CustomReport.record.decode customReport)
  match o.response with
  | none => custom
  | some r =>
    match r.error with
    | some e => andThen custom fun f => ([f.failure e.message], f)
    | none => andThen custom (response fresh o r)

instance : Translator Framer where
  translate f fresh o :=
    let (events, f) := f.translate fresh o
    (.ok events, f)

end Framer

end AgentStream
