/-
# Replays in place

A replay may also be run in place: each event checks and changes one state, a step at a time, and a
failure leaves the state as it is at that moment.  Every handler makes all its checks before its
first change, so an event that fails has changed nothing, although some handlers go on to change two
tables and the messages.

* `InPlace.event`, `InPlace.entry`, `InPlace.reduce` : the handlers, an entry and a log, in place;
* `InPlace.Runs` : a handler in place does what a pure one does, and nothing if that fails;
* `InPlace.reduce_eq_replay` : a log comes to the same in place;
* `replay_failure` : what a log comes to at the first event that fails.
-/
import AgentStream.Proofs.Replay.Told

namespace AgentStream

/-- A change of a replay in place, which may fail at any moment. -/
abbrev InPlace := EStateM ReplayError Replay

namespace InPlace

/-! ## Handlers -/

/-- What a table has under an id. -/
def known {α : Type} (table : Replay → List (String × α)) (id : String) (error : ReplayError) :
    InPlace α := do
  let r ← get
  match (table r).lookup id with
  | some a => pure a
  | none => throw error

/-- Fail if something is wrong. -/
def refuse (wrong : Prop) [Decidable wrong] (error : ReplayError) : InPlace Unit :=
  if wrong then throw error else pure ()

/-- Fail if a table has an id. -/
def refuseKnown {α : Type} (table : Replay → List (String × α)) (id : String)
    (error : ReplayError) : InPlace Unit := do
  let r ← get
  refuse ((table r).lookup id).isSome error

def nameFor (role : Role) : InPlace String := do
  let r ← get
  match r.nameFor role with
  | .ok name => pure name
  | .error error => throw error

/-- The message first, and then the text, which points at the last message. -/
def pushText (id : String) (m : Message) (content : String) (ended : Bool) : InPlace Unit := do
  modify fun r => { r with messages := r.messages ++ [m] }
  modify fun r => { r with texts := r.texts ++ [(id, ⟨content, ended, r.messages.length - 1⟩)] }

def textStart (id : String) (role : Role) : InPlace Unit := do
  refuse (id.isEmpty) .textStartMissingId
  refuseKnown Replay.texts id (.duplicateTextStart id)
  let name ← nameFor role
  pushText id { id := some id, role, name := some name } "" false

def textContent (id delta : String) : InPlace Unit := do
  let t ← known Replay.texts id (.textContentWithoutStart id)
  refuse t.ended (.textContentAfterEnd id)
  modify fun r =>
    { r with texts := Replay.update id (fun t => { t with content := t.content ++ delta }) r.texts }

def textEnd (id : String) : InPlace Unit := do
  let t ← known Replay.texts id (.textEndWithoutStart id)
  refuse t.ended (.duplicateTextEnd id)
  modify fun r => { r with texts := Replay.update id (fun t => { t with ended := true }) r.texts }
  modify fun r => r.setMessage t.index fun m => { m with content := some (.str t.content) }

def textChunk (id : Option String) (role : Option Role) (delta : Option String) :
    InPlace Unit := do
  let id := id.getD ""
  refuse (id.isEmpty) .textChunkMissingId
  refuseKnown Replay.texts id (.duplicateTextChunk id)
  let role := role.getD .assistant
  let name ← nameFor role
  let content := delta.getD ""
  pushText id { id := some id, role, name := some name, content := some (.str content) } content true

/-- The message of a text that a tool is called from, which is added if there is none. -/
def parentMessage (parent : String) : InPlace Unit := do
  let r ← get
  if (r.texts.lookup parent).isSome then pure ()
  else pushText parent { id := some parent, role := .assistant, name := some r.app } "" true

/-- The call goes to the message first, and then into the table with its place there. -/
def pushCall (id name parent : String) : InPlace Unit := do
  let r ← get
  let place := ((r.texts.lookup parent).map (·.index)).getD 0
  modify fun r => r.setMessage place fun m =>
    { m with toolCalls := m.toolCalls ++ [ToolCall.ofFunction id name] }
  modify fun r =>
    { r with
      calls := r.calls ++ [(id, ⟨parent, "", .awaitingArgs,
        ((r.messages[place]?.map (·.toolCalls)).getD []).length - 1⟩)] }

def toolStart (id name : String) (parent : Option String) : InPlace Unit := do
  refuse (id.isEmpty) .toolStartMissingId
  refuseKnown Replay.calls id (.duplicateToolStart id)
  match parent with
  | none => throw .toolStartMissingParent
  | some parent =>
    parentMessage parent
    pushCall id name parent

def toolArgs (id delta : String) : InPlace Unit := do
  let c ← known Replay.calls id (.toolArgsWithoutStart id)
  refuse (c.phase ≠ .awaitingArgs) (.toolArgsInvalidPhase id)
  modify fun r =>
    { r with
      calls := Replay.update id (fun c => { c with arguments := c.arguments ++ delta }) r.calls }

def toolEnd (id : String) : InPlace Unit := do
  let c ← known Replay.calls id (.toolEndWithoutStart id)
  refuse (c.phase ≠ .awaitingArgs) (.duplicateToolEnd id)
  let t ← known Replay.texts c.messageId (.toolEndMissingParent c.messageId)
  modify fun r => r.setMessage t.index fun m =>
    { m with
      toolCalls := m.toolCalls.modify c.index fun call =>
        { call with function := { call.function with arguments := c.arguments } } }
  modify fun r =>
    { r with calls := Replay.update id (fun c => { c with phase := .awaitingResult }) r.calls }

def toolResult (messageId callId content : String) (role : Option Role) : InPlace Unit := do
  refuse (messageId.isEmpty || callId.isEmpty) .toolResultMissingIds
  let c ← known Replay.calls callId (.toolResultWithoutCall callId)
  refuse (c.phase ≠ .awaitingResult) (.toolResultWithoutCall callId)
  modify fun r =>
    { r with calls := Replay.update callId (fun c => { c with phase := .completed }) r.calls }
  modify fun r => r.push
    { id := some messageId, role := role.getD .tool, content := some (.str content),
      toolCallId := some callId }

def userMessage (value : Json) : InPlace Unit :=
  match decodeJson Message.decode value with
  | .error fault => throw (.userMessage fault)
  | .ok m => do
    refuse (m.role ≠ .user) (.unsupportedRole m.role)
    modify fun r => r.push (m.withFallbackName r.user)

def event (timestamp : Nat) (body : Body) : InPlace Unit :=
  match body with
  | .textStart id role => textStart id role
  | .textContent id delta => textContent id delta
  | .textEnd id => textEnd id
  | .textChunk id role delta => textChunk id role delta
  | .toolStart id name parent => toolStart id name parent
  | .toolArgs id delta => toolArgs id delta
  | .toolEnd id => toolEnd id
  | .toolResult messageId callId content role => toolResult messageId callId content role
  | .custom name value =>
    if name = Replay.userMessageName then userMessage value
    else modify fun r => r.activity body timestamp
  | .runStarted .. => pure ()
  | .runFinished .. => pure ()
  | .runError .. => pure ()
  | _ => modify fun r => r.activity body timestamp

def entry (e : Entry) : InPlace Unit :=
  if e.payload.isEmpty then pure ()
  else
    match e.event with
    | .error error => throw (.decode error)
    | .ok event => InPlace.event e.timestamp event.body

/-- Entries up to the first failure. -/
def entries : List Entry → InPlace Unit
  | [] => pure ()
  | e :: rest => do
    entry e
    entries rest

/-- Fail if something is left open: a text first, and then a tool call. -/
def finalize : InPlace Unit := do
  let r ← get
  forM r.texts fun (id, t) => refuse (!t.ended) (.textNotClosed id)
  forM r.calls fun (id, c) => refuse (c.phase != .completed) (.toolCallNotCompleted id)

/-- Replay a log in place: the messages are those of the state that is left. -/
def reduce (app user : String) (log : List Entry) : Replayed :=
  match (do entries log; finalize : InPlace Unit).run { app, user } with
  | .ok _ r => ⟨r.messages, none⟩
  | .error error r => ⟨r.messages, some error⟩

/-! ## Checks -/

variable {r : Replay} {error : ReplayError}

/-- The outcome of a change that leaves the state as it is when it fails. -/
def outcome (r : Replay) : Except ReplayError Replay → EStateM.Result ReplayError Replay Unit
  | .ok r' => .ok () r'
  | .error error => .error error r

/-- A change in place does what a pure one does, and nothing if that fails. -/
def Runs (x : InPlace Unit) (f : Replay → Except ReplayError Replay) : Prop :=
  ∀ r, x.run r = outcome r (f r)

section Checks

variable {α : Type} {x : Except ReplayError Replay} {rest : InPlace Unit}

theorem run_refuse {wrong : Prop} [Decidable wrong]
    (h : ¬wrong → rest.run r = outcome r x) :
    (do refuse wrong error; rest : InPlace Unit).run r
      = outcome r (if wrong then .error error else x) := by
  rw [EStateM.run_bind, refuse]
  by_cases hw : wrong
  · rw [if_pos hw, if_pos hw]
    rfl
  · rw [if_neg hw, if_neg hw]
    exact h hw

theorem run_refuseKnown {table : Replay → List (String × α)} {id : String}
    (h : rest.run r = outcome r x) :
    (do refuseKnown table id error; rest : InPlace Unit).run r
      = outcome r (if ((table r).lookup id).isSome then .error error else x) := by
  have hrefuse : (do refuse (((table r).lookup id).isSome = true) error; rest : InPlace Unit).run r
      = outcome r (if ((table r).lookup id).isSome then .error error else x) :=
    run_refuse fun _ => h
  rw [← hrefuse]
  rfl

theorem run_known_none {table : Replay → List (String × α)} {id : String}
    {next : α → InPlace Unit} (hn : (table r).lookup id = none) :
    (do next (← known table id error) : InPlace Unit).run r = outcome r (.error error) := by
  rw [EStateM.run_bind, known, EStateM.run_bind, EStateM.run_get]
  simp only [hn]
  rfl

theorem run_known_some {table : Replay → List (String × α)} {id : String} {a : α}
    {next : α → InPlace Unit} (hl : (table r).lookup id = some a) :
    (do next (← known table id error) : InPlace Unit).run r = (next a).run r := by
  rw [EStateM.run_bind, known, EStateM.run_bind, EStateM.run_get]
  simp only [hl]
  rfl

theorem run_nameFor {role : Role} {next : String → InPlace Unit}
    {x : String → Except ReplayError Replay} (h : ∀ name, (next name).run r = outcome r (x name)) :
    (do next (← nameFor role) : InPlace Unit).run r = outcome r (do x (← r.nameFor role)) := by
  rw [EStateM.run_bind, nameFor, EStateM.run_bind, EStateM.run_get]
  simp only
  cases r.nameFor role with
  | error error => rfl
  | ok name => exact h name

end Checks

theorem run_pushText (id : String) (m : Message) (content : String) (ended : Bool) (r : Replay) :
    (pushText id m content ended).run r = .ok () (r.pushText id m content ended) := by
  rw [pushText, EStateM.run_bind, EStateM.run_modify]
  simp only [EStateM.run_modify, List.length_append, List.length_singleton, Nat.add_sub_cancel]
  rfl

/-! ## Events in place -/

theorem runs_textStart (id : String) (role : Role) :
    Runs (textStart id role) fun r => r.textStart id role := by
  intro r
  apply run_refuse
  intro _
  apply run_refuseKnown
  apply run_nameFor
  intro name
  exact run_pushText _ _ _ _ r

theorem runs_textContent (id delta : String) :
    Runs (textContent id delta) fun r => r.textContent id delta := by
  intro r
  show _ = outcome r (r.textContent id delta)
  rw [Replay.textContent]
  cases hl : r.texts.lookup id with
  | none => exact run_known_none hl
  | some t =>
    rw [textContent, run_known_some hl]
    apply run_refuse
    intro _
    rfl

theorem runs_textEnd (id : String) : Runs (textEnd id) fun r => r.textEnd id := by
  intro r
  show _ = outcome r (r.textEnd id)
  rw [Replay.textEnd]
  cases hl : r.texts.lookup id with
  | none => exact run_known_none hl
  | some t =>
    rw [textEnd, run_known_some hl]
    apply run_refuse
    intro _
    rfl

theorem runs_textChunk (id : Option String) (role : Option Role) (delta : Option String) :
    Runs (textChunk id role delta) fun r => r.textChunk id role delta := by
  intro r
  apply run_refuse
  intro _
  apply run_refuseKnown
  apply run_nameFor
  intro name
  exact run_pushText _ _ _ _ r

theorem run_parentMessage (parent : String) (r : Replay) :
    (parentMessage parent).run r = .ok () (if (r.texts.lookup parent).isSome then r
      else r.pushText parent { id := some parent, role := .assistant, name := some r.app } ""
        true) := by
  rw [parentMessage, EStateM.run_bind, EStateM.run_get]
  simp only
  by_cases hparent : (r.texts.lookup parent).isSome = true
  · rw [if_pos hparent, if_pos hparent]
    rfl
  · rw [if_neg hparent, if_neg hparent]
    exact run_pushText _ _ _ _ r

/-- The place of a call is the last one among those of its message, which is as many as there were
before. -/
theorem run_pushCall (id name parent : String) (r : Replay) :
    (pushCall id name parent).run r =
      let place := ((r.texts.lookup parent).map (·.index)).getD 0
      let earlier := (r.messages[place]?.map (·.toolCalls)).getD []
      let r' := r.setMessage place fun m =>
        { m with toolCalls := m.toolCalls ++ [ToolCall.ofFunction id name] }
      .ok () { r' with
        calls := r'.calls ++ [(id, ⟨parent, "", .awaitingArgs, earlier.length⟩)] } := by
  rw [pushCall, EStateM.run_bind, EStateM.run_get]
  simp only [EStateM.run_bind, EStateM.run_modify]
  generalize ((r.texts.lookup parent).map (·.index)).getD 0 = place
  have hlength : (((r.setMessage place fun m =>
        { m with toolCalls := m.toolCalls ++ [ToolCall.ofFunction id name] }).messages[place]?.map
          (·.toolCalls)).getD []).length - 1
      = ((r.messages[place]?.map (·.toolCalls)).getD []).length := by
    rw [Replay.setMessage, List.getElem?_modify]
    cases r.messages[place]? with
    | none => rfl
    | some m => simp
  rw [hlength]

theorem runs_toolStart (id name : String) (parent : Option String) :
    Runs (toolStart id name parent) fun r => r.toolStart id name parent := by
  intro r
  apply run_refuse
  intro _
  apply run_refuseKnown
  cases parent with
  | none => rfl
  | some parent =>
    simp only
    rw [EStateM.run_bind, run_parentMessage]
    exact run_pushCall id name parent _

theorem runs_toolArgs (id delta : String) :
    Runs (toolArgs id delta) fun r => r.toolArgs id delta := by
  intro r
  show _ = outcome r (r.toolArgs id delta)
  rw [Replay.toolArgs]
  cases hl : r.calls.lookup id with
  | none => exact run_known_none hl
  | some c =>
    rw [toolArgs, run_known_some hl]
    apply run_refuse
    intro _
    rfl

theorem runs_toolEnd (id : String) : Runs (toolEnd id) fun r => r.toolEnd id := by
  intro r
  show _ = outcome r (r.toolEnd id)
  rw [Replay.toolEnd]
  cases hl : r.calls.lookup id with
  | none => exact run_known_none hl
  | some c =>
    rw [toolEnd, run_known_some hl]
    apply run_refuse
    intro _
    cases ht : r.texts.lookup c.messageId with
    | none => exact run_known_none ht
    | some t =>
      rw [run_known_some ht]
      rfl

theorem runs_toolResult (messageId callId content : String) (role : Option Role) :
    Runs (toolResult messageId callId content role)
      fun r => r.toolResult messageId callId content role := by
  intro r
  apply run_refuse
  intro _
  cases hl : r.calls.lookup callId with
  | none => exact run_known_none hl
  | some c =>
    rw [run_known_some hl]
    apply run_refuse
    intro _
    rfl

theorem runs_userMessage (value : Json) : Runs (userMessage value) fun r => r.userMessage value := by
  intro r
  show _ = outcome r (r.userMessage value)
  rw [userMessage, Replay.userMessage]
  cases decodeJson Message.decode value with
  | error fault => rfl
  | ok m =>
    apply run_refuse
    intro _
    rfl

/-- **Every event does in place what it does**, and nothing if it fails. -/
theorem runs_event (timestamp : Nat) (b : Body) :
    Runs (event timestamp b) fun r => r.event timestamp b := by
  cases b with
  | textStart id role => exact runs_textStart id role
  | textContent id delta => exact runs_textContent id delta
  | textEnd id => exact runs_textEnd id
  | textChunk id role delta => exact runs_textChunk id role delta
  | toolStart id name parent => exact runs_toolStart id name parent
  | toolArgs id delta => exact runs_toolArgs id delta
  | toolEnd id => exact runs_toolEnd id
  | toolResult messageId callId content role => exact runs_toolResult messageId callId content role
  | custom name value =>
    intro r
    show _ = outcome r (r.event timestamp (.custom name value))
    rw [event, Replay.event]
    by_cases hname : name = Replay.userMessageName
    · rw [if_pos hname, if_pos hname]
      exact runs_userMessage value r
    · rw [if_neg hname, if_neg hname]
      rfl
  | _ =>
    intro r
    rfl

theorem runs_entry (e : Entry) : Runs (entry e) fun r => r.step e := by
  intro r
  show _ = outcome r (r.step e)
  rw [entry, Replay.step]
  by_cases hempty : e.payload.isEmpty = true
  · rw [if_pos hempty, if_pos hempty]
    rfl
  · rw [if_neg hempty, if_neg hempty]
    cases e.event with
    | error error => rfl
    | ok event => exact runs_event e.timestamp event.body r

/-! ## Logs in place -/

/-- Entries in place come to the same state, with the failure if there is one. -/
theorem run_entries (log : List Entry) (r : Replay) :
    (entries log).run r =
      match r.steps log with
      | (r', none) => .ok () r'
      | (r', some error) => .error error r' := by
  induction log generalizing r with
  | nil => rfl
  | cons e log ih =>
    have hentry : (entry e).run r = outcome r (r.step e) := runs_entry e r
    rw [entries, EStateM.run_bind, hentry, Replay.steps]
    cases r.step e with
    | error error => rfl
    | ok r' => exact ih r'

/-- A check of each row of a table fails at the first row that is wrong. -/
theorem run_forM {α : Type} (table : List (String × α)) (wrong : α → Bool)
    (error : String → ReplayError) (r : Replay) :
    (forM table fun (id, a) => refuse (wrong a) (error id) : InPlace Unit).run r =
      match table.find? fun (_, a) => wrong a with
      | some (id, _) => .error (error id) r
      | none => .ok () r := by
  induction table with
  | nil => rfl
  | cons x table ih =>
    obtain ⟨id, a⟩ := x
    rw [List.forM_cons, EStateM.run_bind]
    simp only [refuse]
    by_cases hw : wrong a = true
    · rw [if_pos hw, List.find?_cons_of_pos (by exact hw)]
      rfl
    · rw [if_neg hw, List.find?_cons_of_neg (by exact hw)]
      exact ih

theorem run_finalize (r : Replay) : finalize.run r =
    match r.unfinished with
    | some error => .error error r
    | none => .ok () r := by
  rw [finalize, EStateM.run_bind, EStateM.run_get]
  simp only [EStateM.run_bind]
  rw [run_forM r.texts (fun t => !t.ended) .textNotClosed, Replay.unfinished]
  cases r.texts.find? fun x => !x.2.ended with
  | some x => rfl
  | none =>
    simp only
    rw [run_forM r.calls (fun c => c.phase != .completed) .toolCallNotCompleted]
    cases r.calls.find? fun x => x.2.phase != .completed with
    | some x => rfl
    | none => rfl

/-- **A log comes to the same in place.** -/
theorem reduce_eq_replay (app user : String) (log : List Entry) :
    reduce app user log = replay app user log := by
  rw [reduce, replay, EStateM.run_bind, run_entries]
  cases ({ app, user } : Replay).steps log with
  | mk r error =>
    cases error with
    | some error => rfl
    | none =>
      simp only
      rw [run_finalize]
      cases r.unfinished with
      | some error => rfl
      | none => rfl

end InPlace

/-! ## The first failure -/

variable {app user : String} {log : List Entry} {e : Entry} {r r' : Replay} {error : ReplayError}

/-- An event that fails in place has changed nothing. -/
theorem InPlace.entry_failed (h : (InPlace.entry e).run r = .error error r') :
    r' = r ∧ r.step e = .error error := by
  have hentry : (InPlace.entry e).run r = InPlace.outcome r (r.step e) := InPlace.runs_entry e r
  rw [hentry] at h
  cases hs : r.step e with
  | error error' =>
    rw [hs] at h
    cases h
    exact ⟨rfl, rfl⟩
  | ok r'' =>
    rw [hs] at h
    cases h

/-- Entries that are run in place without a failure come to the state that they are replayed to. -/
theorem InPlace.steps_of_entries (h : (InPlace.entries log).run r = .ok () r') :
    r.steps log = (r', none) := by
  rw [InPlace.run_entries] at h
  cases hs : r.steps log with
  | mk r'' error =>
    rw [hs] at h
    cases error with
    | none =>
      cases h
      rfl
    | some error => cases h

/-- **A failing event changes nothing.**  Where the entries of a log are run in place without a
failure and the next entry fails, whatever stands behind it, the replay reports that failure and
shows the messages of the log before it, whatever that log would be said to leave open.  In place,
the failing entry leaves the state that it was given. -/
theorem replay_failure (hlog : (InPlace.entries log).run { app, user } = .ok () r)
    (he : (InPlace.entry e).run r = .error error r') (behind : List Entry) :
    r' = r ∧
      InPlace.reduce app user (log ++ e :: behind)
        = ⟨(InPlace.reduce app user log).messages, some error⟩ ∧
      replay app user (log ++ e :: behind) = ⟨(replay app user log).messages, some error⟩ := by
  obtain ⟨hsame, hstep⟩ := InPlace.entry_failed he
  have hsteps := InPlace.steps_of_entries hlog
  have hfails : replay app user (log ++ e :: behind) = ⟨(replay app user log).messages, some error⟩ := by
    rw [replay_messages, hsteps, replay, Replay.steps_append, hsteps]
    simp only [Replay.steps, hstep]
  refine ⟨hsame, ?_, hfails⟩
  rw [InPlace.reduce_eq_replay, InPlace.reduce_eq_replay]
  exact hfails

/-- A text from which a tool was called, and which is left open. -/
def unclosed : List (Nat × Body) :=
  [(1, .textStart "a" .assistant), (2, .toolStart "c" "find" (some "a")), (3, .textContent "a" "x")]

/-- The call is started once more, from a text of which nothing was said. -/
theorem replay_failure_unclosed :
    (replay "app" "ann" (recorded unclosed)).error = some (.textNotClosed "a") ∧
      replay "app" "ann" (recorded unclosed
          ++ .ofEvent 4 (Body.toolStart "c" "find" (some "b")) :: recorded [(5, .textEnd "a")])
        = ⟨[{ id := some "a", role := .assistant, name := some "app",
              toolCalls := [ToolCall.ofFunction "c" "find"] }], some (.duplicateToolStart "c")⟩ := by
  let r : Replay :=
    { app := "app", user := "ann", texts := [("a", ⟨"x", false, 0⟩)],
      calls := [("c", ⟨"a", "", .awaitingArgs, 0⟩)],
      messages := [{ id := some "a", role := .assistant, name := some "app",
                     toolCalls := [ToolCall.ofFunction "c" "find"] }] }
  have hsteps : ({ app := "app", user := "ann" } : Replay).steps (recorded unclosed) = (r, none) := by
    repeat refine (Replay.steps_frame rfl rfl).trans ?_
    rfl
  have hlog : (InPlace.entries (recorded unclosed)).run { app := "app", user := "ann" }
      = .ok () r := by
    rw [InPlace.run_entries, hsteps]
  have hstep : r.step (.ofEvent 4 (Body.toolStart "c" "find" (some "b")))
      = .error (.duplicateToolStart "c") := by
    rw [Replay.step_frame (b := .toolStart "c" "find" (some "b")) rfl rfl]
    rfl
  have he : (InPlace.entry (.ofEvent 4 (Body.toolStart "c" "find" (some "b")))).run r
      = .error (.duplicateToolStart "c") r := by
    have hentry := InPlace.runs_entry (.ofEvent 4 (Body.toolStart "c" "find" (some "b"))) r
    rw [hentry]
    show InPlace.outcome r (r.step _) = _
    rw [hstep]
    rfl
  constructor
  · rw [replay, hsteps]
    rfl
  · rw [(replay_failure hlog he (recorded [(5, .textEnd "a")])).2.2, replay_messages, hsteps]

end AgentStream
