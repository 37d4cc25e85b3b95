/-
# Indices of a replay

A replay that keeps its texts and tool calls in tables by id, and points into its messages by index,
never misses: whatever a log says, every index points at the message or the tool call that it was
taken from, though many messages and calls may have come since.  So it comes to what a replay comes
to that has no such accesses.

* `Reducer.Tabled`, `Reducer.Represents` : a table with its order is a list of rows;
* `Reducer.Represents.valid` : the indices of a reducer point where they should;
* `Reducer.step_agrees`, `Reducer.steps_agree`, `Reducer.finalize_eq` : it goes on as the replay;
* `reduce_valid` : what a log comes to.
-/
import AgentStream.Proofs.Replay.Concatenation
import AgentStream.Proofs.Replay.Reducer
import AgentStream.Proofs.Replay.Told

namespace AgentStream

open Body (argumentsSoFar callsFrom)

/-- A message that is opened for a text has its id. -/
theorem Opening.shown_id {app user id : String} {told : Account} {o : Opening}
    (ho : o.text? = some id) : (o.shown app user told).id = some id := by
  cases o with
  | text id' role => exact ho
  | whole id' role content => exact ho
  | parent id' => exact ho
  | turn m => cases ho
  | alone m => cases ho

/-- A change of what stands at an index. -/
theorem modify_eq_set {α : Type} {xs : List α} {i : Nat} {a : α} (h : xs[i]? = some a)
    (f : α → α) : xs.modify i f = xs.set i (f a) := by
  rw [List.modify_eq_set_getElem?, h]
  rfl

namespace Reducer

variable {s : Reducer} {r : Replay} {app user id : String} {said : List (Nat × Body)}

/-! ## Tables -/

section Tables

variable {α : Type} {table : Std.HashMap String α} {order : List String}
  {rows : List (String × α)} {a : α}

/-- A table, with the order in which its ids came up, has the rows of a list. -/
structure Tabled (table : Std.HashMap String α) (order : List String)
    (rows : List (String × α)) : Prop where
  find : ∀ id, table[id]? = rows.lookup id
  order : order = rows.map Prod.fst

theorem Tabled.contains (h : Tabled table order rows) (id : String) :
    table.contains id = (rows.lookup id).isSome := by
  rw [Std.HashMap.contains_eq_isSome_getElem?, h.find]

/-- A new row comes behind the others. -/
theorem Tabled.insert_new (h : Tabled table order rows) (hn : rows.lookup id = none) (a : α) :
    Tabled (table.insert id a) (order ++ [id]) (rows ++ [(id, a)]) where
  find k := by
    rw [Std.HashMap.getElem?_insert, lookup_concat hn, h.find]
    by_cases hk : k = id
    · rw [if_pos hk, if_pos (beq_iff_eq.2 hk.symm)]
    · rw [if_neg hk, if_neg fun he => hk (beq_iff_eq.1 he).symm]
  order := by
    rw [List.map_append, h.order]
    rfl

/-- A row that changes stays where it is. -/
theorem Tabled.insert_known (h : Tabled table order rows) (hl : rows.lookup id = some a)
    (f : α → α) : Tabled (table.insert id (f a)) order (Replay.update id f rows) where
  find k := by
    rw [Std.HashMap.getElem?_insert, Replay.lookup_update, h.find]
    by_cases hk : k = id
    · rw [if_pos hk, if_pos (beq_iff_eq.2 hk.symm), hk, hl, Option.map_some]
    · rw [if_neg hk, if_neg fun he => hk (beq_iff_eq.1 he).symm]
  order := by
    rw [Replay.names_update]
    exact h.order

/-- The order lists the keys of the table. -/
theorem Tabled.mem_order (h : Tabled table order rows) (hd : (rows.map Prod.fst).Nodup)
    (id : String) : id ∈ order ↔ id ∈ table := by
  rw [Std.HashMap.mem_iff_isSome_getElem?, h.find, h.order, Option.isSome_iff_exists]
  constructor
  · intro hmem
    obtain ⟨x, hx, rfl⟩ := List.mem_map.1 hmem
    exact ⟨x.2, (mem_iff_lookup hd).1 hx⟩
  · rintro ⟨a, hl⟩
    exact List.mem_map_of_mem (mem_of_lookup hl)

end Tables

/-! ## Reducers and replays -/

/-- A reducer has the messages of a replay, and its texts and tool calls. -/
structure Represents (s : Reducer) (r : Replay) : Prop where
  app : s.app = r.app
  user : s.user = r.user
  texts : Tabled s.texts s.textOrder r.texts
  calls : Tabled s.calls s.callOrder r.calls
  messages : s.messages = r.messages

theorem represents_start (app user : String) :
    ({ app, user } : Reducer).Represents { app, user } where
  app := rfl
  user := rfl
  texts := ⟨fun _ => Std.HashMap.getElem?_empty, rfl⟩
  calls := ⟨fun _ => Std.HashMap.getElem?_empty, rfl⟩
  messages := rfl

/-- The message of a known text, as it is shown so far. -/
theorem message_of_text (ht : r.Tells app user said) {t : TextState}
    (hl : r.texts.lookup id = some t) :
    ∃ m : Message, r.messages[t.index]? = some m ∧ m.id = some id ∧
      m.toolCalls = (Account.soFar (said.map Prod.snd)).calls id := by
  obtain ⟨o, hat, htext⟩ := ht.placed.opening hl
  refine ⟨o.shown app user (Account.soFar (said.map Prod.snd)), ?_, Opening.shown_id htext,
    Opening.shown_toolCalls htext⟩
  rw [ht.messages, List.getElem?_map, hat, Option.map_some]

/-- A tool call stands in the message of its text. -/
theorem call_of_message (ht : r.Tells app user said) {c : CallState}
    (hl : r.calls.lookup id = some c) :
    ∃ (t : TextState) (m : Message) (call : ToolCall), r.texts.lookup c.messageId = some t ∧
      r.messages[t.index]? = some m ∧ m.toolCalls[c.index]? = some call ∧ call.id = id := by
  obtain ⟨t, hparent⟩ := Option.isSome_iff_exists.1 (ht.traced.tidy.parents id c hl)
  obtain ⟨m, hm, -, hcalls⟩ := message_of_text ht hparent
  obtain ⟨name, hstart⟩ := ht.started.start hl
  let bodies := said.map Prod.snd
  refine ⟨t, m, ⟨id, "function", ⟨name, argumentsSoFar id bodies⟩⟩, hparent, hm, ?_, rfl⟩
  rw [hcalls]
  show ((callsFrom c.messageId (said.map Prod.snd)).map _)[c.index]? = _
  rw [List.getElem?_map, hstart, Option.map_some]

/-- **The indices of a reducer point where they should**, as long as it represents a replay of what
was said. -/
theorem Represents.valid (h : s.Represents r) (ht : r.Tells app user said) : s.Valid where
  text id t hl := by
    rw [h.texts.find] at hl
    obtain ⟨m, hm, hid, -⟩ := message_of_text ht hl
    exact ⟨m, h.messages ▸ hm, hid⟩
  apart id id' t t' hl hl' hne hindex := by
    rw [h.texts.find] at hl hl'
    obtain ⟨m, hm, hid, -⟩ := message_of_text ht hl
    obtain ⟨m', hm', hid', -⟩ := message_of_text ht hl'
    -- The message at the index has one id.
    rw [hindex, hm'] at hm
    cases hm
    exact hne (Option.some.inj (hid.symm.trans hid'))
  call id c hl := by
    rw [h.calls.find] at hl
    obtain ⟨t, m, call, hparent, hm, hcall, hid⟩ := call_of_message ht hl
    exact ⟨t, m, call, (h.texts.find _).trans hparent, h.messages ▸ hm, hcall, hid⟩
  textOrder := by
    have hd : (r.texts.map Prod.fst).Nodup := ht.traced.tidy.texts
    exact ⟨h.texts.order ▸ hd, h.texts.mem_order hd⟩
  callOrder := by
    have hd : (r.calls.map Prod.fst).Nodup := ht.traced.tidy.calls
    exact ⟨h.calls.order ▸ hd, h.calls.mem_order hd⟩

/-- A handler of a reducer does what that of a replay does. -/
inductive Agrees : Except Halt Reducer → Except ReplayError Replay → Prop
  | ok {s : Reducer} {r : Replay} (same : s.Represents r) : Agrees (.ok s) (.ok r)
  | failed (error : ReplayError) : Agrees (fail error) (.error error)

/-! ## Texts -/

theorem Represents.push (h : s.Represents r) (m : Message) : (s.push m).Represents (r.push m) where
  app := h.app
  user := h.user
  texts := h.texts
  calls := h.calls
  messages := congrArg (· ++ [m]) h.messages

theorem Represents.pushText (h : s.Represents r) (hn : r.texts.lookup id = none) (m : Message)
    (content : String) (ended : Bool) :
    (s.pushText id m content ended).Represents (r.pushText id m content ended) where
  app := h.app
  user := h.user
  texts := by
    have hlast : (s.messages ++ [m]).length - 1 = r.messages.length := by
      rw [List.length_append, h.messages]
      rfl
    show Tabled (s.texts.insert id ⟨content, ended, (s.messages ++ [m]).length - 1⟩) _ _
    rw [hlast]
    exact h.texts.insert_new hn _
  calls := h.calls
  messages := congrArg (· ++ [m]) h.messages

/-- A text message is shown under the same name. -/
theorem nameFor_agrees (h : s.Represents r) (role : Role) {f : String → Reducer}
    {g : String → Replay} (hfg : ∀ name, (f name).Represents (g name)) :
    Agrees (do pure (f (← s.nameFor role))) (do pure (g (← r.nameFor role))) := by
  cases role with
  | user =>
    show Agrees (.ok (f s.user)) (.ok (g r.user))
    rw [h.user]
    exact .ok (hfg r.user)
  | assistant =>
    show Agrees (.ok (f s.app)) (.ok (g r.app))
    rw [h.app]
    exact .ok (hfg r.app)
  | _ => exact .failed _

theorem textStart_agrees (h : s.Represents r) (id : String) (role : Role) :
    Agrees (s.textStart id role) (r.textStart id role) := by
  rw [textStart, Replay.textStart, h.texts.contains]
  split
  · exact .failed _
  · split
    · exact .failed _
    · rename_i hknown
      have hnew : r.texts.lookup id = none := Option.not_isSome_iff_eq_none.1 hknown
      exact nameFor_agrees h role fun name => h.pushText hnew _ _ _

theorem textChunk_agrees (h : s.Represents r) (id : Option String) (role : Option Role)
    (delta : Option String) : Agrees (s.textChunk id role delta) (r.textChunk id role delta) := by
  rw [textChunk, Replay.textChunk]
  simp only [h.texts.contains]
  split
  · exact .failed _
  · split
    · exact .failed _
    · rename_i hknown
      have hnew : r.texts.lookup (id.getD "") = none := Option.not_isSome_iff_eq_none.1 hknown
      exact nameFor_agrees h (role.getD .assistant) fun name => h.pushText hnew _ _ _

theorem textContent_agrees (h : s.Represents r) (id delta : String) :
    Agrees (s.textContent id delta) (r.textContent id delta) := by
  rw [textContent, Replay.textContent, h.texts.find]
  cases hl : r.texts.lookup id with
  | none => exact .failed _
  | some t =>
    simp only
    split
    · exact .failed _
    · refine .ok ⟨h.app, h.user, ?_, h.calls, h.messages⟩
      exact h.texts.insert_known hl fun t => { t with content := t.content ++ delta }

/-- The content of a text goes to its own message. -/
theorem textEnd_agrees (h : s.Represents r) (ht : r.Tells app user said) (id : String) :
    Agrees (s.textEnd id) (r.textEnd id) := by
  rw [textEnd, Replay.textEnd, h.texts.find]
  cases hl : r.texts.lookup id with
  | none => exact .failed _
  | some t =>
    simp only
    split
    · exact .failed _
    · obtain ⟨m, hm, -⟩ := message_of_text ht hl
      simp only [setMessage, placed, h.messages, hm, bind, Except.bind, pure, Except.pure]
      refine .ok ⟨h.app, h.user, ?_, h.calls, ?_⟩
      · exact h.texts.insert_known hl fun t => { t with ended := true }
      · show _ = r.messages.modify t.index _
        rw [modify_eq_set hm]

/-! ## Tool calls -/

theorem Represents.ensureText (h : s.Represents r) (parent : String) :
    (s.ensureText parent).Represents (r.ensureText parent) := by
  rw [Reducer.ensureText, Replay.ensureText, h.texts.contains, h.app]
  split
  · exact h
  · rename_i hknown
    exact h.pushText (Option.not_isSome_iff_eq_none.1 hknown) _ _ _

/-- The message of a text that tools are called from, which may just have been added. -/
theorem message_of_ensureText (ht : r.Tells app user said) (parent : String) :
    ∃ (t : TextState) (m : Message), (r.ensureText parent).texts.lookup parent = some t ∧
      (r.ensureText parent).messages[t.index]? = some m := by
  rw [Replay.ensureText]
  cases hl : r.texts.lookup parent with
  | some t =>
    obtain ⟨m, hm, -⟩ := message_of_text ht hl
    exact ⟨t, m, hl, hm⟩
  | none =>
    -- The message was added last, and so was the row of its text.
    exact ⟨_, _, Replay.lookup_last hl _, List.getElem?_concat_length⟩

/-- A tool call is the last one of the message of its text. -/
theorem pushCall_agrees (h : s.Represents r) {parent : String} {t : TextState} {m : Message}
    (hparent : r.texts.lookup parent = some t) (hm : r.messages[t.index]? = some m)
    (hnew : r.calls.lookup id = none) (name : String) :
    Agrees (s.pushCall id name parent) (.ok (r.pushCall id name parent)) := by
  have hlast : (m.toolCalls ++ [ToolCall.ofFunction id name]).length - 1 = m.toolCalls.length := by
    rw [List.length_append]
    rfl
  simp only [pushCall, keyed, placed, h.texts.find, hparent, h.messages, hm, bind, Except.bind,
    pure, Except.pure, hlast]
  simp only [Replay.pushCall, hparent, hm, Option.map_some, Option.getD_some]
  refine .ok ⟨h.app, h.user, h.texts, h.calls.insert_new hnew _, ?_⟩
  show _ = r.messages.modify t.index _
  rw [modify_eq_set hm]

theorem toolStart_agrees (h : s.Represents r) (ht : r.Tells app user said) (id name : String)
    (parent : Option String) :
    Agrees (s.toolStart id name parent) (r.toolStart id name parent) := by
  cases parent with
  | none =>
    rw [toolStart, Replay.toolStart, h.calls.contains]
    split
    · exact .failed _
    · split <;> exact .failed _
  | some parent =>
    rw [toolStart, Replay.toolStart_eq, h.calls.contains]
    split
    · exact .failed _
    · split
      · exact .failed _
      · rename_i hknown
        obtain ⟨t, m, hparent, hm⟩ := message_of_ensureText ht parent
        have hnew : (r.ensureText parent).calls.lookup id = none := by
          rw [Replay.ensureText]
          split <;> exact Option.not_isSome_iff_eq_none.1 hknown
        exact pushCall_agrees (h.ensureText parent) hparent hm hnew name

theorem toolArgs_agrees (h : s.Represents r) (id delta : String) :
    Agrees (s.toolArgs id delta) (r.toolArgs id delta) := by
  rw [toolArgs, Replay.toolArgs, h.calls.find]
  cases hl : r.calls.lookup id with
  | none => exact .failed _
  | some c =>
    simp only
    split
    · exact .failed _
    · refine .ok ⟨h.app, h.user, h.texts, ?_, h.messages⟩
      exact h.calls.insert_known hl fun c => { c with arguments := c.arguments ++ delta }

/-- The arguments of a tool call go to the call itself. -/
theorem toolEnd_agrees (h : s.Represents r) (ht : r.Tells app user said) (id : String) :
    Agrees (s.toolEnd id) (r.toolEnd id) := by
  rw [toolEnd, Replay.toolEnd, h.calls.find]
  cases hl : r.calls.lookup id with
  | none => exact .failed _
  | some c =>
    simp only
    split
    · exact .failed _
    · obtain ⟨t, m, call, hparent, hm, hcall, -⟩ := call_of_message ht hl
      simp only [h.texts.find, hparent, setMessage, placed, h.messages, hm, hcall, bind,
        Except.bind, pure, Except.pure]
      refine .ok ⟨h.app, h.user, h.texts, ?_, ?_⟩
      · exact h.calls.insert_known hl fun c => { c with phase := .awaitingResult }
      · show _ = r.messages.modify t.index _
        rw [modify_eq_set hm, modify_eq_set hcall]

theorem toolResult_agrees (h : s.Represents r) (messageId callId content : String)
    (role : Option Role) :
    Agrees (s.toolResult messageId callId content role)
      (r.toolResult messageId callId content role) := by
  rw [toolResult, Replay.toolResult, h.calls.find]
  split
  · exact .failed _
  · cases hl : r.calls.lookup callId with
    | none => exact .failed _
    | some c =>
      simp only
      split
      · exact .failed _
      · let completed (c : CallState) : CallState := { c with phase := .completed }
        have hcompleted : Represents { s with calls := s.calls.insert callId (completed c) }
            { r with calls := Replay.update callId completed r.calls } :=
          ⟨h.app, h.user, h.texts, h.calls.insert_known hl completed, h.messages⟩
        exact .ok (hcompleted.push _)

/-! ## Entries -/

theorem userMessage_agrees (h : s.Represents r) (value : Json) :
    Agrees (s.userMessage value) (r.userMessage value) := by
  rw [userMessage, Replay.userMessage, h.user]
  cases decodeJson Message.decode value with
  | error fault => exact .failed _
  | ok m =>
    simp only
    split
    · exact .failed _
    · exact .ok (h.push _)

theorem Represents.activity (h : s.Represents r) (b : Body) (timestamp : Nat) :
    (s.activity b timestamp).Represents (r.activity b timestamp) := by
  rw [Reducer.activity, Replay.activity]
  cases Replay.activityContent b with
  | none => exact h
  | some content => exact h.push _

/-- **A step**: an event does to a reducer what it does to the replay, and no access misses. -/
theorem event_agrees (h : s.Represents r) (ht : r.Tells app user said) (timestamp : Nat)
    (b : Body) : Agrees (s.event timestamp b) (r.event timestamp b) := by
  cases b with
  | textStart id role => exact textStart_agrees h id role
  | textContent id delta => exact textContent_agrees h id delta
  | textEnd id => exact textEnd_agrees h ht id
  | textChunk id role delta => exact textChunk_agrees h id role delta
  | toolStart id name parent => exact toolStart_agrees h ht id name parent
  | toolArgs id delta => exact toolArgs_agrees h id delta
  | toolEnd id => exact toolEnd_agrees h ht id
  | toolResult messageId callId content role =>
    exact toolResult_agrees h messageId callId content role
  | custom name value =>
    rw [event, Replay.event]
    split
    · exact userMessage_agrees h value
    · exact .ok (h.activity _ timestamp)
  | runStarted => exact .ok h
  | runFinished => exact .ok h
  | runError => exact .ok h
  | _ => exact .ok (h.activity _ timestamp)

theorem step_agrees (h : s.Represents r) (ht : r.Tells app user said) (e : Entry) :
    Agrees (s.step e) (r.step e) := by
  rw [step, Replay.step]
  split
  · exact .ok h
  · cases e.event with
    | error error => exact .failed _
    | ok event => exact event_agrees h ht e.timestamp event.body

/-! ## Logs -/

/-- **A run**: a reducer goes on as the replay, and halts only at a failure. -/
theorem steps_agree (h : s.Represents r) (ht : r.Tells app user said) (log : List Entry) :
    (s.steps log).1.Represents (r.steps log).1 ∧
      (s.steps log).2 = (r.steps log).2.map Halt.failed := by
  induction log generalizing s r said with
  | nil => exact ⟨h, rfl⟩
  | cons e log ih =>
    have hagrees := step_agrees h ht e
    rw [steps, Replay.steps]
    generalize s.step e = x at hagrees ⊢
    generalize hs : r.step e = y at hagrees ⊢
    cases hagrees with
    | ok same => exact ih same (ht.step hs)
    | failed error => exact ⟨h, rfl⟩

/-- The first id that is open is that of the first row that is. -/
theorem checkClosed_eq {α : Type} {table : Std.HashMap String α} {rows : List (String × α)}
    (h : ∀ x ∈ rows, table[x.1]? = some x.2) (isOpen : α → Bool) (error : String → ReplayError) :
    checkClosed table isOpen error (rows.map Prod.fst)
      = match rows.find? fun x => isOpen x.2 with
        | some (id, _) => fail (error id)
        | none => .ok () := by
  induction rows with
  | nil => rfl
  | cons x rows ih =>
    have hx : table[x.1]? = some x.2 := h x List.mem_cons_self
    rw [List.map_cons, checkClosed, keyed, hx]
    show (if isOpen x.2 = true then _ else _) = _
    by_cases hopen : isOpen x.2 = true
    · rw [if_pos hopen, List.find?_cons_of_pos (by exact hopen)]
    · rw [if_neg hopen, List.find?_cons_of_neg (by exact hopen)]
      exact ih fun y hy => h y (List.mem_cons_of_mem x hy)

/-- What is left open at the end is found by the orders. -/
theorem finalize_eq (h : s.Represents r) (ht : r.Tells app user said) :
    s.finalize = match r.unfinished with
      | some error => fail error
      | none => .ok () := by
  have htexts : ∀ x ∈ r.texts, s.texts[x.1]? = some x.2 := fun x hx =>
    (h.texts.find x.1).trans ((mem_iff_lookup ht.traced.tidy.texts).1 hx)
  have hcalls : ∀ x ∈ r.calls, s.calls[x.1]? = some x.2 := fun x hx =>
    (h.calls.find x.1).trans ((mem_iff_lookup ht.traced.tidy.calls).1 hx)
  rw [finalize, h.texts.order, h.calls.order, checkClosed_eq htexts, checkClosed_eq hcalls,
    Replay.unfinished]
  cases r.texts.find? fun x => !x.2.ended with
  | some x => rfl
  | none =>
    cases r.calls.find? fun x => x.2.phase != .completed with
    | some x => rfl
    | none => rfl

/-- A reducer comes to what a replay comes to. -/
theorem reduce_eq_replay (app user : String) (log : List Entry) :
    reduce app user log = some (replay app user log) := by
  obtain ⟨hsame, hhalt⟩ := steps_agree (represents_start app user) (Replay.tells_nil app user) log
  obtain ⟨front, behind, -, htells, -⟩ := (Replay.tells_nil app user).steps log
  have hfinal := finalize_eq hsame htells
  rw [reduce, replay]
  rcases hs : ({ app, user } : Reducer).steps log with ⟨s, halt⟩
  rcases hr : ({ app, user } : Replay).steps log with ⟨r, error⟩
  rw [hs, hr] at hsame hhalt
  rw [hs, hr] at hfinal
  simp only at hsame hhalt hfinal
  subst hhalt
  cases error with
  | some error =>
    show some (Replayed.mk s.messages (some error)) = _
    rw [hsame.messages]
  | none =>
    simp only [Option.map_none, hfinal, hsame.messages]
    cases r.unfinished with
    | some error => rfl
    | none => rfl

end Reducer

/-! ## Parents -/

namespace Replay

variable {r : Replay} {app user : String} {said : List (Nat × Body)}

/-- A tool call that ends has a known parent. -/
theorem step_ne_toolEndMissingParent (h : r.Tells app user said) (e : Entry) (id : String) :
    r.step e ≠ .error (.toolEndMissingParent id) := by
  intro hstep
  rcases step_failure hstep with ⟨reason, hread⟩ | ⟨b, -, hfailure⟩
  · cases hread
  · cases hfailure with
    | @toolEndMissingParent _ c known unknown =>
      -- No text is ever forgotten, so that from which the call started is still known.
      have hparent := h.traced.tidy.parents _ c known
      rw [unknown] at hparent
      cases hparent

theorem steps_ne_toolEndMissingParent (h : r.Tells app user said) (log : List Entry)
    (id : String) : (r.steps log).2 ≠ some (.toolEndMissingParent id) := by
  induction log generalizing r said with
  | nil => exact nofun
  | cons e log ih =>
    rw [steps]
    cases hs : r.step e with
    | ok r' => exact ih (h.step hs)
    | error error =>
      intro he
      rw [Option.some.inj he] at hs
      exact step_ne_toolEndMissingParent h e id hs

theorem error_ne_toolEndMissingParent (app user : String) (log : List Entry) (id : String) :
    (replay app user log).error ≠ some (.toolEndMissingParent id) := by
  have hsteps := steps_ne_toolEndMissingParent (tells_nil app user) log id
  rw [replay]
  rcases hr : ({ app, user } : Replay).steps log with ⟨r, error⟩
  rw [hr] at hsteps
  cases error with
  | some error => exact hsteps
  | none =>
    intro hopen
    rcases unfinished_cases hopen with ⟨_, he⟩ | ⟨_, he⟩ <;> cases he

end Replay

/-- **Indices of a replay are always valid.**  In every state that a reducer reaches on a log, the
indices of texts and tool calls point at their messages and calls, and no entry makes an access
miss.  So the reducer comes to what the replay of the log comes to, and no tool call that ends
misses its parent. -/
theorem indices_valid (app user : String) (log : List Entry) :
    (∀ n, (({ app, user } : Reducer).steps (log.take n)).1.Valid ∧
      (({ app, user } : Reducer).steps (log.take n)).2 ≠ some .missed) ∧
    Reducer.reduce app user log = some (replay app user log) ∧
    ∀ id, (replay app user log).error ≠ some (.toolEndMissingParent id) := by
  refine ⟨fun n => ?_, Reducer.reduce_eq_replay app user log,
    Replay.error_ne_toolEndMissingParent app user log⟩
  have htold := Replay.tells_nil app user
  obtain ⟨hsame, hhalt⟩ :=
    Reducer.steps_agree (Reducer.represents_start app user) htold (log.take n)
  obtain ⟨front, behind, -, htells, -⟩ := htold.steps (log.take n)
  refine ⟨hsame.valid htells, ?_⟩
  rw [hhalt]
  cases (({ app, user } : Replay).steps (log.take n)).2 with
  | none => exact nofun
  | some error => exact nofun

end AgentStream
