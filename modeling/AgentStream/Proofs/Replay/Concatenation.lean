/-
# Logs behind other logs

What a session has said before is no part of how it goes on: a log that shares no text and no tool
call with the one before it is replayed as if it stood alone.  Its texts stand behind the messages
of the first log, so their places are shifted, and nothing else in it refers to the tables of the
first.

* `Body.Apart` : events that share no text and no tool call;
* `Replay.behind` : a replay with the tables and the messages of another one in front;
* `Replay.event_behind`, `Replay.steps_behind` : an event and a log go on behind a replay as alone;
* `replay_append` : the replay of a log behind one that is replayed without a failure.
-/
import AgentStream.Proofs.Replay.Failures
import AgentStream.Proofs.Replay.Told

namespace AgentStream

open Body

/-! ## Events with nothing in common -/

namespace Body

/-- The text that an event belongs to, or that it calls a tool from. -/
def usedText? : Body → Option String
  | toolStart _ _ parent => parent
  | b => b.textId?

/-- Events share no text and no tool call with others. -/
def Apart (xs ys : List Body) : Prop :=
  (∀ id ∈ xs.filterMap usedText?, id ∉ ys.filterMap usedText?) ∧
    ∀ id ∈ xs.filterMap callId?, id ∉ ys.filterMap callId?

instance (xs ys : List Body) : Decidable (Apart xs ys) :=
  inferInstanceAs (Decidable (_ ∧ _))

theorem usedText?_of_textId? {b : Body} {id : String} (h : b.textId? = some id) :
    b.usedText? = some id := by
  cases b with
  | toolStart => cases h
  | _ => exact h

theorem usedText?_of_callsFrom {b : Body} {id : String} (h : b.CallsFrom id) :
    b.usedText? = some id := by
  cases b with
  | toolStart => exact h
  | _ => exact h.elim

end Body

/-! ## Tables and lists behind others -/

section Lists

variable {α β : Type}

theorem lookup_map_snd (f : α → β) (table : List (String × α)) (id : String) :
    (table.map fun (k, a) => (k, f a)).lookup id = (table.lookup id).map f := by
  induction table with
  | nil => rfl
  | cons x table ih =>
    rw [List.map_cons, lookup_cons_ite, lookup_cons_ite, ih]
    split <;> rfl

/-- What is not in the first table is found in the second. -/
theorem lookup_append_of_none {front : List (String × α)} {id : String}
    (h : front.lookup id = none) (table : List (String × α)) :
    (front ++ table).lookup id = table.lookup id := by
  rw [List.lookup_append, h, Option.none_or]

/-- A change behind a table that does not have the id. -/
theorem update_append {front : List (String × α)} {id : String} (h : front.lookup id = none)
    (f : α → α) (table : List (String × α)) :
    Replay.update id f (front ++ table) = front ++ Replay.update id f table := by
  have hsplit : Replay.update id f (front ++ table)
      = Replay.update id f front ++ Replay.update id f table := List.map_append
  rw [hsplit, Replay.update_of_lookup f h]

theorem update_map_snd (id : String) {f : α → α} {g : α → α} (h : ∀ a, f (g a) = g (f a))
    (table : List (String × α)) :
    Replay.update id f (table.map fun (k, a) => (k, g a))
      = (Replay.update id f table).map fun (k, a) => (k, g a) := by
  induction table with
  | nil => rfl
  | cons x table ih =>
    rw [List.map_cons, Replay.update_cons, Replay.update_cons, List.map_cons, ih, h]
    split <;> rfl

theorem modify_append_right (front xs : List α) (i : Nat) (f : α → α) :
    (front ++ xs).modify (front.length + i) f = front ++ xs.modify i f := by
  induction front with
  | nil => rw [List.length_nil, Nat.zero_add, List.nil_append, List.nil_append]
  | cons x front ih =>
    rw [List.length_cons, Nat.add_right_comm, List.cons_append, List.modify_succ_cons, ih,
      List.cons_append]

theorem getElem?_append_shift (front xs : List α) (i : Nat) :
    (front ++ xs)[front.length + i]? = xs[i]? := by
  rw [List.getElem?_append_right (Nat.le_add_right _ _), Nat.add_sub_cancel_left]

end Lists

/-! ## Replays behind others -/

/-- A text behind messages. -/
def TextState.behind (n : Nat) (t : TextState) : TextState := { t with index := n + t.index }

namespace Replay

/-- A replay with the tables and the messages of another one in front of its own. -/
def behind (r a : Replay) : Replay where
  app := r.app
  user := r.user
  texts := a.texts ++ r.texts.map fun (id, t) => (id, t.behind a.messages.length)
  calls := a.calls ++ r.calls
  messages := a.messages ++ r.messages

/-- The replay knows neither the texts nor the tool call of an event. -/
structure Ignores (a : Replay) (b : Body) : Prop where
  texts : ∀ id, b.usedText? = some id → a.texts.lookup id = none
  calls : ∀ id, b.callId? = some id → a.calls.lookup id = none

/-- None of the tool calls comes from a text that the replay knows. -/
def Detached (a : Replay) (calls : List (String × CallState)) : Prop :=
  ∀ id c, calls.lookup id = some c → a.texts.lookup c.messageId = none

variable {a r r' : Replay} {id : String} {timestamp : Nat} {b : Body}

theorem text_behind (h : a.texts.lookup id = none) (r : Replay) :
    (r.behind a).texts.lookup id = (r.texts.lookup id).map (.behind a.messages.length) :=
  (lookup_append_of_none h _).trans (lookup_map_snd _ _ _)

theorem call_behind (h : a.calls.lookup id = none) (r : Replay) :
    (r.behind a).calls.lookup id = r.calls.lookup id := lookup_append_of_none h _

theorem isSome_text_behind (h : a.texts.lookup id = none) (r : Replay) :
    ((r.behind a).texts.lookup id).isSome = (r.texts.lookup id).isSome := by
  rw [text_behind h, Option.isSome_map]

theorem push_behind (a r : Replay) (m : Message) :
    (r.behind a).push m = (r.push m).behind a := by
  simp only [push, behind, List.append_assoc]

theorem pushText_behind (a r : Replay) (id : String) (m : Message) (content : String)
    (ended : Bool) :
    (r.behind a).pushText id m content ended = (r.pushText id m content ended).behind a := by
  simp only [pushText, behind, TextState.behind, List.append_assoc, List.length_append,
    List.map_append, List.map_cons, List.map_nil]

theorem setMessage_behind (a r : Replay) (i : Nat) (f : Message → Message) :
    (r.behind a).setMessage (a.messages.length + i) f = (r.setMessage i f).behind a := by
  simp only [setMessage, behind, modify_append_right]

/-- A change to a text that leaves it where it is. -/
theorem updateText_behind (h : a.texts.lookup id = none) (r : Replay) {f : TextState → TextState}
    (hf : ∀ n t, f (.behind n t) = (f t).behind n) :
    ({ r.behind a with texts := update id f (r.behind a).texts } : Replay)
      = ({ r with texts := update id f r.texts } : Replay).behind a := by
  simp only [behind, update_append h, update_map_snd id (hf _)]

theorem updateCall_behind (h : a.calls.lookup id = none) (r : Replay)
    (f : CallState → CallState) :
    ({ r.behind a with calls := update id f (r.behind a).calls } : Replay)
      = ({ r with calls := update id f r.calls } : Replay).behind a := by
  simp only [behind, update_append h]

theorem nameFor_behind (a r : Replay) (role : Role) :
    (r.behind a).nameFor role = r.nameFor role := by
  cases role <;> rfl

/-! ## Events behind a replay -/

/-- What an event comes to behind a replay: the same failure, or a state behind it. -/
def behindOf (a : Replay) (x : Except ReplayError Replay) : Except ReplayError Replay :=
  x.map (·.behind a)

theorem textStart_behind (h : a.texts.lookup id = none) (r : Replay) (role : Role) :
    (r.behind a).textStart id role = behindOf a (r.textStart id role) := by
  rw [textStart, textStart, isSome_text_behind h]
  split
  · rfl
  · split
    · rfl
    · rw [nameFor_behind]
      cases r.nameFor role with
      | error error => rfl
      | ok name => exact congrArg Except.ok (pushText_behind a r _ _ _ _)

theorem textContent_behind (h : a.texts.lookup id = none) (r : Replay) (delta : String) :
    (r.behind a).textContent id delta = behindOf a (r.textContent id delta) := by
  rw [textContent, textContent, text_behind h]
  cases r.texts.lookup id with
  | none => rfl
  | some t =>
    simp only [Option.map_some, TextState.behind]
    split
    · rfl
    · exact congrArg Except.ok (updateText_behind h r fun _ _ => rfl)

theorem textEnd_behind (h : a.texts.lookup id = none) (r : Replay) :
    (r.behind a).textEnd id = behindOf a (r.textEnd id) := by
  rw [textEnd, textEnd, text_behind h]
  cases r.texts.lookup id with
  | none => rfl
  | some t =>
    simp only [Option.map_some, TextState.behind]
    split
    · rfl
    · rw [updateText_behind h r fun _ _ => rfl, setMessage_behind]
      rfl

theorem textChunk_behind {id : Option String} (h : ∀ id', id = some id' → a.texts.lookup id' = none)
    (r : Replay) (role : Option Role) (delta : Option String) :
    (r.behind a).textChunk id role delta = behindOf a (r.textChunk id role delta) := by
  cases id with
  | none => rfl
  | some id =>
    rw [textChunk, textChunk]
    simp only [Option.getD_some, isSome_text_behind (h id rfl)]
    split
    · rfl
    · split
      · rfl
      · rw [nameFor_behind]
        cases r.nameFor (role.getD .assistant) with
        | error error => rfl
        | ok name => exact congrArg Except.ok (pushText_behind a r _ _ _ _)

/-- The replay with a text that tools are called from, which is added if it is not known. -/
def ensureText (r : Replay) (parent : String) : Replay :=
  if (r.texts.lookup parent).isSome then r
  else r.pushText parent { id := some parent, role := .assistant, name := some r.app } "" true

/-- The replay with one more tool call from a text. -/
def pushCall (r : Replay) (id name parent : String) : Replay :=
  let place := ((r.texts.lookup parent).map (·.index)).getD 0
  let earlier := (r.messages[place]?.map (·.toolCalls)).getD []
  { r.setMessage place (fun m =>
      { m with toolCalls := m.toolCalls ++ [ToolCall.ofFunction id name] }) with
    calls := r.calls ++ [(id, ⟨parent, "", .awaitingArgs, earlier.length⟩)] }

theorem toolStart_eq (r : Replay) (id name parent : String) :
    r.toolStart id name (some parent) =
      if id.isEmpty then .error .toolStartMissingId
      else if (r.calls.lookup id).isSome then .error (.duplicateToolStart id)
      else .ok ((r.ensureText parent).pushCall id name parent) := rfl

theorem isSome_ensureText (r : Replay) (parent : String) :
    ((r.ensureText parent).texts.lookup parent).isSome = true := by
  rw [ensureText]
  by_cases h : (r.texts.lookup parent).isSome = true
  · rw [if_pos h, h]
  · rw [if_neg h, pushText, lookup_last (Option.not_isSome_iff_eq_none.1 h)]
    rfl

theorem ensureText_behind {parent : String} (h : a.texts.lookup parent = none) (r : Replay) :
    (r.behind a).ensureText parent = (r.ensureText parent).behind a := by
  rw [ensureText, ensureText, isSome_text_behind h]
  split
  · rfl
  · exact pushText_behind a r _ _ _ _

/-- A tool call goes to the message of its text, wherever that stands. -/
theorem pushCall_behind {parent : String} (h : a.texts.lookup parent = none)
    (hp : (r.texts.lookup parent).isSome = true) (id name : String) :
    (r.behind a).pushCall id name parent = (r.pushCall id name parent).behind a := by
  obtain ⟨t, ht⟩ := Option.isSome_iff_exists.1 hp
  have hmessages : (r.behind a).messages[a.messages.length + t.index]? = r.messages[t.index]? :=
    getElem?_append_shift _ _ _
  simp only [pushCall, text_behind h, ht, Option.map_some, Option.getD_some, TextState.behind,
    hmessages, setMessage_behind]
  simp only [behind, setMessage, List.append_assoc]

theorem toolStart_behind {parent : Option String}
    (h : ∀ id', parent = some id' → a.texts.lookup id' = none) (hc : a.calls.lookup id = none)
    (r : Replay) (name : String) :
    (r.behind a).toolStart id name parent = behindOf a (r.toolStart id name parent) := by
  cases parent with
  | none =>
    rw [toolStart, toolStart, call_behind hc]
    split
    · rfl
    · split <;> rfl
  | some parent =>
    rw [toolStart_eq, toolStart_eq, call_behind hc, ensureText_behind (h parent rfl),
      pushCall_behind (h parent rfl) (isSome_ensureText r parent)]
    split
    · rfl
    · split <;> rfl

theorem toolArgs_behind (h : a.calls.lookup id = none) (r : Replay) (delta : String) :
    (r.behind a).toolArgs id delta = behindOf a (r.toolArgs id delta) := by
  rw [toolArgs, toolArgs, call_behind h]
  cases r.calls.lookup id with
  | none => rfl
  | some c =>
    simp only
    split
    · rfl
    · exact congrArg Except.ok (updateCall_behind h r _)

theorem toolEnd_behind (h : a.calls.lookup id = none) (hd : Detached a r.calls) :
    (r.behind a).toolEnd id = behindOf a (r.toolEnd id) := by
  rw [toolEnd, toolEnd, call_behind h]
  cases hl : r.calls.lookup id with
  | none => rfl
  | some c =>
    simp only [text_behind (hd id c hl)]
    split
    · rfl
    · cases r.texts.lookup c.messageId with
      | none => rfl
      | some t =>
        simp only [Option.map_some, TextState.behind, setMessage_behind]
        exact congrArg Except.ok (updateCall_behind h (r.setMessage t.index _) _)

theorem toolResult_behind (h : a.calls.lookup id = none) (r : Replay) (messageId content : String)
    (role : Option Role) :
    (r.behind a).toolResult messageId id content role
      = behindOf a (r.toolResult messageId id content role) := by
  rw [toolResult, toolResult, call_behind h]
  split
  · rfl
  · cases r.calls.lookup id with
    | none => rfl
    | some c =>
      simp only
      split
      · rfl
      · rw [updateCall_behind h, push_behind]
        rfl

theorem userMessage_behind (a r : Replay) (value : Json) :
    (r.behind a).userMessage value = behindOf a (r.userMessage value) := by
  rw [userMessage, userMessage]
  cases decodeJson Message.decode value with
  | error fault => rfl
  | ok m =>
    simp only
    split
    · rfl
    · exact congrArg Except.ok (push_behind a r _)

theorem activity_behind (a r : Replay) (b : Body) (timestamp : Nat) :
    (r.behind a).activity b timestamp = (r.activity b timestamp).behind a := by
  rw [activity, activity]
  cases activityContent b with
  | none => rfl
  | some content => exact push_behind a r _

/-- **An event goes on behind a replay as alone**, if the replay knows nothing of it. -/
theorem event_behind (hb : a.Ignores b) (hd : Detached a r.calls) (timestamp : Nat) :
    (r.behind a).event timestamp b = behindOf a (r.event timestamp b) := by
  cases b with
  | textStart id role => exact textStart_behind (hb.texts id rfl) r role
  | textContent id delta => exact textContent_behind (hb.texts id rfl) r delta
  | textEnd id => exact textEnd_behind (hb.texts id rfl) r
  | textChunk id role delta =>
    exact textChunk_behind (fun id' h => hb.texts id' h) r role delta
  | toolStart id name parent =>
    exact toolStart_behind (fun id' h => hb.texts id' h) (hb.calls id rfl) r name
  | toolArgs id delta => exact toolArgs_behind (hb.calls id rfl) r delta
  | toolEnd id => exact toolEnd_behind (hb.calls id rfl) hd
  | toolResult messageId id content role =>
    exact toolResult_behind (hb.calls id rfl) r messageId content role
  | custom name value =>
    rw [event, event]
    split
    · exact userMessage_behind a r value
    · exact congrArg Except.ok (activity_behind a r _ _)
  | runStarted => rfl
  | runFinished => rfl
  | runError => rfl
  | _ => exact congrArg Except.ok (activity_behind a r _ _)

theorem detached_nil (a : Replay) : Detached a [] := nofun

/-- A tool call that changes keeps its text. -/
theorem Detached.update {calls : List (String × CallState)} (hd : Detached a calls)
    {f : CallState → CallState} (hf : ∀ c, (f c).messageId = c.messageId) :
    Detached a (Replay.update id f calls) := by
  intro key c hl
  rw [lookup_update] at hl
  split at hl
  · obtain ⟨c', hl', rfl⟩ := Option.map_eq_some_iff.1 hl
    rw [hf]
    exact hd key c' hl'
  · exact hd key c hl

/-- The text of a new tool call is the one that it comes from. -/
theorem Detached.call {calls : List (String × CallState)} (hd : Detached a calls)
    (hnew : calls.lookup id = none) {c : CallState} (hc : a.texts.lookup c.messageId = none) :
    Detached a (calls ++ [(id, c)]) := by
  intro key c' hl
  rw [lookup_concat hnew] at hl
  split at hl
  · cases hl
    exact hc
  · exact hd key c' hl

theorem Detached.event (hd : Detached a r.calls) (hb : a.Ignores b)
    (h : r.event timestamp b = .ok r') : Detached a r'.calls := by
  cases event_effect h with
  | toolStart hnew hknown => exact hd.call hnew (hb.texts _ rfl)
  | toolStartAlone hnew hunknown => exact hd.call hnew (hb.texts _ rfl)
  | toolArgs hknown hgoing | toolEnd hknown hgoing hparent | toolResult hknown hgoing =>
    dsimp only [push]
    exact Detached.update hd fun _ => rfl
  | _ => exact hd

/-! ## Logs behind a replay -/

theorem step_behind {e : Entry} (hb : ∀ b, e.body? = some b → a.Ignores b)
    (hd : Detached a r.calls) : (r.behind a).step e = behindOf a (r.step e) := by
  cases hbody : e.body? with
  | some b =>
    rw [step_of_body? hbody, step_of_body? hbody]
    exact event_behind (hb b hbody) hd e.timestamp
  | none =>
    rcases step_of_body?_eq_none hbody with hpassed | ⟨reason, hread⟩
    · rw [hpassed, hpassed]
      rfl
    · rw [hread, hread]
      rfl

theorem Detached.step {e : Entry} (hd : Detached a r.calls)
    (hb : ∀ b, e.body? = some b → a.Ignores b) (h : r.step e = .ok r') :
    Detached a r'.calls := by
  cases hbody : e.body? with
  | some b =>
    rw [step_of_body? hbody] at h
    exact hd.event (hb b hbody) h
  | none =>
    rcases step_of_body?_eq_none hbody with hpassed | ⟨reason, hread⟩
    · rw [hpassed] at h
      cases h
      exact hd
    · rw [hread] at h
      cases h

/-- **A log goes on behind a replay as alone**, if the replay knows nothing of its events. -/
theorem steps_behind {log : List Entry} (hb : ∀ b ∈ log.filterMap Entry.body?, a.Ignores b)
    (hd : Detached a r.calls) :
    (r.behind a).steps log = ((r.steps log).1.behind a, (r.steps log).2) := by
  -- The tool calls so far stay detached, which the ends of the calls to come rely on.
  induction log generalizing r with
  | nil => rfl
  | cons e log ih =>
    have hfirst (b : Body) (hbody : e.body? = some b) : a.Ignores b :=
      hb b (List.mem_filterMap.2 ⟨e, List.mem_cons_self, hbody⟩)
    have hrest : ∀ b ∈ log.filterMap Entry.body?, a.Ignores b := by
      intro b hmem
      obtain ⟨e', he', hbody⟩ := List.mem_filterMap.1 hmem
      exact hb b (List.mem_filterMap.2 ⟨e', List.mem_cons_of_mem e he', hbody⟩)
    rw [steps, steps, step_behind hfirst hd]
    cases hstep : r.step e with
    | error error => rfl
    | ok r' => exact ih hrest (hd.step hfirst hstep)

/-- Behind a replay that has left nothing open only what comes later can be left open. -/
theorem unfinished_behind (h : a.unfinished = none) (r : Replay) :
    (r.behind a).unfinished = r.unfinished := by
  unfold unfinished at h
  split at h
  · cases h
  · rename_i htexts
    split at h
    · cases h
    · rename_i hcalls
      have hended : (fun x : String × TextState => !x.2.ended)
          ∘ (fun x : String × TextState => (x.1, x.2.behind a.messages.length))
            = fun x => !x.2.ended := rfl
      unfold unfinished
      rw [behind, List.find?_append, htexts, Option.none_or, List.find?_append, hcalls,
        Option.none_or, List.find?_map, hended]
      cases r.texts.find? fun x => !x.2.ended <;> rfl

/-- A replay that starts anew starts behind the one before it. -/
theorem behind_new (a : Replay) : ({ app := a.app, user := a.user } : Replay).behind a = a := by
  simp [behind]

/-- What a replay knows was said to it. -/
theorem Traced.ignores {xs ys : List Body} (ht : a.Traced xs) (h : Apart xs ys) (hb : b ∈ ys) :
    a.Ignores b where
  texts id huses := by
    rw [← textStage_eq_none]
    by_contra hstage
    obtain ⟨x, hx, hbegun⟩ := (ht.text id).begun hstage
    have hsaid : x.usedText? = some id :=
      hbegun.elim (fun ho => usedText?_of_textId? (textId?_of_opens ho)) usedText?_of_callsFrom
    exact h.1 id (List.mem_filterMap.2 ⟨x, hx, hsaid⟩) (List.mem_filterMap.2 ⟨b, hb, huses⟩)
  calls id hid := by
    rw [← callStage_eq_none]
    refine (ht.call id).eq_none ?_
    rw [callEvents, List.filter_eq_nil_iff]
    intro x hx hxid
    have hsaid : x.callId? = some id := of_decide_eq_true hxid
    exact h.2 id (List.mem_filterMap.2 ⟨x, hx, hsaid⟩) (List.mem_filterMap.2 ⟨b, hb, hid⟩)

end Replay

variable {app user : String}

/-- What a log that is replayed without a failure leaves behind. -/
theorem steps_of_replay {log : List Entry} (h : (replay app user log).error = none) :
    ∃ a, ({ app, user } : Replay).steps log = (a, none) ∧ a.unfinished = none ∧
      a.Tells app user (log.filterMap Entry.said?) := by
  obtain ⟨front, behind, hlog, htells, hbehind⟩ := (Replay.tells_nil app user).steps log
  unfold replay at h
  rcases hsteps : ({ app, user } : Replay).steps log with ⟨a, _ | error⟩
  · rw [hsteps] at h htells hbehind
    rw [hbehind rfl, List.append_nil] at hlog
    rw [← hlog] at htells
    exact ⟨a, rfl, h, htells⟩
  · rw [hsteps] at h
    cases h

/-- **A log behind another one.**  If a log is replayed without a failure, and what comes behind it
shares no text and no tool call with it, then both are replayed as the messages of the one and those
of the other, and a failure is a failure of the second. -/
theorem replay_append {log more : List Entry} (h : (replay app user log).error = none)
    (hapart : Body.Apart (log.filterMap Entry.body?) (more.filterMap Entry.body?)) :
    replay app user (log ++ more) =
      { messages := (replay app user log).messages ++ (replay app user more).messages
        error := (replay app user more).error } := by
  obtain ⟨a, hsteps, hunfinished, htells⟩ := steps_of_replay h
  have htraced : a.Traced (log.filterMap Entry.body?) := bodies_said log ▸ htells.traced
  -- Behind the first log the second one is replayed as one that starts anew.
  have hmore : a.steps more
      = ((({ app, user } : Replay).steps more).1.behind a,
        (({ app, user } : Replay).steps more).2) := by
    have hnew := a.behind_new
    rw [htells.ofApp, htells.ofUser] at hnew
    rw [← Replay.steps_behind (fun b hb => htraced.ignores hapart hb) a.detached_nil, hnew]
  simp only [replay, Replay.steps_append, hsteps, hmore]
  rcases ({ app, user } : Replay).steps more with ⟨r, _ | error⟩
  · simp only [Replay.unfinished_behind hunfinished]
    rfl
  · rfl

theorem bodies_recorded {said : List (Nat × Body)} (hs : ∀ x ∈ said, x.2.isFrame = true) :
    (recorded said).filterMap Entry.body? = said.map Prod.snd := by
  rw [← bodies_said, said_recorded hs]

/-- A tool call and a text that are left open. -/
def abandoned : List (Nat × Body) :=
  [(9, .toolStart "d" "find" (some "e")), (10, .textStart "f" .assistant),
    (11, .textContent "f" "z")]

theorem steps_interleaved : ∃ a,
    ({ app := "app", user := "ann" } : Replay).steps (recorded interleaved) = (a, none) ∧
      a.unfinished = none ∧ a.messages.map (·.id) = [some "a", some "b", some "r"] := by
  refine ⟨?last, ?_, ?_, ?_⟩
  rotate_left
  · repeat refine (Replay.steps_frame rfl rfl).trans ?_
    rfl
  · rfl
  · rfl

theorem steps_abandoned : ∃ r,
    ({ app := "app", user := "ann" } : Replay).steps (recorded abandoned) = (r, none) ∧
      r.unfinished = some (.textNotClosed "f") ∧ r.messages.map (·.id) = [some "e", some "f"] := by
  refine ⟨?last, ?_, ?_, ?_⟩
  rotate_left
  · repeat refine (Replay.steps_frame rfl rfl).trans ?_
    rfl
  · rfl
  · rfl

theorem replay_append_abandoned :
    (replay "app" "ann" (recorded interleaved)).error = none ∧
      (replay "app" "ann" (recorded interleaved ++ recorded abandoned)).error
        = some (.textNotClosed "f") ∧
      (replay "app" "ann" (recorded interleaved ++ recorded abandoned)).messages.map (·.id)
        = [some "a", some "b", some "r", some "e", some "f"] := by
  obtain ⟨a, hsteps, hunfinished, hids⟩ := steps_interleaved
  obtain ⟨r, hmore, hopen, hids'⟩ := steps_abandoned
  have herror : (replay "app" "ann" (recorded interleaved)).error = none := by
    rw [replay, hsteps]
    exact hunfinished
  have hapart : Body.Apart ((recorded interleaved).filterMap Entry.body?)
      ((recorded abandoned).filterMap Entry.body?) := by
    have hlog : (recorded interleaved).filterMap Entry.body? = interleaved.map Prod.snd :=
      bodies_recorded (by decide)
    have hlater : (recorded abandoned).filterMap Entry.body? = abandoned.map Prod.snd :=
      bodies_recorded (by decide)
    rw [hlog, hlater]
    decide
  rw [replay_append herror hapart]
  refine ⟨herror, ?_, ?_⟩
  · simp only [replay, hmore, hopen]
  · simp only [replay, hsteps, hmore, List.map_append, hids, hids']
    rfl

end AgentStream
