/-
# A replay shows what the log tells

At every point of a log, the messages of its replay are those of the openings so far, with the
content of the texts that have ended and the arguments of the tool calls that are complete.  At the
end of a log that is replayed without a failure nothing is left open, so the messages show all that
the log tells, however its texts and tool calls stand among each other.

* `Replay.Tells.messages_step` : the messages that an event leaves;
* `Replay.Tells.event`, `Replay.Tells.steps` : a replay goes on to show what is said with an event and
  with a log;
* `replay_messages_eq` : the messages of a log.
-/
import AgentStream.Proofs.Replay.Standing
import AgentStream.Proofs.Replay.Telling

namespace AgentStream

open Body

variable {r r' : Replay} {app user id : String} {timestamp : Nat} {b : Body} {bodies : List Body}
  {said : List (Nat × Body)} {o : Opening}

namespace Replay

namespace Tells

/-! ## The messages behind one more event -/

/-- Nothing shown changes with an event that ends nothing and starts no call, unless it adds to what
has ended. -/
theorem soFar_concat (hcall : ∀ id, b.callFrom? id = none)
    (hpiece : ∀ id, Body.textEnd id ∈ bodies → b.pieceOf? id = none)
    (hargument : ∀ id, Body.toolEnd id ∈ bodies → b.argumentOf? id = none)
    (hends : b.isEnd = false) : Account.soFar (bodies ++ [b]) = Account.soFar bodies := by
  have hcontent (id : String) : contentSoFar id (bodies ++ [b]) = contentSoFar id bodies :=
    contentSoFar_concat (Body.ne_textEnd hends id) (hpiece id)
  have harguments (id : String) : argumentsSoFar id (bodies ++ [b]) = argumentsSoFar id bodies :=
    argumentsSoFar_concat (Body.ne_toolEnd hends id) (hargument id)
  have hcalls (id : String) : callsFrom id (bodies ++ [b]) = callsFrom id bodies := by
    rw [callsFrom_concat, hcall, Option.toList_none, List.append_nil]
  simp only [Account.soFar, hcontent, harguments, hcalls]

theorem soFar_silent (hb : b.Silent) : Account.soFar (bodies ++ [b]) = Account.soFar bodies :=
  soFar_concat hb.call (fun id _ => hb.piece id) (fun id _ => hb.argument id) hb.ends

/-- The messages that are shown once an event has come. -/
def after (app user : String) (said : List (Nat × Body)) (timestamp : Nat) (b : Body) :
    List Message :=
  (openings (said ++ [(timestamp, b)])).map
    (Opening.shown app user (Account.soFar (said.map Prod.snd ++ [b])))

theorem after_kept (h : r.Tells app user said)
    (hopen : opening? (said.map Prod.snd) timestamp b = none)
    (hsame : Account.soFar (said.map Prod.snd ++ [b]) = Account.soFar (said.map Prod.snd)) :
    r.messages = after app user said timestamp b := by
  rw [after, openings_concat, hopen, hsame, Option.toList_none, List.append_nil, h.messages]

theorem after_pushed (h : r.Tells app user said) {m : Message}
    (hopen : opening? (said.map Prod.snd) timestamp b = some o) (hb : b.Silent)
    (hm : o.shown app user (Account.soFar (said.map Prod.snd)) = m) :
    r.messages ++ [m] = after app user said timestamp b := by
  rw [after, openings_concat, hopen, soFar_silent hb, Option.toList_some, List.map_append,
    h.messages, ← hm]
  rfl

/-- A text that ends is given its content. -/
theorem after_textEnd (h : r.Tells app user said) {t : TextState}
    (hknown : r.texts.lookup id = some t) (hgoing : t.ended = false) :
    r.messages.modify t.index (fun m => { m with content := some (.str t.content) })
      = after app user said timestamp (.textEnd id) := by
  obtain ⟨hcontent, role, hat⟩ := h.going id t hknown hgoing
  rw [after, openings_concat, opening?, Option.toList_none, List.append_nil, h.messages]
  have hcalls (key : String) : (Account.soFar (said.map Prod.snd ++ [.textEnd id])).calls key
      = (Account.soFar (said.map Prod.snd)).calls key := by
    simp only [Account.soFar, callsFrom_concat, callFrom?, Option.toList_none, List.append_nil]
    congr 1
    funext call
    refine argumentsSoFar_concat ?_ fun _ => rfl
    intro he
    cases he
  symm
  apply map_eq_modify
  · intro o ho
    rw [hat] at ho
    cases ho
    have hended : (Account.soFar (said.map Prod.snd ++ [.textEnd id])).content id
        = some (.str t.content) := by
      show contentSoFar id _ = _
      rw [contentSoFar, if_pos (List.mem_append_right _ List.mem_cons_self), textOf_concat, hcontent]
      simp [pieceOf?]
    rw [Opening.shown, Opening.shown, hended, hcalls]
  · intro j o hj ho
    refine Opening.shown_congr ?_ fun key _ => hcalls key
    rintro key role' rfl
    -- Another message is not that of the text.
    have hne : key ≠ id := fun he => h.placed.unique hknown hj ho (congrArg some he)
    exact contentSoFar_concat (fun he => hne (Body.textEnd.inj he).symm) fun _ => rfl

/-- What a tool call that starts is told of. -/
theorem calls_toolStart (h : r.Tells app user said) {call : String} (name parent : String)
    (hnew : r.calls.lookup call = none) (key : String) :
    (Account.soFar (said.map Prod.snd ++ [.toolStart call name (some parent)])).calls key
      = (Account.soFar (said.map Prod.snd)).calls key
        ++ if some parent = some key then [ToolCall.ofFunction call name] else [] := by
  have harguments (id : String) :
      argumentsSoFar id (said.map Prod.snd ++ [.toolStart call name (some parent)])
        = argumentsSoFar id (said.map Prod.snd) :=
    argumentsSoFar_concat (Body.ne_toolEnd rfl id) fun _ => rfl
  have hnone : argumentsSoFar call (said.map Prod.snd) = "" := if_neg (h.call_fresh hnew).2
  simp only [Account.soFar, Account.callsWith, harguments, callsFrom_concat, List.map_append]
  congr 1
  rw [callFrom?]
  split
  · rw [Option.toList_some, List.map_singleton, hnone]
    rfl
  · rfl

theorem content_toolStart (call name parent key : String) (bodies : List Body) :
    (Account.soFar (bodies ++ [.toolStart call name (some parent)])).content key
      = (Account.soFar bodies).content key :=
  contentSoFar_concat (Body.ne_textEnd rfl key) fun _ => rfl

/-- A tool call that starts is the last one of the message of its text. -/
theorem after_toolStart (h : r.Tells app user said) {call name parent : String} {t : TextState}
    (hnew : r.calls.lookup call = none) (hknown : r.texts.lookup parent = some t) :
    r.messages.modify t.index
        (fun m => { m with toolCalls := m.toolCalls ++ [ToolCall.ofFunction call name] })
      = after app user said timestamp (.toolStart call name (some parent)) := by
  obtain ⟨o, hat, htext⟩ := h.placed.opening hknown
  rw [after, openings_concat, h.opening?_known hknown, Option.toList_none, List.append_nil,
    h.messages]
  symm
  apply map_eq_modify
  · intro o' ho'
    rw [hat] at ho'
    cases ho'
    refine Opening.shown_calls htext (· ++ [ToolCall.ofFunction call name])
      (content_toolStart call name parent parent _) ?_
    rw [h.calls_toolStart name parent hnew, if_pos rfl]
  · intro j o' hj ho'
    refine Opening.shown_congr (fun key _ _ => content_toolStart call name parent key _) ?_
    intro key hkey
    have hne : some parent ≠ some key :=
      fun he => h.placed.unique hknown hj ho' (hkey.trans he.symm)
    rw [h.calls_toolStart name parent hnew, if_neg hne, List.append_nil]

/-- A tool call from a text that is not known opens a message, which is given the call. -/
theorem after_toolStartAlone (h : r.Tells app user said) {call name parent : String}
    (hnew : r.calls.lookup call = none) (hunknown : r.texts.lookup parent = none) :
    r.messages ++ [{ id := some parent, role := .assistant, name := some app,
                     toolCalls := [ToolCall.ofFunction call name] }]
      = after app user said timestamp (.toolStart call name (some parent)) := by
  rw [after, openings_concat, h.opening?_unknown hunknown, Option.toList_some, List.map_append,
    h.messages]
  congr 1
  · -- No message before is that of the text.
    apply List.map_congr_left
    intro o ho
    symm
    refine Opening.shown_congr (fun key _ _ => content_toolStart call name parent key _) ?_
    intro key hkey
    have hne : some parent ≠ some key := by
      intro he
      obtain ⟨j, hj⟩ := List.mem_iff_getElem?.1 ho
      have hplace := (h.placed parent j).2 (by rw [hj]; exact hkey.trans he.symm)
      rw [textPlace, hunknown] at hplace
      cases hplace
    rw [h.calls_toolStart name parent hnew, if_neg hne, List.append_nil]
  · have hnone : (Account.soFar (said.map Prod.snd)).calls parent = [] := by
      simp only [Account.soFar, (h.text_fresh hunknown).2.1]
      rfl
    rw [List.map_singleton, Opening.shown, h.calls_toolStart name parent hnew, if_pos rfl, hnone]
    rfl

theorem content_toolEnd (id key : String) (bodies : List Body) :
    (Account.soFar (bodies ++ [.toolEnd id])).content key = (Account.soFar bodies).content key := by
  refine contentSoFar_concat ?_ fun _ => rfl
  intro he
  cases he

/-- The arguments of another call stand when a call ends. -/
theorem arguments_toolEnd {call : String} (hne : call ≠ id) :
    argumentsSoFar call (bodies ++ [.toolEnd id]) = argumentsSoFar call bodies :=
  argumentsSoFar_concat (fun he => hne (Body.toolEnd.inj he).symm) fun _ => rfl

theorem callsFrom_toolEnd (id key : String) (bodies : List Body) :
    callsFrom key (bodies ++ [.toolEnd id]) = callsFrom key bodies := by
  rw [callsFrom_concat]
  exact List.append_nil _

/-- What a text from which the call did not start is told of when a call ends. -/
theorem calls_toolEnd_other {key : String} (h : ∀ name, (id, name) ∉ callsFrom key bodies) :
    (Account.soFar (bodies ++ [.toolEnd id])).calls key = (Account.soFar bodies).calls key := by
  simp only [Account.soFar, Account.callsWith, callsFrom_toolEnd]
  apply List.map_congr_left
  rintro ⟨call, name⟩ hmem
  have hne : call ≠ id := by
    rintro rfl
    exact h name hmem
  simp only [arguments_toolEnd hne]

/-- What the text from which the call started is told of when the call ends. -/
theorem calls_toolEnd (h : r.Tells app user said) {c : CallState}
    (hknown : r.calls.lookup id = some c) (hgoing : c.phase = .awaitingArgs) :
    (Account.soFar (said.map Prod.snd ++ [.toolEnd id])).calls c.messageId
      = ((Account.soFar (said.map Prod.snd)).calls c.messageId).modify c.index fun call =>
          { call with function := { call.function with arguments := c.arguments } } := by
  obtain ⟨name, hstart⟩ := h.started.start hknown
  have hgiven : argumentsSoFar id (said.map Prod.snd ++ [.toolEnd id]) = c.arguments := by
    rw [argumentsSoFar, if_pos (List.mem_append_right _ List.mem_cons_self), argumentsOf_concat,
      h.given id c hknown hgoing]
    simp [argumentOf?]
  simp only [Account.soFar, Account.callsWith, callsFrom_toolEnd]
  apply map_eq_modify
  · intro x hx
    rw [hstart] at hx
    cases hx
    simp only [hgiven]
  · rintro j ⟨call, name'⟩ hj hx
    have hne : call ≠ id := by
      rintro rfl
      obtain ⟨c', hl, -, hindex⟩ := h.started.known hx
      rw [hknown] at hl
      cases hl
      exact hj hindex.symm
    simp only [arguments_toolEnd hne]

/-- A tool call that ends is given its arguments. -/
theorem after_toolEnd (h : r.Tells app user said) {c : CallState} {t : TextState}
    (hknown : r.calls.lookup id = some c) (hgoing : c.phase = .awaitingArgs)
    (hparent : r.texts.lookup c.messageId = some t) :
    r.messages.modify t.index
        (fun m =>
          { m with
            toolCalls := m.toolCalls.modify c.index fun call =>
              { call with function := { call.function with arguments := c.arguments } } })
      = after app user said timestamp (.toolEnd id) := by
  obtain ⟨o, hat, htext⟩ := h.placed.opening hparent
  rw [after, openings_concat, opening?, Option.toList_none, List.append_nil, h.messages]
  symm
  apply map_eq_modify
  · intro o' ho'
    rw [hat] at ho'
    cases ho'
    exact Opening.shown_calls htext (List.modify · c.index _) (content_toolEnd id c.messageId _)
      (h.calls_toolEnd hknown hgoing)
  · intro j o' hj ho'
    refine Opening.shown_congr (fun key _ _ => content_toolEnd id key _) ?_
    intro key hkey
    -- The call stands among those from its own text only.
    refine calls_toolEnd_other fun name hmem => ?_
    obtain ⟨i, hi⟩ := List.mem_iff_getElem?.1 hmem
    obtain ⟨c', hl, hid, -⟩ := h.started.known hi
    rw [hknown] at hl
    cases hl
    exact h.placed.unique hparent hj ho' (hkey.trans (congrArg some hid.symm))

theorem messages_step (h : r.Tells app user said) (he : r.Effect timestamp b r') :
    r'.messages = after app user said timestamp b := by
  cases he with
  | textStart hnew hname =>
    obtain ⟨-, hcalls, hend⟩ := h.text_fresh hnew
    refine h.after_pushed rfl ⟨fun _ => rfl, fun _ => rfl, fun _ => rfl, rfl⟩ ?_
    rw [nameFor_eq hname, h.ofApp, h.ofUser, Opening.shown]
    simp only [Account.soFar, contentSoFar, if_neg hend, hcalls]
    rfl
  | textContent hknown hgoing =>
    rename_i id delta t
    refine h.after_kept rfl (soFar_concat (fun _ => rfl) ?_ (fun _ _ => rfl) rfl)
    intro key hend
    refine if_neg ?_
    rintro rfl
    exact h.textEnd_not_mem hknown hgoing hend
  | textEnd hknown hgoing => exact h.after_textEnd hknown hgoing
  | textChunk hnew hname =>
    obtain ⟨-, hcalls, -⟩ := h.text_fresh hnew
    refine h.after_pushed rfl ⟨fun _ => rfl, fun _ => rfl, fun _ => rfl, rfl⟩ ?_
    rw [nameFor_eq hname, h.ofApp, h.ofUser, Opening.shown]
    simp only [Account.soFar, hcalls]
    rfl
  | toolStart hnew hknown => exact h.after_toolStart hnew hknown
  | toolStartAlone hnew hunknown =>
    rename_i call name parent
    have hafter : _ = after app user said timestamp (.toolStart call name (some parent)) :=
      h.after_toolStartAlone hnew hunknown
    rw [← hafter, ← h.ofApp]
    rfl
  | toolArgs hknown hgoing =>
    rename_i id delta c
    refine h.after_kept rfl (soFar_concat (fun _ => rfl) (fun _ _ => rfl) ?_ rfl)
    intro key hend
    refine if_neg ?_
    rintro rfl
    exact h.toolEnd_not_mem hknown hgoing hend
  | toolEnd hknown hgoing hparent => exact h.after_toolEnd hknown hgoing hparent
  | toolResult hknown hgoing =>
    exact h.after_pushed rfl ⟨fun _ => rfl, fun _ => rfl, fun _ => rfl, rfl⟩ rfl
  | turn hdecoded huser =>
    rename_i value m
    refine h.after_pushed (opening?_turn hdecoded _)
      ⟨fun _ => rfl, fun _ => rfl, fun _ => rfl, rfl⟩ ?_
    rw [h.ofUser]
    exact (m.withFallbackName_eq user).symm
  | activity hshown hother =>
    exact h.after_pushed (opening?_activity hshown hother _) (silent_of (.inr ⟨_, hshown⟩)) rfl
  | run hsilent =>
    exact h.after_kept (opening?_run hsilent _) (soFar_silent (silent_of (.inl hsilent)))

/-- No event changes whose conversation it is. -/
theorem owner_step (h : r.Tells app user said) (he : r.Effect timestamp b r') :
    r'.app = app ∧ r'.user = user := by
  cases he <;> exact ⟨h.ofApp, h.ofUser⟩

/-- **A replay goes on to show what was said** with every event that it accepts. -/
theorem event (h : r.Tells app user said) (hb : r.event timestamp b = .ok r') :
    r'.Tells app user (said ++ [(timestamp, b)]) := by
  have heffect : r.Effect timestamp b r' := event_effect hb
  have houtcome := event_outcome h.traced.tidy timestamp b
  rw [hb] at houtcome
  obtain ⟨haccepts, hbecomes⟩ := houtcome
  constructor
  · exact (h.owner_step heffect).1
  · exact (h.owner_step heffect).2
  · rw [bodies_concat]
    exact h.traced.next haccepts hbecomes
  · exact h.placed_step heffect
  · rw [bodies_concat]
    exact h.started_step heffect
  · rw [bodies_concat]
    exact h.going_step heffect
  · rw [bodies_concat]
    exact h.given_step heffect
  · rw [bodies_concat]
    exact h.messages_step heffect

/-- An entry that is accepted says its event, if it says one. -/
theorem step {e : Entry} (h : r.Tells app user said) (hs : r.step e = .ok r') :
    r'.Tells app user (said ++ e.said?.toList) := by
  unfold Replay.step at hs
  by_cases hempty : e.payload.isEmpty = true
  · rw [if_pos hempty] at hs
    cases hs
    rw [Entry.said?, Entry.body?, if_pos hempty, Option.map_none, Option.toList_none,
      List.append_nil]
    exact h
  · rw [if_neg hempty] at hs
    cases hread : e.event with
    | error error =>
      rw [hread] at hs
      cases hs
    | ok event =>
      rw [hread] at hs
      rw [Entry.said?, Entry.body?, if_neg hempty, hread]
      exact h.event hs

/-- **A replay of a log shows what its entries say**, up to the first failure. -/
theorem steps (h : r.Tells app user said) (log : List Entry) :
    ∃ front behind, log = front ++ behind ∧
      (r.steps log).1.Tells app user (said ++ front.filterMap Entry.said?) ∧
      ((r.steps log).2 = none → behind = []) := by
  induction log generalizing r said with
  | nil =>
    refine ⟨[], [], rfl, ?_, fun _ => rfl⟩
    rw [List.filterMap_nil, List.append_nil]
    exact h
  | cons e log ih =>
    rw [Replay.steps]
    cases hs : r.step e with
    | error error =>
      refine ⟨[], e :: log, rfl, ?_, ?_⟩
      · rw [List.filterMap_nil, List.append_nil]
        exact h
      · intro hnone
        cases hnone
    | ok r' =>
      obtain ⟨front, behind, rfl, htells, hbehind⟩ := ih (h.step hs)
      refine ⟨e :: front, behind, rfl, ?_, hbehind⟩
      have hsplit : (e :: front).filterMap Entry.said?
          = e.said?.toList ++ front.filterMap Entry.said? := by
        rw [List.filterMap_cons]
        cases e.said? <;> rfl
      rw [hsplit, ← List.append_assoc]
      exact htells

end Tells

end Replay

/-! ## Logs without a failure -/

/-- A text that starts in well-framed events ends in them. -/
theorem Body.WellFramed.textEnd_mem (hw : Body.WellFramed bodies) {role : Role}
    (hs : textStart id role ∈ bodies) : textEnd id ∈ bodies := by
  have hstart : textStart id role ∈ textEvents id bodies := mem_textEvents hs rfl
  have hend : textEnd id ∈ textEvents id bodies := by
    have hshape := hw.text id
    generalize textEvents id bodies = events at hshape hstart
    cases hshape with
    | absent => exact absurd hstart List.not_mem_nil
    | streamed deltas named speaks => simp
    | whole delta named speaks => cases List.mem_singleton.1 hstart
  exact List.mem_of_mem_filter hend

/-- A tool call that starts in well-framed events ends in them. -/
theorem Body.WellFramed.toolEnd_mem (hw : Body.WellFramed bodies) {name : String}
    {parent : Option String} (hs : toolStart id name parent ∈ bodies) : toolEnd id ∈ bodies := by
  have hstart : toolStart id name parent ∈ callEvents id bodies := mem_callEvents hs rfl
  have hend : toolEnd id ∈ callEvents id bodies := by
    have hshape := hw.call id
    generalize callEvents id bodies = events at hshape hstart
    cases hshape with
    | absent => exact absurd hstart List.not_mem_nil
    | whole deltas named answered => simp
  exact List.mem_of_mem_filter hend

/-- A tool call from a text was started. -/
theorem toolStart_of_callsFrom {parent call name : String}
    (h : (call, name) ∈ callsFrom parent bodies) :
    toolStart call name (some parent) ∈ bodies := by
  obtain ⟨b, hb, hcall⟩ := List.mem_filterMap.1 h
  cases b with
  | toolStart call' name' parent' =>
    rw [callFrom?] at hcall
    split at hcall
    · rename_i hparent
      cases hcall
      rw [← hparent]
      exact hb
    · cases hcall
  | _ => cases hcall

/-- Nothing is left untold of well-framed events. -/
theorem shown_full (hw : Body.WellFramed (said.map Prod.snd)) (ho : o ∈ openings said) :
    o.shown app user (Account.soFar (said.map Prod.snd))
      = o.shown app user (Account.full (said.map Prod.snd)) := by
  symm
  apply Opening.shown_congr
  · rintro id role rfl
    exact (if_pos (hw.textEnd_mem (textStart_of_opening ho))).symm
  · intro id _
    simp only [Account.soFar, Account.full, Account.callsWith]
    apply List.map_congr_left
    rintro ⟨call, name⟩ hmem
    rw [argumentsSoFar, if_pos (hw.toolEnd_mem (toolStart_of_callsFrom hmem))]

theorem bodies_said (log : List Entry) :
    (log.filterMap Entry.said?).map Prod.snd = log.filterMap Entry.body? := by
  rw [List.map_filterMap]
  congr 1
  funext e
  rw [Entry.said?, Option.map_map]
  exact Option.map_id'

/-- **The messages of a log.**  A log that is replayed without a failure is shown as one message for
each event that opens one, in order, with all that the log tells of its text and tool calls. -/
theorem replay_messages_eq {log : List Entry} (h : (replay app user log).error = none) :
    (replay app user log).messages =
      (openings (log.filterMap Entry.said?)).map
        (Opening.shown app user (Account.full (log.filterMap Entry.body?))) := by
  obtain ⟨front, behind, hlog, htells, hbehind⟩ := (Replay.tells_nil app user).steps log
  have hended : (({ app, user } : Replay).steps log).2 = none ∧
      (({ app, user } : Replay).steps log).1.unfinished = none := by
    unfold replay at h
    split at h
    · cases h
    · rename_i r heq
      rw [heq]
      exact ⟨rfl, h⟩
  rw [hbehind hended.1, List.append_nil] at hlog
  rw [← hlog, List.nil_append] at htells
  have hframed : Body.WellFramed ((log.filterMap Entry.said?).map Prod.snd) :=
    htells.traced.unfinished_iff.1 hended.2
  rw [replay_messages, htells.messages, ← bodies_said]
  apply List.map_congr_left
  intro o ho
  exact shown_full hframed ho

/-! ## Logs of frames -/

/-- A log of events without optional parts. -/
def recorded (said : List (Nat × Body)) : List Entry := said.map fun x => .ofEvent x.1 (x.2 : Event)

/-- A log of frames says what was recorded. -/
theorem said_recorded (hs : ∀ x ∈ said, x.2.isFrame = true) :
    (recorded said).filterMap Entry.said? = said := by
  induction said with
  | nil => rfl
  | cons x said ih =>
    obtain ⟨hx, hsaid⟩ := List.forall_mem_cons.1 hs
    have hfirst : (Entry.ofEvent x.1 (x.2 : Event)).said? = some x := by
      rw [Entry.said?, Entry.body?, Entry.event]
      simp only [Entry.ofEvent, Event.encode_ne_nil, Event.ofBytes_frame hx]
      rfl
    rw [recorded, List.map_cons, List.filterMap_cons_some hfirst]
    exact congrArg (x :: ·) (ih hsaid)

/-- A frame at the front of a log that is accepted. -/
theorem Replay.steps_frame (hb : b.isFrame = true) (he : r.event timestamp b = .ok r')
    {log : List Entry} : r.steps (.ofEvent timestamp b :: log) = r'.steps log := by
  have hstep : r.step (.ofEvent timestamp b) = .ok r' := (Replay.step_frame hb rfl).trans he
  rw [Replay.steps, hstep]

/-- Pieces of a text between those of a tool call from a text of which nothing is said. -/
def interleaved : List (Nat × Body) :=
  [(1, .textStart "a" .assistant), (2, .toolStart "c" "find" (some "b")), (3, .textContent "a" "x"),
    (4, .toolArgs "c" "1"), (5, .textContent "a" "y"), (6, .toolEnd "c"), (7, .textEnd "a"),
    (8, .toolResult "r" "c" "out" none)]

/-- Two events that are shown as activities. -/
def asides : List (Nat × Body) :=
  [(9, .stepStarted "plan"), (10, .custom "note" (.bool true))]

theorem replay_messages_interleaved :
    (replay "app" "ann" (recorded (interleaved ++ asides))).error = none ∧
      (replay "app" "ann" (recorded (interleaved ++ asides))).messages =
        [ { id := some "a", role := .assistant, name := some "app", content := some (.str "xy") },
          { id := some "b", role := .assistant, name := some "app",
            toolCalls := [⟨"c", "function", ⟨"find", "1"⟩⟩] },
          { id := some "r", role := .tool, content := some (.str "out"), toolCallId := some "c" },
          { id := some "activity-9", role := .activity, activityType := some "STEP_STARTED",
            content := some (.obj [("stepName", .str "plan")]) },
          { id := some "activity-10", role := .activity, activityType := some "CUSTOM",
            content := some (.obj [("name", .str "note"), ("value", .bool true)]) } ] := by
  have herror : (replay "app" "ann" (recorded (interleaved ++ asides))).error = none := by
    decide +kernel
  have hsaid : (recorded (interleaved ++ asides)).filterMap Entry.said? = interleaved ++ asides := by
    decide +kernel
  refine ⟨herror, (replay_messages_eq herror).trans ?_⟩
  rw [← bodies_said, hsaid]
  decide

end AgentStream
