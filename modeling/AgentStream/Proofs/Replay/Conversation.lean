/-
# Replays of conversations

The record of a conversation is the start of a run, the note of a user's turn, the frames of the
assistant's messages and the end of the run.  Whenever its entries were stamped, it is replayed as
the user's turn and the assistant's messages.

* `Replay.Leads` : what a replay comes to by events, whenever they were recorded;
* `Replay.leads_frame` : the frame of a message;
* `Replay.leads_note` : the note of a user's turn;
* `conversation`, `Replay.leads_conversation` : the record of a conversation.
-/
import AgentStream.Proofs.Event.Notes
import AgentStream.Proofs.Framing.Answers
import AgentStream.Proofs.Replay.Merging

namespace AgentStream

namespace Replay

variable {r r' r'' : Replay} {events events' : List Event} {id : String}

/-! ## Replays of events at any times -/

/-- A replay comes from one state to another by events, whenever they were recorded. -/
def Leads (r r' : Replay) (events : List Event) : Prop :=
  ∀ timed : List (Nat × Event), timed.map Prod.snd = events → r.steps (entries timed) = (r', none)

theorem leads_nil (r : Replay) : Leads r r [] := by
  intro timed h
  rw [List.map_eq_nil_iff.1 h]
  rfl

theorem Leads.append (h : Leads r r' events) (h' : Leads r' r'' events') :
    Leads r r'' (events ++ events') := by
  intro timed ht
  obtain ⟨xs, ys, rfl, hx, hy⟩ := List.map_eq_append_iff.1 ht
  have hentries : entries (xs ++ ys) = entries xs ++ entries ys := List.map_append
  rw [hentries, steps_append, h xs hx]
  exact h' ys hy

/-- An event that is read back and says the same at every time. -/
theorem leads_single {e : Event} (hread : e.ReadBack)
    (he : ∀ timestamp, r.event timestamp e.body = .ok r') : Leads r r' [e] := by
  intro timed ht
  obtain ⟨x, rest, rfl, rfl, hrest⟩ := List.map_eq_cons_iff.1 ht
  have hentries : entries [x] = [.ofEvent x.1 x.2] := rfl
  rw [List.map_eq_nil_iff.1 hrest, hentries, steps, step_readBack hread, he]
  rfl

/-! ## Frames of messages -/

theorem update_of_lookup {α : Type} {id : String} (f : α → α) {table : List (String × α)}
    (h : table.lookup id = none) : update id f table = table := by
  induction table with
  | nil => rfl
  | cons x table ih =>
    rw [lookup_cons_ite] at h
    by_cases hx : id = x.1
    · rw [if_pos hx] at h
      exact nomatch h
    · rw [if_neg hx] at h
      rw [update_cons, if_neg fun he => hx he.symm, ih h]

/-- A change to what is known last. -/
theorem update_last {α : Type} {id : String} (f : α → α) {table : List (String × α)}
    (h : table.lookup id = none) (a : α) :
    update id f (table ++ [(id, a)]) = table ++ [(id, f a)] := by
  have happend : update id f (table ++ [(id, a)])
      = update id f table ++ update id f [(id, a)] := List.map_append
  rw [happend, update_of_lookup f h, update_cons, if_pos rfl]
  rfl

theorem lookup_last {α : Type} {id : String} {table : List (String × α)}
    (h : table.lookup id = none) (a : α) : (table ++ [(id, a)]).lookup id = some a :=
  (lookup_concat h a id).trans (if_pos rfl)

theorem modify_last {α : Type} (f : α → α) (xs : List α) (a : α) :
    (xs ++ [a]).modify xs.length f = xs ++ [f a] := by
  simp [List.modify_eq_take_cons_drop]

/-- A piece of the text that was started last. -/
theorem textContent_last (h : r.texts.lookup id = none) (m : Message) (content delta : String) :
    (r.pushText id m content false).textContent id delta
      = .ok (r.pushText id m (content ++ delta) false) := by
  simp only [textContent, pushText, lookup_last h, Bool.false_eq_true, if_false, update_last _ h]

/-- The end of the text that was started last. -/
theorem textEnd_last (h : r.texts.lookup id = none) (m : Message) (content : String) :
    (r.pushText id m content false).textEnd id
      = .ok (r.pushText id { m with content := some (.str content) } content true) := by
  simp only [textEnd, pushText, lookup_last h, Bool.false_eq_true, if_false, update_last _ h,
    setMessage, modify_last]

/-- A message of the assistant, named after the app. -/
def spoken (app id text : String) : Message :=
  { id := some id, role := .assistant, name := some app, content := some (.str text) }

/-- Pieces of the text that was started last. -/
theorem leads_pieces (h : r.texts.lookup id = none) (m : Message) (content : String)
    (deltas : List String) :
    Leads (r.pushText id m content false) (r.pushText id m (content ++ String.join deltas) false)
      (deltas.flatMap (piece id)) := by
  induction deltas generalizing content with
  | nil =>
    rw [String.join_nil, String.append_empty]
    exact leads_nil _
  | cons delta deltas ih =>
    rw [List.flatMap_cons, String.join_cons, ← String.append_assoc]
    refine Leads.append ?_ (ih (content ++ delta))
    rw [piece]
    by_cases hd : delta.isEmpty = true
    · rw [if_pos hd, String.isEmpty_iff.1 hd, String.append_empty]
      exact leads_nil _
    · rw [if_neg hd]
      exact leads_single (Event.ofBytes_frame rfl) fun _ => textContent_last h m content delta

/-- **The frame of a message** is replayed as the message. -/
theorem leads_frame (hid : id ≠ "") (h : r.texts.lookup id = none) (deltas : List String) :
    Leads r (r.pushText id (spoken r.app id (String.join deltas)) (String.join deltas) true)
      (frame id deltas) := by
  let m : Message := { id := some id, role := .assistant, name := some r.app }
  have hstart (timestamp : Nat) : r.event timestamp (.textStart id .assistant)
      = .ok (r.pushText id m "" false) := by
    have hempty : ¬id.isEmpty = true := by simpa using hid
    show r.textStart id .assistant = _
    rw [textStart, if_neg hempty, h]
    rfl
  have hpieces := leads_pieces h m "" deltas
  rw [String.empty_append] at hpieces
  have hend (timestamp : Nat) :
      (r.pushText id m (String.join deltas) false).event timestamp (.textEnd id)
        = .ok (r.pushText id (spoken r.app id (String.join deltas)) (String.join deltas) true) :=
    textEnd_last h m (String.join deltas)
  have hfirst : Leads r (r.pushText id m "" false) [(Body.textStart id .assistant : Event)] :=
    leads_single (Event.ofBytes_frame rfl) hstart
  exact (hfirst.append hpieces).append (leads_single (Event.ofBytes_frame rfl) hend)

/-! ## Turns and answers -/

/-- A message that is named keeps its name. -/
theorem withFallbackName_twice (m : Message) {name : String} (h : name ≠ "") (name' : String) :
    (m.withFallbackName name).withFallbackName name' = m.withFallbackName name := by
  unfold Message.withFallbackName
  by_cases hm : (m.name.getD "").isEmpty = true
  · have hname : ¬((some name).getD "").isEmpty = true := by simpa using h
    rw [if_pos hm]
    exact if_neg hname
  · rw [if_neg hm, if_neg hm]

/-- **The note of a user's turn** is replayed as the turn. -/
theorem leads_note {m : Message} (hrole : m.role = .user)
    (hc : ∀ c ∈ m.content, c.Sorted ∧ c ≠ .null ∧ c.integral = true)
    (hd : m.note.toJson.depth ≤ Doc.nestingLimit) :
    Leads r (r.push (m.withFallbackName r.user)) [m.note] := by
  refine leads_single (Event.ofBytes_note (fun c h => (hc c h).2.2) hd) fun timestamp => ?_
  show r.userMessage m.toJson.sorted = _
  rw [userMessage, Message.decode_sorted fun c h => ⟨(hc c h).1, (hc c h).2.1⟩]
  simp only [hrole, ne_eq, not_true_eq_false, if_false]

/-- What is known behind messages that have ended. -/
structure Settled (r : Replay) (app : String) (ids : List String) (messages : List Message) :
    Prop where
  app : r.app = app
  calls : r.calls = []
  ids : r.texts.map Prod.fst = ids
  ended : ∀ x ∈ r.texts, x.2.ended = true
  messages : r.messages = messages

variable {app : String} {ids : List String} {messages : List Message}

/-- A message that has ended. -/
theorem Settled.pushText (h : Settled r app ids messages) (id text : String) :
    Settled (r.pushText id (spoken app id text) text true) app (ids ++ [id])
      (messages ++ [spoken app id text]) where
  app := h.app
  calls := h.calls
  ids := by
    rw [← h.ids]
    exact List.map_append
  ended x hx := by
    rcases List.mem_append.1 hx with hx | hx
    · exact h.ended x hx
    · rw [List.mem_singleton.1 hx]
  messages := congrArg (· ++ _) h.messages

/-- Nothing is left open. -/
theorem Settled.unfinished (h : Settled r app ids messages) : r.unfinished = none := by
  rw [Replay.unfinished, List.find?_eq_none.2, h.calls]
  · rfl
  · intro x hx
    simp [h.ended x hx]

/-- The frames of messages are replayed as the messages. -/
theorem leads_frames {said : List (String × List String)} (h : Settled r app ids messages)
    (hids : (ids ++ said.map Prod.fst).Nodup) (hne : ∀ x ∈ said, x.1 ≠ "") :
    ∃ r', Leads r r' (frames said) ∧
      Settled r' app (ids ++ said.map Prod.fst)
        (messages ++ said.map fun x => spoken app x.1 (String.join x.2)) := by
  induction said generalizing r ids messages with
  | nil =>
    refine ⟨r, leads_nil r, ?_⟩
    rw [List.map_nil, List.map_nil, List.append_nil, List.append_nil]
    exact h
  | cons x said ih =>
    obtain ⟨hx, hrest⟩ := List.forall_mem_cons.1 hne
    rw [List.map_cons, List.append_cons] at hids
    have hnew : r.texts.lookup x.1 = none := by
      refine List.lookup_eq_none_iff.2 fun y hy => ?_
      have hmem : y.1 ∈ ids := h.ids ▸ List.mem_map_of_mem hy
      have hnodup := (List.nodup_append.1 hids).1
      have hne : y.1 ≠ x.1 := fun he =>
        (List.nodup_append.1 hnodup).2.2 y.1 hmem x.1 List.mem_cons_self he
      simpa using hne.symm
    obtain ⟨r', hleads, hsettled⟩ := ih (h.pushText x.1 (String.join x.2)) hids hrest
    have hfirst := leads_frame hx hnew x.2
    rw [h.app] at hfirst
    refine ⟨r', hfirst.append hleads, ?_⟩
    rw [List.map_cons, List.map_cons, List.append_cons ids, List.append_cons messages]
    exact hsettled

end Replay

/-- The record of a conversation. -/
def conversation (threadId runId : String) (note : Event) (said : List (String × List String)) :
    List Event :=
  Event.runStarted threadId runId :: note :: (frames said ++ [Event.runFinished threadId runId])

namespace Replay

theorem mem_frame {id : String} {deltas : List String} {e : Event} (h : e ∈ frame id deltas) :
    e.isTerminal = false ∧ e.ReadBack := by
  have hframe {b : Body} (hb : b.isFrame = true) (ht : b.isTerminal = false) :
      (b : Event).isTerminal = false ∧ (b : Event).ReadBack := ⟨ht, Event.ofBytes_frame hb⟩
  simp only [frame, List.mem_append, List.mem_cons, List.mem_flatMap, List.not_mem_nil,
    or_false] at h
  rcases h with (rfl | ⟨delta, -, hpiece⟩) | rfl
  · exact hframe rfl rfl
  · rw [piece] at hpiece
    split at hpiece
    · exact absurd hpiece List.not_mem_nil
    · rw [List.mem_singleton.1 hpiece]
      exact hframe rfl rfl
  · exact hframe rfl rfl

theorem isTerminal_frames {said : List (String × List String)} :
    ∀ e ∈ frames said, e.isTerminal = false := by
  intro e he
  obtain ⟨x, -, hx⟩ := List.mem_flatMap.1 he
  exact (mem_frame hx).1

/-- What is recorded of a conversation is read back. -/
theorem readBack_conversation {note : Event} (hnote : note.ReadBack)
    (said : List (String × List String)) (threadId runId : String) :
    ∀ e ∈ conversation threadId runId note said, e.ReadBack := by
  intro e he
  simp only [conversation, frames, List.mem_cons, List.mem_append, List.mem_flatMap,
    List.not_mem_nil, or_false] at he
  rcases he with rfl | rfl | ⟨x, -, hx⟩ | rfl
  · exact Event.ofBytes_runStarted threadId runId
  · exact hnote
  · exact (mem_frame hx).2
  · exact Event.ofBytes_runFinished threadId runId

/-- **The record of a conversation** is replayed as the turn of the user and the messages of the
assistant, and nothing is left open. -/
theorem leads_conversation (app : String) {user : String} (huser : user ≠ "") {m : Message}
    (hrole : m.role = .user) (hc : ∀ c ∈ m.content, c.Sorted ∧ c ≠ .null ∧ c.integral = true)
    (hd : (m.withFallbackName user).note.toJson.depth ≤ Doc.nestingLimit)
    {said : List (String × List String)} (hids : (said.map Prod.fst).Nodup)
    (hne : ∀ x ∈ said, x.1 ≠ "") (threadId runId : String) :
    ∃ r', Leads { app, user } r'
        (conversation threadId runId (m.withFallbackName user).note said) ∧
      r'.messages = m.withFallbackName user
        :: said.map (fun x => spoken app x.1 (String.join x.2)) ∧
      r'.unfinished = none := by
  let r : Replay := { app, user }
  let turn := m.withFallbackName user
  have hstart : Leads r r [Event.runStarted threadId runId] :=
    leads_single (Event.ofBytes_runStarted threadId runId) fun _ => rfl
  have hnote : Leads r (r.push turn) [turn.note] := by
    have hleads : Leads r (r.push (turn.withFallbackName user)) [turn.note] :=
      leads_note ((m.role_withFallbackName user).trans hrole)
        (m.content_withFallbackName user ▸ hc) hd
    rw [withFallbackName_twice m huser] at hleads
    exact hleads
  have hsettled : Settled (r.push turn) app [] [turn] := ⟨rfl, rfl, rfl, nofun, rfl⟩
  obtain ⟨r', hframes, hr'⟩ := leads_frames hsettled hids hne
  have hend : Leads r' r' [Event.runFinished threadId runId] :=
    leads_single (Event.ofBytes_runFinished threadId runId) fun _ => rfl
  exact ⟨r', hstart.append (hnote.append (hframes.append hend)), hr'.messages, hr'.unfinished⟩

end Replay

end AgentStream
