/-
# Messages that stand

A replay adds messages behind the others, and changes a message only to give a text its content or
its tool calls.  So messages that stand before all texts are never touched, whatever is replayed and
whether or not that fails; and the turn of a user that is noted first is shown first.

* `Replay.Stands` : messages that stand before all texts;
* `Replay.event_stands`, `Replay.steps_stands` : they stand behind an event and behind a log;
* `joins_cons` : what is no piece stays in front of what is merged;
* `replay_noted` : a log that begins with the note of a user's turn.
-/
import AgentStream.Proofs.Replay.Conversation

namespace AgentStream

namespace Replay

/-- Messages stand in front, before all texts. -/
structure Stands (front : List Message) (r : Replay) : Prop where
  messages : front <+: r.messages
  texts : ∀ x ∈ r.texts, front.length ≤ x.2.index

variable {r r' : Replay} {front : List Message}

/-- A change behind the front. -/
theorem modify_prefix {l : List Message} (h : front <+: l) {i : Nat} (hi : front.length ≤ i)
    (f : Message → Message) : front <+: l.modify i f := by
  rw [List.prefix_iff_eq_take] at h ⊢
  rw [List.take_modify, ← h, List.modify_eq_self hi]

/-! ## Changes of a replay -/

namespace Stands

theorem push (h : Stands front r) (m : Message) : Stands front (r.push m) where
  messages := h.messages.trans (List.prefix_append _ _)
  texts := h.texts

theorem pushText (h : Stands front r) (id : String) (m : Message) (content : String)
    (ended : Bool) : Stands front (r.pushText id m content ended) where
  messages := h.messages.trans (List.prefix_append _ _)
  texts := List.forall_mem_append.2 ⟨h.texts, List.forall_mem_singleton.2 h.messages.length_le⟩

theorem setMessage (h : Stands front r) {i : Nat} (hi : front.length ≤ i) (f : Message → Message) :
    Stands front (r.setMessage i f) where
  messages := modify_prefix h.messages hi f
  texts := h.texts

/-- A text that changes stays in its place. -/
theorem updateText (h : Stands front r) (id : String) {f : TextState → TextState}
    (hf : ∀ t, (f t).index = t.index) :
    Stands front { r with texts := update id f r.texts } where
  messages := h.messages
  texts x hx := by
    obtain ⟨y, hy, rfl⟩ := List.mem_map.1 hx
    have hindex := h.texts y hy
    simp only
    split
    · exact (hf y.2).symm ▸ hindex
    · exact hindex

theorem updateCalls (h : Stands front r) (calls : List (String × CallState)) :
    Stands front { r with calls } := ⟨h.messages, h.texts⟩

theorem lookup (h : Stands front r) {id : String} {t : TextState}
    (ht : r.texts.lookup id = some t) : front.length ≤ t.index :=
  h.texts (id, t) (mem_of_lookup ht)

end Stands

/-! ## Events -/

/-- A step leaves the front standing, unless it fails. -/
abbrev Leaves (front : List Message) (x : Except ReplayError Replay) : Prop :=
  Gives (fun _ => True) (Stands front) x

namespace Stands

theorem textStart (h : Stands front r) (id : String) (role : Role) :
    Leaves front (r.textStart id role) := by
  unfold Replay.textStart
  split
  · trivial
  · split
    · trivial
    · cases r.nameFor role with
      | error error => trivial
      | ok name => exact h.pushText _ _ _ _

theorem textContent (h : Stands front r) (id delta : String) :
    Leaves front (r.textContent id delta) := by
  unfold Replay.textContent
  split
  · trivial
  · split
    · trivial
    · exact h.updateText id fun _ => rfl

theorem textEnd (h : Stands front r) (id : String) : Leaves front (r.textEnd id) := by
  unfold Replay.textEnd
  split
  · trivial
  · rename_i t ht
    split
    · trivial
    · have hended : Stands front
          { r with texts := update id (fun t => { t with ended := true }) r.texts } :=
        h.updateText id fun _ => rfl
      exact hended.setMessage (h.lookup ht) _

theorem textChunk (h : Stands front r) (id : Option String) (role : Option Role)
    (delta : Option String) : Leaves front (r.textChunk id role delta) := by
  unfold Replay.textChunk
  simp only
  split
  · trivial
  · split
    · trivial
    · cases r.nameFor (role.getD .assistant) with
      | error error => trivial
      | ok name => exact h.pushText _ _ _ _

/-- A tool call goes to the message of a text, which is added if it is not known. -/
theorem toolStart (h : Stands front r) (id name : String) (parent : Option String) :
    Leaves front (r.toolStart id name parent) := by
  unfold Replay.toolStart
  split
  · trivial
  · split
    · trivial
    · cases parent with
      | none => trivial
      | some parent =>
        simp only
        -- The parent is known then in either case, and so has a message to give the call to.
        generalize hr' : (if (r.texts.lookup parent).isSome then r
          else r.pushText parent { id := some parent, role := .assistant, name := some r.app } ""
            true) = r'
        have hstands : Stands front r' := by
          rw [← hr']
          split
          · exact h
          · exact h.pushText _ _ _ _
        obtain ⟨t, ht⟩ : ∃ t, r'.texts.lookup parent = some t := by
          rw [← hr']
          split
          · exact Option.isSome_iff_exists.1 ‹_›
          · exact ⟨_, lookup_last (Option.not_isSome_iff_eq_none.1 ‹_›) _⟩
        rw [ht]
        exact (hstands.setMessage (hstands.lookup ht) _).updateCalls _

theorem toolArgs (h : Stands front r) (id delta : String) : Leaves front (r.toolArgs id delta) := by
  unfold Replay.toolArgs
  split
  · trivial
  · split
    · trivial
    · exact h.updateCalls _

theorem toolEnd (h : Stands front r) (id : String) : Leaves front (r.toolEnd id) := by
  unfold Replay.toolEnd
  split
  · trivial
  · split
    · trivial
    · split
      · trivial
      · rename_i t ht
        exact (h.setMessage (h.lookup ht) _).updateCalls _

theorem toolResult (h : Stands front r) (messageId callId content : String) (role : Option Role) :
    Leaves front (r.toolResult messageId callId content role) := by
  unfold Replay.toolResult
  split
  · trivial
  · split
    · trivial
    · split
      · trivial
      · exact (h.updateCalls _).push _

theorem userMessage (h : Stands front r) (value : Json) : Leaves front (r.userMessage value) := by
  unfold Replay.userMessage
  split
  · trivial
  · split
    · trivial
    · exact h.push _

theorem activity (h : Stands front r) (b : Body) (timestamp : Nat) :
    Stands front (r.activity b timestamp) := by
  unfold Replay.activity
  split
  · exact h.push _
  · exact h

/-- **No event touches the messages that stand before all texts.** -/
theorem event (h : Stands front r) (timestamp : Nat) (b : Body) :
    Leaves front (r.event timestamp b) := by
  cases b with
  | textStart id role => exact h.textStart id role
  | textContent id delta => exact h.textContent id delta
  | textEnd id => exact h.textEnd id
  | textChunk id role delta => exact h.textChunk id role delta
  | toolStart id name parent => exact h.toolStart id name parent
  | toolArgs id delta => exact h.toolArgs id delta
  | toolEnd id => exact h.toolEnd id
  | toolResult messageId callId content role => exact h.toolResult messageId callId content role
  | custom name value =>
    unfold Replay.event
    simp only
    split
    · exact h.userMessage value
    · exact h.activity _ timestamp
  | runStarted => exact h
  | runFinished => exact h
  | runError => exact h
  | _ => exact h.activity _ timestamp

theorem step (h : Stands front r) (e : Entry) : Leaves front (r.step e) := by
  unfold Replay.step
  split
  · exact h
  · split
    · trivial
    · exact h.event e.timestamp _

/-- **Nor does a log**, whether or not its replay fails. -/
theorem steps (h : Stands front r) (log : List Entry) : Stands front (r.steps log).1 := by
  induction log generalizing r with
  | nil => exact h
  | cons e log ih =>
    have hstep := h.step e
    rw [Replay.steps]
    cases hs : r.step e with
    | error error => exact h
    | ok r' =>
      rw [hs] at hstep
      exact ih hstep

end Stands

/-- Behind events at any times a log is replayed from where they lead. -/
theorem Leads.steps {events : List Event} (h : Leads r r' events) {timed : List (Nat × Event)}
    (ht : timed.map Prod.snd = events) (rest : List Entry) :
    r.steps (entries timed ++ rest) = r'.steps rest := by
  rw [steps_append, h timed ht]

end Replay

/-! ## What stays in front of a log -/

/-- What is no piece stays in front of what is merged. -/
theorem joins_cons {e : Event} {events stored : List Event}
    (h : Joins Merger.merge? (e :: events) stored) (he : ∀ id text, e.body ≠ .textContent id text) :
    ∃ rest, stored = e :: rest ∧ Joins Merger.merge? events rest := by
  induction h with
  | refl => exact ⟨events, rfl, Joins.refl events⟩
  | tail _ hstep ih =>
    obtain ⟨rest, rfl, hrest⟩ := ih
    generalize hall : e :: rest = all at hstep
    cases hstep with
    | @mk before after a b c hmerge =>
      cases before with
      | nil =>
        obtain ⟨id, text, more, ha, -, -⟩ := merge?_eq_some hmerge
        exact absurd ((List.cons.inj hall).1 ▸ ha) (he id text)
      | cons a' before =>
        obtain ⟨rfl, rfl⟩ := List.cons.inj hall
        exact ⟨before ++ c :: after, rfl, hrest.trans (.single (.mk before after hmerge))⟩

theorem replay_messages (app user : String) (log : List Entry) :
    (replay app user log).messages = (({ app, user } : Replay).steps log).1.messages := by
  unfold replay
  split <;> rename_i h <;> rw [h]

/-- **The turn of a user that is noted first is shown first**, whatever is replayed behind it and
whether or not that fails. -/
theorem replay_noted {m : Message} (hrole : m.role = .user)
    (hc : ∀ c ∈ m.content, c.Sorted ∧ c ≠ .null ∧ c.integral = true)
    (hd : m.note.toJson.depth ≤ Doc.nestingLimit) {threadId runId : String}
    {events stored : List Event} {log : List Entry} (hl : Holds log stored)
    (hj : Joins Merger.merge? (Event.runStarted threadId runId :: m.note :: events) stored)
    (app user : String) :
    (replay app user log).messages.head? = some (m.withFallbackName user) := by
  obtain ⟨stored₁, rfl, hj₁⟩ := joins_cons hj fun _ _ h => by cases h
  obtain ⟨stored₂, rfl, -⟩ := joins_cons hj₁ fun _ _ h => by cases h
  obtain ⟨timed, hmap, rfl⟩ := Replay.entries_of_holds hl
  have hparts : timed.map Prod.snd = [Event.runStarted threadId runId, m.note] ++ stored₂ := hmap
  obtain ⟨xs, ys, rfl, hx, -⟩ := List.map_eq_append_iff.1 hparts
  let r : Replay := { app, user }
  have hstart : Replay.Leads r r [Event.runStarted threadId runId] :=
    Replay.leads_single (Event.ofBytes_runStarted threadId runId) fun _ => rfl
  have hnoted : Replay.Leads r (r.push (m.withFallbackName user))
      [Event.runStarted threadId runId, m.note] := hstart.append (Replay.leads_note hrole hc hd)
  -- There are no texts yet, so from here on the turn stands before all of them.
  have hstands : Replay.Stands [m.withFallbackName user] (r.push (m.withFallbackName user)) :=
    ⟨List.prefix_refl _, List.forall_mem_nil _⟩
  have hsteps := hnoted.steps hx (entries ys)
  have hentries : entries (xs ++ ys) = entries xs ++ entries ys := List.map_append
  obtain ⟨rest, hrest⟩ := (hstands.steps (entries ys)).messages
  rw [replay_messages, hentries, hsteps, ← hrest]
  rfl

end AgentStream
