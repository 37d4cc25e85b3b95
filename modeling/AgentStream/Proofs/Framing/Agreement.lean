/-
# Framing and replay agree

What a framer says can be recorded and replayed: the two keep different states, and the replay
may refuse an event for reasons of its own, but never because of how texts and tool calls are
framed.

* `ReplayError.isFraming` : the failures that are about frames;
* `Framer.Agrees` : how the states of a framer and of a replay belong together;
* `Framer.Move.passes` : a move keeps them so, or another failure ends the replay;
* `Framer.replay_translateAll` : the replay of all that a framer says.
-/
import AgentStream.Identifier
import AgentStream.Proofs.Framing.Moves
import AgentStream.Proofs.Replay.Basic

namespace AgentStream

/-- The failure is about the frame of a text or of a tool call, or about a result without
identifiers. -/
def ReplayError.isFraming : ReplayError → Bool
  | textContentWithoutStart _ => true
  | textContentAfterEnd _ => true
  | textEndWithoutStart _ => true
  | duplicateTextEnd _ => true
  | textChunkMissingId => true
  | duplicateTextChunk _ => true
  | duplicateToolStart _ => true
  | toolArgsWithoutStart _ => true
  | toolArgsInvalidPhase _ => true
  | toolEndWithoutStart _ => true
  | duplicateToolEnd _ => true
  | toolEndMissingParent _ => true
  | toolResultMissingIds => true
  | _ => false

/-- The failure is not about frames. -/
def ReplayError.IsOther (error : ReplayError) : Prop := error.isFraming = false

namespace Replay

variable {r : Replay}

/-! ## What a replay knows -/

/-- A text message is known and has not ended. -/
def IsOpen (r : Replay) (id : String) : Prop :=
  ∃ t, r.texts.lookup id = some t ∧ t.ended = false

/-- A tool call is known. -/
def Knows (r : Replay) (id : String) : Prop := (r.calls.lookup id).isSome = true

/-- A tool call is known, its arguments may go on, and its message is known. -/
def IsCalling (r : Replay) (id : String) : Prop :=
  ∃ c, r.calls.lookup id = some c ∧ c.phase = .awaitingArgs ∧
    (r.texts.lookup c.messageId).isSome = true

/-- No tool call gets known, and what was open stays so. -/
structure Keeps (r r' : Replay) : Prop where
  calls : ∀ key, r'.Knows key → r.Knows key
  texts : ∀ key, r.IsOpen key → r'.IsOpen key

/-- A change to neither texts nor tool calls. -/
theorem keeps_of_eq {r' : Replay} (ht : r'.texts = r.texts) (hc : r'.calls = r.calls) :
    r.Keeps r' := by
  constructor
  · intro key hk
    rw [Knows, hc] at hk
    exact hk
  · intro key ho
    rw [IsOpen, ht]
    exact ho

/-- A change to a tool call makes none known. -/
theorem keeps_update (id : String) (f : CallState → CallState) {r' : Replay}
    (ht : r'.texts = r.texts) (hc : r'.calls = update id f r.calls) : r.Keeps r' := by
  constructor
  · intro key hk
    rw [Knows, hc, isSome_lookup_update] at hk
    exact hk
  · intro key ho
    rw [IsOpen, ht]
    exact ho

/-! ## Text messages -/

theorem textStart_gives (id : String) (role : Role) :
    Gives ReplayError.IsOther (fun r' => r'.IsOpen id ∧ r'.calls = r.calls)
      (r.textStart id role) := by
  unfold textStart
  split
  · rfl
  · split
    · rfl
    · rename_i hn
      cases hname : r.nameFor role with
      | error error =>
        unfold nameFor at hname
        split at hname
        · cases hname
        · cases hname
        · cases hname
          rfl
      | ok name =>
        refine ⟨⟨⟨"", false, r.messages.length⟩, ?_, rfl⟩, rfl⟩
        show (r.texts ++ [(id, _)]).lookup id = _
        rw [List.lookup_append, Option.not_isSome_iff_eq_none.1 hn, Option.none_or,
          List.lookup_cons_self]

theorem textContent_gives {id : String} (delta : String) (h : r.IsOpen id) :
    Gives ReplayError.IsOther (fun r' => r'.IsOpen id ∧ r'.calls = r.calls)
      (r.textContent id delta) := by
  obtain ⟨t, ht, he⟩ := h
  rw [textContent, ht]
  simp only [he, Bool.false_eq_true, if_false]
  refine ⟨⟨{ t with content := t.content ++ delta }, ?_, he⟩, rfl⟩
  rw [lookup_update, if_pos rfl, ht]
  rfl

theorem textEnd_gives {id : String} (h : r.IsOpen id) :
    Gives ReplayError.IsOther (fun r' => r'.calls = r.calls) (r.textEnd id) := by
  obtain ⟨t, ht, he⟩ := h
  rw [textEnd, ht]
  simp only [he, Bool.false_eq_true, if_false]
  rfl

/-! ## Tool calls -/

/-- A message that is not known is made one that has ended, which changes nothing else. -/
theorem withParent (r : Replay) (parent : String) (m : Message) :
    let r' := if (r.texts.lookup parent).isSome then r else r.pushText parent m "" true
    r'.calls = r.calls ∧ (r'.texts.lookup parent).isSome = true ∧
      ∀ key, r.IsOpen key → r'.IsOpen key := by
  intro r'
  by_cases h : (r.texts.lookup parent).isSome = true
  · have hr : r' = r := if_pos h
    rw [hr]
    exact ⟨rfl, h, fun _ h => h⟩
  · have hr : r' = r.pushText parent m "" true := if_neg h
    rw [hr]
    refine ⟨rfl, ?_, ?_⟩
    · show ((r.texts ++ [(parent, _)]).lookup parent).isSome = true
      rw [List.lookup_append, Option.not_isSome_iff_eq_none.1 h, Option.none_or,
        List.lookup_cons_self]
      rfl
    · rintro key ⟨t, ht, he⟩
      refine ⟨t, ?_, he⟩
      show (r.texts ++ [(parent, _)]).lookup key = some t
      rw [List.lookup_append, ht]
      rfl

theorem toolStart_gives {id : String} (name : String) (parent : Option String)
    (h : ¬r.Knows id) :
    Gives ReplayError.IsOther (fun r' => r'.IsCalling id ∧
      (∀ key, r'.Knows key → key = id ∨ r.Knows key) ∧
      ∀ key, r.IsOpen key → r'.IsOpen key) (r.toolStart id name parent) := by
  unfold toolStart
  split
  · rfl
  · split
    · rename_i hk
      exact absurd hk h
    · cases parent with
      | none => rfl
      | some parent =>
        -- The message of the call may have to be made; it has ended, so no frame is touched.
        obtain ⟨hcalls, htexts, hopen⟩ := r.withParent parent
          { id := some parent, role := .assistant, name := some r.app }
        simp only at hcalls htexts hopen ⊢
        generalize (if (r.texts.lookup parent).isSome = true then r else _) = r' at *
        have hn : r'.calls.lookup id = none := by
          rw [hcalls]
          exact Option.not_isSome_iff_eq_none.1 h
        have hlookup (c : CallState) : (r'.calls ++ [(id, c)]).lookup id = some c := by
          rw [List.lookup_append, hn, Option.none_or, List.lookup_cons_self]
        refine ⟨⟨_, hlookup _, rfl, htexts⟩, fun key hk => ?_, hopen⟩
        by_cases hid : key = id
        · exact .inl hid
        · refine .inr ?_
          change ((r'.calls ++ [(id, _)]).lookup key).isSome = true at hk
          rw [List.lookup_append, lookup_cons_ite, if_neg hid, List.lookup_nil, Option.or_none,
            hcalls] at hk
          exact hk

theorem toolArgs_gives {id : String} (delta : String) (h : r.IsCalling id) :
    Gives ReplayError.IsOther (fun r' => r'.IsCalling id ∧ r.Keeps r') (r.toolArgs id delta) := by
  obtain ⟨c, hc, hp, ht⟩ := h
  rw [toolArgs, hc]
  simp only [hp, ne_eq, not_true_eq_false, if_false]
  refine ⟨⟨{ c with arguments := c.arguments ++ delta }, ?_, hp, ht⟩,
    keeps_update id (fun c => { c with arguments := c.arguments ++ delta }) rfl rfl⟩
  rw [lookup_update, if_pos rfl, hc]
  rfl

theorem toolEnd_gives {id : String} (h : r.IsCalling id) :
    Gives ReplayError.IsOther r.Keeps (r.toolEnd id) := by
  obtain ⟨c, hc, hp, ht⟩ := h
  obtain ⟨t, ht⟩ := Option.isSome_iff_exists.1 ht
  rw [toolEnd, hc]
  simp only [hp, ne_eq, not_true_eq_false, if_false, ht]
  exact keeps_update id (fun c => { c with phase := .awaitingResult }) rfl rfl

theorem toolResult_gives {messageId callId : String} (content : String) (role : Option Role)
    (hm : messageId ≠ "") (hc : callId ≠ "") :
    Gives ReplayError.IsOther r.Keeps (r.toolResult messageId callId content role) := by
  unfold toolResult
  split
  · rename_i h
    simp [hm, hc] at h
  · split
    · rfl
    · split
      · rfl
      · exact keeps_update callId (fun c => { c with phase := .completed }) rfl rfl

/-! ## Events that belong to no frame -/

/-- The kind of a body tells whether it belongs to no frame. -/
theorem isAside_eq (b : Body) :
    b.isAside = ["RUN_FINISHED", "RUN_ERROR", "CUSTOM"].contains b.kind := by
  cases b <;> rfl

theorem event_aside {b : Body} (timestamp : Nat) (hb : b.isAside = true) :
    Gives ReplayError.IsOther r.Keeps (r.event timestamp b) := by
  cases b with
  | runFinished => exact keeps_of_eq rfl rfl
  | runError => exact keeps_of_eq rfl rfl
  | custom name value =>
    rw [event]
    split
    · unfold userMessage
      split
      · rfl
      · split
        · rfl
        · exact keeps_of_eq rfl rfl
    · exact keeps_of_eq rfl rfl
  | _ => cases hb

/-- The entry of an event that belongs to no frame makes nothing known, or cannot be replayed at
all. -/
theorem step_aside {e : Entry} {event : Event} (hb : event.body.isAside = true)
    (he : e.payload = event.encode) :
    Gives ReplayError.IsOther r.Keeps (r.step e) := by
  rw [step, Entry.event, he, Event.encode_ne_nil]
  simp only [Bool.false_eq_true, if_false]
  cases hd : Event.ofBytes event.encode with
  | error error => rfl
  | ok event' =>
    have hk : event'.body.kind = event.body.kind := Event.ofBytes_kind hd
    refine event_aside _ ?_
    rw [isAside_eq, hk, ← isAside_eq]
    exact hb

end Replay

namespace Framer

open Replay (Gives Passes)

variable {fresh : String → Prop} {f g : Framer} {events : List Event} {r : Replay}

/-! ## Agreement -/

/-- The open message of a framer has not ended for a replay, and every tool call that is known
to the replay was framed. -/
structure Agrees (f : Framer) (r : Replay) : Prop where
  opened : f.isOpen = true → r.IsOpen f.lastId
  framed : ∀ id, r.Knows id → id ∈ f.seenCalls

theorem Agrees.keeps {r' : Replay} (ha : Agrees f r) (hk : r.Keeps r') : Agrees f r' :=
  ⟨fun ho => hk.texts _ (ha.opened ho), fun id h => ha.framed id (hk.calls id h)⟩

/-- The entry of an event of a frame, with other entries behind it. -/
theorem passes_frame {allowed : ReplayError → Prop} {P Q : Replay → Prop} {entry : Entry}
    {log : List Entry} {b : Body} (hb : b.isFrame = true)
    (he : entry.payload = (b : Event).encode) (hg : Gives allowed P (r.event entry.timestamp b))
    (hlog : ∀ r', P r' → Passes allowed Q r' log) : Passes allowed Q r (entry :: log) := by
  refine Replay.passes_cons ?_
  rw [Replay.step_frame hb he]
  exact hg.imp hlog

/-- The frame of a tool call that was not framed before. -/
theorem passes_wholeCall {id : String} (name : String) (parent arguments : Option String)
    {log : List Entry} (hl : Holds log (wholeCall id name parent arguments)) (h : ¬r.Knows id) :
    Passes ReplayError.IsOther (fun r' => (∀ key, r'.Knows key → key = id ∨ r.Knows key) ∧
      ∀ key, r.IsOpen key → r'.IsOpen key) r log := by
  have hstart := Replay.toolStart_gives name parent h
  cases arguments with
  | none =>
    obtain ⟨e, log, rfl, he, hl⟩ := Holds.cons hl
    obtain ⟨e', log, rfl, he', hl⟩ := Holds.cons hl
    cases Holds.nil hl
    refine passes_frame rfl he hstart fun r' ⟨hc, hk, ho⟩ => ?_
    refine passes_frame rfl he' (Replay.toolEnd_gives hc) fun r'' hend => ?_
    exact ⟨fun key h => hk key (hend.calls key h), fun key h => hend.texts key (ho key h)⟩
  | some arguments =>
    obtain ⟨e, log, rfl, he, hl⟩ := Holds.cons hl
    obtain ⟨ea, log, rfl, hea, hl⟩ := Holds.cons hl
    obtain ⟨e', log, rfl, he', hl⟩ := Holds.cons hl
    cases Holds.nil hl
    refine passes_frame rfl he hstart fun r' ⟨hc, hk, ho⟩ => ?_
    refine passes_frame rfl hea (Replay.toolArgs_gives arguments hc) fun ra ⟨hca, hargs⟩ => ?_
    refine passes_frame rfl he' (Replay.toolEnd_gives hca) fun r'' hend => ?_
    exact ⟨fun key h => hk key (hargs.calls key (hend.calls key h)),
      fun key h => hend.texts key (hargs.texts key (ho key h))⟩

/-- A move keeps the states of a framer and of a replay together, unless the replay ends for
another reason. -/
theorem Move.passes (hm : Move (· ≠ "") f events g) (ha : Agrees f r) {log : List Entry}
    (hl : Holds log events) : Passes ReplayError.IsOther (Agrees g) r log := by
  have knows {r' : Replay} (hc : r'.calls = r.calls) {id : String} (hk : r'.Knows id) :
      id ∈ f.seenCalls := by
    rw [Replay.Knows, hc] at hk
    exact ha.framed id hk
  cases hm with
  | sees id =>
    rw [Holds.nil hl]
    exact ⟨ha.opened, ha.framed⟩
  | turns id hc =>
    rw [Holds.nil hl]
    exact ⟨fun ho => absurd (hc.symm.trans ho) nofun, ha.framed⟩
  | opens id role =>
    obtain ⟨e, log, rfl, he, hl⟩ := Holds.cons hl
    rw [Holds.nil hl]
    refine passes_frame rfl he (Replay.textStart_gives id role) fun r' ⟨ho, hc⟩ => ?_
    exact ⟨fun _ => ho, fun id hk => knows hc hk⟩
  | feeds text ho =>
    obtain ⟨e, log, rfl, he, hl⟩ := Holds.cons hl
    rw [Holds.nil hl]
    refine passes_frame rfl he (Replay.textContent_gives text (ha.opened ho)) fun r' ⟨ho, hc⟩ => ?_
    exact ⟨fun _ => ho, fun id hk => knows hc hk⟩
  | closes ho =>
    obtain ⟨e, log, rfl, he, hl⟩ := Holds.cons hl
    rw [Holds.nil hl]
    refine passes_frame rfl he (Replay.textEnd_gives (ha.opened ho)) fun r' hc => ?_
    exact ⟨nofun, fun id hk => knows hc hk⟩
  | frames id name parent arguments hn =>
    -- A call that the replay knows was framed before, so this one is new to both.
    have hcall := passes_wholeCall name parent arguments hl fun hk => hn (ha.framed id hk)
    refine hcall.imp fun r' ⟨hk, ho⟩ => ⟨fun hf => ho _ (ha.opened hf), fun key h => ?_⟩
    rcases hk key h with rfl | h
    · exact List.mem_insert_self
    · exact List.mem_insert_of_mem (ha.framed key h)
  | answers messageId callId content hm hc =>
    obtain ⟨e, log, rfl, he, hl⟩ := Holds.cons hl
    rw [Holds.nil hl]
    exact passes_frame rfl he (Replay.toolResult_gives content (some .tool) (hm.elim id id) hc)
      fun r' hk => ha.keeps hk
  | asides event hb =>
    obtain ⟨e, log, rfl, he, hl⟩ := Holds.cons hl
    rw [Holds.nil hl]
    exact Replay.passes_cons ((Replay.step_aside hb he).imp fun r' hk => ha.keeps hk)

theorem Moves.passes (hm : Moves (· ≠ "") f events g) (ha : Agrees f r) {log : List Entry}
    (hl : Holds log events) : Passes ReplayError.IsOther (Agrees g) r log := by
  induction hm generalizing r log with
  | none =>
    rw [Holds.nil hl]
    exact ha
  | next hm _ ih =>
    obtain ⟨xs, ys, rfl, hx, hy⟩ := Holds.append hl
    exact (hm.passes ha hx).append fun r' ha' => ih ha' hy

/-- What is left open at the end of a log is a failure of its own. -/
theorem unfinished_isOther {error : ReplayError} (h : r.unfinished = some error) :
    error.IsOther := by
  unfold Replay.unfinished at h
  split at h
  · cases h
    rfl
  · split at h
    · cases h
      rfl
    · cases h

/-- **Framing and replay agree.**  Whatever outputs a new framer is given: if what it says is
recorded at any times and replayed for any user of any app, the failure of the replay, if there
is one, is not about frames. -/
theorem replay_translateAll (threadId runId app user : String)
    (outputs : List (Nat × Engine.Output)) (stamp : Nat → Nat) :
    let (events, _) := translateAll (outputs.map fun (n, o) => (uuid n, o)) { threadId, runId }
    (replay app user (events.mapIdx fun i e => .ofEvent (stamp i) e)).error.any
      ReplayError.isFraming = false := by
  have hf : Framed { threadId, runId } := nofun
  -- Results without an id of their own get a fresh one, which must not be empty.
  have hid : ∀ x ∈ outputs.map fun (n, o) => (uuid n, o), x.1 ≠ "" := by
    intro x hx
    obtain ⟨y, -, rfl⟩ := List.mem_map.1 hx
    exact uuid_ne_empty y.1
  have hm : Moves (· ≠ "") { threadId, runId } _ _ := translateAll_moves hf _ hid
  have ha : Agrees { threadId, runId } { app, user } := ⟨nofun, nofun⟩
  have hp := hm.passes ha (holds_mapIdx stamp _)
  unfold Passes at hp
  simp only [replay]
  split at hp
  · rename_i r hsteps
    rw [hsteps]
    cases hu : r.unfinished with
    | none => simp [hu]
    | some error =>
      simp only [hu]
      exact unfinished_isOther hu
  · rename_i r error hsteps
    rw [hsteps]
    exact hp

end Framer

end AgentStream
