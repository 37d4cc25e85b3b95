/-
# What an event makes of a replay

An event that is accepted takes a replay to one state.  The ways in which it may do so are listed
here once, each with what has been checked and all that is written.

* `Body.isRun` : the events of a run, which a replay passes over;
* `Replay.Effect` : the ways in which an event takes a replay on;
* `Replay.event_effect` : every accepted event takes a replay on in one of them.
-/
import AgentStream.Proofs.Replay.Conversation

namespace AgentStream

/-- The event is about a run as a whole. -/
def Body.isRun : Body → Bool
  | runStarted .. => true
  | runFinished .. => true
  | runError .. => true
  | _ => false

namespace Replay

/-- The tool calls of the message at a place. -/
def callsAt (r : Replay) (index : Nat) : List ToolCall :=
  (r.messages[index]?.map (·.toolCalls)).getD []

/-- How an event takes a replay on. -/
inductive Effect (r : Replay) (timestamp : Nat) : Body → Replay → Prop
  | textStart {id name : String} {role : Role} (new : r.texts.lookup id = none)
      (named : r.nameFor role = .ok name) :
      Effect r timestamp (.textStart id role)
        (r.pushText id { id := some id, role, name := some name } "" false)
  | textContent {id delta : String} {t : TextState} (known : r.texts.lookup id = some t)
      (going : t.ended = false) :
      Effect r timestamp (.textContent id delta)
        { r with texts := update id (fun t => { t with content := t.content ++ delta }) r.texts }
  | textEnd {id : String} {t : TextState} (known : r.texts.lookup id = some t)
      (going : t.ended = false) :
      Effect r timestamp (.textEnd id)
        ({ r with texts := update id (fun t => { t with ended := true }) r.texts }.setMessage t.index
          fun m => { m with content := some (.str t.content) })
  | textChunk {id name : String} {role : Option Role} {delta : Option String}
      (new : r.texts.lookup id = none) (named : r.nameFor (role.getD .assistant) = .ok name) :
      Effect r timestamp (.textChunk (some id) role delta)
        (r.pushText id
          { id := some id, role := role.getD .assistant, name := some name,
            content := some (.str (delta.getD "")) } (delta.getD "") true)
  /-- A tool call from a text that is known. -/
  | toolStart {id name parent : String} {t : TextState} (new : r.calls.lookup id = none)
      (known : r.texts.lookup parent = some t) :
      Effect r timestamp (.toolStart id name (some parent))
        { r.setMessage t.index (fun m =>
            { m with toolCalls := m.toolCalls ++ [ToolCall.ofFunction id name] }) with
          calls := r.calls ++ [(id, ⟨parent, "", .awaitingArgs, (r.callsAt t.index).length⟩)] }
  /-- A tool call from a text that is not known, and so gets a message of its own. -/
  | toolStartAlone {id name parent : String} (new : r.calls.lookup id = none)
      (unknown : r.texts.lookup parent = none) :
      Effect r timestamp (.toolStart id name (some parent))
        { r.pushText parent
            { id := some parent, role := .assistant, name := some r.app,
              toolCalls := [ToolCall.ofFunction id name] } "" true with
          calls := r.calls ++ [(id, ⟨parent, "", .awaitingArgs, 0⟩)] }
  | toolArgs {id delta : String} {c : CallState} (known : r.calls.lookup id = some c)
      (going : c.phase = .awaitingArgs) :
      Effect r timestamp (.toolArgs id delta)
        { r with
          calls := update id (fun c => { c with arguments := c.arguments ++ delta }) r.calls }
  | toolEnd {id : String} {c : CallState} {t : TextState} (known : r.calls.lookup id = some c)
      (going : c.phase = .awaitingArgs) (parent : r.texts.lookup c.messageId = some t) :
      Effect r timestamp (.toolEnd id)
        { r.setMessage t.index (fun m =>
            { m with
              toolCalls := m.toolCalls.modify c.index fun call =>
                { call with function := { call.function with arguments := c.arguments } } }) with
          calls := update id (fun c => { c with phase := .awaitingResult }) r.calls }
  | toolResult {messageId callId content : String} {role : Option Role} {c : CallState}
      (known : r.calls.lookup callId = some c) (going : c.phase = .awaitingResult) :
      Effect r timestamp (.toolResult messageId callId content role)
        ({ r with calls := update callId (fun c => { c with phase := .completed }) r.calls }.push
          { id := some messageId, role := role.getD .tool, content := some (.str content),
            toolCallId := some callId })
  | turn {value : Json} {m : Message} (decoded : decodeJson Message.decode value = .ok m)
      (user : m.role = .user) :
      Effect r timestamp (.custom userMessageName value) (r.push (m.withFallbackName r.user))
  /-- An event that is shown as an activity. -/
  | activity {b : Body} {content : Json} (shown : activityContent b = some content)
      (other : ∀ value, b ≠ .custom userMessageName value) :
      Effect r timestamp b (r.push (activityMessage b.kind timestamp content))
  | run {b : Body} (silent : b.isRun = true) : Effect r timestamp b r

variable {r r' : Replay} {timestamp : Nat} {b : Body}

/-! ## Texts -/

theorem textStart_effect {id : String} {role : Role} (h : r.textStart id role = .ok r') :
    Effect r timestamp (.textStart id role) r' := by
  unfold textStart at h
  split at h
  · cases h
  · split at h
    · cases h
    · rename_i hknown
      have hnew : r.texts.lookup id = none := Option.not_isSome_iff_eq_none.1 hknown
      cases hname : r.nameFor role with
      | error error =>
        rw [hname] at h
        cases h
      | ok name =>
        rw [hname] at h
        cases h
        exact .textStart hnew hname

theorem textContent_effect {id delta : String} (h : r.textContent id delta = .ok r') :
    Effect r timestamp (.textContent id delta) r' := by
  unfold textContent at h
  split at h
  · cases h
  · rename_i t hknown
    split at h
    · cases h
    · rename_i hended
      cases h
      exact .textContent hknown (Bool.eq_false_iff.2 hended)

theorem textEnd_effect {id : String} (h : r.textEnd id = .ok r') :
    Effect r timestamp (.textEnd id) r' := by
  unfold textEnd at h
  split at h
  · cases h
  · rename_i t hknown
    split at h
    · cases h
    · rename_i hended
      cases h
      exact .textEnd hknown (Bool.eq_false_iff.2 hended)

theorem textChunk_effect {id : Option String} {role : Option Role} {delta : Option String}
    (h : r.textChunk id role delta = .ok r') : Effect r timestamp (.textChunk id role delta) r' := by
  unfold textChunk at h
  simp only at h
  split at h
  · cases h
  · rename_i hempty
    -- The id was given, since it is not empty.
    obtain ⟨id, rfl⟩ : ∃ id', id = some id' := by
      cases id with
      | none => exact absurd rfl hempty
      | some id => exact ⟨id, rfl⟩
    split at h
    · cases h
    · rename_i hknown
      have hnew : r.texts.lookup id = none := Option.not_isSome_iff_eq_none.1 hknown
      cases hname : r.nameFor (role.getD .assistant) with
      | error error =>
        rw [hname] at h
        cases h
      | ok name =>
        rw [hname] at h
        cases h
        exact .textChunk hnew hname

/-! ## Tool calls -/

theorem toolStart_effect {id name : String} {parent : Option String}
    (h : r.toolStart id name parent = .ok r') :
    Effect r timestamp (.toolStart id name parent) r' := by
  unfold toolStart at h
  split at h
  · cases h
  · split at h
    · cases h
    · rename_i hcall
      have hnew : r.calls.lookup id = none := Option.not_isSome_iff_eq_none.1 hcall
      cases parent with
      | none => cases h
      | some parent =>
        simp only at h
        cases hparent : r.texts.lookup parent with
        | some t =>
          simp only [hparent, Option.isSome_some, if_true, Option.map_some, Option.getD_some] at h
          cases h
          exact .toolStart hnew hparent
        | none =>
          -- The message that is added is the last one, so it is the one that is given the call.
          simp only [hparent, Option.isSome_none, Bool.false_eq_true, if_false, pushText,
            lookup_last hparent, Option.map_some, Option.getD_some, setMessage, modify_last,
            List.getElem?_concat_length, List.length_nil, List.nil_append] at h
          cases h
          exact .toolStartAlone hnew hparent

theorem toolArgs_effect {id delta : String} (h : r.toolArgs id delta = .ok r') :
    Effect r timestamp (.toolArgs id delta) r' := by
  unfold toolArgs at h
  split at h
  · cases h
  · rename_i c hknown
    split at h
    · cases h
    · rename_i hphase
      cases h
      exact .toolArgs hknown (Decidable.not_not.1 hphase)

theorem toolEnd_effect {id : String} (h : r.toolEnd id = .ok r') :
    Effect r timestamp (.toolEnd id) r' := by
  unfold toolEnd at h
  split at h
  · cases h
  · rename_i c hknown
    split at h
    · cases h
    · rename_i hphase
      split at h
      · cases h
      · rename_i t hparent
        cases h
        exact .toolEnd hknown (Decidable.not_not.1 hphase) hparent

theorem toolResult_effect {messageId callId content : String} {role : Option Role}
    (h : r.toolResult messageId callId content role = .ok r') :
    Effect r timestamp (.toolResult messageId callId content role) r' := by
  unfold toolResult at h
  split at h
  · cases h
  · split at h
    · cases h
    · rename_i c hknown
      split at h
      · cases h
      · rename_i hphase
        cases h
        exact .toolResult hknown (Decidable.not_not.1 hphase)

/-! ## Other events -/

theorem userMessage_effect {value : Json} (h : r.userMessage value = .ok r') :
    Effect r timestamp (.custom userMessageName value) r' := by
  unfold userMessage at h
  split at h
  · cases h
  · rename_i m hdecoded
    split at h
    · cases h
    · rename_i hrole
      cases h
      exact .turn hdecoded (Decidable.not_not.1 hrole)

/-- An event with a content is shown as an activity. -/
theorem activity_effect {content : Json} (hshown : activityContent b = some content)
    (hother : ∀ value, b ≠ .custom userMessageName value) :
    Effect r timestamp b (r.activity b timestamp) := by
  have hactivity : r.activity b timestamp = r.push (activityMessage b.kind timestamp content) := by
    rw [Replay.activity, hshown]
  rw [hactivity]
  exact .activity hshown hother

/-- **What an event does.**  An event that is accepted takes the replay on in one of the listed
ways. -/
theorem event_effect (h : r.event timestamp b = .ok r') : Effect r timestamp b r' := by
  cases b with
  | textStart id role => exact textStart_effect h
  | textContent id delta => exact textContent_effect h
  | textEnd id => exact textEnd_effect h
  | textChunk id role delta => exact textChunk_effect h
  | toolStart id name parent => exact toolStart_effect h
  | toolArgs id delta => exact toolArgs_effect h
  | toolEnd id => exact toolEnd_effect h
  | toolResult messageId callId content role => exact toolResult_effect h
  | custom name value =>
    rw [event] at h
    split at h
    · rename_i hname
      rw [hname]
      exact userMessage_effect h
    · rename_i hname
      cases h
      refine activity_effect rfl ?_
      intro value' he
      cases he
      exact hname rfl
  | runStarted =>
    cases h
    exact .run rfl
  | runFinished =>
    cases h
    exact .run rfl
  | runError =>
    cases h
    exact .run rfl
  | _ =>
    cases h
    exact activity_effect rfl nofun

end Replay

end AgentStream
