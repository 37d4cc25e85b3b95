/-
# Failures of a replay

An event that is not accepted fails for one reason.  The ways in which events may fail are listed
here once, each with the event and what has been found.  Beside them there are two ways in which a
log may fail: an entry cannot be read, or something is left open at the end.

* `Replay.Failure` : the ways in which an event may fail;
* `Replay.event_failure` : every event that fails does so in one of them;
* `Replay.step_failure` : an entry that fails cannot be read, or its event fails;
* `Replay.unfinished_cases` : what is left open at the end;
* `replay_error_cases` : the ways in which a log may fail.
-/
import AgentStream.Proofs.Replay.Grammar

namespace AgentStream

namespace Replay

/-- How an event fails. -/
inductive Failure (r : Replay) : Body → ReplayError → Prop
  | textStartMissingId {role : Role} : Failure r (.textStart "" role) .textStartMissingId
  | duplicateTextStart {id : String} {role : Role} {t : TextState}
      (known : r.texts.lookup id = some t) :
      Failure r (.textStart id role) (.duplicateTextStart id)
  | textStartRole {id : String} {role : Role} (mute : ¬role.Speaks) :
      Failure r (.textStart id role) (.unsupportedRole role)
  | textContentWithoutStart {id delta : String} (unknown : r.texts.lookup id = none) :
      Failure r (.textContent id delta) (.textContentWithoutStart id)
  | textContentAfterEnd {id delta : String} {t : TextState} (known : r.texts.lookup id = some t)
      (ended : t.ended = true) : Failure r (.textContent id delta) (.textContentAfterEnd id)
  | textEndWithoutStart {id : String} (unknown : r.texts.lookup id = none) :
      Failure r (.textEnd id) (.textEndWithoutStart id)
  | duplicateTextEnd {id : String} {t : TextState} (known : r.texts.lookup id = some t)
      (ended : t.ended = true) : Failure r (.textEnd id) (.duplicateTextEnd id)
  | textChunkMissingId {id : Option String} {role : Option Role} {delta : Option String}
      (unnamed : id.getD "" = "") : Failure r (.textChunk id role delta) .textChunkMissingId
  | duplicateTextChunk {id : String} {role : Option Role} {delta : Option String} {t : TextState}
      (known : r.texts.lookup id = some t) :
      Failure r (.textChunk (some id) role delta) (.duplicateTextChunk id)
  | textChunkRole {id : Option String} {role : Option Role} {delta : Option String}
      (mute : ¬(role.getD .assistant).Speaks) :
      Failure r (.textChunk id role delta) (.unsupportedRole (role.getD .assistant))
  | toolStartMissingId {name : String} {parent : Option String} :
      Failure r (.toolStart "" name parent) .toolStartMissingId
  | duplicateToolStart {id name : String} {parent : Option String} {c : CallState}
      (known : r.calls.lookup id = some c) :
      Failure r (.toolStart id name parent) (.duplicateToolStart id)
  | toolStartMissingParent {id name : String} (named : id ≠ "")
      (new : r.calls.lookup id = none) :
      Failure r (.toolStart id name none) .toolStartMissingParent
  | toolArgsWithoutStart {id delta : String} (unknown : r.calls.lookup id = none) :
      Failure r (.toolArgs id delta) (.toolArgsWithoutStart id)
  | toolArgsInvalidPhase {id delta : String} {c : CallState} (known : r.calls.lookup id = some c)
      (ended : c.phase ≠ .awaitingArgs) : Failure r (.toolArgs id delta) (.toolArgsInvalidPhase id)
  | toolEndWithoutStart {id : String} (unknown : r.calls.lookup id = none) :
      Failure r (.toolEnd id) (.toolEndWithoutStart id)
  | duplicateToolEnd {id : String} {c : CallState} (known : r.calls.lookup id = some c)
      (ended : c.phase ≠ .awaitingArgs) : Failure r (.toolEnd id) (.duplicateToolEnd id)
  | toolEndMissingParent {id : String} {c : CallState} (known : r.calls.lookup id = some c)
      (unknown : r.texts.lookup c.messageId = none) :
      Failure r (.toolEnd id) (.toolEndMissingParent c.messageId)
  | toolResultMissingIds {messageId id content : String} {role : Option Role}
      (unnamed : messageId = "" ∨ id = "") :
      Failure r (.toolResult messageId id content role) .toolResultMissingIds
  | toolResultWithoutCall {messageId id content : String} {role : Option Role}
      (unanswered : ∀ c, r.calls.lookup id = some c → c.phase ≠ .awaitingResult) :
      Failure r (.toolResult messageId id content role) (.toolResultWithoutCall id)
  /-- A turn that is no message. -/
  | userMessage {value : Json} {fault : Fault}
      (undecoded : decodeJson Message.decode value = .error fault) :
      Failure r (.custom userMessageName value) (.userMessage fault)
  /-- A turn that is no user's message. -/
  | turnRole {value : Json} {m : Message} (decoded : decodeJson Message.decode value = .ok m)
      (other : m.role ≠ .user) :
      Failure r (.custom userMessageName value) (.unsupportedRole m.role)

variable {r : Replay} {timestamp : Nat} {b : Body} {error : ReplayError}

/-! ## Texts -/

/-- No text is shown under a role that does not speak. -/
theorem nameFor_failure {role : Role} (h : r.nameFor role = .error error) :
    error = .unsupportedRole role ∧ ¬role.Speaks := by
  cases role with
  | user => cases h
  | assistant => cases h
  | _ =>
    cases h
    exact ⟨rfl, fun hspeaks => hspeaks.elim nofun nofun⟩

theorem textStart_failure {id : String} {role : Role} (h : r.textStart id role = .error error) :
    Failure r (.textStart id role) error := by
  unfold textStart at h
  split at h
  · rename_i hempty
    cases h
    rw [String.isEmpty_iff.1 hempty]
    exact .textStartMissingId
  · split at h
    · rename_i hknown
      obtain ⟨t, ht⟩ := Option.isSome_iff_exists.1 hknown
      cases h
      exact .duplicateTextStart ht
    · cases hname : r.nameFor role with
      | error error' =>
        rw [hname] at h
        cases h
        obtain ⟨rfl, hmute⟩ := nameFor_failure hname
        exact .textStartRole hmute
      | ok name =>
        rw [hname] at h
        cases h

theorem textContent_failure {id delta : String} (h : r.textContent id delta = .error error) :
    Failure r (.textContent id delta) error := by
  unfold textContent at h
  split at h
  · rename_i hunknown
    cases h
    exact .textContentWithoutStart hunknown
  · rename_i t hknown
    split at h
    · rename_i hended
      cases h
      exact .textContentAfterEnd hknown hended
    · cases h

theorem textEnd_failure {id : String} (h : r.textEnd id = .error error) :
    Failure r (.textEnd id) error := by
  unfold textEnd at h
  split at h
  · rename_i hunknown
    cases h
    exact .textEndWithoutStart hunknown
  · rename_i t hknown
    split at h
    · rename_i hended
      cases h
      exact .duplicateTextEnd hknown hended
    · cases h

theorem textChunk_failure {id : Option String} {role : Option Role} {delta : Option String}
    (h : r.textChunk id role delta = .error error) :
    Failure r (.textChunk id role delta) error := by
  unfold textChunk at h
  simp only at h
  split at h
  · rename_i hempty
    cases h
    exact .textChunkMissingId (String.isEmpty_iff.1 hempty)
  · rename_i hempty
    split at h
    · rename_i hknown
      obtain ⟨t, ht⟩ := Option.isSome_iff_exists.1 hknown
      cases h
      -- The id was given, since it is not empty.
      cases id with
      | none => exact absurd rfl hempty
      | some id => exact .duplicateTextChunk ht
    · cases hname : r.nameFor (role.getD .assistant) with
      | error error' =>
        rw [hname] at h
        cases h
        obtain ⟨rfl, hmute⟩ := nameFor_failure hname
        exact .textChunkRole hmute
      | ok name =>
        rw [hname] at h
        cases h

/-! ## Tool calls -/

theorem toolStart_failure {id name : String} {parent : Option String}
    (h : r.toolStart id name parent = .error error) :
    Failure r (.toolStart id name parent) error := by
  unfold toolStart at h
  split at h
  · rename_i hempty
    cases h
    rw [String.isEmpty_iff.1 hempty]
    exact .toolStartMissingId
  · rename_i hempty
    split at h
    · rename_i hknown
      obtain ⟨c, hc⟩ := Option.isSome_iff_exists.1 hknown
      cases h
      exact .duplicateToolStart hc
    · rename_i hknown
      cases parent with
      | none =>
        cases h
        exact .toolStartMissingParent (fun he => hempty (String.isEmpty_iff.2 he))
          (Option.not_isSome_iff_eq_none.1 hknown)
      | some parent => cases h

theorem toolArgs_failure {id delta : String} (h : r.toolArgs id delta = .error error) :
    Failure r (.toolArgs id delta) error := by
  unfold toolArgs at h
  split at h
  · rename_i hunknown
    cases h
    exact .toolArgsWithoutStart hunknown
  · rename_i c hknown
    split at h
    · rename_i hended
      cases h
      exact .toolArgsInvalidPhase hknown hended
    · cases h

theorem toolEnd_failure {id : String} (h : r.toolEnd id = .error error) :
    Failure r (.toolEnd id) error := by
  unfold toolEnd at h
  split at h
  · rename_i hunknown
    cases h
    exact .toolEndWithoutStart hunknown
  · rename_i c hknown
    split at h
    · rename_i hended
      cases h
      exact .duplicateToolEnd hknown hended
    · split at h
      · rename_i hparent
        cases h
        exact .toolEndMissingParent hknown hparent
      · cases h

theorem toolResult_failure {messageId id content : String} {role : Option Role}
    (h : r.toolResult messageId id content role = .error error) :
    Failure r (.toolResult messageId id content role) error := by
  unfold toolResult at h
  split at h
  · rename_i hempty
    cases h
    refine .toolResultMissingIds ?_
    rcases Bool.or_eq_true_iff.1 hempty with hempty | hempty
    · exact .inl (String.isEmpty_iff.1 hempty)
    · exact .inr (String.isEmpty_iff.1 hempty)
  · split at h
    · rename_i hunknown
      cases h
      refine .toolResultWithoutCall fun c hc => ?_
      rw [hunknown] at hc
      cases hc
    · rename_i c hknown
      split at h
      · rename_i hphase
        cases h
        refine .toolResultWithoutCall fun c' hc => ?_
        rw [hknown] at hc
        cases hc
        exact hphase
      · cases h

/-! ## Events and entries -/

theorem userMessage_failure {value : Json} (h : r.userMessage value = .error error) :
    Failure r (.custom userMessageName value) error := by
  unfold userMessage at h
  split at h
  · rename_i fault hundecoded
    cases h
    exact .userMessage hundecoded
  · rename_i m hdecoded
    split at h
    · rename_i hrole
      cases h
      exact .turnRole hdecoded hrole
    · cases h

/-- **Why an event fails.**  An event that fails does so in one of the listed ways. -/
theorem event_failure (h : r.event timestamp b = .error error) : Failure r b error := by
  cases b with
  | textStart id role => exact textStart_failure h
  | textContent id delta => exact textContent_failure h
  | textEnd id => exact textEnd_failure h
  | textChunk id role delta => exact textChunk_failure h
  | toolStart id name parent => exact toolStart_failure h
  | toolArgs id delta => exact toolArgs_failure h
  | toolEnd id => exact toolEnd_failure h
  | toolResult messageId id content role => exact toolResult_failure h
  | custom name value =>
    rw [event] at h
    split at h
    · rename_i hname
      rw [hname]
      exact userMessage_failure h
    · cases h
  | _ => cases h

/-- An entry that says an event comes to what the event comes to. -/
theorem step_of_body? {e : Entry} (h : e.body? = some b) : r.step e = r.event e.timestamp b := by
  unfold Entry.body? at h
  split at h
  · cases h
  · rename_i hempty
    rw [step, if_neg hempty]
    cases hread : e.event with
    | error error =>
      rw [hread] at h
      cases h
    | ok event =>
      rw [hread] at h
      cases h
      rfl

/-- An entry that says no event is passed over, or it cannot be read, whatever came before it. -/
theorem step_of_body?_eq_none {e : Entry} (h : e.body? = none) :
    (∀ r : Replay, r.step e = .ok r) ∨
      ∃ reason, ∀ r : Replay, r.step e = .error (.decode reason) := by
  unfold Entry.body? at h
  split at h
  · rename_i hempty
    exact .inl fun r => if_pos hempty
  · rename_i hempty
    cases hread : e.event with
    | error reason =>
      refine .inr ⟨reason, fun r => ?_⟩
      rw [step, if_neg hempty, hread]
    | ok event =>
      rw [hread] at h
      cases h

/-- An entry that fails cannot be read, or it says an event that fails. -/
theorem step_failure {e : Entry} (h : r.step e = .error error) :
    (∃ reason, error = .decode reason) ∨ ∃ b, e.body? = some b ∧ Failure r b error := by
  cases hbody : e.body? with
  | some b =>
    rw [step_of_body? hbody] at h
    exact .inr ⟨b, rfl, event_failure h⟩
  | none =>
    rcases step_of_body?_eq_none hbody with hpassed | ⟨reason, hread⟩
    · rw [hpassed] at h
      cases h
    · rw [hread] at h
      cases h
      exact .inl ⟨reason, rfl⟩

/-- A log that fails has an entry that cannot be read, or says an event that fails. -/
theorem steps_failure {log : List Entry} (h : (r.steps log).2 = some error) :
    (∃ reason, error = .decode reason) ∨
      ∃ b ∈ log.filterMap Entry.body?, ∃ r', Failure r' b error := by
  induction log generalizing r with
  | nil => cases h
  | cons e log ih =>
    rw [steps] at h
    cases hstep : r.step e with
    | error error' =>
      rw [hstep] at h
      cases h
      rcases step_failure hstep with hread | ⟨b, hbody, hfailure⟩
      · exact .inl hread
      · exact .inr ⟨b, List.mem_filterMap.2 ⟨e, List.mem_cons_self, hbody⟩, r, hfailure⟩
    | ok r' =>
      rw [hstep] at h
      refine (ih h).imp_right ?_
      rintro ⟨b, hb, hfailure⟩
      obtain ⟨e', he', hbody⟩ := List.mem_filterMap.1 hb
      exact ⟨b, List.mem_filterMap.2 ⟨e', List.mem_cons_of_mem e he', hbody⟩, hfailure⟩

/-- What is left open at the end is a text or a tool call. -/
theorem unfinished_cases (h : r.unfinished = some error) :
    (∃ id, error = .textNotClosed id) ∨ ∃ id, error = .toolCallNotCompleted id := by
  unfold unfinished at h
  split at h
  · cases h
    exact .inl ⟨_, rfl⟩
  · split at h
    · cases h
      exact .inr ⟨_, rfl⟩
    · cases h

end Replay

/-- **Why a log fails.**  A text or a tool call is left open at its end, or one of its entries
cannot be read or says an event that fails. -/
theorem replay_error_cases {app user : String} {log : List Entry} {error : ReplayError}
    (h : (replay app user log).error = some error) :
    ((∃ id, error = .textNotClosed id) ∨ ∃ id, error = .toolCallNotCompleted id) ∨
      (∃ reason, error = .decode reason) ∨
      ∃ b ∈ log.filterMap Entry.body?, ∃ r : Replay, r.Failure b error := by
  unfold replay at h
  rcases hsteps : ({ app, user } : Replay).steps log with ⟨r, _ | error'⟩
  · rw [hsteps] at h
    exact .inl (Replay.unfinished_cases h)
  · rw [hsteps] at h
    cases h
    exact .inr (Replay.steps_failure (congrArg Prod.snd hsteps))

end AgentStream
