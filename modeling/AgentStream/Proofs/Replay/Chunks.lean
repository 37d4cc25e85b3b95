/-
# Texts in one piece

A text in one piece is a closed message: wherever it stands in a log, it may be spelt out as a text
that starts, is given its content at once and ends.  The replay comes to the same messages, and if
it fails at the text, then for the same reason, which is now one of the start.

* `Entry.spelledOut` : an entry, with a text in one piece spelt out;
* `ReplayError.ofStart` : the failure of a start, for that of a text in one piece;
* `Replay.steps_spelledOut` : what an entry comes to when it is spelt out;
* `replay_spelledOut` : the replay of a log in which every text is spelt out.
-/
import AgentStream.Proofs.Replay.Failures
import AgentStream.Proofs.Replay.Told

namespace AgentStream

/-- A text that starts, is given its content at once and ends. -/
def Body.closedText (id : String) (role : Role) (delta : String) : List Body :=
  [textStart id role, textContent id delta, textEnd id]

/-- An entry with a text in one piece spelt out, all of it at the same time.  Without an id the text
has the empty one, without a role it is the assistant's, and without a content it is empty. -/
def Entry.spelledOut (e : Entry) : List Entry :=
  match e.body? with
  | some (.textChunk id role delta) =>
    (Body.closedText (id.getD "") (role.getD .assistant) (delta.getD "")).map fun b : Body =>
      .ofEvent e.timestamp b
  | _ => [e]

/-- The failure of the start of a text, for that of a text in one piece. -/
def ReplayError.ofStart : ReplayError → ReplayError
  | textChunkMissingId => textStartMissingId
  | duplicateTextChunk id => duplicateTextStart id
  | error => error

namespace Replay

variable {r r' : Replay} {b : Body} {error : ReplayError} {id : Option String}
  {role : Option Role} {delta : Option String}

/-! ## Failures -/

/-- Only a text in one piece fails as one. -/
theorem Failure.ofStart_eq (h : Failure r b error)
    (hb : ∀ id role delta, b ≠ .textChunk id role delta) : error.ofStart = error := by
  cases h with
  | textChunkMissingId => exact absurd rfl (hb _ _ _)
  | duplicateTextChunk => exact absurd rfl (hb _ _ _)
  | _ => rfl

theorem ofStart_unfinished (r : Replay) : r.unfinished.map ReplayError.ofStart = r.unfinished := by
  cases h : r.unfinished with
  | none => rfl
  | some error => rcases unfinished_cases h with ⟨id, rfl⟩ | ⟨id, rfl⟩ <;> rfl

/-! ## Texts in one piece -/

/-- A text in one piece that fails does so as its start. -/
theorem textStart_of_textChunk_error (h : r.textChunk id role delta = .error error) :
    r.textStart (id.getD "") (role.getD .assistant) = .error error.ofStart := by
  unfold textChunk at h
  simp only at h
  unfold textStart
  split at h
  · rename_i hempty
    cases h
    rw [if_pos hempty]
    rfl
  · rename_i hempty
    rw [if_neg hempty]
    split at h
    · rename_i hknown
      cases h
      rw [if_pos hknown]
      rfl
    · rename_i hknown
      rw [if_neg hknown]
      cases hname : r.nameFor (role.getD .assistant) with
      | ok name =>
        rw [hname] at h
        cases h
      | error error' =>
        rw [hname] at h
        cases h
        rw [(nameFor_failure hname).1]
        rfl

/-- A text in one piece that is accepted is started, given its content and ended. -/
theorem textStart_of_textChunk (h : r.textChunk id role delta = .ok r') :
    ∃ r₁ r₂, r.textStart (id.getD "") (role.getD .assistant) = .ok r₁ ∧
      r₁.textContent (id.getD "") (delta.getD "") = .ok r₂ ∧ r₂.textEnd (id.getD "") = .ok r' := by
  unfold textChunk at h
  simp only at h
  split at h
  · cases h
  · rename_i hempty
    split at h
    · cases h
    · rename_i hknown
      have hnew : r.texts.lookup (id.getD "") = none := Option.not_isSome_iff_eq_none.1 hknown
      cases hname : r.nameFor (role.getD .assistant) with
      | error error =>
        rw [hname] at h
        cases h
      | ok name =>
        rw [hname] at h
        cases h
        have hstart : r.textStart (id.getD "") (role.getD .assistant)
            = .ok (r.pushText (id.getD "")
                { id := some (id.getD ""), role := role.getD .assistant, name := some name } ""
                false) := by
          rw [textStart, if_neg hempty, if_neg hknown, hname]
          rfl
        refine ⟨_, _, hstart, textContent_last hnew _ "" (delta.getD ""), ?_⟩
        rw [String.empty_append]
        exact textEnd_last hnew _ _

/-! ## Logs -/

/-- **An entry comes to the same when it is spelt out**, or it fails for the same reason. -/
theorem steps_spelledOut (r : Replay) (e : Entry) :
    r.steps e.spelledOut = match r.step e with
      | .ok r' => (r', none)
      | .error error => (r, some error.ofStart) := by
  unfold Entry.spelledOut
  split
  · rename_i id role delta hbody
    have hstep : r.step e = r.textChunk id role delta := step_of_body? hbody
    rw [hstep, Body.closedText, List.map_cons]
    cases hchunk : r.textChunk id role delta with
    | error error =>
      have hstart : r.event e.timestamp (.textStart (id.getD "") (role.getD .assistant))
          = .error error.ofStart := textStart_of_textChunk_error hchunk
      have hfirst : r.step (.ofEvent e.timestamp
          (Body.textStart (id.getD "") (role.getD .assistant) : Event))
            = .error error.ofStart := (step_frame rfl rfl).trans hstart
      rw [steps, hfirst]
    | ok r' =>
      obtain ⟨r₁, r₂, hstart, hcontent, hend⟩ := textStart_of_textChunk hchunk
      refine (steps_frame (b := .textStart _ _) rfl hstart).trans ?_
      refine (steps_frame (b := .textContent _ _) rfl hcontent).trans ?_
      exact steps_frame (b := .textEnd _) rfl hend
  · rename_i hother
    rw [steps]
    cases hstep : r.step e with
    | ok r' => rfl
    | error error =>
      rcases step_failure hstep with ⟨reason, rfl⟩ | ⟨b, hbody, hfailure⟩
      · rfl
      · have hsame : error.ofStart = error :=
          hfailure.ofStart_eq fun id role delta hb => hother id role delta (hb ▸ hbody)
        simp only [hsame]

/-- A log comes to the same when its texts are spelt out, or it fails for the same reason. -/
theorem steps_flatMap_spelledOut (r : Replay) (log : List Entry) :
    r.steps (log.flatMap Entry.spelledOut) = ((r.steps log).1, (r.steps log).2.map .ofStart) := by
  induction log generalizing r with
  | nil => rfl
  | cons e log ih =>
    rw [List.flatMap_cons, steps_append, steps_spelledOut, steps]
    cases r.step e with
    | error error => rfl
    | ok r' => exact ih r'

end Replay

/-- **A text in one piece is a closed message.**  A log in which every text in one piece is spelt
out shows the same messages, and fails for the same reason if it fails, which at a text in one piece
is now one of its start. -/
theorem replay_spelledOut (app user : String) (log : List Entry) :
    replay app user (log.flatMap Entry.spelledOut) =
      { messages := (replay app user log).messages
        error := (replay app user log).error.map .ofStart } := by
  unfold replay
  rw [Replay.steps_flatMap_spelledOut]
  rcases ({ app, user } : Replay).steps log with ⟨r, _ | error⟩
  · exact congrArg (Replayed.mk r.messages) r.ofStart_unfinished.symm
  · rfl

end AgentStream
