/-
# The events around a conversation

The start and the end of a run carry nothing but strings.  What is noted of a user's turn is a
value in sorted form, from which the turn is decoded as it was.

* `Event.ofBytes_runStarted`, `Event.ofBytes_runFinished` : the start and the end are read back;
* `Event.ofBytes_custom` : a program's own event is read back;
* `Message.note`, `Event.ofBytes_note` : the note of a user's turn is read back.
-/
import AgentStream.Proofs.Event.RoundTrip
import AgentStream.Replay

namespace AgentStream

namespace Event

/-! ## Starts and ends -/

theorem ofBytes_runStarted (threadId runId : String) :
    ofBytes (runStarted threadId runId).encode = .ok (runStarted threadId runId) := by
  have hd : 1 ≤ Doc.nestingLimit := by decide
  exact ofBytes_of_decode rfl hd rfl

theorem ofBytes_runFinished (threadId runId : String) :
    ofBytes (runFinished threadId runId).encode = .ok (runFinished threadId runId) := by
  have hd : 1 ≤ Doc.nestingLimit := by decide
  exact ofBytes_of_decode rfl hd rfl

/-! ## Events of a program's own -/

/-- A program's own event is read back if its value is in sorted form. -/
theorem ofBytes_custom (name : String) {value : Json} (hs : value.Sorted)
    (hi : value.integral = true)
    (hd : (Body.custom name value : Event).toJson.depth ≤ Doc.nestingLimit) :
    ofBytes (Body.custom name value : Event).encode = .ok (Body.custom name value : Event) := by
  refine ofBytes_of_decode ?_ hd (decode_toJson (List.forall_mem_singleton.2 hs)
    (List.forall_mem_nil _) forall_mem_none forall_mem_none)
  show (true && (true && (value.integral && true))) = true
  rw [hi]
  rfl

end Event

/-! ## Turns of users -/

/-- The note of a user's turn. -/
def Message.note (m : Message) : Event := Body.custom Replay.userMessageName m.toJson.sorted

/-- The note of a user's turn is read back if the turn's content has no doubles. -/
theorem Event.ofBytes_note {m : Message} (hi : ∀ c ∈ m.content, c.integral = true)
    (hd : m.note.toJson.depth ≤ Doc.nestingLimit) : Event.ofBytes m.note.encode = .ok m.note :=
  Event.ofBytes_custom _ (Json.sorted_isSorted _)
    (Json.integral_sorted (Message.integral_toJson hi)) hd

end AgentStream
