/-
# Replays of growing logs

What a replay has shown stands as the log grows.  A text that has ended is said nothing more of, and
a tool call whose arguments are complete is given no more of them; so later events add messages and
tool calls behind the others, give a content where there was none, and give arguments to a call
whose end comes later.

* `TextShape.sealed`, `CallShape.sealed` : nothing is added behind the end of a text or a call;
* `Message.Grows` : a message stands in a later one;
* `Replay.Tells.grows` : the messages of a replay stand in those of one that has gone on;
* `replay_grows` : the messages of a log stand in those of a longer one.
-/
import AgentStream.Proofs.Replay.Told

namespace AgentStream

open Body

variable {r r' : Replay} {app user id : String} {xs ys : List Body} {said more : List (Nat × Body)}

/-! ## Nothing behind an end -/

/-- No event of a text comes behind its end. -/
theorem TextShape.sealed (h : TextShape id (xs ++ ys)) (hend : textEnd id ∈ xs) : ys = [] := by
  cases ys with
  | nil => rfl
  | cons b ys =>
    rcases h.split with ⟨rfl, -⟩ | ⟨⟨role, deltas, rfl⟩, -⟩
    · exact absurd hend List.not_mem_nil
    · simp at hend

/-- No arguments of a tool call come behind its end. -/
theorem CallShape.sealed (h : CallShape id (xs ++ ys)) (hend : toolEnd id ∈ xs) {delta : String} :
    toolArgs id delta ∉ ys := by
  intro hmem
  obtain ⟨front, behind, rfl⟩ := List.append_of_mem hmem
  rw [← List.append_assoc] at h
  have hbefore : toolEnd id ∈ xs ++ front := List.mem_append_left _ hend
  rcases h.split with ⟨hnone, -⟩ | ⟨⟨name, parent, deltas, hcalling⟩, -⟩
    | ⟨-, -, messageId, content, role, -, hresult⟩
  · rw [hnone] at hbefore
    exact List.not_mem_nil hbefore
  · rw [hcalling] at hbefore
    exact Body.not_mem_calling (.inl rfl) hbefore
  · cases hresult

/-- A text that has ended has all its events. -/
theorem TextSoFar.shape {stage : Option Bool} (h : TextSoFar id xs stage)
    (hend : textEnd id ∈ textEvents id xs) : TextShape id (textEvents id xs) := by
  cases h with
  | unknown events =>
    rw [events]
    exact .absent
  | started events =>
    rw [events] at hend
    simp at hend
  | ended shape => exact shape

/-- A tool call that has ended lacks at most its result. -/
theorem CallSoFar.shape {stage : Option CallPhase} (h : CallSoFar id xs stage)
    (hend : toolEnd id ∈ callEvents id xs) : ∃ result, CallShape id (callEvents id xs ++ result) := by
  cases h with
  | unknown events =>
    rw [events] at hend
    exact absurd hend List.not_mem_nil
  | calling events =>
    rw [events] at hend
    exact absurd hend (Body.not_mem_calling (.inl rfl))
  | @called name parent deltas events named =>
    refine ⟨[toolResult "result" id "" none], ?_⟩
    rw [events, List.append_assoc]
    exact .whole deltas named (by decide)
  | answered shape known =>
    refine ⟨[], ?_⟩
    rw [List.append_nil]
    exact shape

namespace Replay

/-- What was said of a text that has ended is all that is said of it. -/
theorem Traced.textOf_append (ht : r.Traced (xs ++ ys)) (hend : Body.textEnd id ∈ xs) :
    textOf id (xs ++ ys) = textOf id xs := by
  have hevents : textEvents id (xs ++ ys) = textEvents id xs ++ textEvents id ys :=
    List.filter_append _ _
  have hown : Body.textEnd id ∈ textEvents id xs := mem_textEvents hend rfl
  have hshape : TextShape id (textEvents id (xs ++ ys)) := by
    refine (ht.text id).shape ?_
    rw [hevents]
    exact List.mem_append_left _ hown
  rw [hevents] at hshape
  have hnone : textEvents id ys = [] := hshape.sealed hown
  have hpieces : ys.filterMap (pieceOf? id) = [] :=
    pieces_eq_nil fun _ hpiece => textId?_ne hnone hpiece rfl
  rw [textOf, List.filterMap_append, hpieces, List.append_nil, textOf]

/-- The arguments that a tool call was given before its end are all that it is given. -/
theorem Traced.argumentsOf_append (ht : r.Traced (xs ++ ys)) (hend : Body.toolEnd id ∈ xs) :
    argumentsOf id (xs ++ ys) = argumentsOf id xs := by
  have hevents : callEvents id (xs ++ ys) = callEvents id xs ++ callEvents id ys :=
    List.filter_append _ _
  have hown : Body.toolEnd id ∈ callEvents id xs := mem_callEvents hend rfl
  obtain ⟨result, hshape⟩ : ∃ result, CallShape id (callEvents id (xs ++ ys) ++ result) := by
    refine (ht.call id).shape ?_
    rw [hevents]
    exact List.mem_append_left _ hown
  rw [hevents, List.append_assoc] at hshape
  have hpieces : ys.filterMap (argumentOf? id) = [] := by
    refine arguments_eq_nil fun delta hpiece => ?_
    exact hshape.sealed hown (List.mem_append_left _ (mem_callEvents hpiece rfl))
  rw [argumentsOf, List.filterMap_append, hpieces, List.append_nil, argumentsOf]

/-- A content that is told stands. -/
theorem Traced.contentSoFar_append (ht : r.Traced (xs ++ ys)) {content : Json}
    (h : contentSoFar id xs = some content) : contentSoFar id (xs ++ ys) = some content := by
  rw [contentSoFar] at h
  split at h
  · rename_i hend
    rw [contentSoFar, if_pos (List.mem_append_left _ hend), ht.textOf_append hend]
    exact h
  · cases h

/-- Arguments that are told stand, and others are told once they are complete. -/
theorem Traced.argumentsSoFar_append (ht : r.Traced (xs ++ ys)) (id : String) :
    argumentsSoFar id (xs ++ ys) = argumentsSoFar id xs ∨
      argumentsSoFar id xs = "" ∧ Body.toolEnd id ∉ xs ∧ Body.toolEnd id ∈ ys := by
  by_cases hend : Body.toolEnd id ∈ xs
  · left
    rw [argumentsSoFar, argumentsSoFar, if_pos hend, if_pos (List.mem_append_left _ hend),
      ht.argumentsOf_append hend]
  · by_cases hlater : Body.toolEnd id ∈ ys
    · exact .inr ⟨if_neg hend, hend, hlater⟩
    · left
      rw [argumentsSoFar, argumentsSoFar, if_neg hend, if_neg]
      intro hmem
      exact (List.mem_append.1 hmem).elim hend hlater

end Replay

/-! ## Messages that grow -/

/-- What a tool call keeps from its start. -/
def ToolCall.head (c : ToolCall) : String × String × String := (c.id, c.kind, c.function.name)

/-- Tool calls stand in front of later ones, and have their arguments unless these were completed
meanwhile. -/
structure ToolCall.Grow (completed : String → Prop) (calls later : List ToolCall) : Prop where
  heads : calls.map ToolCall.head <+: later.map ToolCall.head
  arguments : ∀ (i : Nat) (c c' : ToolCall), calls[i]? = some c → later[i]? = some c' →
    c'.function.arguments = c.function.arguments ∨ c.function.arguments = "" ∧ completed c.id

/-- A message stands in a later one. -/
structure Message.Grows (completed : String → Prop) (m later : Message) : Prop where
  id : later.id = m.id
  role : later.role = m.role
  name : later.name = m.name
  toolCallId : later.toolCallId = m.toolCallId
  toolName : later.toolName = m.toolName
  activityType : later.activityType = m.activityType
  content : ∀ content, m.content = some content → later.content = some content
  toolCalls : ToolCall.Grow completed m.toolCalls later.toolCalls

variable {completed : String → Prop}

theorem ToolCall.Grow.refl (calls : List ToolCall) : ToolCall.Grow completed calls calls where
  heads := List.prefix_refl _
  arguments i c c' hc hc' := by
    rw [hc] at hc'
    cases hc'
    exact .inl rfl

theorem Message.Grows.refl (m : Message) : m.Grows completed m :=
  ⟨rfl, rfl, rfl, rfl, rfl, rfl, fun _ h => h, ToolCall.Grow.refl _⟩

/-- Later calls from a text come behind the others. -/
theorem ToolCall.Grow.callsWith {arguments arguments' : String → String}
    {calls : List (String × String)} (later : List (String × String))
    (h : ∀ id, arguments' id = arguments id ∨ arguments id = "" ∧ completed id) :
    ToolCall.Grow completed (Account.callsWith arguments calls)
      (Account.callsWith arguments' (calls ++ later)) where
  heads := by
    have hheads (arguments : String → String) (calls : List (String × String)) :
        (Account.callsWith arguments calls).map ToolCall.head
          = calls.map fun x => (x.1, "function", x.2) := List.map_map
    rw [hheads, hheads, List.map_append]
    exact List.prefix_append _ _
  arguments i c c' hc hc' := by
    rw [Account.callsWith, List.getElem?_map] at hc hc'
    obtain ⟨⟨id, name⟩, hat, rfl⟩ := Option.map_eq_some_iff.1 hc
    rw [getElem?_append_some hat, Option.map_some] at hc'
    cases hc'
    exact h id

/-- The message of an opening grows with what is told. -/
theorem Opening.shown_grows {told told' : Account}
    (hcontent : ∀ id content, told.content id = some content → told'.content id = some content)
    (hcalls : ∀ id, ToolCall.Grow completed (told.calls id) (told'.calls id)) (o : Opening) :
    (o.shown app user told).Grows completed (o.shown app user told') := by
  cases o with
  | text id role => exact ⟨rfl, rfl, rfl, rfl, rfl, rfl, hcontent id, hcalls id⟩
  | whole id role content => exact ⟨rfl, rfl, rfl, rfl, rfl, rfl, fun _ h => h, hcalls id⟩
  | parent id => exact ⟨rfl, rfl, rfl, rfl, rfl, rfl, nofun, hcalls id⟩
  | turn m => exact Message.Grows.refl _
  | alone m => exact Message.Grows.refl _

/-- The messages of a replay stand in those of one that has gone on. -/
theorem Replay.Tells.grows (h : r.Tells app user said) (h' : r'.Tells app user (said ++ more))
    (hcompleted : ∀ id, Body.toolEnd id ∉ said.map Prod.snd → Body.toolEnd id ∈ more.map Prod.snd →
      completed id)
    {i : Nat} {m : Message} (hm : r.messages[i]? = some m) :
    ∃ later, r'.messages[i]? = some later ∧ m.Grows completed later := by
  have htraced : r'.Traced (said.map Prod.snd ++ more.map Prod.snd) := by
    rw [← List.map_append]
    exact h'.traced
  rw [h.messages, List.getElem?_map] at hm
  obtain ⟨o, ho, rfl⟩ := Option.map_eq_some_iff.1 hm
  let told : Account := Account.soFar (said.map Prod.snd ++ more.map Prod.snd)
  refine ⟨o.shown app user told, ?_, Opening.shown_grows ?_ ?_ o⟩
  · rw [h'.messages, List.getElem?_map, openings_append, getElem?_append_some ho, List.map_append]
    rfl
  · intro id content
    exact htraced.contentSoFar_append
  · intro id
    simp only [told, Account.soFar, callsFrom, List.filterMap_append]
    apply ToolCall.Grow.callsWith
    intro call
    rcases htraced.argumentsSoFar_append call with hsame | ⟨hnone, hbefore, hlater⟩
    · exact .inl hsame
    · exact .inr ⟨hnone, hcompleted call hbefore hlater⟩

theorem Replay.Tells.length_le (h : r.Tells app user said) (h' : r'.Tells app user (said ++ more)) :
    r.messages.length ≤ r'.messages.length := by
  rw [h.length, h'.length, openings_append, List.length_append]
  exact Nat.le_add_right _ _

/-- **What was shown stands as the log grows**, whether or not the replay of the longer log fails:
there are at least as many messages, and each stands in its place, with its content if it had one
and with its tool calls, the arguments of which are the same unless the call ends only behind the
shorter log. -/
theorem replay_grows (app user : String) (log more : List Entry) :
    (replay app user log).messages.length ≤ (replay app user (log ++ more)).messages.length ∧
      ∀ (i : Nat) (m : Message), (replay app user log).messages[i]? = some m →
        ∃ later, (replay app user (log ++ more)).messages[i]? = some later ∧
          m.Grows (fun id => Body.toolEnd id ∉ log.filterMap Entry.body? ∧
            Body.toolEnd id ∈ more.filterMap Entry.body?) later := by
  rw [replay_messages, replay_messages, Replay.steps_append]
  obtain ⟨front, behind, hlog, htells, hbehind⟩ := (Replay.tells_nil app user).steps log
  generalize (({ app, user } : Replay).steps log) = reached at htells hbehind ⊢
  obtain ⟨r, error⟩ := reached
  cases error with
  | some error =>
    -- A failure before is the end of both replays.
    exact ⟨Nat.le_refl _, fun i m hm => ⟨m, hm, Message.Grows.refl m⟩⟩
  | none =>
    rw [hbehind rfl, List.append_nil] at hlog
    rw [← hlog, List.nil_append] at htells
    obtain ⟨front', behind', hmore, htells', -⟩ := htells.steps more
    refine ⟨htells.length_le htells', ?_⟩
    intro i m hm
    refine htells.grows htells' ?_ hm
    intro id hbefore hend
    rw [bodies_said] at hbefore hend
    -- What the replay came to of the rest is a part of it.
    rw [hmore, List.filterMap_append]
    exact ⟨hbefore, List.mem_append_left _ hend⟩

/-- The message that a tool call opened, before and behind the end of the call. -/
theorem replay_grows_interleaved :
    (replay "app" "ann" (recorded (interleaved.take 4))).messages[1]?
        = some { id := some "b", role := .assistant, name := some "app",
                 toolCalls := [ToolCall.ofFunction "c" "find"] } ∧
      ∃ later, (replay "app" "ann"
            (recorded (interleaved.take 4) ++ recorded (interleaved.drop 4))).messages[1]?
          = some later ∧
        Message.Grows
          (fun id =>
            Body.toolEnd id ∉ (recorded (interleaved.take 4)).filterMap Entry.body? ∧
              Body.toolEnd id ∈ (recorded (interleaved.drop 4)).filterMap Entry.body?)
          { id := some "b", role := .assistant, name := some "app",
            toolCalls := [ToolCall.ofFunction "c" "find"] } later := by
  have hshown : (replay "app" "ann" (recorded (interleaved.take 4))).messages[1]?
      = some { id := some "b", role := .assistant, name := some "app",
               toolCalls := [ToolCall.ofFunction "c" "find"] } := by
    rw [replay_messages]
    have hsteps : ∃ r, ({ app := "app", user := "ann" } : Replay).steps
        (recorded (interleaved.take 4)) = (r, none) ∧
          r.messages[1]? = some { id := some "b", role := .assistant, name := some "app",
                                  toolCalls := [ToolCall.ofFunction "c" "find"] } := by
      refine ⟨?last, ?_, ?_⟩
      rotate_left
      · repeat refine (Replay.steps_frame rfl rfl).trans ?_
        rfl
      · rfl
    obtain ⟨r, hsteps, hat⟩ := hsteps
    rw [hsteps]
    exact hat
  exact ⟨hshown, (replay_grows "app" "ann" _ _).2 1 _ hshown⟩

end AgentStream
