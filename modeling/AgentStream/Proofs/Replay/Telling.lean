/-
# What a replay knows of what was said

While a log is replayed, the texts and tool calls that are known point at what was opened and
started, and what was gathered of them is what was said so far.

* `TextSoFar.fresh`, `CallSoFar.fresh` : nothing was said of what is not known;
* `Replay.Tells` : a replay knows what was said, and shows what is told so far;
* `placed_step`, `started_step`, `going_step`, `given_step` in `Replay.Tells` : what an event keeps of
  it, part by part.
-/
import AgentStream.Proofs.Replay.Causes
import AgentStream.Proofs.Replay.Effects
import AgentStream.Proofs.Replay.Places

namespace AgentStream

open Body

variable {r r' : Replay} {app user id : String} {timestamp : Nat} {b : Body} {bodies : List Body}
  {said : List (Nat × Body)} {o : Opening}

/-! ## What the stages say -/

namespace Body

theorem mem_textEvents (hb : b ∈ bodies) (hid : b.textId? = some id) : b ∈ textEvents id bodies :=
  List.mem_filter.2 ⟨hb, decide_eq_true hid⟩

theorem mem_callEvents (hb : b ∈ bodies) (hid : b.callId? = some id) : b ∈ callEvents id bodies :=
  List.mem_filter.2 ⟨hb, decide_eq_true hid⟩

theorem textId?_ne (events : textEvents id bodies = []) (hb : b ∈ bodies) : b.textId? ≠ some id := by
  intro hid
  have hmem : b ∈ textEvents id bodies := mem_textEvents hb hid
  rw [events] at hmem
  exact List.not_mem_nil hmem

theorem callId?_ne (events : callEvents id bodies = []) (hb : b ∈ bodies) : b.callId? ≠ some id := by
  intro hid
  have hmem : b ∈ callEvents id bodies := mem_callEvents hb hid
  rw [events] at hmem
  exact List.not_mem_nil hmem

/-- Only the pieces of a text add to it. -/
theorem pieces_eq_nil (h : ∀ delta, textContent id delta ∉ bodies) :
    bodies.filterMap (pieceOf? id) = [] := by
  rw [List.filterMap_eq_nil_iff]
  intro b hb
  cases b with
  | textContent id' delta =>
    refine if_neg ?_
    rintro rfl
    exact h delta hb
  | _ => rfl

/-- Only what a tool call is given adds to its arguments. -/
theorem arguments_eq_nil (h : ∀ delta, toolArgs id delta ∉ bodies) :
    bodies.filterMap (argumentOf? id) = [] := by
  rw [List.filterMap_eq_nil_iff]
  intro b hb
  cases b with
  | toolArgs id' delta =>
    refine if_neg ?_
    rintro rfl
    exact h delta hb
  | _ => rfl

end Body

/-- Nothing has been said of a text that is not known, and no tool was called from it. -/
theorem TextSoFar.fresh (h : TextSoFar id bodies none) :
    textOf id bodies = "" ∧ callsFrom id bodies = [] ∧ textEnd id ∉ bodies := by
  cases h with
  | unknown events free =>
    refine ⟨?_, ?_, fun hend => textId?_ne events hend rfl⟩
    · rw [textOf, pieces_eq_nil fun _ hpiece => textId?_ne events hpiece rfl, String.join_nil]
    · rw [callsFrom, List.filterMap_eq_nil_iff]
      intro b hb
      cases b with
      | toolStart => exact if_neg (free _ hb)
      | _ => rfl

/-- A text that goes on has not ended. -/
theorem TextSoFar.going (h : TextSoFar id bodies (some false)) : textEnd id ∉ bodies := by
  intro hend
  have hmem : textEnd id ∈ textEvents id bodies := mem_textEvents hend rfl
  cases h with
  | started events =>
    rw [events] at hmem
    simp at hmem

/-- A tool call that is not known has no arguments. -/
theorem CallSoFar.fresh (h : CallSoFar id bodies none) :
    argumentsOf id bodies = "" ∧ toolEnd id ∉ bodies := by
  cases h with
  | unknown events =>
    refine ⟨?_, fun hend => callId?_ne events hend rfl⟩
    rw [argumentsOf, arguments_eq_nil fun _ hpiece => callId?_ne events hpiece rfl, String.join_nil]

/-- A tool call that is given its arguments has not ended. -/
theorem CallSoFar.going (h : CallSoFar id bodies (some .awaitingArgs)) : toolEnd id ∉ bodies := by
  intro hend
  have hmem : toolEnd id ∈ callEvents id bodies := mem_callEvents hend rfl
  cases h with
  | calling events =>
    rw [events] at hmem
    exact Body.not_mem_calling (.inl rfl) hmem

theorem opensId?_iff : b.opensId? = some id ↔ b.OpensText id ∨ b.CallsFrom id := by
  cases b with
  | textStart id' => exact ⟨fun h => .inl (Option.some.inj h), fun h => h.elim (congrArg some) nofun⟩
  | textChunk id' => exact ⟨.inl, fun h => h.elim (fun h => h) nofun⟩
  | toolStart _ _ parent => exact ⟨.inr, fun h => h.elim nofun fun h => h⟩
  | _ => exact iff_of_false nofun fun h => h.elim nofun nofun

namespace Replay

/-- A text is known if an event has made it known. -/
theorem Traced.opened_iff (ht : r.Traced bodies) :
    (bodies.all fun b => b.opensId? != some id) = true ↔ r.texts.lookup id = none := by
  rw [← textStage_eq_none, List.all_eq_true]
  constructor
  · intro hall
    by_contra hstage
    obtain ⟨b, hb, hopens⟩ := (ht.text id).begun hstage
    exact bne_iff_ne.1 (hall b hb) (opensId?_iff.2 hopens)
  · intro hstage b hb
    refine bne_iff_ne.2 ?_
    intro hopens
    have hsofar := ht.text id
    rw [hstage] at hsofar
    cases hsofar with
    | unknown events free =>
      rcases opensId?_iff.1 hopens with ho | hc
      · exact textId?_ne events hb (textId?_of_opens ho)
      · exact free b hb hc

theorem nameFor_eq {role : Role} {name : String} (h : r.nameFor role = .ok name) :
    name = if role = .user then r.user else r.app := by
  cases role <;> cases h <;> rfl

/-! ## What a replay shows -/

/-- A replay of what was said points at the messages of the openings, and shows of texts and tool
calls what is told so far. -/
structure Tells (app user : String) (said : List (Nat × Body)) (r : Replay) : Prop where
  ofApp : r.app = app
  ofUser : r.user = user
  traced : r.Traced (said.map Prod.snd)
  placed : Placed r.texts (openings said)
  started : Started r.calls (said.map Prod.snd)
  /-- A text that goes on was started, and what was gathered of it is what was said. -/
  going : ∀ id t, r.texts.lookup id = some t → t.ended = false →
    t.content = textOf id (said.map Prod.snd) ∧
      ∃ role, (openings said)[t.index]? = some (.text id role)
  given : ∀ id c, r.calls.lookup id = some c → c.phase = .awaitingArgs →
    c.arguments = argumentsOf id (said.map Prod.snd)
  messages : r.messages =
    (openings said).map (Opening.shown app user (Account.soFar (said.map Prod.snd)))

theorem tells_nil (app user : String) : ({ app, user } : Replay).Tells app user [] where
  ofApp := rfl
  ofUser := rfl
  traced := traced_nil app user
  placed _ _ := ⟨nofun, nofun⟩
  started _ _ _ := ⟨nofun, nofun⟩
  going := nofun
  given := nofun
  messages := rfl

namespace Tells

theorem length (h : r.Tells app user said) : r.messages.length = (openings said).length := by
  rw [h.messages, List.length_map]

/-- The stage of a text that goes on. -/
theorem textEnd_not_mem (h : r.Tells app user said) {t : TextState}
    (hl : r.texts.lookup id = some t) (hgoing : t.ended = false) :
    Body.textEnd id ∉ said.map Prod.snd := by
  have hsofar := h.traced.text id
  rw [textStage, hl, Option.map_some, hgoing] at hsofar
  exact hsofar.going

theorem toolEnd_not_mem (h : r.Tells app user said) {c : CallState}
    (hl : r.calls.lookup id = some c) (hgoing : c.phase = .awaitingArgs) :
    Body.toolEnd id ∉ said.map Prod.snd := by
  have hsofar := h.traced.call id
  rw [callStage, hl, Option.map_some, hgoing] at hsofar
  exact hsofar.going

theorem text_fresh (h : r.Tells app user said) (hn : r.texts.lookup id = none) :
    textOf id (said.map Prod.snd) = "" ∧ callsFrom id (said.map Prod.snd) = [] ∧
      Body.textEnd id ∉ said.map Prod.snd := by
  have hsofar := h.traced.text id
  rw [textStage, hn] at hsofar
  exact hsofar.fresh

theorem call_fresh (h : r.Tells app user said) (hn : r.calls.lookup id = none) :
    argumentsOf id (said.map Prod.snd) = "" ∧ Body.toolEnd id ∉ said.map Prod.snd := by
  have hsofar := h.traced.call id
  rw [callStage, hn] at hsofar
  exact hsofar.fresh

/-! ## One more event -/

theorem bodies_concat (said : List (Nat × Body)) (timestamp : Nat) (b : Body) :
    (said ++ [(timestamp, b)]).map Prod.snd = said.map Prod.snd ++ [b] := List.map_append

/-- A tool call from a text that is not known opens a message. -/
theorem opening?_unknown (h : r.Tells app user said) {call name parent : String}
    (hn : r.texts.lookup parent = none) :
    opening? (said.map Prod.snd) timestamp (.toolStart call name (some parent))
      = some (.parent parent) := by
  rw [opening?, Option.filter_some, if_pos (h.traced.opened_iff.2 hn), Option.map_some]

/-- A tool call from a known text opens none. -/
theorem opening?_known (h : r.Tells app user said) {call name parent : String} {t : TextState}
    (hl : r.texts.lookup parent = some t) :
    opening? (said.map Prod.snd) timestamp (.toolStart call name (some parent)) = none := by
  rw [opening?, Option.filter_some, if_neg, Option.map_none]
  intro hall
  rw [h.traced.opened_iff.1 hall] at hl
  cases hl

/-- A user's turn opens its message. -/
theorem opening?_turn {value : Json} {m : Message}
    (hdecoded : decodeJson Message.decode value = .ok m) (before : List Body) :
    opening? before timestamp (.custom userMessageName value) = some (.turn m) := by
  have hname : userMessageName = "user.message" := rfl
  rw [opening?, if_pos hname, hdecoded]
  rfl

/-- What is shown as an activity opens a message of its own. -/
theorem opening?_activity {content : Json} (hshown : activityContent b = some content)
    (hother : ∀ value, b ≠ .custom userMessageName value) (before : List Body) :
    opening? before timestamp b = some (.alone (activityMessage b.kind timestamp content)) := by
  cases b with
  | custom name value =>
    cases hshown
    exact if_neg fun hname => hother value (congrArg (Body.custom · value) hname)
  | _ => cases hshown <;> rfl

theorem opening?_run (hb : b.isRun = true) (before : List Body) :
    opening? before timestamp b = none := by
  cases b <;> first | rfl | cases hb

/-- An event of a run, or one that is shown as an activity, says nothing of texts or calls. -/
theorem silent_of (hb : b.isRun = true ∨ ∃ content, activityContent b = some content) :
    b.Silent := by
  cases b with
  | textContent | textEnd | toolStart | toolArgs | toolEnd =>
    rcases hb with hb | ⟨_, hb⟩ <;> cases hb
  | _ => exact ⟨fun _ => rfl, fun _ => rfl, fun _ => rfl, rfl⟩

theorem placed_step (h : r.Tells app user said) (he : r.Effect timestamp b r') :
    Placed r'.texts (openings (said ++ [(timestamp, b)])) := by
  rw [openings_concat]
  cases he with
  | textStart hnew hname =>
    simp only [Replay.pushText, h.length]
    exact h.placed.text hnew rfl _ _
  | textChunk hnew hname =>
    simp only [Replay.pushText, h.length]
    exact h.placed.text hnew rfl _ _
  | textContent hknown hgoing =>
    rw [opening?, Option.toList_none, List.append_nil]
    dsimp only [setMessage]
    exact h.placed.update _ fun _ => rfl
  | textEnd hknown hgoing =>
    rw [opening?, Option.toList_none, List.append_nil]
    dsimp only [setMessage]
    exact h.placed.update _ fun _ => rfl
  | toolStart hnew hknown =>
    rw [h.opening?_known hknown, Option.toList_none, List.append_nil]
    exact h.placed
  | toolStartAlone hnew hunknown =>
    rw [h.opening?_unknown hunknown, Option.toList_some]
    simp only [Replay.pushText, h.length]
    exact h.placed.text hunknown rfl _ _
  | toolArgs hknown hgoing =>
    rw [opening?, Option.toList_none, List.append_nil]
    exact h.placed
  | toolEnd hknown hgoing hparent =>
    rw [opening?, Option.toList_none, List.append_nil]
    exact h.placed
  | toolResult hknown hgoing => exact h.placed.other rfl
  | turn hdecoded huser =>
    rw [opening?_turn hdecoded]
    exact h.placed.other rfl
  | activity hshown hother =>
    rw [opening?_activity hshown hother]
    exact h.placed.other rfl
  | run hsilent =>
    rw [opening?_run hsilent, Option.toList_none, List.append_nil]
    exact h.placed

theorem started_step (h : r.Tells app user said) (he : r.Effect timestamp b r') :
    Started r'.calls (said.map Prod.snd ++ [b]) := by
  cases he with
  | toolStart hnew hknown =>
    -- The message of the text has the calls that were started from it so far.
    rename_i call name parent t
    obtain ⟨o, hat, htext⟩ := h.placed.opening hknown
    have hcalls : (r.callsAt t.index).length = (callsFrom parent (said.map Prod.snd)).length := by
      rw [callsAt, h.messages, List.getElem?_map, hat, Option.map_some, Option.map_some,
        Option.getD_some, Opening.shown_toolCalls htext]
      exact List.length_map _
    rw [hcalls]
    exact h.started.call hnew _ _ _ _
  | toolStartAlone hnew hunknown =>
    have hcalls := congrArg List.length (h.text_fresh hunknown).2.1
    rw [show (0 : Nat) = _ from hcalls.symm]
    exact h.started.call hnew _ _ _ _
  | toolArgs hknown hgoing | toolEnd hknown hgoing hparent | toolResult hknown hgoing =>
    dsimp only [push]
    exact Started.other (h.started.update _ fun _ _ => rfl) fun _ => rfl
  | activity hshown hother => exact h.started.other (silent_of (.inr ⟨_, hshown⟩)).call
  | run hsilent => exact h.started.other (silent_of (.inl hsilent)).call
  | _ => exact h.started.other fun _ => rfl

/-- A text of which nothing is said goes on as before. -/
theorem going_concat (h : r.Tells app user said) (timestamp : Nat) (hb : b.pieceOf? id = none)
    {t : TextState} (hl : r.texts.lookup id = some t) (hgoing : t.ended = false) :
    t.content = textOf id (said.map Prod.snd ++ [b]) ∧
      ∃ role, (openings (said ++ [(timestamp, b)]))[t.index]? = some (.text id role) := by
  obtain ⟨hcontent, role, hat⟩ := h.going id t hl hgoing
  constructor
  · rw [textOf_concat, hb, Option.getD_none, String.append_empty, hcontent]
  · rw [openings_concat]
    exact ⟨role, getElem?_append_some hat _⟩

theorem going_step (h : r.Tells app user said) (he : r.Effect timestamp b r') :
    ∀ id t, r'.texts.lookup id = some t → t.ended = false →
      t.content = textOf id (said.map Prod.snd ++ [b]) ∧
        ∃ role, (openings (said ++ [(timestamp, b)]))[t.index]? = some (.text id role) := by
  intro key t' hl hgoing
  cases he with
  | textStart hnew hname =>
    rw [pushText, lookup_concat hnew] at hl
    split at hl
    · rename_i id name role hk
      cases hl
      subst hk
      constructor
      · rw [textOf_concat, (h.text_fresh hnew).1]
        rfl
      · rw [openings_concat]
        refine ⟨role, ?_⟩
        simp only [h.length]
        exact List.getElem?_concat_length
    · exact h.going_concat timestamp rfl hl hgoing
  | textChunk hnew hname =>
    rw [pushText, lookup_concat hnew] at hl
    split at hl
    · cases hl
      cases hgoing
    · exact h.going_concat timestamp rfl hl hgoing
  | textContent hknown hold =>
    rename_i id delta t
    simp only [lookup_update] at hl
    split at hl
    · rename_i hk
      subst hk
      rw [hknown] at hl
      cases hl
      obtain ⟨hcontent, role, hat⟩ := h.going key t hknown hold
      constructor
      · rw [textOf_concat, pieceOf?, if_pos rfl, Option.getD_some, ← hcontent]
      · rw [openings_concat]
        exact ⟨role, getElem?_append_some hat _⟩
    · rename_i hk
      have hother : (Body.textContent id delta).pieceOf? key = none := if_neg (Ne.symm hk)
      exact h.going_concat timestamp hother hl hgoing
  | textEnd hknown hold =>
    simp only [setMessage, lookup_update] at hl
    split at hl
    · -- The text has ended, so it does not go on.
      obtain ⟨_, -, rfl⟩ := Option.map_eq_some_iff.1 hl
      cases hgoing
    · exact h.going_concat timestamp rfl hl hgoing
  | toolStartAlone hnew hunknown =>
    simp only [pushText, lookup_concat hunknown] at hl
    split at hl
    · cases hl
      cases hgoing
    · exact h.going_concat timestamp rfl hl hgoing
  | activity hshown hother =>
    exact h.going_concat timestamp ((silent_of (.inr ⟨_, hshown⟩)).piece key) hl hgoing
  | run hsilent =>
    exact h.going_concat timestamp ((silent_of (.inl hsilent)).piece key) hl hgoing
  | _ => exact h.going_concat timestamp rfl hl hgoing

/-- A tool call that is given nothing has the arguments that it had. -/
theorem given_concat (h : r.Tells app user said) (hb : b.argumentOf? id = none) {c : CallState}
    (hl : r.calls.lookup id = some c) (hgoing : c.phase = .awaitingArgs) :
    c.arguments = argumentsOf id (said.map Prod.snd ++ [b]) := by
  rw [argumentsOf_concat, hb, Option.getD_none, String.append_empty, h.given id c hl hgoing]

theorem given_step (h : r.Tells app user said) (he : r.Effect timestamp b r') :
    ∀ id c, r'.calls.lookup id = some c → c.phase = .awaitingArgs →
      c.arguments = argumentsOf id (said.map Prod.snd ++ [b]) := by
  intro key c' hl hgoing
  -- A call that starts is given nothing yet.
  have hstarts {call name parent : String} {i : Nat} (hnew : r.calls.lookup call = none)
      (hl : (r.calls ++ [(call, (⟨parent, "", .awaitingArgs, i⟩ : CallState))]).lookup key
        = some c') :
      c'.arguments = argumentsOf key (said.map Prod.snd ++ [.toolStart call name (some parent)]) := by
    rw [lookup_concat hnew] at hl
    split at hl
    · rename_i hk
      cases hl
      rw [hk, argumentsOf_concat, (h.call_fresh hnew).1]
      rfl
    · exact h.given_concat rfl hl hgoing
  cases he with
  | toolStart hnew hknown => exact hstarts hnew hl
  | toolStartAlone hnew hunknown => exact hstarts hnew hl
  | toolArgs hknown hold =>
    rename_i id delta c
    simp only [lookup_update] at hl
    split at hl
    · rename_i hk
      subst hk
      rw [hknown] at hl
      cases hl
      rw [argumentsOf_concat, argumentOf?, if_pos rfl, Option.getD_some, ← h.given key c hknown hold]
    · rename_i hk
      have hother : (Body.toolArgs id delta).argumentOf? key = none := if_neg (Ne.symm hk)
      exact h.given_concat hother hl hgoing
  | toolEnd hknown hold hparent =>
    simp only [lookup_update] at hl
    split at hl
    · obtain ⟨_, -, rfl⟩ := Option.map_eq_some_iff.1 hl
      cases hgoing
    · exact h.given_concat rfl hl hgoing
  | toolResult hknown hold =>
    simp only [push, lookup_update] at hl
    split at hl
    · obtain ⟨_, -, rfl⟩ := Option.map_eq_some_iff.1 hl
      cases hgoing
    · exact h.given_concat rfl hl hgoing
  | activity hshown hother =>
    exact h.given_concat ((silent_of (.inr ⟨_, hshown⟩)).argument key) hl hgoing
  | run hsilent => exact h.given_concat ((silent_of (.inl hsilent)).argument key) hl hgoing
  | _ => exact h.given_concat rfl hl hgoing

end Tells

end Replay

end AgentStream
