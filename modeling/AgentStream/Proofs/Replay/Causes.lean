/-
# Why a replay fails

A replay that fails at a text says something of the events of the log: a text that is begun twice
was known from an event before, and a text that is left open was started and never ended.  Merging
pieces and writing events down keep the events of frames that are no pieces, so the same holds of
the events that were recorded.  That an entry is no event is only found where an event is not read
back.

* `Event.Bare`, `filter_bodies` : the events of frames that a log keeps;
* `kind_of_mem_bodies` : the kinds of all that it says;
* `Replay.Traced.reaches` : where a replay stands at the end of a log, or where it fails;
* `replay_duplicate` : a text is begun again;
* `replay_notClosed` : a text is left open;
* `replay_ne_decode` : events that are read back are found to be events.
-/
import AgentStream.Proofs.Log.Merging
import AgentStream.Proofs.Replay.Failures
import AgentStream.Proofs.Replay.Merging
import AgentStream.Proofs.Replay.WellFramed

namespace AgentStream

open Merger (merge?)

/-! ## Frames in a log -/

/-- If the event is one of a frame, it carries nothing else. -/
def Event.Bare (e : Event) : Prop := e.body.isFrame = true → e = (e.body : Event)

/-- Whether an event is one of a frame is told by its kind. -/
theorem Body.isFrame_eq (b : Body) : b.isFrame
    = ["TEXT_MESSAGE_START", "TEXT_MESSAGE_CONTENT", "TEXT_MESSAGE_END", "TOOL_CALL_START",
        "TOOL_CALL_ARGS", "TOOL_CALL_END", "TOOL_CALL_RESULT"].contains b.kind := by
  cases b <;> rfl

/-- An entry of an event of a frame says that event; one of another event says no event of a
frame. -/
theorem filter_body? {e : Event} {entry : Entry} (he : entry.payload = e.encode) (hb : e.Bare)
    {p : Body → Bool} (hp : ∀ b, p b = true → b.isFrame = true) :
    entry.body?.toList.filter p = [e.body].filter p := by
  rw [Entry.body?, Entry.event, he, e.encode_ne_nil]
  by_cases hf : e.body.isFrame = true
  · have hread : Event.ofBytes e.encode = .ok e := by
      rw [hb hf]
      exact Event.ofBytes_frame hf
    rw [hread]
    rfl
  · have hnone (b : Body) (h : b.isFrame ≠ true) : [b].filter p = [] :=
      List.filter_cons_of_neg fun hpb => h (hp b hpb)
    rw [hnone e.body hf]
    cases hread : Event.ofBytes e.encode with
    | error error => rfl
    | ok e' =>
      have hkind : e'.body.kind = e.body.kind := Event.ofBytes_kind hread
      rw [Body.isFrame_eq, ← hkind, ← Body.isFrame_eq] at hf
      exact hnone e'.body hf

/-- Merging pieces changes nothing but pieces. -/
theorem filter_joins {events stored : List Event} (h : Joins merge? events stored)
    (hb : ∀ e ∈ events, e.Bare) {p : Body → Bool}
    (hp : ∀ id text, p (.textContent id text) = false) :
    (∀ e ∈ stored, e.Bare) ∧
      (stored.map (·.body)).filter p = (events.map (·.body)).filter p := by
  induction h with
  | refl => exact ⟨hb, rfl⟩
  | tail _ hstep ih =>
    obtain ⟨hbare, hfilter⟩ := ih
    cases hstep with
    | @mk before after a b c hmerge =>
      obtain ⟨id, text, more, ha, hb, rfl⟩ := merge?_eq_some hmerge
      refine ⟨fun e he => ?_, ?_⟩
      · rcases List.mem_append.1 he with he | he
        · exact hbare e (List.mem_append_left _ he)
        · rcases List.mem_cons.1 he with rfl | he
          · -- The first of the two pieces carries nothing else, so neither does what they make.
            have hfirst : a = (a.body : Event) := hbare a (by simp) (by rw [ha]; rfl)
            intro _
            rw [hfirst]
          · exact hbare e (by simp [he])
      · rw [← hfilter]
        simp only [List.map_append, List.map_cons, List.filter_append]
        rw [ha, hb, List.filter_cons_of_neg (by simp [hp]), List.filter_cons_of_neg (by simp [hp]),
          List.filter_cons_of_neg (by simp [hp])]

/-- **What a log keeps of the frames that it recorded**: all but how the texts were cut. -/
theorem filter_bodies {log : List Entry} {stored events : List Event} (hl : Holds log stored)
    (hj : Joins merge? events stored) (hb : ∀ e ∈ events, e.Bare) {p : Body → Bool}
    (hf : ∀ b, p b = true → b.isFrame = true) (hp : ∀ id text, p (.textContent id text) = false) :
    (log.filterMap Entry.body?).filter p = (events.map (·.body)).filter p := by
  obtain ⟨hbare, hfilter⟩ := filter_joins hj hb hp
  rw [← hfilter]
  -- Only what is stored matters now, entry by entry.
  clear hj hb hfilter
  induction stored generalizing log with
  | nil => rw [hl.nil, List.filterMap_nil, List.map_nil]
  | cons e stored ih =>
    obtain ⟨entry, rest, rfl, he, hrest⟩ := hl.cons
    have hfirst := filter_body? he (hbare e List.mem_cons_self) hf
    have hsplit : (entry :: rest).filterMap Entry.body?
        = entry.body?.toList ++ rest.filterMap Entry.body? := by
      rw [List.filterMap_cons]
      cases entry.body? <;> rfl
    have hbehind := ih hrest fun e he => hbare e (List.mem_cons_of_mem _ he)
    rw [hsplit, List.filter_append, hfirst, hbehind, ← List.filter_append]
    rfl

/-- Everything that a log says is of the kind of an event that it recorded. -/
theorem kind_of_mem_bodies {log : List Entry} {stored events : List Event} (hl : Holds log stored)
    (hj : Joins merge? events stored) {b : Body} (hb : b ∈ log.filterMap Entry.body?) :
    ∃ e ∈ events, e.kind = b.kind := by
  obtain ⟨entry, hentry, hsaid⟩ := List.mem_filterMap.1 hb
  obtain ⟨e, he, hpayload⟩ : ∃ e ∈ stored, e.encode = entry.payload := by
    rw [← List.mem_map, ← hl]
    exact List.mem_map_of_mem hentry
  have hkind : e.kind = b.kind := by
    rw [Entry.body?, Entry.event, ← hpayload, e.encode_ne_nil] at hsaid
    cases hread : Event.ofBytes e.encode with
    | error error =>
      rw [hread] at hsaid
      cases hsaid
    | ok e' =>
      rw [hread] at hsaid
      cases hsaid
      exact (Event.ofBytes_kind hread).symm
  rw [← hkind]
  -- Merged pieces are of the kind of the first, so the kind is followed back through the merges.
  clear hl hb hentry hsaid hpayload hkind
  induction hj generalizing e with
  | refl => exact ⟨e, he, rfl⟩
  | tail _ hstep ih =>
    cases hstep with
    | @mk before after a b c hmerge =>
      obtain ⟨id, text, more, ha, -, rfl⟩ := merge?_eq_some hmerge
      rcases List.mem_append.1 he with he | he
      · exact ih e (List.mem_append_left _ he)
      · rcases List.mem_cons.1 he with rfl | he
        · obtain ⟨e', he', hk⟩ := ih a (by simp)
          refine ⟨e', he', hk.trans ?_⟩
          rw [Event.kind, ha]
          rfl
        · exact ih e (by simp [he])

/-- A text that is known was begun, or a tool was called from it. -/
theorem TextSoFar.begun {id : String} {bodies : List Body} {stage : Option Bool}
    (h : TextSoFar id bodies stage) (hs : stage ≠ none) :
    ∃ b ∈ bodies, b.OpensText id ∨ b.CallsFrom id := by
  have hopens {b : Body} {events : List Body} (he : Body.textEvents id bodies = b :: events)
      (hb : b.OpensText id) : ∃ b ∈ bodies, b.OpensText id ∨ b.CallsFrom id := by
    have hmem : b ∈ Body.textEvents id bodies := by
      rw [he]
      exact List.mem_cons_self
    exact ⟨b, List.mem_of_mem_filter hmem, .inl hb⟩
  cases h with
  | unknown => exact absurd rfl hs
  | started events => exact hopens events rfl
  | ended shape _ known =>
    rcases known with hne | ⟨b, hb, hc⟩
    · generalize he : Body.textEvents id bodies = events at shape hne
      cases shape with
      | absent => exact absurd rfl hne
      | streamed => exact hopens he rfl
      | whole => exact hopens he rfl
    · exact ⟨b, hb, .inr hc⟩

namespace Replay

variable {r r' : Replay} {id : String} {b : Body} {bodies : List Body} {log : List Entry}

/-! ## The end of a replay -/

/-- An entry that is accepted brings a replay to where its event does. -/
theorem Traced.step {e : Entry} (ht : r.Traced bodies) (hs : r.step e = .ok r') :
    r'.Traced (bodies ++ e.body?.toList) := by
  unfold Replay.step at hs
  by_cases hempty : e.payload.isEmpty = true
  · rw [if_pos hempty] at hs
    cases hs
    rw [Entry.body?, if_pos hempty, Option.toList_none, List.append_nil]
    exact ht
  · rw [if_neg hempty] at hs
    cases hread : e.event with
    | error error =>
      rw [hread] at hs
      cases hs
    | ok event =>
      rw [hread] at hs
      have houtcome := event_outcome ht.tidy e.timestamp event.body
      rw [show r.event e.timestamp event.body = .ok r' from hs] at houtcome
      rw [Entry.body?, if_neg hempty, hread]
      exact ht.next houtcome.1 houtcome.2

/-- A replay stands where the events of a log have brought it, or where those before an entry have
at which it fails. -/
theorem Traced.reaches (ht : r.Traced bodies) (log : List Entry) :
    match r.steps log with
    | (r', none) => r'.Traced (bodies ++ log.filterMap Entry.body?)
    | (r', some error) => ∃ front e behind, log = front ++ e :: behind ∧
        r'.Traced (bodies ++ front.filterMap Entry.body?) ∧ r'.step e = .error error := by
  induction log generalizing r bodies with
  | nil =>
    rw [Replay.steps, List.filterMap_nil, List.append_nil]
    exact ht
  | cons e log ih =>
    have hsplit (rest : List Entry) : bodies ++ (e :: rest).filterMap Entry.body?
        = bodies ++ e.body?.toList ++ rest.filterMap Entry.body? := by
      rw [List.filterMap_cons]
      cases e.body? <;> simp
    rw [Replay.steps]
    cases hs : r.step e with
    | error error =>
      exact ⟨[], e, log, rfl, by rw [List.filterMap_nil, List.append_nil]; exact ht, hs⟩
    | ok r' =>
      have hrest := ih (ht.step hs)
      simp only
      split at hrest
      · rw [hsplit]
        exact hrest
      · obtain ⟨front, e', behind, rfl, hfront, herror⟩ := hrest
        exact ⟨e :: front, e', behind, rfl, by rw [hsplit]; exact hfront, herror⟩

/-! ## Failures at texts -/

/-- The failure is neither that a text is begun again nor that one is left open. -/
def Elsewhere (error : ReplayError) : Prop :=
  ∀ id, error ≠ .duplicateTextStart id ∧ error ≠ .textNotClosed id

/-- The start of a known text is a start once more; no other event fails for this reason, because a
text is left open, or because it cannot be read. -/
theorem Failure.elsewhere {error : ReplayError} (h : Failure r b error) :
    (Elsewhere error ∧ ∀ reason, error ≠ .decode reason) ∨
      ∃ id role, b = .textStart id role ∧ r.textStage id ≠ none ∧
        error = .duplicateTextStart id := by
  cases h with
  | duplicateTextStart known =>
    refine .inr ⟨_, _, rfl, fun hn => ?_, rfl⟩
    rw [textStage_eq_none.1 hn] at known
    cases known
  | _ => exact .inl (by simp [Elsewhere])

/-- An entry that starts a known text starts it once more; no other entry fails for this reason,
or because a text is left open. -/
theorem step_elsewhere {e : Entry} {error : ReplayError} (h : r.step e = .error error) :
    Elsewhere error ∨ ∃ id role, e.body? = some (.textStart id role) ∧ r.textStage id ≠ none ∧
      error = .duplicateTextStart id := by
  rcases step_failure h with ⟨reason, rfl⟩ | ⟨b, hbody, hfailure⟩
  · exact .inl (by simp [Elsewhere])
  · rcases hfailure.elsewhere with hother | ⟨id, role, rfl, hs, he⟩
    · exact .inl hother.1
    · exact .inr ⟨id, role, hbody, hs, he⟩

theorem unfinished_ne_duplicate : r.unfinished ≠ some (.duplicateTextStart id) := by
  intro h
  rcases unfinished_cases h with ⟨_, he⟩ | ⟨_, he⟩ <;> cases he

/-- A text that is left open is known and has not ended. -/
theorem textStage_of_unfinished (ht : r.Tidy) (h : r.unfinished = some (.textNotClosed id)) :
    r.textStage id = some false := by
  unfold unfinished at h
  split at h
  · rename_i id' t hfind
    cases h
    have hlookup : r.texts.lookup id = some t :=
      (mem_iff_lookup ht.texts).1 (List.mem_of_find?_eq_some hfind)
    have hopen : t.ended = false := by simpa using List.find?_some hfind
    rw [textStage, hlookup, ← hopen]
    rfl
  · split at h
    · cases h
    · cases h

end Replay

variable {app user id : String} {log : List Entry}

/-- **Why a text is begun again.**  A replay that fails because a text starts once more has come to
that start, and behind another beginning of the text or behind a tool call from it. -/
theorem replay_duplicate (h : (replay app user log).error = some (.duplicateTextStart id)) :
    ∃ front role behind,
      log.filterMap Entry.body? = front ++ Body.textStart id role :: behind ∧
        ∃ b ∈ front, b.OpensText id ∨ b.CallsFrom id := by
  have hreach := (Replay.traced_nil app user).reaches log
  unfold replay at h
  split at hreach
  · rename_i heq
    rw [heq] at h
    exact absurd h Replay.unfinished_ne_duplicate
  · rename_i r' error heq
    rw [heq] at h
    cases h
    obtain ⟨front, e, behind, rfl, htraced, herror⟩ := hreach
    rcases Replay.step_elsewhere herror with h | ⟨id', role, hbody, hs, he⟩
    · exact absurd rfl (h id).1
    · cases he
      refine ⟨front.filterMap Entry.body?, role, behind.filterMap Entry.body?, ?_,
        (htraced.text id).begun hs⟩
      rw [List.filterMap_append, List.filterMap_cons_some hbody]

/-- **Why a text is left open.**  It was started and has not ended. -/
theorem replay_notClosed (h : (replay app user log).error = some (.textNotClosed id)) :
    (∃ role, Body.textStart id role ∈ log.filterMap Entry.body?) ∧
      Body.textEnd id ∉ log.filterMap Entry.body? := by
  have hreach := (Replay.traced_nil app user).reaches log
  unfold replay at h
  split at hreach
  · -- Every entry was accepted, so the failure is about what is left open behind them.
    rename_i r' heq
    rw [heq] at h
    have hstage := Replay.textStage_of_unfinished hreach.tidy h
    have hsofar := hreach.text id
    rw [hstage, List.nil_append] at hsofar
    cases hsofar with
    | @started role deltas events =>
      have hall (b : Body) (hb : b.textId? = some id) : b ∈ log.filterMap Entry.body? ↔
          b ∈ Body.textStart id role :: deltas.map (Body.textContent id) := by
        rw [← events, Body.textEvents, List.mem_filter]
        exact (and_iff_left (decide_eq_true hb)).symm
      refine ⟨⟨role, (hall _ rfl).2 List.mem_cons_self⟩, fun hend => ?_⟩
      have hmem := (hall _ rfl).1 hend
      simp at hmem
  · rename_i r' error heq
    rw [heq] at h
    cases h
    obtain ⟨front, e, behind, -, -, herror⟩ := hreach
    rcases Replay.step_elsewhere herror with h | ⟨_, _, _, _, he⟩
    · exact absurd rfl (h id).2
    · cases he

/-! ## Events that are read back -/

namespace Replay

variable {r : Replay} {reason : Event.ReadError}

theorem event_ne_decode (timestamp : Nat) (b : Body) :
    r.event timestamp b ≠ .error (.decode reason) := by
  intro h
  rcases (event_failure h).elsewhere with ⟨-, hne⟩ | ⟨_, _, _, _, he⟩
  · exact hne reason rfl
  · cases he

/-- No entry of an event that is read back fails because it cannot be read. -/
theorem steps_ne_decode {log : List (Nat × Event)} (h : ∀ x ∈ log, x.2.ReadBack) :
    (r.steps (entries log)).2 ≠ some (.decode reason) := by
  induction log generalizing r with
  | nil => nofun
  | cons x log ih =>
    obtain ⟨hx, hlog⟩ := List.forall_mem_cons.1 h
    have hstep : r.step (.ofEvent x.1 x.2) = r.event x.1 x.2.body := step_readBack hx x.1
    rw [entries, List.map_cons, steps, hstep]
    cases hevent : r.event x.1 x.2.body with
    | error error =>
      intro he
      cases he
      exact event_ne_decode _ _ hevent
    | ok r' => exact ih hlog

theorem unfinished_ne_decode : r.unfinished ≠ some (.decode reason) := by
  intro h
  rcases unfinished_cases h with ⟨_, he⟩ | ⟨_, he⟩ <;> cases he

end Replay

/-- **A log of events that are read back is never found to hold what is no event**, however pieces
of them were merged. -/
theorem replay_ne_decode {stored events : List Event} (hl : Holds log stored)
    (hj : Joins merge? events stored) (hread : ∀ e ∈ events, e.ReadBack) (app user : String)
    (reason : Event.ReadError) : (replay app user log).error ≠ some (.decode reason) := by
  obtain ⟨timed, hmap, hsteps⟩ := Replay.steps_stored hl hj hread
  have hne : (({ app, user } : Replay).steps log).2 ≠ some (.decode reason) := by
    rw [hsteps]
    exact Replay.steps_ne_decode fun x hx => hread x.2 (hmap ▸ List.mem_map_of_mem hx)
  unfold replay
  split
  · rename_i heq
    rw [heq] at hne
    exact hne
  · exact Replay.unfinished_ne_decode

end AgentStream
