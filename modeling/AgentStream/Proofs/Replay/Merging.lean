/-
# Merging does not show in a replay

Two pieces of a message that follow each other say together what one piece with both texts says,
so a replay does not tell whether pieces were merged, or where a merger was flushed in between.

* `Merger.Input`, `Merger.released` : what a merger lets go of, and at which times;
* `mergeAt?` : pieces with times are merged at the time of the first;
* `Replay.steps_pieces` : two pieces of a message in a row;
* `Replay.steps_joins` : a log in which pieces were merged;
* `Replay.steps_stored` : a log that holds what events were merged into;
* `replay_released` : the replay of what a merger lets go of.
-/
import AgentStream.Proofs.Event.Pieces
import AgentStream.Proofs.Log.Merging
import AgentStream.Proofs.Replay.Basic

namespace AgentStream

/-! ## Mergers with times -/

/-- Two pieces of a message with their times, merged at the time of the first. -/
def mergeAt? (a b : Nat × Event) : Option (Nat × Event) :=
  (Merger.merge? a.2 b.2).map fun merged => (a.1, merged)

namespace Merger

/-- What a merger is used for: it takes an event at a time, or is flushed. -/
inductive Input
  | event (timestamp : Nat) (e : Event)
  | flush

/-- The events that a merger is given, with their times. -/
def given (inputs : List Input) : List (Nat × Event) :=
  inputs.flatMap fun
    | .event timestamp e => [(timestamp, e)]
    | .flush => []

/-- The events that a merger lets go of, up to a last flush. -/
def output : Merger → List Input → List Event
  | m, [] => m.flush.1
  | m, .event _ e :: rest => (m.push e).1 ++ output (m.push e).2 rest
  | m, .flush :: rest => m.flush.1 ++ output m.flush.2 rest

/-- What is held back, with its time. -/
def heldAt (m : Merger) (since : Option Nat) : List (Nat × Event) :=
  since.toList.zip m.pending.toList

/-- Use a merger that holds back what it took at some time.  What it lets go of and then holds
back has the times of what it held back and took, in order. -/
def take (m : Merger) (since : Option Nat) : Input → List (Nat × Event) × Merger × Option Nat
  | .event timestamp e =>
    let times := since.toList ++ [timestamp]
    let (out, m) := m.push e
    (times.zip out, m, if m.pending.isSome then times[out.length]? else none)
  | .flush =>
    let (out, m) := m.flush
    (since.toList.zip out, m, none)

/-- The events that a merger lets go of, up to a last flush, each at the time of the first event
that was merged into it. -/
def released : Merger → Option Nat → List Input → List (Nat × Event)
  | m, since, [] => since.toList.zip m.flush.1
  | m, since, input :: rest =>
    let (out, m, since) := m.take since input
    out ++ released m since rest

/-- A merger that merges holds a piece back just when there is a time for it. -/
structure Since (m : Merger) (since : Option Nat) : Prop where
  enabled : m.enabled = true
  timed : since.isSome = m.pending.isSome

variable {m : Merger} {since : Option Nat}

/-- What a merger is given with an input is what that input holds. -/
theorem given_cons (input : Input) (rest : List Input) :
    given (input :: rest) = given [input] ++ given rest := by
  rw [given, given, given, List.flatMap_cons, List.flatMap_cons, List.flatMap_nil,
    List.append_nil]

theorem take_eq (since : Option Nat) (timestamp : Nat) {e : Event} {out : List Event} {m' : Merger}
    (h : m.push e = (out, m')) : m.take since (.event timestamp e)
      = ((since.toList ++ [timestamp]).zip out, m',
        if m'.pending.isSome then (since.toList ++ [timestamp])[out.length]? else none) := by
  rw [take, h]

/-- An event that is taken: what it is merged with, or what it makes a merger let go of. -/
theorem take_event (h : Since m since) (timestamp : Nat) (e : Event) :
    let x := m.take since (.event timestamp e)
    Since x.2.1 x.2.2 ∧ (x.1.map Prod.snd, x.2.1) = m.push e ∧
      Joins mergeAt? (m.heldAt since ++ [(timestamp, e)]) (x.1 ++ x.2.1.heldAt x.2.2) := by
  obtain ⟨he, ht⟩ := h
  unfold heldAt
  cases hp : m.pending with
  | none =>
    have hs : since = none := by
      rw [hp] at ht
      exact Option.not_isSome_iff_eq_none.1 (by rw [ht]; nofun)
    subst hs
    rcases push_cases he e with ⟨p, merged, hpiece, -, -⟩ | hpush | hpush
    · exact nomatch hp.symm.trans hpiece
    all_goals
      rw [take_eq none timestamp hpush, hpush, hp]
      exact ⟨⟨he, rfl⟩, rfl, Joins.refl _⟩
  | some p =>
    obtain ⟨first, rfl⟩ : ∃ first, since = some first := by
      rw [hp] at ht
      exact Option.isSome_iff_exists.1 ht
    rcases push_cases he e with ⟨p', merged, hpiece, hmerge, hpush⟩ | hpush | hpush
    · cases hp.symm.trans hpiece
      rw [take_eq (some first) timestamp hpush, hpush]
      refine ⟨⟨he, rfl⟩, rfl, joins_pair ?_⟩
      rw [mergeAt?, hmerge]
      rfl
    all_goals
      rw [take_eq (some first) timestamp hpush, hpush, hp]
      exact ⟨⟨he, rfl⟩, rfl, Joins.refl _⟩

/-- What is held back is let go of at its time. -/
theorem map_heldAt (h : Since m since) : (m.heldAt since).map Prod.snd = m.pending.toList := by
  have ht := h.timed
  unfold heldAt
  cases hp : m.pending with
  | none => rw [Option.toList_none, List.zip_nil_right, List.map_nil]
  | some p =>
    rw [hp] at ht
    obtain ⟨first, rfl⟩ := Option.isSome_iff_exists.1 ht
    rfl

theorem since_flush (h : Since m since) : Since m.flush.2 none := ⟨h.enabled, rfl⟩

/-- **What a merger lets go of is what it was given, up to joining.** -/
theorem released_joins (h : Since m since) (inputs : List Input) :
    (released m since inputs).map Prod.snd = output m inputs ∧
      Joins mergeAt? (m.heldAt since ++ given inputs) (released m since inputs) := by
  induction inputs generalizing m since with
  | nil =>
    refine ⟨map_heldAt h, ?_⟩
    rw [given, List.flatMap_nil, List.append_nil]
    exact Joins.refl _
  | cons input inputs ih =>
    rw [given_cons, ← List.append_assoc]
    cases input with
    | flush =>
      obtain ⟨hout, hjoins⟩ := ih (since_flush h)
      refine ⟨?_, ?_⟩
      · show (m.heldAt since ++ released m.flush.2 none inputs).map Prod.snd = _
        rw [List.map_append, map_heldAt h, hout]
        rfl
      · have hnil : m.heldAt since ++ given [.flush] = m.heldAt since := List.append_nil _
        rw [hnil]
        exact (Joins.refl (m.heldAt since)).append hjoins
    | event timestamp e =>
      obtain ⟨hsince, hpush, htake⟩ := take_event h timestamp e
      obtain ⟨hout, hjoins⟩ := ih hsince
      refine ⟨?_, ?_⟩
      · rw [output, ← hpush, ← hout, ← List.map_append]
        rfl
      · have hrest := (Joins.refl (m.take since (.event timestamp e)).1).append hjoins
        rw [← List.append_assoc] at hrest
        exact (htake.append (Joins.refl (given inputs))).trans hrest

end Merger

/-! ## Replays of merged pieces -/

/-- What is written of an event is read back. -/
def Event.ReadBack (e : Event) : Prop := Event.ofBytes e.encode = .ok e

/-- Entries made of events with times. -/
def entries (log : List (Nat × Event)) : List Entry := log.map fun x => .ofEvent x.1 x.2

namespace Replay

variable {r : Replay}

theorem step_readBack {e : Event} (h : e.ReadBack) (timestamp : Nat) :
    r.step (.ofEvent timestamp e) = r.event timestamp e.body := by
  have hpayload : (Entry.ofEvent timestamp e).payload = e.encode := rfl
  rw [step, Entry.event, hpayload, e.encode_ne_nil, h]
  rfl

/-- A change after another one under the same id. -/
theorem update_update {α : Type} (id : String) (f g : α → α) (table : List (String × α)) :
    update id g (update id f table) = update id (fun a => g (f a)) table := by
  induction table with
  | nil => rfl
  | cons x table ih =>
    rw [update_cons, update_cons, update_cons, ih]
    split <;> rfl

/-- A piece that cannot be taken cannot be taken with any other text. -/
theorem textContent_error {id text : String} {error : ReplayError}
    (h : r.textContent id text = .error error) (text' : String) :
    r.textContent id text' = .error error := by
  unfold textContent at h ⊢
  split at h
  · exact h
  · split at h
    · rename_i hended
      rw [if_pos hended]
      exact h
    · cases h

/-- Behind a piece the next one is taken, and both say what one with both texts says. -/
theorem textContent_twice {r' : Replay} {id text : String} (h : r.textContent id text = .ok r')
    (more : String) : r'.textContent id more = r.textContent id (text ++ more) := by
  unfold textContent at h
  split at h
  · cases h
  · rename_i t ht
    split at h
    · cases h
    · rename_i hopen
      cases h
      have hlookup :
          (update id (fun t => { t with content := t.content ++ text }) r.texts).lookup id
            = some { t with content := t.content ++ text } := by
        rw [lookup_update, if_pos rfl, ht]
        rfl
      rw [textContent, textContent, hlookup, ht]
      simp only [if_neg hopen, update_update, String.append_assoc]

/-- **Two pieces of a message in a row are replayed as one with both texts.** -/
theorem steps_pieces {e e' merged : Event} (he : e.ReadBack) (he' : e'.ReadBack)
    (hmerge : Merger.merge? e e' = some merged) (hm : merged.ReadBack) (timestamp timestamp' : Nat)
    (rest : List Entry) :
    r.steps (.ofEvent timestamp e :: .ofEvent timestamp' e' :: rest)
      = r.steps (.ofEvent timestamp merged :: rest) := by
  obtain ⟨id, text, more, hb, hb', rfl⟩ := merge?_eq_some hmerge
  have hfirst : r.step (.ofEvent timestamp e) = r.textContent id text := by
    rw [step_readBack he, hb]
    rfl
  have hboth : r.step (.ofEvent timestamp { e with body := .textContent id (text ++ more) })
      = r.textContent id (text ++ more) := step_readBack hm timestamp
  rw [steps, steps, hfirst, hboth]
  cases h : r.textContent id text with
  | error error =>
    rw [textContent_error h (text ++ more)]
  | ok r' =>
    have hsecond : r'.step (.ofEvent timestamp' e') = r'.textContent id more := by
      rw [step_readBack he', hb']
      rfl
    simp only [steps, hsecond, textContent_twice h more]
    cases htwice : r.textContent id (text ++ more) with
    | error error =>
      rw [textContent_error htwice text] at h
      cases h
    | ok r'' => rfl

/-- **A log is replayed as one in which pieces were merged.** -/
theorem steps_joins {log log' : List (Nat × Event)} (h : Joins mergeAt? log log')
    (hlog : ∀ x ∈ log, x.2.ReadBack) :
    (∀ x ∈ log', x.2.ReadBack) ∧ ∀ r : Replay, r.steps (entries log) = r.steps (entries log') := by
  induction h with
  | refl => exact ⟨hlog, fun r => rfl⟩
  | tail hprior hstep ih =>
    obtain ⟨hread, hsteps⟩ := ih
    cases hstep with
    | mk before after hjoin =>
      rename_i a b c
      obtain ⟨merged, hmerge, rfl⟩ := Option.map_eq_some_iff.1 hjoin
      have ha : a.2.ReadBack := hread a (by simp)
      have hb : b.2.ReadBack := hread b (by simp)
      have hc : merged.ReadBack := by
        obtain ⟨id, text, more, hid, -, rfl⟩ := merge?_eq_some hmerge
        exact Event.ofBytes_piece hid ha more
      refine ⟨fun x hx => ?_, fun r => ?_⟩
      · rcases List.mem_append.1 hx with hx | hx
        · exact hread x (List.mem_append_left _ hx)
        · rcases List.mem_cons.1 hx with rfl | hx
          · exact hc
          · refine hread x (List.mem_append_right _ ?_)
            exact List.mem_cons_of_mem _ (List.mem_cons_of_mem _ hx)
      · rw [hsteps, entries, entries, List.map_append, List.map_append, steps_append, steps_append]
        split
        · exact steps_pieces ha hb hmerge hc _ _ _
        · rfl

/-- Events that come to entries with times can be given times themselves. -/
theorem joins_timed {events events' : List Event} (h : Joins Merger.merge? events events')
    {timed' : List (Nat × Event)} (ht : timed'.map Prod.snd = events') :
    ∃ timed, timed.map Prod.snd = events ∧ Joins mergeAt? timed timed' := by
  induction h using Relation.ReflTransGen.head_induction_on with
  | refl => exact ⟨timed', ht, Joins.refl _⟩
  | head hstep _ ih =>
    obtain ⟨timed, hmap, hjoins⟩ := ih
    cases hstep with
    | @mk before after a b c hmerge =>
      obtain ⟨xs, rest, rfl, hx, hrest⟩ := List.map_eq_append_iff.1 hmap
      obtain ⟨x, ys, rfl, rfl, hy⟩ := List.map_eq_cons_iff.1 hrest
      have hjoin : mergeAt? (x.1, a) (x.1, b) = some x := by
        rw [mergeAt?, hmerge]
        rfl
      refine ⟨xs ++ (x.1, a) :: (x.1, b) :: ys, ?_, ?_⟩
      · rw [List.map_append, hx, List.map_cons, List.map_cons, hy]
      · exact Relation.ReflTransGen.head (.mk xs ys hjoin) hjoins

/-- The entries of a log with their times. -/
theorem entries_of_holds {log : List Entry} {stored : List Event} (h : Holds log stored) :
    ∃ timed : List (Nat × Event), timed.map Prod.snd = stored ∧ entries timed = log := by
  induction stored generalizing log with
  | nil => exact ⟨[], rfl, h.nil.symm⟩
  | cons e stored ih =>
    obtain ⟨entry, rest, rfl, he, hrest⟩ := h.cons
    obtain ⟨timed, hmap, hentries⟩ := ih hrest
    refine ⟨(entry.timestamp, e) :: timed, congrArg (e :: ·) hmap, ?_⟩
    show Entry.ofEvent entry.timestamp e :: entries timed = entry :: rest
    rw [hentries, Entry.ofEvent, ← he]

/-- **A log is replayed as the events that were merged into it**, as if they were recorded at some
times. -/
theorem steps_stored {log : List Entry} {stored events : List Event} (h : Holds log stored)
    (hj : Joins Merger.merge? events stored) (hread : ∀ e ∈ events, e.ReadBack) :
    ∃ timed : List (Nat × Event), timed.map Prod.snd = events ∧
      ∀ r : Replay, r.steps log = r.steps (entries timed) := by
  obtain ⟨timed', hmap', rfl⟩ := entries_of_holds h
  obtain ⟨timed, hmap, hjoins⟩ := joins_timed hj hmap'
  refine ⟨timed, hmap, fun r => ?_⟩
  have hall : ∀ x ∈ timed, x.2.ReadBack := fun x hx =>
    hread x.2 (hmap ▸ List.mem_map_of_mem hx)
  exact ((steps_joins hjoins hall).2 r).symm

end Replay

/-- **Merging does not show in a replay.**  Whatever events a merger is given at whatever times,
as long as each is read back from its bytes, and wherever it is flushed in between: what it lets
go of is replayed as what it was given. -/
theorem replay_released (app user : String) (inputs : List Merger.Input)
    (h : ∀ x ∈ Merger.given inputs, x.2.ReadBack) :
    let m : Merger := { enabled := true }
    (m.released none inputs).map Prod.snd = m.output inputs ∧
      replay app user (entries (m.released none inputs))
        = replay app user (entries (Merger.given inputs)) := by
  intro m
  have hsince : m.Since none := ⟨rfl, rfl⟩
  obtain ⟨hout, hjoins⟩ := Merger.released_joins hsince inputs
  obtain ⟨-, hsteps⟩ := Replay.steps_joins hjoins h
  refine ⟨hout, ?_⟩
  rw [replay, replay, ← hsteps]
  rfl

/-- A message in three pieces, of which the first carries more than its text, flushed after the
second.  A piece behind the end of the message ends both replays. -/
theorem replay_released_late :
    let inputs : List Merger.Input := [
      .event 3 (Body.textStart "m" .assistant),
      .event 5 ⟨.textContent "m" "Hel", some 7, some (.arr [.str "x"])⟩,
      .event 4 (Body.textContent "m" "lo"), .flush, .event 4 (Body.textContent "m" "!"),
      .event 9 (Body.textEnd "m"), .event 9 (Body.textContent "m" "late")]
    let m : Merger := { enabled := true }
    (∀ x ∈ Merger.given inputs, x.2.ReadBack) ∧
      (m.released none inputs).map Prod.snd = m.output inputs ∧
      replay "app" "user" (entries (m.released none inputs))
        = replay "app" "user" (entries (Merger.given inputs)) := by
  intro inputs m
  have hread : ∀ x ∈ Merger.given inputs, x.2.ReadBack := by
    intro x hx
    simp only [inputs, Merger.given, List.flatMap_cons, List.flatMap_nil, List.cons_append,
      List.nil_append, List.mem_cons, List.not_mem_nil, or_false] at hx
    rcases hx with rfl | rfl | rfl | rfl | rfl | rfl
    · exact Event.ofBytes_frame rfl
    · exact Event.ofBytes_of_decode rfl (by decide) rfl
    all_goals exact Event.ofBytes_frame rfl
  exact ⟨hread, replay_released "app" "user" inputs hread⟩

end AgentStream
