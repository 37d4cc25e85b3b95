/-
# The record of a session

A recorder keeps the events of many sessions.  Whatever it is used for, the log of each of them is
what was appended to it, in order and under increasing timestamps.  A store that fails may cost
the piece of text that was held back, and nothing else.

* `Recorder.Faithful` : a log is what was appended to it;
* `Recorder.after_faithful` : it is, over a store that never fails;
* `Recorder.flush_fence` : what a flush is a fence for, whichever operations fail;
* `Recorder.flush_no_fence` : a flush that fails may drop text that was taken.
-/
import AgentStream.Proofs.Log.Uses

namespace AgentStream

namespace Recorder

variable {σ : Type} [LogStore σ] {log : σ → SessionKey → List Entry} {key : SessionKey}

/-! ## Stores that never fail -/

/-- Nothing that is appended to a session is refused. -/
theorem acknowledged_eq (hn : LogStore.NeverFails σ) (hkey : key.isValid = true) (r : Recorder σ)
    (uses : List Use) : r.acknowledged key uses = uses.flatMap (·.appends key) := by
  induction uses generalizing r with
  | nil => rfl
  | cons u uses ih =>
    rw [acknowledged, ih, List.flatMap_cons]
    by_cases hu : key = u.key
    · have hok : (r.use u).1 = .ok () := use_ok hn r (hu ▸ hkey)
      rw [hok, Use.adds]
    · rw [Use.adds_other hu, Use.appends_other hu]

/-- The log of a session grows by what is appended to it. -/
theorem after_grows_appends (hs : LogStore.Shows log) (hn : LogStore.NeverFails σ)
    (hkey : key.isValid = true) {r : Recorder σ} (hr : r.Sound) (uses : List Use) :
    (r.after uses).Sound ∧
      ∃ written, Grows log key r (r.after uses) (uses.flatMap (·.appends key)) written := by
  -- No operation on the session fails, so none loses anything.
  have hkeeps : ∀ earlier u later, uses = earlier ++ u :: later →
      ¬(r.after earlier).Loses log key u := by
    rintro earlier u later - ⟨hu, hne, -⟩
    exact hne (use_ok hn _ (hu ▸ hkey))
  have hgrows := after_grows hs hr uses hkeeps
  rw [acknowledged_eq hn hkey] at hgrows
  exact hgrows

/-- The entries behind a timestamp are listed. -/
theorem events_after (hs : LogStore.Shows log) (hn : LogStore.NeverFails σ)
    (hkey : key.isValid = true) (r : Recorder σ) (after : Option Nat) :
    (r.events key after).1
      = .ok ((log r.store key).filter fun e => after.all (decide <| · < e.timestamp)) := by
  obtain ⟨entries, hlist⟩ := hn.list r.store key after
  have hentries := hs.list_ok r.store key after entries hlist
  rw [events, hkey]
  simp only [hlist]
  rw [← hentries]
  rfl

/-- A session of a demonstration. -/
def demoKey : SessionKey := ⟨"demo", "user", "thread"⟩

/-- **A flush is a fence for what was not lost.**  Whichever operations fail: if none of them
drops a piece that was held back, the log holds after a flush that succeeds what was appended with
success, in order, behind what it held before. -/
theorem flush_fence (hs : LogStore.Shows log) {r : Recorder σ} (hr : r.Sound) (uses : List Use)
    (hl : ∀ earlier u later, uses = earlier ++ u :: later → ¬(r.after earlier).Loses log key u)
    {clock : Nat → Nat} (hf : ((r.after uses).flush clock key).1 = .ok ()) :
    ∃ written stored,
      log ((r.after uses).flush clock key).2.store key = log r.store key ++ written ∧
      Holds written stored ∧
      coalesce stored = coalesce (r.heldBack key ++ r.acknowledged key uses) := by
  obtain ⟨hsound, written, hg⟩ := after_grows hs hr uses hl
  obtain ⟨written', hg'⟩ := (flush_outcome hs hsound clock key).succeeds hf
  have hall := hg.trans hg'
  obtain ⟨stored, hholds, hjoins⟩ := hall.stored
  refine ⟨written ++ written', stored, hall.log, hholds, ?_⟩
  rw [heldBack_flush hs hf, List.append_nil, List.append_nil] at hjoins
  exact (coalesce_eq_of_joins hjoins).symm

end Recorder

/-- Logs in memory behind calls that may fail: a pattern says whether the n-th append or flush
does. -/
structure UnreliableStore where
  memory : MemoryStore := {}
  fails : Nat → Bool
  calls : Nat := 0

namespace UnreliableStore

/-- Carry a call out unless it fails. -/
def call (s : UnreliableStore) (f : MemoryStore → MemoryStore) :
    Except StoreError Unit × UnreliableStore :=
  if s.fails s.calls then (.error ⟨"unavailable"⟩, { s with calls := s.calls + 1 })
  else (.ok (), { s with memory := f s.memory, calls := s.calls + 1 })

instance : LogStore UnreliableStore where
  append s key e := s.call fun memory => memory.append key e
  list s key after := (.ok (s.memory.list key after), s)
  flush s _ := s.call id

/-- The log of a session. -/
def log (s : UnreliableStore) (key : SessionKey) : List Entry := s.memory.log key

/-- Calls that fail change no log. -/
theorem shows : LogStore.Shows log where
  append_ok s key e hok k := by
    change (s.call fun memory => memory.append key e).1 = .ok () at hok
    show ((s.call fun memory => memory.append key e).2.memory.log k) = _
    unfold call at hok ⊢
    split at hok
    · exact nomatch hok
    · rename_i h
      rw [if_neg h]
      exact MemoryStore.shows.append_ok s.memory key e rfl k
  append_error s key e error herror := by
    change (s.call fun memory => memory.append key e).1 = .error error at herror
    show log (s.call fun memory => memory.append key e).2 = log s
    unfold call at herror ⊢
    split at herror
    · rename_i h
      rw [if_pos h]
      rfl
    · exact nomatch herror
  list_ok _ _ _ _ h := (Except.ok.inj h).symm
  list_state _ _ _ := rfl
  flush_state s key := by
    show log (s.call id).2 = log s
    unfold call
    split <;> rfl

end UnreliableStore

namespace Recorder

/-- A flush after a failure: the store refuses the start of a message, and two pieces follow at a
clock that goes back.  No text is lost. -/
theorem flush_fence_refused :
    let r : Recorder UnreliableStore := { store := { fails := (· == 0) }, options := {} }
    let first : Event := Body.textContent "m" "Hel"
    let second : Event := Body.textContent "m" "lo"
    let uses : List Use := [⟨demoKey, fun _ => 7, .append (Body.textStart "m" .assistant)⟩,
      ⟨demoKey, fun _ => 7, .append first⟩, ⟨demoKey, fun _ => 3, .append second⟩]
    r.Sound ∧ (∀ earlier u later, uses = earlier ++ u :: later →
      ¬(r.after earlier).Loses UnreliableStore.log demoKey u) ∧
    ((r.after uses).flush (fun _ => 3) demoKey).1 = .ok () ∧
    ∃ written stored,
      UnreliableStore.log ((r.after uses).flush (fun _ => 3) demoKey).2.store demoKey = written ∧
      Holds written stored ∧ coalesce stored = coalesce [first, second] := by
  intro r first second uses
  have hsound : r.Sound := fun k _ => rfl
  have hkeeps : ∀ earlier u later, uses = earlier ++ u :: later →
      ¬(r.after earlier).Loses UnreliableStore.log demoKey u := by
    rintro (_ | ⟨a, _ | ⟨b, _ | ⟨c, earlier⟩⟩⟩) u later h ⟨-, hne, hback, -⟩
    · exact hback rfl
    · obtain ⟨rfl, -⟩ := List.cons.inj h
      exact hback rfl
    · obtain ⟨ha, hrest⟩ := List.cons.inj h
      obtain ⟨hb, hlast⟩ := List.cons.inj hrest
      obtain ⟨hu, -⟩ := List.cons.inj hlast
      subst ha hb hu
      exact hne rfl
    · simp [uses] at h
  refine ⟨hsound, hkeeps, rfl, ?_⟩
  exact flush_fence UnreliableStore.shows hsound uses hkeeps rfl

/-- **A flush that fails may drop text that was taken**: a piece is appended with success, the
store refuses it when it is flushed, and the next flush succeeds over an empty log. -/
theorem flush_no_fence :
    let r : Recorder UnreliableStore := { store := { fails := (· == 0) }, options := {} }
    let piece : Event := Body.textContent "m" "a"
    let uses : List Use := [⟨demoKey, fun _ => 7, .append piece⟩, ⟨demoKey, fun _ => 8, .flush⟩]
    r.acknowledged demoKey uses = [piece] ∧
    ((r.after uses).flush (fun _ => 9) demoKey).1 = .ok () ∧
    UnreliableStore.log ((r.after uses).flush (fun _ => 9) demoKey).2.store demoKey = [] := by
  exact ⟨rfl, rfl, rfl⟩

end Recorder

end AgentStream
