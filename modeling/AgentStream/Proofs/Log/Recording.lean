/-
# What a recorder stores

A recorder stamps events and stores them one after the other, and remembers for each session what
it holds back.

* `LogStore.Shows` : a view of the logs of a store, which operations change as they should;
* `Stamped` : entries whose timestamps rise;
* `Recorder.heldBack`, `Recorder.Sound` : what is remembered of a session;
* `Recorder.Persisted`, `Recorder.persist_persisted` : what storing events does to the logs.
-/
import AgentStream.Log.Recorder
import AgentStream.Proofs.Log.Merging
import AgentStream.Proofs.Table

namespace AgentStream

/-! ## Views of stores -/

namespace LogStore

variable {σ : Type} [LogStore σ]

/-- A view of the logs of a store: an entry that is appended comes to the end of the log of its
session, an operation that fails changes nothing, and entries are listed as they stand in the
log. -/
structure Shows (log : σ → SessionKey → List Entry) : Prop where
  append_ok : ∀ s key e, (append s key e).1 = .ok () →
    ∀ k, log (append s key e).2 k = log s k ++ if k = key then [e] else []
  append_error : ∀ s key e error, (append s key e).1 = .error error →
    log (append s key e).2 = log s
  list_ok : ∀ s key after entries, (list s key after).1 = .ok entries →
    entries = (log s key).filter fun e => after.all (decide <| · < e.timestamp)
  list_state : ∀ s key after, log (list s key after).2 = log s
  flush_state : ∀ s key, log (flush s key).2 = log s

/-- No operation of a store fails. -/
structure NeverFails (σ : Type) [LogStore σ] : Prop where
  append : ∀ (s : σ) key e, (append s key e).1 = .ok ()
  list : ∀ (s : σ) key after, ∃ entries, (list s key after).1 = .ok entries
  flush : ∀ (s : σ) key, (flush s key).1 = .ok ()

end LogStore

namespace MemoryStore

theorem lookup_appendTo (key : SessionKey) (e : Entry)
    (table : List (SessionKey × List Entry)) (k : SessionKey) :
    ((appendTo key e table).lookup k).getD []
      = (table.lookup k).getD [] ++ if k = key then [e] else [] := by
  induction table with
  | nil =>
    rw [appendTo, lookup_cons_ite]
    split <;> rfl
  | cons x table ih =>
    rw [appendTo]
    by_cases hx : key = x.1
    · rw [if_pos hx, lookup_cons_ite, lookup_cons_ite, hx]
      by_cases hk : k = x.1
      · rw [if_pos hk, if_pos hk, if_pos hk]
        rfl
      · rw [if_neg hk, if_neg hk, if_neg hk, List.append_nil]
    · rw [if_neg hx, lookup_cons_ite, lookup_cons_ite]
      by_cases hk : k = x.1
      · rw [if_pos hk, if_pos hk, if_neg fun h => hx (h.symm.trans hk), List.append_nil]
      · rw [if_neg hk, if_neg hk, ih]

/-- Logs in memory can be seen. -/
theorem shows : LogStore.Shows MemoryStore.log where
  append_ok s key e _ k := lookup_appendTo key e s.logs k
  append_error _ _ _ _ h := nomatch h
  list_ok _ _ _ _ h := (Except.ok.inj h).symm
  list_state _ _ _ := rfl
  flush_state _ _ := rfl

/-- Logs in memory do not fail. -/
theorem neverFails : LogStore.NeverFails MemoryStore where
  append _ _ _ := rfl
  list _ _ _ := ⟨_, rfl⟩
  flush _ _ := rfl

end MemoryStore

/-! ## Timestamps -/

/-- Entries are stamped in order, after one time and up to another. -/
structure Stamped (low high : Nat) (log : List Entry) : Prop where
  order : log.Pairwise (·.timestamp < ·.timestamp)
  later : ∀ e ∈ log, low < e.timestamp
  upTo : ∀ e ∈ log, e.timestamp ≤ high

theorem Stamped.append {low mid high : Nat} {xs ys : List Entry} (hx : Stamped low mid xs)
    (hy : Stamped mid high ys) (hl : low ≤ mid) (hh : mid ≤ high) :
    Stamped low high (xs ++ ys) where
  order := by
    refine List.pairwise_append.2 ⟨hx.order, hy.order, fun a ha b hb => ?_⟩
    exact Nat.lt_of_le_of_lt (hx.upTo a ha) (hy.later b hb)
  later e he := by
    rcases List.mem_append.1 he with h | h
    · exact hx.later e h
    · exact Nat.lt_of_le_of_lt hl (hy.later e h)
  upTo e he := by
    rcases List.mem_append.1 he with h | h
    · exact Nat.le_trans (hx.upTo e h) hh
    · exact hy.upTo e h

/-- Timestamps go on from one to another, and entries are stamped in order between them, as long
as the greatest timestamp there is has not been reached. -/
def StampedFrom (low high : Nat) (log : List Entry) : Prop :=
  high < Recorder.maxTimestamp → low ≤ high ∧ Stamped low high log

theorem stampedFrom_nil (last : Nat) : StampedFrom last last [] :=
  fun _ => ⟨Nat.le_refl last, ⟨List.Pairwise.nil, nofun, nofun⟩⟩

theorem StampedFrom.append {low mid high : Nat} {xs ys : List Entry} (hx : StampedFrom low mid xs)
    (hy : StampedFrom mid high ys) : StampedFrom low high (xs ++ ys) := by
  intro hmax
  obtain ⟨hh, hys⟩ := hy hmax
  obtain ⟨hl, hxs⟩ := hx (Nat.lt_of_le_of_lt hh hmax)
  exact ⟨Nat.le_trans hl hh, hxs.append hys hl hh⟩

namespace Recorder

/-- A new timestamp is greater than the last one until the greatest is reached, whatever the
clock reads. -/
theorem stampedFrom_next (clock last : Nat) (payload : Bytes) :
    StampedFrom last (nextTimestamp clock last) [⟨nextTimestamp clock last, payload⟩] := by
  intro hmax
  have hlt : last < nextTimestamp clock last := by
    rw [nextTimestamp] at hmax ⊢
    omega
  refine ⟨Nat.le_of_lt hlt, List.pairwise_singleton _ _, fun e he => ?_, fun e he => ?_⟩
  · rw [List.mem_singleton.1 he]
    exact hlt
  · exact Nat.le_of_eq (congrArg Entry.timestamp (List.mem_singleton.1 he))

/-! ## What is held back -/

section Held

variable {σ : Type}

/-- The piece that is held back for a session, if there is one. -/
def heldBack (r : Recorder σ) (key : SessionKey) : List Event :=
  (r.held key).merger.pending.toList

/-- The mergers of all sessions are sound. -/
def Sound (r : Recorder σ) : Prop := ∀ key, (r.held key).merger.Sound

theorem lookup_putIn (key : SessionKey) (h : Held) (table : List (SessionKey × Held))
    (k : SessionKey) :
    (putIn key h table).lookup k = if k = key then some h else table.lookup k := by
  induction table with
  | nil => rw [putIn, lookup_cons_ite]
  | cons x table ih =>
    rw [putIn]
    by_cases hx : key = x.1
    · rw [if_pos hx, lookup_cons_ite, lookup_cons_ite, hx]
      split <;> rfl
    · rw [if_neg hx, lookup_cons_ite, lookup_cons_ite, ih]
      by_cases hk : k = x.1
      · rw [if_pos hk, if_pos hk, if_neg fun h => hx (h.symm.trans hk)]
      · rw [if_neg hk, if_neg hk]

theorem held_put (r : Recorder σ) (key : SessionKey) (h : Held) (k : SessionKey) :
    (r.put key h).held k = if k = key then h else r.held k := by
  rw [held, put, lookup_putIn]
  split <;> rfl

/-- Only what holds nothing back is forgotten. -/
theorem held_evictIdle (r : Recorder σ) (key k : SessionKey) :
    ((r.evictIdle key).held k).merger.pending = (r.held k).merger.pending ∧
      ((r.held k).merger.Sound → ((r.evictIdle key).held k).merger.Sound) := by
  rw [evictIdle]
  split
  · exact ⟨rfl, id⟩
  · rename_i hidle
    rw [held, lookup_filter_ne]
    by_cases hk : k = key
    · -- What is remembered of a new session is what was remembered of this one.
      have hnone : (r.held key).merger.pending = none := by
        cases hp : (r.held key).merger.pending with
        | none => rfl
        | some p => simp [hp] at hidle
      rw [if_pos hk, hk, hnone]
      exact ⟨rfl, fun _ _ => rfl⟩
    · rw [if_neg hk]
      exact ⟨rfl, id⟩

/-- Recorders remember the same of a session if they remember the same of all. -/
theorem held_congr {r r' : Recorder σ} (hs : r'.sessions = r.sessions)
    (ho : r'.options = r.options) (k : SessionKey) : r'.held k = r.held k := by
  rw [held, held, hs, ho]

end Held

/-! ## Storing -/

section Storing

variable {σ : Type} [LogStore σ] {log : σ → SessionKey → List Entry}

/-- Events were stored in the log of a session, as entries, and nothing else has changed. -/
structure Persisted (log : σ → SessionKey → List Entry) (key : SessionKey) (r r' : Recorder σ)
    (done : List Event) (written : List Entry) : Prop where
  sessions : r'.sessions = r.sessions
  options : r'.options = r.options
  log : ∀ k, log r'.store k = log r.store k ++ if k = key then written else []
  holds : Holds written done
  stamped : StampedFrom r.lastTimestamp r'.lastTimestamp written

/-- Events are stored up to the first failure. -/
theorem persist_persisted (hs : LogStore.Shows log) (r : Recorder σ) (clock : Nat → Nat)
    (key : SessionKey) (events : List Event) :
    ∃ done rest written, events = done ++ rest ∧
      Persisted log key r (r.persist clock key events).2 done written ∧
      ((r.persist clock key events).1 = .ok () ↔ rest = []) := by
  induction events generalizing r clock with
  | nil =>
    refine ⟨[], [], [], rfl, ⟨rfl, rfl, fun k => ?_, rfl, stampedFrom_nil _⟩, ?_⟩
    · rw [ite_self, List.append_nil]
      rfl
    · exact ⟨fun _ => rfl, fun _ => rfl⟩
  | cons e events ih =>
    let timestamp := nextTimestamp (clock 0) r.lastTimestamp
    let entry := Entry.ofEvent timestamp e
    have hnext := stampedFrom_next (clock 0) r.lastTimestamp e.encode
    cases happend : LogStore.append r.store key entry with
    | mk result store =>
      let r₁ : Recorder σ := { r with store, lastTimestamp := timestamp }
      cases result with
      | error error =>
        have hpersist : r.persist clock key (e :: events) = (.error (.store error), r₁) := by
          rw [persist]
          simp only [entry, timestamp] at happend
          simp only [happend]
          rfl
        have hlog : log store = log r.store := by
          have := hs.append_error r.store key entry error (by rw [happend])
          rwa [happend] at this
        rw [hpersist]
        refine ⟨[], e :: events, [], rfl, ⟨rfl, rfl, fun k => ?_, rfl, fun hmax => ?_⟩, nofun,
          nofun⟩
        · rw [ite_self, List.append_nil]
          exact congrFun hlog k
        · exact ⟨(hnext hmax).1, List.Pairwise.nil, nofun, nofun⟩
      | ok u =>
        have hpersist : r.persist clock key (e :: events)
            = r₁.persist (fun n => clock (n + 1)) key events := by
          rw [persist]
          simp only [entry, timestamp] at happend
          simp only [happend]
          rfl
        have hlog : ∀ k, log store k = log r.store k ++ if k = key then [entry] else [] := by
          have := hs.append_ok r.store key entry (by rw [happend])
          rwa [happend] at this
        obtain ⟨done, rest, written, hsplit, hp, hok⟩ := ih r₁ fun n => clock (n + 1)
        rw [hpersist]
        refine ⟨e :: done, rest, entry :: written, congrArg (e :: ·) hsplit, ?_, hok⟩
        refine ⟨hp.sessions, hp.options, fun k => ?_, congrArg (e.encode :: ·) hp.holds,
          hnext.append hp.stamped⟩
        rw [hp.log, hlog, List.append_assoc]
        split <;> rfl

end Storing

end Recorder

end AgentStream
