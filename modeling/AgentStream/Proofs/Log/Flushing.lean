/-
# Sessions whose record is flushed from time to time

A piece of text that is held back must not stay so for ever.  The first one starts a periodic flush
of its session, which stops in the round that finds nothing held back.  The store may fail
whenever it likes: an append that fails has let go of something, so it does not hold a first piece
back, and no round leaves anything held back.

* `Held.busy` : a session that must not be forgotten;
* `Recorder.Watched` : what is held back for a session is going to be flushed;
* `Recorder.Attends` : what an operation on a session makes of its periodic flush;
* `Recorder.append_attends`, `Recorder.flush_attends`, `Recorder.events_attends`,
  `Recorder.tick_attends` : what each of them does;
* `Recorder.lookup_evictIdle` : what is busy is not forgotten.
-/
import AgentStream.Proofs.Log.Uses

namespace AgentStream

/-- A merger that held nothing back holds a piece back only if it lets go of nothing. -/
theorem Merger.push_first {m : Merger} {e : Event} (hnone : m.pending = none)
    (hsome : (m.push e).2.pending.isSome = true) : (m.push e).1 = [] := by
  by_cases henabled : m.enabled = true
  · rcases push_cases henabled e with ⟨p, merged, hp, -, -⟩ | hpush | hpush
    · cases hnone.symm.trans hp
    · rw [hpush, hnone]
      rfl
    · rw [hpush] at hsome
      cases hsome
  · have hpush : m.push e = ([e], m) := if_pos (by simpa using henabled)
    rw [hpush, hnone] at hsome
    cases hsome

/-- Something is held back for a session, or its periodic flush is under way. -/
def Held.busy (h : Held) : Bool := h.merger.pending.isSome || h.flushing

namespace Recorder

variable {σ : Type} {r r' : Recorder σ} {key k : SessionKey} {h : Held}

/-! ## What is remembered -/

/-- What is held back for a session is going to be flushed. -/
def Watched (r : Recorder σ) (key : SessionKey) : Prop :=
  (r.held key).merger.pending.isSome = true → (r.held key).flushing = true

theorem watched_of_none (hnone : (r.held key).merger.pending = none) : r.Watched key := by
  intro hsome
  rw [hnone] at hsome
  cases hsome

/-- A busy session that is watched has a periodic flush. -/
theorem Watched.flushing (hw : r.Watched key) (hb : (r.held key).busy = true) :
    (r.held key).flushing = true := by
  rcases Bool.or_eq_true_iff.1 hb with hpending | hflushing
  · exact hw hpending
  · exact hflushing

theorem held_of_lookup (hl : r.sessions.lookup key = some h) : r.held key = h := by
  rw [held, hl]
  rfl

/-- A session with a periodic flush is one of those that are remembered. -/
theorem lookup_of_flushing (hf : (r.held key).flushing = true) :
    r.sessions.lookup key = some (r.held key) := by
  rw [held] at hf ⊢
  cases hl : r.sessions.lookup key with
  | some h => rfl
  | none =>
    rw [hl] at hf
    cases hf

/-! ## Forgetting -/

/-- **What is busy is not forgotten**, whichever session is to be. -/
theorem lookup_evictIdle (hl : r.sessions.lookup k = some h) (hb : h.busy = true) :
    (r.evictIdle key).sessions.lookup k = some h := by
  rw [evictIdle]
  split
  · exact hl
  · rename_i hidle
    have hne : k ≠ key := by
      rintro rfl
      rw [held_of_lookup hl] at hidle
      exact hidle hb
    rw [lookup_filter_ne, if_neg hne, hl]

/-- A session that is forgotten had no periodic flush. -/
theorem flushing_evictIdle (r : Recorder σ) (key k : SessionKey) :
    ((r.evictIdle key).held k).flushing = (r.held k).flushing := by
  rw [evictIdle]
  split
  · rfl
  · rename_i hidle
    rw [held, lookup_filter_ne]
    by_cases hk : k = key
    · have hoff : (r.held key).flushing = false := by
        cases hf : (r.held key).flushing with
        | false => rfl
        | true => exact absurd (Bool.or_eq_true_iff.2 (.inr hf)) hidle
      rw [if_pos hk, hk, hoff]
      rfl
    · rw [if_neg hk]
      rfl

theorem held_evictIdle_ne (r : Recorder σ) (hk : k ≠ key) :
    (r.evictIdle key).held k = r.held k := by
  rw [evictIdle]
  split
  · rfl
  · rw [held, lookup_filter_ne, if_neg hk]
    rfl

/-! ## Operations -/

/-- An operation on a session leaves the others and the options as they are.  What it holds back is
going to be flushed, and it says whether a periodic flush is under way. -/
structure Attends (key : SessionKey) (flushing : Bool) (r r' : Recorder σ) : Prop where
  options : r'.options = r.options
  others : ∀ k, k ≠ key → r'.held k = r.held k
  flushing : (r'.held key).flushing = flushing
  watched : r'.Watched key

/-- A session that does not matter any more may be forgotten. -/
theorem Attends.evictIdle {flushing : Bool} (ha : Attends key flushing r r') :
    Attends key flushing r (r'.evictIdle key) where
  options := by
    rw [← ha.options, Recorder.evictIdle]
    split <;> rfl
  others k hk := (held_evictIdle_ne r' hk).trans (ha.others k hk)
  flushing := (flushing_evictIdle r' key key).trans ha.flushing
  watched hsome := by
    rw [(held_evictIdle r' key key).1] at hsome
    exact (flushing_evictIdle r' key key).trans (ha.watched hsome)

/-- No periodic flush comes to an end if that of the session does not. -/
theorem Attends.kept {flushing : Bool} (ha : Attends key flushing r r')
    (hkey : (r.held key).flushing = true → flushing = true)
    (hf : (r.held k).flushing = true) : (r'.held k).flushing = true := by
  by_cases hk : k = key
  · subst hk
    rw [ha.flushing, hkey hf]
  · rw [ha.others k hk, hf]

section Storing

variable [LogStore σ]

/-- Whatever the store says, storing changes nothing that is remembered. -/
theorem sessions_persist (r : Recorder σ) (clock : Nat → Nat) (key : SessionKey)
    (events : List Event) :
    (r.persist clock key events).2.sessions = r.sessions ∧
      (r.persist clock key events).2.options = r.options := by
  induction events generalizing r clock with
  | nil => exact ⟨rfl, rfl⟩
  | cons e events ih =>
    rw [persist]
    simp only
    split
    · exact ih _ _
    · exact ⟨rfl, rfl⟩

/-- Storing after something is to be remembered of a session. -/
theorem held_put_persist (r : Recorder σ) (clock : Nat → Nat) (key : SessionKey) (h : Held)
    (events : List Event) (k : SessionKey) :
    ((r.put key h).persist clock key events).2.held k = if k = key then h else r.held k := by
  obtain ⟨hs, ho⟩ := sessions_persist (r.put key h) clock key events
  rw [held_congr hs ho, held_put]

/-- Whatever the store says, nothing is held back after a flush. -/
theorem flushHeld_attends (r : Recorder σ) (clock : Nat → Nat) (key : SessionKey) :
    Attends key (r.held key).flushing r (r.flushHeld clock key).2 ∧
      ((r.flushHeld clock key).2.held key).merger.pending = none := by
  let h : Held := { r.held key with merger := (r.held key).merger.flush.2 }
  let stored := ((r.put key h).persist clock key (r.heldBack key)).2
  have hstored : (r.flushHeld clock key).2.sessions = stored.sessions ∧
      (r.flushHeld clock key).2.options = stored.options := by
    rw [flushHeld_eq]
    split
    · rename_i hp
      exact ⟨by simp only [stored, h, hp], by simp only [stored, h, hp]⟩
    · rename_i hp
      split <;> exact ⟨by simp only [stored, h, hp], by simp only [stored, h, hp]⟩
  have hheld (k : SessionKey) :
      (r.flushHeld clock key).2.held k = if k = key then h else r.held k :=
    (held_congr hstored.1 hstored.2 k).trans (held_put_persist r clock key h _ k)
  have hkey : (r.flushHeld clock key).2.held key = h := (hheld key).trans (if_pos rfl)
  refine ⟨⟨?_, fun k hk => (hheld k).trans (if_neg hk), ?_, ?_⟩, ?_⟩
  · exact hstored.2.trans (sessions_persist (r.put key h) clock key _).2
  · rw [hkey]
  · exact watched_of_none (congrArg (·.merger.pending) hkey)
  · exact congrArg (·.merger.pending) hkey

/-- **An append keeps its session watched**: if it holds a piece back, a periodic flush is under
way or is started. -/
theorem append_attends (clock : Nat → Nat) (e : Event)
    (hinterval : r.options.flushInterval.isSome = true) (hw : r.Watched key) :
    Attends key ((r.held key).flushing || (r.append clock key e).2.1) r (r.append clock key e).2.2 ∧
      ((r.append clock key e).2.1 = true → (r.held key).flushing = false) := by
  have hsame : Attends key ((r.held key).flushing || false) r r :=
    ⟨rfl, fun _ _ => rfl, (Bool.or_false _).symm, hw⟩
  by_cases hkey : key.isValid = true
  · let h : Held := { r.held key with merger := ((r.held key).merger.push e).2 }
    let ready := ((r.held key).merger.push e).1
    have hheld := held_put_persist r clock key h ready
    have hoptions : ((r.put key h).persist clock key ready).2.options = r.options :=
      (sessions_persist (r.put key h) clock key ready).2
    rw [append_eq r clock hkey]
    simp only
    cases hp : (r.put key h).persist clock key ready with
    | mk result stored =>
      simp only [hp] at hheld hoptions
      -- What the session comes to if no periodic flush is started.
      have hnot (hw' : h.merger.pending.isSome = true → h.flushing = true) :
          Attends key ((r.held key).flushing || false) r stored := by
        have hk : stored.held key = h := (hheld key).trans (if_pos rfl)
        refine ⟨hoptions, fun k hk => (hheld k).trans (if_neg hk), ?_, ?_⟩
        · rw [hk, Bool.or_false]
        · rw [Watched, hk]
          exact hw'
      cases result with
      | error error =>
        refine ⟨hnot fun hsome => ?_, nofun⟩
        -- Something was let go of, so the piece that is held back is not the first one.
        have hready : ready ≠ [] := by
          intro hnil
          rw [hnil] at hp
          cases hp
        cases hpending : (r.held key).merger.pending with
        | none => exact absurd (Merger.push_first hpending hsome) hready
        | some p => exact hw (by rw [hpending]; rfl)
      | ok u =>
        simp only
        split
        · rename_i hstart
          obtain ⟨-, hoff⟩ := Bool.and_eq_true_iff.1 hstart
          refine ⟨⟨hoptions, fun k hk => ?_, ?_, fun _ => ?_⟩, fun _ => ?_⟩
          · rw [held_put, if_neg hk, hheld, if_neg hk]
          · rw [held_put, if_pos rfl, Bool.or_true]
          · rw [held_put, if_pos rfl]
          · simpa using hoff
        · rename_i hstart
          refine ⟨hnot fun hsome => ?_, nofun⟩
          rw [hoptions, hinterval, hsome, Bool.true_and, Bool.true_and] at hstart
          simpa using hstart
  · have happend : r.append clock key e = (.error (.invalidKey key), false, r) :=
      if_pos (by simpa using hkey)
    rw [happend]
    exact ⟨hsame, nofun⟩

/-- A flush leaves the periodic flush of its session under way. -/
theorem flush_attends (clock : Nat → Nat) (hw : r.Watched key) :
    Attends key (r.held key).flushing r (r.flush clock key).2 := by
  have hflush := (flushHeld_attends r clock key).1
  by_cases hkey : key.isValid = true
  · rw [flush_eq r clock hkey]
    split
    · rename_i hp
      rw [hp] at hflush
      exact hflush
    · rename_i hp
      rw [hp] at hflush
      exact hflush.evictIdle
  · have hsame : r.flush clock key = (.error (.invalidKey key), r) :=
      if_pos (by simpa using hkey)
    rw [hsame]
    exact ⟨rfl, fun _ _ => rfl, rfl, hw⟩

/-- A look at the entries of a session changes the store at most. -/
theorem events_attends (after : Option Nat) (hw : r.Watched key) :
    Attends key (r.held key).flushing r (r.events key after).2 := by
  have hsame : (r.events key after).2.sessions = r.sessions ∧
      (r.events key after).2.options = r.options := by
    unfold events
    split <;> exact ⟨rfl, rfl⟩
  have hheld := held_congr hsame.1 hsame.2
  refine ⟨hsame.2, fun k _ => hheld k, congrArg Held.flushing (hheld key), ?_⟩
  rw [Watched, hheld]
  exact hw

/-- **A round of the periodic flush is the last one**, and says so. -/
theorem tick_attends (r : Recorder σ) (clock : Nat → Nat) (key : SessionKey) :
    (r.tick clock key).1 = false ∧ Attends key false r (r.tick clock key).2 := by
  obtain ⟨ha, hnone⟩ := flushHeld_attends r clock key
  let flushed := (r.flushHeld clock key).2
  have htick : r.tick clock key =
      (false, (flushed.put key { flushed.held key with flushing := false }).evictIdle key) := by
    rw [tick]
    simp only [flushed, hnone]
    rfl
  have hheld := held_put flushed key { flushed.held key with flushing := false }
  rw [htick]
  refine ⟨rfl, Attends.evictIdle ⟨ha.options, fun k hk => ?_, ?_, ?_⟩⟩
  · rw [hheld, if_neg hk]
    exact ha.others k hk
  · rw [hheld, if_pos rfl]
  · refine watched_of_none ?_
    rw [hheld, if_pos rfl]
    exact hnone

end Storing

end Recorder

end AgentStream
