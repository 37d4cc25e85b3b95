/-
# What a recorder does to logs

Whatever a recorder is used for, the log of a session only grows.  What it grows by, with what is
then held back behind it, comes to what was held back before with what was appended since, unless
an operation fails and loses the piece that was held back.

* `Recorder.Use`, `Recorder.use`, `Recorder.after` : operations on sessions, one after the other;
* `Recorder.Grows` : how the log of a session goes on, and when its entries are stamped;
* `Recorder.Outcome`, `Recorder.use_outcome` : what one operation does to the logs;
* `Recorder.after_grows` : what any number of operations does to a session.
-/
import AgentStream.Proofs.Log.Recording

namespace AgentStream

namespace Recorder

open Merger (merge?)

variable {σ : Type} {log : σ → SessionKey → List Entry} {key k : SessionKey}
  {r r' r'' : Recorder σ} {events events' : List Event} {written written' : List Entry}

/-! ## Growing logs -/

/-- The log of a session goes on with entries.  They and what is then held back come to what was
held back before with the events behind it. -/
structure Grows (log : σ → SessionKey → List Entry) (key : SessionKey) (r r' : Recorder σ)
    (events : List Event) (written : List Entry) : Prop where
  log : log r'.store key = log r.store key ++ written
  stored : ∃ stored, Holds written stored ∧
    Joins merge? (r.heldBack key ++ events) (stored ++ r'.heldBack key)
  stamped : StampedFrom r.lastTimestamp r'.lastTimestamp written

/-- What is held back stays so, and nothing is stored. -/
theorem grows_nil (hl : log r'.store key = log r.store key)
    (hh : r'.heldBack key = r.heldBack key)
    (ht : StampedFrom r.lastTimestamp r'.lastTimestamp []) : Grows log key r r' [] [] where
  log := by rw [hl, List.append_nil]
  stored := by
    refine ⟨[], rfl, ?_⟩
    rw [hh, List.append_nil, List.nil_append]
    exact Joins.refl _
  stamped := ht

theorem Grows.refl (r : Recorder σ) : Grows log key r r [] [] :=
  grows_nil rfl rfl (stampedFrom_nil _)

theorem Grows.trans (h : Grows log key r r' events written)
    (h' : Grows log key r' r'' events' written') :
    Grows log key r r'' (events ++ events') (written ++ written') where
  log := by rw [h'.log, h.log, List.append_assoc]
  stored := by
    obtain ⟨stored, hs, hj⟩ := h.stored
    obtain ⟨stored', hs', hj'⟩ := h'.stored
    refine ⟨stored ++ stored', holds_append hs hs', ?_⟩
    have hfirst : Joins merge? (r.heldBack key ++ (events ++ events'))
        (stored ++ (r'.heldBack key ++ events')) := by
      rw [← List.append_assoc, ← List.append_assoc]
      exact hj.append (Joins.refl events')
    have hsecond : Joins merge? (stored ++ (r'.heldBack key ++ events'))
        (stored ++ stored' ++ r''.heldBack key) := by
      rw [List.append_assoc]
      exact (Joins.refl stored).append hj'
    exact hfirst.trans hsecond
  stamped := h.stamped.append h'.stamped

/-! ## Recorders that show the same -/

/-- Two recorders show the same logs, hold the same back and go on with the same timestamp. -/
structure Alike (log : σ → SessionKey → List Entry) (r r' : Recorder σ) : Prop where
  log : log r'.store = log r.store
  heldBack : ∀ k, r'.heldBack k = r.heldBack k
  lastTimestamp : r'.lastTimestamp = r.lastTimestamp
  sound : r.Sound → r'.Sound

theorem Alike.refl (r : Recorder σ) : Alike log r r := ⟨rfl, fun _ => rfl, rfl, id⟩

theorem Alike.trans (h : Alike log r r') (h' : Alike log r' r'') : Alike log r r'' where
  log := h'.log.trans h.log
  heldBack k := (h'.heldBack k).trans (h.heldBack k)
  lastTimestamp := h'.lastTimestamp.trans h.lastTimestamp
  sound hr := h'.sound (h.sound hr)

theorem Alike.grows (h : Alike log r r') (k : SessionKey) : Grows log k r r' [] [] :=
  grows_nil (congrFun h.log k) (h.heldBack k) (h.lastTimestamp ▸ stampedFrom_nil _)

/-- What the store does beside the logs is not seen. -/
theorem alike_store {store : σ} (h : log store = log r.store) :
    Alike log r { r with store } :=
  ⟨h, fun _ => rfl, rfl, fun hr k => hr k⟩

/-- Whether a periodic flush is under way is not seen. -/
theorem alike_flushing (r : Recorder σ) (key : SessionKey) (flushing : Bool) :
    Alike log r (r.put key { merger := (r.held key).merger, flushing }) := by
  have hmerger (k : SessionKey) :
      ((r.put key { merger := (r.held key).merger, flushing }).held k).merger
        = (r.held k).merger := by
    rw [held_put]
    split
    · rename_i hk
      rw [hk]
    · rfl
  refine ⟨rfl, fun k => ?_, rfl, fun hr k => ?_⟩
  · rw [heldBack, hmerger]
    rfl
  · rw [hmerger]
    exact hr k

/-- Nothing of what is forgotten is seen. -/
theorem alike_evictIdle (r : Recorder σ) (key : SessionKey) : Alike log r (r.evictIdle key) := by
  refine ⟨?_, fun k => ?_, ?_, fun hr k => (held_evictIdle r key k).2 (hr k)⟩
  · rw [evictIdle]
    split <;> rfl
  · rw [heldBack, (held_evictIdle r key k).1]
    rfl
  · rw [evictIdle]
    split <;> rfl

/-! ## What is stored -/

section Persisted

variable {h : Held} {done : List Event}

theorem Persisted.held (hp : Persisted log key (r.put key h) r' done written) (k : SessionKey) :
    r'.held k = if k = key then h else r.held k := by
  rw [held_congr hp.sessions hp.options, held_put]

theorem Persisted.sound (hp : Persisted log key (r.put key h) r' done written) (hr : r.Sound)
    (hm : h.merger.Sound) : r'.Sound := by
  intro k
  rw [hp.held]
  split
  · exact hm
  · exact hr k

theorem Persisted.heldBack (hp : Persisted log key (r.put key h) r' done written) :
    r'.heldBack key = h.merger.pending.toList := by
  rw [Recorder.heldBack, hp.held, if_pos rfl]

/-- The logs of other sessions stay as they are. -/
theorem Persisted.others (hp : Persisted log key (r.put key h) r' done written) (hk : k ≠ key) :
    Grows log k r r' [] [] := by
  refine grows_nil ?_ ?_ fun hmax => ?_
  · rw [hp.log, if_neg hk, List.append_nil]
    rfl
  · rw [Recorder.heldBack, hp.held, if_neg hk]
    rfl
  · exact ⟨(hp.stamped hmax).1, List.Pairwise.nil, nofun, nofun⟩

theorem Persisted.grows (hp : Persisted log key (r.put key h) r' done written)
    (hj : Joins merge? (r.heldBack key ++ events) (done ++ h.merger.pending.toList)) :
    Grows log key r r' events written where
  log := by
    rw [hp.log, if_pos rfl]
    rfl
  stored := ⟨done, hp.holds, hp.heldBack ▸ hj⟩
  stamped := hp.stamped

end Persisted

/-! ## Outcomes -/

/-- The piece that was held back for a session is neither stored nor held back any more. -/
def Drops (log : σ → SessionKey → List Entry) (key : SessionKey) (r r' : Recorder σ) : Prop :=
  r.heldBack key ≠ [] ∧ r'.heldBack key ≠ r.heldBack key ∧
    log r'.store key = log r.store key

/-- What an operation on a session does.  If it succeeds, events are taken; if it fails, none are
taken, and a piece that was held back may be dropped. -/
structure Outcome (log : σ → SessionKey → List Entry) (key : SessionKey) (r r' : Recorder σ)
    (result : Except RecordError Unit) (events : List Event) : Prop where
  sound : r'.Sound
  others : ∀ k, k ≠ key → Grows log k r r' [] []
  succeeds : result = .ok () → ∃ written, Grows log key r r' events written
  fails : result ≠ .ok () → Drops log key r r' ∨ ∃ written, Grows log key r r' [] written

theorem Outcome.alike {result : Except RecordError Unit} (h : Outcome log key r r' result events)
    (ha : Alike log r' r'') : Outcome log key r r'' result events where
  sound := ha.sound h.sound
  others k hk := (h.others k hk).trans (ha.grows k)
  succeeds hok := by
    obtain ⟨written, hg⟩ := h.succeeds hok
    have hg' := hg.trans (ha.grows key)
    rw [List.append_nil] at hg'
    exact ⟨_, hg'⟩
  fails he := by
    rcases h.fails he with ⟨hp, hh, hl⟩ | ⟨written, hg⟩
    · exact .inl ⟨hp, ha.heldBack key ▸ hh, (congrFun ha.log key).trans hl⟩
    · exact .inr ⟨_, hg.trans (ha.grows key)⟩

/-- An operation that takes no events may fail all the same. -/
theorem Outcome.endsAs (h : Outcome log key r r' (.ok ()) []) (result : Except RecordError Unit) :
    Outcome log key r r' result [] where
  sound := h.sound
  others := h.others
  succeeds _ := h.succeeds rfl
  fails _ := .inr (h.succeeds rfl)

/-- An operation that only looks. -/
theorem Alike.outcome (ha : Alike log r r') (hr : r.Sound) (result : Except RecordError Unit) :
    Outcome log key r r' result [] where
  sound := ha.sound hr
  others k _ := ha.grows k
  succeeds _ := ⟨[], ha.grows key⟩
  fails _ := .inr ⟨[], ha.grows key⟩

/-! ## Operations -/

/-- What is done with the log of a session. -/
inductive Operation
  | append (e : Event)
  | flush
  | events (after : Option Nat)
  /-- One round of the periodic flush. -/
  | tick

/-- An operation on the log of a session, with the clock's readings during it. -/
structure Use where
  key : SessionKey
  clock : Nat → Nat
  operation : Operation

/-- What an operation appends to the log of a session. -/
def Use.appends (u : Use) (key : SessionKey) : List Event :=
  match u.operation with
  | .append e => if u.key = key then [e] else []
  | _ => []

/-- What an operation with some result has added to a session. -/
def Use.adds (u : Use) (key : SessionKey) : Except RecordError Unit → List Event
  | .ok () => u.appends key
  | .error _ => []

variable [LogStore σ]

/-- Carry an operation out: how it ends, and the recorder after it.  Nobody is told how a
periodic flush ends. -/
def use (r : Recorder σ) (u : Use) : Except RecordError Unit × Recorder σ :=
  match u.operation with
  | .append e =>
    let (result, _, r) := r.append u.clock u.key e
    (result, r)
  | .flush => r.flush u.clock u.key
  | .events after =>
    let (result, r) := r.events u.key after
    (result.map fun _ => (), r)
  | .tick => ((r.flushHeld u.clock u.key).1, (r.tick u.clock u.key).2)

/-- The recorder after operations one after the other. -/
def after (r : Recorder σ) (uses : List Use) : Recorder σ := uses.foldl (fun r u => (r.use u).2) r

/-- What operations appended to the log of a session with success. -/
def acknowledged (key : SessionKey) : Recorder σ → List Use → List Event
  | _, [] => []
  | r, u :: rest => u.adds key (r.use u).1 ++ acknowledged key (r.use u).2 rest

/-- Storing changes nothing that is remembered. -/
theorem held_persist (hs : LogStore.Shows log) (r : Recorder σ) (clock : Nat → Nat)
    (key : SessionKey) (events : List Event) (k : SessionKey) :
    (r.persist clock key events).2.held k = r.held k := by
  obtain ⟨done, rest, written, -, hp, -⟩ := persist_persisted hs r clock key events
  exact held_congr hp.sessions hp.options k

/-- Events are let go of and stored. -/
theorem persist_outcome (hs : LogStore.Shows log) (hr : r.Sound) {h : Held} (hm : h.merger.Sound)
    {ready : List Event} (clock : Nat → Nat)
    (hj : Joins merge? (r.heldBack key ++ events) (ready ++ h.merger.pending.toList))
    (hfirst : ∀ done rest, ready = done ++ rest → rest ≠ [] →
      done = r.heldBack key ∧ h.merger.pending = none ∨ done = [] ∧ r.heldBack key ≠ []) :
    Outcome log key r ((r.put key h).persist clock key ready).2
      ((r.put key h).persist clock key ready).1 events := by
  obtain ⟨done, rest, written, hsplit, hp, hok⟩ :=
    persist_persisted hs (r.put key h) clock key ready
  refine ⟨hp.sound hr hm, fun k hk => hp.others hk, fun hres => ⟨written, hp.grows ?_⟩,
    fun hres => ?_⟩
  · rw [hok.1 hres, List.append_nil] at hsplit
    exact hsplit ▸ hj
  · have hrest : rest ≠ [] := fun h => hres (hok.2 h)
    rcases hfirst done rest hsplit hrest with ⟨hdone, hnone⟩ | ⟨hdone, hback⟩
    · refine .inr ⟨written, hp.grows ?_⟩
      rw [hdone, hnone]
      exact Joins.refl _
    · -- Nothing is stored, so what was held back is dropped unless it still is held back.
      have hwritten : written = [] := (hdone ▸ hp.holds).nil
      have hlog : log ((r.put key h).persist clock key ready).2.store key = log r.store key := by
        rw [hp.log, hwritten, ite_self, List.append_nil]
        rfl
      by_cases hsame : ((r.put key h).persist clock key ready).2.heldBack key = r.heldBack key
      · exact .inr ⟨[], grows_nil hlog hsame fun hmax => hwritten ▸ hp.stamped hmax⟩
      · exact .inl ⟨hback, hsame, hlog⟩

theorem flushHeld_eq (r : Recorder σ) (clock : Nat → Nat) (key : SessionKey) :
    r.flushHeld clock key =
      match (r.put key { r.held key with merger := (r.held key).merger.flush.2 }).persist clock key
        (r.heldBack key) with
      | (.error error, r) => (.error error, r)
      | (.ok (), r) =>
        match LogStore.flush r.store key with
        | (.error error, store) => (.error (.store error), { r with store })
        | (.ok (), store) => (.ok (), { r with store }) := rfl

theorem flush_eq (r : Recorder σ) (clock : Nat → Nat) (hkey : key.isValid = true) :
    r.flush clock key =
      match r.flushHeld clock key with
      | (.error error, r) => (.error error, r)
      | (.ok (), r) => (.ok (), r.evictIdle key) := by
  rw [flush, hkey]
  rfl

theorem append_eq (r : Recorder σ) (clock : Nat → Nat) (hkey : key.isValid = true) (e : Event) :
    r.append clock key e =
      let h : Held := { r.held key with merger := ((r.held key).merger.push e).2 }
      match (r.put key h).persist clock key ((r.held key).merger.push e).1 with
      | (.error error, r) => (.error error, false, r)
      | (.ok (), r) =>
        if r.options.flushInterval.isSome && h.merger.pending.isSome && !h.flushing then
          (.ok (), true, r.put key { merger := h.merger, flushing := true })
        else (.ok (), false, r) := by
  rw [append, hkey]
  rfl

/-- What is held back is stored and the store flushed. -/
theorem flushHeld_outcome (hs : LogStore.Shows log) (hr : r.Sound) (clock : Nat → Nat)
    (key : SessionKey) :
    Outcome log key r (r.flushHeld clock key).2 (r.flushHeld clock key).1 [] := by
  let h : Held := { r.held key with merger := (r.held key).merger.flush.2 }
  have hout : Outcome log key r ((r.put key h).persist clock key (r.heldBack key)).2
      ((r.put key h).persist clock key (r.heldBack key)).1 [] := by
    refine persist_outcome hs hr (fun _ => rfl) clock (Joins.refl _)
      fun done rest hsplit hrest => ?_
    rw [heldBack] at hsplit ⊢
    cases hp : (r.held key).merger.pending with
    | none =>
      rw [hp] at hsplit
      exact absurd (List.nil_eq_append_iff.1 hsplit).2 hrest
    | some p =>
      rw [hp] at hsplit
      exact .inr ⟨Merger.eq_nil_of_singleton hsplit hrest, nofun⟩
  rw [flushHeld_eq]
  cases hpersist : (r.put key h).persist clock key (r.heldBack key) with
  | mk result r₁ =>
    rw [hpersist] at hout
    cases result with
    | error error => exact hout
    | ok _ =>
      have hstate := hs.flush_state r₁.store key
      cases hstore : LogStore.flush r₁.store key with
      | mk result store =>
        rw [hstore] at hstate
        simp only [hstore]
        cases result with
        | error error => exact (hout.endsAs _).alike (alike_store hstate)
        | ok _ => exact hout.alike (alike_store hstate)

/-- An event is taken. -/
theorem append_outcome (hs : LogStore.Shows log) (hr : r.Sound) (clock : Nat → Nat)
    (key : SessionKey) (e : Event) :
    Outcome log key r (r.append clock key e).2.2 (r.append clock key e).1 [e] := by
  by_cases hkey : key.isValid = true
  · let m := (r.held key).merger
    let h : Held := { r.held key with merger := (m.push e).2 }
    have hout : Outcome log key r ((r.put key h).persist clock key (m.push e).1).2
        ((r.put key h).persist clock key (m.push e).1).1 [e] := by
      refine persist_outcome hs hr (Merger.push_sound (hr key) e) clock
        (Merger.push_joins (hr key) e) fun done rest hsplit hrest => ?_
      rcases Merger.push_prefix (hr key) hsplit hrest with hwhole | ⟨hdone, hback⟩
      · exact .inl hwhole
      · exact .inr ⟨hdone, fun hnil => hback (Option.toList_eq_nil_iff.1 hnil)⟩
    have hheld := held_persist hs (r.put key h) clock key (m.push e).1 key
    rw [held_put, if_pos rfl] at hheld
    rw [append_eq r clock hkey e]
    simp only
    cases hpersist : (r.put key h).persist clock key (m.push e).1 with
    | mk result r₁ =>
      rw [hpersist] at hout hheld
      cases result with
      | error error => exact hout
      | ok _ =>
        -- The first piece that is held back starts the periodic flush.
        have hflushing : Alike log r₁ (r₁.put key { merger := h.merger, flushing := true }) :=
          hheld ▸ alike_flushing r₁ key true
        simp only
        split
        · exact hout.alike hflushing
        · exact hout
  · have happend : r.append clock key e = (.error (.invalidKey key), false, r) := by
      rw [append, Bool.eq_false_iff.2 hkey]
      rfl
    rw [happend]
    exact ⟨hr, fun k _ => .refl r, nofun, fun _ => .inr ⟨[], .refl r⟩⟩

/-- Everything appended so far is stored. -/
theorem flush_outcome (hs : LogStore.Shows log) (hr : r.Sound) (clock : Nat → Nat)
    (key : SessionKey) :
    Outcome log key r (r.flush clock key).2 (r.flush clock key).1 [] := by
  have hout := flushHeld_outcome hs hr clock key
  by_cases hkey : key.isValid = true
  · rw [flush_eq r clock hkey]
    cases hheld : r.flushHeld clock key with
    | mk result r₁ =>
      rw [hheld] at hout
      cases result with
      | error error => exact hout
      | ok _ => exact hout.alike (alike_evictIdle r₁ key)
  · have hflush : r.flush clock key = (.error (.invalidKey key), r) := by
      rw [flush, Bool.eq_false_iff.2 hkey]
      rfl
    rw [hflush]
    exact (Alike.refl r).outcome hr _

/-- A round of the periodic flush stores what is held back. -/
theorem tick_outcome (hs : LogStore.Shows log) (hr : r.Sound) (clock : Nat → Nat)
    (key : SessionKey) :
    Outcome log key r (r.tick clock key).2 (r.flushHeld clock key).1 [] := by
  have hout := flushHeld_outcome hs hr clock key
  have htick : (r.tick clock key).2 =
      let r₁ := (r.flushHeld clock key).2
      if (r₁.held key).merger.pending.isSome then r₁
      else (r₁.put key { merger := (r₁.held key).merger, flushing := false }).evictIdle key := by
    unfold tick
    simp only
    split <;> rfl
  rw [htick]
  simp only
  split
  · exact hout
  · exact hout.alike ((alike_flushing _ key false).trans (alike_evictIdle _ key))

/-- **What one operation does to the logs.** -/
theorem use_outcome (hs : LogStore.Shows log) (hr : r.Sound) (u : Use) :
    Outcome log u.key r (r.use u).2 (r.use u).1 (u.appends u.key) := by
  obtain ⟨key, clock, operation⟩ := u
  cases operation with
  | append e =>
    have hevents : Use.appends ⟨key, clock, .append e⟩ key = [e] := if_pos rfl
    rw [hevents]
    exact append_outcome hs hr clock key e
  | flush => exact flush_outcome hs hr clock key
  | events after =>
    refine Alike.outcome ?_ hr _
    change Alike log r (r.events key after).2
    rw [events]
    split
    · exact Alike.refl r
    · exact alike_store (hs.list_state r.store key after)
  | tick => exact tick_outcome hs hr clock key

/-! ## One operation after the other -/

/-- An operation on a session fails and drops the piece that was held back. -/
def Loses (log : σ → SessionKey → List Entry) (key : SessionKey) (r : Recorder σ) (u : Use) :
    Prop :=
  u.key = key ∧ (r.use u).1 ≠ .ok () ∧ Drops log key r (r.use u).2

theorem Use.appends_other {u : Use} (h : key ≠ u.key) : u.appends key = [] := by
  unfold appends
  split
  · exact if_neg h.symm
  · rfl

theorem Use.adds_other {u : Use} (h : key ≠ u.key) (result : Except RecordError Unit) :
    u.adds key result = [] := by
  cases result with
  | error error => rfl
  | ok _ => exact u.appends_other h

/-- The log of a session grows by what an operation adds to it, unless that loses something. -/
theorem use_grows (hs : LogStore.Shows log) (hr : r.Sound) {u : Use} (hl : ¬r.Loses log key u) :
    ∃ written, Grows log key r (r.use u).2 (u.adds key (r.use u).1) written := by
  have hout := use_outcome hs hr u
  by_cases hkey : key = u.key
  · subst hkey
    cases hres : (r.use u).1 with
    | ok _ => exact hout.succeeds hres
    | error error =>
      have hne : (r.use u).1 ≠ .ok () := fun hok => nomatch hres.symm.trans hok
      rcases hout.fails hne with hdrops | hgrows
      · exact absurd ⟨rfl, hne, hdrops⟩ hl
      · exact hgrows
  · rw [Use.adds_other hkey]
    exact ⟨[], hout.others key hkey⟩

/-- **The log of a session grows by what is appended with success**, as long as no operation
loses anything. -/
theorem after_grows (hs : LogStore.Shows log) (hr : r.Sound) (uses : List Use)
    (hl : ∀ earlier u later, uses = earlier ++ u :: later → ¬(r.after earlier).Loses log key u) :
    (r.after uses).Sound ∧
      ∃ written, Grows log key r (r.after uses) (r.acknowledged key uses) written := by
  induction uses generalizing r with
  | nil => exact ⟨hr, [], .refl r⟩
  | cons u uses ih =>
    have hsound : (r.use u).2.Sound := (use_outcome hs hr u).sound
    obtain ⟨written, hg⟩ := use_grows hs hr (hl [] u uses rfl)
    obtain ⟨hrest, written', hg'⟩ := ih hsound fun earlier u' later h =>
      hl (u :: earlier) u' later (congrArg (u :: ·) h)
    exact ⟨hrest, written ++ written', hg.trans hg'⟩

/-! ## Flushes that succeed -/

/-- When all that is held back is stored, nothing is held back any more. -/
theorem heldBack_flushHeld (hs : LogStore.Shows log) {clock : Nat → Nat}
    (h : (r.flushHeld clock key).1 = .ok ()) : (r.flushHeld clock key).2.heldBack key = [] := by
  let m : Held := { r.held key with merger := (r.held key).merger.flush.2 }
  have hheld := held_persist hs (r.put key m) clock key (r.heldBack key) key
  rw [held_put, if_pos rfl] at hheld
  rw [flushHeld_eq] at h ⊢
  cases hpersist : (r.put key m).persist clock key (r.heldBack key) with
  | mk result r₁ =>
    rw [hpersist] at h hheld
    have hnil : r₁.heldBack key = [] := by
      rw [heldBack, hheld]
      rfl
    cases result with
    | error error => exact nomatch h
    | ok _ =>
      simp only
      split <;> exact hnil

theorem isValid_of_flush {clock : Nat → Nat} (h : (r.flush clock key).1 = .ok ()) :
    key.isValid = true := by
  cases hkey : key.isValid with
  | true => rfl
  | false =>
    rw [flush, hkey] at h
    exact nomatch h

/-- **Directly after a flush that succeeds nothing is held back.** -/
theorem heldBack_flush (hs : LogStore.Shows log) {clock : Nat → Nat}
    (h : (r.flush clock key).1 = .ok ()) : (r.flush clock key).2.heldBack key = [] := by
  have hkey := isValid_of_flush h
  rw [flush_eq r clock hkey] at h ⊢
  cases hheld : r.flushHeld clock key with
  | mk result r₁ =>
    rw [hheld] at h
    cases result with
    | error error => exact nomatch h
    | ok _ =>
      have hnil := heldBack_flushHeld hs (congrArg Prod.fst hheld)
      rw [hheld] at hnil
      have hevict : Alike log r₁ (r₁.evictIdle key) := alike_evictIdle r₁ key
      exact (hevict.heldBack key).trans hnil

/-! ## Stores that never fail -/

section NeverFails

variable (hn : LogStore.NeverFails σ)
include hn

theorem persist_ok (r : Recorder σ) (clock : Nat → Nat) (key : SessionKey) (events : List Event) :
    (r.persist clock key events).1 = .ok () := by
  induction events generalizing r clock with
  | nil => rfl
  | cons e events ih =>
    have happend :=
      hn.append r.store key (.ofEvent (nextTimestamp (clock 0) r.lastTimestamp) e)
    rw [persist]
    simp only [happend]
    exact ih _ _

theorem flushHeld_ok (r : Recorder σ) (clock : Nat → Nat) (key : SessionKey) :
    (r.flushHeld clock key).1 = .ok () := by
  have hok := persist_ok hn
    (r.put key { r.held key with merger := (r.held key).merger.flush.2 }) clock key (r.heldBack key)
  rw [flushHeld_eq]
  split
  · rename_i hpersist
    rw [hpersist] at hok
    exact hok
  · rename_i r₁ hpersist
    have hflush := hn.flush r₁.store key
    split
    · rename_i hstore
      rw [hstore] at hflush
      exact nomatch hflush
    · rfl

theorem flush_ok (r : Recorder σ) (clock : Nat → Nat) (hkey : key.isValid = true) :
    (r.flush clock key).1 = .ok () := by
  have hok := flushHeld_ok hn r clock key
  rw [flush_eq r clock hkey]
  split
  · rename_i hheld
    rw [hheld] at hok
    exact hok
  · rfl

theorem append_ok (r : Recorder σ) (clock : Nat → Nat) (hkey : key.isValid = true) (e : Event) :
    (r.append clock key e).1 = .ok () := by
  have hok := persist_ok hn
    (r.put key { r.held key with merger := ((r.held key).merger.push e).2 }) clock key
    ((r.held key).merger.push e).1
  rw [append_eq r clock hkey e]
  simp only
  split
  · rename_i hpersist
    rw [hpersist] at hok
    exact hok
  · split <;> rfl

/-- Operations on sessions with valid keys succeed. -/
theorem use_ok (r : Recorder σ) {u : Use} (hkey : u.key.isValid = true) : (r.use u).1 = .ok () := by
  obtain ⟨key, clock, operation⟩ := u
  cases operation with
  | append e => exact append_ok hn r clock hkey e
  | flush => exact flush_ok hn r clock hkey
  | events after =>
    obtain ⟨entries, hlist⟩ := hn.list r.store key after
    have hkey : key.isValid = true := hkey
    show ((r.events key after).1.map fun _ => ()) = .ok ()
    rw [events, hkey]
    simp only [hlist]
    rfl
  | tick => exact flushHeld_ok hn r clock key

end NeverFails

end Recorder

end AgentStream
