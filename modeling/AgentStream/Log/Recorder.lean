/-
# Recording of sessions

A recorder puts the events of sessions into a store.  It merges text pieces, hands out strictly
increasing timestamps, and has what it holds back flushed from time to time.

* `Recorder` : the store, what is held back for every session, and the last timestamp;
* `Recorder.append`, `Recorder.events`, `Recorder.flush` : the operations on a session;
* `Recorder.tick` : one round of the periodic flush.
-/
import AgentStream.Log.Merger
import AgentStream.Log.Store

namespace AgentStream

/-- Why an operation on a session's log fails. -/
inductive RecordError
  | invalidKey (key : SessionKey)
  | store (error : StoreError)
deriving DecidableEq

/-- The text of a record error. -/
def RecordError.message : RecordError → String
  | invalidKey key => "invalid session key: " ++ key.text
  | store error => error.message

/-- How sessions are recorded. -/
structure RecorderOptions where
  merging : Bool := true
  /-- The period of the flush of what is held back, in milliseconds. -/
  flushInterval : Option Nat := none
deriving DecidableEq

/-- What is remembered of a session between operations. -/
structure Held where
  merger : Merger
  /-- A periodic flush is under way. -/
  flushing : Bool := false
deriving DecidableEq

/-- Records the events of sessions in a store. -/
structure Recorder (σ : Type) where
  store : σ
  options : RecorderOptions
  sessions : List (SessionKey × Held) := []
  lastTimestamp : Nat := 0

namespace Recorder

variable {σ : Type} [LogStore σ]

/-! ## Sessions -/

/-- What is remembered of a session; nothing is held back for a new one. -/
def held (r : Recorder σ) (key : SessionKey) : Held :=
  (r.sessions.lookup key).getD { merger := { enabled := r.options.merging } }

/-- Put a value under a key in a table. -/
def putIn (key : SessionKey) (h : Held) : List (SessionKey × Held) → List (SessionKey × Held)
  | [] => [(key, h)]
  | (k, v) :: rest => if key = k then (k, h) :: rest else (k, v) :: putIn key h rest

/-- The recorder that remembers something of a session. -/
def put (r : Recorder σ) (key : SessionKey) (h : Held) : Recorder σ :=
  { r with sessions := putIn key h r.sessions }

/-- Forget a session for which nothing is held back or under way. -/
def evictIdle (r : Recorder σ) (key : SessionKey) : Recorder σ :=
  let h := r.held key
  if h.merger.pending.isSome || h.flushing then r
  else { r with sessions := r.sessions.filter fun (k, _) => k != key }

/-! ## Timestamps -/

/-- The greatest timestamp there is. -/
def maxTimestamp : Nat := 18446744073709551615

/-- The next timestamp: the clock's reading, but always after the last one. -/
def nextTimestamp (clock last : Nat) : Nat := max clock (min (last + 1) maxTimestamp)

/-! ## Operations -/

/-- Store events one after the other, up to the first failure of the store.  The clock is read
once for every event: `clock n` is its reading for the n-th one. -/
def persist (r : Recorder σ) (clock : Nat → Nat) (key : SessionKey) :
    List Event → Except RecordError Unit × Recorder σ
  | [] => (.ok (), r)
  | e :: rest =>
    let timestamp := nextTimestamp (clock 0) r.lastTimestamp
    let (result, store) := LogStore.append r.store key (.ofEvent timestamp e)
    let r := { r with store, lastTimestamp := timestamp }
    match result with
    | .ok () => persist r (fun n => clock (n + 1)) key rest
    | .error error => (.error (.store error), r)

/-- Store what is held back for a session and flush the store. -/
def flushHeld (r : Recorder σ) (clock : Nat → Nat) (key : SessionKey) :
    Except RecordError Unit × Recorder σ :=
  let h := r.held key
  let (events, merger) := h.merger.flush
  match (r.put key { h with merger }).persist clock key events with
  | (.error error, r) => (.error error, r)
  | (.ok (), r) =>
    match LogStore.flush r.store key with
    | (.error error, store) => (.error (.store error), { r with store })
    | (.ok (), store) => (.ok (), { r with store })

/-- Append an event to a session's log.  Also whether a periodic flush has to be started. -/
def append (r : Recorder σ) (clock : Nat → Nat) (key : SessionKey) (e : Event) :
    Except RecordError Unit × Bool × Recorder σ :=
  if !key.isValid then (.error (.invalidKey key), false, r)
  else
    let h := r.held key
    let (ready, merger) := h.merger.push e
    match (r.put key { h with merger }).persist clock key ready with
    | (.error error, r) => (.error error, false, r)
    | (.ok (), r) =>
      if r.options.flushInterval.isSome && merger.pending.isSome && !h.flushing then
        (.ok (), true, r.put key { merger, flushing := true })
      else (.ok (), false, r)

/-- The entries of a session, or those after a timestamp. -/
def events (r : Recorder σ) (key : SessionKey) (after : Option Nat) :
    Except RecordError (List Entry) × Recorder σ :=
  if !key.isValid then (.error (.invalidKey key), r)
  else
    let (result, store) := LogStore.list r.store key after
    (result.mapError .store, { r with store })

/-- Store everything appended so far for a session. -/
def flush (r : Recorder σ) (clock : Nat → Nat) (key : SessionKey) :
    Except RecordError Unit × Recorder σ :=
  if !key.isValid then (.error (.invalidKey key), r)
  else
    match r.flushHeld clock key with
    | (.error error, r) => (.error error, r)
    | (.ok (), r) => (.ok (), r.evictIdle key)

/-- One round of the periodic flush of a session, whatever the store says.  Also whether
another round follows; it does as long as something is held back. -/
def tick (r : Recorder σ) (clock : Nat → Nat) (key : SessionKey) : Bool × Recorder σ :=
  let (_, r) := r.flushHeld clock key
  let h := r.held key
  if h.merger.pending.isSome then (true, r)
  else (false, (r.put key { h with flushing := false }).evictIdle key)

end Recorder

end AgentStream
