/-
# The host of runs

A host carries runs, snapshots and what they need beside them: scopes with their watchdogs, the
recorder with its periodic flushes, and the streams that clients read.  Its jobs take turns: a
job that can go on stands in a queue, any other one waits for a time, for the end of a scope or
for room in a stream.  Time is counted in milliseconds and only moves when every job waits.

* `InFlight` : the sessions with a run in flight, of which a session has at most one;
* `Host` : the state of a host;
* `Job`, `Wait` : what is carried, and what a job waits for;
* `Host.wake`, `Host.cancel`, `Host.take?` : what lets waiting jobs go on.
-/
import AgentStream.Identifier
import AgentStream.Log.Recorder
import AgentStream.Run.Basic
import AgentStream.Run.Snapshot

namespace AgentStream

/-! ## Engines -/

/-- What an engine is called with. -/
structure EngineCall where
  userId : String
  sessionId : String
  message : Engine.Message
  options : RunOptions
  /-- The scope of the run. -/
  scope : Scope
deriving DecidableEq

/-- What an engine does next in its stream of outputs. -/
inductive EngineItem
  | output (o : Engine.Output)
  /-- It takes some milliseconds. -/
  | pause (ms : Nat)
  /-- It does nothing any more. -/
  | idle
deriving DecidableEq

/-- What an engine does when it is called. -/
structure Performance where
  /-- How long it takes to start, in milliseconds. -/
  startDelay : Nat := 0
  /-- Its stream, or why it does not start. -/
  stream : Except String (List EngineItem) := .ok []

/-- Where the engine of a run is. -/
inductive Feed
  /-- It has not been called. -/
  | uncalled
  /-- It has been called and starts, or not, at a time. -/
  | starting (time : Nat) (stream : Except String (List EngineItem))
  /-- It has these items left. -/
  | playing (items : List EngineItem)
  /-- It pauses until a time, and has these items left then. -/
  | pausing (time : Nat) (items : List EngineItem)

/-! ## Runs in flight -/

/-- The sessions with a run in flight, each with the scope of its run.  A run that is cancelled
keeps its place until it has wound down. -/
structure InFlight where
  runs : List (SessionKey × Nat) := []
deriving DecidableEq

namespace InFlight

/-- The session has a run in flight. -/
def holds (f : InFlight) (key : SessionKey) : Bool := (f.runs.lookup key).isSome

/-- The scope of the run of a session. -/
def scope? (f : InFlight) (key : SessionKey) : Option Nat := f.runs.lookup key

/-- Admit a run, unless its session has one. -/
def admit? (f : InFlight) (key : SessionKey) (scope : Nat) : Option InFlight :=
  if f.holds key then none else some ⟨(key, scope) :: f.runs⟩

/-- Give up the place of a session. -/
def release (f : InFlight) (key : SessionKey) : InFlight :=
  ⟨f.runs.filter fun (k, _) => k != key⟩

theorem scope?_eq_none {f : InFlight} {key : SessionKey} :
    f.scope? key = none ↔ f.holds key = false := by
  rw [scope?, holds, Option.isSome_eq_false_iff, Option.isNone_iff_eq_none]

end InFlight

/-! ## Streams -/

/-- A stream of events from a job to a client, with room for one event. -/
structure Stream where
  buffer : Option Event := none
  /-- The job may still write. -/
  writing : Bool := true
  /-- The client may still read. -/
  reading : Bool := true
deriving DecidableEq, Inhabited

/-! ## Jobs -/

/-- What a host carries. -/
inductive Job (τ : Type)
  | run (r : Run τ) (key : SessionKey) (scope : Scope) (stream : Nat) (feed : Feed)
  | snapshot (s : Snapshot) (scope : Scope) (stream : Nat)
  /-- Ends a scope at its deadline. -/
  | watchdog (scope : Nat) (deadline : Nat)
  /-- Flushes the record of a session from time to time; it is due at a time. -/
  | flusher (key : SessionKey) (interval : Nat) (due : Option Nat)

/-- What a job waits for; it goes on when the first of these comes. -/
structure Wait where
  job : Nat
  /-- The end of a scope. -/
  scope : Option Nat := none
  /-- Room in a stream, or the end of its reading. -/
  stream : Option Nat := none
  /-- A time. -/
  time : Option Nat := none
deriving DecidableEq

/-! ## Hosts -/

/-- The state of a host. -/
structure Host (τ σ : Type) where
  runner : Runner τ
  /-- What the engine does in its n-th call. -/
  engine : Nat → EngineCall → Performance
  recorder : Option (Recorder σ) := none
  now : Nat := 0
  ids : Identifiers := {}
  scopes : Scopes := {}
  inFlight : InFlight := {}
  streams : List Stream := []
  /-- The calls of the engine so far. -/
  calls : List EngineCall := []
  /-- Jobs by number. -/
  jobs : List (Nat × Job τ) := []
  /-- The number of the next job. -/
  nextJob : Nat := 0
  /-- The jobs that can go on, in their order. -/
  ready : List Nat := []
  /-- What the others wait for, in the order in which they began to. -/
  waits : List Wait := []

namespace Host

variable {τ σ : Type}

/-! ## Queueing -/

/-- Let a new job take its turns. -/
def launch (h : Host τ σ) (job : Job τ) : Host τ σ :=
  { h with
    jobs := h.jobs ++ [(h.nextJob, job)]
    nextJob := h.nextJob + 1
    ready := h.ready ++ [h.nextJob] }

/-- Let the jobs go on whose waits satisfy a condition. -/
def wake (h : Host τ σ) (p : Wait → Bool) : Host τ σ :=
  { h with
    ready := h.ready ++ (h.waits.filter p).map Wait.job
    waits := h.waits.filter fun w => !p w }

/-- Change a stream. -/
def setStream (h : Host τ σ) (stream : Nat) (f : Stream → Stream) : Host τ σ :=
  { h with streams := h.streams.modify stream f }

/-- A stream, over if there is none. -/
def stream (h : Host τ σ) (stream : Nat) : Stream :=
  h.streams.getD stream { writing := false, reading := false }

/-! ## Scopes -/

/-- Let the jobs go on that wait for the end of scopes, scope by scope. -/
def wakeScopes (h : Host τ σ) (scopes : List Nat) : Host τ σ :=
  scopes.foldl (fun h id => h.wake fun w => w.scope == some id) h

/-- Cancel a scope. -/
def cancel (h : Host τ σ) (scope : Nat) : Host τ σ :=
  wakeScopes { h with scopes := h.scopes.cancel scope } (h.scopes.live scope)

/-- End a scope whose deadline has come. -/
def expire (h : Host τ σ) (scope : Nat) : Host τ σ :=
  wakeScopes { h with scopes := h.scopes.expire scope } (h.scopes.live scope)

/-- A scope that never ends by itself. -/
def background (h : Host τ σ) : Scope × Host τ σ :=
  let (s, scopes) := h.scopes.background
  (s, { h with scopes })

/-- A scope below another one. -/
def child (h : Host τ σ) (s : Scope) : Scope × Host τ σ :=
  let (s, scopes) := h.scopes.child s
  (s, { h with scopes })

/-- A scope of its own with the values of another one. -/
def detached (h : Host τ σ) (s : Scope) : Scope × Host τ σ :=
  let (s, scopes) := h.scopes.detached s
  (s, { h with scopes })

/-- A scope below another one with a deadline; a new deadline is watched. -/
def withDeadline (h : Host τ σ) (s : Scope) (deadline : Nat) : Scope × Host τ σ :=
  let (s, isNew, scopes) := h.scopes.withDeadline s deadline
  let h := { h with scopes }
  (s, if isNew then h.launch (.watchdog s.id deadline) else h)

/-- What hooks and callbacks see of a scope. -/
def view (h : Host τ σ) (s : Scope) : ScopeView := h.scopes.view h.now s

/-- A scope is done. -/
def isDone (h : Host τ σ) (s : Scope) : Bool := h.scopes.isDone h.now s.id

/-! ## Streams -/

/-- Open a stream. -/
def openStream (h : Host τ σ) : Nat × Host τ σ :=
  (h.streams.length, { h with streams := h.streams ++ [{}] })

/-- Take the event that a stream holds; that makes room. -/
def take? (h : Host τ σ) (stream : Nat) : Option (Event × Host τ σ) :=
  match (h.stream stream).buffer with
  | some e =>
    some (e, (h.setStream stream fun s => { s with buffer := none }).wake
      fun w => w.stream == some stream)
  | none => none

/-- Stop reading a stream. -/
def drop (h : Host τ σ) (stream : Nat) : Host τ σ :=
  (h.setStream stream fun s => { s with buffer := none, reading := false }).wake
    fun w => w.stream == some stream

/-! ## Records -/

/-- The readings of the clock that entries are stamped with, in nanoseconds; time stands still
during an operation. -/
def clock (h : Host τ σ) (_ : Nat) : Nat := h.now * 1000000

/-- Append an event to the record of a session.  The first piece of text that is held back
starts the periodic flush. -/
def append [LogStore σ] (h : Host τ σ) (r : Recorder σ) (key : SessionKey) (e : Event) :
    Except RecordError Unit × Host τ σ :=
  let (result, flushing, r) := r.append h.clock key e
  let h := { h with recorder := some r }
  match flushing, r.options.flushInterval with
  | true, some interval => (result, h.launch (.flusher key interval none))
  | _, _ => (result, h)

/-- Flush the record of a session. -/
def flush [LogStore σ] (h : Host τ σ) (r : Recorder σ) (key : SessionKey) :
    Except RecordError Unit × Host τ σ :=
  let (result, r) := r.flush h.clock key
  (result, { h with recorder := some r })

/-- The entries of a session, or those after a timestamp. -/
def entries [LogStore σ] (h : Host τ σ) (r : Recorder σ) (key : SessionKey)
    (after : Option Nat) : Except RecordError (List Entry) × Host τ σ :=
  let (result, r) := r.events key after
  (result, { h with recorder := some r })

/-! ## Identifiers -/

/-- A fresh identifier. -/
def freshId (h : Host τ σ) : String × Host τ σ :=
  let (id, ids) := h.ids.draw
  (id, { h with ids })

end Host

end AgentStream
