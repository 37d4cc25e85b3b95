/-
# Rehearsals

A rehearsal plays a runner with scripted engines, rules for its hooks and a store in memory, on
a host of its own.  Streams and scopes go by names.

* `Rehearsal` : the state of a rehearsal; `Rehearsal.make` : its beginning;
* `Rehearsal.run`, `snapshot`, `cancel`, `read`, `drop` : what a client does;
* `Rehearsal.append`, `flush`, `entries`, `seed` : what is done to the record;
* `Rehearsal.derive`, `endScope`, `waitForEnd` : what is done to scopes.
-/
import AgentStream.Host.Clock
import AgentStream.Host.Operations
import AgentStream.Rehearsal.Hooks
import AgentStream.Rehearsal.Store

namespace AgentStream

/-- The state of a rehearsal. -/
structure Rehearsal where
  host : Host Rehearsal.Interpreter Rehearsal.Store
  /-- Streams by name. -/
  streams : List (String × Nat) := []
  /-- Scopes by name. -/
  scopes : List (String × Scope) := []

namespace Rehearsal

/-- The beginning of a rehearsal.  The n-th call of the engine plays the n-th performance, and
further calls play an empty one. -/
def make (config : Config) (rules : Rules) (performances : List Performance) (store : Store)
    (recorded : Bool) (ids : Identifiers) : Rehearsal where
  host :=
    { runner := { config, hooks := rules.hooks, callbacks := rules.callbacks }
      engine := fun n _ => performances.getD n {}
      recorder := if recorded then some { store, options := config.recorderOptions } else none
      ids }

/-- All jobs go on until each one waits. -/
def settle (s : Rehearsal) : Rehearsal := { s with host := s.host.settle }

/-- Put a value under a name. -/
def bindName {α : Type} (name : String) (a : α) (table : List (String × α)) : List (String × α) :=
  (name, a) :: table.filter fun (n, _) => n != name

/-! ## Clients -/

/-- A new stream under a name; a stream that had the name is dropped. -/
def openStream (s : Rehearsal) (name : String) (stream : Nat)
    (host : Host Interpreter Store) : Rehearsal :=
  let host := match s.streams.lookup name with
    | some old => host.drop old
    | none => host
  { s with host, streams := bindName name stream s.streams }

/-- Start a run under a name. -/
def run (s : Rehearsal) (name : String) (caller : Scope) (request : Request) :
    Except RunnerError Rehearsal :=
  (s.host.run caller request).map fun (stream, host) => s.openStream name stream host

/-- Start a snapshot under a name. -/
def snapshot (s : Rehearsal) (name : String) (caller : Scope) (request : Request) :
    Except RunnerError Rehearsal :=
  (s.host.snapshot caller request).map fun (stream, host) => s.openStream name stream host

/-- Cancel the run in flight of a session. -/
def cancel (s : Rehearsal) (caller : Scope) (request : Request) : Except RunnerError Rehearsal :=
  (s.host.cancelRun caller request).map fun host => { s with host }

/-- How a reading of several events ended. -/
inductive Outcome
  /-- As many events were read as were asked for. -/
  | stillOpen
  /-- The stream has ended. -/
  | closed
  /-- The moment came first. -/
  | idle
deriving DecidableEq

/-- Read up to so many events of a stream, or up to its end or a moment. -/
def readEvents (h : Host Interpreter Store) (stream moment : Nat) :
    Nat → List Event × Outcome × Host Interpreter Store
  | 0 => ([], .stillOpen, h)
  | n + 1 =>
    match h.read stream moment with
    | (.event e, h) =>
      let (events, outcome, h) := readEvents h stream moment n
      (e :: events, outcome, h)
    | (.closed, h) => ([], .closed, h)
    | (.late, h) => ([], .idle, h)

/-- Read up to so many events of the stream of a name for some milliseconds. -/
def read (s : Rehearsal) (name : String) (count limit : Nat) :
    Option (List Event × Outcome) × Rehearsal :=
  match s.streams.lookup name with
  | none => (none, s)
  | some stream =>
    let (events, outcome, host) := readEvents s.host stream (s.host.now + limit) count
    (some (events, outcome), { s with host })

/-- Drop the stream of a name.  Also whether there was one. -/
def drop (s : Rehearsal) (name : String) : Bool × Rehearsal :=
  match s.streams.lookup name with
  | none => (false, s)
  | some stream =>
    (true, { s with
      host := s.host.drop stream
      streams := s.streams.filter fun (n, _) => n != name })

/-- Let some milliseconds pass. -/
def sleep (s : Rehearsal) (ms : Nat) : Rehearsal :=
  { s with host := s.host.sleep (s.host.now + ms) }

/-! ## Records -/

/-- Do something to the recorder, if there is one. -/
def withRecorder {α : Type} (s : Rehearsal)
    (f : Recorder Store → α × Host Interpreter Store) : Option α × Rehearsal :=
  match s.host.recorder with
  | none => (none, s)
  | some r =>
    let (a, host) := f r
    (some a, { s with host })

/-- Append an event to the record of a session. -/
def append (s : Rehearsal) (key : SessionKey) (e : Event) :
    Option (Except RecordError Unit) × Rehearsal :=
  s.withRecorder fun r => s.host.append r key e

/-- Flush the record of a session. -/
def flush (s : Rehearsal) (key : SessionKey) : Option (Except RecordError Unit) × Rehearsal :=
  s.withRecorder fun r => s.host.flush r key

/-- The entries of a session, or those after a timestamp. -/
def entries (s : Rehearsal) (key : SessionKey) (after : Option Nat) :
    Option (Except RecordError (List Entry)) × Rehearsal :=
  s.withRecorder fun r => s.host.entries r key after

/-- Put an entry into the store, past the recorder. -/
def seed (s : Rehearsal) (key : SessionKey) (e : Entry) : Rehearsal :=
  (s.withRecorder fun r =>
    ((), { s.host with recorder := some { r with store := r.store.seed key e } })).2

/-- The timestamps handed to the store increase strictly. -/
def timestampsIncrease (s : Rehearsal) : Bool := s.host.recorder.all (·.store.increasing)

/-! ## Scopes -/

/-- The scope of a name, or else a new one. -/
def scope (s : Rehearsal) (name : Option String) : Scope × Rehearsal :=
  match name.bind fun name => s.scopes.lookup name with
  | some scope => (scope, s)
  | none =>
    let (scope, host) := s.host.background
    (scope, { s with host })

/-- How a scope is derived. -/
inductive Derivation
  | background
  | child
  | detached
  | same
deriving DecidableEq

/-- Derive a scope under a name, with a duration in milliseconds and values. -/
def derive (s : Rehearsal) (name : String) (parent : Scope) (d : Derivation) (ms : Option Nat)
    (values : Members) : Rehearsal :=
  let (scope, host) := match d with
    | .background => s.host.background
    | .child => s.host.child parent
    | .detached => s.host.detached parent
    | .same => (parent, s.host)
  let (scope, host) := match ms with
    | some ms => host.withDeadline scope (host.now + ms)
    | none => (scope, host)
  let scope := values.foldl (fun scope (n, v) => scope.withValue n v) scope
  { s with host, scopes := bindName name scope s.scopes }

/-- Cancel a scope. -/
def endScope (s : Rehearsal) (scope : Scope) : Rehearsal :=
  { s with host := s.host.cancel scope.id }

/-- Wait for the end of a scope for some milliseconds.  Also whether it has ended. -/
def waitForEnd (s : Rehearsal) (scope : Scope) (limit : Nat) : Bool × Rehearsal :=
  let (ended, host) := s.host.waitForEnd scope (s.host.now + limit)
  (ended, { s with host })

end Rehearsal

end AgentStream
