/-
# Snapshots

A snapshot shows the messages of a session's record.  If the record has not come to the end of
a run yet, the snapshot may follow it: it looks at the record from time to time and passes on
what has been added, up to the end of the run or of the time it is given.

* `Snapshot` : the state of a snapshot; `Snapshot.want` : what it waits for;
* `Snapshot.step` : the reply to that, with the next state;
* `Follow` : how far a record has been passed on, and when it is looked at.
-/
import AgentStream.Replay
import AgentStream.Run.Plan

namespace AgentStream

/-! ## State -/

/-- How far a record has been passed on, and when it is looked at; times are in milliseconds. -/
structure Follow where
  interval : Nat
  /-- When following ends. -/
  deadline : Option Nat
  /-- When the record is looked at next. -/
  next : Nat
  /-- The timestamp of the last entry passed on. -/
  cursor : Nat
deriving DecidableEq

/-- What follows once an offered event is taken. -/
inductive SnapshotNext
  /-- The start was offered: the record is read. -/
  | opened
  /-- The messages of a record were offered; this is what became of it. -/
  | shown (error : Option ReplayError) (log : List Entry)
  /-- An entry was passed on; these are the others. -/
  | passed (follow : Follow) (rest : List Entry)
  /-- Nothing. -/
  | last
deriving DecidableEq

/-- Where a snapshot is. -/
inductive SnapshotStage
  | offering (e : Event) (next : SnapshotNext)
  | reading
  | waiting (follow : Follow)
  | looking (follow : Follow)
  | closed
deriving DecidableEq

/-- The state of a snapshot. -/
structure Snapshot where
  request : Request
  userId : String
  config : Config
  stage : SnapshotStage
deriving DecidableEq

/-- What a snapshot waits for. -/
inductive SnapshotWant
  /-- An event to be taken by the client. -/
  | offer (e : Event)
  /-- The entries of the record, or those after a timestamp. -/
  | entries (after : Option Nat)
  /-- A time, or the end of following before it. -/
  | time (deadline : Option Nat) (next : Nat)
  /-- Nothing; the snapshot is over. -/
  | nothing
deriving DecidableEq

/-- What the surroundings of a snapshot reply. -/
inductive SnapshotReply
  /-- The event was taken, at a time. -/
  | taken (now : Nat)
  /-- The event cannot be taken: the scope is done, or the client has gone. -/
  | refused
  /-- The entries that were asked for. -/
  | log (entries : Except RecordError (List Entry))
  /-- Following has ended. -/
  | expired
  /-- The time has come. -/
  | ticked
  /-- The scope is done. -/
  | done

namespace Snapshot

/-- A snapshot that has not done anything yet. -/
def ofRequest (config : Config) (request : Request) (userId : String) : Snapshot :=
  ⟨request, userId, config, .offering (.runStarted request.threadId request.runId) .opened⟩

/-- The session of a snapshot. -/
def key (s : Snapshot) : SessionKey := ⟨s.config.appName, s.userId, s.request.threadId⟩

/-- What a snapshot waits for. -/
def want (s : Snapshot) : SnapshotWant :=
  match s.stage with
  | .offering e _ => .offer e
  | .reading => .entries none
  | .waiting f => .time f.deadline f.next
  | .looking f => .entries (some f.cursor)
  | .closed => .nothing

/-! ## Stages -/

/-- The event that closes a snapshot. -/
def closing (s : Snapshot) : Event := .runFinished s.request.threadId s.request.runId

/-- The stage in which the last event is offered. -/
def lastly (e : Event) : SnapshotStage := .offering e .last

/-- The stage in which a failure is offered. -/
def failing (s : Snapshot) (message : String) : SnapshotStage :=
  lastly (.runError message (some s.request.runId))

/-- The record ends with the end of a run. -/
def endsRun (log : List Entry) : Bool :=
  match log.getLast? with
  | none => false
  | some entry =>
    match entry.event with
    | .ok e => e.isTerminal
    | .error _ => false

/-- How a record is followed from a time on; there has to be an interval. -/
def follow? (s : Snapshot) (now : Nat) (log : List Entry) : Option Follow :=
  s.config.flushInterval.map fun interval =>
    { interval
      deadline := (s.config.followMaxDuration.or s.config.timeout).map (now + ·)
      next := now + interval
      cursor := (log.getLast?.map Entry.timestamp).getD 0 }

/-- After the messages of a record: its failure, or following it, or the end. -/
def afterMessages (s : Snapshot) (now : Nat) (error : Option ReplayError) (log : List Entry) :
    SnapshotStage :=
  match error with
  | some error => s.failing ("reduce track events: " ++ error.message)
  | none =>
    if s.config.followEnabled && !endsRun log then
      match s.follow? now log with
      | some f => .waiting f
      | none => s.failing "messages snapshot follow requires a positive flush interval"
    else lastly s.closing

/-- The messages of a record that was read. -/
def showing (s : Snapshot) (log : List Entry) : SnapshotStage :=
  let r := replay s.config.appName s.userId log
  .offering (Body.messagesSnapshot r.messages) (.shown r.error log)

/-- The stage in which entries are passed on: those up to the cursor are skipped, and so are
empty ones and those that cannot be decoded.  The end of a run ends the snapshot, under the
names of its own request. -/
def passing (s : Snapshot) (f : Follow) : List Entry → SnapshotStage
  | [] => .waiting f
  | entry :: rest =>
    if entry.timestamp ≤ f.cursor then passing s f rest
    else
      let f := { f with cursor := entry.timestamp }
      match entry.event with
      | .error _ => passing s f rest
      | .ok e =>
        match e.body with
        | .runFinished .. => lastly s.closing
        | .runError message _ _ => s.failing message
        | _ => .offering e (.passed f rest)

/-! ## Steps -/

/-- One step.  A reply to something that the snapshot does not wait for changes nothing. -/
def step (s : Snapshot) (reply : SnapshotReply) : Snapshot :=
  match s.stage, reply with
  | .offering _ .opened, .taken _ => { s with stage := .reading }
  | .offering _ (.shown error log), .taken now =>
    { s with stage := s.afterMessages now error log }
  | .offering _ (.passed f rest), .taken _ => { s with stage := s.passing f rest }
  | .offering _ .last, .taken _ => { s with stage := .closed }
  | .offering _ _, .refused => { s with stage := .closed }
  | .reading, .log (.ok log) => { s with stage := s.showing log }
  | .reading, .log (.error error) =>
    { s with stage := s.failing ("get track events: " ++ error.message) }
  | .waiting _, .done => { s with stage := .closed }
  | .waiting _, .expired => { s with stage := s.failing "messages snapshot follow timeout" }
  | .waiting f, .ticked =>
    { s with stage := .looking { f with next := f.next + f.interval } }
  | .looking f, .log (.ok log) => { s with stage := s.passing f log }
  | .looking _, .log (.error error) =>
    { s with stage := s.failing ("follow track events: " ++ error.message) }
  | _, _ => s

end Snapshot

namespace Runner

variable {τ : Type}

/-- A snapshot of the session of a request; the runner has to have a name and a recorder. -/
def snapshot (r : Runner τ) (hasRecorder : Bool) (view : ScopeView) (request : Request) :
    Except RunnerError Snapshot := do
  if r.config.appName.isEmpty then throw .appNameEmpty
  if !hasRecorder then throw .recorderMissing
  let (request, userId) ← r.prepare view request
  pure (.ofRequest r.config request userId)

end Runner

end AgentStream
