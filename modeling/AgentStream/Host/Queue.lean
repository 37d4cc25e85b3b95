/-
# Turns of jobs

A job in the queue takes small turns until it has to wait or is over; then the next one does.

* `Host.jobTurn` : one turn of a job;
* `Host.turn?` : one turn of the first job in the queue;
* `Host.settle` : turns until every job waits.
-/
import AgentStream.Host.Basic

namespace AgentStream

/-- How a job stands after a turn. -/
inductive Progress (τ σ : Type)
  /-- It can go on at once. -/
  | more (job : Job τ) (h : Host τ σ)
  /-- It has to wait. -/
  | blocked (w : Wait) (job : Job τ) (h : Host τ σ)
  /-- It is over. -/
  | over (h : Host τ σ)

namespace Host

variable {τ σ : Type}

/-! ## Delivery -/

/-- What becomes of an event that a job offers to a stream. -/
inductive Delivery
  | taken
  | refused
  /-- There is no room. -/
  | full
deriving DecidableEq

/-- An event is refused once the scope is done or the client has gone. -/
def delivery (h : Host τ σ) (scope : Scope) (stream : Nat) : Delivery :=
  if h.isDone scope || !(h.stream stream).reading then .refused
  else if (h.stream stream).buffer.isSome then .full
  else .taken

/-- Put an event into a stream. -/
def put (h : Host τ σ) (stream : Nat) (e : Event) : Host τ σ :=
  h.setStream stream fun s => { s with buffer := some e }

/-- Close a stream for writing. -/
def closeStream (h : Host τ σ) (stream : Nat) : Host τ σ :=
  h.setStream stream fun s => { s with writing := false }

/-! ## Waits -/

/-- The earlier of two times. -/
def earlier (a b : Option Nat) : Option Nat :=
  match a, b with
  | some a, some b => some (min a b)
  | some a, none => some a
  | none, b => b

/-- A wait that ends with a scope. -/
def waitFor (h : Host τ σ) (job : Nat) (scope : Scope) (stream : Option Nat) (time : Option Nat) :
    Wait :=
  ⟨job, some scope.id, stream, earlier (h.scopes.deadline? scope.id) time⟩

/-! ## Runs -/

/-- Do what a run says is to be done. -/
def perform (key : SessionKey) (scope : Scope) (stream : Nat) (h : Host τ σ) :
    Action → Host τ σ
  | .deliver e => h.put stream e
  | .endScope => h.cancel scope.id
  | .release => { h with inFlight := h.inFlight.release key }
  | .close => h.closeStream stream

/-- What a run finds around it. -/
def moment (h : Host τ σ) (scope : Scope) : Moment := ⟨h.runner.callbacks, h.view scope⟩

/-- Ask something of the recorder, if there is one. -/
def ask (h : Host τ σ) (f : Recorder σ → Except RecordError Unit × Host τ σ) :
    Except RecordError Unit × Host τ σ :=
  match h.recorder with
  | some r => f r
  | none => (.ok (), h)

/-- One turn of a run. -/
def runTurn [Translator τ] [LogStore σ] (h : Host τ σ) (job : Nat) (r : Run τ) (key : SessionKey)
    (scope : Scope) (stream : Nat) (feed : Feed) : Progress τ σ :=
  let reply := fun (h : Host τ σ) (feed : Feed) (reply : Reply) =>
    let (actions, r) := r.step (h.moment scope) reply
    .more (.run r key scope stream feed) (actions.foldl (perform key scope stream) h)
  let goOn := fun (feed : Feed) => .more (.run r key scope stream feed) h
  let wait := fun (w : Wait) => .blocked w (.run r key scope stream feed) h
  match r.want with
  | .nothing => .over h
  | .offer _ =>
    match h.delivery scope stream with
    | .taken => reply h feed .taken
    | .refused => reply h feed .refused
    | .full => wait (h.waitFor job scope (some stream) none)
  | .append e =>
    let (result, h) := h.ask fun r => h.append r key e
    reply h feed (.answered result)
  | .flush =>
    let (result, h) := h.ask fun r => h.flush r key
    reply h feed (.answered result)
  | .start =>
    match feed with
    | .starting time outcome =>
      if time ≤ h.now then
        match outcome with
        | .ok items =>
          let (fresh, h) := h.freshId
          reply h (.playing items) (.started fresh)
        | .error reason => reply h feed (.failed reason)
      else wait { job, time := some time }
    | _ =>
      let call : EngineCall :=
        ⟨r.plan.userId, r.plan.request.threadId, r.plan.turn.message, r.plan.options, scope⟩
      let p := h.engine h.calls.length call
      .more (.run r key scope stream (.starting (h.now + p.startDelay) p.stream))
        { h with calls := h.calls ++ [call] }
  | .output =>
    if h.isDone scope then reply h feed .done
    else
      match feed with
      | .playing (.output o :: rest) =>
        let (fresh, h) := h.freshId
        let (fresh', h) := h.freshId
        let (fresh'', h) := h.freshId
        reply h (.playing rest) (.yielded fresh fresh' fresh'' o)
      | .playing (.pause ms :: rest) => goOn (.pausing (h.now + ms) rest)
      | .playing (.idle :: _) => wait (h.waitFor job scope none none)
      | .pausing time items =>
        if time ≤ h.now then goOn (.playing items)
        else wait (h.waitFor job scope none (some time))
      | _ => reply h feed .ended

/-! ## Snapshots -/

/-- One turn of a snapshot. -/
def snapshotTurn [LogStore σ] (h : Host τ σ) (job : Nat) (s : Snapshot) (scope : Scope)
    (stream : Nat) : Progress τ σ :=
  let reply := fun (h : Host τ σ) (reply : SnapshotReply) =>
    .more (.snapshot (s.step reply) scope stream) h
  let wait := fun (w : Wait) => .blocked w (.snapshot s scope stream) h
  match s.want with
  | .nothing => .over (h.closeStream stream)
  | .offer e =>
    match h.delivery scope stream with
    | .taken => reply (h.put stream e) (.taken h.now)
    | .refused => reply h .refused
    | .full => wait (h.waitFor job scope (some stream) none)
  | .entries after =>
    match h.recorder with
    | some r =>
      let (result, h) := h.entries r s.key after
      reply h (.log result)
    | none => reply h (.log (.ok []))
  | .time deadline next =>
    if h.isDone scope then reply h .done
    else if deadline.any (· ≤ h.now) then reply h .expired
    else if next ≤ h.now then reply h .ticked
    else wait (h.waitFor job scope none (earlier deadline (some next)))

/-! ## Watchdogs and periodic flushes -/

/-- One turn of a watchdog. -/
def watchdogTurn (h : Host τ σ) (job scope deadline : Nat) : Progress τ σ :=
  if h.scopes.hasFired scope then .over h
  else if deadline ≤ h.now then .over (h.expire scope)
  else .blocked ⟨job, some scope, none, some deadline⟩ (.watchdog scope deadline) h

/-- One turn of a periodic flush. -/
def flusherTurn [LogStore σ] (h : Host τ σ) (job : Nat) (key : SessionKey) (interval : Nat)
    (due : Option Nat) : Progress τ σ :=
  let due := due.getD (h.now + interval)
  if due ≤ h.now then
    match h.recorder with
    | none => .over h
    | some r =>
      let (again, r) := r.tick h.clock key
      let h := { h with recorder := some r }
      if again then .more (.flusher key interval (some (due + interval))) h else .over h
  else .blocked { job, time := some due } (.flusher key interval (some due)) h

/-! ## The queue -/

/-- One turn of a job. -/
def jobTurn [Translator τ] [LogStore σ] (h : Host τ σ) (id : Nat) : Job τ → Progress τ σ
  | .run r key scope stream feed => h.runTurn id r key scope stream feed
  | .snapshot s scope stream => h.snapshotTurn id s scope stream
  | .watchdog scope deadline => h.watchdogTurn id scope deadline
  | .flusher key interval due => h.flusherTurn id key interval due

/-- Keep a job as it stands. -/
def setJob (h : Host τ σ) (id : Nat) (job : Job τ) : Host τ σ :=
  { h with jobs := h.jobs.map fun (i, j) => if i = id then (i, job) else (i, j) }

/-- Take the first job out of the queue. -/
def leave (h : Host τ σ) : Host τ σ := { h with ready := h.ready.drop 1 }

/-- Forget a job. -/
def forget (h : Host τ σ) (id : Nat) : Host τ σ :=
  { h with jobs := h.jobs.filter fun (i, _) => i != id }

/-- One turn of the first job in the queue, if there is one. -/
def turn? [Translator τ] [LogStore σ] (h : Host τ σ) : Option (Host τ σ) :=
  match h.ready with
  | [] => none
  | id :: _ =>
    match h.jobs.lookup id with
    | none => some h.leave
    | some job =>
      match h.jobTurn id job with
      | .more job h => some (h.setJob id job)
      | .blocked w job h =>
        let h := (h.setJob id job).leave
        some { h with waits := h.waits ++ [w] }
      | .over h => some (h.forget id).leave

/-- At most so many turns. -/
def turns [Translator τ] [LogStore σ] : Nat → Host τ σ → Host τ σ
  | 0, h => h
  | fuel + 1, h =>
    match h.turn? with
    | some h => turns fuel h
    | none => h

/-- How many turns jobs may take without waiting. -/
def patience : Nat := 1000000

/-- Turns until every job waits. -/
def settle [Translator τ] [LogStore σ] (h : Host τ σ) : Host τ σ := turns patience h

end Host

end AgentStream
