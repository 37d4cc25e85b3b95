/-
# Runs

A run is a machine that says what it wants of its surroundings and goes on with their reply.
It offers events to its client one at a time, starts the engine, and asks the engine for one
output after the other.  Every event that the client takes is appended to the record before
anything else happens, and nothing is delivered once the scope of the run is done.  When the
run is over it winds down: the record is flushed, the scope of the run is ended, its place among
the runs in flight is released, and only then is its stream closed.

* `Run` : the state of a run; `Run.want` : what it waits for;
* `Moment` : what it finds around it when it is replied to;
* `Run.step` : the reply to what it wants, with what is to be done and the next state;
* `Run.ofPlan` : a run that has not done anything yet.
-/
import AgentStream.Log.Recorder
import AgentStream.Replay
import AgentStream.Run.Plan

namespace AgentStream

/-! ## State -/

/-- What follows once an offered event is taken and recorded. -/
inductive Next
  /-- The start of the run was offered: the turn is shown or recorded. -/
  | opened
  /-- The result of a tool was shown: the engine is started. -/
  | echoed
  /-- A resume was acknowledged: the engine's outputs are asked for. -/
  | acknowledged
  /-- One event of an output was offered; these are the others. -/
  | emitted (rest : List Event)
  /-- Nothing. -/
  | last
deriving DecidableEq

/-- Where a run is. -/
inductive Stage
  | offering (e : Event) (next : Next)
  /-- A delivered event is being appended to the record. -/
  | recording (e : Event) (next : Next)
  /-- The turn of the user is being appended to the record. -/
  | noting (e : Event)
  | starting
  | pumping
  | flushing
  | closed
deriving DecidableEq

/-- The state of a run. -/
structure Run (τ : Type) where
  plan : Plan τ
  switches : Activity.Switches
  /-- There is a recorder, and the session has a valid key. -/
  recorded : Bool
  /-- The translator after the outputs so far. -/
  translator : τ
  stage : Stage

/-- What a run waits for. -/
inductive Want
  /-- An event to be taken by the client. -/
  | offer (e : Event)
  /-- An event to be appended to the record of the session. -/
  | append (e : Event)
  /-- The engine to be started. -/
  | start
  /-- The next output of the engine. -/
  | output
  /-- The record of the session to be flushed. -/
  | flush
  /-- Nothing; the run is over. -/
  | nothing
deriving DecidableEq

/-- What the surroundings of a run reply. -/
inductive Reply
  /-- The client takes the event. -/
  | taken
  /-- The event cannot be taken: the scope is done, or the client has gone. -/
  | refused
  /-- What the recorder answers to an event or to a flush. -/
  | answered (result : Except RecordError Unit)
  /-- The engine was started; the text is a fresh id. -/
  | started (fresh : String)
  /-- The engine cannot be started. -/
  | failed (reason : String)
  /-- The engine's next output, with three fresh ids. -/
  | yielded (fresh fresh' fresh'' : String) (o : Engine.Output)
  /-- The engine has no further output. -/
  | ended
  /-- The scope is done. -/
  | done

/-- What a run finds around it when it is replied to. -/
structure Moment where
  callbacks : Callbacks
  /-- What is seen of the run's scope. -/
  view : ScopeView

/-- The scope of the run is done. -/
def Moment.isDone (m : Moment) : Bool := m.view.done.isSome

/-- What is to be done besides. -/
inductive Action
  /-- Put an event into the stream. -/
  | deliver (e : Event)
  /-- End the scope of the run. -/
  | endScope
  /-- Release the place of the session. -/
  | release
  /-- Close the stream. -/
  | close
deriving DecidableEq

namespace Run

variable {τ : Type}

/-! ## Events of a run -/

/-- The event that opens a run. -/
def openingOf (p : Plan τ) : Event := .runStarted p.request.threadId p.request.runId

/-- The event that records the turn of a user. -/
def noteOf? (p : Plan τ) : Option Event :=
  (p.turn.record? p.userId).map fun m => Body.custom Replay.userMessageName m.toJson.sorted

/-- A run that has not done anything yet; it is recorded if there is a recorder and its session
has a valid key. -/
def ofPlan (p : Plan τ) (config : Config) (hasRecorder : Bool) : Run τ where
  plan := p
  switches := config.switches
  recorded := hasRecorder && (p.key config.appName).isValid
  translator := p.translator
  stage := .offering (openingOf p) .opened

/-- The event that closes a run. -/
def closing (r : Run τ) : Event := .runFinished r.plan.request.threadId r.plan.request.runId

/-- A failure of the run. -/
def failure (r : Run τ) (message : String) : Event :=
  .runError message (some r.plan.request.runId)

/-- What a run waits for. -/
def want (r : Run τ) : Want :=
  match r.stage with
  | .offering e _ => .offer e
  | .recording e _ => .append e
  | .noting e => .append e
  | .starting => .start
  | .pumping => .output
  | .flushing => .flush
  | .closed => .nothing

/-! ## Stages -/

/-- The run at a stage. -/
def goTo (r : Run τ) (stage : Stage) : Run τ := { r with stage }

/-- What is done when a run is over, in this order. -/
def windDown : List Action := [.endScope, .release, .close]

/-- The run is over. -/
def leave (r : Run τ) : List Action × Run τ := (windDown, r.goTo .closed)

/-- The end of a run; what is recorded is flushed first. -/
def finish (r : Run τ) : List Action × Run τ :=
  if r.recorded then ([], r.goTo .flushing) else r.leave

/-- The stage in which the last event of a run is offered. -/
def lastly (e : Event) : Stage := .offering e .last

/-- The stage in which the events of an output are offered, each after its callbacks. -/
def emitting (r : Run τ) (m : Moment) : List Event → Stage
  | [] => .pumping
  | e :: rest =>
    match m.callbacks.afterTranslation m.view e with
    | .ok e => .offering e (.emitted rest)
    | .error reason => lastly (r.failure ("after translate: " ++ reason))

/-- After the start of a run the result of a tool is shown once more, and the turn of a user
is recorded. -/
def afterOpening (r : Run τ) : Stage :=
  match r.plan.turn.source with
  | .tool callId content =>
    .offering (.toolResult r.plan.turn.messageId callId content) .echoed
  | .user _ =>
    match noteOf? r.plan with
    | some note => if r.recorded then .noting note else .starting
    | none => .starting

/-- What follows a delivered event once it is recorded; nothing does after a terminal one. -/
def follow (r : Run τ) (m : Moment) (e : Event) (next : Next) : List Action × Run τ :=
  if e.isTerminal then r.finish
  else
    match next with
    | .opened => ([], r.goTo r.afterOpening)
    | .echoed => ([], r.goTo .starting)
    | .acknowledged => ([], r.goTo .pumping)
    | .emitted rest => ([], r.goTo (r.emitting m rest))
    | .last => r.finish

/-- An event is delivered. -/
def deliver (r : Run τ) (m : Moment) (e : Event) (next : Next) : List Action × Run τ :=
  if r.recorded then ([.deliver e], r.goTo (.recording e next))
  else
    let (actions, r) := r.follow m e next
    (.deliver e :: actions, r)

/-- Once the engine is started, a resume may have to be acknowledged. -/
def afterStart (r : Run τ) (fresh : String) : Stage :=
  if r.switches.interrupt then
    match Activity.resumed? fresh r.plan.options.runtimeState with
    | some ack => .offering ack .acknowledged
    | none => .pumping
  else .pumping

/-- The events of an output: its activity, then its translation. -/
def afterOutput [Translator τ] (r : Run τ) (m : Moment) (fresh fresh' fresh'' : String)
    (o : Engine.Output) : Run τ :=
  match m.callbacks.beforeTranslation m.view o with
  | .error reason => r.goTo (lastly (r.failure ("before translate: " ++ reason)))
  | .ok o =>
    let activity := Activity.project r.switches fresh fresh' o
    match Translator.translate r.translator fresh'' o with
    | (.error reason, translator) =>
      { r with translator, stage := lastly (r.failure ("translate: " ++ reason)) }
    | (.ok events, translator) =>
      { r with translator, stage := r.emitting m (activity ++ events) }

/-! ## Steps -/

/-- One step: what is to be done, and the next state.  A scope that is done comes before every
other reply to an offer or to a question for an output.  A reply to something that the run does
not wait for changes nothing. -/
def step [Translator τ] (r : Run τ) (m : Moment) (reply : Reply) : List Action × Run τ :=
  match r.stage, reply with
  | .offering e next, .taken => if m.isDone then r.finish else r.deliver m e next
  | .offering _ _, .refused => r.finish
  | .recording e next, .answered _ => r.follow m e next
  | .noting _, .answered _ => ([], r.goTo .starting)
  | .starting, .started fresh => ([], r.goTo (r.afterStart fresh))
  | .starting, .failed reason => ([], r.goTo (lastly (r.failure ("run agent: " ++ reason))))
  | .pumping, .yielded fresh fresh' fresh'' o =>
    if m.isDone then r.finish else ([], r.afterOutput m fresh fresh' fresh'' o)
  | .pumping, .ended => if m.isDone then r.finish else ([], r.goTo (lastly r.closing))
  | .pumping, .done => r.finish
  | .flushing, .answered _ => r.leave
  | _, _ => ([], r)

end Run

end AgentStream
