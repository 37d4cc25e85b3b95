/-
# Operations of a host

* `Host.run` : start a run and give its stream;
* `Host.snapshot` : start a snapshot and give its stream;
* `Host.cancelRun` : cancel the run in flight of a session.
-/
import AgentStream.Host.Basic

namespace AgentStream

namespace Host

variable {τ σ : Type}

/-- The scope of a run: below the caller's, or one of its own that keeps the caller's deadline.
The configured duration may bring a nearer deadline. -/
def runScope (h : Host τ σ) (caller : Scope) : Scope × Host τ σ :=
  let config := h.runner.config
  let (s, h) :=
    if config.cancelOnContextDone then h.child caller
    else
      let (s, h) := h.detached caller
      match h.scopes.deadline? caller.id with
      | some deadline => h.withDeadline s deadline
      | none => (s, h)
  match config.timeout with
  | some ms => h.withDeadline s (h.now + ms)
  | none => (s, h)

/-- Start a run; its stream, or why it is refused.  A refused request changes nothing. -/
def run (h : Host τ σ) (caller : Scope) (request : Request) :
    Except RunnerError (Nat × Host τ σ) := do
  let (fresh, admitted) := h.freshId
  let plan ← h.runner.plan fresh (h.view caller) request
  let key := plan.key h.runner.config.appName
  let (scope, admitted) := admitted.runScope caller
  match h.inFlight.admit? key scope.id with
  | none => throw .alreadyExists
  | some inFlight =>
    let (stream, admitted) := openStream { admitted with inFlight }
    let r := Run.ofPlan plan h.runner.config h.recorder.isSome
    pure (stream, admitted.launch (.run r key scope stream .uncalled))

/-- Start a snapshot; its stream, or why it is refused. -/
def snapshot (h : Host τ σ) (caller : Scope) (request : Request) :
    Except RunnerError (Nat × Host τ σ) := do
  let s ← h.runner.snapshot h.recorder.isSome (h.view caller) request
  let (scope, h) := h.child caller
  let (stream, h) := h.openStream
  pure (stream, h.launch (.snapshot s scope stream))

/-- Cancel the run in flight of a request's session.  It keeps its place until it has wound
down. -/
def cancelRun (h : Host τ σ) (caller : Scope) (request : Request) :
    Except RunnerError (Host τ σ) := do
  let (request, userId) ← h.runner.prepare (h.view caller) request
  match h.inFlight.scope? (h.runner.key request userId) with
  | none => throw .notFound
  | some scope => pure (h.cancel scope)

end Host

end AgentStream
