/-
# Time of a host

When every job waits, time moves on to the first one that a job waits for.

* `Host.elapse` : time comes to a moment;
* `Host.advance` : the host goes on until a condition holds or a moment comes;
* `Host.sleep`, `Host.read`, `Host.waitForEnd` : what a client may wait for.
-/
import AgentStream.Host.Queue

namespace AgentStream

namespace Host

variable {τ σ : Type}

/-- The first time that a job waits for. -/
def nextTime? (h : Host τ σ) : Option Nat :=
  h.waits.foldl (fun t w => earlier t w.time) none

/-- Time comes to a moment; the jobs that waited for it go on, in the order in which they began
to wait. -/
def elapse (h : Host τ σ) (moment : Nat) : Host τ σ :=
  wake { h with now := moment } fun w => w.time.any (· ≤ moment)

/-- Go on until a condition holds or a moment comes, in at most so many rounds. -/
def advance [Translator τ] [LogStore σ] (holds : Host τ σ → Bool) (moment : Nat) :
    Nat → Host τ σ → Host τ σ
  | 0, h => h
  | fuel + 1, h =>
    if holds h then h
    else if h.ready.isEmpty then
      match h.nextTime? with
      | some t => if t < moment then advance holds moment fuel (h.elapse t) else h.elapse moment
      | none => h.elapse moment
    else advance holds moment fuel h.settle

/-- Let a moment come. -/
def sleep [Translator τ] [LogStore σ] (h : Host τ σ) (moment : Nat) : Host τ σ :=
  h.advance (fun _ => false) moment patience

/-- What a client finds when it reads a stream. -/
inductive Reading
  | event (e : Event)
  | closed
  /-- The moment came first. -/
  | late
deriving DecidableEq

/-- Read one event of a stream, or give up at a moment. -/
def read [Translator τ] [LogStore σ] (h : Host τ σ) (stream moment : Nat) :
    Reading × Host τ σ :=
  let h := h.advance
    (fun h => (h.stream stream).buffer.isSome || !(h.stream stream).writing) moment patience
  match h.take? stream with
  | some (e, h) => (.event e, h)
  | none => (if (h.stream stream).writing then .late else .closed, h)

/-- Wait for the end of a scope, or give up at a moment.  Also whether it has ended. -/
def waitForEnd [Translator τ] [LogStore σ] (h : Host τ σ) (scope : Scope) (moment : Nat) :
    Bool × Host τ σ :=
  let h := h.advance (·.isDone scope) moment patience
  (h.isDone scope, h)

end Host

end AgentStream
