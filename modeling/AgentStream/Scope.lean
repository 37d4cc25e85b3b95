/-
# Scopes

A scope bounds a piece of work: it can be cancelled, may have a deadline and carries values.
Scopes form a tree; cancelling one cancels every scope below it, never one above it.  A
detached scope takes only values along.

* `Scopes` : all scopes so far, by number;
* `Scopes.child`, `detached`, `withDeadline` : deriving scopes;
* `Scopes.cancel`, `Scopes.expire` : the two ways a scope ends;
* `Scopes.reason?` : whether and why a scope is done.
-/
import AgentStream.Json.Basic

namespace AgentStream

/-- Why a scope is done. -/
inductive DoneReason
  | canceled
  | deadlineExceeded
deriving DecidableEq

/-- The text of a reason. -/
def DoneReason.message : DoneReason → String
  | canceled => "context canceled"
  | deadlineExceeded => "context deadline exceeded"

/-- What is known of one scope. -/
structure ScopeNode where
  /-- The scope it was derived from, unless it is detached; its number is smaller. -/
  parent : Option Nat
  deadline : Option Nat
  /-- Why it ended by itself. -/
  cause : Option DoneReason
  /-- It has been told to end, by itself or from above. -/
  fired : Bool
deriving DecidableEq, Inhabited

/-- A scope by its number, with the values it carries. -/
structure Scope where
  id : Nat
  values : Members := []
deriving DecidableEq, Inhabited

/-- The scope with a value under a name. -/
def Scope.withValue (s : Scope) (name : String) (value : Json) : Scope :=
  { s with values := Json.insert name value s.values }

/-- The value under a name. -/
def Scope.value? (s : Scope) (name : String) : Option Json := s.values.lookup name

/-- All scopes so far, by number. -/
structure Scopes where
  nodes : List ScopeNode := []
deriving DecidableEq

namespace Scopes

/-- What is known of a scope. -/
def node? (t : Scopes) (id : Nat) : Option ScopeNode := t.nodes[id]?

/-- The deadline of a scope. -/
def deadline? (t : Scopes) (id : Nat) : Option Nat := (t.node? id).bind (·.deadline)

/-- Whether a scope has been told to end. -/
def hasFired (t : Scopes) (id : Nat) : Bool := (t.node? id).any (·.fired)

/-! ## Deriving scopes -/

/-- Add a scope. -/
def add (t : Scopes) (n : ScopeNode) (values : Members) : Scope × Scopes :=
  (⟨t.nodes.length, values⟩, ⟨t.nodes ++ [n]⟩)

/-- A scope that never ends by itself. -/
def background (t : Scopes) : Scope × Scopes := t.add ⟨none, none, none, false⟩ []

/-- A scope below another one; it is done as soon as that one is. -/
def child (t : Scopes) (s : Scope) : Scope × Scopes :=
  t.add ⟨some s.id, t.deadline? s.id, none, t.hasFired s.id⟩ s.values

/-- A scope of its own with the values of another one. -/
def detached (t : Scopes) (s : Scope) : Scope × Scopes :=
  t.add ⟨none, none, none, false⟩ s.values

/-- A scope below another one with a deadline no later than its own.  Also whether the
deadline is new and has to be watched. -/
def withDeadline (t : Scopes) (s : Scope) (deadline : Nat) : Scope × Bool × Scopes :=
  let inherited := t.deadline? s.id
  let (c, t) := t.child s
  if inherited.any (· ≤ deadline) then (c, false, t)
  else
    (c, true, ⟨t.nodes.modify c.id fun n => { n with deadline := some deadline }⟩)

/-! ## Ending scopes -/

/-- Whether a scope is another one or below it; each step goes to a smaller number, so as many
steps as there are scopes are enough. -/
def isWithin (t : Scopes) (top : Nat) : Nat → Nat → Bool
  | 0, id => id == top
  | fuel + 1, id =>
    id == top ||
      match (t.node? id).bind (·.parent) with
      | some p => isWithin t top fuel p
      | none => false

/-- The scopes that are another one or below it and have not been told to end yet, the latest
first. -/
def live (t : Scopes) (top : Nat) : List Nat :=
  ((List.range t.nodes.length).filter fun id =>
    t.isWithin top t.nodes.length id && !t.hasFired id).reverse

/-- Give a scope a cause, unless it has one, and tell it and all below it to end. -/
def finish (t : Scopes) (id : Nat) (reason : DoneReason) : Scopes :=
  let ending := t.live id
  ⟨t.nodes.mapIdx fun i n =>
    { n with
      cause := if i = id then n.cause.or (some reason) else n.cause
      fired := n.fired || ending.contains i }⟩

/-- Cancel a scope. -/
def cancel (t : Scopes) (id : Nat) : Scopes := t.finish id .canceled

/-- End a scope whose deadline has come. -/
def expire (t : Scopes) (id : Nat) : Scopes := t.finish id .deadlineExceeded

/-! ## Being done -/

/-- Why a scope is done at a time: its own cause, or else that of the scope it was derived
from, or its deadline. -/
def reasonWithin (t : Scopes) (now : Nat) : Nat → Nat → Option DoneReason
  | 0, _ => none
  | fuel + 1, id =>
    match t.node? id with
    | none => none
    | some n =>
      if n.fired then
        match n.cause, n.parent.bind (reasonWithin t now fuel) with
        | some reason, _ => some reason
        | none, some reason => some reason
        | none, none => some .canceled
      else if n.deadline.any (· ≤ now) then some .deadlineExceeded
      else none

/-- Why a scope is done at a time. -/
def reason? (t : Scopes) (now : Nat) (id : Nat) : Option DoneReason :=
  t.reasonWithin now (t.nodes.length + 1) id

/-- Whether a scope is done at a time. -/
def isDone (t : Scopes) (now : Nat) (id : Nat) : Bool := (t.reason? now id).isSome

end Scopes

/-- What hooks and callbacks see of a scope. -/
structure ScopeView where
  values : Members := []
  deadline : Option Nat := none
  done : Option DoneReason := none
deriving DecidableEq

/-- The view of a scope at a time. -/
def Scopes.view (t : Scopes) (now : Nat) (s : Scope) : ScopeView :=
  ⟨s.values, t.deadline? s.id, t.reason? now s.id⟩

end AgentStream
