/-
# Merging of text pieces

Pieces of one message that follow each other are kept as a single piece until another event
comes or the piece is asked for.

* `Merger` : what is held back;
* `Merger.push`, `Merger.flush` : the events that are let go.
-/
import AgentStream.Event.Basic

namespace AgentStream

/-- Whether pieces are merged, and the piece that is held back. -/
structure Merger where
  enabled : Bool
  pending : Option Event := none
deriving DecidableEq

namespace Merger

/-- A piece with the text of a second one of its message appended, if it is one. -/
def merge? (first second : Event) : Option Event :=
  match first.body, second.body with
  | .textContent m d, .textContent m' d' =>
    if m = m' then some { first with body := .textContent m (d ++ d') } else none
  | _, _ => none

/-- Whether an event is a piece of text. -/
def isPiece (e : Event) : Bool :=
  match e.body with
  | .textContent .. => true
  | _ => false

/-- Let go of what is held back. -/
def flush (m : Merger) : List Event × Merger := (m.pending.toList, { m with pending := none })

/-- Take one more event: what is let go, in order. -/
def push (m : Merger) (e : Event) : List Event × Merger :=
  if !m.enabled then ([e], m)
  else
    match m.pending.bind (merge? · e) with
    | some merged => ([], { m with pending := some merged })
    | none =>
      if isPiece e then (m.pending.toList, { m with pending := some e })
      else (m.pending.toList ++ [e], { m with pending := none })

end Merger

end AgentStream
