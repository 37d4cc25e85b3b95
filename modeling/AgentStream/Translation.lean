/-
# Translation of engine outputs

What a translator is, and the callbacks around it.

* `Translator` : turns one output after the other into events;
* `Callbacks` : chains that may replace an output before translation or an event after it.
-/
import AgentStream.Engine.Output
import AgentStream.Event.Basic
import AgentStream.Scope

namespace AgentStream

/-- A translator with states of a type: an output makes events or a failure, and a new state.
The given text is an id that nothing else has. -/
class Translator (τ : Type) where
  translate : τ → String → Engine.Output → Except String (List Event) × τ

/-- Chains of callbacks.  The first callback that gives a replacement ends its chain. -/
structure Callbacks where
  before : List (ScopeView → Engine.Output → Except String (Option Engine.Output)) := []
  after : List (ScopeView → Event → Except String (Option Event)) := []

namespace Callbacks

/-- Run a chain: the first replacement or failure, or else what there was. -/
def run {α : Type} (chain : List (ScopeView → α → Except String (Option α))) (view : ScopeView)
    (a : α) : Except String α :=
  match chain with
  | [] => .ok a
  | callback :: rest =>
    match callback view a with
    | .error e => .error e
    | .ok (some replacement) => .ok replacement
    | .ok none => run rest view a

/-- The output that is translated. -/
def beforeTranslation (c : Callbacks) (view : ScopeView) (o : Engine.Output) :
    Except String Engine.Output :=
  run c.before view o

/-- The event that is delivered. -/
def afterTranslation (c : Callbacks) (view : ScopeView) (e : Event) : Except String Event :=
  run c.after view e

end Callbacks

end AgentStream
