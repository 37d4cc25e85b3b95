/-
# Options of a run

What the engine is told about a run besides its message.

* `RunOption` : one option, as a resolver contributes it;
* `RunOptions` : the options resolved for one run;
* `RunOptions.overlay` : a state laid over the runtime state.
-/
import AgentStream.Json.Basic

namespace AgentStream

/-- One option of a run. -/
inductive RunOption
  /-- Correlates the run with its request. -/
  | requestId (id : String)
  /-- The initial runtime state. -/
  | runtimeState (state : Members)
  /-- An option that only the engine knows. -/
  | custom (key : String) (value : Json)
deriving DecidableEq

/-- The options resolved for one run; states and custom options are sorted by key. -/
structure RunOptions where
  requestId : Option String := none
  runtimeState : Members := []
  custom : Members := []
deriving DecidableEq

namespace RunOptions

/-- Apply one option; a later one replaces an earlier one of its kind or key. -/
def apply (o : RunOptions) : RunOption → RunOptions
  | .requestId id => { o with requestId := some id }
  | .runtimeState state => { o with runtimeState := Json.sortMembers state }
  | .custom key value => { o with custom := Json.insert key value o.custom }

/-- The options that a list amounts to. -/
def ofList (options : List RunOption) : RunOptions := options.foldl apply {}

/-- Lay a state over the runtime state; its keys win. -/
def overlay (o : RunOptions) (state : Members) : RunOptions :=
  { o with
    runtimeState := state.foldl (fun s (key, value) => Json.insert key value s) o.runtimeState }

end RunOptions

end AgentStream
