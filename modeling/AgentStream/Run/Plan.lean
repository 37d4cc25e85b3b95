/-
# Plans of runs

Before a run begins its request passes a number of stages, most of them hooks that the
application brings.  The first stage that fails decides the error, and no later one is asked.

* `Hooks`, `Runner` : what an application configures;
* `RunnerError` : why an operation of a runner is refused;
* `Runner.prepare` : the stages that all operations share;
* `Runner.plan` : all stages, with what the run needs to know.
-/
import AgentStream.Config
import AgentStream.Engine.Options
import AgentStream.Request
import AgentStream.Translation
import AgentStream.Turn

namespace AgentStream

/-! ## Hooks -/

/-- What an application may bring; each hook sees the caller's scope and the request. -/
structure Hooks (τ : Type) where
  /-- A chain; each may replace the request for the following ones. -/
  request : List (ScopeView → Request → Except String (Option Request)) := []
  /-- Who the session belongs to. -/
  userId : ScopeView → Request → Except String String := fun _ _ => .ok "user"
  /-- A state that is laid over the runtime state of the options. -/
  state : ScopeView → Request → Except String (Option Members) := fun _ _ => .ok none
  /-- What the engine is told beside the message. -/
  options : ScopeView → Request → Except String (List RunOption) := fun _ _ => .ok []
  /-- Announces a run of an app and a user. -/
  span : ScopeView → Request → String → String → Except String Unit := fun _ _ _ _ => .ok ()
  /-- The translator of the run. -/
  translator : ScopeView → Request → Activity.Switches → Except String τ

/-- The stages at which a hook may fail. -/
inductive HookStage
  | request
  | userId
  | state
  | options
  | span
  | translator
deriving DecidableEq

/-- What is done at a stage. -/
def HookStage.text : HookStage → String
  | request => "run input hook"
  | userId => "resolve user ID"
  | state => "resolve state"
  | options => "resolve run option"
  | span => "start span"
  | translator => "create translator"

/-- A configuration with hooks and callbacks. -/
structure Runner (τ : Type) where
  config : Config
  hooks : Hooks τ
  callbacks : Callbacks := {}

/-! ## Errors -/

/-- Why an operation of a runner is refused. -/
inductive RunnerError
  /-- The session has a run in flight. -/
  | alreadyExists
  /-- The session has no run in flight. -/
  | notFound
  | appNameEmpty
  | recorderMissing
  | threadIdEmpty
  | turn (error : TurnError)
  | hook (stage : HookStage) (reason : String)
deriving DecidableEq

/-- The text of a runner error. -/
def RunnerError.message : RunnerError → String
  | alreadyExists => "run already exists"
  | notFound => "run not found"
  | appNameEmpty => "app name is empty"
  | recorderMissing => "tracker is not configured"
  | threadIdEmpty => "invalid run input: thread id is empty"
  | turn error => "build input message: " ++ error.message
  | hook stage reason => stage.text ++ ": " ++ reason

/-! ## Stages -/

/-- The request that a chain of hooks makes of one. -/
def applyRequestHooks (hooks : List (ScopeView → Request → Except String (Option Request)))
    (view : ScopeView) (r : Request) : Except String Request :=
  match hooks with
  | [] => .ok r
  | hook :: rest =>
    match hook view r with
    | .error reason => .error reason
    | .ok next => applyRequestHooks rest view (next.getD r)

/-- The result of a hook, its failure told by the stage. -/
def atStage {α : Type} (stage : HookStage) (result : Except String α) : Except RunnerError α :=
  result.mapError (.hook stage)

/-- What a run needs to know of its request. -/
structure Plan (τ : Type) where
  request : Request
  userId : String
  turn : Turn
  options : RunOptions
  translator : τ

namespace Runner

variable {τ : Type}

/-- The stages that all operations share: the request hooks, then the user. -/
def prepare (r : Runner τ) (view : ScopeView) (request : Request) :
    Except RunnerError (Request × String) := do
  let request ← atStage .request (applyRequestHooks r.hooks.request view request)
  let userId ← atStage .userId (r.hooks.userId view request)
  pure (request, userId)

/-- The session of a request of a user. -/
def key (r : Runner τ) (request : Request) (userId : String) : SessionKey :=
  ⟨r.config.appName, userId, request.threadId⟩

/-- The options of a run: those of the hooks, with the state laid over them. -/
def runOptions (options : List RunOption) (state : Option Members) : RunOptions :=
  match state with
  | some state => (RunOptions.ofList options).overlay state
  | none => .ofList options

/-- All stages of a request; `fresh` names a message without an id. -/
def plan (r : Runner τ) (fresh : String) (view : ScopeView) (request : Request) :
    Except RunnerError (Plan τ) := do
  let (request, userId) ← r.prepare view request
  if request.threadId.isEmpty then throw .threadIdEmpty
  let turn ← (Turn.ofMessages fresh request.messages).mapError .turn
  let state ← atStage .state (r.hooks.state view request)
  let options ← atStage .options (r.hooks.options view request)
  atStage .span (r.hooks.span view request r.config.appName userId)
  let translator ← atStage .translator (r.hooks.translator view request r.config.switches)
  pure { request, userId, turn, options := runOptions options state, translator }

end Runner

namespace Plan

variable {τ : Type}

/-- The session of a planned run. -/
def key (p : Plan τ) (app : String) : SessionKey := ⟨app, p.userId, p.request.threadId⟩

end Plan

end AgentStream
