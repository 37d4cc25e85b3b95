/-
# Hooks of rehearsals

What the hooks, the callbacks and the translator of a rehearsal do is written down in rules.

* `Rehearsal.Rules` : a rule for every hook;
* `Rehearsal.Rules.hooks`, `Rehearsal.Rules.callbacks` : what they amount to;
* `Rehearsal.Interpreter` : the usual translator, failing on the outputs of one id.
-/
import AgentStream.Framing
import AgentStream.Run.Plan

namespace AgentStream.Rehearsal

/-! ## Translators -/

/-- The usual translator, failing on the outputs of one id for a reason. -/
structure Interpreter where
  framer : Framer
  failure : Option (String × String) := none
deriving DecidableEq

instance : Translator Interpreter where
  translate t fresh o :=
    match t.failure.filter fun (id, _) => id == o.id with
    | some (_, reason) => (.error reason, t)
    | none =>
      let (events, framer) := t.framer.translate fresh o
      (.ok events, { t with framer })

/-! ## Rules -/

/-- Who a session belongs to. -/
inductive UserRule
  | refuse (reason : String)
  /-- The text that the scope carries under a name. -/
  | carried (name : String)
  | fixed (user : String)

/-- What becomes of a request. -/
inductive RequestRule
  | refuse (reason : String)
  /-- The thread's name gets a suffix. -/
  | extend (suffix : String)
  | replace (request : Request)
  | keep

/-- What state is laid over the runtime state. -/
inductive StateRule
  | refuse (reason : String)
  /-- The request's, if it is an object. -/
  | requested
  | fixed (state : Option Members)

/-- What the engine is told. -/
inductive OptionsRule
  | refuse (reason : String)
  | fixed (options : List RunOption)

/-- Which translator a run gets. -/
inductive TranslatorRule
  | refuse (reason : String)
  /-- The usual one, failing on the outputs of one id for a reason. -/
  | failing (failure : Option (String × String))

/-- What a callback does with values of a name, or with all. -/
structure CallbackRule (α : Type) where
  name : Option String
  outcome : Except String (Option α)

/-- A rule for every hook. -/
structure Rules where
  request : List RequestRule := []
  userId : UserRule := .fixed "user"
  state : StateRule := .fixed none
  options : OptionsRule := .fixed []
  /-- Why no run may start. -/
  span : Option String := none
  translator : TranslatorRule := .failing none
  before : List (CallbackRule Engine.Output) := []
  after : List (CallbackRule Event) := []

/-! ## Hooks -/

namespace Rules

/-- The user that a rule gives. -/
def resolveUser (rule : UserRule) (view : ScopeView) : Except String String :=
  match rule with
  | .refuse reason => .error reason
  | .fixed user => .ok user
  | .carried name =>
    match view.values.lookup name with
    | some (.str user) => .ok user
    | _ => .error "no user"

/-- The request that a rule makes. -/
def resolveRequest (rule : RequestRule) (r : Request) : Except String (Option Request) :=
  match rule with
  | .refuse reason => .error reason
  | .extend suffix => .ok (some { r with threadId := r.threadId ++ suffix })
  | .replace request => .ok (some request)
  | .keep => .ok none

/-- The state that a rule gives. -/
def resolveState (rule : StateRule) (r : Request) : Except String (Option Members) :=
  match rule with
  | .refuse reason => .error reason
  | .requested => .ok (r.state.bind Json.asMembers?)
  | .fixed state => .ok state

/-- The options that a rule gives. -/
def resolveOptions : OptionsRule → Except String (List RunOption)
  | .refuse reason => .error reason
  | .fixed options => .ok options

/-- The translator that a rule gives. -/
def makeTranslator (rule : TranslatorRule) (r : Request) : Except String Interpreter :=
  match rule with
  | .refuse reason => .error reason
  | .failing failure => .ok ⟨{ threadId := r.threadId, runId := r.runId }, failure⟩

/-- The hooks of rules. -/
def hooks (rules : Rules) : Hooks Interpreter where
  request := rules.request.map fun rule _ r => resolveRequest rule r
  userId view _ := resolveUser rules.userId view
  state _ r := resolveState rules.state r
  options _ _ := resolveOptions rules.options
  span _ _ app user :=
    match rules.span with
    | some reason => .error (reason ++ " " ++ app ++ "/" ++ user)
    | none => .ok ()
  translator _ r _ := makeTranslator rules.translator r

/-- The callback of a rule. -/
def callback {α : Type} (nameOf : α → String) (rule : CallbackRule α) (_ : ScopeView) (a : α) :
    Except String (Option α) :=
  if rule.name.all (· == nameOf a) then rule.outcome else .ok none

/-- The callbacks of rules. -/
def callbacks (rules : Rules) : Callbacks where
  before := rules.before.map (callback Engine.Output.id)
  after := rules.after.map (callback Event.kind)

end Rules

end AgentStream.Rehearsal
