/-
# Requests that are refused

A run may also be started in place: each hook is asked in its turn, and what it was asked is noted;
identifiers are drawn, scopes are made and jobs are launched on the host as it stands, and a failure
leaves the host as it is at that moment.  The place of the session is the last thing that a request
can fail to get and the first that it takes, so one that is refused leaves nothing behind but a
scope that nobody uses and its watchdog.

* `Admission.Asked`, `Admission.Stage` : what hooks are asked, and the stages of a request in order;
* `Admission.run` : a run that is started in place;
* `Admission.Goes` : what goes through stages in place, up to the first one that fails;
* `Host.Untouched` : what a refused request leaves as it was;
* `Admission.run_outcome` : a run in place is started or refused as a run is;
* `Admission.run_refused` : what is refused, and why.
-/
import AgentStream.Proofs.Host.SingleFlight
import AgentStream.Proofs.Scope.Bounds

namespace AgentStream

variable {τ σ α β : Type}

namespace Admission

/-! ## Stages -/

/-- What a hook is asked when a run is to be started, with the request that it sees. -/
inductive Asked
  /-- A hook of the chain, by its place there. -/
  | request (place : Nat) (seen : Request)
  | userId (seen : Request)
  | state (seen : Request)
  | options (seen : Request)
  | span (seen : Request) (app user : String)
  | translator (seen : Request) (switches : Activity.Switches)

/-- A stage of a request: what its hook is asked, if it has one, and how it fails, if it does. -/
structure Stage where
  asks : Option Asked
  failure : Option RunnerError

/-- Why something fails, if it does. -/
def failureOf : Except RunnerError α → Option RunnerError
  | .ok _ => none
  | .error e => some e

namespace Stage

/-- The stage of a hook. -/
def hook (asked : Asked) (stage : HookStage) (result : Except String α) : Stage :=
  ⟨some asked, failureOf (atStage stage result)⟩

/-- A stage without a hook. -/
def check (result : Except RunnerError α) : Stage := ⟨none, failureOf result⟩

end Stage

/-- The hooks that may replace a request. -/
abbrev Chain := List (ScopeView → Request → Except String (Option Request))

/-- The request that the hooks behind one see. -/
def replaced (view : ScopeView) (request : Request)
    (hook : ScopeView → Request → Except String (Option Request)) : Request :=
  match hook view request with
  | .ok (some next) => next
  | _ => request

/-- The stages of a chain of hooks, each of which sees what the ones before it have made of the
request. -/
def chainStages (view : ScopeView) : Nat → Chain → Request → List Stage
  | _, [], _ => []
  | place, hook :: rest, request =>
    .hook (.request place request) .request (hook view request)
      :: chainStages view (place + 1) rest (replaced view request hook)

/-- The stages of a request of a user that was prepared. -/
def laterStages (runner : Runner τ) (fresh : String) (view : ScopeView) (request : Request)
    (userId : String) : List Stage :=
  let app := runner.config.appName
  let switches := runner.config.switches
  [ .check (if request.threadId.isEmpty then .error .threadIdEmpty else .ok ()),
    .check ((Turn.ofMessages fresh request.messages).mapError .turn),
    .hook (.state request) .state (runner.hooks.state view request),
    .hook (.options request) .options (runner.hooks.options view request),
    .hook (.span request app userId) .span (runner.hooks.span view request app userId),
    .hook (.translator request switches) .translator
      (runner.hooks.translator view request switches) ]

/-- The request that all hooks behind the chain see, and its user. -/
def prepared (runner : Runner τ) (view : ScopeView) (request : Request) : Request × String :=
  let seen := runner.hooks.request.foldl (replaced view) request
  (seen, ((runner.hooks.userId view seen).toOption).getD "")

/-- The stages of a request up to its plan. -/
def planStages (runner : Runner τ) (fresh : String) (view : ScopeView) (request : Request) :
    List Stage :=
  let x := prepared runner view request
  chainStages view 0 runner.hooks.request request
    ++ [.hook (.userId x.1) .userId (runner.hooks.userId view x.1)]
    ++ laterStages runner fresh view x.1 x.2

/-- The last stage: the session has no run in flight. -/
def admission (h : Host τ σ) (key : SessionKey) : Stage :=
  .check (if h.inFlight.holds key then .error .alreadyExists else .ok ())

/-- All stages of a request on a host, in their order. -/
def stages (h : Host τ σ) (caller : Scope) (request : Request) : List Stage :=
  let x := prepared h.runner (h.view caller) request
  planStages h.runner h.freshId.1 (h.view caller) request ++ [admission h (h.runner.key x.1 x.2)]

/-! ## Starting a run in place -/

/-- A host on which a run is to be started, and what hooks have been asked so far. -/
structure Attempt (τ σ : Type) where
  host : Host τ σ
  asked : List Asked := []

/-- A part of the start of a run, which may fail at any moment. -/
abbrev Starting (τ σ : Type) := EStateM RunnerError (Attempt τ σ)

/-- Ask a hook, which sees the caller's scope. -/
def ask (caller : Scope) (asked : Asked) (stage : HookStage)
    (hook : Runner τ → ScopeView → Except String α) : Starting τ σ α := do
  modify fun s => { s with asked := s.asked ++ [asked] }
  let s ← get
  match hook s.host.runner (s.host.view caller) with
  | .ok a => pure a
  | .error reason => throw (.hook stage reason)

/-- Go on with a result, unless it is a failure. -/
def need (result : Except RunnerError α) : Starting τ σ α :=
  match result with
  | .ok a => pure a
  | .error e => throw e

/-- Change the host. -/
def change (f : Host τ σ → α × Host τ σ) : Starting τ σ α :=
  modifyGet fun s => ((f s.host).1, { s with host := (f s.host).2 })

/-- Ask a chain of hooks from a place on, each for the request that the one before it gives. -/
def askChain (caller : Scope) : Nat → Chain → Request → Starting τ σ Request
  | _, [], request => pure request
  | place, hook :: rest, request => do
    let next ← ask caller (.request place request) .request fun _ view => hook view request
    askChain caller (place + 1) rest (next.getD request)

/-- What all operations begin with: the chain of hooks, then the user. -/
def prepare (caller : Scope) (request : Request) : Starting τ σ (Request × String) := do
  let runner := (← get).host.runner
  let request ← askChain caller 0 runner.hooks.request request
  let userId ← ask caller (.userId request) .userId fun r view => r.hooks.userId view request
  pure (request, userId)

/-- All that a run needs to know of its request. -/
def plan (fresh : String) (caller : Scope) (request : Request) : Starting τ σ (Plan τ) := do
  let config := (← get).host.runner.config
  let (request, userId) ← prepare caller request
  if request.threadId.isEmpty then throw .threadIdEmpty
  let turn ← need ((Turn.ofMessages fresh request.messages).mapError .turn)
  let state ← ask caller (.state request) .state fun r view => r.hooks.state view request
  let options ← ask caller (.options request) .options fun r view => r.hooks.options view request
  ask caller (.span request config.appName userId) .span fun r view =>
    r.hooks.span view request config.appName userId
  let translator ← ask caller (.translator request config.switches) .translator fun r view =>
    r.hooks.translator view request config.switches
  pure { request, userId, turn, options := Runner.runOptions options state, translator }

/-- Take the place of a session, unless it is taken. -/
def takePlace (key : SessionKey) (scope : Scope) : Starting τ σ Unit := do
  let s ← get
  match s.host.inFlight.admit? key scope.id with
  | none => throw .alreadyExists
  | some inFlight => set { s with host := { s.host with inFlight } }

/-- Make the scope of a planned run, take the place of its session, and launch it. -/
def enter (caller : Scope) (p : Plan τ) : Starting τ σ Nat := do
  let config := (← get).host.runner.config
  let key := p.key config.appName
  let scope ← change fun h => h.runScope caller
  takePlace key scope
  let stream ← change Host.openStream
  change fun h =>
    ((), h.launch (.run (.ofPlan p config h.recorder.isSome) key scope stream .uncalled))
  pure stream

/-- Start a run in place and give its stream. -/
def run (caller : Scope) (request : Request) : Starting τ σ Nat := do
  let fresh ← change Host.freshId
  let p ← plan fresh caller request
  enter caller p

/-! ## Stages that are gone through -/

/-- What goes through stages in place comes to the same as without a host, and leaves the host as it
is.  It has asked what the stages ask up to the first one that fails. -/
inductive Goes (s : Attempt τ σ) (ss : List Stage) :
    Except RunnerError α → EStateM.Result RunnerError (Attempt τ σ) α → Prop
  | through (a : α) (passed : ∀ x ∈ ss, x.failure = none) :
      Goes s ss (.ok a) (.ok a { s with asked := s.asked ++ ss.filterMap Stage.asks })
  | stopped (front : List Stage) (stage : Stage) (rest : List Stage) {e : RunnerError}
      (split : ss = front ++ stage :: rest) (passed : ∀ x ∈ front, x.failure = none)
      (failed : stage.failure = some e) :
      Goes s ss (.error e)
        (.error e { s with asked := s.asked ++ (front ++ [stage]).filterMap Stage.asks })

variable {s : Attempt τ σ} {ss ss' : List Stage} {caller : Scope}

theorem goes_pure (a : α) : Goes s [] (.ok a) ((pure a : Starting τ σ α).run s) := by
  have h : Goes s [] (.ok a) (.ok a { s with asked := s.asked ++ [] }) :=
    .through a (List.forall_mem_nil _)
  rwa [List.append_nil] at h

/-- A stage without a hook that fails. -/
theorem goes_refused {stage : Stage} {e : RunnerError} (hasks : stage.asks = none)
    (hfailed : stage.failure = some e) (rest : List Stage) :
    Goes s (stage :: rest) (.error e : Except RunnerError α) (.error e s) := by
  have h : Goes s (stage :: rest) (.error e : Except RunnerError α)
      (.error e { s with asked := s.asked ++ ([] ++ [stage]).filterMap Stage.asks }) :=
    .stopped [] stage rest rfl (List.forall_mem_nil _) hfailed
  rwa [List.nil_append, List.filterMap_cons_none hasks, List.filterMap_nil, List.append_nil] at h

/-- A stage without a hook that passes. -/
theorem Goes.check {x : Except RunnerError α} {r : EStateM.Result RunnerError (Attempt τ σ) α}
    {stage : Stage} (hasks : stage.asks = none) (hpassed : stage.failure = none)
    (h : Goes s ss x r) : Goes s (stage :: ss) x r := by
  cases h with
  | through a passed =>
    rw [← List.filterMap_cons_none hasks]
    exact .through a (List.forall_mem_cons.2 ⟨hpassed, passed⟩)
  | stopped front stage' rest split passed failed =>
    rw [← List.filterMap_cons_none hasks, ← List.cons_append]
    exact .stopped (stage :: front) stage' rest (congrArg (stage :: ·) split)
      (List.forall_mem_cons.2 ⟨hpassed, passed⟩) failed

/-- A result that is needed. -/
theorem goes_need (x : Except RunnerError α) :
    Goes s [.check x] x ((need x : Starting τ σ α).run s) := by
  cases x with
  | ok a => exact (goes_pure a).check rfl rfl
  | error e => exact goes_refused rfl rfl []

/-- The stage of a hook. -/
theorem goes_ask (asked : Asked) (stage : HookStage)
    (hook : Runner τ → ScopeView → Except String α) :
    let result := hook s.host.runner (s.host.view caller)
    Goes s [.hook asked stage result] (atStage stage result)
      ((ask caller asked stage hook).run s) := by
  intro result
  have hrun : (ask caller asked stage hook).run s
      = match result with
        | .ok a => .ok a { s with asked := s.asked ++ [asked] }
        | .error reason => .error (.hook stage reason) { s with asked := s.asked ++ [asked] } := by
    rw [ask, EStateM.run_bind, EStateM.run_modify]
    simp only [EStateM.run_bind, EStateM.run_get]
    show (match result with | .ok a => pure a | .error reason => throw (.hook stage reason) :
      Starting τ σ α).run _ = _
    cases result <;> rfl
  rw [hrun]
  cases result with
  | ok a => exact .through a (List.forall_mem_singleton.2 rfl)
  | error reason => exact .stopped [] _ [] rfl (List.forall_mem_nil _) rfl

/-- Stages that follow each other. -/
theorem Goes.bind {x : Except RunnerError α} {m : Starting τ σ α} (h : Goes s ss x (m.run s))
    {f : α → Except RunnerError β} {next : α → Starting τ σ β}
    (hnext : ∀ a, x = .ok a → ∀ asked,
      Goes { s with asked } ss' (f a) ((next a).run { s with asked })) :
    Goes s (ss ++ ss') (x >>= f) ((m >>= next).run s) := by
  rw [EStateM.run_bind]
  generalize m.run s = r at h
  cases h with
  | through a passed =>
    have hgoes := hnext a rfl (s.asked ++ ss.filterMap Stage.asks)
    show Goes s (ss ++ ss') (f a)
      ((next a).run { s with asked := s.asked ++ ss.filterMap Stage.asks })
    generalize f a = x at hgoes
    generalize (next a).run { s with asked := s.asked ++ ss.filterMap Stage.asks } = r at hgoes
    cases hgoes with
    | through b passed' =>
      rw [List.append_assoc, ← List.filterMap_append]
      exact .through b (List.forall_mem_append.2 ⟨passed, passed'⟩)
    | stopped front stage rest split passed' failed =>
      rw [List.append_assoc, ← List.filterMap_append, ← List.append_assoc]
      refine .stopped (ss ++ front) stage rest ?_ (List.forall_mem_append.2 ⟨passed, passed'⟩)
        failed
      rw [split, List.append_assoc]
  | stopped front stage rest split passed failed =>
    refine .stopped front stage (rest ++ ss') ?_ passed failed
    rw [split, List.append_assoc, List.cons_append]

/-- What a hook that does not fail makes of a request. -/
theorem replaced_of_ok {view : ScopeView} {request : Request} {next : Option Request}
    {hook : ScopeView → Request → Except String (Option Request)}
    (h : hook view request = .ok next) : replaced view request hook = next.getD request := by
  rw [replaced, h]
  cases next <;> rfl

/-- What the hooks of a chain make of a request. -/
theorem applyRequestHooks_eq_ok {hooks : Chain} {view : ScopeView} {request seen : Request}
    (h : applyRequestHooks hooks view request = .ok seen) :
    seen = hooks.foldl (replaced view) request := by
  induction hooks generalizing request with
  | nil => exact (Except.ok.inj h).symm
  | cons hook rest ih =>
    rw [applyRequestHooks] at h
    cases hhook : hook view request with
    | error reason =>
      rw [hhook] at h
      cases h
    | ok next =>
      rw [hhook] at h
      rw [List.foldl_cons, replaced_of_ok hhook]
      exact ih h

/-- What a stage gives is what its hook gives. -/
theorem atStage_eq_ok {stage : HookStage} {result : Except String α} {a : α}
    (h : atStage stage result = .ok a) : result = .ok a := by
  cases result with
  | ok b =>
    cases h
    rfl
  | error reason => cases h

/-- **The hooks of a chain** are asked one after the other, up to the first one that fails. -/
theorem goes_askChain (place : Nat) (hooks : Chain) (request : Request) :
    Goes s (chainStages (s.host.view caller) place hooks request)
      (atStage .request (applyRequestHooks hooks (s.host.view caller) request))
      ((askChain caller place hooks request).run s) := by
  induction hooks generalizing s place request with
  | nil => exact goes_pure request
  | cons hook rest ih =>
    have hpure : atStage .request (applyRequestHooks (hook :: rest) (s.host.view caller) request)
        = atStage .request (hook (s.host.view caller) request) >>= fun next =>
          atStage .request (applyRequestHooks rest (s.host.view caller) (next.getD request)) := by
      rw [applyRequestHooks]
      cases hook (s.host.view caller) request <;> rfl
    have hask : Goes s [.hook (.request place request) .request (hook (s.host.view caller) request)]
        (atStage .request (hook (s.host.view caller) request))
        ((ask caller (.request place request) .request fun _ view => hook view request).run s) :=
      goes_ask _ _ fun _ view => hook view request
    rw [hpure, chainStages, askChain]
    refine hask.bind fun next hnext asked => ?_
    rw [replaced_of_ok (atStage_eq_ok hnext)]
    exact ih (place + 1) (next.getD request)

/-- The chain of hooks and the user. -/
theorem goes_prepare (request : Request) :
    let view := s.host.view caller
    let hooks := s.host.runner.hooks
    let seen := (prepared s.host.runner view request).1
    Goes s (chainStages view 0 hooks.request request
        ++ [.hook (.userId seen) .userId (hooks.userId view seen)])
      (s.host.runner.prepare view request) ((prepare caller request).run s) := by
  intro view hooks seen
  refine (goes_askChain 0 hooks.request request).bind fun seen' hseen asked => ?_
  obtain rfl : seen' = seen := applyRequestHooks_eq_ok (atStage_eq_ok hseen)
  have hask : Goes { s with asked } [.hook (.userId seen) .userId (hooks.userId view seen)]
      (atStage .userId (hooks.userId view seen))
      ((ask caller (.userId seen) .userId fun r view => r.hooks.userId view seen).run
        { s with asked }) := goes_ask _ _ fun r view => r.hooks.userId view seen
  exact hask.bind fun userId _ asked' => goes_pure (seen, userId)

/-- What is prepared is the request that the chain gives, with its user. -/
theorem prepare_eq_ok {runner : Runner τ} {view : ScopeView} {request : Request}
    {x : Request × String} (h : runner.prepare view request = .ok x) :
    x = prepared runner view request := by
  obtain ⟨seen, hseen, h⟩ := of_bind_eq_ok h
  obtain ⟨userId, huserId, h⟩ := of_bind_eq_ok h
  cases h
  simp only [prepared, ← applyRequestHooks_eq_ok (atStage_eq_ok hseen), atStage_eq_ok huserId]
  rfl

/-- **The stages of a plan** are gone through in their order. -/
theorem goes_plan (fresh : String) (request : Request) :
    Goes s (planStages s.host.runner fresh (s.host.view caller) request)
      (s.host.runner.plan fresh (s.host.view caller) request)
      ((plan fresh caller request).run s) := by
  refine (goes_prepare request).bind fun x hx asked => ?_
  rw [← prepare_eq_ok hx]
  obtain ⟨seen, userId⟩ := x
  simp only
  by_cases hthread : seen.threadId.isEmpty
  · have hfailed : failureOf (if seen.threadId.isEmpty then .error .threadIdEmpty else .ok ())
        = some .threadIdEmpty := by
      rw [if_pos hthread]
      rfl
    rw [if_pos hthread, if_pos hthread]
    exact goes_refused rfl hfailed _
  · have hpassed : failureOf (if seen.threadId.isEmpty then .error .threadIdEmpty else .ok ())
        = none := by
      rw [if_neg hthread]
      rfl
    rw [if_neg hthread, if_neg hthread]
    refine .check rfl hpassed ?_
    refine (goes_need _).bind fun turn _ asked => ?_
    refine (goes_ask (.state seen) _ fun r view => r.hooks.state view seen).bind
      fun state _ asked => ?_
    refine (goes_ask (.options seen) _ fun r view => r.hooks.options view seen).bind
      fun options _ asked => ?_
    refine (goes_ask (.span seen s.host.runner.config.appName userId) _ fun r view =>
      r.hooks.span view seen s.host.runner.config.appName userId).bind fun _ _ asked => ?_
    refine (goes_ask (.translator seen s.host.runner.config.switches) _ fun r view =>
      r.hooks.translator view seen s.host.runner.config.switches).bind fun translator _ asked => ?_
    exact goes_pure _

/-- The session of a plan is that of the prepared request. -/
theorem key_of_plan {runner : Runner τ} {fresh : String} {view : ScopeView} {request : Request}
    {p : Plan τ} (h : runner.plan fresh view request = .ok p) :
    p.key runner.config.appName
      = runner.key (prepared runner view request).1 (prepared runner view request).2 := by
  obtain ⟨x, hx, h⟩ := of_bind_eq_ok h
  obtain rfl := prepare_eq_ok hx
  simp only at h
  split at h
  · cases h
  · obtain ⟨turn, -, h⟩ := of_bind_eq_ok h
    obtain ⟨state, -, h⟩ := of_bind_eq_ok h
    obtain ⟨options, -, h⟩ := of_bind_eq_ok h
    obtain ⟨-, -, h⟩ := of_bind_eq_ok h
    obtain ⟨translator, -, h⟩ := of_bind_eq_ok h
    cases h
    rfl

end Admission

/-! ## What a refused request leaves behind -/

namespace Host

/-- A host with no more than a few new scopes and their watchdogs: the runs in flight, the record,
the engine's calls, the streams, the jobs and every scope are what they were. -/
structure Untouched (h left : Host τ σ) : Prop where
  runner : left.runner = h.runner
  inFlight : left.inFlight = h.inFlight
  recorder : left.recorder = h.recorder
  engine : left.engine = h.engine
  calls : left.calls = h.calls
  streams : left.streams = h.streams
  now : left.now = h.now
  waits : left.waits = h.waits
  known : h.scopes.nodes.length ≤ left.scopes.nodes.length
  scopes : ∀ id < h.scopes.nodes.length, left.scopes.node? id = h.scopes.node? id
  nextJob : h.nextJob ≤ left.nextJob
  jobs : ∃ watchdogs : List (Nat × Job τ), left.jobs = h.jobs ++ watchdogs ∧
    left.ready = h.ready ++ watchdogs.map Prod.fst ∧
    ∀ x ∈ watchdogs, h.nextJob ≤ x.1 ∧
      ∃ scope deadline, x.2 = .watchdog scope deadline ∧ h.scopes.nodes.length ≤ scope

namespace Untouched

variable {h h' h'' left : Host τ σ}

theorem refl (h : Host τ σ) : h.Untouched h where
  runner := rfl
  inFlight := rfl
  recorder := rfl
  engine := rfl
  calls := rfl
  streams := rfl
  now := rfl
  waits := rfl
  known := Nat.le_refl _
  scopes _ _ := rfl
  nextJob := Nat.le_refl _
  jobs := ⟨[], (List.append_nil _).symm, (List.append_nil _).symm, List.forall_mem_nil _⟩

theorem trans (u : h.Untouched h') (u' : h'.Untouched h'') : h.Untouched h'' where
  runner := u'.runner.trans u.runner
  inFlight := u'.inFlight.trans u.inFlight
  recorder := u'.recorder.trans u.recorder
  engine := u'.engine.trans u.engine
  calls := u'.calls.trans u.calls
  streams := u'.streams.trans u.streams
  now := u'.now.trans u.now
  waits := u'.waits.trans u.waits
  known := Nat.le_trans u.known u'.known
  scopes id hid := (u'.scopes id (Nat.lt_of_lt_of_le hid u.known)).trans (u.scopes id hid)
  nextJob := Nat.le_trans u.nextJob u'.nextJob
  jobs := by
    obtain ⟨xs, hjobs, hready, hxs⟩ := u.jobs
    obtain ⟨ys, hjobs', hready', hys⟩ := u'.jobs
    refine ⟨xs ++ ys, ?_, ?_, List.forall_mem_append.2 ⟨hxs, fun x hx => ?_⟩⟩
    · rw [hjobs', hjobs, List.append_assoc]
    · rw [hready', hready, List.append_assoc, List.map_append]
    · obtain ⟨hnext, scope, deadline, hjob, hscope⟩ := hys x hx
      exact ⟨Nat.le_trans u.nextJob hnext, scope, deadline, hjob, Nat.le_trans u.known hscope⟩

/-- A scope is done just if it was. -/
theorem isDone (u : h.Untouched left) {s : Scope} (hs : s.id < h.scopes.nodes.length) :
    left.isDone s = h.isDone s := by
  have hnode := u.scopes s.id hs
  rw [Bool.eq_iff_iff, Host.isDone, Host.isDone, Scopes.isDone_iff, Scopes.isDone_iff,
    Scopes.hasFired, Scopes.hasFired, Scopes.deadline?, Scopes.deadline?, hnode, u.now]

end Untouched

variable (h : Host τ σ) (s : Scope)

theorem untouched_add (n : ScopeNode) (values : Members) :
    h.Untouched { h with scopes := (h.scopes.add n values).2 } :=
  { Untouched.refl h with
    known := by
      rw [Scopes.add, List.length_append]
      exact Nat.le_add_right _ _
    scopes := fun id hid => by
      show (h.scopes.add n values).2.node? id = _
      rw [Scopes.node?_add, if_neg (Nat.ne_of_lt hid)] }

/-- A deadline that is new is watched. -/
theorem untouched_withDeadline (deadline : Nat) :
    h.Untouched (h.withDeadline s deadline).2 := by
  obtain ⟨hscope, -, hscopes⟩ := h.scopes.withDeadline_eq s deadline
  unfold withDeadline
  simp only [hscope, hscopes]
  split
  · have hadd := h.untouched_add ⟨some s.id, if (h.scopes.deadline? s.id).any (· ≤ deadline)
      then h.scopes.deadline? s.id else some deadline, none, h.scopes.hasFired s.id⟩ s.values
    exact { hadd with
      nextJob := Nat.le_succ _
      jobs := ⟨[(h.nextJob, .watchdog _ deadline)], rfl, rfl,
        List.forall_mem_singleton.2 ⟨Nat.le_refl _, _, _, rfl, Nat.le_refl _⟩⟩ }
  · exact h.untouched_add _ _

/-- **The scope of a run** is made beside everything else. -/
theorem untouched_runScope : h.Untouched (h.runScope s).2 :=
  runScope_of (R := fun h _ _ h' => h.Untouched h') (h.untouched_add _ s.values)
    (h.untouched_add _ s.values) (fun h s d => h.untouched_withDeadline s d)
    fun _ _ _ _ _ _ hmade hnear => hmade.trans hnear

end Host

/-! ## Requests that are refused -/

namespace Admission

variable {h : Host τ σ} {caller : Scope} {request : Request}

/-- A host with a planned run whose scope has been made, unless its session has one. -/
def admitted (h : Host τ σ) (p : Plan τ) (made : Scope × Host τ σ) :
    Except RunnerError (Nat × Host τ σ) :=
  let key := p.key h.runner.config.appName
  match h.inFlight.admit? key made.1.id with
  | none => .error .alreadyExists
  | some inFlight =>
    let (stream, opened) := ({ made.2 with inFlight } : Host τ σ).openStream
    .ok (stream, opened.launch (.run (.ofPlan p h.runner.config h.recorder.isSome) key made.1 stream
      .uncalled))

/-- A run is planned and then admitted. -/
theorem run_eq (h : Host τ σ) (caller : Scope) (request : Request) : h.run caller request
    = h.runner.plan h.freshId.1 (h.view caller) request >>= fun p =>
      admitted h p (h.freshId.2.runScope caller) := rfl

/-- A planned run is refused at the last stage or not at all. -/
theorem failureOf_admitted (h : Host τ σ) (p : Plan τ) (made : Scope × Host τ σ) :
    failureOf (admitted h p made) = (admission h (p.key h.runner.config.appName)).failure := by
  rw [admitted, admission, InFlight.admit?]
  by_cases hholds : h.inFlight.holds (p.key h.runner.config.appName) = true
  · rw [if_pos hholds, if_pos hholds]
    rfl
  · rw [if_neg hholds, if_neg hholds]
    rfl

/-- A planned run is admitted in place, or leaves nothing behind but its scope. -/
theorem run_enter (caller : Scope) (p : Plan τ) (s : Attempt τ σ) :
    (enter caller p).run s = match admitted s.host p (s.host.runScope caller) with
      | .error e => .error e { s with host := (s.host.runScope caller).2 }
      | .ok (stream, h') => .ok stream { s with host := h' } := by
  have hmade : s.host.Untouched (s.host.runScope caller).2 := s.host.untouched_runScope caller
  have hrun : (enter caller p).run s = EStateM.run (do
      takePlace (p.key s.host.runner.config.appName) (s.host.runScope caller).1
      let stream ← change Host.openStream
      change fun h => ((), h.launch (.run (.ofPlan p s.host.runner.config h.recorder.isSome)
        (p.key s.host.runner.config.appName) (s.host.runScope caller).1 stream .uncalled))
      pure stream) { s with host := (s.host.runScope caller).2 } := rfl
  rw [hrun, EStateM.run_bind, takePlace, EStateM.run_bind, EStateM.run_get, admitted,
    ← hmade.inFlight, ← hmade.recorder]
  simp only
  cases (s.host.runScope caller).2.inFlight.admit? _ (s.host.runScope caller).1.id <;> rfl

/-- **A run in place is started or refused as a run is.**  It has asked all hooks, or those up to
the first stage that fails, and then the host is untouched. -/
theorem run_outcome (h : Host τ σ) (caller : Scope) (request : Request) :
    (∃ stream h', h.run caller request = .ok (stream, h') ∧
      (∀ x ∈ stages h caller request, x.failure = none) ∧
      (run caller request).run ⟨h, []⟩
        = .ok stream ⟨h', (stages h caller request).filterMap Stage.asks⟩) ∨
    ∃ e front stage rest left, h.run caller request = .error e ∧
      stages h caller request = front ++ stage :: rest ∧ (∀ x ∈ front, x.failure = none) ∧
      stage.failure = some e ∧
      (run caller request).run ⟨h, []⟩
        = .error e ⟨left, (front ++ [stage]).filterMap Stage.asks⟩ ∧
      h.Untouched left := by
  have hdrawn : h.Untouched h.freshId.2 := { Host.Untouched.refl h with }
  have hgoes : Goes ⟨h.freshId.2, []⟩ (planStages h.runner h.freshId.1 (h.view caller) request)
      (h.runner.plan h.freshId.1 (h.view caller) request)
      ((plan h.freshId.1 caller request).run ⟨h.freshId.2, []⟩) := goes_plan h.freshId.1 request
  have hkey := @key_of_plan _ h.runner h.freshId.1 (h.view caller) request
  have hrun : (run caller request).run ⟨h, []⟩
      = (plan h.freshId.1 caller request >>= enter caller).run ⟨h.freshId.2, []⟩ := rfl
  rw [run_eq, hrun, EStateM.run_bind, stages]
  generalize (plan h.freshId.1 caller request).run ⟨h.freshId.2, []⟩ = r at hgoes ⊢
  generalize h.runner.plan h.freshId.1 (h.view caller) request = x at hgoes hkey ⊢
  generalize planStages h.runner h.freshId.1 (h.view caller) request = planned at hgoes ⊢
  cases hgoes with
  | stopped front stage rest split passed failed =>
    rw [split, List.append_assoc, List.cons_append]
    exact .inr ⟨_, front, stage, _, _, rfl, rfl, passed, failed, rfl, hdrawn⟩
  | through p passed =>
    simp only
    rw [← hkey rfl]
    have hasks : (planned ++ [admission h (p.key h.runner.config.appName)]).filterMap Stage.asks
        = planned.filterMap Stage.asks := by
      rw [List.filterMap_append]
      exact List.append_nil _
    have hlast := failureOf_admitted h p (h.freshId.2.runScope caller)
    have henter := run_enter caller p ⟨h.freshId.2, planned.filterMap Stage.asks⟩
    change _ = match admitted h p (h.freshId.2.runScope caller) with
      | .error e => _ | .ok (stream, h') => _ at henter
    rw [hasks]
    cases hadmitted : admitted h p (h.freshId.2.runScope caller) with
    | error e =>
      rw [hadmitted] at hlast henter
      exact .inr ⟨e, planned, _, [], _, hadmitted, rfl, passed, hlast.symm, hasks ▸ henter,
        hdrawn.trans (Host.untouched_runScope _ caller)⟩
    | ok x =>
      rw [hadmitted] at hlast henter
      exact .inl ⟨x.1, x.2, hadmitted, List.forall_mem_append.2 ⟨passed,
        List.forall_mem_singleton.2 hlast.symm⟩, henter⟩

/-- **A request that is refused leaves no trace.**  It is refused for the first stage that fails,
and no hook behind that has been asked for anything.  In place, the host is left as it was but for
the scope that was made and its watchdog; the run that has the session goes on undisturbed. -/
theorem run_refused {e : RunnerError} (hrun : h.run caller request = .error e) :
    ∃ front stage rest left,
      stages h caller request = front ++ stage :: rest ∧ (∀ x ∈ front, x.failure = none) ∧
      stage.failure = some e ∧
      (run caller request).run ⟨h, []⟩
        = .error e ⟨left, (front ++ [stage]).filterMap Stage.asks⟩ ∧
      h.Untouched left ∧
      ∀ s : Scope, s.id < h.scopes.nodes.length → left.isDone s = h.isDone s := by
  rcases run_outcome h caller request with ⟨stream, h', hok, -⟩ | hrefused
  · cases hok.symm.trans hrun
  · obtain ⟨e', front, stage, rest, left, herror, hsplit, hpassed, hfailed, hplace, hleft⟩ :=
      hrefused
    cases herror.symm.trans hrun
    exact ⟨front, stage, rest, left, hsplit, hpassed, hfailed, hplace, hleft, fun s hs =>
      hleft.isDone hs⟩

/-- A user whose run is in flight says hello once more: all hooks are asked in vain. -/
theorem run_refused_hello :
    let caller : Scope := { id := 0 }
    let r := Runner.helloRequest
    let left := (Traffic.helloAdmitted.freshId.2.runScope caller).2
    (run caller r).run ⟨Traffic.helloAdmitted, []⟩ = .error .alreadyExists
        ⟨left, [.userId r, .state r, .options r, .span r "app" "user", .translator r {}]⟩ ∧
      Traffic.helloAdmitted.Untouched left ∧ left.scopes ≠ Traffic.helloAdmitted.scopes := by
  intro caller r left
  have hplace : (run caller r).run ⟨Traffic.helloAdmitted, []⟩ = .error .alreadyExists
      ⟨left, [.userId r, .state r, .options r, .span r "app" "user", .translator r {}]⟩ := rfl
  obtain ⟨front, stage, rest, left', -, -, -, hplace', hleft, -⟩ :=
    @run_refused _ _ Traffic.helloAdmitted caller r _ rfl
  have hsame : left = left' :=
    congrArg Attempt.host (EStateM.Result.error.inj (hplace.symm.trans hplace')).2
  exact ⟨hplace, hsame ▸ hleft, by decide⟩

end Admission

end AgentStream
