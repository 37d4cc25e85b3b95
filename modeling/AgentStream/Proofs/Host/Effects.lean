/-
# What the operations of a host change

* `Host.cancel_eq` : cancelling a scope changes the tree of scopes and the queue;
* `Host.writing_setStream`, `Host.writing_closeStream` : which streams are written;
* `Host.ScopeFor`, `Host.runScope_of`, `Host.scopeFor_runScope` : how the scope of a run is made;
* `Host.run_of_holds`, `Host.run_of_not_holds`, `Host.Starts` : when a run is refused once all
  stages of its request have passed, and how it is started;
* `Host.snapshot_eq_ok` : how a snapshot is started;
* `Host.cancelRun_of_scope?`, `Host.cancelRun_of_none` : when a run is cancelled.
-/
import AgentStream.Host.Operations
import AgentStream.Host.Queue
import AgentStream.Proofs.Scope.Tree
import AgentStream.Proofs.Table

namespace AgentStream

namespace Host

variable {τ σ : Type} {h h' h'' : Host τ σ}

/-! ## Ending scopes -/

/-- Jobs that wait for the end of scopes go on; nothing else changes. -/
theorem wakeScopes_eq (h : Host τ σ) (scopes : List Nat) :
    ∃ ready waits, h.wakeScopes scopes = { h with ready, waits } := by
  induction scopes generalizing h with
  | nil => exact ⟨h.ready, h.waits, rfl⟩
  | cons id scopes ih =>
    obtain ⟨ready, waits, heq⟩ := ih (h.wake fun w => w.scope == some id)
    exact ⟨ready, waits, heq⟩

/-- Cancelling a scope changes the tree of scopes, and the queue. -/
theorem cancel_eq (h : Host τ σ) (scope : Nat) :
    ∃ ready waits, h.cancel scope = { h with scopes := h.scopes.cancel scope, ready, waits } :=
  wakeScopes_eq _ _

/-- Expiring a scope changes the tree of scopes, and the queue. -/
theorem expire_eq (h : Host τ σ) (scope : Nat) :
    ∃ ready waits, h.expire scope = { h with scopes := h.scopes.expire scope, ready, waits } :=
  wakeScopes_eq _ _

/-! ## Streams -/

/-- A stream that changes is written if it was, unless the change says otherwise. -/
theorem writing_setStream {f : Stream → Stream} (hf : ∀ s, (f s).writing = s.writing)
    (h : Host τ σ) (changed stream : Nat) :
    ((h.setStream changed f).stream stream).writing = (h.stream stream).writing := by
  unfold Host.stream setStream
  rw [List.getD_eq_getElem?_getD, List.getD_eq_getElem?_getD, List.getElem?_modify]
  cases h.streams[stream]? with
  | none => rfl
  | some s =>
    show (if changed = stream then f s else s).writing = s.writing
    split
    · exact hf s
    · rfl

theorem writing_put (h : Host τ σ) (filled : Nat) (e : Event) (stream : Nat) :
    ((h.put filled e).stream stream).writing = (h.stream stream).writing :=
  writing_setStream (f := fun s => { s with buffer := some e }) (fun _ => rfl) h filled stream

/-- A closed stream is written no more; every other one is as it was. -/
theorem writing_closeStream (h : Host τ σ) (closed stream : Nat) :
    ((h.closeStream closed).stream stream).writing
      = if stream = closed then false else (h.stream stream).writing := by
  unfold Host.stream closeStream setStream
  rw [List.getD_eq_getElem?_getD, List.getD_eq_getElem?_getD, List.getElem?_modify]
  cases h.streams[stream]? with
  | none => exact (ite_self false).symm
  | some s =>
    show (if closed = stream then { s with writing := false } else s).writing = _
    by_cases hs : closed = stream
    · rw [if_pos hs, if_pos hs.symm]
    · rw [if_neg hs, if_neg fun h => hs h.symm]
      rfl

/-! ## Scopes of runs -/

/-- A host has made a scope for a caller, and at most watches over it besides. -/
structure ScopeFor (h : Host τ σ) (caller : Nat) (scope : Nat) (h' : Host τ σ) : Prop where
  derives : h.scopes.Rooted → caller < h.scopes.nodes.length →
    h.scopes.Derives caller h'.scopes scope
  inFlight : h'.inFlight = h.inFlight
  streams : h'.streams = h.streams

theorem ScopeFor.trans {caller mid scope : Nat} (hm : ScopeFor h caller mid h')
    (hs : ScopeFor h' mid scope h'') : ScopeFor h caller scope h'' where
  derives hr hc := by
    have hd := hm.derives hr hc
    exact hd.trans (hs.derives (hd.tree.rooted hr) hd.known)
  inFlight := hs.inFlight.trans hm.inFlight
  streams := hs.streams.trans hm.streams

theorem scopeFor_withDeadline (h : Host τ σ) (s : Scope) (deadline : Nat) :
    ScopeFor h s.id (h.withDeadline s deadline).1.id (h.withDeadline s deadline).2 := by
  have hd (hr : h.scopes.Rooted) (hs : s.id < h.scopes.nodes.length) :=
    Scopes.derives_withDeadline hr hs deadline
  unfold withDeadline
  simp only
  split <;> exact ⟨hd, rfl, rfl⟩

/-- The scope of a run is derived from its caller, or is one of its own, and may then get deadlines.
What holds of each of these steps, and of one behind the other, holds of how it is made. -/
theorem runScope_of {R : Host τ σ → Nat → Nat → Host τ σ → Prop} {caller : Scope}
    (hchild : R h caller.id (h.child caller).1.id (h.child caller).2)
    (hdetached : R h caller.id (h.detached caller).1.id (h.detached caller).2)
    (hdeadline : ∀ h s deadline,
      R h s.id (h.withDeadline s deadline).1.id (h.withDeadline s deadline).2)
    (htrans : ∀ h h' h'' top mid scope, R h top mid h' → R h' mid scope h'' → R h top scope h'') :
    R h caller.id (h.runScope caller).1.id (h.runScope caller).2 := by
  unfold runScope
  by_cases hdone : h.runner.config.cancelOnContextDone = true
  · simp only [if_pos hdone]
    cases h.runner.config.timeout with
    | none => exact hchild
    | some ms => exact htrans _ _ _ _ _ _ hchild (hdeadline ..)
  · simp only [if_neg hdone]
    cases (h.detached caller).2.scopes.deadline? caller.id with
    | none =>
      cases h.runner.config.timeout with
      | none => exact hdetached
      | some ms => exact htrans _ _ _ _ _ _ hdetached (hdeadline ..)
    | some deadline =>
      have hbounded := htrans _ _ _ _ _ _ hdetached (hdeadline _ _ deadline)
      cases h.runner.config.timeout with
      | none => exact hbounded
      | some ms => exact htrans _ _ _ _ _ _ hbounded (hdeadline ..)

/-- The scope of a run is made for its caller. -/
theorem scopeFor_runScope (h : Host τ σ) (caller : Scope) :
    ScopeFor h caller.id (h.runScope caller).1.id (h.runScope caller).2 :=
  runScope_of ⟨fun hr hc => Scopes.derives_child hr hc, rfl, rfl⟩
    ⟨fun hr _ => Scopes.derives_detached hr caller, rfl, rfl⟩ scopeFor_withDeadline
    fun _ _ _ _ _ _ => .trans

/-! ## Starting runs -/

/-- A host has started a planned run for a caller, in a scope and with a stream. -/
structure Starts (h : Host τ σ) (caller : Scope) (plan : Plan τ) (scope : Scope) (stream : Nat)
    (h' : Host τ σ) : Prop where
  derives : h.scopes.Rooted → caller.id < h.scopes.nodes.length →
    h.scopes.Derives caller.id h'.scopes scope.id
  inFlight :
    h'.inFlight = ⟨(plan.key h.runner.config.appName, scope.id) :: h.inFlight.runs⟩
  stream_eq : stream = h.streams.length
  streams : h'.streams = h.streams ++ [({} : Stream)]
  /-- The run is launched behind the jobs that its scope needs. -/
  jobs : h'.jobs = (h.freshId.2.runScope caller).2.jobs ++ [(
    (h.freshId.2.runScope caller).2.nextJob,
    .run (.ofPlan plan h.runner.config h.recorder.isSome) (plan.key h.runner.config.appName) scope
      stream .uncalled)]
  nextJob : h'.nextJob = (h.freshId.2.runScope caller).2.nextJob + 1

variable {caller : Scope} {request request' : Request} {plan : Plan τ} {userId : String}

theorem Starts.launched {scope : Scope} {stream : Nat} (hs : Starts h caller plan scope stream h') :
    ∃ job, h'.jobs.getLast? = some (job,
      .run (.ofPlan plan h.runner.config h.recorder.isSome) (plan.key h.runner.config.appName) scope
        stream .uncalled) :=
  ⟨_, by rw [hs.jobs, List.getLast?_concat]⟩

theorem Starts.length_streams {scope : Scope} {stream : Nat}
    (hs : Starts h caller plan scope stream h') :
    h'.streams.length = h.streams.length + 1 := by
  rw [hs.streams, List.length_append]
  rfl

/-- Nothing has been put into the stream of a run that is started, -/
theorem Starts.stream_new {scope : Scope} {stream : Nat}
    (hs : Starts h caller plan scope stream h') : h'.stream stream = {} := by
  rw [Host.stream, hs.streams, hs.stream_eq, List.getD_eq_getElem?_getD,
    List.getElem?_concat_length]
  rfl

/-- and the earlier streams are as they were. -/
theorem Starts.stream_old {scope : Scope} {stream earlier : Nat}
    (hs : Starts h caller plan scope stream h') (hlt : earlier < h.streams.length) :
    h'.stream earlier = h.stream earlier := by
  rw [Host.stream, Host.stream, hs.streams, List.getD_eq_getElem?_getD,
    List.getD_eq_getElem?_getD, List.getElem?_append_left hlt]

/-- A request whose stages have all passed is refused if its session has a run in flight. -/
theorem run_of_holds (hp : h.runner.plan h.freshId.1 (h.view caller) request = .ok plan)
    (hh : h.inFlight.holds (plan.key h.runner.config.appName) = true) :
    h.run caller request = .error .alreadyExists := by
  have hnone : h.inFlight.admit? (plan.key h.runner.config.appName)
      (h.freshId.2.runScope caller).1.id = none := if_pos hh
  unfold run
  simp only [hp, bind, Except.bind, hnone]
  rfl

/-- Otherwise its run is started. -/
theorem run_of_not_holds (hp : h.runner.plan h.freshId.1 (h.view caller) request = .ok plan)
    (hh : h.inFlight.holds (plan.key h.runner.config.appName) = false) :
    ∃ scope stream h', h.run caller request = .ok (stream, h') ∧
      Starts h caller plan scope stream h' := by
  have hsome : h.inFlight.admit? (plan.key h.runner.config.appName)
      (h.freshId.2.runScope caller).1.id
      = some ⟨(plan.key h.runner.config.appName, (h.freshId.2.runScope caller).1.id)
          :: h.inFlight.runs⟩ := if_neg (Bool.eq_false_iff.1 hh)
  unfold run
  simp only [hp, bind, Except.bind, hsome]
  obtain ⟨hd, -, hstreams⟩ := h.freshId.2.scopeFor_runScope caller
  exact ⟨_, _, _, rfl, hd, rfl, congrArg List.length hstreams, congrArg (· ++ _) hstreams, rfl, rfl⟩

/-- A run that was started was planned, and its session had none in flight. -/
theorem run_eq_ok {stream : Nat} (hrun : h.run caller request = .ok (stream, h')) :
    ∃ plan scope, h.runner.plan h.freshId.1 (h.view caller) request = .ok plan ∧
      h.inFlight.holds (plan.key h.runner.config.appName) = false ∧
      Starts h caller plan scope stream h' := by
  cases hp : h.runner.plan h.freshId.1 (h.view caller) request with
  | error e =>
    unfold run at hrun
    simp only [hp, bind, Except.bind] at hrun
    cases hrun
  | ok plan =>
    cases hh : h.inFlight.holds (plan.key h.runner.config.appName) with
    | true =>
      rw [run_of_holds hp hh] at hrun
      cases hrun
    | false =>
      obtain ⟨scope, _, _, hok, hstarts⟩ := run_of_not_holds hp hh
      rw [hok] at hrun
      cases hrun
      exact ⟨plan, scope, rfl, hh, hstarts⟩

/-! ## Starting snapshots -/

/-- A snapshot that is started is launched with a stream and a scope of its own. -/
theorem snapshot_eq_ok {stream : Nat} (hs : h.snapshot caller request = .ok (stream, h')) :
    ∃ s, h' = (h.child caller).2.openStream.2.launch
      (.snapshot s (h.child caller).1 h.streams.length) := by
  unfold snapshot at hs
  cases hp : h.runner.snapshot h.recorder.isSome (h.view caller) request with
  | error e =>
    simp only [hp, bind, Except.bind] at hs
    cases hs
  | ok s =>
    simp only [hp, bind, Except.bind] at hs
    cases hs
    exact ⟨s, rfl⟩

/-! ## Cancelling runs -/

/-- A request whose stages have passed cancels the scope of the run of its session. -/
theorem cancelRun_of_scope? (hp : h.runner.prepare (h.view caller) request = .ok (request', userId))
    {scope : Nat} (hs : h.inFlight.scope? (h.runner.key request' userId) = some scope) :
    h.cancelRun caller request = .ok (h.cancel scope) := by
  unfold cancelRun
  simp only [hp, bind, Except.bind, hs]
  rfl

/-- Without such a run it is refused. -/
theorem cancelRun_of_none (hp : h.runner.prepare (h.view caller) request = .ok (request', userId))
    (hs : h.inFlight.scope? (h.runner.key request' userId) = none) :
    h.cancelRun caller request = .error .notFound := by
  unfold cancelRun
  simp only [hp, bind, Except.bind, hs]
  rfl

/-- What was cancelled is the scope of a run in flight. -/
theorem cancelRun_eq_ok (hcancel : h.cancelRun caller request = .ok h') :
    ∃ key scope, h.inFlight.scope? key = some scope ∧ h' = h.cancel scope := by
  cases hp : h.runner.prepare (h.view caller) request with
  | error e =>
    unfold cancelRun at hcancel
    simp only [hp, bind, Except.bind] at hcancel
    cases hcancel
  | ok r =>
    cases hs : h.inFlight.scope? (h.runner.key r.1 r.2) with
    | none =>
      rw [cancelRun_of_none hp hs] at hcancel
      cases hcancel
    | some scope =>
      rw [cancelRun_of_scope? hp hs] at hcancel
      cases hcancel
      exact ⟨_, scope, hs, rfl⟩

end Host

end AgentStream
