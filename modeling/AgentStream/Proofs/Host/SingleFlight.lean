/-
# One run of a session at a time

Whatever happens on a host and in whatever order, at most one run of a session is in flight.  A
run keeps its place until it has wound down, even if it is cancelled, and gives it up before its
stream closes.

* `Traffic.SingleFlight` : what the table of runs in flight says, does and ends;
* `Traffic.singleFlight` : it holds at every time, and whatever a host does for its clients.
-/
import AgentStream.Proofs.Host.Sites
import AgentStream.Proofs.Run.Shown

namespace AgentStream

namespace Traffic

variable {τ σ : Type} [Translator τ] {t t' : Traffic τ σ} {host : Host τ σ} {i : Nat}
  {f : Flight τ} {key : SessionKey} {scope : Nat}

/-! ## The table -/

/-- A session has a run in flight if exactly one of its runs has not released its place. -/
theorem Sound.holds_iff (ht : t.Sound) (key : SessionKey) :
    t.host.inFlight.holds key = true ↔
      ∃! i, ∃ f, t.flight? i = some f ∧ f.key = key ∧ ¬f.Released := by
  constructor
  · intro h
    obtain ⟨scope, hscope⟩ := Option.isSome_iff_exists.1 h
    obtain ⟨i, f, hf, hkey, -, hr⟩ := (ht.place key scope).1 hscope
    refine ⟨i, ⟨f, hf, hkey, hr⟩, fun j ⟨g, hg, hkey', hr'⟩ => ?_⟩
    exact ht.unique hg hf (hkey'.trans hkey.symm) hr' hr
  · rintro ⟨i, ⟨f, hf, hkey, hr⟩, -⟩
    exact Option.isSome_iff_exists.2
      ⟨f.scope.id, (ht.place key f.scope.id).2 ⟨i, f, hf, hkey, rfl, hr⟩⟩

omit [Translator τ] in
/-- The table changes where a run releases its place, and nowhere else. -/
theorem perform_inFlight (h : Host τ σ) (key : SessionKey) (scope : Scope) (stream : Nat)
    (a : Action) : (h.perform key scope stream a).inFlight =
      if a = .release then h.inFlight.release key else h.inFlight := by
  cases a with
  | deliver e => rfl
  | endScope => exact (elsewhere_cancel [] h scope.id).inFlight
  | release => rfl
  | close => rfl

/-- What is taken out of the table is the place of a run that releases it. -/
theorem Sound.removed (ht : t.Sound) (hstep : Step t t')
    (hheld : t.host.inFlight.scope? key = some scope)
    (hgone : t'.host.inFlight.scope? key ≠ some scope) :
    ∃ i f rest, t.flight? i = some f ∧ f.key = key ∧ f.scope.id = scope ∧
      f.todo = .release :: rest ∧
      t' = ⟨t.host.perform f.key f.scope f.stream .release,
        t.flights.set i (f.acted .release rest)⟩ := by
  cases hstep with
  | start admitted launched known free =>
    obtain ⟨plan, new, -, hnone, hs⟩ := Host.run_eq_ok admitted
    refine absurd ?_ hgone
    have hk : key ≠ plan.key t.host.runner.config.appName := by
      rintro rfl
      rw [InFlight.holds, ← InFlight.scope?, hheld] at hnone
      cases hnone
    rw [hs.inFlight, InFlight.scope?, lookup_cons_ite, if_neg hk]
    exact hheld
  | cancel cancelled =>
    obtain ⟨_, s, -, rfl⟩ := Host.cancelRun_eq_ok cancelled
    rw [(elsewhere_cancel [] t.host s).inFlight] at hgone
    exact absurd hheld hgone
  | reply => exact absurd hheld hgone
  | elsewhere h =>
    rw [h.inFlight] at hgone
    exact absurd hheld hgone
  | @act i f a rest flight todo =>
    rw [perform_inFlight] at hgone
    split at hgone
    · subst a
      rw [InFlight.scope?, InFlight.release, lookup_filter_ne] at hgone
      split at hgone
      · rename_i hkey
        have hnot := (ht.flight i f flight).not_released todo
        have hplace := (ht.place f.key f.scope.id).2 ⟨i, f, flight, rfl, rfl, hnot⟩
        rw [← hkey, hheld] at hplace
        exact ⟨i, f, rest, flight, hkey.symm, (Option.some.inj hplace).symm, todo, rfl⟩
      · exact absurd hheld hgone
    · exact absurd hheld hgone

end Traffic

/-! ## Flights that wind down -/

namespace Flight

variable {τ : Type} [Translator τ] {f : Flight τ} {rest : List Action}

/-- A flight that is to release its place is over, its record is flushed, and its stream is not
closed. -/
theorem Sound.releasing (hf : f.Sound) (todo : f.todo = .release :: rest) :
    f.run.stage = .closed ∧ (f.run.recorded = true → ∃ before, f.history = before ++ [.flush]) ∧
      Action.close ∉ f.done := by
  obtain ⟨hclosed, ⟨events, hdone⟩, -⟩ := (todo ▸ hf.winds).release
  refine ⟨hclosed, fun hr => ?_, fun h => ?_⟩
  · obtain ⟨p, config, hasRecorder, hstart⟩ := hf.start
    rw [run, hstart] at hclosed hr
    rw [history, hstart]
    exact Run.flushed_of_closed p config hasRecorder hclosed
      ((Run.after_keeps _ _).2.symm.trans hr)
  · rw [hdone, List.mem_append, List.mem_map] at h
    rcases h with ⟨e, -, he⟩ | h
    · cases he
    · cases List.mem_singleton.1 h

/-- A flight that has closed its stream has released its place before. -/
theorem Sound.released_of_close (hf : f.Sound) (hc : Action.close ∈ f.done) : f.Released := by
  obtain ⟨before, behind, hdone⟩ := List.append_of_mem hc
  have hwinds := hf.winds
  rw [hdone, List.append_assoc, List.cons_append] at hwinds
  obtain ⟨⟨events, hbefore⟩, -⟩ := hwinds.close
  rw [Released, hdone, hbefore]
  simp

end Flight

/-! ## Single flight -/

namespace Traffic

variable {τ σ : Type} [Translator τ] {t t' : Traffic τ σ}

/-- What the table of runs in flight says, what operations find in it, and how it changes. -/
structure SingleFlight (t : Traffic τ σ) : Prop where
  /-- A session is in the table if exactly one of its runs has not released its place. -/
  held : ∀ key, t.host.inFlight.holds key = true ↔
    ∃! i, ∃ f, t.flight? i = some f ∧ f.key = key ∧ ¬f.Released
  /-- A request whose stages have all passed is refused if its session is in the table, and is
  started otherwise. -/
  admission : ∀ caller request plan,
    t.host.runner.plan t.host.freshId.1 (t.host.view caller) request = .ok plan →
    if t.host.inFlight.holds (plan.key t.host.runner.config.appName)
    then t.host.run caller request = .error .alreadyExists
    else ∃ stream host, t.host.run caller request = .ok (stream, host)
  /-- A run is cancelled if its session is in the table, which stays as it is.  The scope of this
  run is then done; that of any other run is done if it was. -/
  cancelling : ∀ caller request prepared userId,
    t.host.runner.prepare (t.host.view caller) request = .ok (prepared, userId) →
    if t.host.inFlight.holds (t.host.runner.key prepared userId)
    then ∃ host i f, t.host.cancelRun caller request = .ok host ∧
      host.inFlight = t.host.inFlight ∧
      t.flight? i = some f ∧ f.key = t.host.runner.key prepared userId ∧ ¬f.Released ∧
      host.isDone f.scope = true ∧
      ∀ j g, t.flight? j = some g → j ≠ i → host.isDone g.scope = t.host.isDone g.scope
    else t.host.cancelRun caller request = .error .notFound
  /-- An entry goes only when the run that it belongs to releases its place in its wind-down.  The
  record of the run is flushed by then, and its stream is not closed yet. -/
  removal : ∀ t', Step t t' → ∀ key scope,
    t.host.inFlight.scope? key = some scope → t'.host.inFlight.scope? key ≠ some scope →
    ∃ i f rest, t.flight? i = some f ∧ f.key = key ∧ f.scope.id = scope ∧ ¬f.Released ∧
      f.run.stage = .closed ∧ f.todo = .release :: rest ∧
      t'.flight? i = some (f.acted .release rest) ∧
      (f.run.recorded = true → ∃ before, f.history = before ++ [.flush]) ∧
      (t.host.stream f.stream).writing = true ∧ (t'.host.stream f.stream).writing = true
  /-- A run whose stream has closed is not the one that holds its session. -/
  ended : ∀ i f, t.flight? i = some f → (t.host.stream f.stream).writing = false →
    f.Released ∧ t.host.inFlight.scope? f.key ≠ some f.scope.id

omit [Translator τ] in
/-- A request whose stages have all passed is refused or started. -/
theorem admission_of_plan {h : Host τ σ} {caller : Scope} {request : Request} {plan : Plan τ}
    (hp : h.runner.plan h.freshId.1 (h.view caller) request = .ok plan) :
    if h.inFlight.holds (plan.key h.runner.config.appName)
    then h.run caller request = .error .alreadyExists
    else ∃ stream host, h.run caller request = .ok (stream, host) := by
  split
  · rename_i hh
    exact Host.run_of_holds hp hh
  · rename_i hh
    obtain ⟨scope, stream, host, hrun, -⟩ := Host.run_of_not_holds hp (Bool.eq_false_iff.2 hh)
    exact ⟨stream, host, hrun⟩

/-- Cancelling the scope of a flight ends it, and that of no other flight. -/
theorem Sound.cancelled (ht : t.Sound) {i : Nat} {f : Flight τ} (hf : t.flight? i = some f) :
    (t.host.cancel f.scope.id).isDone f.scope = true ∧
      ∀ j g, t.flight? j = some g → j ≠ i →
        (t.host.cancel f.scope.id).isDone g.scope = t.host.isDone g.scope := by
  obtain ⟨ready, waits, heq⟩ := t.host.cancel_eq f.scope.id
  rw [heq]
  refine ⟨Scopes.isDone_finish ht.rooted (ht.scope i f hf), fun j g hg hne => ?_⟩
  exact Scopes.isDone_finish_of_not_under ht.rooted (ht.apart i j f g hf hg hne.symm).1

theorem Sound.cancelling (ht : t.Sound) {caller : Scope} {request prepared : Request}
    {userId : String}
    (hp : t.host.runner.prepare (t.host.view caller) request = .ok (prepared, userId)) :
    if t.host.inFlight.holds (t.host.runner.key prepared userId)
    then ∃ host i f, t.host.cancelRun caller request = .ok host ∧
      host.inFlight = t.host.inFlight ∧
      t.flight? i = some f ∧ f.key = t.host.runner.key prepared userId ∧ ¬f.Released ∧
      host.isDone f.scope = true ∧
      ∀ j g, t.flight? j = some g → j ≠ i → host.isDone g.scope = t.host.isDone g.scope
    else t.host.cancelRun caller request = .error .notFound := by
  split
  · rename_i hh
    obtain ⟨scope, hscope⟩ := Option.isSome_iff_exists.1 hh
    obtain ⟨i, f, hf, hkey, rfl, hr⟩ := (ht.place _ scope).1 hscope
    exact ⟨_, i, f, Host.cancelRun_of_scope? hp hscope,
      (elsewhere_cancel t.flights t.host f.scope.id).inFlight, hf, hkey, hr, ht.cancelled hf⟩
  · rename_i hh
    exact Host.cancelRun_of_none hp (Option.not_isSome_iff_eq_none.1 hh)

theorem Sound.removal (ht : t.Sound) (hstep : Step t t') {key : SessionKey} {scope : Nat}
    (hheld : t.host.inFlight.scope? key = some scope)
    (hgone : t'.host.inFlight.scope? key ≠ some scope) :
    ∃ i f rest, t.flight? i = some f ∧ f.key = key ∧ f.scope.id = scope ∧ ¬f.Released ∧
      f.run.stage = .closed ∧ f.todo = .release :: rest ∧
      t'.flight? i = some (f.acted .release rest) ∧
      (f.run.recorded = true → ∃ before, f.history = before ++ [.flush]) ∧
      (t.host.stream f.stream).writing = true ∧ (t'.host.stream f.stream).writing = true := by
  obtain ⟨i, f, rest, hf, hkey, hscope, todo, rfl⟩ := ht.removed hstep hheld hgone
  obtain ⟨hclosed, hflush, hopen⟩ := (ht.flight i f hf).releasing todo
  have hwriting := (ht.writing i f hf).2 hopen
  refine ⟨i, f, rest, hf, hkey, hscope, (ht.flight i f hf).not_released todo, hclosed, todo, ?_,
    hflush, hwriting, hwriting⟩
  rw [flight?_set hf, if_pos rfl]

theorem Sound.ended (ht : t.Sound) {i : Nat} {f : Flight τ} (hf : t.flight? i = some f)
    (hw : (t.host.stream f.stream).writing = false) :
    f.Released ∧ t.host.inFlight.scope? f.key ≠ some f.scope.id := by
  have hc : Action.close ∈ f.done := Decidable.byContradiction fun hc => by
    rw [(ht.writing i f hf).2 hc] at hw
    cases hw
  have hr := (ht.flight i f hf).released_of_close hc
  refine ⟨hr, fun h => ?_⟩
  -- The flight that holds the session has the same scope, so it is this one.
  obtain ⟨j, g, hg, -, hscope, hnot⟩ := (ht.place _ _).1 h
  by_cases hj : i = j
  · obtain rfl : f = g := Option.some.inj (hf.symm.trans (hj ▸ hg))
    exact hnot hr
  · exact (ht.apart i j f g hf hg hj).1 (hscope ▸ .self)

theorem Sound.toSingleFlight (ht : t.Sound) : t.SingleFlight where
  held := ht.holds_iff
  admission _ _ _ hp := admission_of_plan hp
  cancelling _ _ _ _ hp := ht.cancelling hp
  removal _ hstep _ _ hheld hgone := ht.removal hstep hheld hgone
  ended _ _ hf hw := ht.ended hf hw

/-- **One run of a session at a time**, whatever has happened since a host had no runs.  What a host
does for its clients and in the turns of its jobs is among that; between its turns a session is in
the table if exactly one of the jobs is a run of it that is not over. -/
theorem singleFlight [LogStore σ] {h : Host τ σ} (hempty : h.inFlight = {})
    (hr : h.scopes.Rooted) :
    (∀ t, Reaches ⟨h, []⟩ t → t.SingleFlight) ∧
    ∀ s, h.jobs = [] → Site.Reaches ⟨h, []⟩ s →
      (∃ flights, Reaches ⟨h, []⟩ ⟨s.host, flights⟩ ∧ SingleFlight ⟨s.host, flights⟩) ∧
      ∀ key, s.host.inFlight.holds key = true ↔ ∃! x, x ∈ s.host.jobs ∧ Site.Flies key x.2 := by
  refine ⟨fun t hreach => (reaches_sound hempty hr hreach).toSingleFlight, fun s hjobs hreach => ?_⟩
  obtain ⟨flights, htraffic, hcarries⟩ := Site.reaches_traffic hempty hjobs hr hreach
  exact ⟨⟨flights, htraffic, hcarries.sound.toSingleFlight⟩, hcarries.holds_iff⟩

/-! ## A run that is cancelled -/

/-- A host of the usual runner, with the scope of a caller. -/
def helloHost : Host Framer MemoryStore where
  runner := .usual { appName := "app" } Runner.helloUser
  engine := fun _ _ => {}
  scopes := (Scopes.background {}).2

/-- The host once the user has said hello. -/
def helloAdmitted : Host Framer MemoryStore :=
  match helloHost.run { id := 0 } Runner.helloRequest with
  | .ok (_, h) => h
  | .error _ => helloHost

/-- The session of the user. -/
def helloKey : SessionKey := ⟨"app", "user", "thread"⟩

/-- The run of the user. -/
def helloFlight : Flight Framer where
  key := helloKey
  scope := { id := 1 }
  stream := 0
  start := .ofPlan (Runner.usualPlan Runner.helloRequest "user"
    ⟨.user "hello", "m-1", .user Runner.hello⟩) { appName := "app" } false

/-- The user has said hello and has cancelled the run. -/
def helloCancelled : Traffic Framer MemoryStore := ⟨helloAdmitted.cancel 1, [helloFlight]⟩

/-- The run has noticed, and has ended its scope. -/
def helloEnded : Traffic Framer MemoryStore where
  host := helloCancelled.host.perform helloKey { id := 1 } 0 .endScope
  flights := [(helloFlight.replied Run.quiet .refused).acted .endScope [.release, .close]]

/-- The run has released its place. -/
def helloReleased : Traffic Framer MemoryStore where
  host := helloEnded.host.perform helloKey { id := 1 } 0 .release
  flights := [((helloFlight.replied Run.quiet .refused).acted .endScope [.release, .close]).acted
    .release [.close]]

theorem hello_cancelled : Reaches ⟨helloHost, []⟩ helloCancelled := by
  have hrun : helloHost.run { id := 0 } Runner.helloRequest = .ok (0, helloAdmitted) := rfl
  have hstart : Step ⟨helloHost, []⟩ ⟨helloAdmitted, [helloFlight]⟩ :=
    .start hrun rfl (by decide) fun _ h => absurd h List.not_mem_nil
  have hcancel : helloAdmitted.cancelRun { id := 0 } Runner.helloRequest
      = .ok (helloAdmitted.cancel 1) := rfl
  exact (Relation.ReflTransGen.single hstart).tail (.cancel hcancel)

theorem hello_ended : Reaches helloCancelled helloEnded := by
  have hrefused : Step helloCancelled
      ⟨helloCancelled.host, [helloFlight.replied Run.quiet .refused]⟩ :=
    .reply (t := helloCancelled) (i := 0) (f := helloFlight) rfl rfl Run.quiet .refused
  have hended : Step ⟨helloCancelled.host, [helloFlight.replied Run.quiet .refused]⟩ helloEnded :=
    .act (t := ⟨_, [_]⟩) (i := 0) (f := helloFlight.replied Run.quiet .refused) (a := .endScope)
      rfl rfl
  exact (Relation.ReflTransGen.single hrefused).tail hended

theorem hello_released : Step helloEnded helloReleased :=
  .act (t := helloEnded) (i := 0)
    (f := (helloFlight.replied Run.quiet .refused).acted .endScope [.release, .close])
    (a := .release) rfl rfl

/-- A client has made a scope of its own and says hello in it. -/
def helloSite : Site Framer MemoryStore where
  host :=
    match helloHost.background.2.run helloHost.background.1 Runner.helloRequest with
    | .ok (_, h) => h
    | .error _ => helloHost
  clients := [1]

/-- The client has read the start and the end of the run. -/
def helloRead : Site Framer MemoryStore where
  host := ((helloSite.host.read 0 0).2.read 0 0).2
  clients := [1]

theorem hello_site : Site.Reaches ⟨helloHost, []⟩ helloSite := by
  have hrun : helloHost.background.2.run helloHost.background.1 Runner.helloRequest
      = .ok (0, helloSite.host) := rfl
  exact .head (.make .background) (.single (.run List.mem_cons_self hrun))

theorem hello_read : Site.Reaches helloSite helloRead :=
  (Site.reaches_read 0 0 helloSite).trans
    (Site.reaches_read 0 0 ⟨(helloSite.host.read 0 0).2, [1]⟩)

/-- The user says hello and cancels the run, which keeps its place: a second request is refused.
The run notices, ends its scope and releases its place.  Its stream is not closed yet.  A client
that says hello and reads has one run among the jobs, and none once it has read the end. -/
theorem singleFlight_hello :
    helloCancelled.SingleFlight ∧ helloCancelled.host.inFlight.holds helloKey = true ∧
      helloCancelled.host.run { id := 0 } Runner.helloRequest = .error .alreadyExists ∧
      helloReleased.SingleFlight ∧ helloReleased.host.inFlight.holds helloKey = false ∧
      (helloReleased.host.stream 0).writing = true ∧
      (∃! x, x ∈ helloSite.host.jobs ∧ Site.Flies helloKey x.2) ∧
      (helloRead.host.read 0 0).1 = .closed ∧
      ¬∃! x, x ∈ helloRead.host.jobs ∧ Site.Flies helloKey x.2 := by
  have hr : helloHost.scopes.Rooted :=
    (Scopes.extends_background {}).rooted fun _ _ _ h => nomatch h
  obtain ⟨htraffic, hsite⟩ := singleFlight (h := helloHost) rfl hr
  have hread : helloRead.host.inFlight.holds helloKey = false := by decide +kernel
  refine ⟨htraffic _ hello_cancelled, rfl, rfl,
    htraffic _ ((hello_cancelled.trans hello_ended).tail hello_released), rfl, rfl, ?_, ?_, ?_⟩
  · exact ((hsite helloSite rfl hello_site).2 helloKey).1 (by decide +kernel)
  · decide +kernel
  · intro hjob
    have hholds := ((hsite helloRead rfl (hello_site.trans hello_read)).2 helloKey).2 hjob
    rw [hread] at hholds
    cases hholds

end Traffic

end AgentStream
