/-
# Hosts that serve clients

Clients make scopes and end them, start runs and snapshots, cancel runs, read streams and leave;
jobs take turns, and time passes.  All that happens so on a host, in whatever order, is traffic.  So
the table of runs in flight says which sessions have a run among the jobs that is not over, and no
session has two.

* `Site`, `Site.Step` : a host with the scopes that its clients hold, and what may happen to it;
* `Site.Carries` : the jobs of a site are flights, and its clients are apart from them;
* `Site.reaches_traffic` : what happens on a site is traffic;
* `Site.Carries.holds_iff` : a session has a run in flight if one among the jobs is not over.
-/
import Mathlib.Logic.ExistsUnique
import AgentStream.Host.Clock
import AgentStream.Proofs.Host.Turns

namespace AgentStream

variable {τ σ : Type}

/-! ## Sites -/

/-- A host with the scopes that its clients hold. -/
structure Site (τ σ : Type) where
  host : Host τ σ
  clients : List Nat := []

namespace Site

/-- A client makes a scope: one that lies below none, or one that lies below a scope that a client
holds. -/
inductive Makes (h : Host τ σ) (clients : List Nat) : Nat → Host τ σ → Prop
  | background : Makes h clients h.background.1.id h.background.2
  | detached (s : Scope) : Makes h clients (h.detached s).1.id (h.detached s).2
  | child {s : Scope} (held : s.id ∈ clients) : Makes h clients (h.child s).1.id (h.child s).2
  | withDeadline {s : Scope} (held : s.id ∈ clients) (deadline : Nat) :
      Makes h clients (h.withDeadline s deadline).1.id (h.withDeadline s deadline).2

/-- What may happen next. -/
inductive Step [Translator τ] [LogStore σ] : Site τ σ → Site τ σ → Prop
  /-- A client makes a scope. -/
  | make {s : Site τ σ} {scope : Nat} {host : Host τ σ} (made : Makes s.host s.clients scope host) :
      Step s ⟨host, scope :: s.clients⟩
  /-- A client ends a scope that clients hold. -/
  | cancel {s : Site τ σ} {scope : Nat} (held : scope ∈ s.clients) :
      Step s ⟨s.host.cancel scope, s.clients⟩
  /-- A client starts a run, in a scope that clients hold. -/
  | run {s : Site τ σ} {caller : Scope} {request : Request} {stream : Nat} {host : Host τ σ}
      (held : caller.id ∈ s.clients) (started : s.host.run caller request = .ok (stream, host)) :
      Step s ⟨host, s.clients⟩
  /-- A client starts a snapshot. -/
  | snapshot {s : Site τ σ} {caller : Scope} {request : Request} {stream : Nat} {host : Host τ σ}
      (held : caller.id ∈ s.clients)
      (started : s.host.snapshot caller request = .ok (stream, host)) : Step s ⟨host, s.clients⟩
  /-- A client cancels the run of a session. -/
  | cancelRun {s : Site τ σ} {caller : Scope} {request : Request} {host : Host τ σ}
      (cancelled : s.host.cancelRun caller request = .ok host) : Step s ⟨host, s.clients⟩
  /-- A client takes an event from a stream. -/
  | take {s : Site τ σ} {stream : Nat} {e : Event} {host : Host τ σ}
      (taken : s.host.take? stream = some (e, host)) : Step s ⟨host, s.clients⟩
  /-- A client leaves a stream. -/
  | drop {s : Site τ σ} (stream : Nat) : Step s ⟨s.host.drop stream, s.clients⟩
  /-- Time passes. -/
  | elapse {s : Site τ σ} (moment : Nat) : Step s ⟨s.host.elapse moment, s.clients⟩
  /-- A job takes a turn. -/
  | turn {s : Site τ σ} {host : Host τ σ} (turned : s.host.turn? = some host) :
      Step s ⟨host, s.clients⟩

/-- What may have happened: any number of steps. -/
def Reaches [Translator τ] [LogStore σ] : Site τ σ → Site τ σ → Prop := Relation.ReflTransGen Step

/-- The jobs of a site are flights, and no client holds the scope of one or a scope below it. -/
structure Carries [Translator τ] (s : Site τ σ) (flights : List (Flight τ)) : Prop where
  sound : Traffic.Sound ⟨s.host, flights⟩
  staffed : Traffic.Staffed ⟨s.host, flights⟩
  known : ∀ c ∈ s.clients, c < s.host.scopes.nodes.length
  free : ∀ c ∈ s.clients, ∀ f ∈ flights, ¬s.host.scopes.Under f.scope.id c

/-! ## What clients do -/

section Clients

variable {h h' : Host τ σ} {clients : List Nat} {scope : Nat}

/-- A scope that a client makes lies at most below what lies above the scopes that clients hold. -/
theorem Makes.derives (hm : Makes h clients scope h') (hr : h.scopes.Rooted)
    (hk : ∀ c ∈ clients, c < h.scopes.nodes.length) :
    ∃ caller, h.scopes.Derives caller h'.scopes scope ∧
      (caller ∈ clients ∨ h.scopes.nodes.length ≤ caller) := by
  cases hm with
  | background =>
    exact ⟨_, Scopes.derives_background h.scopes.nodes.length hr, .inr (Nat.le_refl _)⟩
  | detached s => exact ⟨h.scopes.nodes.length, Scopes.derives_detached hr s, .inr (Nat.le_refl _)⟩
  | @child s held => exact ⟨s.id, Scopes.derives_child hr (hk s.id held), .inl held⟩
  | @withDeadline s held deadline =>
    exact ⟨s.id, (h.scopeFor_withDeadline s deadline).derives hr (hk s.id held), .inl held⟩

variable [Translator τ] {flights : List (Flight τ)}

/-- Scopes are made beside the flights. -/
theorem Makes.beside (hm : Makes h clients scope h')
    (hk : ∀ c ∈ clients, c < h.scopes.nodes.length) : Traffic.Beside flights h h' := by
  cases hm with
  | background => exact .of_eq rfl (Scopes.extends_background h.scopes) rfl rfl rfl
  | detached s => exact .detached flights h s
  | @child s held => exact .child flights h (hk s.id held)
  | @withDeadline s held deadline => exact .withDeadline flights h (hk s.id held) deadline

end Clients

variable [Translator τ] {s s' : Site τ σ} {h : Host τ σ} {flights flights' : List (Flight τ)}

/-! ## Steps -/

/-- A site goes on without a new flight. -/
theorem Carries.goes (hc : s.Carries flights)
    (hg : Traffic.Goes ⟨s.host, flights⟩ ⟨h, flights'⟩) (ht : Traffic.Staffed ⟨h, flights'⟩) :
    Carries ⟨h, s.clients⟩ flights' where
  sound := hc.sound.reaches hg.reaches
  staffed := ht
  known c hcl := hg.scopes.lt (hc.known c hcl)
  free c hcl f hf := by
    have hmem : f.scope ∈ flights.map Flight.scope := hg.flights ▸ List.mem_map_of_mem hf
    obtain ⟨g, hgm, hscope⟩ := List.mem_map.1 hmem
    rw [hg.scopes.under_iff hc.sound.rooted (hc.known c hcl), ← hscope]
    exact hc.free c hcl g hgm

/-- Something happens beside the flights. -/
theorem Carries.beside (hc : s.Carries flights) (hb : Traffic.Beside flights s.host h) :
    Traffic.Reaches ⟨s.host, flights⟩ ⟨h, flights⟩ ∧ Carries ⟨h, s.clients⟩ flights :=
  have hg : Traffic.Goes ⟨s.host, flights⟩ ⟨h, flights⟩ := .elsewhere hb.elsewhere
  ⟨hg.reaches, hc.goes hg (hb.staffed hc.staffed)⟩

/-- A client makes a scope. -/
theorem Carries.made (hc : s.Carries flights) {scope : Nat}
    (hm : Makes s.host s.clients scope h) : Carries ⟨h, scope :: s.clients⟩ flights := by
  obtain ⟨-, hcarries⟩ := hc.beside (hm.beside hc.known)
  obtain ⟨caller, hd, hcaller⟩ := hm.derives hc.sound.rooted hc.known
  refine ⟨hcarries.sound, hcarries.staffed, List.forall_mem_cons.2 ⟨hd.known, hcarries.known⟩,
    List.forall_mem_cons.2 ⟨fun f hf hu => ?_, hcarries.free⟩⟩
  obtain ⟨i, hi⟩ := List.mem_iff_getElem?.1 hf
  have hlt := hc.sound.scope i f hi
  have habove := hd.above f.scope.id hlt hu
  rcases hcaller with hheld | hunknown
  · exact hc.free caller hheld f hf habove
  · exact absurd (habove.known hlt) (Nat.not_lt.2 hunknown)

/-- A client starts a run. -/
theorem Carries.started (hc : s.Carries flights) {caller : Scope} {request : Request}
    {stream : Nat} (held : caller.id ∈ s.clients)
    (hrun : s.host.run caller request = .ok (stream, h)) :
    ∃ flights', Traffic.Reaches ⟨s.host, flights⟩ ⟨h, flights'⟩ ∧
      Carries ⟨h, s.clients⟩ flights' := by
  have hr := hc.sound.rooted
  have hknown := hc.known caller.id held
  obtain ⟨plan, scope, -, -, hs⟩ := Host.run_eq_ok hrun
  obtain ⟨job, hlaunched⟩ := hs.launched
  have hstep : Traffic.Step ⟨s.host, flights⟩ ⟨h, flights ++ [_]⟩ :=
    .start hrun hlaunched hknown (hc.free caller.id held)
  have hsound := hc.sound.step hstep
  have hd := hs.derives hr hknown
  -- The jobs that the scope needs are launched beside the flights, and then the flight.
  have hb := (Traffic.Beside.freshId flights s.host).trans
    (Traffic.Beside.runScope flights s.host.freshId.2 hr hknown)
  have hstreams : (s.host.freshId.2.runScope caller).2.streams = s.host.streams :=
    (s.host.freshId.2.scopeFor_runScope caller).streams
  let f : Flight τ :=
    { key := plan.key s.host.runner.config.appName, scope, stream
      start := .ofPlan plan s.host.runner.config s.host.recorder.isSome }
  have hjobs : h.jobs = (s.host.freshId.2.runScope caller).2.jobs
      ++ [((s.host.freshId.2.runScope caller).2.nextJob, f.job .uncalled)] := hs.jobs
  have hlength : h.streams.length = (s.host.freshId.2.runScope caller).2.streams.length + 1 := by
    rw [hs.streams, hstreams, List.length_append]
    rfl
  have hstaffed := (hb.staffed hc.staffed).admitted (f := f) rfl hjobs hs.nextJob
    (hstreams ▸ hs.stream_eq) hlength
  refine ⟨_, .single hstep, hsound, hstaffed, fun c hcl => hd.tree.lt (hc.known c hcl),
    fun c hcl => List.forall_mem_append.2 ⟨fun f hf => ?_, List.forall_mem_singleton.2 ?_⟩⟩
  · rw [hd.tree.under_iff hr (hc.known c hcl)]
    exact hc.free c hcl f hf
  · -- The scope of the flight is younger than those that clients hold.
    intro hu
    have hle : scope.id ≤ c := hu.le (hd.tree.rooted hr)
    have hlt : c < scope.id := Nat.lt_of_lt_of_le (hc.known c hcl) hd.fresh
    exact absurd hle (Nat.not_le.2 hlt)

variable [LogStore σ]

/-- **Whatever happens on a site is traffic**, and keeps it a site. -/
theorem Carries.step (hc : s.Carries flights) (hstep : Step s s') :
    ∃ flights', Traffic.Reaches ⟨s.host, flights⟩ ⟨s'.host, flights'⟩ ∧ s'.Carries flights' := by
  cases hstep with
  | make made => exact ⟨flights, (hc.beside (made.beside hc.known)).1, hc.made made⟩
  | cancel held => exact ⟨flights, hc.beside (.cancel flights s.host _)⟩
  | run held started => exact hc.started held started
  | @snapshot caller request stream host held started =>
    obtain ⟨snapshot, rfl⟩ := Host.snapshot_eq_ok started
    have hchild : Traffic.Beside flights s.host (s.host.child caller).2 :=
      .child flights s.host (hc.known caller.id held)
    have hopen : ∀ f ∈ flights, f.stream < (s.host.child caller).2.streams.length := by
      intro f hf
      obtain ⟨i, hi⟩ := List.mem_iff_getElem?.1 hf
      exact hc.sound.stream i f hi
    exact ⟨flights, hc.beside (hchild.trans (.snapshot _ hopen snapshot _))⟩
  | cancelRun cancelled =>
    obtain ⟨key, scope, -, rfl⟩ := Host.cancelRun_eq_ok cancelled
    exact ⟨flights, hc.beside (.cancel flights s.host scope)⟩
  | @take stream e host taken =>
    unfold Host.take? at taken
    split at taken
    · cases taken
      have htaken : Traffic.Beside flights s.host
          (s.host.setStream stream fun s => { s with buffer := none }) :=
        .setStream (f := fun s => { s with buffer := none }) (fun _ => rfl) s.host stream
      exact ⟨flights, hc.beside (htaken.trans (.of_eq rfl (.refl _) rfl rfl rfl))⟩
    · cases taken
  | drop stream =>
    have hdropped : Traffic.Beside flights s.host
        (s.host.setStream stream fun s => { s with buffer := none, reading := false }) :=
      .setStream (f := fun s => { s with buffer := none, reading := false }) (fun _ => rfl) s.host
        stream
    exact ⟨flights, hc.beside (hdropped.trans (.of_eq rfl (.refl _) rfl rfl rfl))⟩
  | elapse moment => exact ⟨flights, hc.beside (.of_eq rfl (.refl _) rfl rfl rfl)⟩
  | turn turned =>
    obtain ⟨flights', hg, ht⟩ := Traffic.turn_goes hc.sound hc.staffed turned
    exact ⟨flights', hg.reaches, hc.goes hg ht⟩

/-- **What happens on a site is traffic**, whatever happens since a host had no jobs. -/
theorem reaches_traffic (hempty : h.inFlight = {}) (hjobs : h.jobs = [])
    (hr : h.scopes.Rooted) (hreach : Reaches ⟨h, []⟩ s) :
    ∃ flights, Traffic.Reaches ⟨h, []⟩ ⟨s.host, flights⟩ ∧ s.Carries flights := by
  induction hreach with
  | refl =>
    have hnone (x : Nat × Job τ) : x ∉ h.jobs := hjobs ▸ List.not_mem_nil
    refine ⟨[], .refl, Traffic.sound_nil hempty hr, ⟨⟨?_, ?_, ?_, ?_⟩, ?_, ?_, ?_⟩, ?_, ?_⟩
    · exact fun x hx => absurd hx (hnone x)
    · exact fun x hx => absurd hx (hnone x)
    · exact fun x hx => absurd hx (hnone x)
    · exact fun x hx => absurd hx (hnone x)
    · exact List.forall_mem_nil _
    · exact fun x hx => absurd hx (hnone x)
    · exact List.forall_mem_nil _
    · exact List.forall_mem_nil _
    · exact List.forall_mem_nil _
  | tail _ hstep ih =>
    obtain ⟨flights, hreach, hc⟩ := ih
    obtain ⟨flights', hreach', hc'⟩ := hc.step hstep
    exact ⟨flights', hreach.trans hreach', hc'⟩

/-! ## Turns and time -/

/-- Any number of turns. -/
theorem reaches_turns (n : Nat) (s : Site τ σ) : Reaches s ⟨Host.turns n s.host, s.clients⟩ := by
  induction n generalizing s with
  | zero => exact .refl
  | succ n ih =>
    rw [Host.turns]
    split
    · rename_i host hturn
      exact .head (.turn hturn) (ih ⟨host, s.clients⟩)
    · exact .refl

/-- The host goes on until a condition holds or a moment comes. -/
theorem reaches_advance (holds : Host τ σ → Bool) (moment n : Nat) (s : Site τ σ) :
    Reaches s ⟨s.host.advance holds moment n, s.clients⟩ := by
  induction n generalizing s with
  | zero => exact .refl
  | succ n ih =>
    rw [Host.advance]
    split
    · exact .refl
    · split
      · split
        · rename_i time _
          split
          · exact .head (.elapse time) (ih ⟨s.host.elapse time, s.clients⟩)
          · exact .single (.elapse moment)
        · exact .single (.elapse moment)
      · exact (reaches_turns Host.patience s).trans (ih ⟨s.host.settle, s.clients⟩)

/-- A client reads a stream, or gives up at a moment. -/
theorem reaches_read (stream moment : Nat) (s : Site τ σ) :
    Reaches s ⟨(s.host.read stream moment).2, s.clients⟩ := by
  have hadvance := reaches_advance
    (fun h => (h.stream stream).buffer.isSome || !(h.stream stream).writing) moment Host.patience s
  unfold Host.read
  simp only
  split
  · rename_i e host htaken
    exact hadvance.tail (.take htaken)
  · exact hadvance

/-! ## Runs in flight -/

omit [Translator τ] [LogStore σ] in
/-- A job is a run of a session that is not over. -/
def Flies (key : SessionKey) (job : Job τ) : Prop :=
  ∃ r scope stream feed, job = .run r key scope stream feed ∧ r.stage ≠ .closed

omit [LogStore σ] in
/-- A run that is not over is a flight that has not released its place. -/
theorem Carries.flight (hc : s.Carries flights) {x : Nat × Job τ} (hx : x ∈ s.host.jobs)
    {key : SessionKey} (hfly : Flies key x.2) :
    ∃ i f, Traffic.flight? ⟨s.host, flights⟩ i = some f ∧ f.key = key ∧ ¬f.Released ∧
      x.2.stream? = some f.stream := by
  obtain ⟨id, job⟩ := x
  obtain ⟨r, scope, stream, feed, rfl, hopen⟩ := hfly
  cases hc.staffed.accounted _ hx with
  | @run f flight =>
    obtain ⟨i, hi⟩ := List.mem_iff_getElem?.1 flight
    have hreleased := (hc.sound.flight i f hi).released_iff (hc.staffed.idle f flight)
    exact ⟨i, f, hi, rfl, fun h => hopen (hreleased.1 h), rfl⟩

omit [LogStore σ] in
/-- **A session has a run in flight if one among the jobs is not over**, and then only this one. -/
theorem Carries.holds_iff (hc : s.Carries flights) (key : SessionKey) :
    s.host.inFlight.holds key = true ↔ ∃! x, x ∈ s.host.jobs ∧ Flies key x.2 := by
  constructor
  · intro h
    obtain ⟨scope, hscope⟩ := Option.isSome_iff_exists.1 h
    obtain ⟨i, f, hi, rfl, -, hnot⟩ := (hc.sound.place key scope).1 hscope
    have hf : f ∈ flights := List.mem_of_getElem? hi
    have hopen : f.run.stage ≠ .closed := fun hclosed =>
      hnot (((hc.sound.flight i f hi).released_iff (hc.staffed.idle f hf)).2 hclosed)
    obtain ⟨id, feed, hx⟩ := hc.staffed.manned f hf hopen
    refine ⟨(id, f.job feed), ⟨hx, _, _, _, _, rfl, hopen⟩, fun y ⟨hy, hfly⟩ => ?_⟩
    obtain ⟨j, g, hj, hkey, hnot', hstream⟩ := hc.flight hy hfly
    obtain rfl : j = i := hc.sound.unique hj hi hkey hnot' hnot
    obtain rfl : g = f := Option.some.inj (hj.symm.trans hi)
    exact hc.staffed.orderly.own y hy _ hx g.stream hstream rfl
  · rintro ⟨x, ⟨hx, hfly⟩, -⟩
    obtain ⟨i, f, hi, rfl, hnot, -⟩ := hc.flight hx hfly
    exact Option.isSome_iff_exists.2
      ⟨f.scope.id, (hc.sound.place f.key f.scope.id).2 ⟨i, f, hi, rfl, rfl, hnot⟩⟩

end Site

end AgentStream
