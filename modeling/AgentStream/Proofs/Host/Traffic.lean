/-
# Runs that share a host

Requests are admitted, runs are cancelled, and the runs that were admitted go on step by step and
wind down, all at any time and in any order.  A run that was replied to does what is then to be
done one thing after the other, and anything may happen in between.  What a host does for its
clients and in the turns of its jobs is traffic (`Site.reaches_traffic`).

* `Flight` : a run that was admitted, with all that it was replied and has done;
* `Traffic` : a host with the runs that it has admitted so far;
* `Traffic.Step`, `Traffic.Reaches` : what may happen next, and what may have happened;
* `Traffic.Sound`, `Traffic.reaches_sound` : what holds at every time.
-/
import Mathlib.Logic.Relation
import AgentStream.Proofs.Host.Effects
import AgentStream.Proofs.Run.WindDown

namespace AgentStream

/-! ## Flights -/

/-- A run that was admitted. -/
structure Flight (τ : Type) where
  key : SessionKey
  scope : Scope
  stream : Nat
  /-- The run when it was admitted. -/
  start : Run τ
  /-- What it was replied since. -/
  replies : List (Moment × Reply) := []
  /-- What it has done besides. -/
  done : List Action := []
  /-- What it is still to do before it is replied to again. -/
  todo : List Action := []

namespace Flight

variable {τ : Type} [Translator τ]

/-- The run as it is now. -/
def run (f : Flight τ) : Run τ := f.start.after f.replies

/-- What the run has done to its stream and to its record. -/
def history (f : Flight τ) : List Deed := f.start.history f.replies

omit [Translator τ] in
/-- The run has released its place. -/
def Released (f : Flight τ) : Prop := .release ∈ f.done

/-- The run is replied to. -/
def replied (f : Flight τ) (m : Moment) (reply : Reply) : Flight τ :=
  { f with replies := f.replies ++ [(m, reply)], todo := (f.run.step m reply).1 }

omit [Translator τ] in
/-- The run has done the first thing that it was to do. -/
def acted (f : Flight τ) (a : Action) (rest : List Action) : Flight τ :=
  { f with done := f.done ++ [a], todo := rest }

omit [Translator τ] in
theorem mem_acted {f : Flight τ} {a b : Action} {rest : List Action} :
    b ∈ (f.acted a rest).done ↔ b ∈ f.done ∨ b = a := by
  rw [acted, List.mem_append, List.mem_singleton]

/-- What a run has done and is to do is what its replies ask for. -/
structure Sound (f : Flight τ) : Prop where
  start : ∃ p config hasRecorder, f.start = .ofPlan p config hasRecorder
  actions : f.done ++ f.todo = f.start.actions f.replies

variable {f : Flight τ}

/-- A flight that is replied to has then to do what its run says. -/
theorem Sound.replied (hf : f.Sound) (idle : f.todo = []) (m : Moment) (reply : Reply) :
    (f.replied m reply).Sound where
  start := hf.start
  actions := by
    have ha := hf.actions
    rw [idle, List.append_nil] at ha
    show f.done ++ (f.run.step m reply).1 = f.start.actions (f.replies ++ [(m, reply)])
    rw [Run.actions_append, ← ha, run, Run.actions, Run.actions, List.append_nil]

theorem Sound.acted {a : Action} {rest : List Action} (hf : f.Sound)
    (todo : f.todo = a :: rest) : (f.acted a rest).Sound where
  start := hf.start
  actions := by
    show f.done ++ [a] ++ rest = f.start.actions f.replies
    rw [← hf.actions, todo, List.append_assoc]
    rfl

/-- What a flight has done and is to do is what its run has to do besides. -/
theorem Sound.winds (hf : f.Sound) : f.run.Winds (f.done ++ f.todo) := by
  obtain ⟨p, config, hasRecorder, hstart⟩ := hf.start
  have hopen : f.start.stage ≠ .closed := by
    rw [hstart]
    exact Stage.noConfusion
  rw [hf.actions]
  exact Run.actions_winds hopen f.replies

/-- A flight that is to release its place has not done so. -/
theorem Sound.not_released {rest : List Action} (hf : f.Sound) (todo : f.todo = .release :: rest) :
    ¬f.Released := by
  obtain ⟨-, ⟨events, hdone⟩, -⟩ := (todo ▸ hf.winds).release
  intro h
  rw [Released, hdone, List.mem_append, List.mem_map] at h
  rcases h with ⟨e, -, he⟩ | h
  · cases he
  · cases List.mem_singleton.1 h

/-- A flight with nothing left to do has released its place if it is over. -/
theorem Sound.released_iff (hf : f.Sound) (idle : f.todo = []) :
    f.Released ↔ f.run.stage = .closed := by
  obtain ⟨events, hdone⟩ := hf.winds
  rw [idle, List.append_nil] at hdone
  rw [Released, hdone, List.mem_append]
  constructor
  · rintro (hmem | hmem)
    · obtain ⟨e, -, he⟩ := List.mem_map.1 hmem
      cases he
    · split at hmem
      · assumption
      · cases hmem
  · intro hclosed
    rw [if_pos hclosed]
    exact .inr (by decide)

end Flight

/-! ## Traffic -/

/-- A host with the runs that it has admitted so far. -/
structure Traffic (τ σ : Type) where
  host : Host τ σ
  flights : List (Flight τ) := []

namespace Traffic

variable {τ σ : Type}

/-- A flight by its number. -/
def flight? (t : Traffic τ σ) (i : Nat) : Option (Flight τ) := t.flights[i]?

/-- Whatever else happens on a host: other scopes are derived and scopes end, time passes, clients
read, the recorder and other jobs go on.  The table of runs in flight and the writing ends of the
streams of runs stay as they are. -/
structure Elsewhere (flights : List (Flight τ)) (h h' : Host τ σ) : Prop where
  inFlight : h'.inFlight = h.inFlight
  scopes : h.scopes.Extends h'.scopes
  streams : h.streams.length ≤ h'.streams.length
  writing : ∀ f ∈ flights, (h'.stream f.stream).writing = (h.stream f.stream).writing

/-- What may happen next. -/
inductive Step [Translator τ] : Traffic τ σ → Traffic τ σ → Prop
  /-- A request is admitted.  The scope of its caller is neither the scope of a run nor derived
  from one. -/
  | start {t : Traffic τ σ} {caller : Scope} {request : Request} {host : Host τ σ} {job : Nat}
      {run : Run τ} {key : SessionKey} {scope : Scope} {stream : Nat} {feed : Feed}
      (admitted : t.host.run caller request = .ok (stream, host))
      (launched : host.jobs.getLast? = some (job, .run run key scope stream feed))
      (known : caller.id < t.host.scopes.nodes.length)
      (free : ∀ f ∈ t.flights, ¬t.host.scopes.Under f.scope.id caller.id) :
      Step t ⟨host, t.flights ++ [{ key, scope, stream, start := run }]⟩
  /-- The run of a session is cancelled. -/
  | cancel {t : Traffic τ σ} {caller : Scope} {request : Request} {host : Host τ σ}
      (cancelled : t.host.cancelRun caller request = .ok host) : Step t ⟨host, t.flights⟩
  /-- A run with nothing left to do is replied to. -/
  | reply {t : Traffic τ σ} {i : Nat} {f : Flight τ} (flight : t.flight? i = some f)
      (idle : f.todo = []) (m : Moment) (reply : Reply) :
      Step t ⟨t.host, t.flights.set i (f.replied m reply)⟩
  /-- A run does one thing. -/
  | act {t : Traffic τ σ} {i : Nat} {f : Flight τ} {a : Action} {rest : List Action}
      (flight : t.flight? i = some f) (todo : f.todo = a :: rest) :
      Step t ⟨t.host.perform f.key f.scope f.stream a, t.flights.set i (f.acted a rest)⟩
  /-- Something else happens. -/
  | elsewhere {t : Traffic τ σ} {host : Host τ σ} (h : Elsewhere t.flights t.host host) :
      Step t ⟨host, t.flights⟩

/-- What may have happened: any number of steps. -/
def Reaches [Translator τ] : Traffic τ σ → Traffic τ σ → Prop := Relation.ReflTransGen Step

/-! ## What holds at every time -/

/-- A flight of a session, in a scope, has not released its place. -/
def Flying (t : Traffic τ σ) (key : SessionKey) (scope : Nat) : Prop :=
  ∃ i f, t.flight? i = some f ∧ f.key = key ∧ f.scope.id = scope ∧ ¬f.Released

/-- What holds at every time: the flights are apart from each other, a stream is written until
its flight closes it, and the table holds the flights that have not released their place. -/
structure Sound [Translator τ] (t : Traffic τ σ) : Prop where
  rooted : t.host.scopes.Rooted
  flight : ∀ i f, t.flight? i = some f → f.Sound
  scope : ∀ i f, t.flight? i = some f → f.scope.id < t.host.scopes.nodes.length
  stream : ∀ i f, t.flight? i = some f → f.stream < t.host.streams.length
  writing : ∀ i f, t.flight? i = some f →
    ((t.host.stream f.stream).writing = true ↔ .close ∉ f.done)
  /-- No flight lies below the scope of another one, and no two share a stream. -/
  apart : ∀ i j f g, t.flight? i = some f → t.flight? j = some g → i ≠ j →
    ¬t.host.scopes.Under f.scope.id g.scope.id ∧ f.stream ≠ g.stream
  place : ∀ key scope, t.host.inFlight.scope? key = some scope ↔ t.Flying key scope

variable {t t' : Traffic τ σ} {host : Host τ σ} {i j : Nat} {f f' g : Flight τ}

theorem flight?_concat (t : Traffic τ σ) (host : Host τ σ) (g : Flight τ) (j : Nat) :
    flight? ⟨host, t.flights ++ [g]⟩ j = if j = t.flights.length then some g else t.flight? j := by
  unfold flight?
  rcases Nat.lt_trichotomy j t.flights.length with h | h | h
  · rw [if_neg (Nat.ne_of_lt h), List.getElem?_append_left h]
  · rw [if_pos h, h, List.getElem?_concat_length]
  · rw [if_neg (Nat.ne_of_gt h), List.getElem?_eq_none (Nat.le_of_lt h),
      List.getElem?_eq_none (by rw [List.length_append]; exact h)]

theorem flight?_set (hf : t.flight? i = some f) (host : Host τ σ) (g : Flight τ) (j : Nat) :
    flight? ⟨host, t.flights.set i g⟩ j = if j = i then some g else t.flight? j := by
  have hi : i < t.flights.length := (List.getElem?_eq_some_iff.1 hf).1
  unfold flight?
  rw [List.getElem?_set]
  by_cases h : j = i
  · rw [if_pos h, if_pos h.symm, if_pos hi]
  · rw [if_neg h, if_neg fun h' => h h'.symm]

theorem flight?_last (t : Traffic τ σ) : t.flight? t.flights.length = none :=
  List.getElem?_eq_none (Nat.le_refl _)

variable [Translator τ]

/-- Nothing else that happens on the host disturbs the flights. -/
theorem Sound.elsewhere (ht : t.Sound) (h : Elsewhere t.flights t.host host) :
    Sound ⟨host, t.flights⟩ where
  rooted := h.scopes.rooted ht.rooted
  flight := ht.flight
  scope i f hf := h.scopes.lt (ht.scope i f hf)
  stream i f hf := Nat.lt_of_lt_of_le (ht.stream i f hf) h.streams
  writing i f hf := by
    rw [h.writing f (List.mem_of_getElem? hf)]
    exact ht.writing i f hf
  apart i j f g hf hg hne := by
    rw [h.scopes.under_iff ht.rooted (ht.scope j g hg)]
    exact ht.apart i j f g hf hg hne
  place key scope := by
    rw [h.inFlight]
    exact ht.place key scope

omit [Translator τ] in
/-- Ending a scope leaves the table and the streams as they are. -/
theorem elsewhere_cancel (flights : List (Flight τ)) (h : Host τ σ) (scope : Nat) :
    Elsewhere flights h (h.cancel scope) := by
  obtain ⟨ready, waits, heq⟩ := h.cancel_eq scope
  rw [heq]
  exact ⟨rfl, Scopes.extends_finish h.scopes scope .canceled, Nat.le_refl _, fun _ _ => rfl⟩

/-! ## Flights that are admitted -/

omit [Translator τ] in
/-- What holds of all flights and of one more holds of all of them then. -/
theorem forall_concat {P : Flight τ → Prop} (hnew : P g)
    (hold : ∀ i f, t.flight? i = some f → P f) (i : Nat) (f : Flight τ)
    (hf : flight? ⟨host, t.flights ++ [g]⟩ i = some f) : P f := by
  rw [flight?_concat] at hf
  split at hf
  · cases hf
    exact hnew
  · exact hold i f hf

omit [Translator τ] in
theorem flying_concat (hg : ¬g.Released) (key : SessionKey) (scope : Nat) :
    Flying ⟨host, t.flights ++ [g]⟩ key scope ↔
      (key = g.key ∧ g.scope.id = scope) ∨ t.Flying key scope := by
  constructor
  · rintro ⟨i, f, hf, hkey, hscope, hr⟩
    rw [flight?_concat] at hf
    split at hf
    · cases hf
      exact .inl ⟨hkey.symm, hscope⟩
    · exact .inr ⟨i, f, hf, hkey, hscope, hr⟩
  · rintro (⟨hkey, hscope⟩ | ⟨i, f, hf, hrest⟩)
    · exact ⟨_, g, (flight?_concat t host g _).trans (if_pos rfl), hkey.symm, hscope, hg⟩
    · have hi : i ≠ t.flights.length := by
        rintro rfl
        rw [flight?_last] at hf
        cases hf
      exact ⟨i, f, by rw [flight?_concat, if_neg hi, hf], hrest⟩

/-- A flight of a session that had none takes one more place. -/
theorem Sound.place_concat (ht : t.Sound)
    (htable : host.inFlight = ⟨(g.key, g.scope.id) :: t.host.inFlight.runs⟩)
    (hnone : t.host.inFlight.scope? g.key = none) (hg : ¬g.Released) (key : SessionKey)
    (scope : Nat) :
    host.inFlight.scope? key = some scope ↔ Flying ⟨host, t.flights ++ [g]⟩ key scope := by
  rw [flying_concat hg, ← ht.place, htable, InFlight.scope?, lookup_cons_ite]
  by_cases hk : key = g.key
  · rw [if_pos hk, hk, hnone]
    simp
  · rw [if_neg hk]
    exact (or_iff_right fun h => hk h.1).symm

/-- A flight that is apart from all others may join them. -/
theorem Sound.apart_concat (ht : t.Sound) (hscopes : t.host.scopes.Extends host.scopes)
    (hfar : ∀ i f, t.flight? i = some f → f.stream < g.stream ∧
      ¬host.scopes.Under f.scope.id g.scope.id ∧ ¬host.scopes.Under g.scope.id f.scope.id)
    (i j : Nat) (f f' : Flight τ) (hf : flight? ⟨host, t.flights ++ [g]⟩ i = some f)
    (hf' : flight? ⟨host, t.flights ++ [g]⟩ j = some f') (hne : i ≠ j) :
    ¬host.scopes.Under f.scope.id f'.scope.id ∧ f.stream ≠ f'.stream := by
  rw [flight?_concat] at hf hf'
  split at hf <;> split at hf'
  · rename_i hi hj
    exact absurd (hi.trans hj.symm) hne
  · cases hf
    obtain ⟨hstream, -, hbelow⟩ := hfar j f' hf'
    exact ⟨hbelow, Nat.ne_of_gt hstream⟩
  · cases hf'
    obtain ⟨hstream, habove, -⟩ := hfar i f hf
    exact ⟨habove, Nat.ne_of_lt hstream⟩
  · rw [hscopes.under_iff ht.rooted (ht.scope j f' hf')]
    exact ht.apart i j f f' hf hf' hne

/-- Every flight has an earlier stream than a run that is started, and neither scope lies below
the other. -/
theorem Sound.far {caller scope : Scope} {plan : Plan τ} {stream : Nat} (ht : t.Sound)
    (hs : t.host.Starts caller plan scope stream host)
    (known : caller.id < t.host.scopes.nodes.length)
    (free : ∀ f ∈ t.flights, ¬t.host.scopes.Under f.scope.id caller.id)
    (hf : t.flight? i = some f) :
    f.stream < stream ∧ ¬host.scopes.Under f.scope.id scope.id ∧
      ¬host.scopes.Under scope.id f.scope.id := by
  have hd := hs.derives ht.rooted known
  have hscope := ht.scope i f hf
  refine ⟨hs.stream_eq ▸ ht.stream i f hf, fun hu => ?_, fun hu => ?_⟩
  · exact free f (List.mem_of_getElem? hf) (hd.above _ hscope hu)
  · have hle := hu.le (hd.tree.rooted ht.rooted)
    exact absurd hle (Nat.not_le.2 (Nat.lt_of_lt_of_le hscope hd.fresh))

/-- A flight that is admitted has a scope and a stream of its own. -/
theorem Sound.started {caller scope : Scope} {plan : Plan τ} {stream : Nat} (ht : t.Sound)
    (hs : t.host.Starts caller plan scope stream host)
    (hnone : t.host.inFlight.holds (plan.key t.host.runner.config.appName) = false)
    (known : caller.id < t.host.scopes.nodes.length)
    (free : ∀ f ∈ t.flights, ¬t.host.scopes.Under f.scope.id caller.id) :
    Sound ⟨host, t.flights ++ [{
      key := plan.key t.host.runner.config.appName, scope, stream,
      start := .ofPlan plan t.host.runner.config t.host.recorder.isSome }]⟩ := by
  have hd := hs.derives ht.rooted known
  have hlast : t.host.streams.length < host.streams.length := by
    rw [hs.length_streams]
    exact Nat.lt_succ_self _
  exact {
    rooted := hd.tree.rooted ht.rooted
    flight := forall_concat ⟨⟨plan, _, _, rfl⟩, rfl⟩ ht.flight
    scope := forall_concat hd.known fun i f hf => hd.tree.lt (ht.scope i f hf)
    stream := forall_concat (hs.stream_eq ▸ hlast) fun i f hf =>
      Nat.lt_trans (ht.stream i f hf) hlast
    writing := forall_concat (iff_of_true (congrArg Stream.writing hs.stream_new) List.not_mem_nil)
      fun i f hf => hs.stream_old (ht.stream i f hf) ▸ ht.writing i f hf
    apart := ht.apart_concat hd.tree fun i f hf => ht.far hs known free hf
    place := ht.place_concat hs.inFlight (InFlight.scope?_eq_none.2 hnone) List.not_mem_nil }

/-! ## Flights that go on -/

/-- A flight goes on: its place, its scope and its stream are the same. -/
structure GoesOn (f f' : Flight τ) : Prop where
  key : f'.key = f.key
  scope : f'.scope = f.scope
  stream : f'.stream = f.stream

/-- A flight goes on, its stream or its place change with it, and nothing else is disturbed. -/
theorem Sound.goesOn (ht : t.Sound) (hf : t.flight? i = some f) (hg : GoesOn f f')
    (hsound : f'.Sound) (hscopes : t.host.scopes.Extends host.scopes)
    (hstreams : t.host.streams.length ≤ host.streams.length)
    (hwriting : ∀ j g, flight? ⟨host, t.flights.set i f'⟩ j = some g →
      ((host.stream g.stream).writing = true ↔ .close ∉ g.done))
    (hplace : ∀ key scope, host.inFlight.scope? key = some scope ↔
      Flying ⟨host, t.flights.set i f'⟩ key scope) :
    Sound ⟨host, t.flights.set i f'⟩ := by
  -- Whatever stands in the list now went on from what stood there.
  have hback (j : Nat) (g : Flight τ) (h : flight? ⟨host, t.flights.set i f'⟩ j = some g) :
      ∃ g₀, t.flight? j = some g₀ ∧ GoesOn g₀ g ∧ (g₀.Sound → g.Sound) := by
    rw [flight?_set hf] at h
    split at h
    · rename_i hj
      cases h
      exact ⟨f, hj ▸ hf, hg, fun _ => hsound⟩
    · exact ⟨g, h, ⟨rfl, rfl, rfl⟩, id⟩
  refine ⟨hscopes.rooted ht.rooted, fun j g h => ?_, fun j g h => ?_, fun j g h => ?_, hwriting,
    fun j k g g' h h' hne => ?_, hplace⟩
  · obtain ⟨g₀, h₀, -, hs⟩ := hback j g h
    exact hs (ht.flight j g₀ h₀)
  · obtain ⟨g₀, h₀, hgo, -⟩ := hback j g h
    rw [hgo.scope]
    exact hscopes.lt (ht.scope j g₀ h₀)
  · obtain ⟨g₀, h₀, hgo, -⟩ := hback j g h
    rw [hgo.stream]
    exact Nat.lt_of_lt_of_le (ht.stream j g₀ h₀) hstreams
  · obtain ⟨g₀, h₀, hgo, -⟩ := hback j g h
    obtain ⟨g₁, h₁, hgo', -⟩ := hback k g' h'
    rw [hgo.scope, hgo'.scope, hgo.stream, hgo'.stream,
      hscopes.under_iff ht.rooted (ht.scope k g₁ h₁)]
    exact ht.apart j k g₀ g₁ h₀ h₁ hne

/-- At most one flight of a session has not released its place. -/
theorem Sound.unique (ht : t.Sound) (hf : t.flight? i = some f) (hg : t.flight? j = some g)
    (hkey : f.key = g.key) (hr : ¬f.Released) (hr' : ¬g.Released) : i = j := by
  have hf' := (ht.place f.key f.scope.id).2 ⟨i, f, hf, rfl, rfl, hr⟩
  have hg' := (ht.place f.key g.scope.id).2 ⟨j, g, hg, hkey.symm, rfl, hr'⟩
  have hscope : f.scope.id = g.scope.id := Option.some.inj (hf'.symm.trans hg')
  refine Decidable.byContradiction fun hne => ?_
  exact (ht.apart i j f g hf hg hne).1 (hscope ▸ .self)

omit [Translator τ] in
theorem flying_set (hf : t.flight? i = some f) (hg : GoesOn f f')
    (hr : f'.Released ↔ f.Released) (key : SessionKey) (scope : Nat) :
    Flying ⟨host, t.flights.set i f'⟩ key scope ↔ t.Flying key scope := by
  constructor
  · rintro ⟨j, g, h, hkey, hscope, hnot⟩
    rw [flight?_set hf] at h
    split at h
    · cases h
      rw [hg.key] at hkey
      rw [hg.scope] at hscope
      exact ⟨i, f, hf, hkey, hscope, fun h => hnot (hr.2 h)⟩
    · exact ⟨j, g, h, hkey, hscope, hnot⟩
  · rintro ⟨j, g, h, hkey, hscope, hnot⟩
    by_cases hj : j = i
    · obtain rfl : f = g := Option.some.inj (hf.symm.trans (hj ▸ h))
      refine ⟨i, f', ?_, hg.key.trans hkey, ?_, fun h => hnot (hr.1 h)⟩
      · rw [flight?_set hf, if_pos rfl]
      · rw [hg.scope, hscope]
    · exact ⟨j, g, by rw [flight?_set hf, if_neg hj, h], hkey, hscope, hnot⟩

/-- A stream is written as before if its flight goes on and does not close it. -/
theorem Sound.writing_set (ht : t.Sound) (hf : t.flight? i = some f) (hg : GoesOn f f')
    (hc : Action.close ∈ f'.done ↔ .close ∈ f.done) (j : Nat) (g : Flight τ)
    (h : flight? ⟨host, t.flights.set i f'⟩ j = some g) :
    (t.host.stream g.stream).writing = true ↔ .close ∉ g.done := by
  rw [flight?_set hf] at h
  split at h
  · cases h
    rw [hg.stream, hc]
    exact ht.writing i f hf
  · exact ht.writing j g h

/-- A flight goes on that neither releases its place nor closes its stream. -/
theorem Sound.quiet (ht : t.Sound) (hf : t.flight? i = some f) (hg : GoesOn f f')
    (hsound : f'.Sound) (hr : f'.Released ↔ f.Released)
    (hc : Action.close ∈ f'.done ↔ .close ∈ f.done) :
    Sound ⟨t.host, t.flights.set i f'⟩ := by
  refine ht.goesOn hf hg hsound (.refl _) (Nat.le_refl _) (ht.writing_set hf hg hc)
    fun key scope => ?_
  rw [flying_set hf hg hr]
  exact ht.place key scope

theorem Sound.replied (ht : t.Sound) (hf : t.flight? i = some f) (idle : f.todo = []) (m : Moment)
    (reply : Reply) : Sound ⟨t.host, t.flights.set i (f.replied m reply)⟩ :=
  ht.quiet hf ⟨rfl, rfl, rfl⟩ ((ht.flight i f hf).replied idle m reply) Iff.rfl Iff.rfl

/-! ## Steps -/

/-- A flight that releases its place leaves those of the others as they are. -/
theorem Sound.place_release {rest : List Action} (ht : t.Sound) (hf : t.flight? i = some f)
    (hnot : ¬f.Released) (key : SessionKey) (scope : Nat) :
    (t.host.inFlight.release f.key).scope? key = some scope ↔
      Flying ⟨host, t.flights.set i (f.acted .release rest)⟩ key scope := by
  rw [InFlight.scope?, InFlight.release, lookup_filter_ne]
  constructor
  · intro h
    split at h
    · cases h
    · rename_i hk
      obtain ⟨j, g, hj, hkey, hrest⟩ := (ht.place key scope).1 h
      have hne : j ≠ i := by
        rintro rfl
        obtain rfl : f = g := Option.some.inj (hf.symm.trans hj)
        exact hk hkey.symm
      exact ⟨j, g, by rw [flight?_set hf, if_neg hne, hj], hkey, hrest⟩
  · rintro ⟨j, g, hj, hkey, hscope, hr⟩
    rw [flight?_set hf] at hj
    split at hj
    · cases hj
      exact absurd (Flight.mem_acted.2 (.inr rfl)) hr
    · rename_i hne
      have hplace := (ht.place key scope).2 ⟨j, g, hj, hkey, hscope, hr⟩
      rw [if_neg fun hk => hne (ht.unique hj hf (hkey.trans hk) hr hnot)]
      exact hplace

/-- A flight that closes its stream leaves those of the others as they are. -/
theorem Sound.writing_close {rest : List Action} (ht : t.Sound) (hf : t.flight? i = some f)
    (j : Nat) (g : Flight τ)
    (h : flight? ⟨host, t.flights.set i (f.acted .close rest)⟩ j = some g) :
    ((t.host.closeStream f.stream).stream g.stream).writing = true ↔ .close ∉ g.done := by
  rw [Host.writing_closeStream]
  rw [flight?_set hf] at h
  split at h
  · cases h
    rw [if_pos (show (f.acted .close rest).stream = f.stream from rfl)]
    exact iff_of_false nofun fun h => h (Flight.mem_acted.2 (.inr rfl))
  · rename_i hj
    rw [if_neg (ht.apart j i g f h hf hj).2]
    exact ht.writing j g h

/-- What a flight does besides. -/
theorem Sound.acted {a : Action} {rest : List Action} (ht : t.Sound)
    (hf : t.flight? i = some f) (todo : f.todo = a :: rest) :
    Sound ⟨t.host.perform f.key f.scope f.stream a, t.flights.set i (f.acted a rest)⟩ := by
  have hg : GoesOn f (f.acted a rest) := ⟨rfl, rfl, rfl⟩
  have hsound := (ht.flight i f hf).acted todo
  have hother (b : Action) (hb : b ≠ a) : b ∈ (f.acted a rest).done ↔ b ∈ f.done :=
    Flight.mem_acted.trans (or_iff_left hb)
  cases a with
  | deliver e =>
    have he : Elsewhere t.flights t.host (t.host.put f.stream e) :=
      ⟨rfl, .refl _, Nat.le_of_eq (List.length_modify ..).symm,
        fun g _ => t.host.writing_put f.stream e g.stream⟩
    exact (ht.elsewhere he).quiet hf hg hsound (hother _ nofun) (hother _ nofun)
  | endScope =>
    have he := elsewhere_cancel t.flights t.host f.scope.id
    exact (ht.elsewhere he).quiet hf hg hsound (hother _ nofun) (hother _ nofun)
  | release =>
    have hnot : ¬f.Released := (ht.flight i f hf).not_released todo
    exact ht.goesOn hf hg hsound (.refl _) (Nat.le_refl _)
      (ht.writing_set hf hg (hother .close nofun)) (ht.place_release hf hnot)
  | close =>
    refine ht.goesOn hf hg hsound (.refl _) (Nat.le_of_eq (List.length_modify ..).symm)
      (ht.writing_close hf) fun key scope => ?_
    rw [flying_set hf hg (hother _ nofun)]
    exact ht.place key scope

/-- What holds at every time is kept by every step. -/
theorem Sound.step (ht : t.Sound) (h : Step t t') : t'.Sound := by
  cases h with
  | start admitted launched known free =>
    obtain ⟨plan, scope, -, hnone, hs⟩ := Host.run_eq_ok admitted
    obtain ⟨job, hjob⟩ := hs.launched
    rw [launched] at hjob
    cases hjob
    exact ht.started hs hnone known free
  | cancel cancelled =>
    obtain ⟨key, scope, -, rfl⟩ := Host.cancelRun_eq_ok cancelled
    exact ht.elsewhere (elsewhere_cancel t.flights t.host scope)
  | reply flight idle m reply => exact ht.replied flight idle m reply
  | act flight todo => exact ht.acted flight todo
  | elsewhere h => exact ht.elsewhere h

/-- It holds before any run is admitted. -/
theorem sound_nil {h : Host τ σ} (hempty : h.inFlight = {}) (hr : h.scopes.Rooted) :
    Sound ⟨h, []⟩ := by
  have hnone (i : Nat) (f : Flight τ) : flight? (⟨h, []⟩ : Traffic τ σ) i ≠ some f := by
    rw [flight?, List.getElem?_nil]
    exact fun h => nomatch h
  refine ⟨hr, fun i f hf => absurd hf (hnone i f), fun i f hf => absurd hf (hnone i f),
    fun i f hf => absurd hf (hnone i f), fun i f hf => absurd hf (hnone i f),
    fun i _ f _ hf => absurd hf (hnone i f), fun key scope => ?_⟩
  rw [hempty]
  exact iff_of_false nofun fun ⟨i, f, hf, _⟩ => hnone i f hf

theorem Sound.reaches (ht : t.Sound) (hreach : Reaches t t') : t'.Sound := by
  induction hreach with
  | refl => exact ht
  | tail _ hstep ih => exact ih.step hstep

/-- **What holds at every time**, whatever has happened since a host had no runs. -/
theorem reaches_sound {h : Host τ σ} (hempty : h.inFlight = {}) (hr : h.scopes.Rooted)
    (hreach : Reaches ⟨h, []⟩ t) : t.Sound :=
  (sound_nil hempty hr).reaches hreach

end Traffic

end AgentStream
