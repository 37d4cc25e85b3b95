/-
# What bounds the scope of a run

Scopes are derived from each other in any way, cancelled and watched while time passes.  What bounds
a scope is what its derivation says: the scopes above it, as far as none of them is detached, and
the nearest of the deadlines that were set on the way.  The scope of a run is bounded by its caller
as far as the runner says so, by the deadline of its caller and by the duration of a run.

* `Derivation`, `Holding` : the ways to derive a scope, and what they say of its bounds;
* `Grove`, `Grove.Step` : the scopes that were derived on a host, and what may happen to them;
* `Grove.Sound`, `Grove.Sound.reaches` : every scope is bounded as its derivation says;
* `Grove.runScope_bounded` : what bounds the scope of a run.
-/
import Mathlib.Logic.Relation
import AgentStream.Framing
import AgentStream.Host.Clock
import AgentStream.Proofs.Host.NewScopes

namespace AgentStream

variable {τ σ : Type}

/-! ## Derivations -/

/-- A way to derive a scope from another one. -/
inductive Derivation
  | child
  | detached
  | withDeadline (deadline : Nat)
  | withTimeout (ms : Nat)
  | withValue (name : String) (value : Json)
  /-- The scope of a run for a caller. -/
  | run

/-- Derive a scope on a host. -/
def Derivation.apply (h : Host τ σ) (s : Scope) : Derivation → Scope × Host τ σ
  | child => h.child s
  | detached => h.detached s
  | withDeadline deadline => h.withDeadline s deadline
  | withTimeout ms => h.withDeadline s (h.now + ms)
  | withValue name value => (s.withValue name value, h)
  | run => h.runScope s

/-- A scope that is held, with what its derivation says of its bounds. -/
structure Holding where
  scope : Scope
  /-- The scope itself and those that it was derived from, up to the nearest detached one. -/
  above : List Nat
  /-- The nearest of the deadlines that were set since then. -/
  deadline : Option Nat
deriving DecidableEq

/-- The scopes above a derived scope, besides itself: those above the one that it is derived from,
unless it is detached.  A run is detached if the runner says so. -/
def Derivation.above (config : Config) (above : List Nat) : Derivation → List Nat
  | detached => []
  | run => if config.cancelOnContextDone then above else []
  | _ => above

/-- The deadline of a derived scope: a detached one has none, and a run keeps that of its caller in
any case. -/
def Derivation.deadline (config : Config) (now : Nat) (deadline : Option Nat) :
    Derivation → Option Nat
  | detached => none
  | withDeadline d => Host.earlier deadline (some d)
  | withTimeout ms => Host.earlier deadline (some (now + ms))
  | run => Host.earlier deadline (config.timeout.map (now + ·))
  | _ => deadline

/-- Derive a scope from one that is held.  A value makes no new scope. -/
def Holding.derive (x : Holding) (h : Host τ σ) (d : Derivation) : Holding where
  scope := (d.apply h x.scope).1
  above :=
    match d with
    | .withValue .. => x.above
    | d => (d.apply h x.scope).1.id :: d.above h.runner.config x.above
  deadline := d.deadline h.runner.config h.now x.deadline

/-! ## Groves -/

/-- A host with the scopes that were derived on it, and the numbers of those that were
cancelled. -/
structure Grove (τ σ : Type) where
  host : Host τ σ
  held : List Holding := []
  cancelled : List Nat := []

namespace Grove

/-- Derive a scope from a held one, and hold it too. -/
def derive (w : Grove τ σ) (x : Holding) (d : Derivation) : Grove τ σ where
  host := (d.apply w.host x.scope).2
  held := x.derive w.host d :: w.held
  cancelled := w.cancelled

/-- Hold a new scope that is derived from none. -/
def background (w : Grove τ σ) : Grove τ σ where
  host := w.host.background.2
  held := ⟨w.host.background.1, [w.host.background.1.id], none⟩ :: w.held
  cancelled := w.cancelled

/-- Cancel a held scope. -/
def cancel (w : Grove τ σ) (x : Holding) : Grove τ σ where
  host := w.host.cancel x.scope.id
  held := w.held
  cancelled := x.scope.id :: w.cancelled

/-- What may happen next. -/
inductive Step [Translator τ] [LogStore σ] : Grove τ σ → Grove τ σ → Prop
  | background {w : Grove τ σ} : Step w w.background
  | derive {w : Grove τ σ} {x : Holding} (held : x ∈ w.held) (d : Derivation) :
      Step w (w.derive x d)
  | cancel {w : Grove τ σ} {x : Holding} (held : x ∈ w.held) : Step w (w.cancel x)
  /-- Time passes. -/
  | elapse {w : Grove τ σ} {moment : Nat} (later : w.host.now ≤ moment) :
      Step w { w with host := w.host.elapse moment }
  /-- A job takes a turn; it watches over a deadline. -/
  | turn {w : Grove τ σ} {host : Host τ σ} (turned : w.host.turn? = some host) :
      Step w { w with host }

/-- What may have happened: any number of steps. -/
def Reaches [Translator τ] [LogStore σ] : Grove τ σ → Grove τ σ → Prop :=
  Relation.ReflTransGen Step

variable {w w' : Grove τ σ} {x y : Holding} {h' : Host τ σ}

/-! ## What holds of the scopes that are held -/

/-- A held scope is bounded as its derivation says. -/
structure Bounded (w : Grove τ σ) (x : Holding) : Prop where
  known : x.scope.id < w.host.scopes.nodes.length
  deadline : w.host.scopes.deadline? x.scope.id = x.deadline
  above : ∀ y ∈ w.held, w.host.scopes.Under y.scope.id x.scope.id ↔ y.scope.id ∈ x.above
  /-- What is above it was there before it. -/
  older : ∀ a ∈ x.above, a ≤ x.scope.id

/-- A held scope stays bounded in a later tree in which it has its deadline. -/
theorem Bounded.later (hb : w.Bounded x) (hr : w.host.scopes.Rooted)
    (htree : w.host.scopes.Extends h'.scopes)
    (hd : h'.scopes.deadline? x.scope.id = w.host.scopes.deadline? x.scope.id)
    (cancelled : List Nat) : Bounded ⟨h', w.held, cancelled⟩ x where
  known := htree.lt hb.known
  deadline := hd.trans hb.deadline
  above y hy := (htree.under_iff hr hb.known).trans (hb.above y hy)
  older := hb.older

/-- What holds at every time. -/
structure Sound (w : Grove τ σ) : Prop where
  governed : w.host.scopes.Governed w.cancelled w.host.now
  watches : w.host.Watches
  cancelled : ∀ a ∈ w.cancelled, ∃ x ∈ w.held, x.scope.id = a
  bounded : ∀ x ∈ w.held, w.Bounded x

namespace Sound

/-- **A held scope is done** if one above it was cancelled or its deadline has come. -/
theorem isDone_iff (hw : w.Sound) (hx : x ∈ w.held) : w.host.isDone x.scope = true ↔
    (∃ a ∈ x.above, a ∈ w.cancelled) ∨ ∃ d, x.deadline = some d ∧ d ≤ w.host.now := by
  have hb := hw.bounded x hx
  rw [Host.isDone, hw.governed.isDone_iff, hb.deadline]
  apply or_congr _ Iff.rfl
  constructor
  · rintro ⟨a, ha, hu⟩
    obtain ⟨y, hy, rfl⟩ := hw.cancelled a ha
    exact ⟨y.scope.id, (hb.above y hy).1 hu, ha⟩
  · rintro ⟨a, hax, ha⟩
    obtain ⟨y, hy, rfl⟩ := hw.cancelled a ha
    exact ⟨y.scope.id, ha, (hb.above y hy).2 hax⟩

/-- A scope that is made is held besides the others. -/
theorem makes (hw : w.Sound) {above : Nat → Prop} {deadline : Option Nat}
    (hm : w.host.Makes above deadline x.scope h') (hd : x.deadline = deadline)
    (hself : x.scope.id ∈ x.above)
    (ha : ∀ y ∈ w.held, above y.scope.id ↔ y.scope.id ∈ x.above)
    (hold : ∀ a ∈ x.above, a = x.scope.id ∨ a < w.host.scopes.nodes.length) :
    Sound ⟨h', x :: w.held, w.cancelled⟩ := by
  have hr := hw.governed.rooted
  have hfresh := hm.made.fresh
  refine ⟨?_, hm.watches hw.watches, ?_, ?_⟩
  · rw [hm.now]
    exact hm.made.governed _ _ hw.governed
  · intro a hac
    obtain ⟨y, hy, hya⟩ := hw.cancelled a hac
    exact ⟨y, List.mem_cons_of_mem x hy, hya⟩
  · intro y hy
    rcases List.mem_cons.1 hy with rfl | hy
    · refine ⟨hm.made.known, hm.made.deadline.trans hd.symm, ?_, ?_⟩
      · intro z hz
        rcases List.mem_cons.1 hz with rfl | hz
        · exact iff_of_true .self hself
        · exact (hm.made.above _ (hw.bounded z hz).known).trans (ha z hz)
      · intro a hay
        rcases hold a hay with rfl | hlt
        · exact Nat.le_refl _
        · omega
    · have hb := hw.bounded y hy
      have hlater := hb.later hr hm.made.tree (hm.made.deadlines _ hb.known) w.cancelled
      refine ⟨hlater.known, hlater.deadline, ?_, hlater.older⟩
      intro z hz
      rcases List.mem_cons.1 hz with rfl | hz
      · -- The new scope is younger than all that are held.
        rw [hm.made.tree.under_iff hr hb.known]
        apply iff_of_false
        · intro hu
          have hle := hu.le hr
          have hlt := hb.known
          omega
        · intro hza
          have hle := hb.older _ hza
          have hlt := hb.known
          omega
      · exact hlater.above z hz

theorem background (hw : w.Sound) : w.background.Sound := by
  apply hw.makes (Host.makes_background hw.governed.rooted) rfl List.mem_cons_self
  · intro y hy
    have hlt := (hw.bounded y hy).known
    apply iff_of_false id
    intro hmem
    exact absurd (List.mem_singleton.1 hmem) (Nat.ne_of_lt hlt)
  · intro a ha
    exact .inl (List.mem_singleton.1 ha)

/-- A scope that is made for a held one, below some of what is above that one. -/
theorem makesFor (hw : w.Sound) (hx : x ∈ w.held) {above : Nat → Prop} {deadline : Option Nat}
    {s : Scope} {names : List Nat} (hm : w.host.Makes above deadline s h')
    (hnames : ∀ a ∈ names, a ∈ x.above)
    (ha : ∀ y ∈ w.held, above y.scope.id ↔ y.scope.id ∈ names) :
    Sound ⟨h', ⟨s, s.id :: names, deadline⟩ :: w.held, w.cancelled⟩ := by
  have hb := hw.bounded x hx
  apply hw.makes (x := ⟨s, s.id :: names, deadline⟩) hm rfl List.mem_cons_self
  · intro y hy
    have hlt := (hw.bounded y hy).known
    have hfresh := hm.made.fresh
    rw [ha y hy, List.mem_cons, or_iff_right (by omega)]
  · intro a has
    refine (List.mem_cons.1 has).imp id fun hmem => ?_
    have hle := hb.older a (hnames a hmem)
    have hlt := hb.known
    omega

/-- A derived scope is bounded as its derivation says. -/
theorem derive (hw : w.Sound) (hx : x ∈ w.held) (d : Derivation) : (w.derive x d).Sound := by
  have hr := hw.governed.rooted
  have hb := hw.bounded x hx
  have hbelow (deadline : Nat) : Sound ⟨(w.host.withDeadline x.scope deadline).2,
      ⟨(w.host.withDeadline x.scope deadline).1,
        (w.host.withDeadline x.scope deadline).1.id :: x.above,
        Host.earlier x.deadline (some deadline)⟩ :: w.held, w.cancelled⟩ := by
    have hmade := Host.makes_withDeadline hr hb.known deadline
    rw [hb.deadline] at hmade
    exact hw.makesFor hx hmade (fun _ ha => ha) hb.above
  have halone (y : Holding) : False ↔ y.scope.id ∈ ([] : List Nat) := by simp
  cases d with
  | child =>
    have hmade := Host.makes_child hr hb.known
    rw [hb.deadline] at hmade
    exact hw.makesFor hx hmade (fun _ ha => ha) hb.above
  | detached =>
    exact hw.makesFor hx (Host.makes_detached hr x.scope) nofun fun y _ => halone y
  | withDeadline deadline => exact hbelow deadline
  | withTimeout ms => exact hbelow (w.host.now + ms)
  | withValue name value =>
    -- The scope is the same one, under the same number.
    have hbounded {y : Holding} (hy : w.Bounded y) :
        Bounded (w.derive x (.withValue name value)) y := by
      refine ⟨hy.known, hy.deadline, fun z hz => ?_, hy.older⟩
      rcases List.mem_cons.1 hz with rfl | hz
      · exact hy.above x hx
      · exact hy.above z hz
    refine ⟨hw.governed, hw.watches, ?_, ?_⟩
    · intro a ha
      obtain ⟨y, hy, hya⟩ := hw.cancelled a ha
      exact ⟨y, List.mem_cons_of_mem _ hy, hya⟩
    · intro y hy
      rcases List.mem_cons.1 hy with rfl | hy
      · have hxb := hbounded hb
        exact ⟨hxb.known, hxb.deadline, hxb.above, hxb.older⟩
      · exact hbounded (hw.bounded y hy)
  | run =>
    have hmade := Host.makes_runScope hr hb.known
    rw [hb.deadline] at hmade
    apply hw.makesFor hx hmade
    · intro a ha
      by_cases hdone : w.host.runner.config.cancelOnContextDone = true
      · simpa [Derivation.above, hdone] using ha
      · simp [Derivation.above, hdone] at ha
    · intro y hy
      rw [hb.above y hy]
      by_cases hdone : w.host.runner.config.cancelOnContextDone = true <;>
        simp [Derivation.above, hdone]

/-- Deriving a scope takes no time. -/
theorem now_derive (hw : w.Sound) (hx : x ∈ w.held) (d : Derivation) :
    (w.derive x d).host.now = w.host.now := by
  have hr := hw.governed.rooted
  have hknown := (hw.bounded x hx).known
  cases d with
  | withDeadline deadline => exact (Host.makes_withDeadline hr hknown deadline).now
  | withTimeout ms => exact (Host.makes_withDeadline hr hknown (w.host.now + ms)).now
  | run => exact (Host.makes_runScope hr hknown).now
  | _ => rfl

/-! ## Steps -/

/-- Something happens that leaves the tree as it is, or ends a scope whose deadline has come. -/
theorem goesOn (hw : w.Sound) (hscopes : h'.scopes = w.host.scopes ∨
      ∃ scope d, w.host.scopes.deadline? scope = some d ∧ d ≤ w.host.now ∧
        h'.scopes = w.host.scopes.expire scope)
    (hnow : w.host.now ≤ h'.now) (hjobs : ∀ x ∈ h'.jobs, x ∈ w.host.jobs) :
    Sound { w with host := h' } := by
  obtain ⟨hgoverned, htree, hdeadlines⟩ : h'.scopes.Governed w.cancelled h'.now ∧
      w.host.scopes.Extends h'.scopes ∧
      ∀ id, h'.scopes.deadline? id = w.host.scopes.deadline? id := by
    rcases hscopes with heq | ⟨scope, d, hd, hle, heq⟩
    · rw [heq]
      exact ⟨hw.governed.elapse hnow, .refl _, fun _ => rfl⟩
    · rw [heq]
      exact ⟨(hw.governed.expire hd hle).elapse hnow, Scopes.extends_finish _ _ _,
        Scopes.deadline?_finish _ _ _⟩
  refine ⟨hgoverned, fun x hx => ?_, hw.cancelled, fun x hx => ?_⟩
  · obtain ⟨scope, d, hjob, hd⟩ := hw.watches x (hjobs x hx)
    exact ⟨scope, d, hjob, (hdeadlines scope).trans hd⟩
  · exact (hw.bounded x hx).later hw.governed.rooted htree (hdeadlines _) w.cancelled

/-- A held scope is cancelled. -/
theorem cancel (hw : w.Sound) (hx : x ∈ w.held) : (w.cancel x).Sound := by
  obtain ⟨ready, waits, heq⟩ := w.host.cancel_eq x.scope.id
  have hdeadlines := w.host.scopes.deadline?_finish x.scope.id .canceled
  have htree := Scopes.extends_finish w.host.scopes x.scope.id .canceled
  unfold Grove.cancel
  rw [heq]
  refine ⟨hw.governed.cancel (hw.bounded x hx).known, fun y hy => ?_, fun a ha => ?_,
    fun y hy => ?_⟩
  · obtain ⟨scope, d, hjob, hd⟩ := hw.watches y hy
    exact ⟨scope, d, hjob, (hdeadlines scope).trans hd⟩
  · rcases List.mem_cons.1 ha with rfl | ha
    · exact ⟨x, hx, rfl⟩
    · exact hw.cancelled a ha
  · exact (hw.bounded y hy).later hw.governed.rooted htree (hdeadlines _) _

variable [Translator τ] [LogStore σ]

/-- A job that takes its turn ends a scope whose deadline has come, or none. -/
theorem turn_cases (hw : w.Sound) (ht : w.host.turn? = some h') :
    (h'.scopes = w.host.scopes ∨ ∃ scope d, w.host.scopes.deadline? scope = some d ∧
      d ≤ w.host.now ∧ h'.scopes = w.host.scopes.expire scope) ∧
    h'.now = w.host.now ∧ ∀ x ∈ h'.jobs, x ∈ w.host.jobs := by
  unfold Host.turn? at ht
  split at ht
  · cases ht
  · rename_i id rest hready
    cases hjob : w.host.jobs.lookup id with
    | none =>
      rw [hjob] at ht
      cases ht
      exact ⟨.inl rfl, rfl, fun _ hx => hx⟩
    | some job =>
      have hmem := mem_of_lookup hjob
      obtain ⟨scope, d, hwatchdog, hd⟩ := hw.watches (id, job) hmem
      simp only at hwatchdog
      subst hwatchdog
      rw [hjob] at ht
      simp only [Host.jobTurn, Host.watchdogTurn] at ht
      have hforget {h : Host τ σ} {x : Nat × Job τ} (hx : x ∈ (h.forget id).leave.jobs) :
          x ∈ h.jobs := (List.mem_filter.1 hx).1
      by_cases hfired : w.host.scopes.hasFired scope = true
      · simp only [if_pos hfired] at ht
        cases ht
        exact ⟨.inl rfl, rfl, fun _ => hforget⟩
      · by_cases hdue : d ≤ w.host.now
        · simp only [if_neg hfired, if_pos hdue] at ht
          cases ht
          obtain ⟨ready, waits, heq⟩ := w.host.expire_eq scope
          rw [heq]
          exact ⟨.inr ⟨scope, d, hd, hdue, rfl⟩, rfl, fun _ => hforget⟩
        · simp only [if_neg hfired, if_neg hdue] at ht
          cases ht
          refine ⟨.inl rfl, rfl, fun x hx => ?_⟩
          -- The watchdog stands where it stood.
          obtain ⟨y, hy, rfl⟩ := List.mem_map.1 hx
          obtain ⟨i, job⟩ := y
          simp only
          split
          · rename_i hi
            exact hi ▸ hmem
          · exact hy

/-- Whatever happens, the scopes that are held stay bounded as their derivations say. -/
theorem step (hw : w.Sound) (hs : Step w w') : w'.Sound := by
  cases hs with
  | background => exact hw.background
  | derive held d => exact hw.derive held d
  | cancel held => exact hw.cancel held
  | elapse later => exact hw.goesOn (.inl rfl) later fun _ hx => hx
  | turn turned =>
    obtain ⟨hscopes, hnow, hjobs⟩ := hw.turn_cases turned
    exact hw.goesOn hscopes (Nat.le_of_eq hnow.symm) hjobs

theorem reaches (hw : w.Sound) (hr : Reaches w w') : w'.Sound := by
  induction hr with
  | refl => exact hw
  | tail _ hs ih => exact ih.step hs

/-- What is held stays held, what was cancelled stays so, and time does not go back. -/
theorem onward (hw : w.Sound) (hr : Reaches w w') :
    (∀ x ∈ w.held, x ∈ w'.held) ∧ (∀ a ∈ w.cancelled, a ∈ w'.cancelled) ∧
      w.host.now ≤ w'.host.now := by
  induction hr with
  | refl => exact ⟨fun _ hx => hx, fun _ ha => ha, Nat.le_refl _⟩
  | tail hr hs ih =>
    have hsound := hw.reaches hr
    obtain ⟨hheld, hcancelled, hnow⟩ := ih
    cases hs with
    | background => exact ⟨fun x hx => List.mem_cons_of_mem _ (hheld x hx), hcancelled, hnow⟩
    | @derive x held d =>
      refine ⟨fun x hx => List.mem_cons_of_mem _ (hheld x hx), hcancelled, ?_⟩
      rw [hsound.now_derive held d]
      exact hnow
    | @cancel x held =>
      obtain ⟨ready, waits, heq⟩ := Host.cancel_eq _ x.scope.id
      refine ⟨hheld, fun a ha => List.mem_cons_of_mem _ (hcancelled a ha), ?_⟩
      unfold Grove.cancel
      rw [heq]
      exact hnow
    | elapse later => exact ⟨hheld, hcancelled, Nat.le_trans hnow later⟩
    | turn turned => exact ⟨hheld, hcancelled, (hsound.turn_cases turned).2.1 ▸ hnow⟩

/-- Once a held scope is done it stays done. -/
theorem stays_done (hw : w.Sound) (hr : Reaches w w') (hx : x ∈ w.held)
    (hdone : w.host.isDone x.scope = true) : w'.host.isDone x.scope = true := by
  obtain ⟨hheld, hcancelled, hnow⟩ := hw.onward hr
  rw [(hw.reaches hr).isDone_iff (hheld x hx)]
  rcases (hw.isDone_iff hx).1 hdone with ⟨a, hax, ha⟩ | ⟨d, hd, hle⟩
  · exact .inl ⟨a, hax, hcancelled a ha⟩
  · exact .inr ⟨d, hd, Nat.le_trans hle hnow⟩

end Sound

/-- Nothing is held yet on a host without scopes and jobs. -/
theorem sound_nil {host : Host τ σ} (hscopes : host.scopes = {}) (hjobs : host.jobs = []) :
    Sound { host } where
  governed := by
    rw [hscopes]
    exact Scopes.governed_nil host.now
  watches := by
    intro x hx
    rw [hjobs] at hx
    cases hx
  cancelled := nofun
  bounded := nofun

/-- **What bounds the scope of a run.**  Whatever scopes were derived from each other on a host and
whatever happens to them: a run for one of them has the deadline of its caller or the end of its
own duration, the nearer one that exists, and the caller's deadline is what its derivation says.
The run is done if it was cancelled, if it ends with its caller and one of the scopes that the
caller was derived from was cancelled, up to the nearest detached one, or if its deadline has come,
and only then.  Cancelling it does not end its caller, and once done it stays done. -/
theorem runScope_bounded [Translator τ] [LogStore σ] {host : Host τ σ} (hscopes : host.scopes = {})
    (hjobs : host.jobs = []) {w w' : Grove τ σ} (hw : Reaches { host } w) {caller : Holding}
    (held : caller ∈ w.held) (later : Reaches (w.derive caller .run) w') :
    let config := w.host.runner.config
    let run := (w.host.runScope caller.scope).1
    let deadline := Host.earlier (w.host.scopes.deadline? caller.scope.id)
      (config.timeout.map (w.host.now + ·))
    w.host.scopes.deadline? caller.scope.id = caller.deadline ∧
    w'.host.scopes.deadline? run.id = deadline ∧
    (w'.host.isDone run = true ↔ run.id ∈ w'.cancelled ∨
      (config.cancelOnContextDone = true ∧ ∃ a ∈ caller.above, a ∈ w'.cancelled) ∨
      ∃ d, deadline = some d ∧ d ≤ w'.host.now) ∧
    (∀ now, (w'.host.cancel run.id).scopes.isDone now caller.scope.id
      = w'.host.scopes.isDone now caller.scope.id) ∧
    (w'.host.isDone run = true → ∀ w'', Reaches w' w'' → w''.host.isDone run = true) := by
  intro config run deadline
  have hsound := (sound_nil hscopes hjobs).reaches hw
  have hsound' := (hsound.derive held .run).reaches later
  have hdeadline := (hsound.bounded caller held).deadline
  let x : Holding := caller.derive w.host .run
  obtain ⟨hheld, -, -⟩ := (hsound.derive held .run).onward later
  have hx : x ∈ w'.held := hheld x List.mem_cons_self
  have hxdeadline : x.deadline = deadline := by
    show Host.earlier caller.deadline _ = _
    rw [← hdeadline]
  have hbounded := hsound'.bounded x hx
  refine ⟨hdeadline, hbounded.deadline.trans hxdeadline, ?_, fun now => ?_,
    fun hdone w'' hr => hsound'.stays_done hr hx hdone⟩
  · refine (hsound'.isDone_iff hx).trans ?_
    rw [hxdeadline, ← or_assoc]
    apply or_congr _ Iff.rfl
    have habove : x.above = run.id :: if config.cancelOnContextDone then caller.above else [] := rfl
    rw [habove]
    by_cases hdone : config.cancelOnContextDone = true <;> simp [hdone]
  · -- The caller is older than the run, so it does not lie below it.
    obtain ⟨ready, waits, heq⟩ := w'.host.cancel_eq run.id
    rw [heq]
    apply Scopes.isDone_finish_of_not_under hsound'.governed.rooted
    intro hu
    have hle := hu.le hsound'.governed.rooted
    have hlt := (hsound.bounded caller held).known
    have hfresh : w.host.scopes.nodes.length ≤ run.id :=
      (Host.makes_runScope hsound.governed.rooted hlt).made.fresh
    omega

/-! ## A detached caller -/

/-- A host whose runs end with their callers and take 50 milliseconds at most. -/
def boundedHost : Host Framer MemoryStore where
  runner :=
    { config := { timeoutMs := 50, cancelOnContextDone := true }
      hooks := { translator := fun _ _ _ => .error "none" } }
  engine := fun _ _ => {}

/-- A client's scope, a nearer one below it, a detached one and a caller below that. -/
def clientScope : Holding := ⟨{ id := 0 }, [0], none⟩

@[inherit_doc clientScope]
def nearScope : Holding := ⟨{ id := 1 }, [1, 0], some 30⟩

@[inherit_doc clientScope]
def ownScope : Holding := ⟨{ id := 2 }, [2], none⟩

@[inherit_doc clientScope]
def callerScope : Holding := ⟨{ id := 3 }, [3, 2], some 80⟩

/-- The scopes up to the caller's. -/
def callerGrove : Grove Framer MemoryStore :=
  ((({ host := boundedHost } : Grove _ _).background.derive clientScope (.withDeadline 30)).derive
    nearScope .detached).derive ownScope (.withTimeout 80)

/-- The run is there, 40 milliseconds have passed, and the client's scope was cancelled. -/
def lateGrove : Grove Framer MemoryStore :=
  let w := callerGrove.derive callerScope .run
  ({ w with host := w.host.elapse 40 } : Grove _ _).cancel clientScope

theorem caller_grove : Reaches { host := boundedHost } callerGrove :=
  (((Relation.ReflTransGen.single .background).tail
    (.derive (x := clientScope) (by decide) (.withDeadline 30))).tail
    (.derive (x := nearScope) (by decide) .detached)).tail
    (.derive (x := ownScope) (by decide) (.withTimeout 80))

theorem late_grove : Reaches (callerGrove.derive callerScope .run) lateGrove :=
  (Relation.ReflTransGen.single (.elapse (by decide))).tail
    (.cancel (x := clientScope) (by decide))

/-- The run has its own duration, since the nearer deadline belongs to a scope that its caller is
detached from; nor does the end of the client's scope end it.  The end of the detached scope does,
before the deadline. -/
theorem runScope_bounded_detached :
    boundedHost.scopes = {} ∧ boundedHost.jobs = [] ∧ Reaches { host := boundedHost } callerGrove ∧
      callerScope ∈ callerGrove.held ∧ Reaches (callerGrove.derive callerScope .run) lateGrove ∧
      (callerGrove.host.runScope callerScope.scope).1 = { id := 5 } ∧
      lateGrove.host.scopes.deadline? 5 = some 50 ∧ lateGrove.host.isDone { id := 5 } = false ∧
      (lateGrove.cancel ownScope).host.isDone { id := 5 } = true := by
  have hheld : callerScope ∈ callerGrove.held := by decide
  obtain ⟨-, hdeadline, hdone, -⟩ := runScope_bounded rfl rfl caller_grove hheld late_grove
  have hcancel : Reaches lateGrove (lateGrove.cancel ownScope) :=
    .single (.cancel (by decide))
  obtain ⟨-, -, hdone', -⟩ := runScope_bounded rfl rfl caller_grove hheld
    (late_grove.trans hcancel)
  refine ⟨rfl, rfl, caller_grove, hheld, late_grove, rfl, hdeadline, ?_, ?_⟩
  · rw [← Bool.not_eq_true]
    intro h
    have hwhy := hdone.1 h
    revert hwhy
    decide
  · exact hdone'.2 (by decide)

end Grove

end AgentStream
