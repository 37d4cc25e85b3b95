/-
# New scopes on a host

What a new scope lies below and which deadline it has, for every way in which a host makes one.

* `Host.Watches` : all jobs of a host watch over deadlines;
* `Host.Makes` : a host makes a scope, and watches over its deadline if that is new;
* `Host.makes_child`, `makes_detached`, `makes_withDeadline` : the ways to derive one;
* `Host.makes_runScope` : the scope of a run.
-/
import AgentStream.Host.Operations
import AgentStream.Host.Queue
import AgentStream.Proofs.Host.Effects
import AgentStream.Proofs.Scope.Bounds

namespace AgentStream

namespace Host

variable {τ σ : Type} {h h' h'' : Host τ σ} {above : Nat → Prop} {deadline deadline' : Option Nat}

/-! ## Making scopes -/

/-- All jobs of a host watch over deadlines of scopes. -/
def Watches (h : Host τ σ) : Prop :=
  ∀ x ∈ h.jobs, ∃ scope d, x.2 = .watchdog scope d ∧ h.scopes.deadline? scope = some d

/-- A host has made a scope, and watches over its deadline if that is new. -/
structure Makes (h : Host τ σ) (above : Nat → Prop) (deadline : Option Nat) (s : Scope)
    (h' : Host τ σ) : Prop where
  made : h.scopes.Made above deadline h'.scopes s.id
  now : h'.now = h.now
  runner : h'.runner = h.runner
  watches : h.Watches → h'.Watches

/-- A new scope that needs no watching. -/
theorem Makes.of_made {s : Scope} (hm : h.scopes.Made above deadline h'.scopes s.id)
    (hnow : h'.now = h.now) (hrunner : h'.runner = h.runner) (hjobs : h'.jobs = h.jobs) :
    Makes h above deadline s h' where
  made := hm
  now := hnow
  runner := hrunner
  watches hw := by
    intro x hx
    obtain ⟨scope, d, hjob, hd⟩ := hw x (hjobs ▸ hx)
    exact ⟨scope, d, hjob, (hm.deadlines scope (Scopes.lt_of_deadline? hd)).trans hd⟩

theorem Makes.trans {mid s : Scope} (h₁ : Makes h above deadline mid h')
    (h₂ : Makes h' (fun top => h'.scopes.Under top mid.id) deadline' s h'') :
    Makes h above deadline' s h'' where
  made := h₁.made.trans h₂.made
  now := h₂.now.trans h₁.now
  runner := h₂.runner.trans h₁.runner
  watches := h₂.watches ∘ h₁.watches

/-- The earlier one of a deadline that is inherited and a new one. -/
theorem earlier_some (inherited : Option Nat) (deadline : Nat) :
    earlier inherited (some deadline)
      = if inherited.any (· ≤ deadline) then inherited else some deadline := by
  cases inherited with
  | none => rfl
  | some d =>
    simp only [earlier, Option.any_some, decide_eq_true_eq]
    split <;> simp <;> omega

theorem earlier_none (inherited : Option Nat) : earlier inherited none = inherited := by
  cases inherited <;> rfl

theorem makes_background (hr : h.scopes.Rooted) :
    Makes h (fun _ => False) none h.background.1 h.background.2 :=
  .of_made (Scopes.made_alone hr []) rfl rfl rfl

theorem makes_detached (hr : h.scopes.Rooted) (s : Scope) :
    Makes h (fun _ => False) none (h.detached s).1 (h.detached s).2 :=
  .of_made (Scopes.made_alone hr s.values) rfl rfl rfl

variable {s : Scope}

theorem makes_child (hr : h.scopes.Rooted) (hs : s.id < h.scopes.nodes.length) :
    Makes h (fun top => h.scopes.Under top s.id) (h.scopes.deadline? s.id) (h.child s).1
      (h.child s).2 :=
  .of_made (Scopes.made_child hr hs) rfl rfl rfl

/-- A scope with a deadline is watched, unless it takes a nearer one along. -/
theorem makes_withDeadline (hr : h.scopes.Rooted) (hs : s.id < h.scopes.nodes.length) (d : Nat) :
    Makes h (fun top => h.scopes.Under top s.id) (earlier (h.scopes.deadline? s.id) (some d))
      (h.withDeadline s d).1 (h.withDeadline s d).2 := by
  have hmade := Scopes.made_withDeadline hr hs d
  rw [← earlier_some] at hmade
  have hnew := (h.scopes.withDeadline_eq s d).2.1
  unfold withDeadline
  simp only
  split
  · rename_i hwatched
    refine ⟨hmade, rfl, rfl, fun hw x hx => ?_⟩
    rcases List.mem_append.1 hx with hx | hx
    · obtain ⟨scope, d', hjob, hd'⟩ := hw x hx
      exact ⟨scope, d', hjob, (hmade.deadlines scope (Scopes.lt_of_deadline? hd')).trans hd'⟩
    · rw [List.mem_singleton.1 hx]
      refine ⟨_, d, rfl, ?_⟩
      -- It is watched because the deadline is new.
      have hfar : (h.scopes.deadline? s.id).any (· ≤ d) = false := by
        rw [hwatched] at hnew
        simpa using hnew
      have hdeadline := hmade.deadline
      rw [earlier_some, hfar] at hdeadline
      exact hdeadline
  · exact .of_made hmade rfl rfl rfl

/-- What holds of a scope above some holds of it above the same. -/
theorem Makes.congr {above' : Nat → Prop} (hm : Makes h above deadline s h')
    (ha : ∀ top < h.scopes.nodes.length, above top ↔ above' top) :
    Makes h above' deadline s h' :=
  { hm with made := hm.made.congr ha rfl }

/-- Before the duration of a run counts, its scope has the deadline of its caller, wherever it
lies. -/
theorem exists_base (hr : h.scopes.Rooted) (hs : s.id < h.scopes.nodes.length) :
    ∃ base h', Makes h
        (fun top => h.runner.config.cancelOnContextDone = true ∧ h.scopes.Under top s.id)
        (h.scopes.deadline? s.id) base h' ∧
      h.runScope s = match h.runner.config.timeout with
        | some ms => h'.withDeadline base (h'.now + ms)
        | none => (base, h') := by
  unfold runScope
  by_cases hdone : h.runner.config.cancelOnContextDone = true
  · simp only [if_pos hdone]
    refine ⟨(h.child s).1, (h.child s).2, (makes_child hr hs).congr ?_, rfl⟩
    intro top _
    simp [hdone]
  · have hdetached := makes_detached hr s
    have hkept := hdetached.made.deadlines s.id hs
    have hnone (top : Nat) : False ↔
        h.runner.config.cancelOnContextDone = true ∧ h.scopes.Under top s.id := by
      simp [hdone]
    simp only [if_neg hdone, hkept]
    cases h.scopes.deadline? s.id with
    | none => exact ⟨(h.detached s).1, (h.detached s).2, hdetached.congr fun top _ => hnone top, rfl⟩
    | some d =>
      -- The deadline is set anew below the detached scope.
      have hnear := hdetached.trans
        (makes_withDeadline (hdetached.made.tree.rooted hr) hdetached.made.known d)
      rw [hdetached.made.deadline] at hnear
      exact ⟨((h.detached s).2.withDeadline (h.detached s).1 d).1,
        ((h.detached s).2.withDeadline (h.detached s).1 d).2, hnear.congr fun top _ => hnone top,
        rfl⟩

/-- **The scope of a run** lies below its caller or on its own, and has the deadline of its caller
or the nearer one that the duration of a run sets. -/
theorem makes_runScope (hr : h.scopes.Rooted) (hs : s.id < h.scopes.nodes.length) :
    Makes h (fun top => h.runner.config.cancelOnContextDone = true ∧ h.scopes.Under top s.id)
      (earlier (h.scopes.deadline? s.id) (h.runner.config.timeout.map (h.now + ·)))
      (h.runScope s).1 (h.runScope s).2 := by
  obtain ⟨base, h', hbase, hrun⟩ := exists_base hr hs
  rw [hrun]
  cases h.runner.config.timeout with
  | none =>
    rw [Option.map_none, earlier_none]
    exact hbase
  | some ms =>
    have hnear := hbase.trans
      (makes_withDeadline (hbase.made.tree.rooted hr) hbase.made.known (h'.now + ms))
    rw [hbase.made.deadline, hbase.now] at hnear
    rw [Option.map_some]
    simp only [hbase.now]
    exact hnear

end Host

end AgentStream
