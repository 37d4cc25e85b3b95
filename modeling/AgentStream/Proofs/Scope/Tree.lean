/-
# The tree of scopes

Every scope is derived from an earlier one or from none.  Cancelling a scope ends it and the
scopes derived from it, through any number of others, and leaves every other scope as it was.

* `Scopes.Rooted`, `Scopes.Under` : the tree, and the scopes below another one;
* `Scopes.mem_live` : the scopes that end with another one;
* `Scopes.isDone_finish`, `Scopes.isDone_finish_of_not_under` : what is done once a scope ends;
* `Scopes.Extends` : a later tree, in which every scope still stands where it stood;
* `Scopes.Derives` : a later tree with a new scope for one that may bound it.
-/
import AgentStream.Scope

namespace AgentStream

namespace Scopes

/-! ## Scopes below scopes -/

/-- Every scope is derived from an earlier one or from none. -/
def Rooted (t : Scopes) : Prop :=
  ∀ id n p, t.node? id = some n → n.parent = some p → p < id

/-- A scope is another one, or derived from it through any number of scopes. -/
inductive Under (t : Scopes) (top : Nat) : Nat → Prop
  | self : Under t top top
  | derived {id p : Nat} {n : ScopeNode} (node : t.node? id = some n) (parent : n.parent = some p)
      (above : Under t top p) : Under t top id

variable {t t' t'' : Scopes} {top id now : Nat} {n : ScopeNode} {reason : DoneReason}

theorem lt_of_node? (h : t.node? id = some n) : id < t.nodes.length :=
  (List.getElem?_eq_some_iff.1 h).1

theorem exists_node? (h : id < t.nodes.length) : ∃ n, t.node? id = some n :=
  ⟨t.nodes[id], List.getElem?_eq_getElem h⟩

/-- The scopes below another one are not older. -/
theorem Under.le (hr : t.Rooted) (h : t.Under top id) : top ≤ id := by
  induction h with
  | self => exact Nat.le_refl top
  | derived node parent _ ih => exact Nat.le_trans ih (Nat.le_of_lt (hr _ _ _ node parent))

/-- The scopes below a known one are known. -/
theorem Under.known (h : t.Under top id) (htop : top < t.nodes.length) : id < t.nodes.length := by
  cases h with
  | self => exact htop
  | derived node => exact lt_of_node? node

/-- As many steps as the number of a scope lead from it to every scope above it. -/
theorem isWithin_iff (hr : t.Rooted) {fuel : Nat} (hf : id ≤ fuel) :
    t.isWithin top fuel id = true ↔ t.Under top id := by
  induction fuel generalizing id with
  | zero =>
    obtain rfl : id = 0 := Nat.le_zero.1 hf
    rw [isWithin, beq_iff_eq]
    constructor
    · rintro rfl
      exact .self
    · exact fun h => (Nat.le_zero.1 (h.le hr)).symm
  | succ fuel ih =>
    rw [isWithin, Bool.or_eq_true, beq_iff_eq]
    constructor
    · rintro (rfl | h)
      · exact .self
      · split at h
        · rename_i p hp
          obtain ⟨n, hn, hparent⟩ := Option.bind_eq_some_iff.1 hp
          have hlt : p < id := hr id n p hn hparent
          exact .derived hn hparent ((ih (by omega)).1 h)
        · cases h
    · intro h
      cases h with
      | self => exact .inl rfl
      | @derived _ p n hn hparent above =>
        have hlt : p < id := hr id n p hn hparent
        have hp : (t.node? id).bind (·.parent) = some p := by rw [hn]; exact hparent
        right
        rw [hp]
        exact (ih (by omega)).2 above

/-- Which scopes are told to end with another one. -/
theorem mem_live (hr : t.Rooted) :
    id ∈ t.live top ↔ id < t.nodes.length ∧ t.Under top id ∧ t.hasFired id = false := by
  rw [live, List.mem_reverse, List.mem_filter, List.mem_range, Bool.and_eq_true,
    Bool.not_eq_true']
  refine and_congr_right fun hid => and_congr_left fun _ => ?_
  exact isWithin_iff hr (Nat.le_of_lt hid)

/-! ## Ending scopes -/

/-- What is known of a scope once one has ended. -/
def afterEnd (t : Scopes) (top : Nat) (reason : DoneReason) (id : Nat) (n : ScopeNode) :
    ScopeNode :=
  { n with
    cause := if id = top then n.cause.or (some reason) else n.cause
    fired := n.fired || (t.live top).contains id }

theorem node?_finish (t : Scopes) (top : Nat) (reason : DoneReason) (id : Nat) :
    (t.finish top reason).node? id = (t.node? id).map (t.afterEnd top reason id) :=
  List.getElem?_mapIdx

/-- A scope that ends is done. -/
theorem isDone_finish (hr : t.Rooted) (hid : id < t.nodes.length) :
    (t.finish id reason).isDone now id = true := by
  obtain ⟨n, hn⟩ := exists_node? hid
  have hfired : (n.fired || (t.live id).contains id) = true := by
    cases hf : n.fired with
    | true => rfl
    | false =>
      have hfired : t.hasFired id = false := by rw [hasFired, hn]; exact hf
      rw [Bool.false_or, List.contains_iff_mem]
      exact (mem_live hr).2 ⟨hid, .self, hfired⟩
  have hnode := node?_finish t id reason id
  simp only [hn, Option.map_some, afterEnd, hfired, if_true] at hnode
  rw [isDone, reason?, reasonWithin, hnode]
  cases n.cause <;> rfl

/-- Why a scope is done does not change when one ends that it does not lie below. -/
theorem reasonWithin_finish (hr : t.Rooted) (fuel : Nat) (h : ¬t.Under top id) :
    (t.finish top reason).reasonWithin now fuel id = t.reasonWithin now fuel id := by
  induction fuel generalizing id with
  | zero => rfl
  | succ fuel ih =>
    rw [reasonWithin, reasonWithin, node?_finish]
    cases hn : t.node? id with
    | none => rfl
    | some n =>
      have hne : id ≠ top := fun he => h (he ▸ .self)
      have hlive : (t.live top).contains id = false := by
        rw [← Bool.not_eq_true, List.contains_iff_mem, mem_live hr]
        exact fun hl => h hl.2.1
      have habove : n.parent.bind ((t.finish top reason).reasonWithin now fuel)
          = n.parent.bind (t.reasonWithin now fuel) := by
        cases hp : n.parent with
        | none => rfl
        | some p => exact ih fun hu => h (.derived hn hp hu)
      simp only [Option.map_some, afterEnd, if_neg hne, hlive, Bool.or_false, habove]

/-- A scope that does not lie below the one that ends is done if it was. -/
theorem isDone_finish_of_not_under (hr : t.Rooted) (h : ¬t.Under top id) :
    (t.finish top reason).isDone now id = t.isDone now id := by
  have hlength : (t.finish top reason).nodes.length = t.nodes.length := List.length_mapIdx
  rw [isDone, isDone, reason?, reason?, hlength, reasonWithin_finish hr _ h]

/-! ## Later trees -/

/-- A later tree: every scope is there and derived from where it was, and new scopes are derived
from earlier ones. -/
structure Extends (t t' : Scopes) : Prop where
  rooted : t.Rooted → t'.Rooted
  keeps : ∀ id n, t.node? id = some n → ∃ n', t'.node? id = some n' ∧ n'.parent = n.parent

namespace Extends

theorem refl (t : Scopes) : Extends t t := ⟨id, fun _ n h => ⟨n, h, rfl⟩⟩

theorem trans (h : Extends t t') (h' : Extends t' t'') : Extends t t'' where
  rooted := h'.rooted ∘ h.rooted
  keeps id n hn := by
    obtain ⟨n', hn', hp'⟩ := h.keeps id n hn
    obtain ⟨n'', hn'', hp''⟩ := h'.keeps id n' hn'
    exact ⟨n'', hn'', hp''.trans hp'⟩

theorem lt (h : Extends t t') (hid : id < t.nodes.length) : id < t'.nodes.length := by
  obtain ⟨n, hn⟩ := exists_node? hid
  obtain ⟨n', hn', -⟩ := h.keeps id n hn
  exact lt_of_node? hn'

/-- A scope still lies below the same scopes. -/
theorem under_iff (h : Extends t t') (hr : t.Rooted) (hid : id < t.nodes.length) :
    t'.Under top id ↔ t.Under top id := by
  constructor
  · intro hu
    induction hu with
    | self => exact .self
    | @derived id p n' hn' hp' _ ih =>
      obtain ⟨n, hn⟩ := exists_node? hid
      obtain ⟨m, hm, hparent⟩ := h.keeps id n hn
      obtain rfl : m = n' := Option.some.inj (hm.symm.trans hn')
      have hp : n.parent = some p := hparent ▸ hp'
      have hlt : p < id := hr id n p hn hp
      exact .derived hn hp (ih (Nat.lt_trans hlt hid))
  · intro hu
    induction hu with
    | self => exact .self
    | @derived id p n hn hp _ ih =>
      obtain ⟨n', hn', hp'⟩ := h.keeps id n hn
      exact .derived hn' (hp'.trans hp) (ih (Nat.lt_trans (hr id n p hn hp) hid))

end Extends

/-- Scopes may change where they stand. -/
theorem extends_of_map {f : Nat → ScopeNode → ScopeNode} (hf : ∀ id n, (f id n).parent = n.parent)
    (h : ∀ id, t'.node? id = (t.node? id).map (f id)) : Extends t t' where
  rooted hr id n p hn hp := by
    rw [h] at hn
    obtain ⟨m, hm, rfl⟩ := Option.map_eq_some_iff.1 hn
    exact hr id m p hm (hf id m ▸ hp)
  keeps id n hn := ⟨f id n, by rw [h, hn]; rfl, hf id n⟩

/-- Ending a scope leaves the tree as it is. -/
theorem extends_finish (t : Scopes) (top : Nat) (reason : DoneReason) :
    Extends t (t.finish top reason) :=
  extends_of_map (f := t.afterEnd top reason) (fun _ _ => rfl) (node?_finish t top reason)

/-- A scope that is derived from a known one, or from none, extends the tree. -/
theorem extends_add (values : Members) (h : ∀ p, n.parent = some p → p < t.nodes.length) :
    Extends t (t.add n values).2 where
  rooted hr id m p hm hp := by
    rcases Nat.lt_or_ge id t.nodes.length with hid | hid
    · rw [node?, add, List.getElem?_append_left hid] at hm
      exact hr id m p hm hp
    · rw [node?, add, List.getElem?_append_right hid] at hm
      obtain ⟨hlast, rfl⟩ := List.getElem?_eq_some_iff.1 hm
      rw [List.getElem_singleton] at hp
      exact Nat.lt_of_lt_of_le (h p hp) hid
  keeps id m hm := by
    refine ⟨m, ?_, rfl⟩
    rw [node?, add, List.getElem?_append_left (lt_of_node? hm)]
    exact hm

theorem extends_background (t : Scopes) : Extends t t.background.2 := extends_add [] nofun

theorem extends_detached (t : Scopes) (s : Scope) : Extends t (t.detached s).2 :=
  extends_add s.values nofun

theorem extends_child {s : Scope} (h : s.id < t.nodes.length) : Extends t (t.child s).2 := by
  refine extends_add s.values fun p hp => ?_
  cases hp
  exact h

/-- A deadline does not move a scope. -/
theorem extends_withDeadline (t : Scopes) (s : Scope) (deadline : Nat) :
    Extends (t.child s).2 (t.withDeadline s deadline).2.2 := by
  unfold withDeadline
  simp only
  split
  · exact .refl _
  · -- Only the deadline of the new scope changes.
    let f (id : Nat) (n : ScopeNode) : ScopeNode :=
      if (t.child s).1.id = id then { n with deadline := some deadline } else n
    refine extends_of_map (f := f) (fun id n => ?_) fun id => List.getElem?_modify ..
    show (if (t.child s).1.id = id then { n with deadline := some deadline } else n).parent = _
    split <;> rfl

/-! ## New scopes -/

/-- A later tree with a new scope; of the earlier scopes it lies at most below those above
another one. -/
structure Derives (t : Scopes) (caller : Nat) (t' : Scopes) (new : Nat) : Prop where
  tree : Extends t t'
  fresh : t.nodes.length ≤ new
  known : new < t'.nodes.length
  above : ∀ top < t.nodes.length, t'.Under top new → t.Under top caller

/-- A scope that was added lies below what it was derived from. -/
theorem derives_add {caller : Nat} (values : Members) (hr : t.Rooted)
    (h : ∀ p, n.parent = some p → p = caller ∧ p < t.nodes.length) :
    Derives t caller (t.add n values).2 t.nodes.length := by
  have he : Extends t (t.add n values).2 := extends_add values fun p hp => (h p hp).2
  have hnew : (t.add n values).2.node? t.nodes.length = some n := List.getElem?_concat_length
  refine ⟨he, Nat.le_refl _, lt_of_node? hnew, fun top htop hu => ?_⟩
  cases hu with
  | self => exact absurd htop (Nat.lt_irrefl _)
  | @derived _ p m hm hp above =>
    obtain rfl : n = m := Option.some.inj (hnew.symm.trans hm)
    obtain ⟨rfl, hlt⟩ := h p hp
    exact (he.under_iff hr hlt).1 above

theorem derives_background (caller : Nat) (hr : t.Rooted) :
    Derives t caller t.background.2 t.background.1.id :=
  derives_add [] hr nofun

theorem derives_detached {caller : Nat} (hr : t.Rooted) (s : Scope) :
    Derives t caller (t.detached s).2 (t.detached s).1.id :=
  derives_add s.values hr nofun

theorem derives_child (hr : t.Rooted) {s : Scope} (h : s.id < t.nodes.length) :
    Derives t s.id (t.child s).2 (t.child s).1.id := by
  refine derives_add s.values hr fun p hp => ?_
  cases hp
  exact ⟨rfl, h⟩

/-- A scope for a new scope. -/
theorem Derives.trans {caller mid new : Nat} (h : Derives t caller t' mid)
    (h' : Derives t' mid t'' new) : Derives t caller t'' new where
  tree := h.tree.trans h'.tree
  fresh := Nat.le_trans h.fresh (Nat.le_trans (Nat.le_of_lt h.known) h'.fresh)
  known := h'.known
  above top htop hu := h.above top htop (h'.above top (h.tree.lt htop) hu)

/-- A scope stays below what it was derived from. -/
theorem Derives.extend {caller new : Nat} (h : Derives t caller t' new) (hr : t.Rooted)
    (h' : Extends t' t'') : Derives t caller t'' new where
  tree := h.tree.trans h'
  fresh := h.fresh
  known := h'.lt h.known
  above top htop hu := h.above top htop ((h'.under_iff (h.tree.rooted hr) h.known).1 hu)

theorem derives_withDeadline (hr : t.Rooted) {s : Scope} (h : s.id < t.nodes.length)
    (deadline : Nat) :
    Derives t s.id (t.withDeadline s deadline).2.2 (t.withDeadline s deadline).1.id := by
  have hs : (t.withDeadline s deadline).1 = (t.child s).1 := by
    unfold withDeadline
    simp only
    split <;> rfl
  rw [hs]
  exact (derives_child hr h).extend hr (extends_withDeadline t s deadline)

end Scopes

end AgentStream
