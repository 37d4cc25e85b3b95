/-
# What ends a scope

A scope is done once it has been told to end or its deadline has come.  The deadline of a scope is
never later than those above it, so what has been told to end was cancelled, itself or from above,
or its deadline has come.

* `Scopes.isDone_iff` : when a scope is done;
* `Scopes.withDeadline_eq` : a scope with a deadline is one more scope;
* `Scopes.Governed` : what is told to end, and why;
* `Scopes.Governed.isDone_iff` : a scope is done if it was cancelled, itself or from above, or its
  deadline has come;
* `Scopes.Governed.add` : that stays so when a scope is added below another one or on its own;
* `Scopes.Made` : a later tree with a new scope, what lies above it and its deadline.
-/
import AgentStream.Proofs.Scope.Tree

namespace AgentStream

namespace Scopes

variable {t t' t'' : Scopes} {top id now : Nat} {n : ScopeNode} {values : Members}
  {reason : DoneReason}

/-! ## What is known of a scope -/

/-- A scope is done once it has been told to end or its deadline has come. -/
theorem isDone_iff (t : Scopes) (now id : Nat) : t.isDone now id = true ↔
    t.hasFired id = true ∨ ∃ d, t.deadline? id = some d ∧ d ≤ now := by
  rw [isDone, reason?, reasonWithin, hasFired, deadline?]
  cases t.node? id with
  | none => simp
  | some n =>
    by_cases hf : n.fired = true
    · -- Whatever the reason is, there is one.
      simp only [Option.any_some, hf, if_true, true_or, iff_true]
      split <;> rfl
    · cases hd : n.deadline <;> simp [hf, hd]

theorem lt_of_deadline? {d : Nat} (h : t.deadline? id = some d) : id < t.nodes.length := by
  obtain ⟨n, hn, -⟩ := Option.bind_eq_some_iff.1 h
  exact lt_of_node? hn

theorem node?_add (t : Scopes) (n : ScopeNode) (values : Members) (id : Nat) :
    (t.add n values).2.node? id = if id = t.nodes.length then some n else t.node? id := by
  rw [node?, add]
  split
  · rename_i hid
    rw [hid]
    exact List.getElem?_concat_length
  · rename_i hid
    rcases Nat.lt_or_gt_of_ne hid with hlt | hgt
    · exact List.getElem?_append_left hlt
    · rw [node?, List.getElem?_eq_none (by simpa using Nat.succ_le_of_lt hgt),
        List.getElem?_eq_none (Nat.le_of_lt hgt)]

/-- A scope with a deadline is one more scope, with what it takes along or the new deadline. -/
theorem withDeadline_eq (t : Scopes) (s : Scope) (deadline : Nat) :
    (t.withDeadline s deadline).1 = (t.child s).1 ∧
      (t.withDeadline s deadline).2.1 = !(t.deadline? s.id).any (· ≤ deadline) ∧
      (t.withDeadline s deadline).2.2 = (t.add
        ⟨some s.id, if (t.deadline? s.id).any (· ≤ deadline) then t.deadline? s.id
          else some deadline, none, t.hasFired s.id⟩ s.values).2 := by
  unfold withDeadline
  simp only
  by_cases hnear : (t.deadline? s.id).any (· ≤ deadline) = true
  · simp only [hnear]
    exact ⟨rfl, rfl, rfl⟩
  · simp only [Bool.eq_false_iff.2 hnear]
    refine ⟨rfl, rfl, ?_⟩
    simp [child, add, List.modify_eq_take_cons_drop]

/-- Ending a scope tells it and those below it to end. -/
theorem hasFired_finish (hr : t.Rooted) :
    (t.finish top reason).hasFired id = true ↔
      t.hasFired id = true ∨ id < t.nodes.length ∧ t.Under top id := by
  rw [hasFired, hasFired, node?_finish]
  cases hn : t.node? id with
  | none =>
    have hunknown : ¬id < t.nodes.length := by
      intro h
      obtain ⟨n, hsome⟩ := exists_node? h
      rw [hn] at hsome
      cases hsome
    simp [hunknown]
  | some n =>
    have hid := lt_of_node? hn
    have hfired : t.hasFired id = n.fired := by
      rw [hasFired, hn]
      rfl
    have hlive : id ∈ t.live top ↔ id < t.nodes.length ∧ t.Under top id ∧ t.hasFired id = false :=
      mem_live hr
    rw [hfired] at hlive
    simp only [Option.map_some, Option.any_some, afterEnd, Bool.or_eq_true, List.contains_iff_mem,
      hlive]
    cases n.fired <;> simp

theorem deadline?_finish (t : Scopes) (top : Nat) (reason : DoneReason) (id : Nat) :
    (t.finish top reason).deadline? id = t.deadline? id := by
  rw [deadline?, deadline?, node?_finish]
  cases t.node? id <;> rfl

/-! ## Why scopes are told to end -/

/-- What is told to end in a tree of scopes, and why, if these scopes were cancelled: deadlines
get no later from a scope to those below it, a scope is told to end if one above it was cancelled,
and otherwise only because its deadline has come. -/
structure Governed (t : Scopes) (cancelled : List Nat) (now : Nat) : Prop where
  rooted : t.Rooted
  known : ∀ a ∈ cancelled, a < t.nodes.length
  nearer : ∀ id n p, t.node? id = some n → n.parent = some p → ∀ d, t.deadline? p = some d →
    ∃ d', n.deadline = some d' ∧ d' ≤ d
  told : ∀ a ∈ cancelled, ∀ id, t.Under a id → t.hasFired id = true
  due : ∀ id, t.hasFired id = true →
    (∃ a ∈ cancelled, t.Under a id) ∨ ∃ d, t.deadline? id = some d ∧ d ≤ now

variable {cancelled : List Nat}

/-- No scope was cancelled before there was one. -/
theorem governed_nil (now : Nat) : ({} : Scopes).Governed [] now where
  rooted := fun _ _ _ h => nomatch h
  known := nofun
  nearer := fun _ _ _ h => nomatch h
  told := nofun
  due := fun _ h => nomatch h

namespace Governed

/-- **A scope is done** if it was cancelled, itself or from above, or its deadline has come. -/
theorem isDone_iff (hg : t.Governed cancelled now) (id : Nat) : t.isDone now id = true ↔
    (∃ a ∈ cancelled, t.Under a id) ∨ ∃ d, t.deadline? id = some d ∧ d ≤ now := by
  rw [Scopes.isDone_iff]
  constructor
  · rintro (hfired | hdue)
    · exact hg.due id hfired
    · exact .inr hdue
  · rintro (⟨a, ha, hu⟩ | hdue)
    · exact .inl (hg.told a ha id hu)
    · exact .inr hdue

/-- The deadline of a scope below another one is no later. -/
theorem deadline_le (hg : t.Governed cancelled now) (hu : t.Under top id) {d : Nat}
    (hd : t.deadline? top = some d) : ∃ d', t.deadline? id = some d' ∧ d' ≤ d := by
  induction hu with
  | self => exact ⟨d, hd, Nat.le_refl d⟩
  | @derived id p n hn hp _ ih =>
    obtain ⟨dp, hdp, hle⟩ := ih
    obtain ⟨d', hd', hle'⟩ := hg.nearer id n p hn hp dp hdp
    refine ⟨d', ?_, Nat.le_trans hle' hle⟩
    rw [deadline?, hn]
    exact hd'

/-- Time passes. -/
theorem elapse (hg : t.Governed cancelled now) {moment : Nat} (hm : now ≤ moment) :
    t.Governed cancelled moment where
  rooted := hg.rooted
  known := hg.known
  nearer := hg.nearer
  told := hg.told
  due := by
    intro id hfired
    rcases hg.due id hfired with hcancelled | ⟨d, hd, hle⟩
    · exact .inl hcancelled
    · exact .inr ⟨d, hd, Nat.le_trans hle hm⟩

/-- A scope ends, for a reason that all below it share. -/
theorem finish (hg : t.Governed cancelled now) (htop : top < t.nodes.length)
    {cancelled' : List Nat} (hold : ∀ a ∈ cancelled, a ∈ cancelled')
    (hnew : ∀ a ∈ cancelled', a = top ∨ a ∈ cancelled)
    (hwhy : top ∈ cancelled' ∨ ∃ d, t.deadline? top = some d ∧ d ≤ now) :
    (t.finish top reason).Governed cancelled' now := by
  have he := extends_finish t top reason
  have hlength : (t.finish top reason).nodes.length = t.nodes.length := List.length_mapIdx
  have hunder (a id : Nat) (hid : id < t.nodes.length) :
      (t.finish top reason).Under a id ↔ t.Under a id := he.under_iff hg.rooted hid
  have hknown : ∀ a ∈ cancelled', a < t.nodes.length := by
    intro a ha
    rcases hnew a ha with rfl | ha
    · exact htop
    · exact hg.known a ha
  refine ⟨he.rooted hg.rooted, fun a ha => hlength ▸ hknown a ha, ?_, ?_, ?_⟩
  · intro id n p hn hp d hd
    rw [node?_finish] at hn
    obtain ⟨m, hm, rfl⟩ := Option.map_eq_some_iff.1 hn
    rw [deadline?_finish] at hd
    exact hg.nearer id m p hm hp d hd
  · intro a ha id hu
    have hid : id < t.nodes.length := hlength ▸ hu.known (hlength ▸ hknown a ha)
    rw [hunder a id hid] at hu
    rw [hasFired_finish hg.rooted]
    rcases hnew a ha with rfl | ha
    · exact .inr ⟨hid, hu⟩
    · exact .inl (hg.told a ha id hu)
  · intro id hfired
    rw [hasFired_finish hg.rooted] at hfired
    rw [deadline?_finish]
    rcases hfired with hfired | ⟨hid, hu⟩
    · rcases hg.due id hfired with ⟨a, ha, hu⟩ | hdue
      · have hid := hu.known (hg.known a ha)
        exact .inl ⟨a, hold a ha, (hunder a id hid).2 hu⟩
      · exact .inr hdue
    · rcases hwhy with hmem | ⟨d, hd, hle⟩
      · exact .inl ⟨top, hmem, (hunder top id hid).2 hu⟩
      · obtain ⟨d', hd', hle'⟩ := hg.deadline_le hu hd
        exact .inr ⟨d', hd', Nat.le_trans hle' hle⟩

/-- A scope is cancelled. -/
theorem cancel (hg : t.Governed cancelled now) (htop : top < t.nodes.length) :
    (t.cancel top).Governed (top :: cancelled) now := by
  apply hg.finish htop
  · intro a ha
    exact List.mem_cons_of_mem top ha
  · intro a ha
    exact List.mem_cons.1 ha
  · exact .inl List.mem_cons_self

/-- A scope ends at its deadline. -/
theorem expire (hg : t.Governed cancelled now) {d : Nat} (hd : t.deadline? top = some d)
    (hle : d ≤ now) : (t.expire top).Governed cancelled now := by
  apply hg.finish (lt_of_deadline? hd)
  · exact fun a ha => ha
  · exact fun a ha => .inr ha
  · exact .inr ⟨d, hd, hle⟩

end Governed

/-! ## New scopes -/

/-- A later tree with a new scope: which of the earlier scopes lie above it, and its deadline. -/
structure Made (t : Scopes) (above : Nat → Prop) (deadline : Option Nat) (t' : Scopes)
    (new : Nat) : Prop where
  tree : Extends t t'
  fresh : t.nodes.length ≤ new
  known : new < t'.nodes.length
  above : ∀ top < t.nodes.length, t'.Under top new ↔ above top
  deadline : t'.deadline? new = deadline
  deadlines : ∀ id < t.nodes.length, t'.deadline? id = t.deadline? id
  governed : ∀ cancelled now, t.Governed cancelled now → t'.Governed cancelled now

/-- A node that may be added to a tree: it stands below a known scope, or below none, has been told
to end if the one above it has, and its deadline is no later. -/
structure Admits (t : Scopes) (n : ScopeNode) : Prop where
  parent : ∀ p, n.parent = some p → p < t.nodes.length
  fired : n.fired = n.parent.any t.hasFired
  nearer : ∀ p, n.parent = some p → ∀ d, t.deadline? p = some d →
    ∃ d', n.deadline = some d' ∧ d' ≤ d

theorem hasFired_add (t : Scopes) (n : ScopeNode) (values : Members) (id : Nat) :
    (t.add n values).2.hasFired id = if id = t.nodes.length then n.fired else t.hasFired id := by
  rw [hasFired, node?_add]
  split <;> rfl

theorem deadline?_add (t : Scopes) (n : ScopeNode) (values : Members) (id : Nat) :
    (t.add n values).2.deadline? id = if id = t.nodes.length then n.deadline else t.deadline? id := by
  rw [deadline?, node?_add]
  split <;> rfl

/-- What lies above a node that is added. -/
theorem under_add (values : Members) (hr : t.Rooted)
    (hp : ∀ p, n.parent = some p → p < t.nodes.length) (htop : top < t.nodes.length) :
    (t.add n values).2.Under top t.nodes.length ↔ ∃ p, n.parent = some p ∧ t.Under top p := by
  have he : Extends t (t.add n values).2 := extends_add values hp
  have hnew : (t.add n values).2.node? t.nodes.length = some n := by
    rw [node?_add, if_pos rfl]
  constructor
  · intro hu
    cases hu with
    | self => exact absurd htop (Nat.lt_irrefl _)
    | @derived _ p m hm hparent hu =>
      obtain rfl : n = m := Option.some.inj (hnew.symm.trans hm)
      exact ⟨p, hparent, (he.under_iff hr (hp p hparent)).1 hu⟩
  · rintro ⟨p, hparent, hu⟩
    exact .derived hnew hparent ((he.under_iff hr (hp p hparent)).2 hu)

/-- What was told to end, and why, is known of a tree with one more node. -/
theorem Governed.add (hg : t.Governed cancelled now) (values : Members) (hn : t.Admits n) :
    (t.add n values).2.Governed cancelled now := by
  have he : Extends t (t.add n values).2 := extends_add values hn.parent
  have hdeadlines (id : Nat) (hid : id < t.nodes.length) :
      (t.add n values).2.deadline? id = t.deadline? id := by
    rw [deadline?_add, if_neg (Nat.ne_of_lt hid)]
  have habove (a : Nat) (ha : a ∈ cancelled) :
      (t.add n values).2.Under a t.nodes.length ↔ ∃ p, n.parent = some p ∧ t.Under a p :=
    under_add values hg.rooted hn.parent (hg.known a ha)
  refine ⟨he.rooted hg.rooted, fun a ha => he.lt (hg.known a ha), ?nearer, ?told, ?due⟩
  case nearer =>
    intro id m p hm hparent d hdp
    rw [node?_add] at hm
    split at hm
    · cases hm
      rw [hdeadlines p (hn.parent p hparent)] at hdp
      exact hn.nearer p hparent d hdp
    · have hlt : p < t.nodes.length := Nat.lt_trans (hg.rooted id m p hm hparent) (lt_of_node? hm)
      rw [hdeadlines p hlt] at hdp
      exact hg.nearer id m p hm hparent d hdp
  case told =>
    intro a ha id hu
    rw [hasFired_add]
    split
    · rename_i hid
      rw [hid] at hu
      obtain ⟨p, hparent, hup⟩ := (habove a ha).1 hu
      rw [hn.fired, hparent]
      exact hg.told a ha p hup
    · rename_i hid
      have hlength : (t.add n values).2.nodes.length = t.nodes.length + 1 := List.length_append
      have hknown := hu.known (he.lt (hg.known a ha))
      exact hg.told a ha id ((he.under_iff hg.rooted (by omega)).1 hu)
  case due =>
    intro id h
    rw [hasFired_add] at h
    rw [deadline?_add]
    split at h
    · -- The new scope has been told to end with the one above it.
      rename_i hid
      rw [hn.fired] at h
      obtain ⟨p, hparent, hfp⟩ := (Option.any_eq_true _ _).1 h
      rw [if_pos hid, hid]
      rcases hg.due p hfp with ⟨a, ha, hu⟩ | ⟨d, hdp, hle⟩
      · exact .inl ⟨a, ha, (habove a ha).2 ⟨p, hparent, hu⟩⟩
      · obtain ⟨d', hd', hle'⟩ := hn.nearer p hparent d hdp
        exact .inr ⟨d', hd', Nat.le_trans hle' hle⟩
    · rename_i hid
      rw [if_neg hid]
      rcases hg.due id h with ⟨a, ha, hu⟩ | hdue
      · obtain ⟨m, hm, -⟩ := (Option.any_eq_true _ _).1 h
        exact .inl ⟨a, ha, (he.under_iff hg.rooted (lt_of_node? hm)).2 hu⟩
      · exact .inr hdue

theorem made_add (values : Members) (hr : t.Rooted) (hn : t.Admits n) :
    Made t (fun top => ∃ p, n.parent = some p ∧ t.Under top p) n.deadline (t.add n values).2
      t.nodes.length where
  tree := extends_add values hn.parent
  fresh := Nat.le_refl _
  known := by
    show t.nodes.length < (t.nodes ++ [n]).length
    simp
  above _ htop := under_add values hr hn.parent htop
  deadline := by rw [deadline?_add, if_pos rfl]
  deadlines id hid := by rw [deadline?_add, if_neg (Nat.ne_of_lt hid)]
  governed _ _ hg := hg.add values hn

theorem Made.congr {above above' : Nat → Prop} {deadline deadline' : Option Nat} {new : Nat}
    (h : Made t above deadline t' new) (ha : ∀ top < t.nodes.length, above top ↔ above' top)
    (hd : deadline = deadline') : Made t above' deadline' t' new :=
  { h with
    above := fun top htop => (h.above top htop).trans (ha top htop)
    deadline := h.deadline.trans hd }

/-- A scope for a new scope. -/
theorem Made.trans {above : Nat → Prop} {deadline deadline' : Option Nat} {mid new : Nat}
    (h : Made t above deadline t' mid)
    (h' : Made t' (fun top => t'.Under top mid) deadline' t'' new) :
    Made t above deadline' t'' new where
  tree := h.tree.trans h'.tree
  fresh := Nat.le_trans h.fresh (Nat.le_trans (Nat.le_of_lt h.known) h'.fresh)
  known := h'.known
  above top htop := (h'.above top (h.tree.lt htop)).trans (h.above top htop)
  deadline := h'.deadline
  deadlines id hid := (h'.deadlines id (h.tree.lt hid)).trans (h.deadlines id hid)
  governed cancelled now hg := h'.governed cancelled now (h.governed cancelled now hg)

/-- A scope of its own. -/
theorem made_alone (hr : t.Rooted) (values : Members) :
    Made t (fun _ => False) none (t.add ⟨none, none, none, false⟩ values).2 t.nodes.length := by
  apply (made_add (n := ⟨none, none, none, false⟩) values hr ⟨nofun, rfl, nofun⟩).congr
  · intro top _
    simp
  · rfl

/-- A scope below another one, with a deadline that is no later. -/
theorem made_below (hr : t.Rooted) {s : Scope} (hs : s.id < t.nodes.length) {deadline : Option Nat}
    (hd : ∀ d, t.deadline? s.id = some d → ∃ d', deadline = some d' ∧ d' ≤ d) :
    Made t (fun top => t.Under top s.id) deadline
      (t.add ⟨some s.id, deadline, none, t.hasFired s.id⟩ s.values).2 t.nodes.length := by
  have hn : t.Admits ⟨some s.id, deadline, none, t.hasFired s.id⟩ := by
    refine ⟨?_, rfl, ?_⟩
    · rintro p ⟨⟩
      exact hs
    · rintro p ⟨⟩
      exact hd
  apply (made_add s.values hr hn).congr
  · intro top _
    simp
  · rfl

/-- A scope below another one. -/
theorem made_child (hr : t.Rooted) {s : Scope} (hs : s.id < t.nodes.length) :
    Made t (fun top => t.Under top s.id) (t.deadline? s.id) (t.child s).2 (t.child s).1.id :=
  made_below hr hs fun d hd => ⟨d, hd, Nat.le_refl d⟩

/-- A scope below another one with a deadline. -/
theorem made_withDeadline (hr : t.Rooted) {s : Scope} (hs : s.id < t.nodes.length)
    (deadline : Nat) : Made t (fun top => t.Under top s.id)
      (if (t.deadline? s.id).any (· ≤ deadline) then t.deadline? s.id else some deadline)
      (t.withDeadline s deadline).2.2 (t.withDeadline s deadline).1.id := by
  obtain ⟨hscope, -, htree⟩ := t.withDeadline_eq s deadline
  rw [hscope, htree]
  apply made_below hr hs
  intro d hd
  simp only [hd, Option.any_some, decide_eq_true_eq]
  split
  · exact ⟨d, rfl, Nat.le_refl d⟩
  · exact ⟨deadline, rfl, by omega⟩

end Scopes

end AgentStream
