/-
# Merging and what it leaves alone

A merger only ever joins neighbouring pieces of one message.  So the events that it was given
and those that it lets go, with the piece that it still holds back, come to the same once all
such neighbours are joined.

* `Joins` : neighbours in a list were joined, any number of times;
* `getLast?_joins` : the last event stays the last one;
* `coalesce` : events with all neighbouring pieces of one message joined;
* `coalesce_eq_of_joins` : it does not matter which neighbours were joined before;
* `Merger.push_joins`, `Merger.push_prefix` : what a merger lets go of.
-/
import Mathlib.Logic.Relation
import AgentStream.Log.Merger

namespace AgentStream

/-! ## Joining neighbours -/

section Joins

variable {α β : Type} {join? : α → α → Option α} {xs xs' ys ys' zs : List α}

/-- Two neighbours in a list are joined. -/
inductive Joined (join? : α → α → Option α) : List α → List α → Prop
  | mk (before after : List α) {a b c : α} (h : join? a b = some c) :
    Joined join? (before ++ a :: b :: after) (before ++ c :: after)

/-- Neighbours in a list were joined, any number of times. -/
def Joins (join? : α → α → Option α) : List α → List α → Prop :=
  Relation.ReflTransGen (Joined join?)

theorem Joins.refl (xs : List α) : Joins join? xs xs := Relation.ReflTransGen.refl

theorem Joins.trans (h : Joins join? xs ys) (h' : Joins join? ys zs) : Joins join? xs zs :=
  Relation.ReflTransGen.trans h h'

/-- Nothing comes to nothing. -/
theorem Joins.nil (h : Joins join? [] ys) : ys = [] := by
  induction h with
  | refl => rfl
  | tail _ hstep ih =>
    cases hstep
    simp at ih

theorem joins_pair {a b c : α} (h : join? a b = some c) : Joins join? [a, b] [c] :=
  Relation.ReflTransGen.single (.mk [] [] h)

theorem Joined.append_left (h : Joined join? xs ys) : Joined join? (zs ++ xs) (zs ++ ys) := by
  cases h with
  | mk before after h =>
    rw [← List.append_assoc, ← List.append_assoc]
    exact .mk (zs ++ before) after h

theorem Joined.append_right (h : Joined join? xs ys) : Joined join? (xs ++ zs) (ys ++ zs) := by
  cases h with
  | mk before after h =>
    rw [List.append_assoc, List.append_assoc]
    exact .mk before (after ++ zs) h

/-- Lists in two parts are joined part by part. -/
theorem Joins.append (h : Joins join? xs ys) (h' : Joins join? xs' ys') :
    Joins join? (xs ++ xs') (ys ++ ys') :=
  Joins.trans (h.lift (· ++ xs') fun _ _ => Joined.append_right)
    (h'.lift (ys ++ ·) fun _ _ => Joined.append_left)

end Joins

/-! ## Events with all neighbours joined -/

open Merger (merge?)

/-- An event in front of others, joined with the first of them if these are pieces of one
message. -/
def joinFront (e : Event) : List Event → List Event
  | [] => [e]
  | e' :: rest =>
    match merge? e e' with
    | some merged => merged :: rest
    | none => e :: e' :: rest

/-- Events with all neighbouring pieces of one message joined. -/
def coalesce (events : List Event) : List Event := events.foldr joinFront []

variable {e e' merged : Event} {events events' : List Event}

theorem coalesce_cons (e : Event) (events : List Event) :
    coalesce (e :: events) = joinFront e (coalesce events) := rfl

theorem merge?_eq_some (h : merge? e e' = some merged) :
    ∃ m d d', e.body = .textContent m d ∧ e'.body = .textContent m d' ∧
      merged = { e with body := .textContent m (d ++ d') } := by
  unfold merge? at h
  split at h
  · rename_i m d m' d' hd hd'
    split at h
    · rename_i hm
      subst hm
      cases h
      exact ⟨m, d, d', hd, hd', rfl⟩
    · cases h
  · cases h

theorem merge?_pieces {m m' d d' : String} (h : e.body = .textContent m d)
    (h' : e'.body = .textContent m' d') :
    merge? e e' = if m = m' then some { e with body := .textContent m (d ++ d') } else none := by
  rw [merge?, h, h']

/-- What does not go on with the second of two pieces does not go on with both. -/
theorem merge?_none {e₁ e₂ e₁₂ e₃ : Event} (h : merge? e₁ e₂ = some e₁₂)
    (h₃ : merge? e₂ e₃ = none) : merge? e₁₂ e₃ = none := by
  obtain ⟨m, d, d', -, hd', rfl⟩ := merge?_eq_some h
  cases hb : e₃.body with
  | textContent m₃ d₃ =>
    rw [merge?_pieces hd' hb] at h₃
    have hm : m ≠ m₃ := fun hm => by simp [hm] at h₃
    rw [merge?_pieces rfl hb, if_neg hm]
  | _ => simp only [merge?, hb]

/-- Of three pieces of a message any two may be merged first. -/
theorem merge?_assoc {e₁ e₂ e₃ e₁₂ e₂₃ : Event} (h : merge? e₁ e₂ = some e₁₂)
    (h₃ : merge? e₂ e₃ = some e₂₃) : ∃ e, merge? e₁ e₂₃ = some e ∧ merge? e₁₂ e₃ = some e := by
  obtain ⟨m, d₁, d₂, h₁, h₂, rfl⟩ := merge?_eq_some h
  obtain ⟨m', d₂', d₃, h₂', h₃', rfl⟩ := merge?_eq_some h₃
  obtain ⟨rfl, rfl⟩ := Body.textContent.inj (h₂.symm.trans h₂')
  have hfirst : merge? e₁ { e₂ with body := .textContent m (d₂ ++ d₃) }
      = some { e₁ with body := .textContent m (d₁ ++ (d₂ ++ d₃)) } := by
    rw [merge?_pieces h₁ rfl, if_pos rfl]
  have hsecond : merge? { e₁ with body := .textContent m (d₁ ++ d₂) } e₃
      = some { e₁ with body := .textContent m (d₁ ++ d₂ ++ d₃) } := by
    rw [merge?_pieces rfl h₃', if_pos rfl]
  rw [String.append_assoc] at hsecond
  exact ⟨_, hfirst, hsecond⟩

/-- The last event stays the last one unless it is a piece. -/
theorem getLast?_joins (h : Joins merge? events events') (hl : events.getLast? = some e)
    (he : Merger.isPiece e = false) : events'.getLast? = some e := by
  induction h with
  | refl => exact hl
  | tail _ hstep ih =>
    cases hstep with
    | @mk before after a b c hmerge =>
      rw [List.getLast?_append] at ih ⊢
      cases after with
      | nil =>
        -- The last event would be the second of two pieces.
        have hb : b = e := Option.some.inj ih
        obtain ⟨m, d, d', -, hbody, -⟩ := merge?_eq_some hmerge
        rw [Merger.isPiece, ← hb, hbody] at he
        exact nomatch he
      | cons e' after => exact ih

theorem joinFront_merged {e₁ e₂ e₁₂ : Event} (h : merge? e₁ e₂ = some e₁₂)
    (events : List Event) : joinFront e₁ (joinFront e₂ events) = joinFront e₁₂ events := by
  cases events with
  | nil => simp only [joinFront, h]
  | cons e₃ rest =>
    cases h₃ : merge? e₂ e₃ with
    | none =>
      have h₁₂₃ : merge? e₁₂ e₃ = none := merge?_none h h₃
      simp only [joinFront, h₃, h, h₁₂₃]
    | some e₂₃ =>
      obtain ⟨e, hfirst, hsecond⟩ := merge?_assoc h h₃
      simp only [joinFront, h₃, hfirst, hsecond]

theorem coalesce_append (events events' : List Event) :
    coalesce (events ++ events') = events.foldr joinFront (coalesce events') := by
  rw [coalesce, List.foldr_append]
  rfl

/-- **Events come to the same whichever neighbours were joined before.** -/
theorem coalesce_eq_of_joins (h : Joins merge? events events') :
    coalesce events = coalesce events' := by
  induction h with
  | refl => rfl
  | tail _ hstep ih =>
    cases hstep with
    | mk before after h =>
      rw [ih, coalesce_append, coalesce_append, coalesce_cons, coalesce_cons, coalesce_cons,
        joinFront_merged h]

/-! ## Mergers -/

namespace Merger

variable {m : Merger}

/-- A merger that does not merge holds nothing back. -/
def Sound (m : Merger) : Prop := m.enabled = false → m.pending = none

/-- A merger that merges joins a piece with the one it holds back, holds back another piece in
its place, or lets go of both what it holds back and the event. -/
theorem push_cases (h : m.enabled = true) (e : Event) :
    (∃ p merged, m.pending = some p ∧ merge? p e = some merged ∧
      m.push e = ([], { m with pending := some merged })) ∨
    m.push e = (m.pending.toList, { m with pending := some e }) ∨
    m.push e = (m.pending.toList ++ [e], { m with pending := none }) := by
  have hpush : m.push e = match m.pending.bind (merge? · e) with
      | some merged => ([], { m with pending := some merged })
      | none =>
        if isPiece e then (m.pending.toList, { m with pending := some e })
        else (m.pending.toList ++ [e], { m with pending := none }) := by
    rw [push, h]
    rfl
  rw [hpush]
  cases hm : m.pending.bind (merge? · e) with
  | some merged =>
    obtain ⟨p, hp, hmerge⟩ := Option.bind_eq_some_iff.1 hm
    exact .inl ⟨p, merged, hp, hmerge, rfl⟩
  | none =>
    by_cases hpiece : isPiece e = true
    · exact .inr (.inl (if_pos hpiece))
    · exact .inr (.inr (if_neg hpiece))

theorem push_sound (h : m.Sound) (e : Event) : (m.push e).2.Sound := by
  intro hd
  cases hm : m.enabled with
  | false =>
    rw [push, hm] at hd ⊢
    exact h hm
  | true =>
    -- Merging is never switched off.
    rcases push_cases hm e with ⟨p, merged, -, -, hpush⟩ | hpush | hpush
    all_goals
      rw [hpush] at hd
      exact absurd (hm.symm.trans hd) nofun

/-- What a merger lets go, with what it then holds back, is what it held back with the event
behind it, up to joining. -/
theorem push_joins (h : m.Sound) (e : Event) :
    Joins merge? (m.pending.toList ++ [e]) ((m.push e).1 ++ (m.push e).2.pending.toList) := by
  cases hm : m.enabled with
  | false =>
    have hpush : m.push e = ([e], m) := by
      rw [push, hm]
      rfl
    rw [hpush, h hm]
    exact Joins.refl [e]
  | true =>
    rcases push_cases hm e with ⟨p, merged, hp, hmerge, hpush⟩ | hpush | hpush
    · rw [hpush, hp]
      exact joins_pair hmerge
    · rw [hpush]
      exact Joins.refl _
    · rw [hpush]
      exact (congrArg (Joins merge? _) (List.append_nil _)).mpr (Joins.refl _)

/-- A proper first part of one event is empty. -/
theorem eq_nil_of_singleton {e : Event} {done rest : List Event} (h : [e] = done ++ rest)
    (hrest : rest ≠ []) : done = [] := by
  rcases List.singleton_eq_append_iff.1 h with ⟨hdone, -⟩ | ⟨-, hnil⟩
  · exact hdone
  · exact absurd hnil hrest

/-- What is let go of begins with the piece that was held back.  If it is not let go of whole,
that piece and nothing else is, or not even that piece. -/
theorem push_prefix (h : m.Sound) {e : Event} {done rest : List Event}
    (hsplit : (m.push e).1 = done ++ rest) (hrest : rest ≠ []) :
    done = m.pending.toList ∧ (m.push e).2.pending = none ∨ done = [] ∧ m.pending ≠ none := by
  cases hm : m.enabled with
  | false =>
    have hpush : m.push e = ([e], m) := by
      rw [push, hm]
      rfl
    rw [hpush] at hsplit ⊢
    rw [h hm]
    exact .inl ⟨eq_nil_of_singleton hsplit hrest, rfl⟩
  | true =>
    rcases push_cases hm e with ⟨p, merged, -, -, hpush⟩ | hpush | hpush
    · rw [hpush] at hsplit
      exact absurd (List.nil_eq_append_iff.1 hsplit).2 hrest
    · rw [hpush] at hsplit ⊢
      cases hp : m.pending with
      | none =>
        rw [hp] at hsplit
        exact absurd (List.nil_eq_append_iff.1 hsplit).2 hrest
      | some p =>
        rw [hp] at hsplit
        exact .inr ⟨eq_nil_of_singleton hsplit hrest, nofun⟩
    · rw [hpush] at hsplit ⊢
      cases done with
      | nil =>
        cases hp : m.pending with
        | none => exact .inl ⟨rfl, rfl⟩
        | some p => exact .inr ⟨rfl, nofun⟩
      | cons d done =>
        cases hp : m.pending with
        | none =>
          rw [hp] at hsplit
          obtain ⟨-, hnil⟩ := List.cons.inj hsplit
          exact absurd (List.nil_eq_append_iff.1 hnil).2 hrest
        | some p =>
          rw [hp] at hsplit
          obtain ⟨hd, hsplit⟩ := List.cons.inj hsplit
          refine .inl ⟨?_, rfl⟩
          rw [eq_nil_of_singleton hsplit hrest, ← hd]
          rfl

end Merger

end AgentStream
