/-
# Where a replay points

The tables of a replay point into its messages: a text at the message that it opened, a tool call at
its place among those from its text.  Each of them stands there once, so a change through a table
reaches one message and one tool call.

* `Points` : a way to find the one place in a list that has a key;
* `Placed`, `Started` : texts and tool calls are found where they were opened and started;
* `map_eq_modify` : a change in one place of a list.
-/
import AgentStream.Proofs.Replay.Basic
import AgentStream.Proofs.Replay.Openings

namespace AgentStream

open Body

/-! ## Lists that differ in one place -/

section Lists

variable {α β : Type} {xs : List α} {a : α} {i : Nat}

theorem getElem?_concat (xs : List α) (a : α) (i : Nat) :
    (xs ++ [a])[i]? = if i = xs.length then some a else xs[i]? := by
  by_cases hi : i = xs.length
  · rw [if_pos hi, hi, List.getElem?_concat_length]
  · rw [if_neg hi]
    by_cases hlt : i < xs.length
    · exact List.getElem?_append_left hlt
    · rw [List.getElem?_eq_none (Nat.not_lt.1 hlt), List.getElem?_eq_none]
      rw [List.length_append, List.length_singleton]
      omega

theorem getElem?_append_some (h : xs[i]? = some a) (ys : List α) : (xs ++ ys)[i]? = some a := by
  obtain ⟨hi, -⟩ := List.getElem?_eq_some_iff.1 h
  rw [List.getElem?_append_left hi, h]

/-- Two functions that differ at one place of a list, by a change. -/
theorem map_eq_modify {f g : α → β} {change : β → β}
    (hchange : ∀ a, xs[i]? = some a → g a = change (f a))
    (hother : ∀ j a, j ≠ i → xs[j]? = some a → g a = f a) :
    xs.map g = (xs.map f).modify i change := by
  apply List.ext_getElem?
  intro j
  rw [List.getElem?_modify, List.getElem?_map, List.getElem?_map]
  cases hj : xs[j]? with
  | none => rfl
  | some a =>
    by_cases hij : i = j
    · subst hij
      simp [hchange a hj]
    · simp [hij, hother j a (Ne.symm hij) hj]

/-- What is found under a key is the place in a list that has the key, and the only one. -/
def Points (find : String → Option Nat) (key : α → Option String) (xs : List α) : Prop :=
  ∀ k i, find k = some i ↔ xs[i]?.bind key = some k

theorem Points.congr {find find' : String → Option Nat} {key : α → Option String}
    (h : Points find key xs) (hfind : ∀ k, find' k = find k) : Points find' key xs := by
  intro k i
  rw [hfind]
  exact h k i

/-- One more element behind the others, whose key is new. -/
theorem Points.concat {find find' : String → Option Nat} {key : α → Option String}
    (h : Points find key xs) (hnew : ∀ k, key a = some k → find k = none)
    (hfind : ∀ k, find' k = if key a = some k then some xs.length else find k) :
    Points find' key (xs ++ [a]) := by
  intro k i
  rw [getElem?_concat, hfind]
  by_cases hi : i = xs.length
  · -- The last place was free before, so only the new key can be found there.
    have hfree : find k ≠ some xs.length := by
      intro hk
      have hat := (h k xs.length).1 hk
      rw [List.getElem?_eq_none (Nat.le_refl _)] at hat
      cases hat
    rw [if_pos hi, hi, Option.bind_some]
    by_cases hk : key a = some k
    · rw [if_pos hk]
      exact iff_of_true rfl hk
    · rw [if_neg hk]
      exact iff_of_false hfree hk
  · rw [if_neg hi, ← h k i]
    by_cases hk : key a = some k
    · rw [if_pos hk, hnew k hk]
      refine iff_of_false ?_ nofun
      intro he
      exact hi (Option.some.inj he).symm
    · rw [if_neg hk]

end Lists

/-! ## Where the tables point -/

variable {id : String} {b : Body} {bodies : List Body} {opened : List Opening} {o : Opening}

/-- Where a text is known to be. -/
def textPlace (texts : List (String × TextState)) (id : String) : Option Nat :=
  (texts.lookup id).map TextState.index

/-- The place of a tool call among those from a text, if it is one of them. -/
def CallState.placeIn (parent : String) (c : CallState) : Option Nat :=
  if c.messageId = parent then some c.index else none

/-- Where a tool call is known to be among those from a text. -/
def callPlace (calls : List (String × CallState)) (parent id : String) : Option Nat :=
  (calls.lookup id).bind (CallState.placeIn parent)

/-- A text is known where its opening is. -/
def Placed (texts : List (String × TextState)) (opened : List Opening) : Prop :=
  Points (textPlace texts) Opening.text? opened

/-- A tool call is known where it is among those from its text. -/
def Started (calls : List (String × CallState)) (bodies : List Body) : Prop :=
  ∀ parent, Points (callPlace calls parent) (fun x => some x.1) (callsFrom parent bodies)

namespace Placed

variable {texts : List (String × TextState)} {t : TextState}

/-- The opening of a known text. -/
theorem opening (h : Placed texts opened) (hl : texts.lookup id = some t) :
    ∃ o, opened[t.index]? = some o ∧ o.text? = some id := by
  have hplace : textPlace texts id = some t.index := by rw [textPlace, hl, Option.map_some]
  exact Option.bind_eq_some_iff.1 ((h id t.index).1 hplace)

/-- A known text is not opened elsewhere. -/
theorem unique (h : Placed texts opened) (hl : texts.lookup id = some t) {j : Nat}
    (hj : j ≠ t.index) (ho : opened[j]? = some o) : o.text? ≠ some id := by
  intro htext
  have hplace := (h id j).2 (by rw [ho]; exact htext)
  rw [textPlace, hl] at hplace
  exact hj (Option.some.inj hplace).symm

/-- A message that is not the message of a text. -/
theorem other (h : Placed texts opened) (ho : o.text? = none) : Placed texts (opened ++ [o]) := by
  refine h.concat ?_ ?_
  · intro k hk
    rw [ho] at hk
    cases hk
  · intro k
    rw [ho, if_neg nofun]

/-- A text that is not known. -/
theorem text (h : Placed texts opened) (hn : texts.lookup id = none) (ho : o.text? = some id)
    (content : String) (ended : Bool) :
    Placed (texts ++ [(id, ⟨content, ended, opened.length⟩)]) (opened ++ [o]) := by
  refine h.concat ?_ ?_
  · intro k hk
    rw [ho] at hk
    rw [textPlace, ← Option.some.inj hk, hn, Option.map_none]
  · intro k
    rw [textPlace, lookup_concat hn, ho]
    by_cases hk : k = id
    · rw [if_pos hk, if_pos (congrArg some hk.symm), Option.map_some]
    · rw [if_neg hk, if_neg fun he => hk (Option.some.inj he).symm, textPlace]

/-- A text that changes stays where it is. -/
theorem update (h : Placed texts opened) (id : String) {f : TextState → TextState}
    (hf : ∀ t, (f t).index = t.index) : Placed (Replay.update id f texts) opened := by
  refine h.congr ?_
  intro k
  rw [textPlace, textPlace, Replay.lookup_update]
  split
  · rw [Option.map_map, show TextState.index ∘ f = TextState.index from funext hf]
  · rfl

end Placed

namespace Started

variable {calls : List (String × CallState)} {c : CallState}

/-- The place of a known call among those from its text. -/
theorem start (h : Started calls bodies) (hl : calls.lookup id = some c) :
    ∃ name, (callsFrom c.messageId bodies)[c.index]? = some (id, name) := by
  have hplace : callPlace calls c.messageId id = some c.index := by
    rw [callPlace, hl, Option.bind_some, CallState.placeIn, if_pos rfl]
  obtain ⟨⟨id', name⟩, hat, hid⟩ :=
    Option.bind_eq_some_iff.1 ((h c.messageId id c.index).1 hplace)
  cases hid
  exact ⟨name, hat⟩

/-- A call stands among those from a text only where it is known to be. -/
theorem known (h : Started calls bodies) {parent name : String} {j : Nat}
    (hj : (callsFrom parent bodies)[j]? = some (id, name)) :
    ∃ c, calls.lookup id = some c ∧ c.messageId = parent ∧ c.index = j := by
  have hplace := (h parent id j).2 (by rw [hj, Option.bind_some])
  obtain ⟨c, hl, hc⟩ := Option.bind_eq_some_iff.1 hplace
  rw [CallState.placeIn] at hc
  split at hc
  · rename_i hparent
    exact ⟨c, hl, hparent, Option.some.inj hc⟩
  · cases hc

/-- An event that starts no call. -/
theorem other (h : Started calls bodies) (hb : ∀ parent, b.callFrom? parent = none) :
    Started calls (bodies ++ [b]) := by
  intro parent
  rw [callsFrom_concat, hb, Option.toList_none, List.append_nil]
  exact h parent

/-- A call that changes stays where it is. -/
theorem update (h : Started calls bodies) (id : String) {f : CallState → CallState}
    (hf : ∀ c parent, (f c).placeIn parent = c.placeIn parent) :
    Started (Replay.update id f calls) bodies := by
  intro parent
  refine (h parent).congr ?_
  intro k
  have hsame : CallState.placeIn parent ∘ f = CallState.placeIn parent :=
    funext fun c => hf c parent
  rw [callPlace, callPlace, Replay.lookup_update]
  split
  · rw [Option.bind_map, hsame]
  · rfl

/-- A call that is not known is the last one from its text. -/
theorem call (h : Started calls bodies) (hn : calls.lookup id = none)
    (name parent arguments : String) (phase : CallPhase) :
    Started (calls ++ [(id, ⟨parent, arguments, phase, (callsFrom parent bodies).length⟩)])
      (bodies ++ [toolStart id name (some parent)]) := by
  intro p
  rw [callsFrom_concat]
  by_cases hp : some parent = some p
  · cases hp
    rw [callFrom?, if_pos rfl, Option.toList_some]
    refine (h parent).concat ?_ ?_
    · intro k hk
      rw [callPlace, ← Option.some.inj hk, hn, Option.bind_none]
    · intro k
      rw [callPlace, lookup_concat hn]
      by_cases hk : k = id
      · rw [if_pos hk, if_pos (congrArg some hk.symm), Option.bind_some, CallState.placeIn,
          if_pos rfl]
      · rw [if_neg hk, if_neg fun he => hk (Option.some.inj he).symm, callPlace]
  · rw [callFrom?, if_neg hp, Option.toList_none, List.append_nil]
    refine (h p).congr ?_
    intro k
    rw [callPlace, callPlace, lookup_concat hn]
    by_cases hk : k = id
    · -- The new call is not one of those from another text.
      rw [if_pos hk, hk, hn, Option.bind_some, CallState.placeIn,
        if_neg fun he => hp (congrArg some he), Option.bind_none]
    · rw [if_neg hk]

end Started

end AgentStream
