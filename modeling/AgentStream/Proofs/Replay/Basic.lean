/-
# Replays of parts of logs

A log is replayed entry by entry, so what its first part comes to is all that the rest depends
on.

* `Replay.steps_append` : a log in two parts;
* `Replay.Gives`, `Replay.Passes` : what a step gives and what a part of a log comes to, unless a
  failure ends the replay;
* `Replay.lookup_update` : what is known under an id once a change was made;
* `Replay.step_frame` : an entry that holds an event of a frame.
-/
import AgentStream.Proofs.Event.Codec
import AgentStream.Proofs.Table
import AgentStream.Replay

namespace AgentStream

namespace Replay

/-! ## Logs in parts -/

theorem steps_append (r : Replay) (xs ys : List Entry) :
    r.steps (xs ++ ys) =
      match r.steps xs with
      | (r, none) => r.steps ys
      | (r, some error) => (r, some error) := by
  induction xs generalizing r with
  | nil => rfl
  | cons e xs ih =>
    rw [List.cons_append, steps, steps]
    cases r.step e with
    | error error => rfl
    | ok r => exact ih r

/-- A step gives a state with a property, unless it fails in an allowed way. -/
def Gives (allowed : ReplayError → Prop) (P : Replay → Prop) (x : Except ReplayError Replay) :
    Prop :=
  match x with
  | .ok r => P r
  | .error error => allowed error

/-- The replay of a log comes to a state with a property, unless an allowed failure ends it. -/
def Passes (allowed : ReplayError → Prop) (P : Replay → Prop) (r : Replay) (log : List Entry) :
    Prop :=
  match r.steps log with
  | (r, none) => P r
  | (_, some error) => allowed error

variable {allowed : ReplayError → Prop} {P Q : Replay → Prop} {r : Replay}

theorem passes_cons {e : Entry} {log : List Entry}
    (h : Gives allowed (fun r' => Passes allowed P r' log) (r.step e)) :
    Passes allowed P r (e :: log) := by
  unfold Passes
  rw [steps]
  cases hs : r.step e with
  | error error =>
    rw [hs] at h
    exact h
  | ok r' =>
    rw [hs] at h
    exact h

theorem Gives.imp {x : Except ReplayError Replay} (h : Gives allowed P x)
    (hpq : ∀ r', P r' → Q r') : Gives allowed Q x := by
  cases x with
  | error error => exact h
  | ok r' => exact hpq r' h

theorem Passes.imp {log : List Entry} (h : Passes allowed P r log) (hpq : ∀ r', P r' → Q r') :
    Passes allowed Q r log := by
  unfold Passes at h ⊢
  split at h
  · exact hpq _ h
  · exact h

theorem Passes.append {xs ys : List Entry} (hx : Passes allowed P r xs)
    (hy : ∀ r', P r' → Passes allowed Q r' ys) : Passes allowed Q r (xs ++ ys) := by
  unfold Passes at hx ⊢
  rw [steps_append]
  cases h : r.steps xs with
  | mk r' error =>
    rw [h] at hx
    cases error with
    | none => exact hy r' hx
    | some error => exact hx

/-! ## Tables -/

theorem update_cons {α : Type} (id : String) (f : α → α) (k : String) (a : α)
    (table : List (String × α)) :
    update id f ((k, a) :: table) = (k, if k = id then f a else a) :: update id f table := by
  have h : (if k = id then (k, f a) else (k, a)) = (k, if k = id then f a else a) := by
    split <;> rfl
  exact congrArg (· :: update id f table) h

theorem lookup_update {α : Type} (id : String) (f : α → α) (table : List (String × α))
    (key : String) : (update id f table).lookup key
      = if key = id then (table.lookup key).map f else table.lookup key := by
  induction table with
  | nil => split <;> rfl
  | cons x table ih =>
    rw [update_cons, lookup_cons_ite, lookup_cons_ite, ih]
    by_cases hk : key = x.1
    · rw [if_pos hk, if_pos hk, hk]
      split <;> rfl
    · rw [if_neg hk, if_neg hk]

/-- A change keeps what is known. -/
theorem isSome_lookup_update {α : Type} (id : String) (f : α → α) (table : List (String × α))
    (key : String) : ((update id f table).lookup key).isSome = (table.lookup key).isSome := by
  rw [lookup_update]
  split
  · exact Option.isSome_map
  · rfl

/-! ## Entries -/

/-- An entry that holds an event of a frame says what that event says. -/
theorem step_frame {e : Entry} {b : Body} (hb : b.isFrame = true)
    (he : e.payload = (b : Event).encode) : r.step e = r.event e.timestamp b := by
  rw [step, Entry.event, he, Event.encode_ne_nil, Event.ofBytes_frame hb]
  rfl

end Replay

end AgentStream
