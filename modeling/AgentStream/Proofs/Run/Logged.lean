/-
# The log of a run

A run tells the recorder what to append to its session and then to flush.  If the recorder is told
just that for the session, whatever else it is used for meanwhile, the log of the session comes to
the record of what the run has delivered.

* `Recorder.Use.call?`, `Recorder.Use.ofDeed?` : what a recorder is told for a session;
* `Recorder.log_of_calls` : the log of a session for which it was told nothing else.
-/
import Mathlib.Data.List.Basic
import AgentStream.Proofs.Log.Faithful
import AgentStream.Proofs.Run.Record

namespace AgentStream

open Merger (merge?)

namespace Recorder

variable {σ : Type} [LogStore σ] {log : σ → SessionKey → List Entry} {key : SessionKey}
  {r : Recorder σ}

/-- What an operation tells the recorder for a session. -/
def Use.call? (u : Use) (key : SessionKey) : Option Deed :=
  match u.operation with
  | .append e => if u.key = key then some (.append e) else none
  | .flush => if u.key = key then some .flush else none
  | .events _ => none
  | .tick => none

/-- A call of the recorder, as an operation on a session at some readings of the clock. -/
def Use.ofDeed? (key : SessionKey) (clock : Nat → Nat) : Deed → Option Use
  | .deliver _ => none
  | .append e => some ⟨key, clock, .append e⟩
  | .flush => some ⟨key, clock, .flush⟩

/-- The calls of the recorder, carried out for a session, tell it nothing else. -/
theorem calls_of_deeds (key : SessionKey) (clock : Nat → Nat) (deeds : List Deed) :
    (deeds.filterMap (Use.ofDeed? key clock)).filterMap (·.call? key)
      = deeds.filter Deed.isCall := by
  rw [List.filterMap_filterMap, ← List.filterMap_eq_filter]
  refine congrArg (List.filterMap · deeds) (funext fun d => ?_)
  cases d with
  | deliver e => rfl
  | append e => exact if_pos rfl
  | flush => exact if_pos rfl

theorem Use.appends_eq (u : Use) (key : SessionKey) :
    u.appends key = ((u.call? key).bind Deed.appended?).toList := by
  obtain ⟨k, clock, operation⟩ := u
  cases operation with
  | append e =>
    simp only [appends, call?]
    split <;> rfl
  | flush =>
    simp only [appends, call?]
    split <;> rfl
  | events after => rfl
  | tick => rfl

/-- What is appended to a session is what the recorder is told to append. -/
theorem appends_of_calls (uses : List Use) (key : SessionKey) :
    uses.flatMap (·.appends key) = (uses.filterMap (·.call? key)).filterMap Deed.appended? := by
  rw [List.filterMap_filterMap, List.filterMap_eq_flatMap_toList]
  exact congrArg uses.flatMap (funext fun u => u.appends_eq key)

theorem after_append (r : Recorder σ) (uses uses' : List Use) :
    r.after (uses ++ uses') = (r.after uses).after uses' := List.foldl_append

/-- A call of a session that is a flush. -/
theorem eq_flush_of_call {u : Use} (h : u.call? key = some .flush) :
    ∃ clock, u = ⟨key, clock, .flush⟩ := by
  obtain ⟨k, clock, operation⟩ := u
  cases operation with
  | append e =>
    simp only [Use.call?] at h
    split at h <;> exact nomatch h
  | flush =>
    simp only [Use.call?] at h
    split at h
    · rename_i hk
      exact ⟨clock, by rw [hk]⟩
    · exact nomatch h
  | events after => exact nomatch h
  | tick => exact nomatch h

/-- If the last thing that a recorder was told for a session is to flush, it holds nothing back. -/
theorem heldBack_of_calls (hs : LogStore.Shows log) (hn : LogStore.NeverFails σ)
    (hkey : key.isValid = true) (hr : r.Sound) {uses : List Use} {calls : List Deed}
    (hu : uses.filterMap (·.call? key) = calls ++ [.flush]) :
    (r.after uses).heldBack key = [] := by
  obtain ⟨before, rest, rfl, -, hrest⟩ := List.filterMap_eq_append_iff.1 hu
  obtain ⟨between, u, later, rfl, -, hflush, hlater⟩ := List.filterMap_eq_cons_iff.1 hrest
  obtain ⟨clock, rfl⟩ := eq_flush_of_call hflush
  let r₁ := r.after (before ++ between)
  have hsound₁ : r₁.Sound := (after_grows_appends hs hn hkey hr (before ++ between)).1
  have hsound : (r₁.flush clock key).2.Sound :=
    (use_outcome hs hsound₁ ⟨key, clock, .flush⟩).sound
  have hflushed : (r₁.flush clock key).2.heldBack key = [] :=
    heldBack_flush hs (flush_ok hn r₁ clock hkey)
  -- What comes later appends nothing to the session, so there is nothing to hold back.
  obtain ⟨-, written, hg⟩ := after_grows_appends hs hn hkey hsound later
  obtain ⟨stored, -, hjoins⟩ := hg.stored
  rw [hflushed, appends_of_calls, hlater] at hjoins
  have hafter : r.after (before ++ (between ++ ⟨key, clock, .flush⟩ :: later))
      = (r₁.flush clock key).2.after later := by
    rw [← List.append_assoc, after_append]
    rfl
  rw [hafter]
  exact (List.append_eq_nil_iff.1 hjoins.nil).2

/-- **The log of a session for which a recorder was told to append events and to flush.**  It
comes to these events, whatever else the recorder was used for in between. -/
theorem log_of_calls (hs : LogStore.Shows log) (hn : LogStore.NeverFails σ)
    (hkey : key.isValid = true) (hr : r.Sound) (hempty : log r.store key = [])
    (hheld : r.heldBack key = []) {uses : List Use} {events : List Event}
    (hu : uses.filterMap (·.call? key) = events.map .append ++ [.flush]) :
    ∃ stored, Holds (log (r.after uses).store key) stored ∧ Joins merge? events stored := by
  have hevents : uses.flatMap (·.appends key) = events := by
    rw [appends_of_calls, hu, List.filterMap_append, List.filterMap_map]
    show events.filterMap some ++ [] = events
    rw [List.filterMap_some, List.append_nil]
  obtain ⟨-, written, hg⟩ := after_grows_appends hs hn hkey hr uses
  obtain ⟨stored, hholds, hjoins⟩ := hg.stored
  refine ⟨stored, ?_, ?_⟩
  · rw [hg.log, hempty]
    exact hholds
  · rw [hheld, hevents, heldBack_of_calls hs hn hkey hr hu, List.append_nil] at hjoins
    exact hjoins

end Recorder

end AgentStream
