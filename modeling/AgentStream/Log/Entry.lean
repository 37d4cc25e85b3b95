/-
# The logs of sessions

A log tells of a session by the bytes of events, each with the time at which it was stored.

* `Entry` : one element of a session's log;
* `Holds` : the entries of a log hold events;
* `Holds.append`, `holds_append` : logs in parts;
* `holds_mapIdx` : entries that are made of events.
-/
import AgentStream.Event.Codec
import AgentStream.Identifier

namespace AgentStream

/-! ## Entries -/

/-- One element of a session's log. -/
structure Entry where
  /-- Strictly increasing within a session. -/
  timestamp : Nat
  /-- The bytes of an event. -/
  payload : Bytes
deriving DecidableEq

namespace Entry

/-- The entry of an event. -/
def ofEvent (timestamp : Nat) (e : Event) : Entry := ⟨timestamp, e.encode⟩

/-- The event of an entry. -/
def event (e : Entry) : Except Event.ReadError Event := Event.ofBytes e.payload

end Entry

/-! ## What entries hold -/

/-- The entries of a log hold events by their bytes, at any times. -/
def Holds (log : List Entry) (events : List Event) : Prop :=
  log.map (·.payload) = events.map Event.encode

variable {log log' : List Entry} {events events' : List Event}

theorem Holds.nil (h : Holds log []) : log = [] := by
  simpa [Holds] using h

theorem Holds.cons {e : Event} (h : Holds log (e :: events)) :
    ∃ entry rest, log = entry :: rest ∧ entry.payload = e.encode ∧ Holds rest events := by
  cases log with
  | nil => cases h
  | cons entry rest =>
    obtain ⟨he, hr⟩ := List.cons.inj h
    exact ⟨entry, rest, rfl, he, hr⟩

theorem Holds.append (h : Holds log (events ++ events')) :
    ∃ xs ys, log = xs ++ ys ∧ Holds xs events ∧ Holds ys events' := by
  rw [Holds, List.map_append] at h
  exact List.map_eq_append_iff.1 h

theorem holds_append (h : Holds log events) (h' : Holds log' events') :
    Holds (log ++ log') (events ++ events') := by
  rw [Holds, List.map_append, List.map_append, h, h']

/-- Entries that are made of events at any times hold them. -/
theorem holds_mapIdx (stamp : Nat → Nat) (events : List Event) :
    Holds (events.mapIdx fun i e => .ofEvent (stamp i) e) events := by
  induction events generalizing stamp with
  | nil => rfl
  | cons e events ih =>
    rw [List.mapIdx_cons]
    exact congrArg (e.encode :: ·) (ih fun i => stamp (i + 1))

end AgentStream
