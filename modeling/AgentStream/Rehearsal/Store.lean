/-
# Stores of rehearsals

A store in memory for rehearsals: calls of given numbers fail, and entries are renumbered, so
that what is stored does not depend on the clock.

* `Rehearsal.Store` : the store;
* `Rehearsal.Store.seed` : put an entry in as it is.
-/
import AgentStream.Log.Store

namespace AgentStream.Rehearsal

/-- Which calls of one kind fail, and how many there were. -/
structure Calls where
  failing : List Nat := []
  count : Nat := 0
deriving DecidableEq

/-- Count one more call of a kind; it may fail. -/
def Calls.next (c : Calls) (kind : String) : Except StoreError Unit × Calls :=
  let n := c.count + 1
  (if c.failing.contains n then .error ⟨kind ++ " " ++ toString n ++ " failed"⟩ else .ok (),
    { c with count := n })

/-- A store in memory whose calls may fail. -/
structure Store where
  memory : MemoryStore := {}
  appends : Calls := {}
  lists : Calls := {}
  flushes : Calls := {}
  /-- The timestamp that was handed in last. -/
  lastGiven : Option Nat := none
  /-- The timestamps handed in so far increase strictly. -/
  increasing : Bool := true
deriving DecidableEq

namespace Store

/-- Put an entry in as it is, past all failures. -/
def seed (s : Store) (key : SessionKey) (e : Entry) : Store :=
  { s with memory := s.memory.append key e }

/-- Note the timestamp of an entry that is handed in. -/
def note (s : Store) (e : Entry) : Store :=
  { s with
    lastGiven := some e.timestamp
    increasing := s.increasing && s.lastGiven.all (decide <| · < e.timestamp) }

/-- Append an entry under the next number. -/
def append (s : Store) (key : SessionKey) (e : Entry) : Except StoreError Unit × Store :=
  let s := s.note e
  match s.appends.next "append" with
  | (.error error, appends) => (.error error, { s with appends })
  | (.ok (), appends) =>
    (.ok (), { s with appends }.seed key { e with timestamp := s.memory.latest + 1 })

/-- The entries of a session, or those after a timestamp. -/
def list (s : Store) (key : SessionKey) (after : Option Nat) :
    Except StoreError (List Entry) × Store :=
  let (result, lists) := s.lists.next "list"
  (result.map fun () => s.memory.list key after, { s with lists })

/-- Flush a session. -/
def flush (s : Store) : Except StoreError Unit × Store :=
  let (result, flushes) := s.flushes.next "flush"
  (result, { s with flushes })

instance : LogStore Store where
  append := append
  list := list
  flush s _ := s.flush

end Store

end AgentStream.Rehearsal
