/-
# Stores of logs

* `LogStore` : what keeps logs, and may fail to;
* `MemoryStore` : logs in memory, which never fails.
-/
import AgentStream.Log.Entry

namespace AgentStream

/-- A store has failed, for a reason of its own. -/
structure StoreError where
  reason : String
deriving DecidableEq

/-- The text of a store error. -/
def StoreError.message (e : StoreError) : String := "track store: " ++ e.reason

/-- What keeps logs by session, with states of a type. -/
class LogStore (σ : Type) where
  append : σ → SessionKey → Entry → Except StoreError Unit × σ
  /-- The entries of a session in the order they were appended, or those after a timestamp. -/
  list : σ → SessionKey → Option Nat → Except StoreError (List Entry) × σ
  flush : σ → SessionKey → Except StoreError Unit × σ

/-- Logs in memory, each with its session. -/
structure MemoryStore where
  logs : List (SessionKey × List Entry) := []
deriving DecidableEq

namespace MemoryStore

/-- The log of a session. -/
def log (s : MemoryStore) (key : SessionKey) : List Entry := (s.logs.lookup key).getD []

/-- Append an entry to the log of a key in a table. -/
def appendTo (key : SessionKey) (e : Entry) :
    List (SessionKey × List Entry) → List (SessionKey × List Entry)
  | [] => [(key, [e])]
  | (k, es) :: rest => if key = k then (k, es ++ [e]) :: rest else (k, es) :: appendTo key e rest

/-- The store with one more entry. -/
def append (s : MemoryStore) (key : SessionKey) (e : Entry) : MemoryStore :=
  ⟨appendTo key e s.logs⟩

/-- The entries of a session, or those after a timestamp. -/
def list (s : MemoryStore) (key : SessionKey) (after : Option Nat) : List Entry :=
  (s.log key).filter fun e => after.all (decide <| · < e.timestamp)

/-- The greatest timestamp in any log, zero without one. -/
def latest (s : MemoryStore) : Nat :=
  s.logs.foldl (fun m (_, es) => es.foldl (fun m e => max m e.timestamp) m) 0

instance : LogStore MemoryStore where
  append s key e := (.ok (), s.append key e)
  list s key after := (.ok (s.list key after), s)
  flush s _ := (.ok (), s)

end MemoryStore

end AgentStream
