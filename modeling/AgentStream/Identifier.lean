/-
# Identifiers

A session is told from the others by its app, its user and a name of its own.  Messages and
activities that come without an id are given a fresh one: a UUID of version 4, whose 122 free bits
are taken from a supply that never repeats a number.

* `SessionKey` : the session that a run belongs to;
* `uuid`, `uuid_ne_empty` : the text of a fresh identifier;
* `Identifiers.draw` : the next identifier of a supply.
-/
import AgentStream.Json.Printer

namespace AgentStream

/-! ## Sessions -/

/-- The session that a run belongs to. -/
structure SessionKey where
  app : String
  user : String
  session : String
deriving DecidableEq, Inhabited

namespace SessionKey

/-- All three names are given. -/
def isValid (k : SessionKey) : Bool := !k.app.isEmpty && !k.user.isEmpty && !k.session.isEmpty

/-- The three names with colons between them. -/
def text (k : SessionKey) : String := k.app ++ ":" ++ k.user ++ ":" ++ k.session

/-- The order of keys: by app, then user, then session. -/
def before (a b : SessionKey) : Bool :=
  decide (a.app < b.app) ||
    (a.app == b.app && (decide (a.user < b.user) ||
      (a.user == b.user && decide (a.session < b.session))))

/-- Put a key in its place among sorted keys, unless it is there. -/
def insert (k : SessionKey) : List SessionKey → List SessionKey
  | [] => [k]
  | a :: rest => if k = a then a :: rest else if k.before a then k :: a :: rest
    else a :: insert k rest

/-- Keys in order, each once. -/
def sort (keys : List SessionKey) : List SessionKey := keys.foldl (fun sorted k => insert k sorted) []

end SessionKey

/-! ## Fresh identifiers -/

/-- The lowest `count` hexadecimal digits of a number. -/
def hexDigits : Nat → Nat → List Char
  | 0, _ => []
  | count + 1, n => hexDigits count (n / 16) ++ [Json.hexDigit (n % 16)]

/-- The UUID of version 4 with the given 122 bits: 60 bits behind the variant, two beside it,
12 behind the version and 48 before it. -/
def uuid (n : Nat) : String :=
  let last := n % Nat.pow 2 60
  let variant := 8 + n / Nat.pow 2 60 % 4
  let middle := n / Nat.pow 2 62
  let first := n / Nat.pow 2 74
  String.ofList
    (hexDigits 8 (first / Nat.pow 2 16) ++ ['-'] ++ hexDigits 4 first ++ ['-', '4']
      ++ hexDigits 3 middle ++ ['-'] ++ hexDigits 1 variant ++ hexDigits 3 (last / Nat.pow 2 48)
      ++ ['-'] ++ hexDigits 12 last)

/-- A fresh identifier is not empty. -/
theorem uuid_ne_empty (n : Nat) : uuid n ≠ "" := by
  intro h
  have hl := congrArg String.toList h
  simp [uuid] at hl

/-- A supply of identifiers: the numbers from `next` on. -/
structure Identifiers where
  next : Nat := 0
deriving DecidableEq

namespace Identifiers

/-- The next identifier, and the supply without it. -/
def draw (ids : Identifiers) : String × Identifiers := (uuid ids.next, ⟨ids.next + 1⟩)

end Identifiers

end AgentStream
