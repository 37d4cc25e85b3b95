/-
# JSON values

A value keeps the members of its objects in the order they are written.  Values that a
program holds for others (states, payloads, contents) are kept in *sorted* form instead:
members in strictly increasing order of their names, so that equal values are equal trees.

* `Json.sorted` : the sorted form of a value, the last of several members of one name winning;
* `Json.Sorted` : being in sorted form;
* `Json.depth`, `Json.integral` : nesting, and freedom from doubles.
-/
import AgentStream.Json.Double

namespace AgentStream

/-- A JSON value; an integer literal is kept apart from a double. -/
inductive Json
  | null
  | bool (b : Bool)
  | int (i : Int)
  | double (x : Double)
  | str (s : String)
  | arr (items : List Json)
  | obj (members : List (String × Json))
deriving Inhabited

/-- The members of an object, in some order. -/
abbrev Members := List (String × Json)

namespace Json

/-! ## Equality -/

mutual

/-- Whether two values are the same tree. -/
def same : Json → Json → Bool
  | null, null => true
  | bool a, bool b => a == b
  | int a, int b => a == b
  | double a, double b => decide (a = b)
  | str a, str b => a == b
  | arr a, arr b => sameItems a b
  | obj a, obj b => sameMembers a b
  | _, _ => false
termination_by structural j => j

/-- `same` on the items of two arrays. -/
def sameItems : List Json → List Json → Bool
  | [], [] => true
  | a :: as, b :: bs => same a b && sameItems as bs
  | _, _ => false
termination_by structural l => l

/-- `same` on the members of two objects. -/
def sameMembers : Members → Members → Bool
  | [], [] => true
  | (m, a) :: as, (n, b) :: bs => m == n && (same a b && sameMembers as bs)
  | _, _ => false
termination_by structural l => l

end

mutual

theorem same_iff : ∀ a b : Json, same a b = true ↔ a = b
  | null, b | bool _, b | int _, b | double _, b | str _, b => by cases b <;> simp [same]
  | arr as, b => by cases b <;> simp [same, sameItems_iff as]
  | obj as, b => by cases b <;> simp [same, sameMembers_iff as]

theorem sameItems_iff : ∀ as bs : List Json, sameItems as bs = true ↔ as = bs
  | [], bs => by cases bs <;> simp [sameItems]
  | a :: as, bs => by cases bs <;> simp [sameItems, same_iff a, sameItems_iff as]

theorem sameMembers_iff : ∀ as bs : Members, sameMembers as bs = true ↔ as = bs
  | [], bs => by cases bs <;> simp [sameMembers]
  | (m, a) :: as, bs => by
    cases bs with
    | nil => simp [sameMembers]
    | cons p bs => simp [sameMembers, same_iff a, sameMembers_iff as, Prod.ext_iff, and_assoc]

end

instance : DecidableEq Json := fun a b => decidable_of_iff _ (same_iff a b)

/-! ## Objects with sorted members -/

/-- Put a member in its place among sorted members, replacing one of the same name. -/
def insert (name : String) (value : Json) : Members → Members
  | [] => [(name, value)]
  | (n, v) :: rest =>
    if name = n then (name, value) :: rest
    else if name < n then (name, value) :: (n, v) :: rest
    else (n, v) :: insert name value rest

/-- Members in sorted order, the last of several with one name winning. -/
def sortMembers (members : Members) : Members :=
  members.foldl (fun sorted (name, value) => insert name value sorted) []

/-- The object whose members are given in any order. -/
def ofMembers (members : Members) : Json := obj (sortMembers members)

mutual

/-- The sorted form of a value. -/
def sorted : Json → Json
  | arr items => arr (sortedItems items)
  | obj members => obj (sortMembers (sortedMembers members))
  | null => null
  | bool b => bool b
  | int i => int i
  | double x => double x
  | str s => str s
termination_by structural j => j

/-- `sorted` on every item of an array. -/
def sortedItems : List Json → List Json
  | [] => []
  | j :: rest => j.sorted :: sortedItems rest
termination_by structural l => l

/-- `sorted` on the value of every member, the members staying where they are. -/
def sortedMembers : Members → Members
  | [] => []
  | (n, j) :: rest => (n, j.sorted) :: sortedMembers rest
termination_by structural l => l

end

mutual

/-- Every object lists its members in strictly increasing order of their names. -/
def Sorted : Json → Prop
  | arr items => SortedItems items
  | obj members => members.Pairwise (fun a b => a.1 < b.1) ∧ SortedMembers members
  | _ => True
termination_by structural j => j

/-- `Sorted` for every item. -/
def SortedItems : List Json → Prop
  | [] => True
  | j :: rest => j.Sorted ∧ SortedItems rest
termination_by structural l => l

/-- `Sorted` for every member's value. -/
def SortedMembers : Members → Prop
  | [] => True
  | (_, j) :: rest => j.Sorted ∧ SortedMembers rest
termination_by structural l => l

end

/-! ## Measures -/

mutual

/-- How many arrays and objects are nested in each other, the value itself counted. -/
def depth : Json → Nat
  | arr items => depthItems items + 1
  | obj members => depthMembers members + 1
  | _ => 0
termination_by structural j => j

/-- The greatest `depth` among items. -/
def depthItems : List Json → Nat
  | [] => 0
  | j :: rest => max j.depth (depthItems rest)
termination_by structural l => l

/-- The greatest `depth` among the values of members. -/
def depthMembers : Members → Nat
  | [] => 0
  | (_, j) :: rest => max j.depth (depthMembers rest)
termination_by structural l => l

end

/-- The integers that a number literal keeps as integers: 64 bits, signed or unsigned. -/
def intRange (i : Int) : Bool := decide (-9223372036854775808 ≤ i ∧ i ≤ 18446744073709551615)

mutual

/-- No double occurs, and every integer is in `intRange`. -/
def integral : Json → Bool
  | arr items => integralItems items
  | obj members => integralMembers members
  | double _ => false
  | int i => intRange i
  | _ => true
termination_by structural j => j

/-- `integral` for every item. -/
def integralItems : List Json → Bool
  | [] => true
  | j :: rest => j.integral && integralItems rest
termination_by structural l => l

/-- `integral` for every member's value. -/
def integralMembers : Members → Bool
  | [] => true
  | (_, j) :: rest => j.integral && integralMembers rest
termination_by structural l => l

end

/-! ## Access -/

/-- The value of a member of an object. -/
def get? (j : Json) (name : String) : Option Json :=
  match j with
  | obj members => members.lookup name
  | _ => none

/-- The text of a string value. -/
def asString? : Json → Option String
  | str s => some s
  | _ => none

/-- The members of an object value. -/
def asMembers? : Json → Option Members
  | obj members => some members
  | _ => none

/-! ## Members of a record -/

/-- A member that is always written. -/
def member (name : String) (value : Json) : Members := [(name, value)]

/-- A member that is written when there is a value for it. -/
def optional (name : String) (value : Option Json) : Members :=
  match value with
  | some v => [(name, v)]
  | none => []

/-- A member that is written unless it is the empty string. -/
def nonempty (name value : String) : Members :=
  if value.isEmpty then [] else [(name, str value)]

/-- A member that is written unless it is the empty list. -/
def nonemptyList (name : String) (items : List Json) : Members :=
  if items.isEmpty then [] else [(name, arr items)]

end Json

end AgentStream
