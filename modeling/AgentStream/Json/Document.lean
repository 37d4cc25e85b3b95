/-
# Documents: what a text says, faults included

A text that is not entirely JSON still has parts that are, and what a reader makes of it
depends on what it asks for first.  A `Doc` is a JSON tree in the order of the text in which
two kinds of fault may stand for a value:

* `broken` : here the text stops being JSON; nothing is known of what follows, so a broken
  node is always the last one of its array or object;
* `refused` : a value of correct grammar that cannot be held: a number beyond all doubles, a
  string that is not Unicode text, or nesting beyond the limit.

Skipping over a value only fails on `broken`; reading it fails on both.

* `Doc.intact` : skipping succeeds;
* `Doc.toJson?` : the value held, if all of it can be read;
* `Doc.ofJson` : the document of a value.
-/
import AgentStream.Json.Basic

namespace AgentStream

/-- A JSON text as a tree; a member whose name is not Unicode text has no name. -/
inductive Doc
  | null
  | bool (b : Bool)
  | int (i : Int)
  | double (x : Double)
  | str (s : String)
  | arr (items : List Doc)
  | obj (members : List (Option String × Doc))
  | refused
  | broken
deriving Inhabited

namespace Doc

mutual

/-- Whether the text of the value is JSON to its end. -/
def intact : Doc → Bool
  | arr items => intactItems items
  | obj members => intactMembers members
  | broken => false
  | _ => true
termination_by structural d => d

/-- `intact` for every item. -/
def intactItems : List Doc → Bool
  | [] => true
  | d :: rest => d.intact && intactItems rest
termination_by structural l => l

/-- `intact` for every member's value. -/
def intactMembers : List (Option String × Doc) → Bool
  | [] => true
  | (_, d) :: rest => d.intact && intactMembers rest
termination_by structural l => l

end

mutual

/-- The value a document holds, in sorted form. -/
def toJson? : Doc → Option Json
  | null => some .null
  | bool b => some (.bool b)
  | int i => some (.int i)
  | double x => some (.double x)
  | str s => some (.str s)
  | arr items => (toItems? items).map .arr
  | obj members => (toMembers? members).map .ofMembers
  | refused => none
  | broken => none
termination_by structural d => d

/-- The values of all items. -/
def toItems? : List Doc → Option (List Json)
  | [] => some []
  | d :: rest =>
    match d.toJson?, toItems? rest with
    | some j, some js => some (j :: js)
    | _, _ => none
termination_by structural l => l

/-- The members in the order of the text. -/
def toMembers? : List (Option String × Doc) → Option Members
  | [] => some []
  | (name, d) :: rest =>
    match name, d.toJson?, toMembers? rest with
    | some n, some j, some js => some ((n, j) :: js)
    | _, _, _ => none
termination_by structural l => l

end

/-- Whether a value can be read in full. -/
def readable (d : Doc) : Bool := d.toJson?.isSome

mutual

/-- The document of a value. -/
def ofJson : Json → Doc
  | .null => null
  | .bool b => bool b
  | .int i => int i
  | .double x => double x
  | .str s => str s
  | .arr items => arr (ofItems items)
  | .obj members => obj (ofMembers members)
termination_by structural j => j

/-- The documents of items. -/
def ofItems : List Json → List Doc
  | [] => []
  | j :: rest => ofJson j :: ofItems rest
termination_by structural l => l

/-- The documents of members. -/
def ofMembers : Members → List (Option String × Doc)
  | [] => []
  | (n, j) :: rest => (some n, ofJson j) :: ofMembers rest
termination_by structural l => l

end

end Doc

end AgentStream
