/-
# Decoding typed values

A decoder says what a document must look like and makes a typed value of it, or gives the
first fault met.  Documents come from three origins, and the origin decides a few faults:

* a text that is decoded while it is read;
* a value that was set aside unread while its kind was still unknown;
* a free value that the program holds, its members sorted.

Records are decoded field by field.  The first offending member in the order of the text
decides the fault; missing fields are reported after all members were seen, in the order of
their declaration.

* `Record` : the fields of a record, each with its accepted names;
* `Record.decode` : a record from an object, or from an array of its fields in order;
* `tagged` : a value whose kind is told by one member;
* `decodeText` : a typed value from the bytes of a text.
-/
import AgentStream.Json.Reader

namespace AgentStream

/-! ## Faults -/

/-- Why a document is not what a decoder asks for. -/
inductive Fault
  | missingField (name : String)
  | unknownField (name : String)
  | unknownVariant (name : String)
  | duplicateField (name : String)
  | invalidType
  | invalidValue
  | invalidLength
  | malformed
deriving DecidableEq

namespace Fault

/-- A name between back quotes. -/
def ticked (name : String) : String := "`" ++ name ++ "`"

/-- The text of a fault. -/
def message : Fault → String
  | missingField name => "missing field " ++ ticked name
  | unknownField name => "unknown field " ++ ticked name
  | unknownVariant name => "unknown variant " ++ ticked name
  | duplicateField name => "duplicate field " ++ ticked name
  | invalidType => "invalid type"
  | invalidValue => "invalid value"
  | invalidLength => "invalid length"
  | malformed => "syntax"

end Fault

/-- Where a document comes from. -/
inductive Origin
  | text
  | setAside
  | held
deriving DecidableEq

/-- Makes a typed value of a document. -/
abbrev Decoder (α : Type) := Origin → Doc → Except Fault α

namespace Decoder

/-! ## Scalars -/

/-- The fault of a value of the wrong kind: one that cannot be read is malformed first. -/
def mismatch : Doc → Fault
  | .refused => .malformed
  | .broken => .malformed
  | _ => .invalidType

/-- A string. -/
def string : Decoder String
  | _, .str s => .ok s
  | _, d => .error (mismatch d)

/-- A truth value. -/
def bool : Decoder Bool
  | _, .bool b => .ok b
  | _, d => .error (mismatch d)

/-- An integer between two bounds. -/
def integer (low high : Int) : Decoder Int
  | _, .int i => if low ≤ i ∧ i ≤ high then .ok i else .error .invalidValue
  | _, d => .error (mismatch d)

/-- A natural number of a given width in bits. -/
def unsigned (width : Nat) : Decoder Nat := fun o d =>
  (integer 0 (Nat.pow 2 width - 1 : Nat) o d).map Int.toNat

/-- A signed integer of 64 bits. -/
def signed : Decoder Int := integer (-9223372036854775808) 9223372036854775807

/-- A double; an integer stands for the double nearest to it. -/
def double : Decoder Double
  | _, .double x => .ok x
  | _, .int i => .ok (.ofInt i)
  | _, d => .error (mismatch d)

/-- Any value. -/
def any : Decoder Json := fun _ d =>
  match d.toJson? with
  | some j => .ok j
  | none => .error .malformed

/-- Any object. -/
def object : Decoder Members
  | _, .obj members =>
    match Doc.toMembers? members with
    | some ms => .ok (Json.sortMembers ms)
    | none => .error .malformed
  | _, d => .error (mismatch d)

/-! ## Compound values -/

/-- A value or `null`. -/
def option {α : Type} (dec : Decoder α) : Decoder (Option α)
  | _, .null => .ok none
  | o, d => (dec o d).map some

/-- Decode every item, the first fault winning. -/
def items {α : Type} (dec : Decoder α) (o : Origin) : List Doc → Except Fault (List α)
  | [] => .ok []
  | d :: rest => do
    let a ← dec o d
    let as ← items dec o rest
    pure (a :: as)

/-- An array of values of one type. -/
def list {α : Type} (dec : Decoder α) : Decoder (List α)
  | o, .arr ds => items dec o ds
  | _, d => .error (mismatch d)

/-- Decode the value of every member, the first fault winning. -/
def memberValues {α : Type} (dec : Decoder α) (o : Origin) :
    List (Option String × Doc) → Except Fault (List (String × α))
  | [] => .ok []
  | (none, _) :: _ => .error .malformed
  | (some name, d) :: rest => do
    let a ← dec o d
    let as ← memberValues dec o rest
    pure ((name, a) :: as)

/-- An object with values of one type. -/
def map {α : Type} (dec : Decoder α) : Decoder (List (String × α))
  | o, .obj ms => memberValues dec o ms
  | _, d => .error (mismatch d)

/-! ## Names -/

/-- The value of a name in a table. -/
def named {α : Type} (table : List (String × α)) (name : String) : Except Fault α :=
  match table.lookup name with
  | some a => .ok a
  | none => .error (.unknownVariant name)

/-- What has to stand beside a name that is given as the only member of an object. -/
def nothing (o : Origin) : Doc → Except Fault Unit
  | .null => .ok ()
  | .obj [] => if o = .setAside then .ok () else .error .invalidType
  | d => .error (mismatch d)

/-- One of a table of names, given as a string or as the only member of an object. -/
def oneOf {α : Type} (table : List (String × α)) : Decoder α
  | _, .str s => named table s
  | .text, .obj [] => .error .malformed
  | .text, .obj ((none, _) :: _) => .error .malformed
  | .text, .obj ((some name, d) :: rest) => do
    let a ← named table name
    nothing .text d
    if rest.isEmpty then pure a else .error .malformed
  | .text, _ => .error .malformed
  | o, .obj [(some name, d)] => do
    let a ← named table name
    nothing o d
    pure a
  | _, .obj _ => .error .invalidValue
  | _, d => .error (mismatch d)

end Decoder

/-! ## Records -/

/-- The names a field goes by; faults give the first one. -/
structure FieldName where
  primary : String
  others : List String := []
deriving DecidableEq

/-- Whether a field goes by a name. -/
def FieldName.accepts (f : FieldName) (name : String) : Bool :=
  name == f.primary || f.others.contains name

/-- What becomes of a field that is not given. -/
inductive Absence (α : Type)
  /-- It is an error. -/
  | required
  /-- It may be left out of an object, but not of an array. -/
  | omittable (value : α)
  /-- It may be left out. -/
  | default (value : α)

/-- The fields that are given, each by its primary name with its position and its value. -/
structure Given where
  origin : Origin
  /-- Given as an array of fields rather than as an object. -/
  positional : Bool
  /-- How many members or items there are. -/
  count : Nat
  slots : List (String × Nat × Doc)

/-- A fault at the position of a member or an item. -/
abbrev Located := Nat × Fault

/-- The fields of a record and how to make a value of them. -/
structure Record (α : Type) where
  fields : List FieldName
  read : Given → Except Located α

namespace Record

variable {α β : Type}

/-- The one of two faults at the earlier position, the first at equal positions. -/
def earlier (a b : Located) : Located := if b.1 < a.1 then b else a

/-- A record without fields. -/
def pure (a : α) : Record α := ⟨[], fun _ => .ok a⟩

/-- Two groups of fields, the second following the first. -/
def seq (f : Record (α → β)) (x : Record α) : Record β where
  fields := f.fields ++ x.fields
  read g :=
    match f.read g, x.read g with
    | .ok f, .ok a => .ok (f a)
    | .ok _, .error e => .error e
    | .error e, .ok _ => .error e
    | .error e, .error e' => .error (earlier e e')

instance : Functor Record where
  map f x := { fields := x.fields, read := fun g => (x.read g).map f }

instance : Seq Record where
  seq f x := f.seq (x ())

/-- One field. -/
def field (name : FieldName) (dec : Decoder α) (absence : Absence α) : Record α where
  fields := [name]
  read g :=
    match g.slots.lookup name.primary with
    | some (i, d) => (dec g.origin d).mapError (i, ·)
    | none =>
      match absence, g.positional with
      | .default a, _ => .ok a
      | .omittable a, false => .ok a
      | .required, false => .error (g.count, .missingField name.primary)
      | _, true => .error (g.count, .invalidLength)

/-- A field that has to be given. -/
def required (name : FieldName) (dec : Decoder α) : Record α := field name dec .required

/-- A field with a default. -/
def defaulted (name : FieldName) (dec : Decoder α) (a : α) : Record α :=
  field name dec (.default a)

/-- A field that may be `null` or left out. -/
def optional (name : FieldName) (dec : Decoder α) : Record (Option α) :=
  field name dec.option (.default none)

/-- A field that may be `null`, or left out of an object. -/
def omittable (name : FieldName) (dec : Decoder α) : Record (Option α) :=
  field name dec.option (.omittable none)

/-! ### From an object -/

/-- Sort members by field from position `i` on.  Gives the slots of the fields up to the first
fault that does not concern a field's value, and that fault. -/
def scan (fields : List FieldName) (closed : Bool) (o : Origin) :
    Nat → List (String × Nat × Doc) → List (Option String × Doc) →
      List (String × Nat × Doc) × Option Located
  | _, slots, [] => (slots, none)
  | i, slots, (none, _) :: _ => (slots, some (i, .malformed))
  | i, slots, (some name, d) :: rest =>
    match fields.find? (·.accepts name) with
    | some f =>
      if (slots.lookup f.primary).isSome then (slots, some (i, .duplicateField f.primary))
      else scan fields closed o (i + 1) (slots ++ [(f.primary, i, d)]) rest
    | none =>
      if closed then (slots, some (i, .unknownField name))
      else if o = .text ∧ d.intact = false then (slots, some (i, .malformed))
      else scan fields closed o (i + 1) slots rest

/-- A record from the members of an object. -/
def ofMembers (r : Record α) (closed : Bool) (o : Origin) (members : List (Option String × Doc)) :
    Except Fault α :=
  let (slots, fault?) := scan r.fields closed o 0 [] members
  match r.read ⟨o, false, members.length, slots⟩, fault? with
  | .ok a, none => .ok a
  | .ok _, some fault => .error fault.2
  | .error fault, none => .error fault.2
  | .error fault, some fault' => .error (earlier fault fault').2

/-! ### From an array -/

/-- The slots of fields given in their order from position `i` on. -/
def align : Nat → List FieldName → List Doc → List (String × Nat × Doc)
  | i, f :: fields, d :: rest => (f.primary, i, d) :: align (i + 1) fields rest
  | _, _, _ => []

/-- A record from an array of its fields; there may be no more items than fields. -/
def ofItems (r : Record α) (o : Origin) (items : List Doc) : Except Fault α :=
  match r.read ⟨o, true, items.length, align 0 r.fields items⟩ with
  | .error fault => .error fault.2
  | .ok a =>
    if items.length ≤ r.fields.length then .ok a
    else .error (if o = .text then .malformed else .invalidLength)

/-- A record from an object or an array; other members are skipped. -/
def decode (r : Record α) : Decoder α
  | o, .obj members => r.ofMembers false o members
  | o, .arr items => r.ofItems o items
  | _, d => .error (Decoder.mismatch d)

/-- A record from an object or an array; other members are an error. -/
def decodeClosed (r : Record α) : Decoder α
  | o, .obj members => r.ofMembers true o members
  | o, .arr items => r.ofItems o items
  | _, d => .error (Decoder.mismatch d)

end Record

/-! ## Values that tell their kind -/

/-- How a value of one kind is made of its members, or of its items, without the tag. -/
structure Kind (α : Type) where
  ofMembers : List (Option String × Doc) → Except Fault α
  ofItems : List Doc → Except Fault α

/-- A kind whose fields make up a record; what is decoded was set aside. -/
def Record.kind {α : Type} (r : Record α) : Kind α where
  ofMembers := r.ofMembers false .setAside
  ofItems := r.ofItems .setAside

/-- The kind that a tag names. -/
def readTag {α : Type} (kinds : List (String × Kind α)) : Doc → Except Fault (Kind α)
  | .str s => Decoder.named kinds s
  | d => .error (Decoder.mismatch d)

/-- Look for the tag among members and set the others aside; each has to be readable. -/
def setAside {α : Type} (tag : String) (kinds : List (String × Kind α)) :
    Option (Kind α) → List (Option String × Doc) →
      Except Fault (Option (Kind α) × List (Option String × Doc))
  | kind, [] => .ok (kind, [])
  | _, (none, _) :: _ => .error .malformed
  | kind, (some name, d) :: rest =>
    if name = tag then
      match kind with
      | some _ => .error (.duplicateField tag)
      | none => do
        let kind ← readTag kinds d
        setAside tag kinds (some kind) rest
    else if d.readable then do
      let (kind, others) ← setAside tag kinds kind rest
      pure (kind, (some name, d) :: others)
    else .error .malformed

/-- A value whose kind is told by the member `tag`, or by the first item of an array. -/
def tagged {α : Type} (tag : String) (kinds : List (String × Kind α)) : Decoder α
  | _, .obj members => do
    let (kind, others) ← setAside tag kinds none members
    match kind with
    | some kind => kind.ofMembers others
    | none => .error (.missingField tag)
  | _, .arr [] => .error (.missingField tag)
  | _, .arr (d :: items) => do
    let kind ← readTag kinds d
    if items.all Doc.readable then kind.ofItems items else .error .malformed
  | _, d => .error (Decoder.mismatch d)

/-! ## From texts and held values -/

/-- A typed value from the bytes of a text, with nothing but blanks behind it. -/
def decodeText {α : Type} (dec : Decoder α) (text : Bytes) : Except Fault α :=
  let (d, rest) := Doc.read text
  match dec .text d with
  | .error fault => .error fault
  | .ok a => if rest = some [] then .ok a else .error .malformed

/-- A typed value from a value that is held. -/
def decodeJson {α : Type} (dec : Decoder α) (j : Json) : Except Fault α :=
  dec .held (Doc.ofJson j)

end AgentStream
