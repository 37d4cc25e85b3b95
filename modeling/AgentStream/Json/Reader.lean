/-
# Reading JSON

A text is read in one pass from left to right into a `Doc`.  Every function returns what is
left of the text, or nothing once the text has stopped being JSON.

* `Numeral.value?` : the number a numeral stands for;
* `Doc.read` : the document of a text and what follows it.
-/
import AgentStream.Json.Document
import AgentStream.Json.Printer

namespace AgentStream

/-! ## Blanks and words -/

/-- The four blank characters. -/
def isBlank (b : UInt8) : Bool := b == 32 || b == 10 || b == 13 || b == 9

/-- The text without blanks in front. -/
def skipBlanks (s : Bytes) : Bytes := s.dropWhile isBlank

/-- What follows a word, if the text starts with it. -/
def afterWord : Bytes → Bytes → Option Bytes
  | [], s => some s
  | _ :: _, [] => none
  | w :: ws, b :: s => if w = b then afterWord ws s else none

/-! ## Numerals -/

/-- A decimal digit. -/
def isDigit (b : UInt8) : Bool := 48 ≤ b && b ≤ 57

/-- The value of a digit. -/
def digitValue (b : UInt8) : Nat := b.toNat - 48

/-- The parts of a numeral; a part that is not written is empty. -/
structure Numeral where
  negative : Bool
  whole : List Nat
  fraction : List Nat
  exponent : Option Int
deriving DecidableEq

namespace Numeral

/-- The digits at the start of a text and what follows them. -/
def digits (s : Bytes) : List Nat × Bytes :=
  ((s.takeWhile isDigit).map digitValue, s.dropWhile isDigit)

/-- The natural number written by digits. -/
def natural (ds : List Nat) : Nat := ds.foldl (fun n d => 10 * n + d) 0

/-- An optional exponent: a mark, perhaps a sign, and at least one digit. -/
def readExponent : Bytes → Option (Option Int × Bytes)
  | [] => some (none, [])
  | b :: s =>
    if b = 101 ∨ b = 69 then
      let (minus, s) := match s with
        | 43 :: t => (false, t)
        | 45 :: t => (true, t)
        | t => (false, t)
      match digits s with
      | ([], _) => none
      | (ds, rest) =>
        some (some (if minus then -(natural ds : Int) else (natural ds : Int)), rest)
    else some (none, b :: s)

/-- An optional fraction: a point and at least one digit. -/
def readFraction : Bytes → Option (List Nat × Bytes)
  | 46 :: s =>
    match digits s with
    | ([], _) => none
    | (ds, rest) => some (ds, rest)
  | s => some ([], s)

/-- A numeral: perhaps a minus, digits without a leading zero, fraction, exponent. -/
def read? (s : Bytes) : Option (Numeral × Bytes) :=
  let (negative, s) := match s with
    | 45 :: t => (true, t)
    | t => (false, t)
  match digits s with
  | ([], _) => none
  | (0 :: _ :: _, _) => none
  | (whole, s) =>
    match readFraction s with
    | none => none
    | some (fraction, s) =>
      match readExponent s with
      | none => none
      | some (exponent, s) => some (⟨negative, whole, fraction, exponent⟩, s)

/-- The greatest significand that is collected digit by digit. -/
def maxSignificand : Nat := 18446744073709551615

/-- Append digits to a significand as long as it stays in range; also the digits left over. -/
def collect (n : Nat) : List Nat → Nat × List Nat
  | [] => (n, [])
  | d :: ds => if maxSignificand < 10 * n + d then (n, d :: ds) else collect (10 * n + d) ds

/-- The number a numeral stands for.  Without fraction and exponent it is an integer if 64
bits hold it.  Otherwise the significand's digits are collected as long as 64 bits hold them,
rounded to a double, and scaled by the power of ten that the remaining digits, the point and
the exponent amount to; `none` if no double is that great. -/
def value? (n : Numeral) : Option Json :=
  let (whole, more) := collect 0 n.whole
  if more = [] ∧ n.fraction = [] ∧ n.exponent = none then
    if !n.negative then some (.int whole)
    else if whole = 0 then some (.double (Double.ofMagnitude true 0))
    else if whole ≤ Double.signWeight then some (.int (-(whole : Int)))
    else some (.double (Double.ofRatio true whole 1))
  else
    let (significand, unread) := collect whole n.fraction
    let tens : Int := more.length - (n.fraction.length - unread.length : Nat) + n.exponent.getD 0
    ((Double.ofNat significand).scaleTens tens).map
      fun x => .double (if n.negative then x.neg else x)

end Numeral

/-! ## Strings -/

/-- A piece of a string: a byte that stands for itself, or a UTF-16 unit given by number. -/
inductive Piece
  | byte (b : UInt8)
  | unit (n : Nat)

/-- The value of a hexadecimal digit. -/
def hexValue? (b : UInt8) : Option Nat :=
  if 48 ≤ b ∧ b ≤ 57 then some (b.toNat - 48)
  else if 97 ≤ b ∧ b ≤ 102 then some (b.toNat - 87)
  else if 65 ≤ b ∧ b ≤ 70 then some (b.toNat - 55)
  else none

/-- The number written by four hexadecimal digits. -/
def hexUnit? (a b c d : UInt8) : Option Nat :=
  match hexValue? a, hexValue? b, hexValue? c, hexValue? d with
  | some a, some b, some c, some d => some (((a * 16 + b) * 16 + c) * 16 + d)
  | _, _, _, _ => none

/-- What the letter of a short escape stands for. -/
def shortEscape? (b : UInt8) : Option UInt8 :=
  if b = 34 ∨ b = 92 ∨ b = 47 then some b
  else if b = 98 then some 8
  else if b = 102 then some 12
  else if b = 110 then some 10
  else if b = 114 then some 13
  else if b = 116 then some 9
  else none

/-- The pieces of a string up to its closing quote, and what follows; a control, an escape
that does not exist and the end of the text are no part of a string. -/
def readPieces : Bytes → Option (List Piece × Bytes)
  | [] => none
  | 34 :: s => some ([], s)
  | 92 :: 117 :: a :: b :: c :: d :: s =>
    match hexUnit? a b c d, readPieces s with
    | some n, some (ps, rest) => some (.unit n :: ps, rest)
    | _, _ => none
  | 92 :: e :: s =>
    match shortEscape? e, readPieces s with
    | some b, some (ps, rest) => some (.byte b :: ps, rest)
    | _, _ => none
  | b :: s =>
    if b < 32 ∨ b = 92 then none
    else
      match readPieces s with
      | some (ps, rest) => some (.byte b :: ps, rest)
      | none => none

/-- The bytes that pieces stand for; a unit that is half of a surrogate pair has to be
followed by the other half. -/
def piecesBytes? : List Piece → Option Bytes
  | [] => some []
  | .byte b :: rest => (piecesBytes? rest).map (b :: ·)
  | .unit n :: rest =>
    if n < 0xD800 ∨ 0xDFFF < n then
      (piecesBytes? rest).map (utf8 (String.singleton (Char.ofNat n)) ++ ·)
    else
      match rest with
      | .unit m :: rest =>
        if n < 0xDC00 ∧ 0xDC00 ≤ m ∧ m ≤ 0xDFFF then
          let c := Char.ofNat (0x10000 + (n - 0xD800) * 0x400 + (m - 0xDC00))
          (piecesBytes? rest).map (utf8 (String.singleton c) ++ ·)
        else none
      | _ => none

/-- A string after its opening quote: its text, if it is Unicode text, and what follows. -/
def readString (s : Bytes) : Option (Option String × Bytes) :=
  match readPieces s with
  | some (ps, rest) => some ((piecesBytes? ps).bind text?, rest)
  | none => none

/-! ## Values -/

namespace Doc

/-- How many arrays and objects may be nested in each other. -/
def nestingLimit : Nat := 127

/-- An array or object that begins where `depth` further levels are allowed. -/
def sealed (depth : Nat) (d : Doc) (rest : Option Bytes) : Doc × Option Bytes :=
  match depth, rest with
  | 0, none => (broken, none)
  | 0, some s => (refused, some s)
  | _ + 1, rest => (d, rest)

mutual

/-- A value and what follows it.  The text has no blanks in front; `depth` more levels of
nesting are allowed; `fuel` exceeds the length of the text. -/
def readValue : Nat → Nat → Bytes → Doc × Option Bytes
  | 0, _, _ => (broken, none)
  | _ + 1, _, [] => (broken, none)
  | fuel + 1, depth, b :: s =>
    if b = 110 then
      match afterWord [117, 108, 108] s with
      | some rest => (null, some rest)
      | none => (broken, none)
    else if b = 116 then
      match afterWord [114, 117, 101] s with
      | some rest => (bool true, some rest)
      | none => (broken, none)
    else if b = 102 then
      match afterWord [97, 108, 115, 101] s with
      | some rest => (bool false, some rest)
      | none => (broken, none)
    else if b = 34 then
      match readString s with
      | some (some t, rest) => (str t, some rest)
      | some (none, rest) => (refused, some rest)
      | none => (broken, none)
    else if b = 91 then
      match skipBlanks s with
      | 93 :: rest => sealed depth (arr []) (some rest)
      | t =>
        let (items, rest) := readItems fuel (depth - 1) t
        sealed depth (arr items) rest
    else if b = 123 then
      match skipBlanks s with
      | 125 :: rest => sealed depth (obj []) (some rest)
      | t =>
        let (members, rest) := readMembers fuel (depth - 1) t
        sealed depth (obj members) rest
    else
      match Numeral.read? (b :: s) with
      | some (n, rest) =>
        match n.value? with
        | some (.int i) => (int i, some rest)
        | some (.double x) => (double x, some rest)
        | _ => (refused, some rest)
      | none => (broken, none)

/-- The items of an array from one item on, and what follows the array. -/
def readItems : Nat → Nat → Bytes → List Doc × Option Bytes
  | 0, _, _ => ([broken], none)
  | fuel + 1, depth, s =>
    match readValue fuel depth s with
    | (d, none) => ([d], none)
    | (d, some rest) =>
      match skipBlanks rest with
      | 93 :: rest => ([d], some rest)
      | 44 :: rest =>
        let (ds, rest) := readItems fuel depth (skipBlanks rest)
        (d :: ds, rest)
      | _ => ([d, broken], none)

/-- The members of an object from one member on, and what follows the object. -/
def readMembers : Nat → Nat → Bytes → List (Option String × Doc) × Option Bytes
  | 0, _, _ => ([(none, broken)], none)
  | fuel + 1, depth, s =>
    match s with
    | 34 :: s =>
      match readString s with
      | none => ([(none, broken)], none)
      | some (name, rest) =>
        match skipBlanks rest with
        | 58 :: rest =>
          match readValue fuel depth (skipBlanks rest) with
          | (d, none) => ([(name, d)], none)
          | (d, some rest) =>
            match skipBlanks rest with
            | 125 :: rest => ([(name, d)], some rest)
            | 44 :: rest =>
              let (ms, rest) := readMembers fuel depth (skipBlanks rest)
              ((name, d) :: ms, rest)
            | _ => ([(name, d), (none, broken)], none)
        | _ => ([(name, broken)], none)
    | _ => ([(none, broken)], none)

end

/-- The document of a text, blanks around it allowed, and what follows it. -/
def read (text : Bytes) : Doc × Option Bytes :=
  let (d, rest) := readValue (2 * text.length + 2) nestingLimit (skipBlanks text)
  (d, rest.map skipBlanks)

end Doc

end AgentStream
