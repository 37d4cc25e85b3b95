/-
# Writing JSON

The written form has no blanks, keeps the order of members and escapes in strings only what
has to be escaped: the quote, the backslash and the controls below U+0020.

* `Json.compact` : the written form;
* `Json.encode` : its bytes.
-/
import AgentStream.Json.Basic

namespace AgentStream

/-- Bytes of a text or of anything else that is carried. -/
abbrev Bytes := List UInt8

/-- The UTF-8 bytes of a text. -/
def utf8 (s : String) : Bytes := s.toUTF8.data.toList

/-- The text whose UTF-8 bytes these are, if they are well formed. -/
def text? (bytes : Bytes) : Option String := String.fromUTF8? ⟨bytes.toArray⟩

namespace Json

/-! ## Strings -/

/-- A hexadecimal digit in lower case. -/
def hexDigit (n : Nat) : Char :=
  if n < 10 then Char.ofNat (n + 48) else Char.ofNat (n + 87)

/-- How a character stands inside a string. -/
def escape (c : Char) : List Char :=
  if c = '"' then ['\\', '"']
  else if c = '\\' then ['\\', '\\']
  else if c = '\x08' then ['\\', 'b']
  else if c = '\x0c' then ['\\', 'f']
  else if c = '\n' then ['\\', 'n']
  else if c = '\r' then ['\\', 'r']
  else if c = '\t' then ['\\', 't']
  else if c.toNat < 32 then
    ['\\', 'u', '0', '0', hexDigit (c.toNat / 16), hexDigit (c.toNat % 16)]
  else [c]

/-- A string between quotes. -/
def quoted (s : String) : String := "\"" ++ String.ofList (s.toList.flatMap escape) ++ "\""

/-! ## Values -/

mutual

/-- The written form of a value. -/
def compact : Json → String
  | null => "null"
  | bool true => "true"
  | bool false => "false"
  | int i => toString i
  | double x => x.text
  | str s => quoted s
  | arr items => "[" ++ compactItems items ++ "]"
  | obj members => "\x7b" ++ compactMembers members ++ "\x7d"
termination_by structural j => j

/-- Items with commas between them. -/
def compactItems : List Json → String
  | [] => ""
  | [j] => j.compact
  | j :: k :: rest => j.compact ++ "," ++ compactItems (k :: rest)
termination_by structural l => l

/-- Members with commas between them. -/
def compactMembers : Members → String
  | [] => ""
  | [(n, j)] => quoted n ++ ":" ++ j.compact
  | (n, j) :: m :: rest => quoted n ++ ":" ++ j.compact ++ "," ++ compactMembers (m :: rest)
termination_by structural l => l

end

/-- The bytes of the written form. -/
def encode (j : Json) : Bytes := utf8 j.compact

end Json

end AgentStream
