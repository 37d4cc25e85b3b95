/-
# Strings as they are written and read

A string is written between quotes, with escapes, in UTF-8; reading that gives the string back.

* `utf8_append`, `utf8_eq_flatMap`, `text?_utf8` : UTF-8 character by character;
* `readPieces_escape` : what is read for one character;
* `readString_quoted` : what is read for a whole string.
-/
import AgentStream.Json.Reader

namespace AgentStream

/-! ## UTF-8 -/

theorem utf8_append (s t : String) : utf8 (s ++ t) = utf8 s ++ utf8 t :=
  ByteArray.toList_data_append

theorem utf8_ofList (cs : List Char) :
    utf8 (String.ofList cs) = cs.flatMap String.utf8EncodeChar := by
  rw [utf8, String.toUTF8_eq_toByteArray, String.toByteArray_ofList, List.utf8Encode,
    List.data_toByteArray]

theorem utf8_eq_flatMap (s : String) : utf8 s = s.toList.flatMap String.utf8EncodeChar := by
  rw [← utf8_ofList, String.ofList_toList]

theorem utf8_singleton (c : Char) : utf8 (String.singleton c) = String.utf8EncodeChar c := by
  rw [utf8_eq_flatMap, String.toList_singleton, List.flatMap_singleton]

/-- The bytes of a text are well formed, and those of that text. -/
theorem text?_utf8 (s : String) : text? (utf8 s) = some s := by
  rw [text?, utf8, Array.toArray_toList, String.toUTF8_eq_toByteArray, String.fromUTF8?,
    dif_pos s.isValidUTF8]
  rfl

/-! ## Pieces -/

/-- The bytes that neither end a string nor escape anything in it. -/
def IsPlain (b : UInt8) : Prop := 32 ≤ b ∧ b ≠ 34 ∧ b ≠ 92

/-- What is read in front of what else is read. -/
def before (ps : List Piece) (x : List Piece × Bytes) : List Piece × Bytes := (ps ++ x.1, x.2)

theorem readPieces_plain (b : UInt8) (s : Bytes) (hb : IsPlain b) :
    readPieces (b :: s) = (readPieces s).map (before [.byte b]) := by
  obtain ⟨h32, h34, h92⟩ := hb
  rw [readPieces.eq_5 b s h34 (fun _ _ _ _ _ h => absurd h h92) (fun _ _ h => absurd h h92)]
  have hb : ¬(b < 32 ∨ b = 92) := by
    rintro (h | h)
    · exact absurd h32 (UInt8.not_le.2 h)
    · exact h92 h
  rw [if_neg hb]
  cases readPieces s <;> rfl

theorem readPieces_plains (bs s : Bytes) (hb : ∀ b ∈ bs, IsPlain b) :
    readPieces (bs ++ s) = (readPieces s).map (before (bs.map .byte)) := by
  induction bs with
  | nil => cases h : readPieces s <;> simp [before, h]
  | cons b bs ih =>
    rw [List.cons_append, readPieces_plain b _ (hb b List.mem_cons_self),
      ih fun b' hb' => hb b' (List.mem_cons_of_mem b hb')]
    cases readPieces s <;> rfl

theorem readPieces_short {e b : UInt8} (he : e ≠ 117) (hb : shortEscape? e = some b) (s : Bytes) :
    readPieces (92 :: e :: s) = (readPieces s).map (before [.byte b]) := by
  rw [readPieces.eq_4 e s (fun _ _ _ _ _ h => absurd h he), hb]
  cases readPieces s <;> rfl

theorem readPieces_unit {a b c d : UInt8} {n : Nat} (hn : hexUnit? a b c d = some n) (s : Bytes) :
    readPieces (92 :: 117 :: a :: b :: c :: d :: s) = (readPieces s).map (before [.unit n]) := by
  rw [readPieces.eq_3, hn]
  cases readPieces s <;> rfl

theorem piecesBytes?_plains (bs : Bytes) (ps : List Piece) :
    piecesBytes? (bs.map .byte ++ ps) = (piecesBytes? ps).map (bs ++ ·) := by
  induction bs with
  | nil => cases h : piecesBytes? ps <;> simp [h]
  | cons b bs ih =>
    rw [List.map_cons, List.cons_append, piecesBytes?, ih]
    cases piecesBytes? ps <;> rfl

/-! ## Characters -/

theorem utf8EncodeChar_ascii {c : Char} (h : c.toNat ≤ 127) :
    String.utf8EncodeChar c = [UInt8.ofNat c.toNat] := by
  rw [String.utf8EncodeChar]
  exact if_pos h

theorem isPlain_ofNat {n : Nat} (h : n < 256) (h32 : 32 ≤ n) (h34 : n ≠ 34) (h92 : n ≠ 92) :
    IsPlain (UInt8.ofNat n) := by
  have hn : (UInt8.ofNat n).toNat = n := UInt8.toNat_ofNat_of_lt' h
  refine ⟨?_, ?_, ?_⟩
  · rw [UInt8.le_iff_toNat_le, hn]
    exact h32
  · intro he
    rw [he] at hn
    exact h34 hn.symm
  · intro he
    rw [he] at hn
    exact h92 hn.symm

/-- The bytes of a character that is not escaped are plain. -/
theorem utf8EncodeChar_plain {c : Char} (hq : c ≠ '"') (hb : c ≠ '\\') (hc : ¬c.toNat < 32) :
    ∀ b ∈ String.utf8EncodeChar c, IsPlain b := by
  have hq : c.toNat ≠ 34 := fun h => hq (Char.toNat_inj.1 h)
  have hb : c.toNat ≠ 92 := fun h => hb (Char.toNat_inj.1 h)
  -- the bytes of a longer encoding are all above 127
  have high {n : Nat} (h : n < 256) (h' : 128 ≤ n) : IsPlain (UInt8.ofNat n) :=
    isPlain_ofNat h (by omega) (by omega) (by omega)
  by_cases ha : c.toNat ≤ 127
  · rw [utf8EncodeChar_ascii ha]
    intro b hm
    rw [List.mem_singleton.1 hm]
    exact isPlain_ofNat (by omega) (by omega) hq hb
  · have ha : ¬c.val.toNat ≤ 127 := ha
    intro b hm
    simp only [String.utf8EncodeChar, if_neg ha] at hm
    split at hm
    · simp only [List.mem_cons, List.not_mem_nil, or_false] at hm
      rcases hm with rfl | rfl
      · exact high (by omega) (by omega)
      · exact high (by omega) (by omega)
    · split at hm
      · simp only [List.mem_cons, List.not_mem_nil, or_false] at hm
        rcases hm with rfl | rfl | rfl
        · exact high (by omega) (by omega)
        · exact high (by omega) (by omega)
        · exact high (by omega) (by omega)
      · simp only [List.mem_cons, List.not_mem_nil, or_false] at hm
        rcases hm with rfl | rfl | rfl | rfl
        · exact high (by omega) (by omega)
        · exact high (by omega) (by omega)
        · exact high (by omega) (by omega)
        · exact high (by omega) (by omega)

theorem utf8EncodeChar_hexDigit : ∀ n < 16,
    String.utf8EncodeChar (Json.hexDigit n) = [UInt8.ofNat (Json.hexDigit n).toNat] := by
  decide

theorem hexUnit?_control : ∀ n < 32,
    hexUnit? 48 48 (UInt8.ofNat (Json.hexDigit (n / 16)).toNat)
      (UInt8.ofNat (Json.hexDigit (n % 16)).toNat) = some n := by
  decide

/-- Some pieces stand for the bytes of a character, whatever comes behind them. -/
def Stands (c : Char) (ps : List Piece) : Prop :=
  ∀ more, piecesBytes? (ps ++ more) = (piecesBytes? more).map (String.utf8EncodeChar c ++ ·)

theorem stands_bytes (c : Char) : Stands c ((String.utf8EncodeChar c).map .byte) :=
  piecesBytes?_plains _

theorem stands_unit {c : Char} (hc : c.toNat < 32) : Stands c [.unit c.toNat] := by
  intro more
  rw [List.singleton_append, piecesBytes?.eq_def]
  simp only
  rw [if_pos (.inl (by omega)), Char.ofNat_toNat, utf8_singleton]

/-- The characters with short escapes, and the letters of these. -/
def shortEscapes : List (Char × UInt8) :=
  [('"', 34), ('\\', 92), ('\x08', 98), ('\x0c', 102), ('\n', 110), ('\r', 114), ('\t', 116)]

theorem escape_short : ∀ x ∈ shortEscapes,
    (Json.escape x.1).flatMap String.utf8EncodeChar = [92, x.2] ∧ x.2 ≠ 117 ∧
      shortEscape? x.2 = some (UInt8.ofNat x.1.toNat) ∧ x.1.toNat ≤ 127 := by
  decide

theorem escape_of_not_short {c : Char} (hc : c ∉ shortEscapes.map Prod.fst) :
    Json.escape c = if c.toNat < 32 then
      ['\\', 'u', '0', '0', Json.hexDigit (c.toNat / 16), Json.hexDigit (c.toNat % 16)]
      else [c] := by
  simp only [shortEscapes, List.map_cons, List.map_nil, List.mem_cons, List.not_mem_nil, or_false,
    not_or] at hc
  obtain ⟨h1, h2, h3, h4, h5, h6, h7⟩ := hc
  simp only [Json.escape, if_neg h1, if_neg h2, if_neg h3, if_neg h4, if_neg h5, if_neg h6,
    if_neg h7]

/-- What is read for one character stands for it. -/
theorem readPieces_escape (c : Char) (s : Bytes) : ∃ ps, Stands c ps ∧
    readPieces ((Json.escape c).flatMap String.utf8EncodeChar ++ s)
      = (readPieces s).map (before ps) := by
  by_cases hs : c ∈ shortEscapes.map Prod.fst
  · obtain ⟨x, hx, rfl⟩ := List.mem_map.1 hs
    obtain ⟨he, hb, hv, ha⟩ := escape_short x hx
    refine ⟨_, stands_bytes x.1, ?_⟩
    rw [he, utf8EncodeChar_ascii ha]
    exact readPieces_short hb hv s
  · rw [escape_of_not_short hs]
    by_cases hc : c.toNat < 32
    · refine ⟨_, stands_unit hc, ?_⟩
      have hb : [('\\' : Char), 'u', '0', '0', Json.hexDigit (c.toNat / 16),
          Json.hexDigit (c.toNat % 16)].flatMap String.utf8EncodeChar
          = [92, 117, 48, 48, UInt8.ofNat (Json.hexDigit (c.toNat / 16)).toNat,
            UInt8.ofNat (Json.hexDigit (c.toNat % 16)).toNat] := by
        simp only [List.flatMap_cons, List.flatMap_nil, List.append_nil,
          utf8EncodeChar_hexDigit (c.toNat / 16) (by omega),
          utf8EncodeChar_hexDigit (c.toNat % 16) (by omega)]
        rfl
      rw [if_pos hc, hb]
      exact readPieces_unit (hexUnit?_control c.toNat hc) s
    · refine ⟨_, stands_bytes c, ?_⟩
      rw [if_neg hc, List.flatMap_singleton]
      refine readPieces_plains _ s (utf8EncodeChar_plain ?_ ?_ hc)
      · rintro rfl
        exact hs (by decide)
      · rintro rfl
        exact hs (by decide)

/-! ## Strings -/

/-- What is read for characters, up to the closing quote, stands for them. -/
theorem readPieces_escapes (cs : List Char) (s : Bytes) :
    ∃ ps, piecesBytes? ps = some (cs.flatMap String.utf8EncodeChar) ∧
      readPieces ((cs.flatMap Json.escape).flatMap String.utf8EncodeChar ++ 34 :: s)
        = some (ps, s) := by
  induction cs with
  | nil => exact ⟨[], rfl, by rw [List.flatMap_nil, List.flatMap_nil, List.nil_append, readPieces]⟩
  | cons c cs ih =>
    obtain ⟨ps, hps, hr⟩ := ih
    obtain ⟨qs, hqs, hr'⟩ := readPieces_escape c
      ((cs.flatMap Json.escape).flatMap String.utf8EncodeChar ++ 34 :: s)
    refine ⟨qs ++ ps, ?_, ?_⟩
    · rw [hqs ps, hps]
      rfl
    · rw [List.flatMap_cons, List.flatMap_append, List.append_assoc, hr', hr]
      rfl

/-- The bytes of a string between quotes, without the opening one. -/
theorem utf8_quoted (s : String) : utf8 (Json.quoted s)
    = 34 :: ((s.toList.flatMap Json.escape).flatMap String.utf8EncodeChar ++ [34]) := by
  have hq : utf8 "\"" = [34] := by decide
  rw [Json.quoted, utf8_append, utf8_append, utf8_ofList (s.toList.flatMap Json.escape), hq]
  rfl

/-- **A string that is written between quotes is read back.** -/
theorem readString_quoted (s : String) (rest : Bytes) : ∃ body,
    utf8 (Json.quoted s) = 34 :: body ∧ readString (body ++ rest) = some (some s, rest) := by
  refine ⟨_, utf8_quoted s, ?_⟩
  obtain ⟨ps, hps, hr⟩ := readPieces_escapes s.toList rest
  rw [List.append_assoc, List.singleton_append, readString, hr]
  simp only [hps, Option.bind_some]
  rw [← utf8_eq_flatMap, text?_utf8]

end AgentStream
