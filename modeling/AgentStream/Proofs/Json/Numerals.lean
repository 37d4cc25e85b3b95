/-
# Numerals as they are written and read

An integer is written in decimal digits; reading them gives it back, if 64 bits hold it.  What may
stand behind a value is not taken for a part of a numeral.

* `Follows` : what may stand behind a value;
* `Numeral.digits_repr` : the digits of a natural number;
* `Numeral.read?_int` : an integer is read back;
* `Numeral.read?_append` : a numeral is read up to what follows it.
-/
import AgentStream.Proofs.Json.Text

namespace AgentStream

/-- What may stand behind a value: nothing, or a comma or the end of an array or object. -/
def Follows : Bytes → Prop
  | [] => True
  | b :: _ => b = 44 ∨ b = 93 ∨ b = 125

namespace Numeral

/-! ## Digits -/

/-- The bytes of decimal digits. -/
def digitBytes (n : Nat) : Bytes := (Nat.toDigits 10 n).map fun c => UInt8.ofNat c.toNat

/-- The values of decimal digits. -/
def digitValues (n : Nat) : List Nat := (Nat.toDigits 10 n).map fun c => c.toNat - 48

theorem toNat_of_mem_toDigits {n : Nat} {c : Char} (hc : c ∈ Nat.toDigits 10 n) :
    48 ≤ c.toNat ∧ c.toNat ≤ 57 := by
  have h := Nat.isDigit_of_mem_toDigits (by decide) (by decide) hc
  simp only [Char.isDigit, Bool.and_eq_true, decide_eq_true_eq, UInt32.le_iff_toNat_le] at h
  exact h

theorem utf8_repr (n : Nat) : utf8 n.repr = digitBytes n := by
  rw [Nat.repr_eq_ofList_toDigits, utf8_ofList, digitBytes]
  have h : ∀ c ∈ Nat.toDigits 10 n, c.toNat ≤ 127 := by
    intro c hc
    have := toNat_of_mem_toDigits hc
    omega
  generalize Nat.toDigits 10 n = cs at h
  induction cs with
  | nil => rfl
  | cons c cs ih =>
    rw [List.flatMap_cons, utf8EncodeChar_ascii (h c List.mem_cons_self),
      ih fun c' hc' => h c' (List.mem_cons_of_mem c hc')]
    rfl

theorem isDigit_ofNat {m : Nat} (h : 48 ≤ m) (h' : m ≤ 57) :
    isDigit (UInt8.ofNat m) = true ∧ digitValue (UInt8.ofNat m) = m - 48 := by
  have hlt : m < UInt8.size := Nat.lt_of_le_of_lt h' (by decide)
  have hm : (UInt8.ofNat m).toNat = m := UInt8.toNat_ofNat_of_lt' hlt
  refine ⟨?_, by rw [digitValue, hm]⟩
  simp only [isDigit, Bool.and_eq_true, decide_eq_true_eq, UInt8.le_iff_toNat_le, hm]
  exact ⟨h, h'⟩

theorem isDigit_of_mem_digitBytes {n : Nat} {b : UInt8} (hb : b ∈ digitBytes n) :
    isDigit b = true := by
  obtain ⟨c, hc, rfl⟩ := List.mem_map.1 hb
  exact (isDigit_ofNat (toNat_of_mem_toDigits hc).1 (toNat_of_mem_toDigits hc).2).1

theorem map_digitValue (n : Nat) : (digitBytes n).map digitValue = digitValues n := by
  rw [digitBytes, digitValues, List.map_map]
  refine List.map_congr_left fun c hc => ?_
  exact (isDigit_ofNat (toNat_of_mem_toDigits hc).1 (toNat_of_mem_toDigits hc).2).2

/-- No digit may stand behind a value. -/
theorem Follows.takeWhile {rest : Bytes} (hr : Follows rest) :
    rest.takeWhile isDigit = [] ∧ rest.dropWhile isDigit = rest := by
  cases rest with
  | nil => exact ⟨rfl, rfl⟩
  | cons b rest =>
    have hb : isDigit b = false := by rcases hr with rfl | rfl | rfl <;> rfl
    simp [hb]

/-- The digits of a natural number are read up to what follows them. -/
theorem digits_repr (n : Nat) {rest : Bytes} (hr : Follows rest) :
    digits (utf8 n.repr ++ rest) = (digitValues n, rest) := by
  have hd : ∀ b ∈ digitBytes n, isDigit b = true := fun b => isDigit_of_mem_digitBytes
  rw [utf8_repr, digits, List.takeWhile_append_of_pos hd, List.dropWhile_append_of_pos hd,
    (Follows.takeWhile hr).1, (Follows.takeWhile hr).2, List.append_nil, map_digitValue]

/-- The first digit of a number that is not zero is not zero. -/
theorem digitValues_head {n : Nat} (hn : 0 < n) : ∃ d ds, digitValues n = (d + 1) :: ds := by
  induction n using Nat.strongRecOn with
  | ind n ih =>
    by_cases h : n < 10
    · have hv : ∀ m, 0 < m → m < 10 → (Nat.digitChar m).toNat - 48 = m - 1 + 1 := by
        intro m h0 h10
        have : ∀ k < 10, 0 < k → (Nat.digitChar k).toNat - 48 = k - 1 + 1 := by decide
        exact this m h10 h0
      refine ⟨n - 1, [], ?_⟩
      rw [digitValues, Nat.toDigits_of_lt_base h, List.map_cons, List.map_nil, hv n hn h]
    · obtain ⟨d, ds, hd⟩ := ih (n / 10) (by omega) (by omega)
      refine ⟨d, ds ++ [(Nat.digitChar (n % 10)).toNat - 48], ?_⟩
      rw [digitValues] at hd
      rw [digitValues, Nat.toDigits_of_base_le (by decide) (by omega), List.map_append, hd]
      rfl

/-! ## Numbers -/

theorem le_foldl (ds : List Nat) (n : Nat) : n ≤ ds.foldl (fun n d => 10 * n + d) n := by
  induction ds generalizing n with
  | nil => exact Nat.le_refl n
  | cons d ds ih => exact Nat.le_trans (by omega) (ih (10 * n + d))

/-- Digits are collected to the end as long as their number stays in range. -/
theorem collect_eq (ds : List Nat) (n : Nat)
    (h : ds.foldl (fun n d => 10 * n + d) n ≤ maxSignificand) :
    collect n ds = (ds.foldl (fun n d => 10 * n + d) n, []) := by
  induction ds generalizing n with
  | nil => rfl
  | cons d ds ih =>
    have hd : ¬maxSignificand < 10 * n + d := by
      have := le_foldl ds (10 * n + d)
      rw [List.foldl_cons] at h
      omega
    rw [collect, if_neg hd, ih _ h]
    rfl

theorem foldl_digitValues (n : Nat) :
    (digitValues n).foldl (fun n d => 10 * n + d) 0 = n := by
  have h := Nat.ofDigitChars_ten_toDigits (n := n)
  rw [Nat.ofDigitChars_eq_foldl] at h
  rw [digitValues, List.foldl_map]
  exact h

theorem collect_digitValues {n : Nat} (h : n ≤ maxSignificand) :
    collect 0 (digitValues n) = (n, []) := by
  rw [collect_eq _ _ (by rw [foldl_digitValues]; exact h), foldl_digitValues]

/-! ## Integers -/

/-- The numeral of an integer. -/
def ofInt (i : Int) : Numeral := ⟨decide (i < 0), digitValues i.natAbs, [], none⟩

/-- Neither a fraction nor an exponent may stand behind a value. -/
theorem readFraction_follows {rest : Bytes} (hr : Follows rest) :
    readFraction rest = some ([], rest) ∧ readExponent rest = some (none, rest) := by
  cases rest with
  | nil => exact ⟨rfl, rfl⟩
  | cons b rest => rcases hr with rfl | rfl | rfl <;> exact ⟨rfl, rfl⟩

theorem digitBytes_cons (n : Nat) : ∃ b bs, digitBytes n = b :: bs ∧ isDigit b = true := by
  cases h : digitBytes n with
  | nil => simp [digitBytes] at h
  | cons b bs => exact ⟨b, bs, rfl, isDigit_of_mem_digitBytes (h ▸ List.mem_cons_self)⟩

/-- Digits are read up to what follows them, with a sign in front or without one. -/
theorem read?_digits (n : Nat) {rest : Bytes} (hr : Follows rest) :
    read? (utf8 n.repr ++ rest) = some (⟨false, digitValues n, [], none⟩, rest) ∧
      read? (45 :: (utf8 n.repr ++ rest)) = some (⟨true, digitValues n, [], none⟩, rest) := by
  obtain ⟨hf, he⟩ := readFraction_follows hr
  have hsign (t : Bytes) : utf8 n.repr ++ rest ≠ 45 :: t := by
    obtain ⟨b, bs, hb, hd⟩ := digitBytes_cons n
    rw [utf8_repr, hb]
    intro h
    rw [(List.cons.inj h).1] at hd
    cases hd
  rw [read?.eq_2 _ hsign, read?.eq_1]
  simp only [digits_repr n hr]
  by_cases hn : 0 < n
  · obtain ⟨d, ds, hd⟩ := digitValues_head hn
    simp only [hd, hf, he, and_self]
  · have hd : digitValues n = [0] := by
      rw [Nat.eq_zero_of_not_pos hn]
      rfl
    simp only [hd, hf, he, and_self]

/-- An integer is read up to what follows it. -/
theorem read?_int (i : Int) {rest : Bytes} (hr : Follows rest) :
    read? (utf8 (toString i) ++ rest) = some (ofInt i, rest) := by
  cases i with
  | ofNat n => exact (read?_digits n hr).1
  | negSucc n =>
    have hm : utf8 "-" = [45] := by decide
    have hu : utf8 (toString (Int.negSucc n)) = 45 :: utf8 (n + 1).repr := by
      rw [← List.singleton_append, ← hm, ← utf8_append]
      rfl
    rw [hu, ofInt, decide_eq_true (Int.negSucc_lt_zero n)]
    exact (read?_digits (n + 1) hr).2

/-- The numeral of an integer that 64 bits hold stands for it. -/
theorem value?_int {i : Int} (hi : Json.intRange i = true) : (ofInt i).value? = some (.int i) := by
  have hb : -9223372036854775808 ≤ i ∧ i ≤ 18446744073709551615 := of_decide_eq_true hi
  have hc : collect 0 (digitValues i.natAbs) = (i.natAbs, []) := by
    refine collect_digitValues ?_
    rw [maxSignificand]
    omega
  simp only [value?, ofInt, hc, true_and, if_true]
  by_cases h : i < 0
  · have h0 : i.natAbs ≠ 0 := by omega
    have hs : i.natAbs ≤ Double.signWeight := by
      rw [Double.signWeight]
      omega
    have hn : -(i.natAbs : Int) = i := by omega
    simp only [h, decide_true, Bool.not_true, Bool.false_eq_true, if_false, h0, hs, if_true, hn]
  · have hn : (i.natAbs : Int) = i := by omega
    simp only [h, decide_false, Bool.not_false, if_true, hn]

/-! ## Behind a numeral -/

/-- A numeral begins with a digit or a minus. -/
theorem read?_head {s rest : Bytes} {n : Numeral} (h : read? s = some (n, rest)) :
    ∃ b t, s = b :: t ∧ (isDigit b = true ∨ b = 45) := by
  cases s with
  | nil => cases h
  | cons b t =>
    refine ⟨b, t, rfl, ?_⟩
    by_cases hm : b = 45
    · exact .inr hm
    · by_cases hd : isDigit b = true
      · exact .inl hd
      · have hnone : digits (b :: t) = ([], b :: t) := by
          rw [digits, List.takeWhile_cons_of_neg hd, List.dropWhile_cons_of_neg hd]
          rfl
        rw [read?.eq_2 _ fun u hu => hm (List.cons.inj hu).1] at h
        simp only [hnone] at h
        cases h

variable {rest : Bytes} (hr : Follows rest)
include hr

theorem digits_append (s : Bytes) : digits (s ++ rest) = ((digits s).1, (digits s).2 ++ rest) := by
  induction s with
  | nil =>
    rw [List.nil_append, digits, (Follows.takeWhile hr).1, (Follows.takeWhile hr).2]
    rfl
  | cons b s ih =>
    by_cases hb : isDigit b = true
    · have hcons (t : Bytes) : digits (b :: t) = (digitValue b :: (digits t).1, (digits t).2) := by
        rw [digits, List.takeWhile_cons_of_pos hb, List.dropWhile_cons_of_pos hb]
        rfl
      rw [List.cons_append, hcons, hcons, ih]
    · have hnone (t : Bytes) : digits (b :: t) = ([], b :: t) := by
        rw [digits, List.takeWhile_cons_of_neg hb, List.dropWhile_cons_of_neg hb]
        rfl
      rw [List.cons_append, hnone, hnone, List.cons_append]

theorem readFraction_append {s t : Bytes} {ds : List Nat} (h : readFraction s = some (ds, t)) :
    readFraction (s ++ rest) = some (ds, t ++ rest) := by
  cases s with
  | nil =>
    cases h
    exact (readFraction_follows hr).1
  | cons b s =>
    by_cases hb : b = 46
    · subst hb
      rw [readFraction] at h
      rw [List.cons_append, readFraction, digits_append hr]
      cases hd : digits s with
      | mk ds' t' =>
        rw [hd] at h
        cases ds' with
        | nil => cases h
        | cons d ds' =>
          cases h
          rfl
    · have hother (u : Bytes) : readFraction (b :: u) = some ([], b :: u) :=
        readFraction.eq_2 _ fun v hv => hb (List.cons.inj hv).1
      rw [hother] at h
      cases h
      rw [List.cons_append, hother]

/-- What is read behind the mark and the sign of an exponent. -/
def readPower (minus : Bool) (s : Bytes) : Option (Option Int × Bytes) :=
  match digits s with
  | ([], _) => none
  | (ds, rest) => some (some (if minus then -(natural ds : Int) else (natural ds : Int)), rest)

theorem readPower_append {minus : Bool} {s t : Bytes} {e : Option Int}
    (h : readPower minus s = some (e, t)) : readPower minus (s ++ rest) = some (e, t ++ rest) := by
  rw [readPower] at h
  rw [readPower, digits_append hr]
  cases hd : digits s with
  | mk ds t' =>
    rw [hd] at h
    cases ds with
    | nil => cases h
    | cons d ds =>
      cases h
      rfl

theorem readExponent_append {s t : Bytes} {e : Option Int} (h : readExponent s = some (e, t)) :
    readExponent (s ++ rest) = some (e, t ++ rest) := by
  cases s with
  | nil =>
    cases h
    exact (readFraction_follows hr).2
  | cons b s =>
    rw [List.cons_append]
    by_cases hb : b = 101 ∨ b = 69
    · -- behind the mark stands a sign or the first digit
      have hplain (u : Bytes) (h43 : ∀ v, u = 43 :: v → False) (h45 : ∀ v, u = 45 :: v → False) :
          readExponent (b :: u) = readPower false u :=
        (readExponent.eq_4 b u h43 h45).trans (if_pos hb)
      have hplus (u : Bytes) : readExponent (b :: 43 :: u) = readPower false u :=
        (readExponent.eq_2 b u).trans (if_pos hb)
      have hminus (u : Bytes) : readExponent (b :: 45 :: u) = readPower true u :=
        (readExponent.eq_3 b u).trans (if_pos hb)
      cases s with
      | nil =>
        rw [hplain [] (fun _ hv => by cases hv) fun _ hv => by cases hv] at h
        cases h
      | cons c s =>
        rw [List.cons_append]
        by_cases h43 : c = 43
        · subst h43
          rw [hplus] at h ⊢
          exact readPower_append hr h
        · by_cases h45 : c = 45
          · subst h45
            rw [hminus] at h ⊢
            exact readPower_append hr h
          · have hother (u : Bytes) : readExponent (b :: c :: u) = readPower false (c :: u) :=
              hplain _ (fun _ hv => h43 (List.cons.inj hv).1) fun _ hv => h45 (List.cons.inj hv).1
            rw [hother] at h ⊢
            exact readPower_append hr h
    · have hnone (u : Bytes) : readExponent (b :: u) = some (none, b :: u) := by
        rw [readExponent.eq_def]
        simp only [if_neg hb]
      rw [hnone] at h ⊢
      cases h
      rfl

/-- What is read behind the sign of a numeral. -/
def readParts (negative : Bool) (s : Bytes) : Option (Numeral × Bytes) :=
  match digits s with
  | ([], _) => none
  | (0 :: _ :: _, _) => none
  | (whole, s) =>
    match readFraction s with
    | none => none
    | some (fraction, s) =>
      match readExponent s with
      | none => none
      | some (exponent, s) => some (⟨negative, whole, fraction, exponent⟩, s)

theorem readParts_append {negative : Bool} {s t : Bytes} {n : Numeral}
    (h : readParts negative s = some (n, t)) :
    readParts negative (s ++ rest) = some (n, t ++ rest) := by
  rw [readParts] at h
  rw [readParts, digits_append hr]
  revert h
  rcases digits s with ⟨whole, v⟩
  intro h
  simp only at h ⊢
  split at h
  · cases h
  · cases h
  · rename_i whole' v' h0 h00 hw
    cases hw
    cases hfraction : readFraction v with
    | none =>
      rw [hfraction] at h
      cases h
    | some x =>
      obtain ⟨fraction, w⟩ := x
      rw [hfraction] at h
      simp only [readFraction_append hr hfraction]
      cases hexponent : readExponent w with
      | none =>
        simp only [hexponent] at h
        cases h
      | some y =>
        obtain ⟨exponent, w'⟩ := y
        simp only [hexponent] at h
        cases h
        simp only [readExponent_append hr hexponent]

/-- **A numeral is read up to what follows it.** -/
theorem read?_append {s t : Bytes} {n : Numeral} (h : read? s = some (n, t)) :
    read? (s ++ rest) = some (n, t ++ rest) := by
  have hminus (u : Bytes) : read? (45 :: u) = readParts true u := read?.eq_1 u
  have hplain (u : Bytes) (hu : ∀ v, u = 45 :: v → False) : read? u = readParts false u :=
    read?.eq_2 u hu
  obtain ⟨b, u, rfl, hb⟩ := read?_head h
  rw [List.cons_append]
  by_cases hm : b = 45
  · subst hm
    rw [hminus] at h ⊢
    exact readParts_append hr h
  · have hsign (u v : Bytes) (hv : b :: u = 45 :: v) : False := hm (List.cons.inj hv).1
    rw [hplain _ (hsign _)] at h ⊢
    exact readParts_append hr h

end Numeral

end AgentStream
