/-
# Values as they are written and read

Reading the written form of a value gives the document of that value, as long as its arrays and
objects are not nested too deeply and its doubles are written as numerals that stand for them.

* `Json.Legible` : what the numbers of a value have to be like;
* `Doc.readValue_compact` : a value is read up to what follows it;
* `Doc.read_legible`, `Doc.read_encode` : the bytes of a value are read to their end;
* `Doc.read_tagged` : the first member of an object is read whatever the others are.
-/
import AgentStream.Proofs.Json.Bounds
import AgentStream.Proofs.Json.Numerals

namespace AgentStream

/-! ## Numbers -/

/-- What a double is written as is a numeral, and stands for the double. -/
def Double.Legible (x : Double) : Prop :=
  ∃ n, Numeral.read? (utf8 x.text) = some (n, []) ∧ n.value? = some (.double x)

namespace Json

/-- What a value without parts is written as says what it is. -/
def LegibleScalar : Json → Prop
  | double x => x.Legible
  | int i => intRange i = true
  | _ => True

/-- Every double that occurs is written as a numeral that stands for it, and every integer can be
kept as one. -/
def Legible (j : Json) : Prop := ∀ s ∈ j.scalars, s.LegibleScalar

theorem legible_of {j : Json} (hd : ∀ x, double x ∈ j.scalars → x.Legible) (hr : j.Ranged) :
    j.Legible := by
  intro s hs
  cases s with
  | double x => exact hd x hs
  | int i => exact hr i hs
  | _ => trivial

mutual

theorem scalars_of_integral : ∀ {j : Json}, j.integral = true → ∀ s ∈ j.scalars, s.integral = true
  | null, h, _, hs | bool _, h, _, hs | str _, h, _, hs | int _, h, _, hs | double _, h, _, hs =>
    List.mem_singleton.1 hs ▸ h
  | arr _, h, s, hs => scalars_of_integralItems h s hs
  | obj _, h, s, hs => scalars_of_integralMembers h s hs

theorem scalars_of_integralItems : ∀ {items : List Json}, integralItems items = true →
    ∀ s ∈ scalarsItems items, s.integral = true
  | [], _, _, hs => nomatch hs
  | _ :: _, h, s, hs =>
    have h := Bool.and_eq_true_iff.1 h
    (List.mem_append.1 hs).elim (scalars_of_integral h.1 s) (scalars_of_integralItems h.2 s)

theorem scalars_of_integralMembers : ∀ {members : Members}, integralMembers members = true →
    ∀ s ∈ scalarsMembers members, s.integral = true
  | [], _, _, hs => nomatch hs
  | (_, _) :: _, h, s, hs =>
    have h := Bool.and_eq_true_iff.1 h
    (List.mem_append.1 hs).elim (scalars_of_integral h.1 s) (scalars_of_integralMembers h.2 s)

end

theorem legible_of_integral {j : Json} (h : j.integral = true) : j.Legible := by
  intro s hs
  have hs := scalars_of_integral h s hs
  cases s with
  | double x => cases hs
  | int i => exact hs
  | _ => trivial

end Json

/-! ## Blanks -/

theorem skipBlanks_cons {b : UInt8} (hb : isBlank b = false) (s : Bytes) :
    skipBlanks (b :: s) = b :: s := by
  rw [skipBlanks, List.dropWhile_cons_of_neg (by simp [hb])]

namespace Json

/-! ## Bytes of values -/

theorem utf8_arr (items : List Json) :
    utf8 (arr items).compact = 91 :: (utf8 (compactItems items) ++ [93]) := by
  have hopen : utf8 "[" = [91] := by decide
  have hclose : utf8 "]" = [93] := by decide
  rw [compact, utf8_append, utf8_append, hopen, hclose]
  rfl

theorem utf8_obj (members : Members) :
    utf8 (obj members).compact = 123 :: (utf8 (compactMembers members) ++ [125]) := by
  have hopen : utf8 "\x7b" = [123] := by decide
  have hclose : utf8 "\x7d" = [125] := by decide
  rw [compact, utf8_append, utf8_append, hopen, hclose]
  rfl

theorem utf8_items (j k : Json) (items : List Json) : utf8 (compactItems (j :: k :: items))
    = utf8 j.compact ++ 44 :: utf8 (compactItems (k :: items)) := by
  have hcomma : utf8 "," = [44] := by decide
  rw [compactItems, utf8_append, utf8_append, hcomma, List.append_assoc]
  rfl

theorem utf8_member (n : String) (j : Json) :
    utf8 (compactMembers [(n, j)]) = utf8 (quoted n) ++ 58 :: utf8 j.compact := by
  have hcolon : utf8 ":" = [58] := by decide
  rw [compactMembers, utf8_append, utf8_append, hcolon, List.append_assoc]
  rfl

theorem utf8_members (n : String) (j : Json) (m : String × Json) (members : Members) :
    utf8 (compactMembers ((n, j) :: m :: members))
      = utf8 (quoted n) ++
          58 :: (utf8 j.compact ++ 44 :: utf8 (compactMembers (m :: members))) := by
  have hcolon : utf8 ":" = [58] := by decide
  have hcomma : utf8 "," = [44] := by decide
  rw [compactMembers, utf8_append, utf8_append, utf8_append, utf8_append, hcolon, hcomma]
  simp only [List.append_assoc, List.cons_append, List.nil_append]

theorem isBlank_of_isDigit {b : UInt8} (hd : isDigit b = true) : isBlank b = false := by
  cases hb : isBlank b with
  | false => rfl
  | true =>
    simp only [isBlank, Bool.or_eq_true, beq_iff_eq] at hb
    rcases hb with ((rfl | rfl) | rfl) | rfl <;> cases hd

/-- An integer begins with a digit or a minus. -/
theorem toString_head (i : Int) :
    ∃ b s, utf8 (toString i) = b :: s ∧ (isDigit b = true ∨ b = 45) := by
  cases i with
  | ofNat n =>
    obtain ⟨b, bs, hb, hd⟩ := Numeral.digitBytes_cons n
    exact ⟨b, bs, by rw [← hb, ← Numeral.utf8_repr]; rfl, .inl hd⟩
  | negSucc n =>
    have hm : utf8 "-" = [45] := by decide
    refine ⟨45, utf8 (n + 1).repr, ?_, .inr rfl⟩
    rw [← List.singleton_append, ← hm, ← utf8_append]
    rfl

/-- A value begins with a byte that is no blank and closes nothing. -/
theorem compact_head {j : Json} (hj : j.Legible) :
    ∃ b s, utf8 j.compact = b :: s ∧ isBlank b = false ∧ b ≠ 93 := by
  have hnumeral {b : UInt8} (hb : isDigit b = true ∨ b = 45) : isBlank b = false ∧ b ≠ 93 := by
    rcases hb with hd | rfl
    · exact ⟨isBlank_of_isDigit hd, fun he => by rw [he] at hd; cases hd⟩
    · exact ⟨rfl, by decide⟩
  cases j with
  | null => exact ⟨110, [117, 108, 108], by decide, by decide, by decide⟩
  | bool b =>
    cases b with
    | true => exact ⟨116, [114, 117, 101], by decide, by decide, by decide⟩
    | false => exact ⟨102, [97, 108, 115, 101], by decide, by decide, by decide⟩
  | int i =>
    obtain ⟨b, s, hs, hb⟩ := toString_head i
    exact ⟨b, s, hs, hnumeral hb⟩
  | double x =>
    have hx : x.Legible := hj _ List.mem_cons_self
    obtain ⟨n, hread, -⟩ := hx
    obtain ⟨b, s, hs, hb⟩ := Numeral.read?_head hread
    exact ⟨b, s, hs, hnumeral hb⟩
  | str s => exact ⟨34, _, utf8_quoted s, by decide, by decide⟩
  | arr items => exact ⟨91, _, utf8_arr items, by decide, by decide⟩
  | obj members => exact ⟨123, _, utf8_obj members, by decide, by decide⟩

end Json

namespace Doc

open Json (compact compactItems compactMembers quoted scalarsItems scalarsMembers depth depthItems
  depthMembers)

/-! ## Values -/

theorem readValue_str (s : String) (fuel depth : Nat) (rest : Bytes) :
    readValue (fuel + 1) depth (utf8 (quoted s) ++ rest) = (str s, some rest) := by
  obtain ⟨body, hb, hr⟩ := readString_quoted s rest
  rw [hb, List.cons_append, readValue]
  simp [hr]

/-- A numeral is read as the number that it stands for. -/
theorem readValue_numeral {s rest : Bytes} {n : Numeral} (h : Numeral.read? s = some (n, rest))
    (fuel depth : Nat) : readValue (fuel + 1) depth s = (match n.value? with
      | some (.int i) => (int i, some rest)
      | some (.double x) => (double x, some rest)
      | _ => (refused, some rest)) := by
  obtain ⟨b, t, rfl, hb⟩ := Numeral.read?_head h
  -- neither a digit nor a minus begins any other value
  have hne {c : UInt8} (hc : isDigit c = false) (h45 : c ≠ 45) : b ≠ c := by
    rintro rfl
    rcases hb with hb | hb
    · rw [hb] at hc
      cases hc
    · exact h45 hb
  rw [readValue, if_neg (hne (by decide) (by decide)), if_neg (hne (by decide) (by decide)),
    if_neg (hne (by decide) (by decide)), if_neg (hne (by decide) (by decide)),
    if_neg (hne (by decide) (by decide)), if_neg (hne (by decide) (by decide))]
  generalize Numeral.read? (b :: t) = read at h
  subst h
  rfl

theorem readValue_int {i : Int} (hi : Json.intRange i = true) (fuel depth : Nat) {rest : Bytes}
    (hr : Follows rest) :
    readValue (fuel + 1) depth (utf8 (toString i) ++ rest) = (int i, some rest) := by
  rw [readValue_numeral (Numeral.read?_int i hr), Numeral.value?_int hi]

theorem readValue_double {x : Double} (hx : x.Legible) (fuel depth : Nat) {rest : Bytes}
    (hr : Follows rest) :
    readValue (fuel + 1) depth (utf8 x.text ++ rest) = (double x, some rest) := by
  obtain ⟨n, hread, hvalue⟩ := hx
  rw [readValue_numeral (Numeral.read?_append hr hread), hvalue]
  rfl

theorem readValue_arr (fuel depth : Nat) {s : Bytes} (hs : skipBlanks s = s)
    (h93 : ∀ t, s ≠ 93 :: t) : readValue (fuel + 1) depth (91 :: s)
      = sealed depth (arr (readItems fuel (depth - 1) s).1) (readItems fuel (depth - 1) s).2 := by
  rw [readValue, if_neg (by decide), if_neg (by decide), if_neg (by decide), if_neg (by decide),
    if_pos rfl, hs]
  split
  · exact absurd rfl (h93 _)
  · rfl

theorem readValue_obj (fuel depth : Nat) {s : Bytes} (hs : skipBlanks s = s)
    (h125 : ∀ t, s ≠ 125 :: t) : readValue (fuel + 1) depth (123 :: s)
      = sealed depth (obj (readMembers fuel (depth - 1) s).1)
        (readMembers fuel (depth - 1) s).2 := by
  rw [readValue, if_neg (by decide), if_neg (by decide), if_neg (by decide), if_neg (by decide),
    if_neg (by decide), if_pos rfl, hs]
  split
  · exact absurd rfl (h125 _)
  · rfl

theorem readItems_last {fuel depth : Nat} {s rest : Bytes} {d : Doc}
    (h : readValue fuel depth s = (d, some (93 :: rest))) :
    readItems (fuel + 1) depth s = ([d], some rest) := by
  rw [readItems, h]
  rfl

theorem readItems_more {fuel depth : Nat} {s rest : Bytes} {d : Doc}
    (h : readValue fuel depth s = (d, some (44 :: rest))) (hs : skipBlanks rest = rest) :
    readItems (fuel + 1) depth s
      = (d :: (readItems fuel depth rest).1, (readItems fuel depth rest).2) := by
  have hcomma : skipBlanks (44 :: rest) = 44 :: rest := skipBlanks_cons (by decide) rest
  rw [readItems]
  simp only [h, hcomma, hs]

theorem readMembers_last {fuel depth : Nat} (name : String) {s rest : Bytes} {d : Doc}
    (hs : skipBlanks s = s) (h : readValue fuel depth s = (d, some (125 :: rest))) :
    readMembers (fuel + 1) depth (utf8 (quoted name) ++ 58 :: s)
      = ([(some name, d)], some rest) := by
  obtain ⟨body, hb, hr⟩ := readString_quoted name (58 :: s)
  have hcolon : skipBlanks (58 :: s) = 58 :: s := skipBlanks_cons (by decide) s
  have hclose : skipBlanks (125 :: rest) = 125 :: rest := skipBlanks_cons (by decide) rest
  rw [hb, List.cons_append, readMembers]
  simp only [hr, hcolon, hs, h, hclose]

theorem readMembers_more {fuel depth : Nat} (name : String) {s rest : Bytes} {d : Doc}
    (hs : skipBlanks s = s) (h : readValue fuel depth s = (d, some (44 :: rest)))
    (hrest : skipBlanks rest = rest) :
    readMembers (fuel + 1) depth (utf8 (quoted name) ++ 58 :: s)
      = ((some name, d) :: (readMembers fuel depth rest).1, (readMembers fuel depth rest).2) := by
  obtain ⟨body, hb, hr⟩ := readString_quoted name (58 :: s)
  have hcolon : skipBlanks (58 :: s) = 58 :: s := skipBlanks_cons (by decide) s
  have hcomma : skipBlanks (44 :: rest) = 44 :: rest := skipBlanks_cons (by decide) rest
  rw [hb, List.cons_append, readMembers]
  simp only [hr, hcolon, hs, h, hcomma, hrest]

/-! ### What stands in front of a value -/

theorem skipBlanks_compact {j : Json} (hj : j.Legible) (rest : Bytes) :
    skipBlanks (utf8 j.compact ++ rest) = utf8 j.compact ++ rest := by
  obtain ⟨b, s, hs, hb, -⟩ := Json.compact_head hj
  rw [hs]
  exact skipBlanks_cons hb _

theorem skipBlanks_quoted (name : String) (rest : Bytes) :
    skipBlanks (utf8 (quoted name) ++ rest) = utf8 (quoted name) ++ rest := by
  rw [utf8_quoted]
  exact skipBlanks_cons (by decide) _

/-- Items begin with their first one. -/
theorem compactItems_cons (j : Json) (items : List Json) :
    ∃ s, utf8 (compactItems (j :: items)) = utf8 j.compact ++ s := by
  cases items with
  | nil => exact ⟨[], (List.append_nil _).symm⟩
  | cons k items => exact ⟨_, Json.utf8_items j k items⟩

/-- Members begin with the name of the first one. -/
theorem compactMembers_cons (m : String × Json) (members : Members) :
    ∃ s, utf8 (compactMembers (m :: members)) = utf8 (quoted m.1) ++ s := by
  cases members with
  | nil => exact ⟨_, Json.utf8_member m.1 m.2⟩
  | cons k members => exact ⟨_, Json.utf8_members m.1 m.2 k members⟩

/-! ### Reading -/

/-- An object that is not empty is read through its members. -/
theorem readValue_members (m : String × Json) (members : Members) (fuel depth : Nat)
    (rest : Bytes) :
    let s := utf8 (compactMembers (m :: members)) ++ 125 :: rest
    readValue (fuel + 1) depth (utf8 (compact (.obj (m :: members))) ++ rest)
      = sealed depth (obj (readMembers fuel (depth - 1) s).1)
        (readMembers fuel (depth - 1) s).2 := by
  obtain ⟨t, ht⟩ := compactMembers_cons m members
  intro s
  have hs : utf8 (compact (.obj (m :: members))) ++ rest = 123 :: s := by
    rw [Json.utf8_obj, List.cons_append, List.append_assoc, List.singleton_append]
  have hquoted : s = utf8 (quoted m.1) ++ (t ++ 125 :: rest) := by
    rw [← List.append_assoc, ← ht]
  rw [hs]
  apply readValue_obj
  · rw [hquoted]
    exact skipBlanks_quoted m.1 _
  · intro u hu
    rw [hquoted, utf8_quoted] at hu
    exact absurd (List.cons.inj hu).1 (by decide)

mutual

/-- A value is read up to what follows it. -/
theorem readValue_compact : ∀ (j : Json) (fuel depth : Nat) (rest : Bytes), j.Legible →
    j.depth ≤ depth → (utf8 j.compact).length < fuel → Follows rest →
    readValue fuel depth (utf8 j.compact ++ rest) = (ofJson j, some rest)
  | _, 0, _, _, _, _, hf, _ => absurd hf (Nat.not_lt_zero _)
  | .null, fuel + 1, depth, rest, _, _, _, _ => by
    have hu : utf8 (compact .null) = [110, 117, 108, 108] := by decide
    rw [hu]
    rfl
  | .bool true, fuel + 1, depth, rest, _, _, _, _ => by
    have hu : utf8 (compact (.bool true)) = [116, 114, 117, 101] := by decide
    rw [hu]
    rfl
  | .bool false, fuel + 1, depth, rest, _, _, _, _ => by
    have hu : utf8 (compact (.bool false)) = [102, 97, 108, 115, 101] := by decide
    rw [hu]
    rfl
  | .int i, fuel + 1, depth, rest, hi, _, _, hr =>
    readValue_int (hi _ List.mem_cons_self) fuel depth hr
  | .double x, fuel + 1, depth, rest, hi, _, _, hr =>
    readValue_double (hi _ List.mem_cons_self) fuel depth hr
  | .str s, fuel + 1, depth, rest, _, _, _, _ => readValue_str s fuel depth rest
  | .arr [], fuel + 1, depth + 1, rest, _, _, _, _ => by
    have hu : utf8 (compact (.arr [])) = [91, 93] := by decide
    rw [hu]
    rfl
  | .arr (j :: items), fuel + 1, depth + 1, rest, hi, hd, hf, hr => by
    have hj : j.Legible := (List.forall_mem_append.1 hi).1
    obtain ⟨s, hs⟩ := compactItems_cons j items
    obtain ⟨b, t, hb, -, h93⟩ := Json.compact_head hj
    -- The two brackets pay for the fuel that the items need beyond their length.
    have hlen : (utf8 (compactItems (j :: items))).length + 1 < fuel := by
      rw [Json.utf8_arr, List.length_cons, List.length_append, List.length_singleton] at hf
      omega
    have hitems := readItems_compact j items fuel depth rest hi (Nat.le_of_succ_le_succ hd) hlen
    rw [Json.utf8_arr, List.cons_append, List.append_assoc, List.singleton_append, readValue_arr]
    · rw [Nat.add_sub_cancel, hitems]
      rfl
    · rw [hs, List.append_assoc]
      exact skipBlanks_compact hj _
    · intro u hu
      rw [hs, hb] at hu
      exact h93 (List.cons.inj hu).1
  | .obj [], fuel + 1, depth + 1, rest, _, _, _, _ => by
    have hu : utf8 (compact (.obj [])) = [123, 125] := by decide
    rw [hu]
    rfl
  | .obj (m :: members), fuel + 1, depth + 1, rest, hi, hd, hf, hr => by
    have hlen : (utf8 (compactMembers (m :: members))).length + 1 < fuel := by
      rw [Json.utf8_obj, List.length_cons, List.length_append, List.length_singleton] at hf
      omega
    have hmembers := readMembers_compact m.1 m.2 members fuel depth rest hi
      (Nat.le_of_succ_le_succ hd) hlen
    rw [readValue_members, Nat.add_sub_cancel, hmembers]
    rfl

/-- The items of an array are read up to what follows the array. -/
theorem readItems_compact : ∀ (j : Json) (items : List Json) (fuel depth : Nat) (rest : Bytes),
    (∀ s ∈ scalarsItems (j :: items), s.LegibleScalar) → depthItems (j :: items) ≤ depth →
    (utf8 (compactItems (j :: items))).length + 1 < fuel →
    readItems fuel depth (utf8 (compactItems (j :: items)) ++ 93 :: rest)
      = (ofItems (j :: items), some rest)
  | _, _, 0, _, _, _, _, hf => absurd hf (Nat.not_lt_zero _)
  | j, [], fuel + 1, depth, rest, hi, hd, hf => by
    have hj : j.Legible := (List.forall_mem_append.1 hi).1
    refine readItems_last (readValue_compact j fuel depth (93 :: rest) hj ?_ ?_ (.inr (.inl rfl)))
    · exact Nat.le_trans (Nat.le_max_left _ _) hd
    · exact Nat.lt_of_succ_lt_succ hf
  | j, k :: items, fuel + 1, depth, rest, hi, hd, hf => by
    obtain ⟨hj, hitems⟩ := List.forall_mem_append.1 hi
    have hk : k.Legible := (List.forall_mem_append.1 hitems).1
    obtain ⟨hdj, hditems⟩ := Nat.max_le.1 hd
    rw [Json.utf8_items, List.length_append, List.length_cons] at hf
    obtain ⟨s, hs⟩ := compactItems_cons k items
    have hvalue := readValue_compact j fuel depth
      (44 :: (utf8 (compactItems (k :: items)) ++ 93 :: rest)) hj hdj (by omega) (.inl rfl)
    rw [Json.utf8_items, List.append_assoc, List.cons_append, readItems_more hvalue,
      readItems_compact k items fuel depth rest hitems hditems (by omega)]
    · rfl
    · rw [hs, List.append_assoc]
      exact skipBlanks_compact hk _

/-- The members of an object are read up to what follows the object. -/
theorem readMembers_compact : ∀ (n : String) (j : Json) (members : Members) (fuel depth : Nat)
    (rest : Bytes), (∀ s ∈ scalarsMembers ((n, j) :: members), s.LegibleScalar) →
    depthMembers ((n, j) :: members) ≤ depth →
    (utf8 (compactMembers ((n, j) :: members))).length + 1 < fuel →
    readMembers fuel depth (utf8 (compactMembers ((n, j) :: members)) ++ 125 :: rest)
      = (ofMembers ((n, j) :: members), some rest)
  | _, _, _, 0, _, _, _, _, hf => absurd hf (Nat.not_lt_zero _)
  | n, j, [], fuel + 1, depth, rest, hi, hd, hf => by
    have hj : j.Legible := (List.forall_mem_append.1 hi).1
    rw [Json.utf8_member, List.length_append, List.length_cons] at hf
    rw [Json.utf8_member, List.append_assoc, List.cons_append]
    refine readMembers_last n (skipBlanks_compact hj _)
      (readValue_compact j fuel depth (125 :: rest) hj ?_ (by omega) (.inr (.inr rfl)))
    exact Nat.le_trans (Nat.le_max_left _ _) hd
  | n, j, (n', k) :: members, fuel + 1, depth, rest, hi, hd, hf => by
    obtain ⟨hj, hmembers⟩ := List.forall_mem_append.1 hi
    obtain ⟨hdj, hdmembers⟩ := Nat.max_le.1 hd
    rw [Json.utf8_members, List.length_append, List.length_cons, List.length_append,
      List.length_cons] at hf
    obtain ⟨s, hs⟩ := compactMembers_cons (n', k) members
    have hvalue := readValue_compact j fuel depth
      (44 :: (utf8 (compactMembers ((n', k) :: members)) ++ 125 :: rest)) hj hdj (by omega)
      (.inl rfl)
    rw [Json.utf8_members, List.append_assoc, List.cons_append, List.append_assoc,
      List.cons_append, readMembers_more n (skipBlanks_compact hj _) hvalue,
      readMembers_compact n' k members fuel depth rest hmembers hdmembers (by omega)]
    · rfl
    · rw [hs, List.append_assoc]
      exact skipBlanks_quoted n' _

end

/-- **Written values are read back**: the bytes of a value whose numbers say what they are, nested
no deeper than the limit, are read to their end as the document of that value. -/
theorem read_legible {j : Json} (hj : j.Legible) (hd : j.depth ≤ nestingLimit) :
    read j.encode = (ofJson j, some []) := by
  have hs := skipBlanks_compact hj []
  have hv := readValue_compact j (2 * (utf8 j.compact).length + 2) nestingLimit [] hj hd
    (by omega) trivial
  rw [List.append_nil] at hs hv
  rw [read, Json.encode, hs, hv]
  rfl

/-- That is so of every value without doubles whose integers are in range. -/
theorem read_encode {j : Json} (hj : j.integral = true) (hd : j.depth ≤ nestingLimit) :
    read j.encode = (ofJson j, some []) :=
  read_legible (Json.legible_of_integral hj) hd

/-- The last member is read, if it is a string. -/
theorem readMembers_str_last (name text : String) (fuel depth : Nat) (rest : Bytes) :
    readMembers (fuel + 2) depth (utf8 (compactMembers [(name, .str text)]) ++ 125 :: rest)
      = ([(some name, str text)], some rest) := by
  rw [Json.utf8_member, List.append_assoc, List.cons_append]
  exact readMembers_last name (skipBlanks_quoted text _)
    (readValue_str text fuel depth (125 :: rest))

/-- A member that is a string is read, and then the others are. -/
theorem readMembers_str_more (name text : String) (m : String × Json) (members : Members)
    (fuel depth : Nat) (rest : Bytes) :
    let s := utf8 (compactMembers (m :: members)) ++ 125 :: rest
    readMembers (fuel + 2) depth
      (utf8 (compactMembers ((name, .str text) :: m :: members)) ++ 125 :: rest)
        = ((some name, str text) :: (readMembers (fuel + 1) depth s).1,
          (readMembers (fuel + 1) depth s).2) := by
  intro s
  obtain ⟨t, ht⟩ := compactMembers_cons m members
  have hs : s = utf8 (quoted m.1) ++ (t ++ 125 :: rest) := by
    rw [← List.append_assoc, ← ht]
  have hblanks : skipBlanks s = s := by
    rw [hs]
    exact skipBlanks_quoted m.1 _
  rw [Json.utf8_members, List.append_assoc, List.cons_append, List.append_assoc,
    List.cons_append]
  exact readMembers_more name (skipBlanks_quoted text _) (readValue_str text fuel depth _) hblanks

/-- The first member is read, if it is a string, whatever the others are. -/
theorem readMembers_str (name text : String) (members : Members) (fuel depth : Nat)
    (rest : Bytes) : ∃ ms rest',
    readMembers (fuel + 2) depth
      (utf8 (compactMembers ((name, .str text) :: members)) ++ 125 :: rest)
        = ((some name, str text) :: ms, rest') := by
  cases members with
  | nil => exact ⟨[], _, readMembers_str_last name text fuel depth rest⟩
  | cons m members => exact ⟨_, _, readMembers_str_more name text m members fuel depth rest⟩

/-- The bytes of an object that is not empty are read through its members. -/
theorem read_obj (m : String × Json) (members : Members) :
    let s := utf8 (compactMembers (m :: members)) ++ [125]
    let fuel := 2 * (utf8 (compact (.obj (m :: members)))).length + 1
    read (Json.obj (m :: members)).encode
      = (obj (readMembers fuel (nestingLimit - 1) s).1,
        (readMembers fuel (nestingLimit - 1) s).2.map skipBlanks) := by
  intro s fuel
  have hblank : skipBlanks (utf8 (compact (.obj (m :: members))))
      = utf8 (compact (.obj (m :: members))) := by
    rw [Json.utf8_obj]
    exact skipBlanks_cons (by decide) _
  have hvalue := readValue_members m members fuel nestingLimit []
  rw [List.append_nil] at hvalue
  rw [read, Json.encode, hblank, hvalue]
  rfl

/-- The first member of an object is read, if it is a string, whatever the others are. -/
theorem read_tagged (name text : String) (members : Members) : ∃ ms rest,
    read (Json.obj ((name, .str text) :: members)).encode
      = (obj ((some name, str text) :: ms), rest) := by
  obtain ⟨fuel, hfuel⟩ : ∃ fuel,
      2 * (utf8 (compact (.obj ((name, .str text) :: members)))).length + 1 = fuel + 2 := by
    refine ⟨2 * (utf8 (compact (.obj ((name, .str text) :: members)))).length - 1, ?_⟩
    rw [Json.utf8_obj, List.length_cons]
    omega
  obtain ⟨ms, rest, hms⟩ := readMembers_str name text members fuel (nestingLimit - 1) []
  have hread := read_obj (name, .str text) members
  rw [hfuel] at hread
  simp only [hms] at hread
  exact ⟨ms, _, hread⟩

end Doc

end AgentStream
