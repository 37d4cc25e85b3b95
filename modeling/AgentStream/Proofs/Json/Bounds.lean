/-
# The bounds of what is read

A reader keeps arrays and objects from being nested too deeply, and integers from being too
great.  A value that is made of what it has read is in sorted form and keeps these bounds, so it can
be written and read again unless it holds a double.

* `Json.DoubleFree`, `Json.Ranged`, `Json.integral_of` : what keeps a value from being written;
* `Doc.Within`, `Doc.within_read` : the bounds of a document that is read;
* `Doc.held_toJson?` : the value of a document keeps its bounds;
* `Doc.within_ofJson` : the document of a value is nested like the value.
-/
import AgentStream.Json.Reader
import AgentStream.Proofs.Json.Sorted

namespace AgentStream

/-! ## Scalars -/

namespace Json

mutual

/-- The values without parts that a value is made of. -/
def scalars : Json → List Json
  | arr items => scalarsItems items
  | obj members => scalarsMembers members
  | null => [null]
  | bool b => [bool b]
  | int i => [int i]
  | double x => [double x]
  | str s => [str s]
termination_by structural j => j

/-- `scalars` of all items. -/
def scalarsItems : List Json → List Json
  | [] => []
  | j :: rest => j.scalars ++ scalarsItems rest
termination_by structural l => l

/-- `scalars` of the values of all members. -/
def scalarsMembers : Members → List Json
  | [] => []
  | (_, j) :: rest => j.scalars ++ scalarsMembers rest
termination_by structural l => l

end

/-- No double occurs. -/
def DoubleFree (j : Json) : Prop := ∀ x, double x ∉ j.scalars

/-- Whether the value is a double. -/
def isDouble : Json → Bool
  | double _ => true
  | _ => false

theorem doubleFree_iff {j : Json} : j.DoubleFree ↔ ∀ s ∈ j.scalars, s.isDouble = false := by
  refine ⟨fun h s hs => ?_, fun h x hx => nomatch h _ hx⟩
  cases s with
  | double x => exact absurd hs (h x)
  | _ => rfl

instance : DecidablePred DoubleFree := fun _ => decidable_of_iff _ doubleFree_iff.symm

/-- Every integer that occurs can be kept as an integer. -/
def Ranged (j : Json) : Prop := ∀ i, int i ∈ j.scalars → intRange i = true

mutual

/-- A value without doubles whose integers are in range can be written. -/
theorem integral_of : ∀ {j : Json}, (∀ x, double x ∉ j.scalars) →
    (∀ i, int i ∈ j.scalars → intRange i = true) → j.integral = true
  | null, _, _ | bool _, _, _ | str _, _, _ => rfl
  | int i, _, h => h i List.mem_cons_self
  | double x, h, _ => absurd List.mem_cons_self (h x)
  | arr _, h, h' => integralItems_of h h'
  | obj _, h, h' => integralMembers_of h h'

theorem integralItems_of : ∀ {items : List Json}, (∀ x, double x ∉ scalarsItems items) →
    (∀ i, int i ∈ scalarsItems items → intRange i = true) → integralItems items = true
  | [], _, _ => rfl
  | j :: items, h, h' => by
    have hj : j.integral = true := integral_of (fun x hx => h x (List.mem_append_left _ hx))
      fun i hi => h' i (List.mem_append_left _ hi)
    rw [integralItems, hj]
    exact integralItems_of (fun x hx => h x (List.mem_append_right _ hx))
      fun i hi => h' i (List.mem_append_right _ hi)

theorem integralMembers_of : ∀ {members : Members}, (∀ x, double x ∉ scalarsMembers members) →
    (∀ i, int i ∈ scalarsMembers members → intRange i = true) → integralMembers members = true
  | [], _, _ => rfl
  | (_, j) :: members, h, h' => by
    have hj : j.integral = true := integral_of (fun x hx => h x (List.mem_append_left _ hx))
      fun i hi => h' i (List.mem_append_left _ hi)
    rw [integralMembers, hj]
    exact integralMembers_of (fun x hx => h x (List.mem_append_right _ hx))
      fun i hi => h' i (List.mem_append_right _ hi)

end

/-! ## All items and members -/

theorem mem_scalarsItems {s : Json} {items : List Json} :
    s ∈ scalarsItems items ↔ ∃ j ∈ items, s ∈ j.scalars := by
  induction items with
  | nil => simp [scalarsItems]
  | cons j items ih =>
    simp only [scalarsItems, List.mem_append, ih, List.mem_cons, exists_eq_or_imp]

theorem mem_scalarsMembers {s : Json} {members : Members} :
    s ∈ scalarsMembers members ↔ ∃ m ∈ members, s ∈ m.2.scalars := by
  induction members with
  | nil => simp [scalarsMembers]
  | cons m members ih =>
    simp only [scalarsMembers, List.mem_append, ih, List.mem_cons, exists_eq_or_imp]

theorem depthItems_le {n : Nat} {items : List Json} :
    depthItems items ≤ n ↔ ∀ j ∈ items, j.depth ≤ n := by
  induction items with
  | nil => simp [depthItems]
  | cons j items ih => rw [depthItems, Nat.max_le, ih, List.forall_mem_cons]

theorem depthMembers_le {n : Nat} {members : Members} :
    depthMembers members ≤ n ↔ ∀ m ∈ members, m.2.depth ≤ n := by
  induction members with
  | nil => simp [depthMembers]
  | cons m members ih => rw [depthMembers, Nat.max_le, ih, List.forall_mem_cons]

/-- The value is in sorted form, its integers are in range and it is not nested more deeply. -/
structure Held (depth : Nat) (j : Json) : Prop where
  sorted : j.Sorted
  ranged : j.Ranged
  shallow : j.depth ≤ depth

theorem Held.mono {n k : Nat} {j : Json} (h : j.Held n) (hk : n ≤ k) : j.Held k :=
  ⟨h.sorted, h.ranged, Nat.le_trans h.shallow hk⟩

theorem held_null {n : Nat} : null.Held n :=
  ⟨trivial, fun _ => by simp [scalars], Nat.zero_le n⟩

theorem held_str {n : Nat} (s : String) : (str s).Held n :=
  ⟨trivial, fun _ => by simp [scalars], Nat.zero_le n⟩

theorem held_double {n : Nat} (x : Double) : (double x).Held n :=
  ⟨trivial, fun _ => by simp [scalars], Nat.zero_le n⟩

theorem held_int {n : Nat} {i : Int} (h : intRange i = true) : (int i).Held n := by
  refine ⟨trivial, fun k hk => ?_, Nat.zero_le n⟩
  cases List.mem_singleton.1 hk
  exact h

theorem held_arr {n : Nat} {items : List Json} (h : ∀ j ∈ items, j.Held n) :
    (arr items).Held (n + 1) where
  sorted := sortedItems_iff.2 fun j hj => (h j hj).sorted
  ranged i hi := by
    obtain ⟨j, hj, hij⟩ := mem_scalarsItems.1 hi
    exact (h j hj).ranged i hij
  shallow := Nat.succ_le_succ (depthItems_le.2 fun j hj => (h j hj).shallow)

theorem held_ofMembers {n : Nat} {members : Members} (h : ∀ m ∈ members, m.2.Held n) :
    (ofMembers members).Held (n + 1) := by
  have hall := forall_sortMembers h
  exact {
    sorted := ⟨sortMembers_pairwise members, sortedMembers_iff.2 fun m hm => (hall m hm).sorted⟩
    ranged := fun i hi => by
      obtain ⟨m, hm, him⟩ := mem_scalarsMembers.1 hi
      exact (hall m hm).ranged i him
    shallow := Nat.succ_le_succ (depthMembers_le.2 fun m hm => (hall m hm).shallow) }

end Json

/-! ## Documents within bounds -/

namespace Doc

mutual

/-- Arrays and objects are nested no more deeply, and integers are in range. -/
def Within : Nat → Doc → Prop
  | n, arr items => 0 < n ∧ WithinItems (n - 1) items
  | n, obj members => 0 < n ∧ WithinMembers (n - 1) members
  | _, int i => Json.intRange i = true
  | _, _ => True
termination_by structural _ d => d

/-- `Within` for every item. -/
def WithinItems : Nat → List Doc → Prop
  | _, [] => True
  | n, d :: rest => d.Within n ∧ WithinItems n rest
termination_by structural _ l => l

/-- `Within` for every member's value. -/
def WithinMembers : Nat → List (Option String × Doc) → Prop
  | _, [] => True
  | n, (_, d) :: rest => d.Within n ∧ WithinMembers n rest
termination_by structural _ l => l

end

variable {n : Nat}

theorem withinItems_iff {items : List Doc} : WithinItems n items ↔ ∀ d ∈ items, d.Within n := by
  induction items with
  | nil => exact ⟨fun _ => nofun, fun _ => trivial⟩
  | cons d items ih => rw [WithinItems, ih, List.forall_mem_cons]

theorem withinMembers_iff {members : List (Option String × Doc)} :
    WithinMembers n members ↔ ∀ m ∈ members, m.2.Within n := by
  induction members with
  | nil => exact ⟨fun _ => nofun, fun _ => trivial⟩
  | cons m members ih => rw [WithinMembers, ih, List.forall_mem_cons]

/-! ## Reading -/

/-- An array or object that begins where it may, or is refused. -/
theorem within_sealed {d : Doc} {rest : Option Bytes} (h : 0 < n → d.Within n) :
    (sealed n d rest).1.Within n := by
  cases n with
  | zero => cases rest <;> exact trivial
  | succ n => exact h (Nat.succ_pos n)

end Doc

namespace Numeral

theorem collect_le (ds : List Nat) {n : Nat} (h : n ≤ maxSignificand) :
    (collect n ds).1 ≤ maxSignificand := by
  induction ds generalizing n with
  | nil => exact h
  | cons d ds ih =>
    rw [collect]
    split
    · exact h
    · rename_i hle
      exact ih (Nat.not_lt.1 hle)

/-- A numeral that stands for an integer stands for one in range. -/
theorem value?_range {n : Numeral} {i : Int} (h : n.value? = some (.int i)) :
    Json.intRange i = true := by
  have hle : (collect 0 n.whole).1 ≤ 18446744073709551615 :=
    collect_le n.whole (Nat.zero_le maxSignificand)
  unfold value? at h
  generalize collect 0 n.whole = x at h hle
  obtain ⟨whole, more⟩ := x
  simp only at h hle
  split at h
  · split at h
    · cases h
      exact decide_eq_true ⟨by omega, by omega⟩
    · split at h
      · cases h
      · split at h
        · rename_i hweight
          cases h
          have hweight : whole ≤ 9223372036854775808 := hweight
          exact decide_eq_true ⟨by omega, by omega⟩
        · cases h
  · obtain ⟨x, -, hx⟩ := Option.map_eq_some_iff.1 h
    cases hx

end Numeral

namespace Doc

mutual

/-- A value that is read is within bounds. -/
theorem within_readValue : ∀ (fuel depth : Nat) (s : Bytes), (readValue fuel depth s).1.Within depth
  | 0, _, _ => trivial
  | _ + 1, _, [] => trivial
  | fuel + 1, depth, b :: s => by
    rw [readValue]
    split
    · split <;> exact trivial
    split
    · split <;> exact trivial
    split
    · split <;> exact trivial
    split
    · split <;> exact trivial
    split
    · split
      · exact within_sealed fun h => ⟨h, trivial⟩
      · exact within_sealed fun h =>
          ⟨h, withinItems_iff.2 (within_readItems fuel (depth - 1) _)⟩
    split
    · split
      · exact within_sealed fun h => ⟨h, trivial⟩
      · exact within_sealed fun h =>
          ⟨h, withinMembers_iff.2 (within_readMembers fuel (depth - 1) _)⟩
    · split
      · split
        · rename_i hi
          exact Numeral.value?_range hi
        · exact trivial
        · exact trivial
      · exact trivial

theorem within_readItems : ∀ (fuel depth : Nat) (s : Bytes),
    ∀ d ∈ (readItems fuel depth s).1, d.Within depth
  | 0, _, _ => List.forall_mem_singleton.2 trivial
  | fuel + 1, depth, s => by
    have hvalue := within_readValue fuel depth s
    rw [readItems]
    split
    · rename_i hd
      rw [hd] at hvalue
      exact List.forall_mem_singleton.2 hvalue
    · rename_i hd
      rw [hd] at hvalue
      split
      · exact List.forall_mem_singleton.2 hvalue
      · exact List.forall_mem_cons.2 ⟨hvalue, within_readItems fuel depth _⟩
      · exact List.forall_mem_cons.2 ⟨hvalue, List.forall_mem_singleton.2 trivial⟩

theorem within_readMembers : ∀ (fuel depth : Nat) (s : Bytes),
    ∀ m ∈ (readMembers fuel depth s).1, m.2.Within depth
  | 0, _, _ => List.forall_mem_singleton.2 trivial
  | fuel + 1, depth, s => by
    rw [readMembers.eq_def]
    simp only
    split
    · split
      · exact List.forall_mem_singleton.2 trivial
      · split
        · rename_i rest _ after _
          have hvalue := within_readValue fuel depth (skipBlanks after)
          split
          · rename_i hd
            rw [hd] at hvalue
            exact List.forall_mem_singleton.2 hvalue
          · rename_i hd
            rw [hd] at hvalue
            split
            · exact List.forall_mem_singleton.2 hvalue
            · exact List.forall_mem_cons.2 ⟨hvalue, within_readMembers fuel depth _⟩
            · exact List.forall_mem_cons.2 ⟨hvalue, List.forall_mem_singleton.2 trivial⟩
        · exact List.forall_mem_singleton.2 trivial
    · exact List.forall_mem_singleton.2 trivial

end

/-- **A document that is read is within bounds.** -/
theorem within_read (text : Bytes) : (read text).1.Within nestingLimit :=
  within_readValue (2 * text.length + 2) nestingLimit (skipBlanks text)

/-! ## Values of documents -/

mutual

/-- **The value of a document keeps its bounds**, and is in sorted form. -/
theorem held_toJson? : ∀ {n : Nat} {d : Doc} {j : Json}, d.Within n → d.toJson? = some j → j.Held n
  | _, null, _, _, rfl | _, bool _, _, _, rfl | _, double _, _, _, rfl | _, str _, _, _, rfl =>
    ⟨trivial, fun _ => by simp [Json.scalars], Nat.zero_le _⟩
  | _, int i, _, hd, rfl => ⟨trivial, fun _ hi => by
      rw [Json.scalars, List.mem_singleton] at hi
      cases hi
      exact hd, Nat.zero_le _⟩
  | n, arr items, j, hd, h => by
    rw [toJson?] at h
    obtain ⟨js, hjs, rfl⟩ := Option.map_eq_some_iff.1 h
    obtain ⟨m, rfl⟩ := Nat.exists_eq_succ_of_ne_zero (Nat.pos_iff_ne_zero.1 hd.1)
    exact Json.held_arr (held_toItems? hd.2 hjs)
  | n, obj members, j, hd, h => by
    rw [toJson?] at h
    obtain ⟨ms, hms, rfl⟩ := Option.map_eq_some_iff.1 h
    obtain ⟨m, rfl⟩ := Nat.exists_eq_succ_of_ne_zero (Nat.pos_iff_ne_zero.1 hd.1)
    exact Json.held_ofMembers (held_toMembers? hd.2 hms)

theorem held_toItems? : ∀ {n : Nat} {items : List Doc} {js : List Json}, WithinItems n items →
    toItems? items = some js → ∀ j ∈ js, j.Held n
  | _, [], _, _, rfl => nofun
  | n, d :: items, js, hd, h => by
    rw [toItems?] at h
    split at h
    · rename_i j js hj hjs
      cases h
      exact List.forall_mem_cons.2 ⟨held_toJson? hd.1 hj, held_toItems? hd.2 hjs⟩
    · cases h

theorem held_toMembers? : ∀ {n : Nat} {members : List (Option String × Doc)} {ms : Members},
    WithinMembers n members → toMembers? members = some ms → ∀ m ∈ ms, m.2.Held n
  | _, [], _, _, rfl => nofun
  | n, (name, d) :: members, ms, hd, h => by
    rw [toMembers?.eq_def] at h
    simp only at h
    split at h
    · rename_i name j ms hj hms
      cases h
      exact List.forall_mem_cons.2 ⟨held_toJson? hd.1 hj, held_toMembers? hd.2 hms⟩
    · cases h

end

/-! ## Wider bounds and written values -/

mutual

/-- What is within bounds is within wider ones. -/
theorem Within.mono : ∀ {n k : Nat} {d : Doc}, d.Within n → n ≤ k → d.Within k
  | _, _, arr _, h, hk =>
    ⟨Nat.lt_of_lt_of_le h.1 hk, WithinItems.mono h.2 (Nat.sub_le_sub_right hk 1)⟩
  | _, _, obj _, h, hk =>
    ⟨Nat.lt_of_lt_of_le h.1 hk, WithinMembers.mono h.2 (Nat.sub_le_sub_right hk 1)⟩
  | _, _, int _, h, _ => h
  | _, _, null, _, _ | _, _, bool _, _, _ | _, _, double _, _, _ | _, _, str _, _, _
  | _, _, refused, _, _ | _, _, broken, _, _ => trivial

theorem WithinItems.mono : ∀ {n k : Nat} {items : List Doc}, WithinItems n items → n ≤ k →
    WithinItems k items
  | _, _, [], _, _ => trivial
  | _, _, _ :: _, h, hk => ⟨Within.mono h.1 hk, WithinItems.mono h.2 hk⟩

theorem WithinMembers.mono : ∀ {n k : Nat} {members : List (Option String × Doc)},
    WithinMembers n members → n ≤ k → WithinMembers k members
  | _, _, [], _, _ => trivial
  | _, _, (_, _) :: _, h, hk => ⟨Within.mono h.1 hk, WithinMembers.mono h.2 hk⟩

end

mutual

/-- The document of a value that can be written is nested like the value. -/
theorem within_ofJson : ∀ {n : Nat} {j : Json}, j.integral = true → j.depth ≤ n →
    (ofJson j).Within n
  | _, .null, _, _ | _, .bool _, _, _ | _, .str _, _, _ => trivial
  | _, .int _, h, _ => h
  | _, .arr _, h, hd =>
    ⟨Nat.lt_of_lt_of_le (Nat.succ_pos _) hd, withinItems_ofItems h (Nat.le_sub_one_of_lt hd)⟩
  | _, .obj _, h, hd =>
    ⟨Nat.lt_of_lt_of_le (Nat.succ_pos _) hd, withinMembers_ofMembers h (Nat.le_sub_one_of_lt hd)⟩

theorem withinItems_ofItems : ∀ {n : Nat} {items : List Json}, Json.integralItems items = true →
    Json.depthItems items ≤ n → WithinItems n (ofItems items)
  | _, [], _, _ => trivial
  | _, _ :: _, h, hd =>
    have h := Bool.and_eq_true_iff.1 h
    have hd := Nat.max_le.1 hd
    ⟨within_ofJson h.1 hd.1, withinItems_ofItems h.2 hd.2⟩

theorem withinMembers_ofMembers : ∀ {n : Nat} {members : Members},
    Json.integralMembers members = true → Json.depthMembers members ≤ n →
    WithinMembers n (ofMembers members)
  | _, [], _, _ => trivial
  | _, (_, _) :: _, h, hd =>
    have h := Bool.and_eq_true_iff.1 h
    have hd := Nat.max_le.1 hd
    ⟨within_ofJson h.1 hd.1, withinMembers_ofMembers h.2 hd.2⟩

end

/-- Only `null` holds `null`. -/
theorem eq_null_of_toJson? {d : Doc} (h : d.toJson? = some .null) : d = null := by
  cases d with
  | null => rfl
  | arr items =>
    rw [toJson?] at h
    obtain ⟨js, -, hjs⟩ := Option.map_eq_some_iff.1 h
    cases hjs
  | obj members =>
    rw [toJson?] at h
    obtain ⟨ms, -, hms⟩ := Option.map_eq_some_iff.1 h
    cases hms
  | _ => cases h

end Doc

end AgentStream
