/-
# Sorted forms

A value that is held has its members sorted, and a value that is read is held so.  The sorted
form of a value has the same members under their names, and sorting it again changes nothing.

* `Json.lookup_sortMembers`, `Json.lookup_sortMembers_last` : what stands under a name in sorted
  members;
* `Json.sorted_isSorted`, `Json.Sorted.sorted_eq` : a value in sorted form is its own one;
* `Json.integral_sorted` : sorting brings in no doubles;
* `Doc.toJson?_ofJson` : the document of a value holds its sorted form.
-/
import Mathlib.Data.String.Basic
import AgentStream.Json.Document
import AgentStream.Proofs.Table

namespace AgentStream

/-- Under keys in order no key stands twice. -/
theorem nodup_of_ordered {α : Type} {table : List (String × α)}
    (h : table.Pairwise (·.1 < ·.1)) : (table.map Prod.fst).Nodup :=
  List.pairwise_map.2 (h.imp ne_of_lt)

namespace Json

/-! ## Sorted members -/

variable {name key : String} {value : Json} {members front : Members}

/-- Whatever the members are like, the one that is put in is found under its name. -/
theorem lookup_insert (name key : String) (value : Json) (members : Members) :
    (insert name value members).lookup key
      = if key = name then some value else members.lookup key := by
  induction members with
  | nil => rw [insert, lookup_cons_ite]
  | cons m members ih =>
    obtain ⟨n, v⟩ := m
    rw [insert]
    split
    · rename_i hn
      rw [lookup_cons_ite, lookup_cons_ite, hn]
      split <;> rfl
    · rename_i hn
      split
      · rw [lookup_cons_ite]
      · rw [lookup_cons_ite, lookup_cons_ite, ih]
        by_cases hk : key = n
        · rw [if_pos hk, if_neg fun h => hn (h.symm.trans hk), if_pos hk]
        · rw [if_neg hk, if_neg hk]

theorem mem_insert {m : String × Json} (h : m ∈ insert name value members) :
    m = (name, value) ∨ m ∈ members := by
  induction members with
  | nil => exact .inl (List.mem_singleton.1 h)
  | cons n members ih =>
    rw [insert] at h
    split at h
    · exact (List.mem_cons.1 h).imp_right (List.mem_cons_of_mem n)
    · split at h
      · exact List.mem_cons.1 h
      · rcases List.mem_cons.1 h with rfl | h
        · exact .inr List.mem_cons_self
        · exact (ih h).imp_right (List.mem_cons_of_mem n)

/-- Members stay in order when one is put in. -/
theorem insert_pairwise (name : String) (value : Json) (h : members.Pairwise (·.1 < ·.1)) :
    (insert name value members).Pairwise (·.1 < ·.1) := by
  induction members with
  | nil => exact List.pairwise_singleton _ _
  | cons m members ih =>
    obtain ⟨hm, hrest⟩ := List.pairwise_cons.1 h
    rw [insert]
    split
    · rename_i hn
      exact List.pairwise_cons.2 ⟨fun m' h' => hn ▸ hm m' h', hrest⟩
    · rename_i hn
      split
      · rename_i hlt
        refine List.pairwise_cons.2 ⟨fun m' h' => ?_, h⟩
        rcases List.mem_cons.1 h' with rfl | h'
        · exact hlt
        · exact hlt.trans (hm m' h')
      · rename_i hlt
        refine List.pairwise_cons.2 ⟨fun m' h' => ?_, ih hrest⟩
        rcases mem_insert h' with rfl | h'
        · exact lt_of_le_of_ne (not_lt.1 hlt) (Ne.symm hn)
        · exact hm m' h'

/-- A member whose name comes last goes to the end. -/
theorem insert_last (h : ∀ m ∈ members, m.1 < name) :
    insert name value members = members ++ [(name, value)] := by
  induction members with
  | nil => rfl
  | cons m members ih =>
    have hlt : m.1 < name := h m List.mem_cons_self
    rw [insert, if_neg hlt.ne', if_neg hlt.asymm, ih fun m' h' => h m' (List.mem_cons_of_mem m h')]
    rfl

/-- Putting members in one after the other, as `sortMembers` does. -/
def insertAll (front members : Members) : Members :=
  members.foldl (fun front (name, value) => insert name value front) front

theorem insertAll_cons (front : Members) (m : String × Json) (members : Members) :
    insertAll front (m :: members) = insertAll (insert m.1 m.2 front) members := rfl

theorem sortMembers_eq (members : Members) : sortMembers members = insertAll [] members := rfl

theorem lookup_insertAll (front : Members) (key : String)
    (h : (members.map Prod.fst).Nodup) :
    (insertAll front members).lookup key = (members.lookup key).or (front.lookup key) := by
  induction members generalizing front with
  | nil => rfl
  | cons m members ih =>
    obtain ⟨hm, hrest⟩ := List.nodup_cons.1 h
    rw [insertAll_cons, ih _ hrest, lookup_insert, lookup_cons_ite]
    by_cases hk : key = m.1
    · have hnone : members.lookup key = none := by
        rw [List.lookup_eq_none_iff]
        intro m' h'
        have hne : key ≠ m'.1 := fun he => hm (hk ▸ he ▸ List.mem_map_of_mem h')
        simpa using hne
      rw [if_pos hk, if_pos hk, hnone]
      rfl
    · rw [if_neg hk, if_neg hk]

/-- **Under a name that occurs once the sorted members have what the members have.** -/
theorem lookup_sortMembers (key : String) (h : (members.map Prod.fst).Nodup) :
    (sortMembers members).lookup key = members.lookup key := by
  rw [sortMembers_eq, lookup_insertAll [] key h]
  exact Option.or_none

/-- **Under every name the sorted members have what stands last under it.** -/
theorem lookup_sortMembers_last (members : Members) (key : String) :
    (sortMembers members).lookup key = members.reverse.lookup key := by
  have hall (front : Members) :
      (insertAll front members).lookup key
        = (members.reverse.lookup key).or (front.lookup key) := by
    induction members generalizing front with
    | nil => rfl
    | cons m members ih =>
      rw [insertAll_cons, ih, lookup_insert, List.reverse_cons, List.lookup_append, lookup_cons_ite,
        Option.or_assoc]
      split <;> rfl
  rw [sortMembers_eq, hall]
  exact Option.or_none

theorem insertAll_pairwise (members : Members) (h : front.Pairwise (·.1 < ·.1)) :
    (insertAll front members).Pairwise (·.1 < ·.1) := by
  induction members generalizing front with
  | nil => exact h
  | cons m members ih => exact ih (insert_pairwise m.1 m.2 h)

theorem sortMembers_pairwise (members : Members) :
    (sortMembers members).Pairwise (·.1 < ·.1) :=
  insertAll_pairwise members List.Pairwise.nil

theorem sortMembers_nodup (members : Members) : ((sortMembers members).map Prod.fst).Nodup :=
  nodup_of_ordered (sortMembers_pairwise members)

theorem mem_insertAll {m : String × Json} (h : m ∈ insertAll front members) :
    m ∈ members ∨ m ∈ front := by
  induction members generalizing front with
  | nil => exact .inr h
  | cons n members ih =>
    rcases ih h with h | h
    · exact .inl (List.mem_cons_of_mem n h)
    · rcases mem_insert h with rfl | h
      · exact .inl List.mem_cons_self
      · exact .inr h

theorem mem_sortMembers {m : String × Json} (h : m ∈ sortMembers members) : m ∈ members :=
  (mem_insertAll h).resolve_right List.not_mem_nil

theorem insertAll_of_pairwise (h : (front ++ members).Pairwise (·.1 < ·.1)) :
    insertAll front members = front ++ members := by
  induction members generalizing front with
  | nil => exact (List.append_nil front).symm
  | cons m members ih =>
    have hlast : ∀ m' ∈ front, m'.1 < m.1 := fun m' h' =>
      (List.pairwise_append.1 h).2.2 m' h' m List.mem_cons_self
    rw [insertAll_cons, insert_last hlast, ih (by simpa using h)]
    simp

/-- Members in order are sorted already. -/
theorem sortMembers_of_pairwise (h : members.Pairwise (·.1 < ·.1)) :
    sortMembers members = members := insertAll_of_pairwise h

/-! ## Properties of all members -/

/-- What holds of the values of all members goes on to hold once they are sorted. -/
theorem forall_sortMembers {P : Json → Prop} (h : ∀ m ∈ members, P m.2) :
    ∀ m ∈ sortMembers members, P m.2 := fun m hm => h m (mem_sortMembers hm)

theorem names_sortedMembers (members : Members) :
    (sortedMembers members).map Prod.fst = members.map Prod.fst := by
  induction members with
  | nil => rfl
  | cons m members ih => exact congrArg (m.1 :: ·) ih

theorem lookup_sortedMembers (members : Members) (key : String) :
    (sortedMembers members).lookup key = (members.lookup key).map sorted := by
  induction members with
  | nil => rfl
  | cons m members ih =>
    rw [sortedMembers, lookup_cons_ite, lookup_cons_ite, ih]
    split <;> rfl

theorem sortedItems_iff {items : List Json} : SortedItems items ↔ ∀ j ∈ items, j.Sorted := by
  induction items with
  | nil => exact ⟨fun _ => nofun, fun _ => trivial⟩
  | cons j items ih => rw [SortedItems, ih, List.forall_mem_cons]

theorem sortedMembers_iff : SortedMembers members ↔ ∀ m ∈ members, m.2.Sorted := by
  induction members with
  | nil => exact ⟨fun _ => nofun, fun _ => trivial⟩
  | cons m members ih => rw [SortedMembers, ih, List.forall_mem_cons]

theorem integralItems_iff {items : List Json} :
    integralItems items = true ↔ ∀ j ∈ items, j.integral = true := by
  induction items with
  | nil => exact ⟨fun _ => nofun, fun _ => rfl⟩
  | cons j items ih => rw [integralItems, Bool.and_eq_true, ih, List.forall_mem_cons]

theorem integralMembers_iff :
    integralMembers members = true ↔ ∀ m ∈ members, m.2.integral = true := by
  induction members with
  | nil => exact ⟨fun _ => nofun, fun _ => rfl⟩
  | cons m members ih => rw [integralMembers, Bool.and_eq_true, ih, List.forall_mem_cons]

/-! ## Sorted values -/

mutual

/-- The sorted form of a value is in sorted form. -/
theorem sorted_isSorted : ∀ j : Json, j.sorted.Sorted
  | null | bool _ | int _ | double _ | str _ => trivial
  | arr items => sortedItems_isSorted items
  | obj members => by
    have hvalues := sortedMembers_iff.1 (sortedMembers_isSorted members)
    exact ⟨sortMembers_pairwise _, sortedMembers_iff.2 (forall_sortMembers hvalues)⟩

theorem sortedItems_isSorted : ∀ items : List Json, SortedItems (sortedItems items)
  | [] => trivial
  | j :: items => ⟨sorted_isSorted j, sortedItems_isSorted items⟩

theorem sortedMembers_isSorted : ∀ members : Members, SortedMembers (sortedMembers members)
  | [] => trivial
  | (_, j) :: members => ⟨sorted_isSorted j, sortedMembers_isSorted members⟩

end

mutual

/-- A value in sorted form is its own sorted form. -/
theorem Sorted.sorted_eq : ∀ {j : Json}, j.Sorted → j.sorted = j
  | null, _ | bool _, _ | int _, _ | double _, _ | str _, _ => rfl
  | arr _, h => congrArg arr (SortedItems.sorted_eq h)
  | obj members, h => by
    rw [Json.sorted, SortedMembers.sorted_eq h.2, sortMembers_of_pairwise h.1]

theorem SortedItems.sorted_eq : ∀ {items : List Json}, SortedItems items →
    sortedItems items = items
  | [], _ => rfl
  | _ :: _, h => congrArg₂ List.cons h.1.sorted_eq (SortedItems.sorted_eq h.2)

theorem SortedMembers.sorted_eq : ∀ {members : Members}, SortedMembers members →
    sortedMembers members = members
  | [], _ => rfl
  | (n, _) :: _, h =>
    congrArg₂ List.cons (congrArg (Prod.mk n) h.1.sorted_eq) (SortedMembers.sorted_eq h.2)

end

/-! ## Sorting brings in no doubles -/

mutual

theorem integral_sorted : ∀ {j : Json}, j.integral = true → j.sorted.integral = true
  | null, h | bool _, h | int _, h | double _, h | str _, h => h
  | arr _, h => integralItems_sorted h
  | obj members, h => by
    have hsorted : integralMembers (sortedMembers members) = true := integralMembers_sorted h
    exact integralMembers_iff.2
      (forall_sortMembers (P := fun j => j.integral = true) (integralMembers_iff.1 hsorted))

theorem integralItems_sorted : ∀ {items : List Json}, integralItems items = true →
    integralItems (sortedItems items) = true
  | [], _ => rfl
  | _ :: _, h => by
    rw [integralItems, Bool.and_eq_true] at h
    rw [sortedItems, integralItems, integral_sorted h.1, integralItems_sorted h.2]
    rfl

theorem integralMembers_sorted : ∀ {members : Members}, integralMembers members = true →
    integralMembers (sortedMembers members) = true
  | [], _ => rfl
  | (_, _) :: _, h => by
    rw [integralMembers, Bool.and_eq_true] at h
    rw [sortedMembers, integralMembers, integral_sorted h.1, integralMembers_sorted h.2]
    rfl

end

end Json

/-! ## What documents hold -/

namespace Doc

mutual

/-- **The document of a value holds its sorted form.** -/
theorem toJson?_ofJson : ∀ j : Json, (ofJson j).toJson? = some j.sorted
  | .null | .bool _ | .int _ | .double _ | .str _ => rfl
  | .arr items => by rw [ofJson, toJson?, toItems?_ofItems items, Json.sorted]; rfl
  | .obj members => by rw [ofJson, toJson?, toMembers?_ofMembers members, Json.sorted]; rfl

theorem toItems?_ofItems : ∀ items : List Json,
    toItems? (ofItems items) = some (Json.sortedItems items)
  | [] => rfl
  | j :: items => by
    rw [ofItems, toItems?, toJson?_ofJson j, toItems?_ofItems items, Json.sortedItems]

theorem toMembers?_ofMembers : ∀ members : Members,
    toMembers? (ofMembers members) = some (Json.sortedMembers members)
  | [] => rfl
  | (n, j) :: members => by
    simp only [ofMembers, toMembers?, toJson?_ofJson j, toMembers?_ofMembers members,
      Json.sortedMembers]

end

/-- The document of a value can be read. -/
theorem readable_ofJson (j : Json) : (ofJson j).readable = true := by
  rw [readable, toJson?_ofJson]
  rfl

end Doc

end AgentStream
