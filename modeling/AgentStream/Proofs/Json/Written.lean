/-
# Values that are written for records

A record is written as the members for its fields, one group behind the other.  What holds of the
values of all of them is shown group by group; so it is that a value can be written and read again.

* `Json.Everywhere` : what the values of all members are like, with one lemma for each form of
  field;
* `Json.Writable` : a value that is read back where a number of levels are allowed;
* `decodeText_encode` : what is decoded from a value is decoded from its bytes.
-/
import AgentStream.Json.Decode
import AgentStream.Proofs.Json.RoundTrip

namespace AgentStream

namespace Json

/-! ## Members -/

/-- The values of all members have a property. -/
def Everywhere (P : Json → Prop) (members : Members) : Prop := ∀ m ∈ members, P m.2

section Everywhere

variable {P : Json → Prop} {name : String}

theorem everywhere_append {xs ys : Members} :
    Everywhere P (xs ++ ys) ↔ Everywhere P xs ∧ Everywhere P ys :=
  List.forall_mem_append

theorem everywhere_member {j : Json} : Everywhere P (member name j) ↔ P j :=
  List.forall_mem_singleton

theorem everywhere_optional {v : Option Json} :
    Everywhere P (optional name v) ↔ ∀ j ∈ v, P j := by
  cases v with
  | none => exact ⟨fun _ => nofun, fun _ => List.forall_mem_nil _⟩
  | some j =>
    refine ⟨fun h => ?_, fun h => everywhere_member.2 (h j rfl)⟩
    rintro _ ⟨rfl⟩
    exact everywhere_member.1 h

theorem everywhere_optional_map {α : Type} {v : Option α} {f : α → Json} (h : ∀ a ∈ v, P (f a)) :
    Everywhere P (optional name (v.map f)) := by
  refine everywhere_optional.2 fun j hj => ?_
  obtain ⟨a, ha, rfl⟩ := Option.map_eq_some_iff.1 hj
  exact h a ha

theorem everywhere_nonempty {value : String} (h : P (.str value)) :
    Everywhere P (nonempty name value) := by
  unfold nonempty
  split
  · exact List.forall_mem_nil _
  · exact everywhere_member.2 h

theorem everywhere_nonemptyList {items : List Json} (h : items ≠ [] → P (.arr items)) :
    Everywhere P (nonemptyList name items) := by
  cases items with
  | nil => exact List.forall_mem_nil _
  | cons j items => exact everywhere_member.2 (h (List.cons_ne_nil j items))

end Everywhere

/-! ## Values -/

/-- The numbers of a value say what they are, and it is not nested more deeply. -/
structure Writable (depth : Nat) (j : Json) : Prop where
  legible : j.Legible
  shallow : j.depth ≤ depth

variable {n : Nat}

theorem legible_arr {items : List Json} (h : ∀ j ∈ items, j.Legible) : (arr items).Legible := by
  intro s hs
  obtain ⟨j, hj, hs⟩ := mem_scalarsItems.1 hs
  exact h j hj s hs

theorem legible_list {α : Type} {as : List α} {f : α → Json} (h : ∀ a ∈ as, (f a).Legible) :
    (arr (as.map f)).Legible := legible_arr (List.forall_mem_map.2 h)

theorem legible_obj {members : Members} (h : Everywhere Legible members) :
    (obj members).Legible := by
  intro s hs
  obtain ⟨m, hm, hs⟩ := mem_scalarsMembers.1 hs
  exact h m hm s hs

theorem legible_str (s : String) : (str s).Legible := by
  intro t ht
  obtain rfl := List.mem_singleton.1 ht
  trivial

theorem legible_bool (b : Bool) : (bool b).Legible := by
  intro t ht
  obtain rfl := List.mem_singleton.1 ht
  trivial

theorem legible_int {i : Int} (h : intRange i = true) : (int i).Legible := by
  intro t ht
  obtain rfl := List.mem_singleton.1 ht
  exact h

theorem legible_double {x : Double} (h : x.Legible) : (double x).Legible := by
  intro t ht
  obtain rfl := List.mem_singleton.1 ht
  exact h

theorem Writable.mono {k : Nat} {j : Json} (h : j.Writable n) (hk : n ≤ k) : j.Writable k :=
  ⟨h.legible, Nat.le_trans h.shallow hk⟩

theorem writable_str (s : String) : (str s).Writable n := ⟨legible_str s, Nat.zero_le n⟩

theorem writable_bool (b : Bool) : (bool b).Writable n := ⟨legible_bool b, Nat.zero_le n⟩

theorem writable_int {i : Int} (h : intRange i = true) : (int i).Writable n :=
  ⟨legible_int h, Nat.zero_le n⟩

theorem writable_arr {items : List Json} (h : ∀ j ∈ items, j.Writable n) :
    (arr items).Writable (n + 1) where
  legible := legible_arr fun j hj => (h j hj).legible
  shallow := Nat.succ_le_succ (depthItems_le.2 fun j hj => (h j hj).shallow)

theorem writable_list {α : Type} {as : List α} {f : α → Json} (h : ∀ a ∈ as, (f a).Writable n) :
    (arr (as.map f)).Writable (n + 1) := writable_arr (List.forall_mem_map.2 h)

theorem writable_obj {members : Members} (h : Everywhere (Writable n) members) :
    (obj members).Writable (n + 1) where
  legible := legible_obj fun m hm => (h m hm).legible
  shallow := Nat.succ_le_succ (depthMembers_le.2 fun m hm => (h m hm).shallow)

end Json

/-- **What is decoded from a value is decoded from its bytes**, if the value can be written. -/
theorem decodeText_encode {α : Type} {dec : Decoder α} {j : Json} {a : α}
    (h : j.Writable Doc.nestingLimit) (hdec : dec .text (Doc.ofJson j) = .ok a) :
    decodeText dec j.encode = .ok a := by
  rw [decodeText, Doc.read_legible h.legible h.shallow]
  simp only [hdec, if_true]

end AgentStream
