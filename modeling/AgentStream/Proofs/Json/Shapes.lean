/-
# Records given as objects and as arrays

A record may be given as an object, or as an array of its fields in their order.  Such an array
says the same as the object whose members are its items under the names of the fields.

* `Record.members?` : the members that a value stands for;
* `Json.Tells` : what stands under a name for a value that may be absent;
* `Decoder.Takes` : the values that a decoder takes, and what it makes of them;
* `Given.Shows.required_iff`, `Given.Shows.optional_iff` : what fields are read as;
* `Record.decodeJson_iff` : what a value is accepted as, in either form.
-/
import Mathlib.Data.List.Nodup
import AgentStream.Proofs.Json.Accepted

namespace AgentStream

/-! ## Members -/

namespace Record

variable {α : Type}

/-- The names of fields, in their order. -/
def names (r : Record α) : List String := r.fields.map FieldName.primary

/-- The members that a value stands for: those of an object, or the items of an array under the
names of the fields.  There may be no more items than fields. -/
def members? (r : Record α) : Json → Option Members
  | .obj members => some members
  | .arr items => if items.length ≤ r.fields.length then some (r.names.zip items) else none
  | _ => none

end Record

/-- Under a name stands a value, or nothing or `null` if there is none. -/
def Json.Tells (members : Members) (name : String) (v : Option Json) : Prop :=
  members.lookup name = v ∨ members.lookup name = some .null ∧ v = none

/-- Where no name stands twice, a field with one name is given once at most. -/
theorem FieldName.values_once {f : FieldName} {members : Members} (hf : f.others = [])
    (hd : (members.map Prod.fst).Nodup) : (f.values members).length ≤ 1 := by
  have hcount : members.countP (fun m => f.accepts m.1)
      = (members.map Prod.fst).count f.primary := by
    rw [List.count, List.countP_map]
    refine List.countP_congr fun m _ => ?_
    rw [Record.accepts_plain hf]
    rfl
  rw [values, List.length_map, ← List.countP_eq_length_filter, hcount]
  exact List.nodup_iff_count_le_one.1 hd f.primary

/-- The values under the members of a value in sorted form are in sorted form. -/
theorem Record.sorted_members? {α : Type} {r : Record α} {j v : Json} {members : Members}
    {name : String} (h : j.Sorted) (hmembers : r.members? j = some members)
    (hv : members.lookup name = some v) : v.Sorted := by
  have hmem := mem_of_lookup hv
  cases j with
  | obj given =>
    obtain rfl := Option.some.inj hmembers
    exact Json.sortedMembers_iff.1 h.2 _ hmem
  | arr items =>
    rw [members?] at hmembers
    split at hmembers
    · obtain rfl := Option.some.inj hmembers
      exact Json.sortedItems_iff.1 h v (List.of_mem_zip hmem).2
    · cases hmembers
  | _ => cases hmembers

/-! ## Values -/

namespace Decoder

variable {α : Type}

/-- What a decoder makes of a value: those that it takes are the written forms of what they are
decoded as. -/
def Takes (dec : Decoder α) (o : Origin) (write : α → Json) (valid : α → Prop) (j : Json) : Prop :=
  ∀ a, dec o (Doc.ofJson j) = .ok a ↔ valid a ∧ j = write a

theorem takes_string (o : Origin) (j : Json) : string.Takes o .str (fun _ => True) j := by
  intro s
  cases j <;> simp [string, Doc.ofJson]

theorem takes_integer (low high : Int) (o : Origin) (j : Json) :
    (integer low high).Takes o .int (fun i => low ≤ i ∧ i ≤ high) j := by
  intro i
  cases j with
  | int k =>
    simp only [integer, Doc.ofJson, Json.int.injEq]
    split <;> grind
  | _ => simp [integer, Doc.ofJson]

theorem takes_signed (o : Origin) (j : Json) : signed.Takes o .int Signed j :=
  takes_integer _ _ o j

theorem takes_unsigned (width : Nat) (o : Origin) (j : Json) :
    (unsigned width).Takes o (fun n => .int n) (· < 2 ^ width) j := by
  intro n
  have hpos : 0 < 2 ^ width := Nat.two_pow_pos width
  have hmax : ((Nat.pow 2 width - 1 : Nat) : Int) = (2 ^ width : Nat) - 1 := by
    show ((2 ^ width - 1 : Nat) : Int) = _
    omega
  rw [unsigned]
  constructor
  · intro h
    cases hi : integer 0 (Nat.pow 2 width - 1 : Nat) o (Doc.ofJson j) with
    | error fault =>
      rw [hi] at h
      cases h
    | ok i =>
      rw [hi] at h
      cases h
      obtain ⟨hrange, rfl⟩ := (takes_integer _ _ o j i).1 hi
      rw [hmax] at hrange
      exact ⟨by omega, congrArg Json.int (Int.toNat_of_nonneg hrange.1).symm⟩
  · rintro ⟨hn, rfl⟩
    rw [(takes_integer _ _ o (.int n) n).2 ⟨by rw [hmax]; omega, rfl⟩]
    rfl

/-- A free value in sorted form is taken as itself. -/
theorem takes_any {j : Json} (h : j.Sorted) (hnull : j ≠ .null) (o : Origin) :
    any.Takes o id (· ≠ .null) j := by
  intro a
  rw [any_ofJson h o]
  constructor
  · rintro ⟨rfl⟩
    exact ⟨hnull, rfl⟩
  · rintro ⟨-, rfl⟩
    rfl

/-- An object in sorted form is taken as its members. -/
theorem takes_object {j : Json} (h : j.Sorted) (o : Origin) :
    object.Takes o .obj (fun _ => True) j := by
  intro members
  cases j with
  | obj given =>
    simp [object, Doc.ofJson, Doc.toMembers?_ofMembers, h.2.sorted_eq,
      Json.sortMembers_of_pairwise h.1]
  | _ => simp [object, Doc.ofJson]

/-- A value that may be `null` is `null`, or is decoded. -/
theorem option_eq_ok {dec : Decoder α} {o : Origin} {j : Json} {v : Option α} :
    dec.option o (Doc.ofJson j) = .ok v ↔
      j = .null ∧ v = none ∨ j ≠ .null ∧ ∃ a, dec o (Doc.ofJson j) = .ok a ∧ v = some a := by
  have hmap (d : Doc) : (dec o d).map some = .ok v ↔ ∃ a, dec o d = .ok a ∧ v = some a := by
    cases dec o d <;> simp [Except.map, eq_comm]
  cases j with
  | null => simp [option, Doc.ofJson, eq_comm]
  | _ => simp [option, Doc.ofJson, hmap]

end Decoder

/-! ## What is given -/

namespace Given

/-- What is given of fields is what stands under their names. -/
def Shows (g : Given) (fields : List FieldName) (members : Members) : Prop :=
  ∀ f ∈ fields, g.value? f.primary = (members.lookup f.primary).map Doc.ofJson

section Shows

variable {g : Given} {fields : List FieldName} {members : Members} {name : String} {α : Type}
  {dec : Decoder α} {a : α}

/-- A field has the value that stands under its name, or none is given. -/
theorem Shows.slot (h : g.Shows fields members) (hf : plain name ∈ fields) :
    (g.slots.lookup name = none ∧ members.lookup name = none) ∨
      ∃ i j, g.slots.lookup name = some (i, Doc.ofJson j) ∧ members.lookup name = some j := by
  have hvalue : (g.slots.lookup name).map Prod.snd = (members.lookup name).map Doc.ofJson :=
    h _ hf
  cases hm : members.lookup name with
  | none =>
    rw [hm] at hvalue
    exact .inl ⟨Option.map_eq_none_iff.1 hvalue, rfl⟩
  | some j =>
    rw [hm] at hvalue
    obtain ⟨⟨i, d⟩, hslot, rfl⟩ := Option.map_eq_some_iff.1 hvalue
    exact .inr ⟨i, j, hslot, rfl⟩

/-- What a field is read as that may not be left out of an object alone. -/
theorem Shows.field_iff (h : g.Shows fields members) (hf : plain name ∈ fields)
    {absence : Absence α} (hleft : ∀ a, absence ≠ .omittable a) :
    (Record.field (plain name) dec absence).read g = .ok a ↔
      (∃ j, members.lookup name = some j ∧ dec g.origin (Doc.ofJson j) = .ok a) ∨
        members.lookup name = none ∧ absence = .default a := by
  simp only [Record.field]
  rcases h.slot hf with ⟨hslot, hm⟩ | ⟨i, j, hslot, hm⟩
  · rw [show g.slots.lookup (plain name).primary = none from hslot, hm]
    cases absence with
    | omittable a => exact absurd rfl (hleft a)
    | required => cases g.positional <;> simp
    | default a => simp
  · rw [show g.slots.lookup (plain name).primary = some (i, Doc.ofJson j) from hslot, hm]
    cases hdec : dec g.origin (Doc.ofJson j) <;> simp [Except.mapError, hdec]

/-- A field that has to be given. -/
theorem Shows.required_iff (h : g.Shows fields members) (hf : plain name ∈ fields) :
    (Record.required (plain name) dec).read g = .ok a ↔
      ∃ j, members.lookup name = some j ∧ dec g.origin (Doc.ofJson j) = .ok a := by
  have hleft : ∀ a : α, Absence.required ≠ .omittable a := fun _ => nofun
  rw [Record.required, h.field_iff hf hleft]
  refine or_iff_left ?_
  rintro ⟨-, hd⟩
  cases hd

/-- A field that may be absent. -/
theorem Shows.optional_iff (h : g.Shows fields members) (hf : plain name ∈ fields)
    {write : α → Json} {valid : α → Prop} (hwrite : ∀ a, valid a → write a ≠ .null)
    (hdec : ∀ j, members.lookup name = some j → j ≠ .null → dec.Takes g.origin write valid j)
    {v : Option α} :
    (Record.optional (plain name) dec).read g = .ok v ↔
      Json.Tells members name (v.map write) ∧ ∀ a ∈ v, valid a := by
  have hread : (Record.optional (plain name) dec).read g = .ok v ↔ _ :=
    h.field_iff hf (fun _ => nofun)
  rw [hread, Json.Tells]
  cases hm : members.lookup name with
  | none => cases v <;> simp
  | some j =>
    have htakes := hdec j hm
    -- `null` stands for no value, and is no written form
    by_cases hnull : j = .null
    · subst hnull
      cases v with
      | none => simp [Decoder.option_eq_ok]
      | some a =>
        have hne : Json.null = write a → ¬valid a := fun he ha => hwrite a ha he.symm
        simpa [Decoder.option_eq_ok] using hne
    · cases v with
      | none => simp [Decoder.option_eq_ok, hnull]
      | some a =>
        have ha := htakes hnull a
        simp [Decoder.option_eq_ok, hnull, ha, and_comm]

theorem Shows.required_string_iff (h : g.Shows fields members) (hf : plain name ∈ fields)
    {s : String} : (Record.required (plain name) Decoder.string).read g = .ok s ↔
      members.lookup name = some (.str s) := by
  have hstring (j : Json) : Decoder.string g.origin (Doc.ofJson j) = .ok s ↔ j = .str s := by
    rw [Decoder.takes_string g.origin j s, true_and]
  rw [h.required_iff hf]
  simp only [hstring, exists_eq_right]

theorem Shows.optional_string_iff (h : g.Shows fields members) (hf : plain name ∈ fields)
    {v : Option String} : (Record.optional (plain name) Decoder.string).read g = .ok v ↔
      Json.Tells members name (v.map .str) := by
  have hread := h.optional_iff (v := v) hf (fun s (_ : True) => (nofun : Json.str s ≠ .null))
    fun j _ _ => Decoder.takes_string g.origin j
  rw [hread]
  exact and_iff_left fun _ _ => trivial

end Shows

end Given

/-! ## Records -/

namespace Record

variable {α : Type} {r : Record α} {a : α}

/-- A field with one name is told by it. -/
theorem plain_primary {f : FieldName} (h : f.others = []) : plain f.primary = f := by
  obtain ⟨primary, others⟩ := f
  cases h
  rfl

/-- The items of an array stand under the names of the fields. -/
theorem lookup_align (fields : List FieldName) (items : List Json) (i : Nat) (name : String) :
    ((align i fields (Doc.ofItems items)).lookup name).map Prod.snd
      = (((fields.map FieldName.primary).zip items).lookup name).map Doc.ofJson := by
  induction fields generalizing items i with
  | nil => cases items <;> rfl
  | cons f fields ih =>
    cases items with
    | nil => rfl
    | cons j items =>
      rw [Doc.ofItems, align, List.map_cons, List.zip_cons_cons, lookup_cons_ite, lookup_cons_ite]
      by_cases hn : name = f.primary
      · rw [if_pos hn, if_pos hn]
        rfl
      · rw [if_neg hn, if_neg hn]
        exact ih items (i + 1)

theorem length_ofItems (items : List Json) : (Doc.ofItems items).length = items.length := by
  induction items with
  | nil => rfl
  | cons j items ih => exact congrArg Nat.succ ih

/-- **What a value in sorted form is accepted as**, be it an object or an array. -/
theorem decodeJson_iff (hplain : ∀ f ∈ r.fields, f.others = []) (hapart : Apart r.fields)
    {P : Members → Prop} {j : Json} (hsorted : j.Sorted)
    (hread : ∀ g members, r.members? j = some members → g.origin = .held →
      g.Shows r.fields members → (r.read g = .ok a ↔ P members)) :
    decodeJson r.decode j = .ok a ↔ ∃ members, r.members? j = some members ∧ P members := by
  cases j with
  | obj members =>
    have hd := nodup_of_ordered hsorted.1
    have hmembers : decodeJson r.decode (.obj members) = .ok a ↔ P members := by
      refine ofMembers_accepted hapart (by decide) (fun g ho hg => hread g members rfl ho ?_) ?_
      · intro f hf
        have hfirst := congrArg List.head? (hg.values f hf)
        rw [List.head?_map, Option.head?_toList, ← plain_primary (hplain f hf),
          ← FieldName.lookup_eq_head?] at hfirst
        exact hfirst
      · exact fun _ f hf => f.values_once (hplain f hf) hd
    simp [members?, hmembers]
  | arr items =>
    -- an array is read by position: its items stand under the names in their order
    have hshows : Given.Shows ⟨.held, true, items.length, align 0 r.fields (Doc.ofItems items)⟩
        r.fields (r.names.zip items) := fun f _ => lookup_align r.fields items 0 f.primary
    rw [decodeJson, Doc.ofJson, decode, ofItems, length_ofItems, members?]
    by_cases hlen : items.length ≤ r.fields.length
    · have hiff := hread _ (r.names.zip items) (if_pos hlen) rfl hshows
      rw [if_pos hlen]
      cases hr : r.read ⟨.held, true, items.length, align 0 r.fields (Doc.ofItems items)⟩ <;>
        simp_all
    · rw [if_neg hlen]
      cases r.read ⟨.held, true, items.length, align 0 r.fields (Doc.ofItems items)⟩ <;> simp [hlen]
  | _ => simp [decodeJson, Doc.ofJson, decode, members?]

end Record
end AgentStream
