/-
# Records that are written field by field

A record that is written as its fields stand is read back field by field, whatever else is written
in front of it or behind it.

* `Record.Fits` : members that are written for a record;
* `Record.fits_field`, `Record.fits_optional`, `Record.Fits.seq` : one lemma for each form of field;
* `Record.Fits.alone`, `Record.Fits.ofMembers` : the record is read back, alone or among others;
* `Record.Fits.tagged` : a value that tells its kind is read back.
-/
import AgentStream.Message.Codec
import AgentStream.Proofs.Json.Records

namespace AgentStream

variable {α β : Type} {o : Origin} {xs ys : Members}

/-- The values of a list are read back if each is. -/
theorem Decoder.list_ok {dec : Decoder α} {j : α → Json} {as : List α}
    (h : ∀ a ∈ as, dec o (Doc.ofJson (j a)) = .ok a) :
    list dec o (Doc.ofJson (.arr (as.map j))) = .ok as := by
  show items dec o (Doc.ofItems (as.map j)) = .ok as
  induction as with
  | nil => rfl
  | cons a as ih =>
    obtain ⟨ha, has⟩ := List.forall_mem_cons.1 h
    rw [List.map_cons, Doc.ofItems, items, ha, ih has]
    rfl

namespace Record

/-- Members are written for the fields of a record, in their order, and the record is read back from
an object with them.  No two of its fields go by the same first name. -/
def Fits (r : Record α) (o : Origin) (members : Members) (a : α) : Prop :=
  (r.fields.map FieldName.primary).Nodup →
    (members.map Prod.fst).Sublist (r.fields.map FieldName.primary) ∧
    ∀ g : Given, g.origin = o → g.positional = false →
      (∀ f ∈ r.fields, g.value? f.primary = (members.lookup f.primary).map Doc.ofJson) →
      r.read g = .ok a

/-! ## Fields -/

section Fields

variable {name : FieldName} {dec : Decoder α} {absence : Absence α}

/-- A field that is written. -/
theorem fits_field {j : Json} {a : α} (h : dec o (Doc.ofJson j) = .ok a) :
    (field name dec absence).Fits o (Json.member name.primary j) a := by
  intro _
  refine ⟨List.Sublist.refl _, fun g horigin _ hgiven => ?_⟩
  have hvalue := hgiven name List.mem_cons_self
  rw [Json.member, lookup_cons_ite, if_pos rfl] at hvalue
  exact read_given hvalue (horigin ▸ h)

/-- A field with a default that is not written. -/
theorem fits_default (a : α) : (defaulted name dec a).Fits o [] a := by
  intro _
  refine ⟨List.nil_sublist _, fun g _ _ hgiven => ?_⟩
  exact read_default (hgiven name List.mem_cons_self) a

/-- A field that may be left out of an object, and is not written. -/
theorem fits_left (a : α) : (field name dec (.omittable a)).Fits o [] a := by
  intro _
  refine ⟨List.nil_sublist _, fun g _ hobject hgiven => ?_⟩
  have hslot : g.slots.lookup name.primary = none :=
    Option.map_eq_none_iff.1 (hgiven name List.mem_cons_self)
  simp only [field, hslot, hobject]

/-- A field that is written if there is a value for it. -/
theorem fits_optional {v : Option α} {j : α → Json} (hnull : ∀ a ∈ v, Doc.ofJson (j a) ≠ .null)
    (hdec : ∀ a ∈ v, dec o (Doc.ofJson (j a)) = .ok a) :
    (optional name dec).Fits o (Json.optional name.primary (v.map j)) v := by
  cases v with
  | none => exact fits_default none
  | some a => exact fits_field (option_ok (hnull a rfl) (hdec a rfl))

/-- An object that is written if there is a value for it. -/
theorem fits_option_object {v : Option α} {j : α → Json} (hobj : ∀ a, ∃ members, j a = .obj members)
    (hdec : ∀ a ∈ v, dec o (Doc.ofJson (j a)) = .ok a) :
    (optional name dec).Fits o (Json.optional name.primary (v.map j)) v := by
  refine fits_optional (fun a _ hnull => ?_) hdec
  obtain ⟨members, hmembers⟩ := hobj a
  rw [hmembers] at hnull
  cases hnull

end Fields

theorem Fits.map {x : Record α} {a : α} (f : α → β) (h : x.Fits o xs a) :
    (f <$> x).Fits o xs (f a) := by
  intro hnodup
  obtain ⟨hnames, hread⟩ := h hnodup
  exact ⟨hnames, fun g horigin hobject hgiven => read_map f (hread g horigin hobject hgiven)⟩

/-- A free value that is written if there is one. -/
theorem fits_option_any (name : FieldName) {v : Option Json} (h : ∀ j ∈ v, j.Sorted ∧ j ≠ .null) :
    (optional name Decoder.any).Fits o (Json.optional name.primary v) v := by
  have hfits : (optional name Decoder.any).Fits o (Json.optional name.primary (v.map id)) v := by
    refine fits_optional (fun j hj hnull => (h j hj).2 ?_) fun j hj =>
      Decoder.any_ofJson (h j hj).1 o
    cases j with
    | null => rfl
    | _ => cases hnull
  rwa [Option.map_id] at hfits

/-- A free value that may be left out of an object, and is written if there is one. -/
theorem fits_omittable_any (name : FieldName) {v : Option Json}
    (h : ∀ j ∈ v, j.Sorted ∧ j ≠ .null) :
    (omittable name Decoder.any).Fits o (Json.optional name.primary v) v := by
  cases v with
  | none => exact fits_left none
  | some j =>
    obtain ⟨hsorted, hnull⟩ := h j rfl
    refine fits_field (option_ok (fun he => hnull ?_) (Decoder.any_ofJson hsorted o))
    cases j with
    | null => rfl
    | _ => cases he

/-- A string that is written if there is one. -/
theorem fits_option_string (name : FieldName) (v : Option String) :
    (optional name Decoder.string).Fits o (Json.optional name.primary (v.map .str)) v :=
  fits_optional (fun _ _ => nofun) fun _ _ => rfl

/-- A string that is written unless it is empty. -/
theorem fits_nonempty (name : FieldName) (s : String) :
    (defaulted name Decoder.string "").Fits o (Json.nonempty name.primary s) s := by
  unfold Json.nonempty
  split
  · rename_i hempty
    obtain rfl : s = "" := String.isEmpty_iff.1 hempty
    exact fits_default ""
  · exact fits_field rfl

/-- A list that is written unless it is empty. -/
theorem fits_list (name : FieldName) {dec : Decoder α} {j : α → Json} {as : List α}
    (h : ∀ a ∈ as, dec o (Doc.ofJson (j a)) = .ok a) :
    (defaulted name (Decoder.list dec) []).Fits o (Json.nonemptyList name.primary (as.map j))
      as := by
  cases as with
  | nil => exact fits_default []
  | cons a as => exact fits_field (Decoder.list_ok h)

/-- A string is read back. -/
theorem fits_string {absence : Absence String} (name : FieldName) (s : String) :
    (field name Decoder.string absence).Fits o (Json.member name.primary (.str s)) s :=
  fits_field rfl

/-- A free value is read back. -/
theorem fits_any {absence : Absence Json} (name : FieldName) {j : Json}
    (h : j.Sorted) : (field name Decoder.any absence).Fits o (Json.member name.primary j) j :=
  fits_field (Decoder.any_ofJson h o)

/-- A list is read back if its values are. -/
theorem fits_values {dec : Decoder α} {absence : Absence (List α)}
    (name : FieldName) {f : α → Json} {as : List α}
    (h : ∀ a ∈ as, dec o (Doc.ofJson (f a)) = .ok a) :
    (field name (Decoder.list dec) absence).Fits o (Json.member name.primary (.arr (as.map f)))
      as :=
  fits_field (Decoder.list_ok h)

/-- Free values are read back. -/
theorem fits_anys {absence : Absence (List Json)} (name : FieldName) {js : List Json}
    (h : ∀ j ∈ js, j.Sorted) :
    (field name (Decoder.list Decoder.any) absence).Fits o (Json.member name.primary (.arr js))
      js := by
  have hfits : (field name (Decoder.list Decoder.any) absence).Fits o
      (Json.member name.primary (.arr (js.map id))) js :=
    fits_values name fun j hj => Decoder.any_ofJson (h j hj) o
  rwa [List.map_id] at hfits

/-- Nothing is written under a name that is not that of a field. -/
theorem lookup_of_sublist {fields : List FieldName} {name : String}
    (h : (xs.map Prod.fst).Sublist (fields.map FieldName.primary))
    (hn : name ∉ fields.map FieldName.primary) : xs.lookup name = none := by
  refine List.lookup_eq_none_iff.2 fun m hm => bne_iff_ne.2 fun he => hn ?_
  exact he ▸ h.subset (List.mem_map_of_mem hm)

/-- Groups of fields are written one behind the other. -/
theorem Fits.seq {f : Record (α → β)} {x : Record α} {f' : α → β} {a : α} (hf : f.Fits o xs f')
    (hx : x.Fits o ys a) : (f <*> x).Fits o (xs ++ ys) (f' a) := by
  intro hnodup
  have hfields : (f <*> x).fields = f.fields ++ x.fields := rfl
  rw [hfields, List.map_append] at hnodup
  obtain ⟨hfnodup, hxnodup, hapart⟩ := List.nodup_append.1 hnodup
  obtain ⟨hfnames, hfread⟩ := hf hfnodup
  obtain ⟨hxnames, hxread⟩ := hx hxnodup
  rw [hfields, List.map_append, List.map_append]
  refine ⟨hfnames.append hxnames, fun g horigin hobject hgiven => ?_⟩
  refine read_seq (hfread g horigin hobject fun p hp => ?_)
    (hxread g horigin hobject fun p hp => ?_)
  · have hother : ys.lookup p.primary = none := lookup_of_sublist hxnames fun hmem =>
      hapart _ (List.mem_map_of_mem hp) _ hmem rfl
    rw [hgiven p (List.mem_append_left _ hp), List.lookup_append, hother, Option.or_none]
  · have hother : xs.lookup p.primary = none := lookup_of_sublist hfnames fun hmem =>
      hapart _ hmem _ (List.mem_map_of_mem hp) rfl
    rw [hgiven p (List.mem_append_right _ hp), List.lookup_append, hother, Option.none_or]

/-! ## Among other members -/

/-- The fields of a record can be told apart by their first names. -/
def Distinct (fields : List FieldName) : Prop :=
  (fields.map FieldName.primary).Nodup ∧ ∀ f ∈ fields, IsPrimary fields f.primary

/-- **A record is read back from what is written for it**, and nothing else. -/
theorem Fits.alone {r : Record α} {a : α} (h : r.Fits o xs a) (hd : Distinct r.fields)
    (closed : Bool) : r.ofMembers closed o (Doc.ofMembers xs) = .ok a := by
  obtain ⟨hnames, hread⟩ := h hd.1
  refine ofMembers_primaries (fun m hm => ?_) (hnames.nodup hd.1) fun g horigin hobject hgiven =>
    hread g horigin hobject fun f _ => hgiven f.primary
  obtain ⟨f, hf, he⟩ := List.mem_map.1 (hnames.subset (List.mem_map_of_mem hm))
  exact he ▸ hd.2 f hf

/-- **A record is read back from what is written for it**, whatever else stands in front of it and
behind it. -/
theorem Fits.ofMembers {r : Record α} {a : α} (h : r.Fits o xs a) (ho : o ≠ .text)
    (hd : Distinct r.fields) {front behind : Members}
    (hfront : ∀ m ∈ front, r.fields.find? (·.accepts m.1) = none)
    (hbehind : ∀ m ∈ behind, r.fields.find? (·.accepts m.1) = none) :
    r.ofMembers false o (Doc.ofMembers front ++ (Doc.ofMembers xs ++ Doc.ofMembers behind))
      = .ok a := by
  obtain ⟨hnames, hread⟩ := h hd.1
  have hprimary : ∀ m ∈ xs, IsPrimary r.fields m.1 := fun m hm => by
    obtain ⟨f, hf, he⟩ := List.mem_map.1 (hnames.subset (List.mem_map_of_mem hm))
    exact he ▸ hd.2 f hf
  have hnew : ∀ m ∈ xs, ([] : List (String × Nat × Doc)).lookup m.1 = none := fun _ _ => rfl
  obtain ⟨filled, hscan, hfilled⟩ := scan_primaries false o hprimary (hnames.nodup hd.1)
    (0 + front.length) hnew (Doc.ofMembers behind)
  have hend := scan_unknown ho hbehind (0 + front.length + xs.length) filled []
  rw [List.append_nil] at hend
  rw [Record.ofMembers, scan_unknown ho hfront, hscan, hend, scan]
  simp only [hread ⟨o, false, _, filled⟩ rfl rfl fun f _ => hfilled f.primary]

end Record

/-! ## Kinds -/

/-- Members behind the kind are set aside as they are. -/
theorem setAside_ofMembers {α : Type} {tag : String} {kinds : List (String × Kind α)} (k : Kind α)
    {members : Members} (h : ∀ m ∈ members, m.1 ≠ tag) :
    setAside tag kinds (some k) (Doc.ofMembers members) = .ok (some k, Doc.ofMembers members) := by
  induction members with
  | nil => rfl
  | cons m members ih =>
    obtain ⟨hm, hrest⟩ := List.forall_mem_cons.1 h
    rw [Doc.ofMembers, setAside, if_neg hm, if_pos (Doc.readable_ofJson _), ih hrest]
    rfl

/-- **A value that tells its kind first** is read back from what is written for the record of that
kind. -/
theorem Record.Fits.tagged {tag name : String} {kinds : List (String × Kind α)} {r : Record α}
    {a : α} (hk : kinds.lookup name = some r.kind) (h : r.Fits .setAside xs a)
    (hd : Distinct r.fields) (htag : tag ∉ r.fields.map FieldName.primary) (o : Origin) :
    tagged tag kinds o (Doc.ofJson (.obj ((tag, .str name) :: xs))) = .ok a := by
  have hothers : ∀ m ∈ xs, m.1 ≠ tag := fun m hm he =>
    htag (he ▸ (h hd.1).1.subset (List.mem_map_of_mem hm))
  show (setAside tag kinds none ((some tag, .str name) :: Doc.ofMembers xs) >>= _) = _
  rw [setAside, if_pos rfl]
  simp only [readTag, Decoder.named, hk]
  show (setAside tag kinds (some r.kind) _ >>= _) = _
  rw [setAside_ofMembers _ hothers]
  exact h.alone hd false

end AgentStream
