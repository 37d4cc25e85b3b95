/-
# Records that are read from values

A value that lists every field of a record at most once, and each under its first name, gives
the fields their values; in which order they stand makes no difference.

* `Given.value?` : what is given of a field;
* `Record.read_given`, `Record.read_default`, `Record.read_optional` : what a field is read as;
* `Record.IsPrimary`, `Record.isPrimary_plain`, `Record.unknown_plain` : fields told by their names;
* `Record.scan_primaries`, `Record.scan_unknown` : the fields that are found among members;
* `Record.ofMembers_primaries` : the record of a value.
-/
import AgentStream.Json.Decode
import AgentStream.Proofs.Json.Sorted

namespace AgentStream

/-- What is given of a field, wherever it stands. -/
def Given.value? (g : Given) (name : String) : Option Doc := (g.slots.lookup name).map Prod.snd

/-- A value in sorted form is decoded as itself. -/
theorem Decoder.any_ofJson {j : Json} (h : j.Sorted) (o : Origin) :
    Decoder.any o (Doc.ofJson j) = .ok j := by
  simp only [Decoder.any, Doc.toJson?_ofJson, h.sorted_eq]

/-- A natural number with no more bits than it may have is read back. -/
theorem Decoder.unsigned_ok {width n : Nat} (h : n < 2 ^ width) (o : Origin) :
    Decoder.unsigned width o (Doc.ofJson (.int n)) = .ok n := by
  show (Decoder.integer 0 _ o (.int n)).map Int.toNat = .ok n
  have hle : (0 : Int) ≤ n ∧ (n : Int) ≤ (Nat.pow 2 width - 1 : Nat) := by
    have hpow : Nat.pow 2 width = 2 ^ width := rfl
    rw [hpow]
    omega
  rw [Decoder.integer, if_pos hle]
  rfl

/-- A signed integer of 64 bits. -/
def Signed (i : Int) : Prop := -9223372036854775808 ≤ i ∧ i ≤ 9223372036854775807

/-- An integer of 64 bits is read back. -/
theorem Decoder.signed_ok {i : Int} (h : Signed i) (o : Origin) :
    Decoder.signed o (Doc.ofJson (.int i)) = .ok i := by
  show Decoder.integer _ _ o (.int i) = .ok i
  exact if_pos h

theorem Doc.ofMembers_append (xs ys : Members) :
    Doc.ofMembers (xs ++ ys) = Doc.ofMembers xs ++ Doc.ofMembers ys := by
  induction xs with
  | nil => rfl
  | cons m xs ih => rw [List.cons_append, Doc.ofMembers, Doc.ofMembers, ih, List.cons_append]

namespace Record

variable {α β : Type}

/-! ## Fields -/

section Fields

variable {g : Given} {name : FieldName} {dec : Decoder α} {absence : Absence α}

theorem read_map (f : α → β) {x : Record α} {a : α} (h : x.read g = .ok a) :
    (f <$> x).read g = .ok (f a) := by
  show (x.read g).map f = _
  rw [h]
  rfl

theorem read_seq {f : Record (α → β)} {x : Record α} {f' : α → β} {a : α}
    (hf : f.read g = .ok f') (hx : x.read g = .ok a) : (f <*> x).read g = .ok (f' a) := by
  show (f.seq x).read g = _
  simp only [seq, hf, hx]

/-- A field that is given is read as its value. -/
theorem read_given {d : Doc} {a : α} (h : g.value? name.primary = some d)
    (ha : dec g.origin d = .ok a) : (field name dec absence).read g = .ok a := by
  obtain ⟨⟨i, d'⟩, hslot, rfl⟩ := Option.map_eq_some_iff.1 h
  simp only [field, hslot, ha]
  rfl

/-- A field that is not given is read as its default. -/
theorem read_default (h : g.value? name.primary = none) (a : α) :
    (field name dec (.default a)).read g = .ok a := by
  have hslot : g.slots.lookup name.primary = none := Option.map_eq_none_iff.1 h
  simp only [field, hslot]

/-- A value that is given is read as one that may be `null`, unless it is. -/
theorem option_ok {o : Origin} {d : Doc} {a : α} (hnull : d ≠ .null) (h : dec o d = .ok a) :
    Decoder.option dec o d = .ok (some a) := by
  unfold Decoder.option
  split
  · exact absurd rfl hnull
  · rw [h]
    rfl

/-- A field that is given if there is a value for it. -/
theorem read_optional {v : Option α} {doc : α → Doc} (h : g.value? name.primary = v.map doc)
    (hnull : ∀ a ∈ v, doc a ≠ .null) (hdec : ∀ a ∈ v, dec g.origin (doc a) = .ok a) :
    (optional name dec).read g = .ok v := by
  cases v with
  | none => exact read_default h none
  | some a => exact read_given h (option_ok (hnull a rfl) (hdec a rfl))

end Fields

/-! ## Names -/

/-- The name is the first one of a field, and no field before that goes by it. -/
def IsPrimary (fields : List FieldName) (name : String) : Prop :=
  ∃ f, fields.find? (·.accepts name) = some f ∧ f.primary = name

section Plain

variable {fields : List FieldName} {name : String}

theorem accepts_plain {f : FieldName} (h : f.others = []) (name : String) :
    f.accepts name = (name == f.primary) := by
  rw [FieldName.accepts, h]
  exact Bool.or_false _

/-- The name of a field is the first one of that field. -/
theorem isPrimary_plain (h : ∀ f ∈ fields, f.others = [])
    (hn : name ∈ fields.map FieldName.primary) : IsPrimary fields name := by
  obtain ⟨f, hf, rfl⟩ := List.mem_map.1 hn
  have hfound : (fields.find? (·.accepts f.primary)).isSome = true := by
    refine List.find?_isSome.2 ⟨f, hf, ?_⟩
    rw [accepts_plain (h f hf)]
    exact beq_self_eq_true _
  obtain ⟨f', hf'⟩ := Option.isSome_iff_exists.1 hfound
  have haccepts := List.find?_some hf'
  rw [accepts_plain (h f' (List.mem_of_find?_eq_some hf'))] at haccepts
  exact ⟨f', hf', (beq_iff_eq.1 haccepts).symm⟩

/-- Any other name is that of no field. -/
theorem unknown_plain (h : ∀ f ∈ fields, f.others = [])
    (hn : name ∉ fields.map FieldName.primary) : fields.find? (·.accepts name) = none := by
  refine List.find?_eq_none.2 fun f hf => ?_
  rw [accepts_plain (h f hf), beq_iff_eq]
  exact fun he => hn (he ▸ List.mem_map_of_mem hf)

end Plain

/-! ## Members -/

/-- Members under the first names of fields, each once, fill the slots of these fields, whatever
stands behind them. -/
theorem scan_primaries {fields : List FieldName} (closed : Bool) (o : Origin)
    {members : Members} (h : ∀ m ∈ members, IsPrimary fields m.1)
    (hnodup : (members.map Prod.fst).Nodup) (i : Nat) {slots : List (String × Nat × Doc)}
    (hnew : ∀ m ∈ members, slots.lookup m.1 = none) (behind : List (Option String × Doc)) :
    ∃ filled, scan fields closed o i slots (Doc.ofMembers members ++ behind)
        = scan fields closed o (i + members.length) filled behind ∧
      ∀ name, (filled.lookup name).map Prod.snd
        = ((slots.lookup name).map Prod.snd).or ((members.lookup name).map Doc.ofJson) := by
  induction members generalizing i slots with
  | nil => exact ⟨slots, rfl, fun name => (Option.or_none).symm⟩
  | cons m members ih =>
    obtain ⟨n, j⟩ := m
    obtain ⟨f, hf, rfl⟩ := h _ List.mem_cons_self
    obtain ⟨hn, hrest⟩ := List.nodup_cons.1 hnodup
    have hslot : slots.lookup f.primary = none := hnew _ List.mem_cons_self
    have hlookup (name : String) : (slots ++ [(f.primary, i, Doc.ofJson j)]).lookup name
        = (slots.lookup name).or (if name = f.primary then some (i, Doc.ofJson j) else none) := by
      rw [List.lookup_append, lookup_cons_ite]
      rfl
    have hnew' : ∀ m' ∈ members,
        (slots ++ [(f.primary, i, Doc.ofJson j)]).lookup m'.1 = none := by
      intro m' h'
      have hne : m'.1 ≠ f.primary := fun he => hn (List.mem_map.2 ⟨m', h', he⟩)
      rw [hlookup, hnew m' (List.mem_cons_of_mem _ h'), if_neg hne]
      rfl
    obtain ⟨filled, hscan, hfilled⟩ :=
      ih (fun m' h' => h m' (List.mem_cons_of_mem _ h')) hrest (i + 1) hnew'
    refine ⟨filled, ?_, fun name => ?_⟩
    · rw [Doc.ofMembers, List.cons_append, scan]
      simp only [hf, hslot, Option.isSome_none, Bool.false_eq_true, if_false]
      rw [hscan, List.length_cons, Nat.add_assoc, Nat.add_comm 1]
    · rw [hfilled, hlookup, lookup_cons_ite]
      by_cases hname : name = f.primary
      · rw [if_pos hname, if_pos hname, hname, hslot]
        rfl
      · rw [if_neg hname, if_neg hname, Option.or_none]

/-- Members that are no fields are skipped where others are allowed. -/
theorem scan_unknown {fields : List FieldName} {o : Origin} (ho : o ≠ .text) {members : Members}
    (h : ∀ m ∈ members, fields.find? (·.accepts m.1) = none) (i : Nat)
    (slots : List (String × Nat × Doc)) (behind : List (Option String × Doc)) :
    scan fields false o i slots (Doc.ofMembers members ++ behind)
      = scan fields false o (i + members.length) slots behind := by
  induction members generalizing i with
  | nil => rfl
  | cons m members ih =>
    obtain ⟨hm, hrest⟩ := List.forall_mem_cons.1 h
    have hread : ¬(o = .text ∧ (Doc.ofJson m.2).intact = false) := fun hd => ho hd.1
    rw [Doc.ofMembers, List.cons_append, scan]
    simp only [hm, Bool.false_eq_true, if_false, if_neg hread]
    rw [ih hrest, List.length_cons, Nat.add_assoc, Nat.add_comm 1]

/-- **A record is read from the values under the first names of its fields.** -/
theorem ofMembers_primaries {r : Record α} {closed : Bool} {o : Origin} {members : Members} {a : α}
    (h : ∀ m ∈ members, IsPrimary r.fields m.1) (hnodup : (members.map Prod.fst).Nodup)
    (hread : ∀ g : Given, g.origin = o → g.positional = false →
      (∀ name, g.value? name = (members.lookup name).map Doc.ofJson) → r.read g = .ok a) :
    r.ofMembers closed o (Doc.ofMembers members) = .ok a := by
  have hnew : ∀ m ∈ members, ([] : List (String × Nat × Doc)).lookup m.1 = none := fun _ _ => rfl
  obtain ⟨filled, hscan, hfilled⟩ := scan_primaries closed o h hnodup 0 hnew []
  rw [List.append_nil] at hscan
  rw [ofMembers, hscan, scan]
  simp only [hread ⟨o, false, (Doc.ofMembers members).length, filled⟩ rfl rfl hfilled]

end Record

end AgentStream
