/-
# Values that a record accepts

A value is accepted as a record if each field that it gives is given once, under whichever of its
names, and with a value that its decoder takes.  What other members say makes no difference, and
neither does the order in which members stand.

* `FieldName.values`, `FieldName.Holds` : what is given of a field;
* `Record.Apart` : fields no two of which share a name;
* `Record.scan_ofMembers` : when members give no field twice, and what is found of each then;
* `Record.read_required_iff`, `Record.read_defaulted_iff`, `Record.read_omittable_iff`,
  `Record.read_seq_iff` : what the fields are read as;
* `Record.Fits.decode` : a record is read back from the object that is written for it;
* `Record.ofMembers_accepted` : what members are accepted as;
* `tagged_eq_ok` : what an object that tells its kind is accepted as.
-/
import AgentStream.Message.Codec
import AgentStream.Proofs.Event.Codec
import AgentStream.Proofs.Json.Fits

namespace AgentStream

/-! ## What is given of a field -/

namespace FieldName

/-- All names of a field. -/
def names (f : FieldName) : List String := f.primary :: f.others

/-- The values that members give under the names of a field. -/
def values (f : FieldName) (members : Members) : List Json :=
  (members.filter fun m => f.accepts m.1).map Prod.snd

variable {f : FieldName} {name : String} {j : Json} {members : Members}

theorem accepts_iff : f.accepts name = true ↔ name ∈ f.names := by
  rw [accepts, Bool.or_eq_true, beq_iff_eq, List.contains_iff_mem, names, List.mem_cons]

theorem values_of_accepts (h : f.accepts name = true) :
    f.values ((name, j) :: members) = j :: f.values members := by
  rw [values, List.filter_cons_of_pos (by exact h)]
  rfl

theorem values_of_not_accepts (h : ¬f.accepts name = true) :
    f.values ((name, j) :: members) = f.values members := by
  rw [values, List.filter_cons_of_neg (by exact h)]
  rfl

/-- Members of a name that is not one of the field's are not seen. -/
theorem values_filter_ne (h : name ∉ f.names) :
    f.values (members.filter fun m => m.1 ≠ name) = f.values members := by
  rw [values, List.filter_filter]
  refine congrArg (List.map Prod.snd) (List.filter_congr fun m _ => ?_)
  by_cases hm : m.1 = name
  · have hnot : f.accepts m.1 = false := Bool.eq_false_iff.2 fun ha => h (hm ▸ accepts_iff.1 ha)
    rw [hnot, Bool.false_and]
  · rw [decide_eq_true hm, Bool.and_true]

/-- Where nothing is given under a name, no member goes by it. -/
theorem filter_of_values (h : (plain name).values members = []) :
    members.filter (fun m => m.1 ≠ name) = members := by
  rw [values, List.map_eq_nil_iff, List.filter_eq_nil_iff] at h
  refine List.filter_eq_self.2 fun m hm => decide_eq_true fun he => h m hm ?_
  exact accepts_iff.2 (he ▸ List.mem_singleton_self m.1)

/-- What is found first under the name of a field with one name. -/
theorem lookup_eq_head? (members : Members) :
    members.lookup name = ((plain name).values members).head? := by
  induction members with
  | nil => rfl
  | cons m members ih =>
    obtain ⟨n, j⟩ := m
    rw [lookup_cons_ite]
    by_cases hn : name = n
    · rw [if_pos hn, values_of_accepts (accepts_iff.2 (hn ▸ List.mem_singleton_self name))]
      rfl
    · rw [if_neg hn, ih, values_of_not_accepts fun ha =>
        hn (List.mem_singleton.1 (accepts_iff.1 ha)).symm]

/-- What is given of a field for a string that may be `null` or left out. -/
def Holds (f : FieldName) (members : Members) (v : Option String) : Prop :=
  f.values members = (v.map Json.str).toList ∨ f.values members = [.null] ∧ v = none

/-- It is given once at most. -/
theorem Holds.once {v : Option String} (h : f.Holds members v) :
    (f.values members).length ≤ 1 := by
  rcases h with h | ⟨h, -⟩
  · rw [h]
    exact Option.length_toList_le
  · rw [h]
    exact Nat.le_refl 1

end FieldName

namespace Record

variable {α β : Type}

/-! ## Members that give no field twice -/

/-- No name is shared by two fields. -/
def Apart (fields : List FieldName) : Prop := (fields.flatMap FieldName.names).Nodup

instance (fields : List FieldName) : Decidable (Apart fields) :=
  inferInstanceAs (Decidable (List.Nodup _))

variable {fields : List FieldName} {f : FieldName} {name : String}

/-- A name belongs to one field only. -/
theorem Apart.find (h : Apart fields) (hf : f ∈ fields) (ha : f.accepts name = true) :
    fields.find? (·.accepts name) = some f := by
  induction fields with
  | nil => cases hf
  | cons f' fields ih =>
    rw [Apart, List.flatMap_cons] at h
    obtain ⟨-, hrest, hapart⟩ := List.nodup_append.1 h
    rcases List.mem_cons.1 hf with rfl | hf
    · exact List.find?_cons_of_pos ha
    · have hnot : ¬f'.accepts name = true := fun ha' =>
        hapart name (FieldName.accepts_iff.1 ha') name
          (List.mem_flatMap.2 ⟨f, hf, FieldName.accepts_iff.1 ha⟩) rfl
      rw [List.find?_cons_of_neg (by exact hnot)]
      exact ih hrest hf

/-- Fields are told apart by their first names. -/
theorem Apart.primary (h : Apart fields) {f' : FieldName} (hf : f ∈ fields) (hf' : f' ∈ fields)
    (he : f.primary = f'.primary) : f = f' := by
  have haccepts (p : FieldName) : p.accepts p.primary = true :=
    FieldName.accepts_iff.2 List.mem_cons_self
  have hfirst := h.find hf (haccepts f)
  rw [he, h.find hf' (haccepts f')] at hfirst
  exact (Option.some.inj hfirst).symm

/-- Fields that share no name are told apart by their first names. -/
theorem Apart.distinct (h : Apart fields) : Distinct fields := by
  refine ⟨?_, fun f hf => ⟨f, h.find hf (FieldName.accepts_iff.2 List.mem_cons_self), rfl⟩⟩
  have hsub : (fields.map FieldName.primary).Sublist (fields.flatMap FieldName.names) := by
    clear h
    induction fields with
    | nil => exact .slnil
    | cons f fields ih =>
      have hfirst : [f.primary].Sublist f.names := List.cons_sublist_cons.2 (List.nil_sublist _)
      exact hfirst.append ih
  exact hsub.nodup h

/-- A record whose fields share no name is read back from the object that is written for it. -/
theorem Fits.decode {α : Type} {r : Record α} {o : Origin} {members : Members} {a : α}
    (h : r.Fits o members a) (hapart : Apart r.fields) :
    r.decode o (Doc.ofJson (.obj members)) = .ok a := h.alone hapart.distinct false

/-- What is given of a field, in slots that are filled already or by members that follow. -/
def givenIn (slots : List (String × Nat × Doc)) (members : Members) (f : FieldName) : List Doc :=
  ((slots.lookup f.primary).map Prod.snd).toList ++ (f.values members).map Doc.ofJson

/-- A member that fills the slot of its field stays what is given of it. -/
theorem givenIn_fill (h : Apart fields) (hf : f ∈ fields) (ha : f.accepts name = true)
    {slots : List (String × Nat × Doc)} (hnone : slots.lookup f.primary = none) (i : Nat) (j : Json)
    (members : Members) {f' : FieldName} (hf' : f' ∈ fields) :
    givenIn (slots ++ [(f.primary, i, Doc.ofJson j)]) members f'
      = givenIn slots ((name, j) :: members) f' := by
  rw [givenIn, givenIn, lookup_concat hnone]
  by_cases he : f'.primary = f.primary
  · obtain rfl := h.primary hf' hf he
    rw [if_pos rfl, hnone, FieldName.values_of_accepts ha]
    rfl
  · have hnot : ¬f'.accepts name = true := fun ha' =>
      he (congrArg FieldName.primary (Option.some.inj ((h.find hf' ha').symm.trans (h.find hf ha))))
    rw [if_neg he, FieldName.values_of_not_accepts hnot]

/-- **Members that are read one by one** bring up no fault just if none gives a field that is given
already; then what is given of each field is what is found of it. -/
theorem scan_ofMembers (h : Apart fields) {o : Origin} (ho : o ≠ .text) (members : Members)
    (i : Nat) (slots : List (String × Nat × Doc)) :
    let x := scan fields false o i slots (Doc.ofMembers members)
    (x.2 = none ↔ ∀ f ∈ fields, (givenIn slots members f).length ≤ 1) ∧
      (x.2 = none → ∀ f ∈ fields,
        ((x.1.lookup f.primary).map Prod.snd).toList = givenIn slots members f) := by
  induction members generalizing i slots with
  | nil =>
    refine ⟨⟨fun _ f _ => ?_, fun _ => rfl⟩, fun _ f _ => (List.append_nil _).symm⟩
    rw [givenIn, FieldName.values, List.filter_nil, List.map_nil, List.map_nil, List.append_nil]
    exact Option.length_toList_le
  | cons m members ih =>
    obtain ⟨name, j⟩ := m
    rw [Doc.ofMembers, scan]
    cases hfind : fields.find? (·.accepts name) with
    | none =>
      have hread : ¬(o = .text ∧ (Doc.ofJson j).intact = false) := fun hd => ho hd.1
      have hsame : ∀ f ∈ fields, givenIn slots ((name, j) :: members) f = givenIn slots members f :=
        fun f hf => by
          rw [givenIn, givenIn, FieldName.values_of_not_accepts fun ha =>
            List.find?_eq_none.1 hfind f hf ha]
      simp only [Bool.false_eq_true, if_false, if_neg hread]
      obtain ⟨hnone, hfound⟩ := ih (i + 1) slots
      exact ⟨hnone.trans (forall₂_congr fun f hf => by rw [hsame f hf]),
        fun hn f hf => (hfound hn f hf).trans (hsame f hf).symm⟩
    | some f =>
      have hf : f ∈ fields := List.mem_of_find?_eq_some hfind
      have ha : f.accepts name = true := by
        exact List.find?_some (p := fun f : FieldName => f.accepts name) hfind
      simp only
      cases hslot : slots.lookup f.primary with
      | some x =>
        -- The field is given twice.
        rw [Option.isSome_some, if_pos rfl]
        have hfault : some (i, Fault.duplicateField f.primary) ≠ none := Option.some_ne_none _
        refine ⟨⟨fun h => absurd h hfault, fun hle => absurd (hle f hf) ?_⟩,
          fun h => absurd h hfault⟩
        rw [givenIn, hslot, FieldName.values_of_accepts ha]
        exact Nat.not_le.2 (Nat.le_add_left 2 _)
      | none =>
        rw [Option.isSome_none, if_neg Bool.false_ne_true]
        have hsame : ∀ f' ∈ fields, givenIn (slots ++ [(f.primary, i, Doc.ofJson j)]) members f'
            = givenIn slots ((name, j) :: members) f' := fun f' hf' =>
          givenIn_fill h hf ha hslot i j members hf'
        obtain ⟨hnone, hfound⟩ := ih (i + 1) (slots ++ [(f.primary, i, Doc.ofJson j)])
        exact ⟨hnone.trans (forall₂_congr fun f' hf' => by rw [hsame f' hf']),
          fun hn f' hf' => (hfound hn f' hf').trans (hsame f' hf')⟩

/-! ## Fields -/

/-- What an object gives of fields is what its members give. -/
structure GivenBy (g : Given) (fields : List FieldName) (members : Members) : Prop where
  object : g.positional = false
  values : ∀ f ∈ fields, (g.value? f.primary).toList = (f.values members).map Doc.ofJson

section Fields

variable {g : Given} {members : Members} {s : String}

/-- A field has one value, or none is given. -/
theorem GivenBy.slot (h : GivenBy g fields members) (hf : f ∈ fields) :
    (g.slots.lookup f.primary = none ∧ f.values members = []) ∨
      ∃ i j, g.slots.lookup f.primary = some (i, Doc.ofJson j) ∧ f.values members = [j] := by
  have hvalues := h.values f hf
  rw [Given.value?] at hvalues
  cases hslot : g.slots.lookup f.primary with
  | none =>
    rw [hslot] at hvalues
    exact .inl ⟨rfl, List.map_eq_nil_iff.1 hvalues.symm⟩
  | some x =>
    rw [hslot] at hvalues
    obtain ⟨j, hj, hd⟩ := List.map_eq_singleton_iff.1 hvalues.symm
    exact .inr ⟨x.1, j, congrArg some (Prod.ext rfl hd.symm), hj⟩

theorem read_required_iff (h : GivenBy g fields members) (hf : f ∈ fields) :
    (required f Decoder.string).read g = .ok s ↔ f.values members = [.str s] := by
  rcases h.slot hf with ⟨hslot, hvalues⟩ | ⟨i, j, hslot, hvalues⟩
  · simp [required, field, hslot, hvalues, h.object]
  · cases j <;> simp [required, field, hslot, hvalues, Decoder.string, Doc.ofJson, Except.mapError]

theorem read_defaulted_iff (h : GivenBy g fields members) (hf : f ∈ fields) {a : String} :
    (defaulted f Decoder.string a).read g = .ok s ↔
      f.values members = [.str s] ∨ f.values members = [] ∧ s = a := by
  rcases h.slot hf with ⟨hslot, hvalues⟩ | ⟨i, j, hslot, hvalues⟩
  · simp [defaulted, field, hslot, hvalues, eq_comm]
  · cases j <;> simp [defaulted, field, hslot, hvalues, Decoder.string, Doc.ofJson, Except.mapError]

theorem read_omittable_iff (h : GivenBy g fields members) (hf : f ∈ fields) {v : Option String} :
    (omittable f Decoder.string).read g = .ok v ↔ f.Holds members v := by
  rw [FieldName.Holds]
  rcases h.slot hf with ⟨hslot, hvalues⟩ | ⟨i, j, hslot, hvalues⟩
  · cases v <;> simp [omittable, field, hslot, hvalues, h.object]
  · cases j <;> cases v <;> simp [omittable, field, hslot, hvalues, Decoder.option, Decoder.string,
      Doc.ofJson, Except.mapError, Except.map]

end Fields

theorem read_map_iff {f : α → β} {x : Record α} {g : Given} {b : β} :
    (f <$> x).read g = .ok b ↔ ∃ a, x.read g = .ok a ∧ f a = b := by
  show (x.read g).map f = _ ↔ _
  cases x.read g <;> simp [Except.map]

theorem read_seq_iff {f : Record (α → β)} {x : Record α} {g : Given} {b : β} :
    (f <*> x).read g = .ok b ↔ ∃ f' a, f.read g = .ok f' ∧ x.read g = .ok a ∧ f' a = b := by
  show (f.seq x).read g = _ ↔ _
  simp only [seq]
  cases f.read g <;> cases x.read g <;> simp

/-- **What members are accepted as**, where what the fields are read as does not allow one to be
given twice. -/
theorem ofMembers_accepted {r : Record α} (hapart : Apart r.fields) {o : Origin} (ho : o ≠ .text)
    {members : Members} {a : α} {P : Prop}
    (hread : ∀ g, g.origin = o → GivenBy g r.fields members → (r.read g = .ok a ↔ P))
    (honce : P → ∀ f ∈ r.fields, (f.values members).length ≤ 1) :
    r.ofMembers false o (Doc.ofMembers members) = .ok a ↔ P := by
  obtain ⟨hnone, hfound⟩ := scan_ofMembers hapart ho members 0 []
  have hgiven (f : FieldName) : givenIn [] members f = (f.values members).map Doc.ofJson := rfl
  simp only [hgiven, List.length_map] at hnone hfound
  rw [ofMembers]
  cases hscan : scan r.fields false o 0 [] (Doc.ofMembers members) with
  | mk filled fault =>
    rw [hscan] at hnone hfound
    cases fault with
    | none =>
      have hby : GivenBy ⟨o, false, (Doc.ofMembers members).length, filled⟩ r.fields members :=
        ⟨rfl, hfound rfl⟩
      rw [← hread _ rfl hby]
      simp only
      cases r.read ⟨o, false, (Doc.ofMembers members).length, filled⟩ <;> simp
    | some fault =>
      have htwice : ¬P := fun hp => Option.some_ne_none fault (hnone.2 (honce hp))
      simp only
      cases r.read ⟨o, false, (Doc.ofMembers members).length, filled⟩ <;> simp [htwice]

/-- What is set aside of an object that tells its kind is accepted as. -/
theorem kind_accepted {r : Record α} (hapart : Apart r.fields) {tag : String}
    (htag : ∀ f ∈ r.fields, tag ∉ f.names) {members : Members} {a : α} {P : Prop}
    (hread : ∀ g, GivenBy g r.fields members → (r.read g = .ok a ↔ P))
    (honce : P → ∀ f ∈ r.fields, (f.values members).length ≤ 1) :
    r.kind.ofMembers (Doc.ofMembers (members.filter fun m => m.1 ≠ tag)) = .ok a ↔ P := by
  have hvalues : ∀ f ∈ r.fields,
      f.values (members.filter fun m => m.1 ≠ tag) = f.values members := fun f hf =>
    FieldName.values_filter_ne (htag f hf)
  have horigin : Origin.setAside ≠ .text := nofun
  refine ofMembers_accepted hapart horigin
    (fun g _ hg => hread g ⟨hg.object, fun f hf => ?_⟩) ?_
  · rw [hg.values f hf, hvalues f hf]
  · intro hp f hf
    rw [hvalues f hf]
    exact honce hp f hf

end Record

/-! ## Objects that tell their kind -/

section Tagged

variable {α : Type} {tag : String} {kinds : List (String × Kind α)} {members : Members}

/-- A kind is told by a string that names it. -/
theorem readTag_eq_ok {j : Json} {k : Kind α} :
    readTag kinds (Doc.ofJson j) = .ok k ↔ ∃ kind, j = .str kind ∧ kinds.lookup kind = some k := by
  cases j with
  | str kind =>
    rw [Doc.ofJson, readTag, Decoder.named]
    cases hk : kinds.lookup kind <;> simp [hk]
  | _ =>
    constructor
    · intro h
      cases h
    · rintro ⟨kind, h, -⟩
      cases h

/-- Once the kind is told, the tag must not be given again. -/
theorem setAside_told {k : Kind α} {x : Option (Kind α) × List (Option String × Doc)} :
    setAside tag kinds (some k) (Doc.ofMembers members) = .ok x ↔
      (plain tag).values members = [] ∧ x = (some k, Doc.ofMembers members) := by
  induction members generalizing x with
  | nil => exact ⟨fun h => ⟨rfl, (Except.ok.inj h).symm⟩, fun h => h.2 ▸ rfl⟩
  | cons m members ih =>
    obtain ⟨name, j⟩ := m
    rw [Doc.ofMembers, setAside]
    by_cases hname : name = tag
    · have ha : (plain tag).accepts name = true :=
        FieldName.accepts_iff.2 (hname ▸ List.mem_singleton_self tag)
      rw [if_pos hname, FieldName.values_of_accepts ha]
      constructor
      · intro h
        cases h
      · rintro ⟨h, -⟩
        cases h
    · have ha : ¬(plain tag).accepts name = true := fun ha =>
        hname (List.mem_singleton.1 (FieldName.accepts_iff.1 ha))
      rw [if_neg hname, if_pos (Doc.readable_ofJson j), FieldName.values_of_not_accepts ha]
      constructor
      · intro h
        obtain ⟨y, hy, h⟩ := of_bind_eq_ok h
        obtain ⟨hnone, rfl⟩ := ih.1 hy
        exact ⟨hnone, (Except.ok.inj h).symm⟩
      · rintro ⟨hnone, rfl⟩
        rw [ih.2 ⟨hnone, rfl⟩]
        rfl

/-- The kind is told once, and the other members are set aside. -/
theorem setAside_untold {k : Kind α} {others : List (Option String × Doc)} :
    setAside tag kinds none (Doc.ofMembers members) = .ok (some k, others) ↔
      ∃ kind, (plain tag).values members = [.str kind] ∧ kinds.lookup kind = some k ∧
        others = Doc.ofMembers (members.filter fun m => m.1 ≠ tag) := by
  induction members generalizing others with
  | nil =>
    constructor
    · intro h
      cases h
    · rintro ⟨kind, h, -⟩
      cases h
  | cons m members ih =>
    obtain ⟨name, j⟩ := m
    rw [Doc.ofMembers, setAside]
    by_cases hname : name = tag
    · have ha : (plain tag).accepts name = true :=
        FieldName.accepts_iff.2 (hname ▸ List.mem_singleton_self tag)
      rw [if_pos hname, FieldName.values_of_accepts ha,
        List.filter_cons_of_neg (by simpa using hname)]
      constructor
      · intro h
        obtain ⟨k', hk', h⟩ := of_bind_eq_ok h
        obtain ⟨hnone, h⟩ := setAside_told.1 h
        cases h
        obtain ⟨kind, rfl, hk⟩ := readTag_eq_ok.1 hk'
        exact ⟨kind, by rw [hnone], hk, by rw [FieldName.filter_of_values hnone]⟩
      · rintro ⟨kind, hkind, hk, rfl⟩
        obtain ⟨rfl, hnone⟩ := List.cons.inj hkind
        rw [readTag_eq_ok.2 ⟨kind, rfl, hk⟩, FieldName.filter_of_values hnone]
        exact setAside_told.2 ⟨hnone, rfl⟩
    · have ha : ¬(plain tag).accepts name = true := fun ha =>
        hname (List.mem_singleton.1 (FieldName.accepts_iff.1 ha))
      rw [if_neg hname, if_pos (Doc.readable_ofJson j), FieldName.values_of_not_accepts ha,
        List.filter_cons_of_pos (by simpa using hname), Doc.ofMembers]
      constructor
      · intro h
        obtain ⟨⟨k', others'⟩, hy, h⟩ := of_bind_eq_ok h
        cases h
        obtain ⟨kind, hkind, hk, rfl⟩ := ih.1 hy
        exact ⟨kind, hkind, hk, rfl⟩
      · rintro ⟨kind, hkind, hk, rfl⟩
        rw [ih.2 ⟨kind, hkind, hk, rfl⟩]
        rfl

/-- **An object is accepted as what its kind accepts**, which is told once. -/
theorem tagged_eq_ok {o : Origin} {a : α} :
    tagged tag kinds o (Doc.ofJson (.obj members)) = .ok a ↔
      ∃ kind k, (plain tag).values members = [.str kind] ∧ kinds.lookup kind = some k ∧
        k.ofMembers (Doc.ofMembers (members.filter fun m => m.1 ≠ tag)) = .ok a := by
  rw [Doc.ofJson, tagged]
  constructor
  · intro h
    obtain ⟨⟨k, others⟩, hset, h⟩ := of_bind_eq_ok h
    cases k with
    | none => cases h
    | some k =>
      obtain ⟨kind, hkind, hk, rfl⟩ := setAside_untold.1 hset
      exact ⟨kind, k, hkind, hk, h⟩
  · rintro ⟨kind, k, hkind, hk, h⟩
    rw [setAside_untold.2 ⟨kind, hkind, hk, rfl⟩]
    exact h

end Tagged

end AgentStream
