/-
# Fields under their other names

A field may be given under any of its names, and it makes no difference which one that is.  What is
accepted gives no field twice, whether under one name or under two.

* `Record.Respelled` : members that differ in the names of fields, and in values that a relation
  does not tell apart;
* `Record.Respects` : a record whose fields do not tell such values apart;
* `Record.ofMembers_respelled` : respelled members are decoded alike;
* `Record.Twice` : a field is given twice;
* `Record.scan_found` : what is found among members that bring up no fault;
* `Record.ofMembers_twice`, `Record.ofMembers_strange` : members that are not accepted.
-/
import Mathlib.Data.List.Forall2
import AgentStream.Proofs.Json.Accepted

namespace AgentStream

namespace Record

variable {α β : Type}

/-! ## Respelled members -/

/-- A member and one that may stand in its place: another name of its field, and a value that `S`
relates to its own under the first name of the field. -/
inductive SameMember (fields : List FieldName) (S : String → Doc → Doc → Prop) :
    Option String × Doc → Option String × Doc → Prop
  | same (m : Option String × Doc) : SameMember fields S m m
  | field {f : FieldName} {name name' : String} {d d' : Doc} : f ∈ fields →
      f.accepts name = true → f.accepts name' = true → S f.primary d d' →
      SameMember fields S (some name, d) (some name', d')

/-- Members that stand in the place of others, one by one. -/
def Respelled (fields : List FieldName) (S : String → Doc → Doc → Prop) :
    List (Option String × Doc) → List (Option String × Doc) → Prop :=
  List.Forall₂ (SameMember fields S)

/-- The same fields are given at the same places, with values that `S` relates. -/
def SameSlots (S : String → Doc → Doc → Prop) :
    List (String × Nat × Doc) → List (String × Nat × Doc) → Prop :=
  List.Forall₂ fun x x' => x.1 = x'.1 ∧ x.2.1 = x'.2.1 ∧ S x.1 x.2.2 x'.2.2

/-- The fields of a record are read alike from values that `S` relates. -/
def Respects (r : Record α) (S : String → Doc → Doc → Prop) : Prop :=
  ∀ (o : Origin) (positional : Bool) (count : Nat) (slots slots' : List (String × Nat × Doc)),
    SameSlots S slots slots' →
    r.read ⟨o, positional, count, slots⟩ = r.read ⟨o, positional, count, slots'⟩

section Slots

variable {S : String → Doc → Doc → Prop} {slots slots' : List (String × Nat × Doc)}

/-- Under a name nothing is found in both, or related values at one place. -/
theorem SameSlots.lookup (h : SameSlots S slots slots') (name : String) :
    (slots.lookup name = none ∧ slots'.lookup name = none) ∨ ∃ i d d',
      slots.lookup name = some (i, d) ∧ slots'.lookup name = some (i, d') ∧ S name d d' := by
  induction h with
  | nil => exact .inl ⟨rfl, rfl⟩
  | @cons x x' slots slots' hx _ ih =>
    obtain ⟨hname, hplace, hvalue⟩ := hx
    rw [lookup_cons_ite, lookup_cons_ite, ← hname]
    by_cases he : name = x.1
    · rw [if_pos he, if_pos he]
      exact .inr ⟨x.2.1, x.2.2, x'.2.2, rfl, congrArg some (Prod.ext hplace.symm rfl), he ▸ hvalue⟩
    · rw [if_neg he, if_neg he]
      exact ih

theorem respects_map (f : α → β) {x : Record α} (h : x.Respects S) : (f <$> x).Respects S := by
  intro o positional count slots slots' hslots
  show (x.read _).map f = (x.read _).map f
  rw [h o positional count slots slots' hslots]

theorem respects_seq {f : Record (α → β)} {x : Record α} (hf : f.Respects S) (hx : x.Respects S) :
    (f <*> x).Respects S := by
  intro o positional count slots slots' hslots
  show (f.seq x).read _ = (f.seq x).read _
  rw [seq]
  simp only [hf o positional count slots slots' hslots, hx o positional count slots slots' hslots]

/-- A field is read alike from values that its decoder does not tell apart. -/
theorem respects_field {name : FieldName} {dec : Decoder α} {absence : Absence α}
    (h : ∀ o d d', S name.primary d d' → dec o d = dec o d') :
    (field name dec absence).Respects S := by
  intro o positional count slots slots' hslots
  simp only [field]
  rcases hslots.lookup name.primary with ⟨hnone, hnone'⟩ | ⟨i, d, d', hslot, hslot', hvalue⟩
  · rw [hnone, hnone']
  · rw [hslot, hslot']
    simp only [h o d d' hvalue]

end Slots

section Scan

variable {fields : List FieldName} {S : String → Doc → Doc → Prop}

/-- **Respelled members** give the same fields and bring up the same fault. -/
theorem scan_respelled (closed : Bool) (o : Origin) (hapart : Apart fields)
    (hrefl : ∀ name d, S name d d)
    {members members' : List (Option String × Doc)} (h : Respelled fields S members members')
    (i : Nat) {slots slots' : List (String × Nat × Doc)} (hslots : SameSlots S slots slots') :
    SameSlots S (scan fields closed o i slots members).1
        (scan fields closed o i slots' members').1 ∧
      (scan fields closed o i slots members).2 = (scan fields closed o i slots' members').2 := by
  induction h generalizing i slots slots' with
  | nil => exact ⟨hslots, rfl⟩
  | @cons m m' members members' hm _ ih =>
    -- Both members fill the slot of one field, or bring up its fault.
    have hknown {f : FieldName} {name name' : String} {d d' : Doc}
        (hf : fields.find? (·.accepts name) = some f)
        (hf' : fields.find? (·.accepts name') = some f) (hd : S f.primary d d') :
        SameSlots S (scan fields closed o i slots ((some name, d) :: members)).1
            (scan fields closed o i slots' ((some name', d') :: members')).1 ∧
          (scan fields closed o i slots ((some name, d) :: members)).2
            = (scan fields closed o i slots' ((some name', d') :: members')).2 := by
      have hgiven : (slots.lookup f.primary).isSome = (slots'.lookup f.primary).isSome := by
        rcases hslots.lookup f.primary with ⟨hnone, hnone'⟩ | ⟨j, e, e', hslot, hslot', -⟩
        · rw [hnone, hnone']
        · rw [hslot, hslot']
          rfl
      rw [scan, scan]
      simp only [hf, hf', hgiven]
      split
      · exact ⟨hslots, rfl⟩
      · exact ih (i + 1) (List.rel_append hslots (.cons ⟨rfl, rfl, hd⟩ .nil))
    cases hm with
    | field hf ha ha' hd => exact hknown (hapart.find hf ha) (hapart.find hf ha') hd
    | same =>
      obtain ⟨name, d⟩ := m
      cases name with
      | none => exact ⟨hslots, rfl⟩
      | some name =>
        cases hfind : fields.find? (·.accepts name) with
        | some f => exact hknown hfind hfind (hrefl f.primary d)
        | none =>
          rw [scan, scan]
          simp only [hfind]
          split
          · exact ⟨hslots, rfl⟩
          · split
            · exact ⟨hslots, rfl⟩
            · exact ih (i + 1) hslots

/-- **Respelled members are decoded alike**, with the same fault if there is one. -/
theorem ofMembers_respelled {r : Record α} (hapart : Apart r.fields) (hrefl : ∀ name d, S name d d)
    (hr : r.Respects S) {members members' : List (Option String × Doc)}
    (h : Respelled r.fields S members members') (closed : Bool) (o : Origin) :
    r.ofMembers closed o members = r.ofMembers closed o members' := by
  have hslots : SameSlots S [] [] := .nil
  obtain ⟨hfound, hfault⟩ := scan_respelled closed o hapart hrefl h 0 hslots
  rw [ofMembers, ofMembers, h.length_eq]
  cases hscan : scan r.fields closed o 0 [] members with
  | mk filled fault =>
    cases hscan' : scan r.fields closed o 0 [] members' with
    | mk filled' fault' =>
      rw [hscan, hscan'] at hfound hfault
      obtain rfl : fault = fault' := hfault
      simp only [hr o false members'.length filled filled' hfound]

end Scan

/-! ## What is accepted -/

/-- A field is given twice, be it under one name or under two. -/
def Twice (fields : List FieldName) (members : List (Option String × Doc)) : Prop :=
  ∃ f ∈ fields, ∃ name name' d d', f.accepts name = true ∧ f.accepts name' = true ∧
    [(some name, d), (some name', d')].Sublist members

/-- A member of a name that no field goes by. -/
def Strange (fields : List FieldName) (m : Option String × Doc) : Prop :=
  ∀ f ∈ fields, ∀ name, m.1 = some name → f.accepts name = false

/-- The field that a member gives, with its value. -/
def known (fields : List FieldName) (m : Option String × Doc) : Option (String × Doc) :=
  (m.1.bind fun name => fields.find? (·.accepts name)).map fun f => (f.primary, m.2)

section Found

variable {fields : List FieldName} {closed : Bool} {o : Origin}

theorem known_of_accepts (hapart : Apart fields) {f : FieldName} (hf : f ∈ fields) {name : String}
    (ha : f.accepts name = true) (d : Doc) :
    known fields (some name, d) = some (f.primary, d) := by
  rw [known, Option.bind_some, hapart.find hf ha]
  rfl

theorem known_of_strange {m : Option String × Doc} (h : Strange fields m) :
    known fields m = none := by
  obtain ⟨name, d⟩ := m
  cases name with
  | none => rfl
  | some name =>
    rw [known, Option.bind_some, List.find?_eq_none.2 fun f hf => by
      rw [h f hf name rfl]
      exact Bool.false_ne_true]
    rfl

/-- **Members that bring up no fault** give each field once at most, and what is found is what they
give.  Where others are not allowed, each of them gives a field. -/
theorem scan_found {members : List (Option String × Doc)} {i : Nat}
    {slots filled : List (String × Nat × Doc)}
    (h : scan fields closed o i slots members = (filled, none))
    (hd : (slots.map Prod.fst).Nodup) :
    (filled.map Prod.fst).Nodup ∧
      (filled.map fun x => (x.1, x.2.2))
        = (slots.map fun x => (x.1, x.2.2)) ++ members.filterMap (known fields) ∧
      (closed = true → ∀ m ∈ members, known fields m ≠ none) := by
  induction members generalizing i slots with
  | nil =>
    cases h
    exact ⟨hd, (List.append_nil _).symm, fun _ => List.forall_mem_nil _⟩
  | cons m members ih =>
    obtain ⟨name, d⟩ := m
    cases name with
    | none => cases h
    | some name =>
      rw [scan] at h
      cases hfind : fields.find? (·.accepts name) with
      | some f =>
        have hknown : known fields (some name, d) = some (f.primary, d) := by
          rw [known, Option.bind_some, hfind]
          rfl
        simp only [hfind] at h
        split at h
        · cases h
        · rename_i hnew
          have hnone : slots.lookup f.primary = none :=
            Option.not_isSome_iff_eq_none.1 hnew
          obtain ⟨hnodup, hfound, hall⟩ := ih h (nodup_concat hd hnone (i, d))
          refine ⟨hnodup, ?_, fun hc => List.forall_mem_cons.2 ⟨?_, hall hc⟩⟩
          · rw [hfound, List.map_append, List.filterMap_cons_some hknown, List.append_assoc]
            rfl
          · rw [hknown]
            exact Option.some_ne_none _
      | none =>
        have hknown : known fields (some name, d) = none := by
          rw [known, Option.bind_some, hfind]
          rfl
        simp only [hfind] at h
        split at h
        · cases h
        · rename_i hopen
          split at h
          · cases h
          · obtain ⟨hnodup, hfound, -⟩ := ih h hd
            rw [List.filterMap_cons_none hknown]
            exact ⟨hnodup, hfound, fun hc => absurd hc hopen⟩

/-- What is accepted brings up no fault, and is read from what is found. -/
theorem ofMembers_ok {r : Record α} {members : List (Option String × Doc)} {a : α}
    (h : r.ofMembers closed o members = .ok a) :
    ∃ filled, scan r.fields closed o 0 [] members = (filled, none) ∧
      r.read ⟨o, false, members.length, filled⟩ = .ok a := by
  rw [ofMembers] at h
  cases hscan : scan r.fields closed o 0 [] members with
  | mk filled fault =>
    rw [hscan] at h
    simp only at h
    split at h
    · rename_i a' hread
      cases h
      exact ⟨filled, rfl, hread⟩
    all_goals cases h

variable {r : Record α} {members : List (Option String × Doc)} {a : α}

/-- **Members that give a field twice are not accepted.** -/
theorem ofMembers_twice (hapart : Apart r.fields) (h : Twice r.fields members) :
    r.ofMembers closed o members ≠ .ok a := by
  intro hok
  obtain ⟨filled, hscan, -⟩ := ofMembers_ok hok
  obtain ⟨f, hf, name, name', d, d', ha, ha', hsub⟩ := h
  obtain ⟨hnodup, hfound, -⟩ := scan_found hscan List.nodup_nil
  have hnames : (members.filterMap (known r.fields)).map Prod.fst = filled.map Prod.fst := by
    rw [← List.nil_append (members.filterMap _), ← List.map_nil, ← hfound, List.map_map]
    rfl
  -- both members give the same field, but no field is found twice
  have hpair := (hsub.filterMap (known r.fields)).map Prod.fst
  rw [hnames, List.filterMap_cons_some (known_of_accepts hapart hf ha d),
    List.filterMap_cons_some (known_of_accepts hapart hf ha' d')] at hpair
  exact absurd (hpair.nodup hnodup) (by simp)

/-- **Members of names that no field goes by are not accepted** where others are not allowed. -/
theorem ofMembers_strange {m : Option String × Doc} (hm : m ∈ members)
    (h : Strange r.fields m) : r.ofMembers true o members ≠ .ok a := by
  intro hok
  obtain ⟨filled, hscan, -⟩ := ofMembers_ok hok
  exact (scan_found hscan List.nodup_nil).2.2 rfl m hm (known_of_strange h)

/-- A field that is found is read as its value. -/
theorem field_ok {name : FieldName} {dec : Decoder α} {absence : Absence α} {g : Given} {k : Nat}
    {d : Doc} {a : α} (hslot : g.slots.lookup name.primary = some (k, d))
    (h : (field name dec absence).read g = .ok a) : dec g.origin d = .ok a := by
  simp only [field, hslot] at h
  cases hd : dec g.origin d with
  | error fault =>
    rw [hd] at h
    cases h
  | ok a' =>
    rw [hd] at h
    cases h
    rfl

/-- A field that is given is found. -/
theorem scan_lookup (hapart : Apart fields) {filled : List (String × Nat × Doc)} {i : Nat}
    (h : scan fields closed o i [] members = (filled, none)) {f : FieldName} (hf : f ∈ fields)
    {name : String} (ha : f.accepts name = true) {d : Doc} (hm : (some name, d) ∈ members) :
    ∃ k, filled.lookup f.primary = some (k, d) := by
  obtain ⟨hnodup, hfound, -⟩ := scan_found h List.nodup_nil
  have hmem : (f.primary, d) ∈ filled.map fun x => (x.1, x.2.2) := by
    rw [hfound]
    exact List.mem_append_right _ (List.mem_filterMap.2 ⟨_, hm, known_of_accepts hapart hf ha d⟩)
  obtain ⟨⟨p, k, d'⟩, hx, he⟩ := List.mem_map.1 hmem
  cases he
  exact ⟨k, (mem_iff_lookup hnodup).1 hx⟩

end Found

end Record

end AgentStream
