/-
# What decoders make of documents within bounds

A decoder only passes on what it finds in a document, in whatever form that is given.  So what it
makes of a document within bounds is made of values within bounds.

* `Decoder.Keeps`, `Record.Keeps` : a property of all that is made of documents within bounds;
* `Decoder.keeps_any`, `Decoder.keeps_option_any` : free values are held;
* `Record.Keeps.decode` : records from objects and from arrays.
-/
import AgentStream.Json.Decode
import AgentStream.Proofs.Event.Codec
import AgentStream.Proofs.Json.Bounds

namespace AgentStream

variable {α β : Type} {n : Nat}

/-- Everything holds of the values of nothing. -/
theorem forall_mem_none {P : α → Prop} : ∀ a ∈ (none : Option α), P a :=
  fun a ha => absurd ha (Option.not_mem_none a)

/-! ## Values -/

/-- Whatever is made of a document within bounds has a property. -/
def Decoder.Keeps (dec : Decoder α) (n : Nat) (P : α → Prop) : Prop :=
  ∀ o d a, d.Within n → dec o d = .ok a → P a

namespace Decoder

variable {dec : Decoder α} {P : α → Prop}

theorem keeps_true (dec : Decoder α) (n : Nat) : Keeps dec n fun _ => True :=
  fun _ _ _ _ _ => trivial

/-- A value or `null`. -/
theorem keeps_option (h : dec.Keeps n P) : dec.option.Keeps n fun v => ∀ a ∈ v, P a := by
  intro o d v hd hv
  unfold option at hv
  split at hv
  · cases hv
    exact forall_mem_none
  · cases ha : dec o d with
    | error fault =>
      rw [ha] at hv
      cases hv
    | ok a =>
      rw [ha] at hv
      cases hv
      rintro _ ⟨rfl⟩
      exact h o d a hd ha

/-- A natural number has no more bits than it may. -/
theorem keeps_unsigned (width : Nat) : (unsigned width).Keeps n (· < 2 ^ width) := by
  intro o d t _ h
  unfold unsigned integer at h
  split at h
  · split at h
    · rename_i hle
      cases h
      have hpos : 0 < 2 ^ width := Nat.two_pow_pos width
      have hmax : ((Nat.pow 2 width - 1 : Nat) : Int) = (2 ^ width : Nat) - 1 := by
        show ((2 ^ width - 1 : Nat) : Int) = _
        omega
      rw [hmax] at hle
      show Int.toNat _ < 2 ^ width
      omega
    · cases h
  · cases h

/-- A signed integer is in range. -/
theorem keeps_signed (n : Nat) : signed.Keeps n fun i => Json.intRange i = true := by
  intro o d i _ h
  unfold signed integer at h
  split at h
  · split at h
    · cases h
      exact decide_eq_true (by omega)
    · cases h
  · cases h

/-- A free value is held. -/
theorem keeps_any (n : Nat) : any.Keeps n (Json.Held n) := by
  intro o d j hd h
  unfold any at h
  cases hj : d.toJson? with
  | none =>
    rw [hj] at h
    cases h
  | some j' =>
    rw [hj] at h
    cases h
    exact Doc.held_toJson? hd hj

/-- An optional free value is held, and is not `null`. -/
theorem keeps_option_any (n : Nat) :
    any.option.Keeps n fun v => ∀ j ∈ v, j.Held n ∧ j ≠ .null := by
  intro o d v hd h
  unfold option at h
  split at h
  · cases h
    exact forall_mem_none
  · rename_i hnull
    cases hj : any o d with
    | error fault =>
      rw [hj] at h
      cases h
    | ok j =>
      rw [hj] at h
      cases h
      rintro j' ⟨⟩
      refine ⟨keeps_any n o d j hd hj, fun he => hnull (Doc.eq_null_of_toJson? ?_)⟩
      unfold any at hj
      split at hj
      · rename_i hsome
        cases hj
        rw [hsome, he]
      · cases hj

theorem keeps_items (h : dec.Keeps n P) {o : Origin} {docs : List Doc} {as : List α}
    (hd : ∀ d ∈ docs, d.Within n) (ha : items dec o docs = .ok as) : ∀ a ∈ as, P a := by
  induction docs generalizing as with
  | nil =>
    cases ha
    exact List.forall_mem_nil _
  | cons d docs ih =>
    obtain ⟨a, hda, ha⟩ := of_bind_eq_ok ha
    obtain ⟨rest, hrest, ha⟩ := of_bind_eq_ok ha
    cases ha
    obtain ⟨hd, hdocs⟩ := List.forall_mem_cons.1 hd
    exact List.forall_mem_cons.2 ⟨h o d a hd hda, ih hdocs hrest⟩

/-- The items of an array are nested less deeply than the array. -/
theorem keeps_list (h : dec.Keeps (n - 1) P) :
    (list dec).Keeps n fun as => 0 < n ∧ ∀ a ∈ as, P a := by
  intro o d as hd ha
  unfold list at ha
  split at ha
  · exact ⟨hd.1, keeps_items h (Doc.withinItems_iff.1 hd.2) ha⟩
  · cases ha

/-- What is decoded from a text within bounds. -/
theorem Keeps.text (h : dec.Keeps n P) {raw : Bytes} (hw : (Doc.read raw).1.Within n) {a : α}
    (ha : decodeText dec raw = .ok a) : P a := by
  simp only [decodeText] at ha
  split at ha
  · cases ha
  · rename_i a' hdec
    split at ha
    · cases ha
      exact h .text _ a hw hdec
    · cases ha

end Decoder

/-! ## Records -/

namespace Record

/-- Whatever is made of fields within bounds has a property. -/
def Keeps (r : Record α) (n : Nat) (P : α → Prop) : Prop :=
  ∀ g a, (∀ slot ∈ g.slots, slot.2.2.Within n) → r.read g = .ok a → P a

variable {P : α → Prop} {R : β → Prop} {dec : Decoder α}

theorem Yields.keeps {r : Record α} (h : r.Yields P) (n : Nat) : r.Keeps n P :=
  fun g a _ ha => h g a ha

theorem Keeps.map {f : α → β} {x : Record α} (hx : x.Keeps n P) (h : ∀ a, P a → R (f a)) :
    (f <$> x).Keeps n R := by
  intro g b hg hb
  change (x.read g).map f = .ok b at hb
  cases ha : x.read g with
  | error e =>
    rw [ha] at hb
    cases hb
  | ok a =>
    rw [ha] at hb
    cases hb
    exact h a (hx g a hg ha)

theorem Keeps.seq {f : Record (α → β)} {x : Record α}
    (hf : f.Keeps n fun f => ∀ a, P a → R (f a)) (hx : x.Keeps n P) : (f <*> x).Keeps n R := by
  intro g b hg hb
  change (f.seq x).read g = .ok b at hb
  simp only [Record.seq] at hb
  split at hb
  · rename_i f' a hf' ha
    cases hb
    exact hf g f' hg hf' a (hx g a hg ha)
  all_goals cases hb

/-- A field has the property if its value and its default have it. -/
theorem keeps_field (name : FieldName) {absence : Absence α} (h : dec.Keeps n P)
    (ha : ∀ a, absence = .default a ∨ absence = .omittable a → P a) :
    (field name dec absence).Keeps n P := by
  intro g a hg hread
  simp only [field] at hread
  split at hread
  · rename_i i d hslot
    have hd := hg _ (mem_of_lookup hslot)
    cases hda : dec g.origin d with
    | error fault =>
      rw [hda] at hread
      cases hread
    | ok a' =>
      rw [hda] at hread
      cases hread
      exact h g.origin d a hd hda
  · split at hread
    · cases hread
      exact ha a (.inl rfl)
    · cases hread
      exact ha a (.inr rfl)
    · cases hread
    · cases hread

theorem keeps_required (name : FieldName) (h : dec.Keeps n P) : (required name dec).Keeps n P :=
  keeps_field name h fun a ha => by rcases ha with ha | ha <;> cases ha

theorem keeps_defaulted (name : FieldName) {a : α} (h : dec.Keeps n P) (ha : P a) :
    (defaulted name dec a).Keeps n P :=
  keeps_field name h fun a' ha' => by
    rcases ha' with ha' | ha' <;> cases ha'
    exact ha

theorem keeps_optional (name : FieldName) {P : Option α → Prop} (h : dec.option.Keeps n P)
    (hnone : P none) : (optional name dec).Keeps n P :=
  keeps_defaulted name h hnone

/-! ### From objects and arrays -/

/-- The fields that are found among members have their values. -/
theorem mem_scan {fields : List FieldName} {closed : Bool} {o : Origin} {i : Nat}
    {slots : List (String × Nat × Doc)} {members : List (Option String × Doc)}
    {Q : Doc → Prop} (hs : ∀ slot ∈ slots, Q slot.2.2) (hm : ∀ m ∈ members, Q m.2) :
    ∀ slot ∈ (scan fields closed o i slots members).1, Q slot.2.2 := by
  induction members generalizing i slots with
  | nil => exact hs
  | cons m members ih =>
    obtain ⟨hd, hrest⟩ := List.forall_mem_cons.1 hm
    obtain ⟨name, d⟩ := m
    cases name with
    | none => exact hs
    | some name =>
      rw [scan]
      split
      · split
        · exact hs
        · exact ih (List.forall_mem_append.2 ⟨hs, List.forall_mem_singleton.2 hd⟩) hrest
      · split
        · exact hs
        · split
          · exact hs
          · exact ih hs hrest

theorem mem_align {Q : Doc → Prop} (fields : List FieldName) {i : Nat} {items : List Doc}
    (hd : ∀ d ∈ items, Q d) : ∀ slot ∈ align i fields items, Q slot.2.2 := by
  induction fields generalizing i items with
  | nil => exact List.forall_mem_nil _
  | cons f fields ih =>
    cases items with
    | nil => exact List.forall_mem_nil _
    | cons d items =>
      obtain ⟨hd, hrest⟩ := List.forall_mem_cons.1 hd
      exact List.forall_mem_cons.2 ⟨hd, ih hrest⟩

theorem Keeps.ofMembers {r : Record α} (h : r.Keeps n P) {closed : Bool} {o : Origin}
    {members : List (Option String × Doc)} {a : α} (hm : ∀ m ∈ members, m.2.Within n)
    (ha : r.ofMembers closed o members = .ok a) : P a := by
  simp only [Record.ofMembers] at ha
  split at ha
  · rename_i a' hr _
    cases ha
    exact h _ a (mem_scan (fun _ hs => absurd hs List.not_mem_nil) hm) hr
  all_goals cases ha

theorem Keeps.ofItems {r : Record α} (h : r.Keeps n P) {o : Origin} {items : List Doc} {a : α}
    (hd : ∀ d ∈ items, d.Within n) (ha : r.ofItems o items = .ok a) : P a := by
  simp only [Record.ofItems] at ha
  split at ha
  · cases ha
  · rename_i a' hr
    split at ha
    · cases ha
      exact h _ a (mem_align r.fields hd) hr
    · cases ha

/-- **A record is nested more deeply than its fields**, be it given as an object or as an array. -/
theorem Keeps.decode {r : Record α} (h : r.Keeps (n - 1) P) :
    Decoder.Keeps r.decode n fun a => 0 < n ∧ P a := by
  intro o d a hd ha
  unfold Record.decode at ha
  split at ha
  · exact ⟨hd.1, h.ofMembers (Doc.withinMembers_iff.1 hd.2) ha⟩
  · exact ⟨hd.1, h.ofItems (Doc.withinItems_iff.1 hd.2) ha⟩
  · cases ha

end Record

end AgentStream
