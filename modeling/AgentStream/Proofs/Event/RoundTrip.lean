/-
# Events that are written and read again

An event that can be written is read back from its bytes.  Every event that is read from bytes can
be written unless it holds a double, so reading what was written of it gives the same event again.

* `Event.Portable` : what an event has to be like;
* `Event.decode_toJson` : an event is decoded from its written form;
* `Event.portable_of_decode` : what is decoded can be written;
* `Event.roundTrip` : events are read back.
-/
import AgentStream.Proofs.Event.Bodies
import AgentStream.Proofs.Event.Pieces

namespace AgentStream

open Record

namespace Event

/-! ## Members of events -/

/-- What an event may carry beside its body, as it is written. -/
def carriedMembers (e : Event) : Members :=
  Json.optional "timestamp" (e.timestamp.map fun t : Nat => .int t)
    ++ Json.optional "rawEvent" e.rawEvent

theorem toJson_eq (e : Event) :
    e.toJson = .obj (("type", .str e.kind) :: (e.body.members ++ e.carriedMembers)) := by
  rw [toJson, carriedMembers, List.append_assoc, List.append_assoc]
  cases e.timestamp <;> rfl

/-- The names under which nothing is written of a body. -/
def reserved : List String := ["type", "timestamp", "rawEvent"]

/-- The fields of bodies have one name each, by which they can be told apart from each other and
from what else is written. -/
theorem records_fields : ∀ x ∈ Body.records,
    (x.2.fields.map FieldName.primary).Nodup ∧
    ∀ f ∈ x.2.fields, f.others = [] ∧ f.primary ∉ reserved := by
  decide

/-- The fields of every body are told apart by their names. -/
theorem distinct_records {x : String × Record Body} (hx : x ∈ Body.records) :
    Distinct x.2.fields := by
  obtain ⟨hnodup, hplain⟩ := records_fields x hx
  exact ⟨hnodup, fun f hf =>
    isPrimary_plain (fun f hf => (hplain f hf).1) (List.mem_map_of_mem hf)⟩

theorem names_carriedMembers (e : Event) :
    (e.carriedMembers.map Prod.fst).Sublist ["timestamp", "rawEvent"] := by
  rw [carriedMembers, List.map_append]
  exact (Json.names_optional _ _).append (Json.names_optional _ _)

theorem mem_reserved {e : Event} {m : String × Json} (hm : m ∈ e.carriedMembers) :
    m.1 ∈ reserved :=
  List.mem_cons_of_mem _ (e.names_carriedMembers.subset (List.mem_map_of_mem hm))

/-! ## Reading back -/

/-- What an event may carry is read back. -/
theorem fits_carried {e : Event} (ht : ∀ t ∈ e.timestamp, t < 2 ^ 64)
    (hr : ∀ j ∈ e.rawEvent, j.Sorted ∧ j ≠ .null) :
    carried.Fits .setAside e.carriedMembers (e.timestamp, e.rawEvent) :=
  Fits.seq (Fits.map Prod.mk (fits_optional (fun _ _ => nofun) fun t h =>
    Decoder.unsigned_ok (ht t h) _))
    (fits_option_any _ hr)

theorem lookup_kinds {name : String} {r : Record Body} (h : Body.records.lookup name = some r) :
    kinds.lookup name = some (kindOf r) := by
  unfold kinds
  generalize Body.records = table at h ⊢
  induction table with
  | nil => cases h
  | cons x table ih =>
    rw [List.map_cons, lookup_cons_ite]
    rw [lookup_cons_ite] at h
    split at h
    · rename_i hname
      cases h
      exact if_pos hname
    · rename_i hname
      rw [if_neg hname]
      exact ih h

/-- **An event is decoded from its written form** if its free values are in sorted form and those
that may be left out are not `null`. -/
theorem decode_toJson {e : Event} (hs : ∀ j ∈ e.body.freeValues, j.Sorted)
    (hn : ∀ j ∈ e.body.optionalValues, j ≠ .null) (hr : ∀ j ∈ e.rawEvent, j.Sorted ∧ j ≠ .null)
    (ht : ∀ t ∈ e.timestamp, t < 2 ^ 64) : decode .text (Doc.ofJson e.toJson) = .ok e := by
  obtain ⟨r, hrecord, hfits⟩ := Body.fits_members hs hn
  have hx := mem_of_lookup hrecord
  have hdistinct := distinct_records hx
  obtain ⟨hnodup, hplain⟩ := records_fields _ hx
  have hothers : ∀ f ∈ r.fields, f.others = [] := fun f hf => (hplain f hf).1
  -- The names of the body's members are not reserved, and the others are.
  have hnames : ∀ m ∈ e.body.members, m.1 ∉ reserved := fun m hm => by
    obtain ⟨f, hf, he⟩ := List.mem_map.1 ((hfits hnodup).1.subset (List.mem_map_of_mem hm))
    exact he ▸ (hplain f hf).2
  have hbody : r.ofMembers false .setAside (Doc.ofMembers [] ++
      (Doc.ofMembers e.body.members ++ Doc.ofMembers e.carriedMembers)) = .ok e.body := by
    refine hfits.ofMembers (by decide) hdistinct (List.forall_mem_nil _) fun m hm =>
      unknown_plain hothers fun hmem => ?_
    obtain ⟨f, hf, he⟩ := List.mem_map.1 hmem
    exact (hplain f hf).2 (he ▸ mem_reserved hm)
  have hcarried : carried.ofMembers false .setAside (Doc.ofMembers e.body.members ++
      (Doc.ofMembers e.carriedMembers ++ Doc.ofMembers [])) = .ok (e.timestamp, e.rawEvent) := by
    have hfields : ∀ f ∈ carried.fields, f.others = [] := by decide
    refine (fits_carried ht hr).ofMembers (by decide) ⟨by decide, fun f hf =>
      isPrimary_plain hfields (List.mem_map_of_mem hf)⟩ (fun m hm => ?_)
      (List.forall_mem_nil _)
    exact unknown_plain hfields fun hmem => hnames m hm (List.mem_cons_of_mem _ hmem)
  rw [Doc.ofMembers, List.nil_append] at hbody
  rw [show Doc.ofMembers ([] : Members) = [] from rfl, List.append_nil] at hcarried
  rw [toJson_eq]
  show (setAside "type" kinds none ((some "type", .str e.kind) ::
    Doc.ofMembers (e.body.members ++ e.carriedMembers)) >>= _) = _
  have htag : ∀ m ∈ e.body.members ++ e.carriedMembers, m.1 ≠ "type" := by
    refine List.forall_mem_append.2 ⟨fun m hm he => hnames m hm (he ▸ List.mem_cons_self), ?_⟩
    intro m hm he
    have hmem := e.names_carriedMembers.subset (List.mem_map_of_mem hm)
    rw [he] at hmem
    revert hmem
    decide
  rw [setAside, if_pos rfl]
  simp only [readTag, Decoder.named, show kinds.lookup e.kind = _ from lookup_kinds hrecord]
  show (setAside "type" kinds (some (kindOf r)) _ >>= _) = _
  rw [setAside_ofMembers _ htag, Doc.ofMembers_append]
  show (r.ofMembers false .setAside _ >>= _) = _
  rw [hbody]
  show (carried.ofMembers false .setAside _ >>= _) = _
  rw [hcarried]
  rfl

/-! ## Events that can be written -/

/-- The free values that an event holds. -/
def freeValues (e : Event) : List Json := e.body.freeValues ++ e.rawEvent.toList

/-- The free values of an event that may be left out. -/
def optionalValues (e : Event) : List Json := e.body.optionalValues ++ e.rawEvent.toList

/-- The event holds no double. -/
def DoubleFree (e : Event) : Prop := ∀ j ∈ e.freeValues, j.DoubleFree

/-- An event that can be written and read again.  That its free values are in sorted form and its
integers in range is so of every event that a program can hold. -/
structure Portable (e : Event) : Prop where
  sorted : ∀ j ∈ e.freeValues, j.Sorted
  ranged : ∀ j ∈ e.freeValues, j.Ranged
  timestamp : ∀ t ∈ e.timestamp, t < 2 ^ 64
  doubleFree : e.DoubleFree
  /-- What is `null` is left out where it may be. -/
  given : ∀ j ∈ e.optionalValues, j ≠ .null
  shallow : e.toJson.depth ≤ Doc.nestingLimit

variable {e : Event}

theorem Portable.integral (h : e.Portable) : e.toJson.integral = true := by
  have hfree : ∀ j ∈ e.freeValues, j.integral = true := fun j hj =>
    Json.integral_of (h.doubleFree j hj) (h.ranged j hj)
  rw [toJson_eq]
  refine Json.integralMembers_iff.2 (List.forall_mem_cons.2 ⟨rfl, List.forall_mem_append.2
    ⟨Body.integral_members fun j hj => hfree j (List.mem_append_left _ hj), ?_⟩⟩)
  refine List.forall_mem_append.2 ⟨fun m hm => ?_, fun m hm => ?_⟩
  · obtain ⟨t, ht, hm⟩ := Option.map_eq_some_iff.1 (Json.mem_optional hm)
    have hlt : t < 18446744073709551616 := h.timestamp t ht
    rw [← hm]
    exact decide_eq_true ⟨by omega, by omega⟩
  · exact hfree _ (List.mem_append_right _ (Option.mem_toList.2 (Json.mem_optional hm)))

/-- **An event that can be written is read back from its bytes.** -/
theorem Portable.ofBytes_encode (h : e.Portable) : ofBytes e.encode = .ok e := by
  refine ofBytes_of_decode h.integral h.shallow (decode_toJson ?_ ?_ ?_ h.timestamp)
  · exact fun j hj => h.sorted j (List.mem_append_left _ hj)
  · exact fun j hj => h.given j (List.mem_append_left _ hj)
  · intro j hj
    have hmem : ∀ values, j ∈ values ++ e.rawEvent.toList := fun _ =>
      List.mem_append_right _ (Option.mem_toList.2 hj)
    exact ⟨h.sorted j (hmem _), h.given j (hmem _)⟩

/-! ## What is decoded -/

theorem readTag_ok {α : Type} {kinds : List (String × Kind α)} {d : Doc} {k : Kind α}
    (h : readTag kinds d = .ok k) : ∃ name, kinds.lookup name = some k := by
  cases d with
  | str name =>
    simp only [readTag, Decoder.named] at h
    split at h
    · rename_i hk
      cases h
      exact ⟨name, hk⟩
    · cases h
  | _ => cases h

/-- What is set aside is found among the members, and the kind in the table. -/
theorem setAside_ok {α : Type} {tag : String} {kinds : List (String × Kind α)}
    {kind : Option (Kind α)} {members : List (Option String × Doc)}
    {x : Option (Kind α) × List (Option String × Doc)}
    (h : setAside tag kinds kind members = .ok x) :
    (∀ m ∈ x.2, m ∈ members) ∧
      ∀ k, x.1 = some k → kind = some k ∨ ∃ name, kinds.lookup name = some k := by
  induction members generalizing kind x with
  | nil =>
    cases h
    exact ⟨List.forall_mem_nil _, fun k hk => .inl hk⟩
  | cons m members ih =>
    obtain ⟨name, d⟩ := m
    cases name with
    | none => cases h
    | some name =>
      rw [setAside.eq_def] at h
      simp only at h
      split at h
      · cases kind with
        | some k => cases h
        | none =>
          obtain ⟨k, hk, hx⟩ := of_bind_eq_ok h
          obtain ⟨hmem, hkind⟩ := ih hx
          refine ⟨fun m hm => List.mem_cons_of_mem _ (hmem m hm), fun k' hk' => .inr ?_⟩
          rcases hkind k' hk' with hsame | hfound
          · cases hsame
            exact readTag_ok hk
          · exact hfound
      · split at h
        · obtain ⟨y, hy, hx⟩ := of_bind_eq_ok h
          cases hx
          obtain ⟨hmem, hkind⟩ := ih hy
          refine ⟨fun m hm => ?_, hkind⟩
          rcases List.mem_cons.1 hm with rfl | hm
          · exact List.mem_cons_self
          · exact List.mem_cons_of_mem _ (hmem m hm)
        · cases h

/-- What an event may carry is held. -/
theorem keeps_carried (n : Nat) :
    carried.Keeps n fun c => (∀ t ∈ c.1, t < 2 ^ 64) ∧ ∀ j ∈ c.2, j.Held n ∧ j ≠ .null :=
  Keeps.seq
    (Keeps.map (keeps_optional _ (Decoder.keeps_option (Decoder.keeps_unsigned 64)) forall_mem_none)
      fun _ ht _ hr => ⟨ht, hr⟩)
    (keeps_optional _ (Decoder.keeps_option_any n) forall_mem_none)

/-- Only an object is decoded as an event; its body and what it may carry are read from its
members. -/
theorem decode_eq_ok {o : Origin} {d : Doc} (h : decode o d = .ok e) :
    ∃ members others, d = .obj members ∧ (∀ m ∈ others, m ∈ members) ∧
      ∃ x ∈ Body.records, x.2.ofMembers false .setAside others = .ok e.body ∧
        carried.ofMembers false .setAside others = .ok (e.timestamp, e.rawEvent) := by
  unfold decode tagged at h
  split at h
  · rename_i members
    obtain ⟨⟨kind, others⟩, hset, h⟩ := of_bind_eq_ok h
    obtain ⟨hmem, hkind⟩ := setAside_ok hset
    cases kind with
    | none => cases h
    | some k =>
      rcases hkind k rfl with hnone | ⟨name, hname⟩
      · cases hnone
      · obtain ⟨body, hx, rfl⟩ := lookup_kindOf hname
        obtain ⟨b, hb, h⟩ := of_bind_eq_ok h
        obtain ⟨c, hc, h⟩ := of_bind_eq_ok h
        cases h
        exact ⟨members, others, rfl, hmem, (name, body), hx, hb, hc⟩
  · cases h
  · -- A body is never read from an array.
    obtain ⟨k, hk, h⟩ := of_bind_eq_ok h
    obtain ⟨name, hname⟩ := readTag_ok hk
    obtain ⟨body, -, rfl⟩ := lookup_kindOf hname
    split at h <;> cases h
  · cases h

/-- An event is nested more deeply than its members. -/
theorem depth_toJson {n : Nat} (hb : Json.Everywhere (fun j => j.depth ≤ n) e.body.members)
    (hr : ∀ j ∈ e.rawEvent, j.depth ≤ n) : e.toJson.depth ≤ n + 1 := by
  rw [toJson_eq]
  refine Nat.succ_le_succ (Json.depthMembers_le.2 (List.forall_mem_cons.2 ⟨Nat.zero_le n,
    List.forall_mem_append.2 ⟨hb, List.forall_mem_append.2 ⟨fun m hm => ?_, fun m hm => ?_⟩⟩⟩))
  · obtain ⟨t, -, hm⟩ := Option.map_eq_some_iff.1 (Json.mem_optional hm)
    rw [← hm]
    exact Nat.zero_le n
  · exact hr _ (Json.mem_optional hm)

/-- **What is decoded can be written** unless it holds a double. -/
theorem portable_of_ofBytes {payload : Bytes} (h : ofBytes payload = .ok e) (hd : e.DoubleFree) :
    e.Portable := by
  obtain ⟨-, d, hread, hdecode⟩ := ofBytes_eq_ok.1 h
  have hwithin := Doc.within_read payload
  rw [hread] at hwithin
  obtain ⟨members, others, rfl, hmem, x, hx, hbody, hcarried⟩ := decode_eq_ok hdecode
  have hothers : ∀ m ∈ others, m.2.Within (Doc.nestingLimit - 1) := fun m hm =>
    Doc.withinMembers_iff.1 hwithin.2 m (hmem m hm)
  have hheld := (Body.keeps_records _ x hx).ofMembers hothers hbody
  obtain ⟨htime, hraw⟩ := (keeps_carried _).ofMembers hothers hcarried
  have hfree : ∀ j ∈ e.freeValues, j.Held (Doc.nestingLimit - 1) :=
    List.forall_mem_append.2 ⟨hheld.values, fun j hj => (hraw j (Option.mem_toList.1 hj)).1⟩
  refine ⟨fun j hj => (hfree j hj).sorted, fun j hj => (hfree j hj).ranged, htime, hd, ?_, ?_⟩
  · exact List.forall_mem_append.2 ⟨hheld.given, fun j hj => (hraw j (Option.mem_toList.1 hj)).2⟩
  · exact depth_toJson hheld.depth_members fun j hj => (hraw j hj).1.shallow

/-! ## Round trips -/

/-- **Events are read back.**  Every event that can be written is read back from its bytes.
Whatever bytes an event is read from, it can be written unless it holds a double, so what is written
of it is read as the same event. -/
theorem roundTrip (e : Event) :
    (e.Portable → ofBytes e.encode = .ok e) ∧
    ∀ payload, ofBytes payload = .ok e → e.DoubleFree →
      e.Portable ∧ ofBytes e.encode = .ok e :=
  ⟨Portable.ofBytes_encode, fun _ h hd =>
    have hportable := portable_of_ofBytes h hd
    ⟨hportable, hportable.ofBytes_encode⟩⟩

/-- A message of a user who has called a tool. -/
def calling : Message :=
  { role := .user, content := some (.arr []), toolCalls := [⟨"c", "function", ⟨"f", ""⟩⟩] }

/-- Bytes that list the message under other names, with its role as an object, its tool call as an
array, a member that is not known, and the kind behind the others. -/
def callingBytes : Bytes :=
  utf8 ("\x7b\"timestamp\":7,\"messages\":[\x7b\"role\":\x7b\"user\":null\x7d,\"parts\":[],"
    ++ "\"tool_calls\":[[\"c\",\"function\",[\"f\"]]]\x7d],\"more\":[0],\"rawEvent\":null,"
    ++ "\"type\":\"MESSAGES_SNAPSHOT\"\x7d")

/-- The event that these bytes say is read back from other bytes. -/
theorem roundTrip_calling :
    let e : Event := { body := .messagesSnapshot [calling], timestamp := some 7 }
    ofBytes callingBytes = .ok e ∧ e.encode ≠ callingBytes ∧ ofBytes e.encode = .ok e := by
  intro e
  have hread : ofBytes callingBytes = .ok e := by decide +kernel
  have hfree : e.DoubleFree := by
    intro j hj
    obtain rfl : j = .arr [] := List.mem_singleton.1 hj
    exact fun _ => List.not_mem_nil
  exact ⟨hread, by decide +kernel, ((roundTrip e).2 callingBytes hread hfree).2⟩

end Event

end AgentStream
