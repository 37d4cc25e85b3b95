/-
# Requests under other names

The fields of a request and of its messages go by several names.  Which of them are given makes no
difference to the request that is decoded, nor to the fault if there is one.

* `Message.Respelled`, `Request.Respelled` : a document under other names of the fields;
* `Request.Respelled.decode` : it is decoded alike;
* `Request.Refused` : fields that are given twice, and members that are not known;
* `Request.Refused.decode` : there is a fault.
-/
import AgentStream.Proofs.Json.Spelling
import AgentStream.Request

namespace AgentStream

open Record

namespace Decoder

variable {α : Type} {dec : Decoder α} {o : Origin}

/-- Items that are decoded alike make the same list. -/
theorem items_congr {items items' : List Doc}
    (h : List.Forall₂ (fun d d' => dec o d = dec o d') items items') :
    Decoder.items dec o items = Decoder.items dec o items' := by
  induction h with
  | nil => rfl
  | cons hd _ ih => rw [Decoder.items, Decoder.items, hd, ih]

/-- Every item of a list that is decoded is. -/
theorem items_ok {items : List Doc} {as : List α} (h : Decoder.items dec o items = .ok as) :
    ∀ d ∈ items, ∃ a, dec o d = .ok a := by
  induction items generalizing as with
  | nil => exact List.forall_mem_nil _
  | cons d items ih =>
    obtain ⟨a, ha, h⟩ := of_bind_eq_ok h
    obtain ⟨rest, hrest, -⟩ := of_bind_eq_ok h
    exact List.forall_mem_cons.2 ⟨⟨a, ha⟩, ih hrest⟩

end Decoder

/-- Every record is read alike from the same values. -/
theorem Record.respects_eq {α : Type} (r : Record α) : r.Respects fun _ => Eq := by
  intro o positional count slots slots' h
  have hsame : slots = slots' := by
    refine List.forall₂_eq_eq_eq ▸ h.imp fun x x' hx => ?_
    exact Prod.ext hx.1 (Prod.ext hx.2.1 hx.2.2)
  rw [hsame]

/-! ## Messages -/

namespace Message

/-- A message under other names of its fields. -/
inductive Respelled : Doc → Doc → Prop
  | same (d : Doc) : Respelled d d
  | object {members members' : List (Option String × Doc)} :
      Record.Respelled record.fields (fun _ => Eq) members members' →
      Respelled (.obj members) (.obj members')

theorem apart_fields : Apart record.fields := by decide

theorem Respelled.decode {d d' : Doc} (h : Respelled d d') (o : Origin) :
    Message.decode o d = Message.decode o d' := by
  cases h with
  | same => rfl
  | object hm =>
    exact ofMembers_respelled apart_fields (fun _ _ => rfl) (respects_eq record) hm false o

end Message

/-! ## Requests -/

namespace Request

/-- The value of a field, with other names of fields in the messages. -/
inductive SameValue (name : String) : Doc → Doc → Prop
  | same (d : Doc) : SameValue name d d
  | messages {items items' : List Doc} : name = "messages" →
      List.Forall₂ Message.Respelled items items' → SameValue name (.arr items) (.arr items')

/-- A request under other names of its fields and of those of its messages. -/
inductive Respelled : Doc → Doc → Prop
  | object {members members' : List (Option String × Doc)} :
      Record.Respelled record.fields SameValue members members' →
      Respelled (.obj members) (.obj members')

theorem apart_fields : Apart record.fields := by decide

theorem SameValue.eq {name : String} {d d' : Doc} (h : SameValue name d d')
    (hname : name ≠ "messages") : d = d' := by
  cases h with
  | same => rfl
  | messages he => exact absurd he hname

theorem SameValue.list {name : String} {d d' : Doc} (h : SameValue name d d') (o : Origin) :
    Decoder.list Message.decode o d = Decoder.list Message.decode o d' := by
  cases h with
  | same => rfl
  | messages _ hitems => exact Decoder.items_congr (hitems.imp fun _ _ hd => hd.decode o)

/-- The fields of a request are read alike from its messages under other names. -/
theorem respects_record : record.Respects SameValue := by
  have hplain {α : Type} (name : FieldName) (hname : name.primary ≠ "messages") (dec : Decoder α)
      (absence : Absence α) : (field name dec absence).Respects SameValue :=
    respects_field fun o d d' h => by rw [h.eq hname]
  exact respects_seq (respects_seq (respects_seq (respects_seq (respects_seq (respects_seq
    (respects_seq (respects_map mk (hplain _ (by decide) _ _))
      (hplain _ (by decide) _ _))
      (hplain _ (by decide) _ _))
      (respects_field fun o _ _ h => h.list o))
      (hplain _ (by decide) _ _))
      (hplain _ (by decide) _ _))
      (hplain _ (by decide) _ _))
      (hplain _ (by decide) _ _)

/-- **A request is decoded alike under other names.** -/
theorem Respelled.decode {d d' : Doc} (h : Respelled d d') (o : Origin) :
    Request.decode o d = Request.decode o d' := by
  cases h with
  | object hm =>
    exact ofMembers_respelled apart_fields (fun _ d => .same d) respects_record hm true o

/-- What is never a request: an object that gives a field twice, that has a member which is not
known, or with a message that gives a field twice. -/
inductive Refused : Doc → Prop
  | twice {members : List (Option String × Doc)} : Twice record.fields members →
      Refused (.obj members)
  | strange {members : List (Option String × Doc)} {m : Option String × Doc} : m ∈ members →
      Strange record.fields m → Refused (.obj members)
  | message {members given : List (Option String × Doc)} {items : List Doc} :
      (some "messages", .arr items) ∈ members → .obj given ∈ items →
      Twice Message.record.fields given → Refused (.obj members)

/-- The messages that a request gives are decoded with it. -/
theorem decode_messages {members : List (Option String × Doc)} {items : List Doc} {o : Origin}
    {r : Request} (h : decode o (.obj members) = .ok r)
    (hm : (some "messages", .arr items) ∈ members) :
    ∀ d ∈ items, ∃ m, Message.decode o d = .ok m := by
  obtain ⟨filled, hscan, hread⟩ := ofMembers_ok h
  obtain ⟨k, hslot⟩ := scan_lookup apart_fields hscan (f := plain "messages") (by decide)
    (by decide) hm
  simp only [record, read_seq_iff, read_map_iff] at hread
  obtain ⟨-, -, ⟨-, -, ⟨-, -, ⟨-, -, ⟨-, messages, -, hmessages, -⟩, -⟩, -⟩, -⟩, -⟩ := hread
  have hlist : Decoder.list Message.decode o (.arr items) = .ok messages :=
    field_ok hslot hmessages
  exact Decoder.items_ok hlist

/-- **What gives a field twice or has unknown members is never a request.** -/
theorem Refused.decode {d : Doc} (h : Refused d) (o : Origin) (r : Request) :
    Request.decode o d ≠ .ok r := by
  cases h with
  | twice h => exact ofMembers_twice apart_fields h
  | strange hm h => exact ofMembers_strange hm h
  | message hm hgiven h =>
    intro hok
    obtain ⟨m, hdecode⟩ := decode_messages hok hm _ hgiven
    exact ofMembers_twice Message.apart_fields h hdecode

end Request

end AgentStream
