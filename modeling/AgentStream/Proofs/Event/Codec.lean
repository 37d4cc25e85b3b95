/-
# Events as they are written and read

The kind of an event stands first in its written form, so whatever else becomes of the bytes of
an event, what is decoded from them is of its kind.  The events that make up the frames of texts
and tool calls carry nothing but strings and are decoded as they were.

* `decodeText_eq_ok` : when a text is decoded;
* `Record.Yields` : what a record can be decoded as;
* `Event.ofBytes_kind` : the kind of what is decoded;
* `Event.ofBytes_frame` : the events of frames are read back.
-/
import AgentStream.Event.Codec
import AgentStream.Proofs.Json.RoundTrip

namespace AgentStream

/-- What succeeds in two steps succeeds in each. -/
theorem of_bind_eq_ok {ε α β : Type} {x : Except ε α} {f : α → Except ε β} {b : β}
    (h : x >>= f = .ok b) : ∃ a, x = .ok a ∧ f a = .ok b := by
  cases x with
  | error e => cases h
  | ok a => exact ⟨a, rfl, h⟩

/-- A text is decoded if it is read to its end and its document is decoded. -/
theorem decodeText_eq_ok {α : Type} {dec : Decoder α} {text : Bytes} {a : α} :
    decodeText dec text = .ok a ↔ ∃ d, Doc.read text = (d, some []) ∧ dec .text d = .ok a := by
  obtain ⟨⟨d, rest⟩, hread⟩ : ∃ x, Doc.read text = x := ⟨_, rfl⟩
  simp only [decodeText, hread]
  cases hd : dec .text d with
  | error fault =>
    refine ⟨nofun, ?_⟩
    rintro ⟨_, ⟨⟩, ha⟩
    cases hd.symm.trans ha
  | ok a' =>
    simp only
    constructor
    · intro h
      split at h
      · rename_i hrest
        cases h
        exact ⟨d, Prod.ext rfl hrest, hd⟩
      · cases h
    · rintro ⟨_, ⟨⟩, ha⟩
      rw [if_pos rfl]
      exact hd.symm.trans ha

/-! ## What records yield -/

namespace Record

variable {α β : Type}

/-- Whatever a record is read from, what it is read as has a property. -/
def Yields (P : α → Prop) (r : Record α) : Prop := ∀ g a, r.read g = .ok a → P a

theorem yields_map {P : β → Prop} (f : α → β) (x : Record α) (h : ∀ a, P (f a)) :
    Yields P (f <$> x) := by
  intro g b hb
  change (x.read g).map f = .ok b at hb
  cases hx : x.read g with
  | error e =>
    rw [hx] at hb
    cases hb
  | ok a =>
    rw [hx] at hb
    cases hb
    exact h a

theorem yields_seq {P : β → Prop} {f : Record (α → β)} (x : Record α)
    (h : Yields (fun f => ∀ a, P (f a)) f) : Yields P (f <*> x) := by
  intro g b hb
  change (f.seq x).read g = .ok b at hb
  simp only [seq] at hb
  split at hb
  · rename_i f' a hf hx
    cases hb
    exact h g f' hf a
  all_goals cases hb

theorem Yields.ofMembers {P : α → Prop} {r : Record α} (h : Yields P r) {closed : Bool}
    {o : Origin} {members : List (Option String × Doc)} {a : α}
    (ha : r.ofMembers closed o members = .ok a) : P a := by
  simp only [Record.ofMembers] at ha
  split at ha
  · rename_i a' hr _
    cases ha
    exact h _ _ hr
  all_goals cases ha

end Record

/-! ## Kinds -/

/-- Every kind of event is decoded as a body of that kind. -/
theorem records_kind : ∀ x ∈ Body.records, x.2.Yields fun b => b.kind = x.1 := by
  intro x hx
  simp only [Body.records, List.mem_cons, List.not_mem_nil, or_false] at hx
  rcases hx with rfl | rfl | rfl | rfl | rfl | rfl | rfl | rfl | rfl | rfl | rfl | rfl | rfl | rfl
    | rfl | rfl | rfl | rfl | rfl | rfl
  -- Each record applies one constructor to its fields, so its kind is that of the constructor.
  all_goals
    repeat refine Record.yields_seq _ ?_
    refine Record.yields_map _ _ ?_
    intros
    rfl

/-! ## Tags -/

section Tags

variable {α : Type} {tag : String} {kinds : List (String × Kind α)}

/-- Behind the tag the kind stays what it is. -/
theorem setAside_some {k : Kind α} {members : List (Option String × Doc)}
    {x : Option (Kind α) × List (Option String × Doc)}
    (h : setAside tag kinds (some k) members = .ok x) : x.1 = some k := by
  induction members generalizing x with
  | nil =>
    cases h
    rfl
  | cons m members ih =>
    obtain ⟨name, d⟩ := m
    cases name with
    | none => cases h
    | some name =>
      rw [setAside] at h
      split at h
      · cases h
      · split at h
        · obtain ⟨y, hy, hx⟩ := of_bind_eq_ok h
          cases hx
          exact (ih hy : y.1 = some k)
        · cases h

/-- An object that tells its kind first is of that kind. -/
theorem tagged_first {o : Origin} {name : String} {members : List (Option String × Doc)} {a : α}
    (h : tagged tag kinds o (.obj ((some tag, .str name) :: members)) = .ok a) :
    ∃ kind others, kinds.lookup name = some kind ∧ kind.ofMembers others = .ok a := by
  obtain ⟨x, hx, ha⟩ := of_bind_eq_ok h
  rw [setAside, if_pos rfl] at hx
  obtain ⟨kind, hkind, hx⟩ := of_bind_eq_ok hx
  have hs := setAside_some hx
  obtain ⟨kind', others⟩ := x
  cases hs
  refine ⟨kind, others, ?_, ha⟩
  rw [readTag, Decoder.named] at hkind
  split at hkind
  · rename_i hk
    cases hkind
    exact hk
  · cases hkind

end Tags

/-! ## Events -/

namespace Event

theorem encode_ne_nil (e : Event) : e.encode.isEmpty = false := by
  rw [encode, Json.encode, toJson, Json.utf8_obj]
  rfl

/-- The kinds of event by name, each with the body that it is decoded as. -/
theorem lookup_kindOf {name : String} {kind : Kind Event}
    (h : (Body.records.map fun (name, body) => (name, kindOf body)).lookup name = some kind) :
    ∃ body, (name, body) ∈ Body.records ∧ kind = kindOf body := by
  generalize Body.records = table at h
  induction table with
  | nil => cases h
  | cons x table ih =>
    rw [List.map_cons, List.lookup_cons] at h
    split at h
    · rename_i hn
      cases h
      exact ⟨x.2, by rw [beq_iff_eq.1 hn]; exact List.mem_cons_self, rfl⟩
    · obtain ⟨body, hb, hk⟩ := ih h
      exact ⟨body, List.mem_cons_of_mem x hb, hk⟩

/-- Bytes are an event if they are read to their end and their document says it. -/
theorem ofBytes_eq_ok {bytes : Bytes} {e : Event} :
    ofBytes bytes = .ok e ↔ bytes.isEmpty = false ∧ ∃ d, Doc.read bytes = (d, some []) ∧
      decode .text d = .ok e := by
  rw [ofBytes, ← decodeText_eq_ok]
  cases bytes.isEmpty with
  | true => exact ⟨nofun, fun h => nomatch h.1⟩
  | false => cases decodeText decode bytes <;> simp [Except.mapError]

/-- **What is decoded from the bytes of an event has its kind.** -/
theorem ofBytes_kind {e e' : Event} (h : ofBytes e.encode = .ok e') : e'.kind = e.kind := by
  obtain ⟨ms, rest, hread⟩ : ∃ ms rest,
      Doc.read e.encode = (.obj ((some "type", .str e.kind) :: ms), rest) :=
    Doc.read_tagged "type" e.kind _
  obtain ⟨-, d, hd, hdecode⟩ := ofBytes_eq_ok.1 h
  rw [hread] at hd
  cases hd
  obtain ⟨kind, others, hkind, he⟩ := tagged_first hdecode
  obtain ⟨body, hmem, rfl⟩ := lookup_kindOf hkind
  -- The timestamp and the raw event are read beside the body and leave its kind alone.
  obtain ⟨b, hb, he⟩ := of_bind_eq_ok he
  obtain ⟨carried, -, he⟩ := of_bind_eq_ok he
  cases he
  exact (records_kind _ hmem).ofMembers hb

/-- The bytes of a value that can be read are decoded as their document is. -/
theorem ofBytes_of_decode {e : Event} (hi : e.toJson.integral = true)
    (hd : e.toJson.depth ≤ Doc.nestingLimit) (h : decode .text (Doc.ofJson e.toJson) = .ok e) :
    ofBytes e.encode = .ok e :=
  ofBytes_eq_ok.2 ⟨e.encode_ne_nil, _, Doc.read_encode hi hd, h⟩

end Event

/-- The body is part of the frame of a text or of a tool call, or gives the result of one. -/
def Body.isFrame : Body → Bool
  | textStart .. => true
  | textContent .. => true
  | textEnd .. => true
  | toolStart .. => true
  | toolArgs .. => true
  | toolEnd .. => true
  | toolResult .. => true
  | _ => false

namespace Event

/-- The events of frames are read back. -/
theorem ofBytes_frame {b : Body} (hb : b.isFrame = true) :
    ofBytes (b : Event).encode = .ok b := by
  have hd : 1 ≤ Doc.nestingLimit := by decide
  cases b with
  | textStart id role => cases role <;> exact ofBytes_of_decode rfl hd rfl
  | textContent id delta => exact ofBytes_of_decode rfl hd rfl
  | textEnd id => exact ofBytes_of_decode rfl hd rfl
  | toolStart id name parent => cases parent <;> exact ofBytes_of_decode rfl hd rfl
  | toolArgs id delta => exact ofBytes_of_decode rfl hd rfl
  | toolEnd id => exact ofBytes_of_decode rfl hd rfl
  | toolResult messageId callId content role =>
    cases role with
    | none => exact ofBytes_of_decode rfl hd rfl
    | some role => cases role <;> exact ofBytes_of_decode rfl hd rfl
  | _ => cases hb

end Event

end AgentStream
