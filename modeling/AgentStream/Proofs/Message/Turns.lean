/-
# The requests that make a turn

A request makes a turn just if its last message is of one of three forms: a user's text, a list of
parts from a user, or the result of a tool call that is named.  The parts of a list are told from
each other and read one by one, and the first that is not of a form that is known decides why a list
is refused.

* `Part.Accepted` : the items of a list, each with the engine's part for it;
* `Turn.part_eq_ok`, `Turn.parts_eq_ok`, `Turn.parts_eq_error` : what a list is read as;
* `Turn.Made` : the messages that make a turn, and the turns;
* `Turn.ofMessages_made` : the requests that make a turn, and why a list makes none.
-/
import Mathlib.Data.List.ReduceOption
import AgentStream.Proofs.Json.Accepted
import AgentStream.Turn

namespace AgentStream

/-! ## Parts -/

/-- The items of a list of contents, each with the engine's part for it.  A text is taken as it
stands; something binary has an address, and the kind that is declared for it, or none. -/
inductive Part.Accepted : Json → Engine.Part → Prop
  | text {members : Members} {text : String}
      (kind : (plain "type").values members = [.str "text"])
      (given : (plain "text").values members = [.str text]) :
      Accepted (.obj members) (.text text)
  | binary {members : Members} {url mimeType : String}
      (kind : (plain "type").values members = [.str "binary"])
      (given : (plain "url").values members = [.str url]) (named : url ≠ "")
      (mime : (spelled "mimeType" ["mime_type"]).values members = [.str mimeType] ∨
        (spelled "mimeType" ["mime_type"]).values members = [] ∧ mimeType = "")
      (others : ∀ name ∈ ["id", "data", "filename"], ∃ v, (plain name).Holds members v) :
      Accepted (.obj members) (.image url "" mimeType)

namespace Part

variable {members : Members}

theorem apart_textRecord : Record.Apart textRecord.fields := by decide

theorem apart_binaryRecord : Record.Apart binaryRecord.fields := by decide

/-- What is accepted as a text once its kind is told. -/
theorem textRecord_accepted {p : Part} :
    textRecord.kind.ofMembers (Doc.ofMembers (members.filter fun m => m.1 ≠ "type")) = .ok p ↔
      ∃ t, (plain "text").values members = [.str t] ∧ text t = p := by
  refine Record.kind_accepted apart_textRecord (by decide) (fun g hg => ?_) ?_
  · rw [textRecord, Record.read_map_iff]
    simp only [Record.read_required_iff hg List.mem_cons_self]
  · rintro ⟨t, ht, -⟩ f hf
    obtain rfl := List.mem_singleton.1 hf
    rw [ht]
    exact Nat.le_refl 1

/-- The values of a binary part. -/
structure BinaryGiven (members : Members) (mimeType : String)
    (id url data filename : Option String) : Prop where
  mimeType : (spelled "mimeType" ["mime_type"]).values members = [.str mimeType] ∨
    (spelled "mimeType" ["mime_type"]).values members = [] ∧ mimeType = ""
  id : (plain "id").Holds members id
  url : (plain "url").Holds members url
  data : (plain "data").Holds members data
  filename : (plain "filename").Holds members filename

/-- None of them is given twice. -/
theorem BinaryGiven.once {mimeType : String} {id url data filename : Option String}
    (h : BinaryGiven members mimeType id url data filename) :
    ∀ f ∈ binaryRecord.fields, (f.values members).length ≤ 1 := by
  have hfields : binaryRecord.fields = [spelled "mimeType" ["mime_type"], plain "id", plain "url",
      plain "data", plain "filename"] := rfl
  simp only [hfields, List.forall_mem_cons]
  refine ⟨?_, h.id.once, h.url.once, h.data.once, h.filename.once, List.forall_mem_nil _⟩
  rcases h.mimeType with hmime | ⟨hmime, -⟩
  · rw [hmime]
    exact Nat.le_refl 1
  · rw [hmime]
    exact Nat.zero_le 1

/-- What is accepted as something binary once its kind is told. -/
theorem binaryRecord_accepted {p : Part} :
    binaryRecord.kind.ofMembers (Doc.ofMembers (members.filter fun m => m.1 ≠ "type")) = .ok p ↔
      ∃ mimeType id url data filename, BinaryGiven members mimeType id url data filename ∧
        binary mimeType id url data filename = p := by
  refine Record.kind_accepted apart_binaryRecord (by decide) (fun g hg => ?_) ?_
  · have hmime {s : String} := Record.read_defaulted_iff (s := s) hg
      (f := spelled "mimeType" ["mime_type"]) (by decide) (a := "")
    have hstring (name : String) (hf : plain name ∈ binaryRecord.fields) {v : Option String} :=
      Record.read_omittable_iff (v := v) hg hf
    have hid {v : Option String} := hstring "id" (by decide) (v := v)
    have hurl {v : Option String} := hstring "url" (by decide) (v := v)
    have hdata {v : Option String} := hstring "data" (by decide) (v := v)
    have hfilename {v : Option String} := hstring "filename" (by decide) (v := v)
    simp only [binaryRecord, Record.read_seq_iff, Record.read_map_iff, hmime, hid, hurl, hdata,
      hfilename]
    constructor
    · rintro ⟨-, filename, ⟨-, data, ⟨-, url, ⟨-, id, ⟨mimeType, hm, rfl⟩, hi, rfl⟩, hu, rfl⟩,
        hd, rfl⟩, hn, rfl⟩
      exact ⟨mimeType, id, url, data, filename, ⟨hm, hi, hu, hd, hn⟩, rfl⟩
    · rintro ⟨mimeType, id, url, data, filename, ⟨hm, hi, hu, hd, hn⟩, rfl⟩
      exact ⟨_, filename, ⟨_, data, ⟨_, url, ⟨_, id, ⟨mimeType, hm, rfl⟩, hi, rfl⟩, hu, rfl⟩,
        hd, rfl⟩, hn, rfl⟩
  · rintro ⟨mimeType, id, url, data, filename, hgiven, -⟩
    exact hgiven.once

/-- **What is accepted as a part** of either kind. -/
theorem decode_eq_ok {p : Part} : decodeJson decode (.obj members) = .ok p ↔
    ((plain "type").values members = [.str "text"] ∧
      ∃ t, (plain "text").values members = [.str t] ∧ text t = p) ∨
    ((plain "type").values members = [.str "binary"] ∧
      ∃ mimeType id url data filename, BinaryGiven members mimeType id url data filename ∧
        binary mimeType id url data filename = p) := by
  rw [decodeJson, decode, tagged_eq_ok]
  constructor
  · rintro ⟨kind, k, htold, hk, h⟩
    rw [lookup_cons_ite, lookup_cons_ite] at hk
    by_cases htext : kind = "text"
    · rw [if_pos htext] at hk
      cases hk
      exact .inl ⟨htext ▸ htold, textRecord_accepted.1 h⟩
    · rw [if_neg htext] at hk
      by_cases hbinary : kind = "binary"
      · rw [if_pos hbinary] at hk
        cases hk
        exact .inr ⟨hbinary ▸ htold, binaryRecord_accepted.1 h⟩
      · rw [if_neg hbinary] at hk
        cases hk
  · rintro (⟨htold, h⟩ | ⟨htold, h⟩)
    · exact ⟨"text", _, htold, rfl, textRecord_accepted.2 h⟩
    · exact ⟨"binary", _, htold, rfl, binaryRecord_accepted.2 h⟩

end Part

namespace Turn

/-- The kind that the engine's part is chosen by is the first one that is told. -/
theorem kind_of_values {members : Members} {kind : String}
    (h : (plain "type").values members = [.str kind]) :
    (((Json.obj members).get? "type").bind Json.asString?).getD "" = kind := by
  rw [Json.get?, FieldName.lookup_eq_head?, h]
  rfl

/-- Something binary makes a part only if it has an address. -/
theorem accepted_binary {members : Members} {mimeType : String}
    {id url data filename : Option String} {p : Engine.Part}
    (hkind : (plain "type").values members = [.str "binary"])
    (hgiven : Part.BinaryGiven members mimeType id url data filename)
    (h : (if (url.getD "").isEmpty then .error TurnError.missingBinaryUrl
      else .ok (.image (url.getD "") "" mimeType)) = Except.ok p) :
    Part.Accepted (.obj members) p := by
  split at h
  · cases h
  · rename_i hne
    cases h
    cases url with
    | none => exact absurd rfl hne
    | some url =>
      have hurl : (plain "url").values members = [.str url] := by
        rcases hgiven.url with hurl | ⟨-, hnone⟩
        · exact hurl
        · cases hnone
      refine .binary hkind hurl (fun he => hne (String.isEmpty_iff.2 he)) hgiven.mimeType ?_
      simp only [List.forall_mem_cons]
      exact ⟨⟨id, hgiven.id⟩, ⟨data, hgiven.data⟩, ⟨filename, hgiven.filename⟩,
        List.forall_mem_nil _⟩

/-- **An item makes a part** just if it is one of the known forms. -/
theorem part_eq_ok {item : Json} {p : Engine.Part} :
    part item = .ok p ↔ Part.Accepted item p := by
  constructor
  · intro h
    unfold part at h
    cases item with
    | obj members =>
      simp only at h
      split at h
      · split at h
        · cases h
        · rename_i t hdecode
          cases h
          rcases Part.decode_eq_ok.1 hdecode with ⟨hkind, t', ht, he⟩ | ⟨-, _, _, _, _, _, -, he⟩
          · cases he
            exact .text hkind ht
          · cases he
        · rename_i mimeType id url data filename hdecode
          rcases Part.decode_eq_ok.1 hdecode with ⟨-, _, -, he⟩ | ⟨hkind, _, _, _, _, _, hgiven, he⟩
          · cases he
          · cases he
            exact accepted_binary hkind hgiven h
      · cases h
    | _ => cases h
  · rintro (⟨hkind, ht⟩ | ⟨hkind, hurl, hne, hmime, hothers⟩)
    · rw [part, kind_of_values hkind]
      simp only [Part.decode_eq_ok.2 (.inl ⟨hkind, _, ht, rfl⟩)]
      rfl
    · obtain ⟨id, hid⟩ := hothers "id" (by decide)
      obtain ⟨data, hdata⟩ := hothers "data" (by decide)
      obtain ⟨filename, hfilename⟩ := hothers "filename" (by decide)
      have hgiven : Part.BinaryGiven _ _ id (some _) data filename :=
        ⟨hmime, hid, .inl hurl, hdata, hfilename⟩
      rw [part, kind_of_values hkind]
      simp only [Part.decode_eq_ok.2 (.inr ⟨hkind, _, _, _, _, _, hgiven, rfl⟩)]
      exact if_neg fun hempty => hne (String.isEmpty_iff.1 hempty)

/-! ## Lists of parts -/

/-- **A list makes parts** just if every item makes one, in order. -/
theorem parts_eq_ok {items : List Json} {ps : List Engine.Part} :
    parts items = .ok ps ↔ List.Forall₂ Part.Accepted items ps := by
  induction items generalizing ps with
  | nil =>
    constructor
    · intro h
      cases h
      exact .nil
    · intro h
      cases h
      rfl
  | cons item items ih =>
    rw [parts]
    constructor
    · intro h
      obtain ⟨p, hp, h⟩ := of_bind_eq_ok h
      obtain ⟨rest, hrest, h⟩ := of_bind_eq_ok h
      cases h
      exact .cons (part_eq_ok.1 hp) (ih.1 hrest)
    · intro h
      cases h with
      | cons hp hrest =>
        rw [part_eq_ok.2 hp, ih.2 hrest]
        rfl

/-- **A list is refused for its first bad item.** -/
theorem parts_eq_error {items : List Json} {e : TurnError} : parts items = .error e ↔
    ∃ front bad behind, items = front ++ bad :: behind ∧
      (∀ item ∈ front, ∃ p, Part.Accepted item p) ∧ part bad = .error e := by
  induction items with
  | nil => exact ⟨nofun, fun ⟨front, _, _, h, _⟩ => by cases front <;> cases h⟩
  | cons item items ih =>
    rw [parts]
    cases hitem : part item with
    | error e' =>
      constructor
      · intro h
        cases h
        exact ⟨[], item, items, rfl, List.forall_mem_nil _, hitem⟩
      · rintro ⟨front, bad, behind, h, hfront, hbad⟩
        cases front with
        | nil =>
          cases h
          cases hitem.symm.trans hbad
          rfl
        | cons first front =>
          cases h
          obtain ⟨p, hp⟩ := hfront item List.mem_cons_self
          cases hitem.symm.trans (part_eq_ok.2 hp)
    | ok p =>
      have hrest : (Except.ok p >>= fun p => parts items >>= fun ps => pure (p :: ps)) = .error e ↔
          parts items = .error e := by
        cases parts items with
        | ok ps => exact ⟨nofun, nofun⟩
        | error e' => exact Iff.rfl
      refine hrest.trans (ih.trans ⟨?_, ?_⟩)
      · rintro ⟨front, bad, behind, rfl, hfront, hbad⟩
        exact ⟨item :: front, bad, behind, rfl,
          List.forall_mem_cons.2 ⟨⟨p, part_eq_ok.1 hitem⟩, hfront⟩, hbad⟩
      · rintro ⟨front, bad, behind, h, hfront, hbad⟩
        cases front with
        | nil =>
          cases h
          cases hitem.symm.trans hbad
        | cons first front =>
          cases h
          exact ⟨front, bad, behind, rfl, (List.forall_mem_cons.1 hfront).2, hbad⟩

/-- What is written for a part is read as the part, unless it is binary and has no address. -/
theorem part_sorted (p : Part) :
    (∃ q, part p.toJson.sorted = .ok q) ∨ part p.toJson.sorted = .error .missingBinaryUrl := by
  cases p with
  | text t => exact .inl ⟨.text t, rfl⟩
  | binary mimeType id url data filename =>
    have hread : part (Part.binary mimeType id url data filename).toJson.sorted
        = if (url.getD "").isEmpty then .error .missingBinaryUrl
          else .ok (.image (url.getD "") "" mimeType) := by
      cases id <;> cases url <;> cases data <;> cases filename <;> rfl
    rw [hread]
    split
    · exact .inr rfl
    · exact .inl ⟨_, rfl⟩

/-- A list of parts that a client has written is refused only for an address that is missing. -/
theorem parts_sorted (given : List Part) :
    (∃ ps, parts (given.map fun p => p.toJson.sorted) = .ok ps) ∨
      parts (given.map fun p => p.toJson.sorted) = .error .missingBinaryUrl := by
  cases h : parts (given.map fun p => p.toJson.sorted) with
  | ok ps => exact .inl ⟨ps, rfl⟩
  | error e =>
    obtain ⟨front, bad, behind, hitems, -, hbad⟩ := parts_eq_error.1 h
    obtain ⟨p, -, rfl⟩ := List.mem_map.1 (hitems ▸ List.mem_append_right front List.mem_cons_self)
    rcases part_sorted p with ⟨q, hq⟩ | hmissing
    · cases hq.symm.trans hbad
    · exact .inr (congrArg Except.error (Except.error.inj (hbad.symm.trans hmissing)))

/-! ## Messages -/

/-- The id of a turn is the one that its message has, unless that is empty, or a fresh one. -/
def idOf (fresh : String) (last : Message) : String := (last.id.filter (· ≠ "")).getD fresh

/-- The name of the tool of a result is the first that is given and not empty. -/
def toolNameOf (last : Message) : String :=
  ([last.toolName, last.name].reduceOption.find? (· ≠ "")).getD ""

/-- The messages that make a turn, each with the turn. -/
inductive Made (fresh : String) (last : Message) : Turn → Prop
  | text {text : String} (role : last.role = .user) (content : last.content = some (.str text)) :
      Made fresh last
        ⟨{ role := .user, content := text }, idOf fresh last,
          .user { last with id := some (idOf fresh last) }⟩
  | parts {items : List Json} {ps : List Engine.Part} (role : last.role = .user)
      (content : last.content = some (.arr items))
      (accepted : List.Forall₂ Part.Accepted items ps) :
      Made fresh last
        ⟨{ role := .user, parts := ps }, idOf fresh last,
          .user { last with id := some (idOf fresh last) }⟩
  | tool {callId result : String} (role : last.role = .tool)
      (call : last.toolCallId = some callId) (named : callId ≠ "")
      (content : last.content = some (.str result)) :
      Made fresh last
        ⟨{ role := .tool, content := result, toolId := callId, toolName := toolNameOf last },
          idOf fresh last, .tool callId result⟩

variable {fresh : String} {last : Message} {t : Turn}

theorem idOf_eq : (if (last.id.getD "").isEmpty then fresh else last.id.getD "")
    = idOf fresh last := by
  rw [idOf]
  cases last.id with
  | none => rfl
  | some id => by_cases hid : id = "" <;> simp [hid, Option.filter]

theorem firstName_eq : firstName last.toolName last.name = toolNameOf last := by
  rw [firstName, toolNameOf]
  cases last.toolName <;> cases last.name <;>
    simp [List.reduceOption_cons_of_some, List.reduceOption_cons_of_none] <;> grind

/-- What a user's content is made into. -/
theorem userMessage_eq_ok {content : Option Json} {m : Engine.Message} :
    userMessage content = .ok m ↔
      (∃ text, content = some (.str text) ∧ m = .user text) ∨
      ∃ items ps, content = some (.arr items) ∧ List.Forall₂ Part.Accepted items ps ∧
        m = .userParts ps := by
  unfold userMessage
  split
  · simp [eq_comm]
  · rename_i items
    constructor
    · intro h
      cases hparts : parts items with
      | error e =>
        rw [hparts] at h
        cases h
      | ok ps =>
        rw [hparts] at h
        cases h
        exact .inr ⟨items, ps, rfl, parts_eq_ok.1 hparts, rfl⟩
    · rintro (⟨_, h, -⟩ | ⟨_, ps, h, hps, rfl⟩)
      · cases h
      · cases h
        rw [parts_eq_ok.2 hps]
        rfl
  · rename_i hstr harr
    exact ⟨nofun, fun h => match h with
      | .inl ⟨text, h, _⟩ => absurd h (hstr text)
      | .inr ⟨items, _, h, _⟩ => absurd h (harr items)⟩

/-- **A message makes a turn** just if it has one of the forms. -/
theorem ofMessage_eq_ok : ofMessage fresh last = .ok t ↔ Made fresh last t := by
  simp only [ofMessage, idOf_eq, firstName_eq]
  constructor
  · intro h
    split at h
    · rename_i hrole
      obtain ⟨m, hm, h⟩ := of_bind_eq_ok h
      cases h
      rcases userMessage_eq_ok.1 hm with ⟨text, hcontent, rfl⟩ | ⟨items, ps, hcontent, hps, rfl⟩
      · exact .text hrole hcontent
      · exact .parts hrole hcontent hps
    · rename_i hrole
      split at h
      · cases h
      · rename_i hnamed
        split at h
        · rename_i result hcontent
          cases h
          cases hcall : last.toolCallId with
          | none =>
            rw [hcall] at hnamed
            exact absurd rfl hnamed
          | some callId =>
            rw [hcall] at hnamed
            exact .tool hrole hcall (fun he => hnamed (String.isEmpty_iff.2 he)) hcontent
        · cases h
    · cases h
  · rintro (⟨hrole, hcontent⟩ | ⟨hrole, hcontent, hps⟩ | ⟨hrole, hcall, hnamed, hcontent⟩)
    · simp only [hrole, userMessage_eq_ok.2 (.inl ⟨_, hcontent, rfl⟩)]
      rfl
    · simp only [hrole, userMessage_eq_ok.2 (.inr ⟨_, _, hcontent, hps, rfl⟩)]
      rfl
    · simp only [hrole, hcall, hcontent, Option.getD_some]
      exact if_neg fun he => hnamed (String.isEmpty_iff.1 he)

/-! ## Conversations -/

/-- A list of contents of a user's last message is refused for what it is refused for. -/
theorem ofMessages_items (messages : List Message) (last : Message) (items : List Json)
    {e : TurnError} :
    ofMessages fresh (messages ++ [{ last with role := .user, content := some (.arr items) }])
        = .error e ↔ parts items = .error e := by
  simp only [ofMessages, List.getLast?_concat, ofMessage, userMessage]
  cases parts items with
  | ok ps => exact ⟨nofun, nofun⟩
  | error e' =>
    constructor <;>
    · intro h
      cases h
      rfl

/-- **The requests that make a turn.**  Only the last message of a request makes a difference: it
makes a turn just if it has one of the three forms.  A list of contents is refused for its first
item that has none of the forms of parts; one that is written for typed parts is refused only for an
address that is missing. -/
theorem ofMessages_made (fresh : String) (messages : List Message) :
    ofMessages fresh messages = ofMessages fresh messages.getLast?.toList ∧
    (∀ t, ofMessages fresh messages = .ok t ↔ ∃ last ∈ messages.getLast?, Made fresh last t) ∧
    (∀ (last : Message) (items : List Json) (e : TurnError),
      ofMessages fresh (messages ++ [{ last with role := .user, content := some (.arr items) }])
          = .error e ↔
        ∃ front bad behind, items = front ++ bad :: behind ∧
          (∀ item ∈ front, ∃ p, Part.Accepted item p) ∧ part bad = .error e) ∧
    ∀ given : List Part,
      (∃ t, ofMessages fresh (messages ++ [Message.ofParts given]) = .ok t) ∨
        ofMessages fresh (messages ++ [Message.ofParts given]) = .error .missingBinaryUrl := by
  refine ⟨?last, fun t => ?made, fun last items e => ?refused, fun given => ?written⟩
  case last =>
    unfold ofMessages
    cases messages.getLast? <;> rfl
  case made =>
    unfold ofMessages
    cases messages.getLast? with
    | none => exact ⟨nofun, fun ⟨_, h, _⟩ => nomatch h⟩
    | some last =>
      refine ofMessage_eq_ok.trans ⟨fun h => ⟨last, rfl, h⟩, ?_⟩
      rintro ⟨last', hlast, h⟩
      cases hlast
      exact h
  case refused => exact (ofMessages_items messages last items).trans parts_eq_error
  case written =>
    cases h : ofMessages fresh (messages ++ [Message.ofParts given]) with
    | ok t => exact .inl ⟨t, rfl⟩
    | error e =>
      have hparts := (ofMessages_items messages (Message.ofParts given) _).1 h
      rcases parts_sorted given with ⟨ps, hps⟩ | hmissing
      · cases hps.symm.trans hparts
      · exact .inr (congrArg Except.error (Except.error.inj (hparts.symm.trans hmissing)))

end Turn

end AgentStream
