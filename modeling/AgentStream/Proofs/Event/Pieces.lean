/-
# Pieces of text as they are written and read

A piece of text may carry anything behind its text.  Whether that can be read back does not depend
on the text, so a piece that is read back is so with any longer text as well.

* `Doc.read_piece` : the document of a piece;
* `Record.scan_congr` : which members belong to a record, whatever their values;
* `Event.ofBytes_piece` : a piece that is read back, with a longer text.
-/
import AgentStream.Proofs.Event.Codec
import AgentStream.Proofs.Json.Fuel
import AgentStream.Proofs.Table

namespace AgentStream

/-! ## Lengths -/

theorem length_quoted_append (s t : String) :
    (utf8 (Json.quoted s)).length ≤ (utf8 (Json.quoted (s ++ t))).length := by
  rw [utf8_quoted, utf8_quoted, String.toList_append, List.flatMap_append, List.flatMap_append]
  simp only [List.length_cons, List.length_append]
  omega

/-- The members of a piece: its kind, its message, its text and what it carries. -/
def pieceMembers (id text : String) (carried : Members) : Members :=
  ("type", .str "TEXT_MESSAGE_CONTENT") :: ("messageId", .str id) :: ("delta", .str text) :: carried

theorem length_pieceMembers (id text more : String) (carried : Members) :
    (utf8 (Json.obj (pieceMembers id text carried)).compact).length
      ≤ (utf8 (Json.obj (pieceMembers id (text ++ more) carried)).compact).length := by
  have hquoted := length_quoted_append text more
  rw [Json.utf8_obj, Json.utf8_obj, pieceMembers, pieceMembers, Json.utf8_members,
    Json.utf8_members, Json.utf8_members, Json.utf8_members]
  cases carried with
  | nil =>
    rw [Json.utf8_member, Json.utf8_member]
    simp only [List.length_cons, List.length_append, Json.compact]
    omega
  | cons m carried =>
    rw [Json.utf8_members, Json.utf8_members]
    simp only [List.length_cons, List.length_append, Json.compact]
    omega

/-! ## Reading -/

namespace Doc

open Json (compact compactMembers)

/-- The members of a piece as they are read. -/
def pieceDocs (id text : String) (others : List (Option String × Doc)) :
    List (Option String × Doc) :=
  (some "type", str "TEXT_MESSAGE_CONTENT") :: (some "messageId", str id) ::
    (some "delta", str text) :: others

/-- What a piece carries is read whatever its text is. -/
theorem readMembers_piece (id text : String) (carried : Members) {fuel depth : Nat} {rest : Bytes}
    {ms : List (Option String × Doc)} {r : Bytes}
    (h : readMembers (fuel + 4) depth
      (utf8 (compactMembers (pieceMembers id text carried)) ++ 125 :: rest) = (ms, some r)) :
    ∃ others, ms = pieceDocs id text others ∧ ∀ text' fuel', fuel ≤ fuel' →
      readMembers (fuel' + 4) depth
        (utf8 (compactMembers (pieceMembers id text' carried)) ++ 125 :: rest)
          = (pieceDocs id text' others, some r) := by
  have hfirst (text : String) (fuel : Nat) := readMembers_str_more "type" "TEXT_MESSAGE_CONTENT"
    ("messageId", .str id) (("delta", .str text) :: carried) (fuel + 2) depth rest
  have hsecond (text : String) (fuel : Nat) := readMembers_str_more "messageId" id
    ("delta", .str text) carried (fuel + 1) depth rest
  cases carried with
  | nil =>
    have hthird (text : String) (fuel : Nat) := readMembers_str_last "delta" text fuel depth rest
    simp only [pieceMembers, hfirst, hsecond, hthird] at h ⊢
    cases h
    exact ⟨[], rfl, fun _ _ _ => rfl⟩
  | cons m carried =>
    have hthird (text : String) (fuel : Nat) :=
      readMembers_str_more "delta" text m carried fuel depth rest
    simp only [pieceMembers, hfirst, hsecond, hthird] at h ⊢
    obtain ⟨hms, hr⟩ := Prod.mk.inj h
    refine ⟨_, hms.symm, fun text' fuel' hf => ?_⟩
    rw [readMembers_fuel (Nat.succ_le_succ hf) (Prod.ext rfl hr)]
    rfl

/-- The bytes of a piece are read through its members, with more fuel for a longer text. -/
theorem read_pieceMembers (id text : String) (carried : Members) : ∃ fuel ms rest,
    2 * (utf8 (compact (.obj (pieceMembers id text carried)))).length + 1 = fuel + 4 ∧
    readMembers (fuel + 4) (nestingLimit - 1)
      (utf8 (compactMembers (pieceMembers id text carried)) ++ [125]) = (ms, rest) ∧
    read (Json.obj (pieceMembers id text carried)).encode = (obj ms, rest.map skipBlanks) := by
  have hlen : 2 ≤ (utf8 (compact (.obj (pieceMembers id text carried)))).length := by
    rw [Json.utf8_obj, List.length_cons, List.length_append, List.length_singleton]
    omega
  obtain ⟨fuel, hfuel⟩ : ∃ fuel,
      2 * (utf8 (compact (.obj (pieceMembers id text carried)))).length + 1 = fuel + 4 :=
    ⟨2 * (utf8 (compact (.obj (pieceMembers id text carried)))).length - 3, by omega⟩
  have hread := read_obj ("type", .str "TEXT_MESSAGE_CONTENT")
    (("messageId", .str id) :: ("delta", .str text) :: carried)
  rw [pieceMembers] at hfuel ⊢
  rw [hfuel] at hread
  exact ⟨fuel, _, _, hfuel, (Prod.eta _).symm, hread⟩

/-- The document of a piece that is read to its end. -/
theorem read_piece (id text more : String) (carried : Members) {d : Doc}
    (h : read (Json.obj (pieceMembers id text carried)).encode = (d, some [])) :
    ∃ others, d = obj (pieceDocs id text others) ∧
      read (Json.obj (pieceMembers id (text ++ more) carried)).encode
        = (obj (pieceDocs id (text ++ more) others), some []) := by
  have hlen := length_pieceMembers id text more carried
  obtain ⟨fuel, ms, rest, hfuel, hms, hread⟩ := read_pieceMembers id text carried
  obtain ⟨fuel', ms', rest', hfuel', hms', hread'⟩ := read_pieceMembers id (text ++ more) carried
  rw [hread, Prod.mk.injEq] at h
  obtain ⟨hd, hrest⟩ := h
  obtain ⟨r, rfl, hblank⟩ := Option.map_eq_some_iff.1 hrest
  obtain ⟨others, hothers, hmore⟩ := readMembers_piece id text carried hms
  have hle : fuel ≤ fuel' := by omega
  rw [hmore (text ++ more) fuel' hle, Prod.mk.injEq] at hms'
  obtain ⟨rfl, rfl⟩ := hms'
  refine ⟨others, ?_, ?_⟩
  · rw [← hd, hothers]
  · rw [hread', Option.map_some, hblank]

end Doc

/-! ## Records -/

namespace Record

/-- Whether a field was given is told by the names of those that were. -/
theorem isSome_lookup_congr {slots slots' : List (String × Nat × Doc)}
    (h : slots.map Prod.fst = slots'.map Prod.fst) (name : String) :
    (slots.lookup name).isSome = (slots'.lookup name).isSome := by
  induction slots generalizing slots' with
  | nil =>
    rw [List.map_eq_nil_iff.1 h.symm]
  | cons x slots ih =>
    cases slots' with
    | nil => cases h
    | cons x' slots' =>
      obtain ⟨hx, hrest⟩ := List.cons.inj h
      rw [lookup_cons_ite, lookup_cons_ite, hx]
      split
      · rfl
      · exact ih hrest

/-- What is found among members depends on which fields were given before, not on their values. -/
theorem scan_congr (fields : List FieldName) (closed : Bool) (o : Origin)
    (members : List (Option String × Doc)) (i : Nat) {slots slots' : List (String × Nat × Doc)}
    (h : slots.map Prod.fst = slots'.map Prod.fst) : ∃ more fault,
    scan fields closed o i slots members = (slots ++ more, fault) ∧
      scan fields closed o i slots' members = (slots' ++ more, fault) := by
  induction members generalizing i slots slots' with
  | nil => exact ⟨[], none, by rw [scan, List.append_nil], by rw [scan, List.append_nil]⟩
  | cons m members ih =>
    have hgiven (name : String) := isSome_lookup_congr h name
    obtain ⟨name, d⟩ := m
    cases name with
    | none => exact ⟨[], _, by rw [scan, List.append_nil], by rw [scan, List.append_nil]⟩
    | some name =>
      rw [scan, scan]
      cases hf : fields.find? (·.accepts name) with
      | none =>
        simp only
        split
        · exact ⟨[], _, by rw [List.append_nil], by rw [List.append_nil]⟩
        · split
          · exact ⟨[], _, by rw [List.append_nil], by rw [List.append_nil]⟩
          · exact ih (i + 1) h
      | some f =>
        simp only [hgiven]
        split
        · exact ⟨[], _, by rw [List.append_nil], by rw [List.append_nil]⟩
        · have hmap : (slots ++ [(f.primary, i, d)]).map Prod.fst
              = (slots' ++ [(f.primary, i, d)]).map Prod.fst := by
            rw [List.map_append, List.map_append, h]
          obtain ⟨more, fault, hs, hs'⟩ := ih (i + 1) hmap
          rw [hs, hs', List.append_assoc, List.append_assoc]
          exact ⟨_, fault, rfl, rfl⟩

end Record

namespace Event

open Doc (pieceDocs)

/-- The fields of a piece. -/
def pieceRecord : Record Body :=
  Body.textContent <$> Body.messageId <*> .required (plain "delta") Decoder.string

/-- The kinds of event by their names. -/
def kinds : List (String × Kind Event) := Body.records.map fun (name, body) => (name, kindOf body)

/-- The text of a piece is taken over whatever it is, unless other members are at fault. -/
theorem pieceRecord_ofMembers (id : String) (others : List (Option String × Doc)) :
    ∃ fault : Option Located, ∀ text : String,
      pieceRecord.ofMembers false .setAside
        ((some "messageId", .str id) :: (some "delta", .str text) :: others)
          = match fault with
            | none => .ok (.textContent id text)
            | some fault => .error fault.2 := by
  let slots (text : String) : List (String × Nat × Doc) :=
    [("messageId", 0, .str id), ("delta", 1, .str text)]
  refine ⟨(Record.scan pieceRecord.fields false .setAside 2 (slots "") others).2, fun text => ?_⟩
  have hnames : (slots "").map Prod.fst = (slots text).map Prod.fst := rfl
  obtain ⟨more, fault, hempty, hscan⟩ :=
    Record.scan_congr pieceRecord.fields false .setAside others 2 hnames
  have hfirst : Record.scan pieceRecord.fields false .setAside 0 []
      ((some "messageId", .str id) :: (some "delta", .str text) :: others)
        = Record.scan pieceRecord.fields false .setAside 2 (slots text) others := rfl
  rw [hempty, Record.ofMembers, hfirst, hscan]
  cases fault <;> rfl

/-- What a piece carries does not depend on its text. -/
theorem carried_ofMembers (id text text' : String) (others : List (Option String × Doc)) :
    carried.ofMembers false .setAside
      ((some "messageId", .str id) :: (some "delta", .str text) :: others)
        = carried.ofMembers false .setAside
          ((some "messageId", .str id) :: (some "delta", .str text') :: others) := rfl

/-- The members of a piece are set aside but for its kind, then those of the event are read. -/
theorem decode_pieceDocs (id text : String) (others : List (Option String × Doc)) :
    decode .text (.obj (pieceDocs id text others))
      = setAside "type" kinds (some (kindOf pieceRecord)) others >>= fun x =>
        (match x.1 with
        | some kind =>
          kind.ofMembers ((some "messageId", .str id) :: (some "delta", .str text) :: x.2)
        | none => .error (.missingField "type")) := by
  have hset : setAside "type" kinds none (pieceDocs id text others)
      = setAside "type" kinds (some (kindOf pieceRecord)) others >>= fun x =>
        .ok (x.1, (some "messageId", .str id) :: (some "delta", .str text) :: x.2) := by
    show setAside "type" kinds (some (kindOf pieceRecord)) (_ :: _ :: others) = _
    have hid : (Doc.str id).readable = true := rfl
    have htext : (Doc.str text).readable = true := rfl
    rw [setAside, if_neg (by decide), if_pos hid, setAside, if_neg (by decide), if_pos htext]
    cases setAside "type" kinds (some (kindOf pieceRecord)) others <;> rfl
  show (setAside "type" kinds none (pieceDocs id text others) >>= _) = _
  rw [hset]
  cases setAside "type" kinds (some (kindOf pieceRecord)) others with
  | error fault => rfl
  | ok x =>
    obtain ⟨kind, others⟩ := x
    cases kind <;> rfl

/-- A document of a piece with another text. -/
theorem decode_piece {id text : String} {others : List (Option String × Doc)} {e : Event}
    (h : decode .text (.obj (pieceDocs id text others)) = .ok e) (text' : String) :
    decode .text (.obj (pieceDocs id text' others))
      = .ok { e with body := .textContent id text' } := by
  rw [decode_pieceDocs] at h ⊢
  obtain ⟨⟨kind, others⟩, hset, h⟩ := of_bind_eq_ok h
  have hkind : kind = some (kindOf pieceRecord) := setAside_some hset
  subst hkind
  rw [hset]
  obtain ⟨body, hbody, h⟩ := of_bind_eq_ok h
  obtain ⟨⟨timestamp, rawEvent⟩, hcarried, h⟩ := of_bind_eq_ok h
  cases h
  obtain ⟨fault, hfault⟩ := pieceRecord_ofMembers id others
  rw [hfault] at hbody
  cases fault with
  | some fault => cases hbody
  | none =>
    show (pieceRecord.ofMembers false .setAside _ >>= _) = _
    rw [hfault]
    show (carried.ofMembers false .setAside _ >>= _) = _
    rw [carried_ofMembers id text' text, hcarried]
    rfl

/-- **A piece that is read back is so with any longer text.** -/
theorem ofBytes_piece {e e' : Event} {id text : String} (hb : e.body = .textContent id text)
    (h : ofBytes e.encode = .ok e') (more : String) :
    ofBytes { e with body := .textContent id (text ++ more) }.encode
      = .ok { e' with body := .textContent id (text ++ more) } := by
  obtain ⟨body, timestamp, rawEvent⟩ := e
  cases hb
  let others := Json.optional "timestamp" (timestamp.map fun t => .int t)
    ++ Json.optional "rawEvent" rawEvent
  have hjson (text : String) : (Event.mk (.textContent id text) timestamp rawEvent).toJson
      = .obj (pieceMembers id text others) := rfl
  obtain ⟨-, d, hread, hdecode⟩ := ofBytes_eq_ok.1 h
  rw [encode, hjson] at hread
  obtain ⟨docs, rfl, hmore⟩ := Doc.read_piece id text more others hread
  refine ofBytes_eq_ok.2 ⟨encode_ne_nil _, _, ?_, decode_piece hdecode (text ++ more)⟩
  rw [encode, hjson]
  exact hmore

end Event

end AgentStream
