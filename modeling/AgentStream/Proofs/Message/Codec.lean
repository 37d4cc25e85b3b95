/-
# Messages that are held

A message is kept in a log as a value in sorted form, and decoded from that value it is what it
was: it is only the order of its members that sorting changes.

* `Message.members` : the members of the written form;
* `ToolCall.decode_sorted`, `Message.decode_sorted` : what is decoded from sorted forms.
-/
import AgentStream.Message.Codec
import AgentStream.Proofs.Json.Records

namespace AgentStream

open Json (optional member nonemptyList)

/-! ## Members of written forms -/

namespace Json

section Members

variable {name : String} {m : String × Json}

theorem mem_optional {value : Option Json} (h : m ∈ optional name value) : m.2 ∈ value := by
  cases value with
  | none => exact absurd h List.not_mem_nil
  | some value => exact List.mem_singleton.1 h ▸ rfl

theorem mem_nonemptyList {items : List Json} (h : m ∈ nonemptyList name items) :
    m.2 = .arr items := by
  cases items with
  | nil => exact absurd h List.not_mem_nil
  | cons j items => exact List.mem_singleton.1 h ▸ rfl

end Members

theorem lookup_member (name key : String) (value : Json) :
    (member name value).lookup key = if key = name then some value else none :=
  lookup_cons_ite ..

theorem lookup_optional (name key : String) (value : Option Json) :
    (optional name value).lookup key = if key = name then value else none := by
  cases value with
  | none => exact (ite_self _).symm
  | some value => exact lookup_member name key value

theorem lookup_nonemptyList (name key : String) (items : List Json) :
    (nonemptyList name items).lookup key
      = if key = name then if items.isEmpty then none else some (.arr items) else none := by
  cases items with
  | nil => exact (ite_self _).symm
  | cons j items => exact lookup_member name key _

theorem names_optional (name : String) (value : Option Json) :
    ((optional name value).map Prod.fst).Sublist [name] := by
  cases value with
  | none => exact List.nil_sublist _
  | some value => exact List.Sublist.refl _

theorem names_nonemptyList (name : String) (items : List Json) :
    ((nonemptyList name items).map Prod.fst).Sublist [name] := by
  cases items with
  | nil => exact List.nil_sublist _
  | cons j items => exact List.Sublist.refl _

end Json

/-! ## Roles -/

theorem Role.decode_name (o : Origin) (role : Role) :
    Role.decode o (.str role.name) = .ok role := by
  cases role <;> rfl

/-! ## Tool calls -/

theorem ToolCall.decode_sorted (c : ToolCall) :
    (ToolCall.record "function").decode .held (Doc.ofJson c.toJson.sorted) = .ok c := rfl

theorem ToolCall.items_sorted (calls : List ToolCall) :
    Decoder.list (ToolCall.record "function").decode .held
      (Doc.ofJson (Json.arr (calls.map ToolCall.toJson)).sorted) = .ok calls := by
  show Decoder.items _ .held
    (Doc.ofItems (Json.sortedItems (calls.map ToolCall.toJson))) = .ok calls
  induction calls with
  | nil => rfl
  | cons c calls ih =>
    rw [List.map_cons, Json.sortedItems, Doc.ofItems, Decoder.items, c.decode_sorted, ih]
    rfl

theorem ToolCall.integral_items (calls : List ToolCall) :
    Json.integralItems (calls.map ToolCall.toJson) = true := by
  induction calls with
  | nil => rfl
  | cons c calls ih => exact ih

/-! ## Messages -/

namespace Message

/-- The members of a message as it is written. -/
def members (m : Message) : Members :=
  optional "id" (m.id.map .str) ++ member "role" (.str m.role.name)
    ++ optional "content" m.content ++ optional "name" (m.name.map .str)
    ++ nonemptyList "toolCalls" (m.toolCalls.map ToolCall.toJson)
    ++ optional "toolCallId" (m.toolCallId.map .str)
    ++ optional "toolName" (m.toolName.map .str)
    ++ optional "activityType" (m.activityType.map .str)

theorem toJson_eq (m : Message) : m.toJson = .obj m.members := rfl

/-- The names of members, in the order in which they are written. -/
def memberNames : List String :=
  ["id", "role", "content", "name", "toolCalls", "toolCallId", "toolName", "activityType"]

theorem names_members (m : Message) : (m.members.map Prod.fst).Sublist memberNames := by
  simp only [members, List.map_append]
  exact (((((((Json.names_optional _ _).append (List.Sublist.refl ["role"])).append
    (Json.names_optional _ _)).append (Json.names_optional _ _)).append
    (Json.names_nonemptyList _ _)).append (Json.names_optional _ _)).append
    (Json.names_optional _ _)).append (Json.names_optional _ _)

/-- Every member is written under the first name of its field. -/
theorem isPrimary_memberNames : ∀ name ∈ memberNames, Record.IsPrimary record.fields name := by
  intro name hname
  simp only [memberNames, List.mem_cons, List.not_mem_nil, or_false] at hname
  rcases hname with rfl | rfl | rfl | rfl | rfl | rfl | rfl | rfl <;> exact ⟨_, rfl, rfl⟩

/-- A message is free of doubles if its content is. -/
theorem integral_toJson {m : Message} (h : ∀ c ∈ m.content, c.integral = true) :
    m.toJson.integral = true := by
  have hstring {name : String} {s : Option String} {x : String × Json}
      (hx : x ∈ optional name (s.map .str)) : x.2.integral = true := by
    obtain ⟨t, -, ht⟩ := Option.map_eq_some_iff.1 (Json.mem_optional hx)
    rw [← ht]
    rfl
  refine Json.integralMembers_iff.2 fun x hx => ?_
  simp only [List.mem_append] at hx
  rcases hx with ((((((hid | hrole) | hcontent) | hname) | hcalls) | hcallId) | htool) | hactivity
  · exact hstring hid
  · rw [List.mem_singleton.1 hrole]
    rfl
  · exact h _ (Json.mem_optional hcontent)
  · exact hstring hname
  · rw [Json.mem_nonemptyList hcalls]
    exact ToolCall.integral_items m.toolCalls
  · exact hstring hcallId
  · exact hstring htool
  · exact hstring hactivity

/-- What stands under each name. -/
theorem lookup_members (m : Message) :
    m.members.lookup "id" = m.id.map .str ∧
    m.members.lookup "role" = some (.str m.role.name) ∧
    m.members.lookup "content" = m.content ∧
    m.members.lookup "name" = m.name.map .str ∧
    m.members.lookup "toolCalls"
      = (if m.toolCalls.isEmpty then none else some (.arr (m.toolCalls.map ToolCall.toJson))) ∧
    m.members.lookup "toolCallId" = m.toolCallId.map .str ∧
    m.members.lookup "toolName" = m.toolName.map .str ∧
    m.members.lookup "activityType" = m.activityType.map .str := by
  simp [members, List.lookup_append, Json.lookup_member, Json.lookup_optional,
    Json.lookup_nonemptyList]

/-- A field for a string, in a value that gives it if it is there. -/
theorem read_string {name : FieldName} {g : Given} {v : Option String}
    (h : g.value? name.primary = ((v.map Json.str).map Json.sorted).map Doc.ofJson) :
    (Record.optional name Decoder.string).read g = .ok v := by
  have hdoc : g.value? name.primary = v.map Doc.str := by
    rw [h, Option.map_map, Option.map_map]
    rfl
  exact Record.read_optional hdoc (fun _ _ => nofun) fun _ _ => rfl

/-- What stands under each name of a sorted form is what the fields are read from. -/
theorem read_record {m : Message} (h : ∀ c ∈ m.content, c.Sorted ∧ c ≠ .null) {g : Given}
    (horigin : g.origin = .held)
    (hgiven : ∀ name, g.value? name
      = ((m.members.lookup name).map Json.sorted).map Doc.ofJson) :
    record.read g = .ok m := by
  obtain ⟨hid, hrole, hcontent, hname, hcalls, hcallId, htool, hactivity⟩ := m.lookup_members
  show record.read g = .ok (mk m.id m.role m.content m.name m.toolCalls m.toolCallId m.toolName
    m.activityType)
  refine Record.read_seq (Record.read_seq (Record.read_seq (Record.read_seq (Record.read_seq
    (Record.read_seq (Record.read_seq (Record.read_map mk ?id) ?role) ?content) ?name) ?calls)
    ?callId) ?tool) ?activity
  case id => exact read_string (hid ▸ hgiven "id")
  case name => exact read_string (hname ▸ hgiven "name")
  case callId => exact read_string (hcallId ▸ hgiven "toolCallId")
  case tool => exact read_string (htool ▸ hgiven "toolName")
  case activity => exact read_string (hactivity ▸ hgiven "activityType")
  case role =>
    have hgiven := hgiven "role"
    rw [hrole] at hgiven
    exact Record.read_given hgiven (Role.decode_name _ _)
  case content =>
    have hgiven := hgiven "content"
    rw [hcontent, Option.map_map] at hgiven
    refine Record.read_optional hgiven (fun c hc hnull => ?_) fun c hc => ?_
    · have hheld := Doc.toJson?_ofJson c.sorted
      rw [show Doc.ofJson c.sorted = .null from hnull, (h c hc).1.sorted_eq,
        (h c hc).1.sorted_eq] at hheld
      exact (h c hc).2 (Option.some.inj hheld).symm
    · show Decoder.any g.origin (Doc.ofJson c.sorted) = .ok c
      rw [(h c hc).1.sorted_eq]
      exact Decoder.any_ofJson (h c hc).1 _
  case calls =>
    have hgiven := hgiven "toolCalls"
    rw [hcalls] at hgiven
    cases hnil : m.toolCalls with
    | nil =>
      rw [hnil] at hgiven
      exact Record.read_default hgiven []
    | cons c calls =>
      rw [hnil] at hgiven
      refine Record.read_given hgiven ?_
      rw [horigin]
      exact ToolCall.items_sorted (c :: calls)

/-- **A message is decoded from its sorted form as it was.** -/
theorem decode_sorted {m : Message} (h : ∀ c ∈ m.content, c.Sorted ∧ c ≠ .null) :
    decodeJson decode m.toJson.sorted = .ok m := by
  have hsorted := Json.names_sortedMembers m.members
  have hnodup : ((Json.sortedMembers m.members).map Prod.fst).Nodup :=
    hsorted ▸ m.names_members.nodup (by decide)
  have hprimary : ∀ x ∈ Json.sortMembers (Json.sortedMembers m.members),
      Record.IsPrimary record.fields x.1 := by
    intro x hx
    have hmem := List.mem_map_of_mem (f := Prod.fst) (Json.mem_sortMembers hx)
    exact isPrimary_memberNames x.1 (m.names_members.subset (hsorted ▸ hmem))
  rw [toJson_eq, Json.sorted, decodeJson, decode, Doc.ofJson, Record.decode]
  refine Record.ofMembers_primaries hprimary (Json.sortMembers_nodup _)
    fun g horigin _ hvalue => ?_
  refine read_record h horigin fun name => ?_
  rw [hvalue, Json.lookup_sortMembers name hnodup, Json.lookup_sortedMembers]

end Message

end AgentStream
