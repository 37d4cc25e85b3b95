/-
# Messages that are written and read again

A message is read back from what it is written as, in the order in which it is written.  A message
that is decoded, in whatever form it is given, is nested no more deeply than that form.

* `Message.decode_toJson` : a message is read back;
* `Message.keeps_decode` : what is decoded as a message.
-/
import AgentStream.Proofs.Json.Fits
import AgentStream.Proofs.Json.Kept
import AgentStream.Proofs.Message.Codec

namespace AgentStream

open Record

/-! ## Reading back -/

theorem ToolCall.decode_toJson (kind : String) (o : Origin) (c : ToolCall) :
    (ToolCall.record kind).decode o (Doc.ofJson c.toJson) = .ok c := by
  cases o <;> rfl

namespace Message

theorem distinct_fields : Distinct record.fields :=
  ⟨by decide, fun f hf => isPrimary_memberNames f.primary (List.mem_map_of_mem hf)⟩

/-- The members of a message are written for its fields. -/
theorem fits_members {m : Message} (h : ∀ c ∈ m.content, c.Sorted ∧ c ≠ .null) (o : Origin) :
    record.Fits o m.members m :=
  Fits.seq (Fits.seq (Fits.seq (Fits.seq (Fits.seq (Fits.seq (Fits.seq
    (Fits.map mk (fits_option_string _ m.id))
    (fits_field (Role.decode_name o m.role)))
    (fits_option_any _ h))
    (fits_option_string _ m.name))
    (fits_list _ fun c _ => c.decode_toJson _ o))
    (fits_option_string _ m.toolCallId))
    (fits_option_string _ m.toolName))
    (fits_option_string _ m.activityType)

/-- **A message is read back** from what it is written as. -/
theorem decode_toJson {m : Message} (h : ∀ c ∈ m.content, c.Sorted ∧ c ≠ .null) (o : Origin) :
    decode o (Doc.ofJson m.toJson) = .ok m :=
  (fits_members h o).alone distinct_fields false

end Message

/-! ## What is decoded -/

variable {n : Nat}

/-- A tool call is an object in an object. -/
theorem ToolCall.keeps_decode (n : Nat) :
    Decoder.Keeps (ToolCall.record "function").decode n fun _ => 2 ≤ n := by
  have hfunction : FunctionCall.record.Keeps (n - 1 - 1) fun _ => True := fun _ _ _ _ => trivial
  have hrecord : (ToolCall.record "function").Keeps (n - 1) fun _ => 0 < n - 1 :=
    Keeps.seq (Keeps.seq
      (Keeps.map (keeps_required _ (Decoder.keeps_true _ _)) fun _ _ _ _ _ h => h.1)
      (keeps_defaulted _ (Decoder.keeps_true _ _) trivial))
      (keeps_required _ hfunction.decode)
  intro o d c hd hc
  have hpos := (hrecord.decode o d c hd hc).2
  omega

namespace Message

/-- The content of a message is held and is not `null`, and there is room for its tool calls. -/
structure Held (depth : Nat) (m : Message) : Prop where
  content : ∀ c ∈ m.content, c.Held depth ∧ c ≠ .null
  toolCalls : m.toolCalls ≠ [] → 3 ≤ depth

theorem keeps_record (n : Nat) : record.Keeps n (Held n) := by
  have hstring (name : FieldName) : (Record.optional name Decoder.string).Keeps n fun _ => True :=
    fun _ _ _ _ => trivial
  have hcalls := Decoder.keeps_list (n := n) (ToolCall.keeps_decode (n - 1))
  refine Keeps.seq (Keeps.seq (Keeps.seq (Keeps.seq (Keeps.seq (Keeps.seq (Keeps.seq
    (Keeps.map (hstring _) ?mk)
    (keeps_required _ (Decoder.keeps_true _ _)))
    (keeps_optional _ (Decoder.keeps_option_any n) forall_mem_none))
    (hstring _))
    (keeps_defaulted (P := fun calls => calls ≠ [] → 3 ≤ n) _ (fun o d calls hd h => ?calls)
      fun h => absurd rfl h))
    (hstring _))
    (hstring _))
    (hstring _)
  case mk =>
    intro id _ role _ content hcontent name _ calls hcalls callId _ tool _ activity _
    exact ⟨hcontent, hcalls⟩
  case calls =>
    intro hne
    obtain ⟨c, hc⟩ := List.exists_mem_of_ne_nil calls hne
    have hroom := (hcalls o d calls hd h).2 c hc
    omega

/-- **What is decoded as a message** has a content that is held, and is an object. -/
theorem keeps_decode (n : Nat) : decode.Keeps n fun m => 0 < n ∧ m.Held (n - 1) :=
  (keeps_record (n - 1)).decode

/-- A message is nested no more deeply than its content or its tool calls. -/
theorem Held.depth_toJson {m : Message} (h : m.Held n) : m.toJson.depth ≤ n + 1 := by
  have hstring {name : String} {s : Option String} {x : String × Json}
      (hx : x ∈ Json.optional name (s.map .str)) : x.2.depth ≤ n := by
    obtain ⟨t, -, ht⟩ := Option.map_eq_some_iff.1 (Json.mem_optional hx)
    rw [← ht]
    exact Nat.zero_le n
  refine Nat.succ_le_succ (Json.depthMembers_le.2 fun x hx => ?_)
  simp only [List.mem_append] at hx
  rcases hx with ((((((hid | hrole) | hcontent) | hname) | hcalls) | hcallId) | htool) | hactivity
  · exact hstring hid
  · rw [List.mem_singleton.1 hrole]
    exact Nat.zero_le n
  · exact (h.content _ (Json.mem_optional hcontent)).1.shallow
  · exact hstring hname
  · have hne : m.toolCalls ≠ [] := fun hnil => by
      rw [hnil] at hcalls
      exact absurd hcalls List.not_mem_nil
    rw [Json.mem_nonemptyList hcalls]
    refine Nat.le_trans (Nat.succ_le_succ (Json.depthItems_le.2 fun j hj => ?_)) (h.toolCalls hne)
    obtain ⟨c, -, rfl⟩ := List.mem_map.1 hj
    exact Nat.le_refl 2
  · exact hstring hcallId
  · exact hstring htool
  · exact hstring hactivity

end Message

end AgentStream
