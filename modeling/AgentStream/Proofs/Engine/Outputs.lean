/-
# Outputs that are written and read again

An output of the engine is read back from its written form, with all that is nested in it.  Its
blobs may be written in any order.

* `Engine.Message.decode_toJson`, `Engine.Response.decode_toJson` : the parts of an output;
* `Engine.Output.sortBlobs_of_perm` : blobs that are given in any order;
* `Engine.Output.Sized` : what the numbers of an output have to be like;
* `Engine.Output.decode_toJson`, `Engine.Output.writable_toJson` : an output is read back.
-/
import AgentStream.Engine.Output
import AgentStream.Proofs.Json.Accepted
import AgentStream.Proofs.Json.Written
import AgentStream.Proofs.Message.RoundTrip

namespace AgentStream.Engine

open Record
open Json (everywhere_append everywhere_member everywhere_optional_map everywhere_nonempty
  everywhere_nonemptyList writable_str writable_bool writable_int writable_list writable_obj)

/-! ## Messages -/

theorem Role.decode_name (o : Origin) (role : Role) :
    Decoder.oneOf Role.table o (.str role.name) = .ok role := by
  cases role <;> rfl

theorem Part.decode_toJson (p : Part) (o : Origin) : decode o (Doc.ofJson p.toJson) = .ok p := by
  cases p with
  | text t =>
    have hfits : textRecord.Fits .setAside (Json.member "text" (.str t)) (text t) :=
      Fits.map text (fits_string _ _)
    exact hfits.tagged rfl (by decide : Apart textRecord.fields).distinct (by decide) o
  | image url detail mimeType =>
    have hfits : imageRecord.Fits .setAside (Json.member "url" (.str url)
        ++ Json.member "detail" (.str detail) ++ Json.nonempty "mimeType" mimeType)
        (image url detail mimeType) :=
      Fits.seq (Fits.seq (Fits.map image (fits_string _ _)) (fits_string _ _)) (fits_nonempty _ _)
    exact hfits.tagged rfl (by decide : Apart imageRecord.fields).distinct (by decide) o

theorem Message.decode_toJson (m : Message) (o : Origin) :
    decode o (Doc.ofJson m.toJson) = .ok m := by
  rw [toJson]
  refine Fits.decode ?_ (by decide)
  exact Fits.seq (Fits.seq (Fits.seq (Fits.seq (Fits.seq
    (Fits.map mk (fits_field (Role.decode_name o m.role)))
    (fits_string _ _))
    (fits_list _ fun p _ => p.decode_toJson o))
    (fits_nonempty _ _))
    (fits_nonempty _ _))
    (fits_list _ fun c _ => c.decode_toJson "" o)

/-! ## Responses -/

/-- Counts have 32 bits. -/
structure Usage.Sized (u : Usage) : Prop where
  promptTokens : u.promptTokens < 2 ^ 32
  completionTokens : u.completionTokens < 2 ^ 32
  totalTokens : u.totalTokens < 2 ^ 32

theorem Usage.decode_toJson {u : Usage} (h : u.Sized) (o : Origin) :
    record.decode o (Doc.ofJson u.toJson) = .ok u := by
  rw [toJson]
  refine Fits.decode ?_ (by decide)
  exact Fits.seq (Fits.seq (Fits.map mk (fits_field (Decoder.unsigned_ok h.promptTokens o)))
    (fits_field (Decoder.unsigned_ok h.completionTokens o)))
    (fits_field (Decoder.unsigned_ok h.totalTokens o))

theorem ResponseError.decode_toJson (e : ResponseError) (o : Origin) :
    record.decode o (Doc.ofJson e.toJson) = .ok e := by
  rw [toJson]
  refine Fits.decode ?_ (by decide)
  exact Fits.seq (Fits.seq (Fits.map mk (fits_string _ _)) (fits_string _ _))
    (fits_option_string _ _)

theorem Choice.decode_toJson {c : Choice} (h : c.index < 2 ^ 32) (o : Origin) :
    record.decode o (Doc.ofJson c.toJson) = .ok c := by
  rw [toJson]
  refine Fits.decode ?_ (by decide)
  exact Fits.seq (Fits.seq (Fits.seq (Fits.map mk (fits_field (Decoder.unsigned_ok h o)))
    (fits_field (c.message.decode_toJson o)))
    (fits_field (c.delta.decode_toJson o)))
    (fits_option_string _ _)

/-- The indices and the counts of a response have 32 bits. -/
structure Response.Sized (r : Response) : Prop where
  choices : ∀ c ∈ r.choices, c.index < 2 ^ 32
  usage : ∀ u ∈ r.usage, u.Sized

theorem Response.decode_toJson {r : Response} (h : r.Sized) (o : Origin) :
    record.decode o (Doc.ofJson r.toJson) = .ok r := by
  rw [toJson]
  refine Fits.decode ?_ (by decide)
  exact Fits.seq (Fits.seq (Fits.seq (Fits.seq (Fits.seq (Fits.seq
    (Fits.map mk (fits_string _ _))
    (fits_string _ _))
    (fits_string _ _))
    (fits_values _ fun c hc => Choice.decode_toJson (h.choices c hc) o))
    (fits_option_object (fun _ => ⟨_, rfl⟩) fun u hu => Usage.decode_toJson (h.usage u hu) o))
    (fits_option_object (fun _ => ⟨_, rfl⟩) fun e _ => e.decode_toJson o))
    (fits_field rfl)

/-! ## Blobs -/

namespace Output

variable {key : String} {raw : Bytes} {blobs given : List (String × Bytes)}

/-- A blob that is put in under a new key is there beside the others. -/
theorem insertBlob_perm (h : key ∉ blobs.map Prod.fst) :
    (insertBlob key raw blobs).Perm ((key, raw) :: blobs) := by
  induction blobs with
  | nil => exact .refl _
  | cons b blobs ih =>
    obtain ⟨k, v⟩ := b
    obtain ⟨hk, hrest⟩ := not_or.1 (List.mem_cons.not.1 h)
    rw [insertBlob, if_neg hk]
    split
    · exact .refl _
    · exact ((ih hrest).cons (k, v)).trans (.swap ..)

/-- Blobs stay in order when one is put in under a new key. -/
theorem insertBlob_pairwise (hp : blobs.Pairwise (·.1 < ·.1)) (h : key ∉ blobs.map Prod.fst) :
    (insertBlob key raw blobs).Pairwise (·.1 < ·.1) := by
  induction blobs with
  | nil => exact List.pairwise_singleton _ _
  | cons b blobs ih =>
    obtain ⟨k, v⟩ := b
    obtain ⟨hk, hrest⟩ := not_or.1 (List.mem_cons.not.1 h)
    obtain ⟨hfirst, hblobs⟩ := List.pairwise_cons.1 hp
    rw [insertBlob, if_neg hk]
    split
    · rename_i hlt
      refine List.pairwise_cons.2 ⟨List.forall_mem_cons.2 ⟨hlt, fun b hb => ?_⟩, hp⟩
      exact lt_trans hlt (hfirst b hb)
    · rename_i hlt
      refine List.pairwise_cons.2 ⟨fun b hb => ?_, ih hblobs hrest⟩
      rcases List.mem_cons.1 ((insertBlob_perm hrest).subset hb) with rfl | hb
      · exact lt_of_le_of_ne (not_lt.1 hlt) (Ne.symm hk)
      · exact hfirst b hb

/-- Blobs under different keys are sorted by key, and none gets lost. -/
theorem sortBlobs_perm (h : (given.map Prod.fst).Nodup) :
    (sortBlobs given).Perm given ∧ (sortBlobs given).Pairwise (·.1 < ·.1) := by
  -- by induction on the blobs that are left, for any sorted ones with other keys to put them into
  have hall (front : List (String × Bytes)) (hp : front.Pairwise (·.1 < ·.1))
      (hd : ((given ++ front).map Prod.fst).Nodup) :
      let r := given.foldl (fun sorted b => insertBlob b.1 b.2 sorted) front
      r.Perm (given ++ front) ∧ r.Pairwise (·.1 < ·.1) := by
    clear h
    induction given generalizing front with
    | nil => exact ⟨.refl _, hp⟩
    | cons b given ih =>
      obtain ⟨hb, hrest⟩ := List.nodup_cons.1 hd
      have hnew : b.1 ∉ front.map Prod.fst := fun hmem => by
        obtain ⟨b', hb', he⟩ := List.mem_map.1 hmem
        exact hb (he ▸ List.mem_map_of_mem (List.mem_append_right given hb'))
      have hinsert : (insertBlob b.1 b.2 front).Perm (b :: front) := insertBlob_perm hnew
      have hmiddle : (given ++ insertBlob b.1 b.2 front).Perm (b :: (given ++ front)) :=
        (hinsert.append_left given).trans List.perm_middle
      obtain ⟨hperm, hsorted⟩ := ih (insertBlob b.1 b.2 front) (insertBlob_pairwise hp hnew)
        ((hmiddle.map Prod.fst).nodup_iff.2 hd)
      exact ⟨hperm.trans hmiddle, hsorted⟩
  have hgiven := hall [] .nil (by rwa [List.append_nil])
  rwa [List.append_nil] at hgiven

/-- **Blobs may be given in any order.** -/
theorem sortBlobs_of_perm (h : given.Perm blobs) (hp : blobs.Pairwise (·.1 < ·.1)) :
    sortBlobs given = blobs := by
  obtain ⟨hperm, hsorted⟩ := sortBlobs_perm ((h.map Prod.fst).nodup_iff.2 (nodup_of_ordered hp))
  exact (hperm.trans h).eq_of_pairwise (fun _ _ _ _ hlt hgt => absurd hgt (lt_asymm hlt)) hsorted hp

theorem decodeBlob_ok (raw : Bytes) (o : Origin) :
    decodeBlob o (Doc.ofJson (.arr (raw.map fun b => .int b.toNat))) = .ok raw := by
  have hlist : Decoder.list (Decoder.unsigned 8) o
      (Doc.ofJson (.arr ((raw.map UInt8.toNat).map fun n : Nat => .int n)))
        = .ok (raw.map UInt8.toNat) := by
    refine Decoder.list_ok fun n hn => Decoder.unsigned_ok ?_ o
    obtain ⟨b, -, rfl⟩ := List.mem_map.1 hn
    exact b.toNat_lt
  rw [List.map_map] at hlist
  show (Decoder.list (Decoder.unsigned 8) o _).map _ = _
  rw [show (fun b : UInt8 => Json.int b.toNat) = (fun n : Nat => Json.int n) ∘ UInt8.toNat from rfl,
    hlist]
  show Except.ok ((raw.map UInt8.toNat).map UInt8.ofNat) = _
  have hback : ∀ b ∈ raw, (UInt8.ofNat ∘ UInt8.toNat) b = b := fun b _ => UInt8.ofNat_toNat
  rw [List.map_map, List.map_congr_left hback, List.map_id']

theorem map_decodeBlob_ok (blobs : List (String × Bytes)) (o : Origin) :
    Decoder.map decodeBlob o (Doc.ofJson (blobsJson blobs)) = .ok blobs := by
  show Decoder.memberValues decodeBlob o (Doc.ofMembers _) = .ok blobs
  induction blobs with
  | nil => rfl
  | cons b blobs ih =>
    rw [List.map_cons, Doc.ofMembers, Decoder.memberValues, decodeBlob_ok, ih]
    rfl

/-! ## Outputs -/

/-- The numbers of a response have 32 bits, and blobs are sorted by key. -/
structure Sized (o : Output) : Prop where
  response : ∀ r ∈ o.response, r.Sized
  blobs : o.blobs.Pairwise (·.1 < ·.1)

/-- **An output is decoded from its written form**, in whatever order its blobs are written. -/
theorem decode_toJson {out : Output} (h : out.Sized) (hgiven : given.Perm out.blobs) (o : Origin) :
    decode o (Doc.ofJson (toJson { out with blobs := given })) = .ok out := by
  -- blobs are sorted as they are read, so any order of them fits the output
  have hblobs : (sortBlobs <$>
        Record.defaulted (plain "state_delta") (Decoder.map decodeBlob) []).Fits o
      (if given.isEmpty then [] else Json.member "state_delta" (blobsJson given)) out.blobs := by
    rw [← sortBlobs_of_perm hgiven h.blobs]
    refine Fits.map sortBlobs ?_
    cases given with
    | nil => exact fits_default []
    | cons b given => exact fits_field (map_decodeBlob_ok (b :: given) o)
  rw [toJson]
  refine Fits.decode ?_ (by decide)
  exact Fits.seq (Fits.seq (Fits.seq (Fits.seq (Fits.seq
    (Fits.map mk (fits_string _ _))
    (fits_string _ _))
    (fits_option_string _ _))
    (fits_string _ _))
    (fits_option_object (fun _ => ⟨_, rfl⟩) fun r hr =>
      Response.decode_toJson (h.response r hr) o))
    hblobs

end Output

/-! ## Writing -/

/-- A natural number of 32 bits or less can be written. -/
theorem writable_nat {k n : Nat} (h : k < 2 ^ 32) : (Json.int k).Writable n :=
  writable_int (decide_eq_true (by omega))

theorem writable_toolCall (c : ToolCall) : c.toJson.Writable 2 := by
  have hfunction : c.function.toJson.Writable 1 := by
    refine writable_obj ?_
    simp only [everywhere_append, everywhere_member]
    exact ⟨writable_str _, writable_str _⟩
  refine writable_obj ?_
  simp only [everywhere_append, everywhere_member]
  exact ⟨⟨writable_str _, writable_str _⟩, hfunction⟩

theorem Part.writable_toJson (p : Part) : p.toJson.Writable 1 := by
  cases p with
  | text t =>
    refine writable_obj ?_
    simp only [everywhere_append, everywhere_member]
    exact ⟨writable_str _, writable_str _⟩
  | image url detail mimeType =>
    refine writable_obj ?_
    simp only [everywhere_append, everywhere_member]
    exact ⟨⟨⟨writable_str _, writable_str _⟩, writable_str _⟩, everywhere_nonempty (writable_str _)⟩

theorem Message.writable_toJson (m : Message) : m.toJson.Writable 4 := by
  refine writable_obj ?_
  simp only [everywhere_append, everywhere_member]
  exact ⟨⟨⟨⟨⟨writable_str _, writable_str _⟩,
    everywhere_nonemptyList fun _ =>
      (writable_list fun p _ => p.writable_toJson).mono (by decide)⟩,
    everywhere_nonempty (writable_str _)⟩,
    everywhere_nonempty (writable_str _)⟩,
    everywhere_nonemptyList fun _ => writable_list fun c _ => writable_toolCall c⟩

theorem Usage.writable_toJson {u : Usage} (h : u.Sized) : u.toJson.Writable 1 := by
  refine writable_obj ?_
  simp only [everywhere_append, everywhere_member]
  exact ⟨⟨writable_nat h.promptTokens, writable_nat h.completionTokens⟩,
    writable_nat h.totalTokens⟩

theorem ResponseError.writable_toJson (e : ResponseError) : e.toJson.Writable 1 := by
  refine writable_obj ?_
  simp only [everywhere_append, everywhere_member]
  exact ⟨⟨writable_str _, writable_str _⟩, everywhere_optional_map fun s _ => writable_str s⟩

theorem Choice.writable_toJson {c : Choice} (h : c.index < 2 ^ 32) : c.toJson.Writable 5 := by
  refine writable_obj ?_
  simp only [everywhere_append, everywhere_member]
  exact ⟨⟨⟨writable_nat h, c.message.writable_toJson⟩, c.delta.writable_toJson⟩,
    everywhere_optional_map fun s _ => writable_str s⟩

theorem Response.writable_toJson {r : Response} (h : r.Sized) : r.toJson.Writable 7 := by
  refine writable_obj ?_
  simp only [everywhere_append, everywhere_member]
  exact ⟨⟨⟨⟨⟨⟨writable_str _, writable_str _⟩, writable_str _⟩,
    writable_list fun c hc => Choice.writable_toJson (h.choices c hc)⟩,
    everywhere_optional_map fun u hu => (Usage.writable_toJson (h.usage u hu)).mono (by decide)⟩,
    everywhere_optional_map fun e _ => e.writable_toJson.mono (by decide)⟩,
    writable_bool _⟩

theorem Output.writable_blobs (blobs : List (String × Bytes)) : (blobsJson blobs).Writable 2 := by
  refine writable_obj fun m hm => ?_
  obtain ⟨b, -, rfl⟩ := List.mem_map.1 hm
  exact writable_list fun x _ => writable_nat (Nat.lt_trans x.toNat_lt (by decide))

/-- **An output is nested in eight levels**, whatever is in it. -/
theorem Output.writable_toJson {out : Output} (h : ∀ r ∈ out.response, r.Sized) :
    out.toJson.Writable 8 := by
  refine writable_obj ?_
  simp only [everywhere_append, everywhere_member]
  refine ⟨⟨⟨⟨⟨writable_str _, writable_str _⟩,
    everywhere_optional_map fun s _ => writable_str s⟩, writable_str _⟩,
    everywhere_optional_map fun r hr => Response.writable_toJson (h r hr)⟩, ?_⟩
  split
  · exact List.forall_mem_nil _
  · exact everywhere_member.2 ((writable_blobs out.blobs).mono (by decide))

end AgentStream.Engine
