/-
# Bodies of events that are written and read again

Every body is written field by field, and what is decoded as a body is made of values within bounds.

* `Body.freeValues`, `Body.optionalValues` : the untyped values that a body holds;
* `Body.fits_members` : a body is written for the fields of its kind;
* `Body.integral_members` : a body can be written if its free values can;
* `Body.Held`, `Body.keeps_records` : what is decoded as a body of any kind.
-/
import AgentStream.Event.Codec
import AgentStream.Proofs.Json.Written
import AgentStream.Proofs.Message.RoundTrip

namespace AgentStream

open Record
open Json (Everywhere everywhere_append everywhere_member everywhere_optional
  everywhere_optional_map)

namespace Body

/-- The free values that a body holds. -/
def freeValues : Body → List Json
  | runStarted _ _ _ input => input.toList
  | runFinished _ _ result => result.toList
  | stateSnapshot snapshot => [snapshot]
  | stateDelta delta => delta
  | messagesSnapshot messages => messages.filterMap Message.content
  | activitySnapshot _ _ content _ => [content]
  | activityDelta _ _ patch => patch
  | raw event _ => [event]
  | custom _ value => [value]
  | _ => []

/-- The free values that may be left out. -/
def optionalValues : Body → List Json
  | runStarted _ _ _ input => input.toList
  | runFinished _ _ result => result.toList
  | messagesSnapshot messages => messages.filterMap Message.content
  | _ => []

/-- The free values of a body that are written as a list. -/
def list? : Body → Option (List Json)
  | stateDelta delta => some delta
  | activityDelta _ _ patch => some patch
  | _ => none

theorem mem_freeValues_of_list {b : Body} {js : List Json} (h : b.list? = some js) {j : Json}
    (hj : j ∈ js) : j ∈ b.freeValues := by
  cases b <;> cases h <;> exact hj

/-! ## Reading back -/

/-- A role is read back. -/
theorem fits_role {o : Origin} {absence : Absence Role} (name : FieldName) (role : Role) :
    (field name Role.decode absence).Fits o (Json.member name.primary (.str role.name)) role :=
  fits_field (Role.decode_name o role)

/-- A role that is written if there is one is read back. -/
theorem fits_option_role {o : Origin} (name : FieldName) (role : Option Role) :
    (optional name Role.decode).Fits o (Json.optional name.primary (role.map fun r => .str r.name))
      role :=
  fits_optional (fun _ _ => nofun) fun r _ => Role.decode_name o r

/-- **A body is written for the fields of its kind**, and read back from there. -/
theorem fits_members {b : Body} (hs : ∀ j ∈ b.freeValues, j.Sorted)
    (hn : ∀ j ∈ b.optionalValues, j ≠ .null) :
    ∃ r, records.lookup b.kind = some r ∧ r.Fits .setAside b.members b := by
  cases b with
  | runStarted threadId runId parentRunId input =>
    have hinput : ∀ j ∈ input, j.Sorted ∧ j ≠ .null := fun j hj =>
      ⟨hs j (Option.mem_toList.2 hj), hn j (Option.mem_toList.2 hj)⟩
    exact ⟨_, rfl, Fits.seq (Fits.seq (Fits.seq (Fits.map runStarted (fits_string _ _))
      (fits_string _ _)) (fits_option_string _ _)) (fits_option_any _ hinput)⟩
  | runFinished threadId runId result =>
    have hresult : ∀ j ∈ result, j.Sorted ∧ j ≠ .null := fun j hj =>
      ⟨hs j (Option.mem_toList.2 hj), hn j (Option.mem_toList.2 hj)⟩
    exact ⟨_, rfl, Fits.seq (Fits.seq (Fits.map runFinished (fits_string _ _))
      (fits_string _ _)) (fits_option_any _ hresult)⟩
  | runError message code runId =>
    exact ⟨_, rfl, Fits.seq (Fits.seq (Fits.map runError (fits_string _ _))
      (fits_option_string _ _)) (fits_option_string _ _)⟩
  | stepStarted name => exact ⟨_, rfl, Fits.map stepStarted (fits_string _ _)⟩
  | stepFinished name => exact ⟨_, rfl, Fits.map stepFinished (fits_string _ _)⟩
  | textStart id role =>
    exact ⟨_, rfl, Fits.seq (Fits.map textStart (fits_string _ _)) (fits_role _ _)⟩
  | textContent id delta =>
    exact ⟨_, rfl, Fits.seq (Fits.map textContent (fits_string _ _)) (fits_string _ _)⟩
  | textEnd id => exact ⟨_, rfl, Fits.map textEnd (fits_string _ _)⟩
  | textChunk id role delta =>
    exact ⟨_, rfl, Fits.seq (Fits.seq (Fits.map textChunk (fits_option_string _ _))
      (fits_option_role _ _)) (fits_option_string _ _)⟩
  | toolStart callId name parent =>
    exact ⟨_, rfl, Fits.seq (Fits.seq (Fits.map toolStart (fits_string _ _))
      (fits_string _ _)) (fits_option_string _ _)⟩
  | toolArgs callId delta =>
    exact ⟨_, rfl, Fits.seq (Fits.map toolArgs (fits_string _ _)) (fits_string _ _)⟩
  | toolEnd callId => exact ⟨_, rfl, Fits.map toolEnd (fits_string _ _)⟩
  | toolResult id callId content role =>
    exact ⟨_, rfl, Fits.seq (Fits.seq (Fits.seq (Fits.map toolResult (fits_string _ _))
      (fits_string _ _)) (fits_string _ _)) (fits_option_role _ _)⟩
  | stateSnapshot snapshot =>
    have hsnapshot := hs snapshot List.mem_cons_self
    exact ⟨_, rfl, Fits.map stateSnapshot (fits_any _ hsnapshot)⟩
  | stateDelta delta => exact ⟨_, rfl, Fits.map stateDelta (fits_anys _ hs)⟩
  | messagesSnapshot messages =>
    have hcontent : ∀ m ∈ messages, ∀ c ∈ m.content, c.Sorted ∧ c ≠ .null := fun m hm c hc =>
      have hmem := List.mem_filterMap.2 ⟨m, hm, hc⟩
      ⟨hs c hmem, hn c hmem⟩
    exact ⟨_, rfl, Fits.map messagesSnapshot
      (fits_values _ fun m hm => Message.decode_toJson (hcontent m hm) _)⟩
  | activitySnapshot id kind content replace =>
    have hcontent := hs content List.mem_cons_self
    exact ⟨_, rfl, Fits.seq (Fits.seq (Fits.seq (Fits.map activitySnapshot (fits_string _ _))
      (fits_string _ _)) (fits_any _ hcontent))
      (fits_optional (fun _ _ => nofun) fun _ _ => rfl)⟩
  | activityDelta id kind patch =>
    exact ⟨_, rfl, Fits.seq (Fits.seq (Fits.map activityDelta (fits_string _ _))
      (fits_string _ _)) (fits_anys _ hs)⟩
  | raw event source =>
    have hevent := hs event List.mem_cons_self
    exact ⟨_, rfl, Fits.seq (Fits.map raw (fits_any _ hevent)) (fits_option_string _ _)⟩
  | custom name value =>
    have hvalue := hs value List.mem_cons_self
    exact ⟨_, rfl, Fits.seq (Fits.map custom (fits_string _ _)) (fits_any _ hvalue)⟩

/-! ## Writing -/

/-- **What the members of a body are like**: those that are no strings and no truth values are free
values, lists of free values or messages. -/
theorem everywhere_members {P : Json → Prop} (hstr : ∀ s, P (.str s)) (hbool : ∀ x, P (.bool x))
    (b : Body) (hfree : ∀ j ∈ b.freeValues, P j)
    (hlist : ∀ js, b.list? = some js → P (.arr js))
    (hmessages : ∀ messages, b = messagesSnapshot messages →
      P (.arr (messages.map Message.toJson))) :
    Everywhere P b.members := by
  cases b with
  | messagesSnapshot messages => exact everywhere_member.2 (hmessages messages rfl)
  | runStarted =>
    simp_all [members, everywhere_append, everywhere_member, everywhere_optional, freeValues]
  | runFinished =>
    simp_all [members, everywhere_append, everywhere_member, everywhere_optional, freeValues]
  | _ =>
    simp_all [members, everywhere_append, everywhere_member, everywhere_optional_map, freeValues,
      list?]

/-- **A body can be written if its free values can.** -/
theorem integral_members {b : Body} (h : ∀ j ∈ b.freeValues, j.integral = true) :
    Everywhere (fun j => j.integral = true) b.members := by
  refine everywhere_members (fun _ => rfl) (fun _ => rfl) b h (fun js hjs => ?_) ?_
  · exact Json.integralItems_iff.2 fun j hj => h j (mem_freeValues_of_list hjs hj)
  · rintro messages rfl
    refine Json.integralItems_iff.2 fun j hj => ?_
    obtain ⟨m, hm, rfl⟩ := List.mem_map.1 hj
    exact Message.integral_toJson fun c hc => h c (List.mem_filterMap.2 ⟨m, hm, hc⟩)

/-! ## What is decoded -/

/-- The values of a body are held, and its optional ones are not `null`. -/
def Held (n : Nat) : Body → Prop
  | runStarted _ _ _ input => ∀ j ∈ input, j.Held n ∧ j ≠ .null
  | runFinished _ _ result => ∀ j ∈ result, j.Held n ∧ j ≠ .null
  | stateSnapshot snapshot => snapshot.Held n
  | stateDelta delta => 0 < n ∧ ∀ j ∈ delta, j.Held (n - 1)
  | messagesSnapshot messages => 0 < n ∧ ∀ m ∈ messages, 0 < n - 1 ∧ m.Held (n - 1 - 1)
  | activitySnapshot _ _ content _ => content.Held n
  | activityDelta _ _ patch => 0 < n ∧ ∀ j ∈ patch, j.Held (n - 1)
  | raw event _ => event.Held n
  | custom _ value => value.Held n
  | _ => True

/-- **What is decoded as a body** has values that are held. -/
theorem keeps_records (n : Nat) : ∀ x ∈ records, x.2.Keeps n (Held n) := by
  have hstring (name : FieldName) (absence : Absence String) :
      (field name Decoder.string absence).Keeps n fun _ => True := fun _ _ _ _ => trivial
  have hstring? (name : FieldName) :
      (optional name Decoder.string).Keeps n fun _ => True := fun _ _ _ _ => trivial
  have hbool? (name : FieldName) :
      (optional name Decoder.bool).Keeps n fun _ => True := fun _ _ _ _ => trivial
  have hany? := Decoder.keeps_option_any n
  have hlist := Decoder.keeps_list (Decoder.keeps_any (n - 1))
  intro x hx
  simp only [records, List.mem_cons, List.not_mem_nil, or_false] at hx
  rcases hx with rfl | rfl | rfl | rfl | rfl | rfl | rfl | rfl | rfl | rfl | rfl | rfl | rfl | rfl
    | rfl | rfl | rfl | rfl | rfl | rfl
  · exact Keeps.seq (Keeps.seq (Keeps.seq (Keeps.map (hstring _ _) fun _ _ _ _ _ _ _ h => h)
      (hstring _ _)) (hstring? _)) (keeps_optional _ hany? forall_mem_none)
  · exact Keeps.seq (Keeps.seq (Keeps.map (hstring _ _) fun _ _ _ _ _ h => h)
      (hstring _ _)) (keeps_optional _ hany? forall_mem_none)
  iterate 11
    -- These bodies hold no values of their own.
    · refine Yields.keeps ?_ n
      repeat refine yields_seq _ ?_
      refine yields_map _ _ ?_
      intros
      trivial
  · exact Keeps.map (keeps_required _ (Decoder.keeps_any n)) fun _ h => h
  · exact Keeps.map (keeps_required _ hlist) fun _ h => h
  · exact Keeps.map (keeps_required _ (Decoder.keeps_list (Message.keeps_decode (n - 1))))
      fun _ h => h
  · exact Keeps.seq (Keeps.seq (Keeps.seq (Keeps.map (hstring _ _) fun _ _ _ _ _ h _ _ => h)
      (hstring _ _)) (keeps_required _ (Decoder.keeps_any n))) (hbool? _)
  · exact Keeps.seq (Keeps.seq (Keeps.map (hstring _ _) fun _ _ _ _ _ h => h)
      (hstring _ _)) (keeps_required _ hlist)
  · exact Keeps.seq (Keeps.map (keeps_required _ (Decoder.keeps_any n)) fun _ h _ _ => h)
      (hstring? _)
  · exact Keeps.seq (Keeps.map (hstring _ _) fun _ _ _ h => h)
      (keeps_defaulted _ (Decoder.keeps_any n) Json.held_null)

/-- The free values of a body that is held are held. -/
theorem Held.values {n : Nat} {b : Body} (h : b.Held n) : ∀ j ∈ b.freeValues, j.Held n := by
  intro j hj
  cases b with
  | runStarted => exact (h j (Option.mem_toList.1 hj)).1
  | runFinished => exact (h j (Option.mem_toList.1 hj)).1
  | stateSnapshot => exact List.mem_singleton.1 hj ▸ h
  | stateDelta => exact (h.2 j hj).mono (Nat.sub_le n 1)
  | messagesSnapshot =>
    obtain ⟨m, hm, hc⟩ := List.mem_filterMap.1 hj
    exact ((h.2 m hm).2.content j hc).1.mono (Nat.le_trans (Nat.sub_le _ 1) (Nat.sub_le n 1))
  | activitySnapshot => exact List.mem_singleton.1 hj ▸ h
  | activityDelta => exact (h.2 j hj).mono (Nat.sub_le n 1)
  | raw => exact List.mem_singleton.1 hj ▸ h
  | custom => exact List.mem_singleton.1 hj ▸ h
  | _ => exact absurd hj List.not_mem_nil

/-- The optional values of a body that is held are not `null`. -/
theorem Held.given {n : Nat} {b : Body} (h : b.Held n) : ∀ j ∈ b.optionalValues, j ≠ .null := by
  intro j hj
  cases b with
  | runStarted => exact (h j (Option.mem_toList.1 hj)).2
  | runFinished => exact (h j (Option.mem_toList.1 hj)).2
  | messagesSnapshot =>
    obtain ⟨m, hm, hc⟩ := List.mem_filterMap.1 hj
    exact ((h.2 m hm).2.content j hc).2
  | _ => exact absurd hj List.not_mem_nil

/-- The members of a body that is held are not nested more deeply. -/
theorem Held.depth_members {n : Nat} {b : Body} (h : b.Held n) :
    Everywhere (fun j => j.depth ≤ n) b.members := by
  -- A list is nested more deeply than what is in it.
  have harr {js : List Json} (hn : 0 < n) (hjs : ∀ j ∈ js, j.depth ≤ n - 1) :
      (Json.arr js).depth ≤ n := by
    have hle := Nat.succ_le_succ (Json.depthItems_le.2 hjs)
    rwa [Nat.succ_eq_add_one, Nat.succ_eq_add_one, Nat.sub_add_cancel hn] at hle
  refine everywhere_members (fun _ => Nat.zero_le n) (fun _ => Nat.zero_le n) b
    (fun j hj => (h.values j hj).shallow) (fun js hjs => ?_) ?_
  · cases b with
    | stateDelta =>
      cases hjs
      exact harr h.1 fun j hj => (h.2 j hj).shallow
    | activityDelta =>
      cases hjs
      exact harr h.1 fun j hj => (h.2 j hj).shallow
    | _ => cases hjs
  · rintro messages rfl
    refine harr h.1 fun j hj => ?_
    obtain ⟨m, hm, rfl⟩ := List.mem_map.1 hj
    have hle := (h.2 m hm).2.depth_toJson
    rwa [Nat.sub_add_cancel (h.2 m hm).1] at hle

end Body

end AgentStream
