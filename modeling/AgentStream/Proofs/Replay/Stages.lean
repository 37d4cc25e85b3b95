/-
# What a replay accepts

Whether a replay accepts an event depends only on where the text or the tool call of the event is.

* `Replay.textStage`, `Replay.callStage` : where a text and a tool call are;
* `Replay.Accepts` : the events that a replay accepts;
* `Body.textAfter`, `Body.callAfter` : where an event brings a text and a tool call;
* `Replay.event_outcome` : an event is accepted and brings them there, or it fails.
-/
import AgentStream.Proofs.Replay.Basic
import AgentStream.Proofs.Replay.Grammar

namespace AgentStream

/-! ## Stages -/

namespace Body

/-- Where an event brings a text: whether the text has ended, if it is known. -/
def textAfter (id : String) (stage : Option Bool) : Body → Option Bool
  | textStart id' _ => if id' = id then some false else stage
  | textEnd id' => if id' = id then some true else stage
  | textChunk id' _ _ => if id' = some id then some true else stage
  | toolStart _ _ parent => if parent = some id then some (stage.getD true) else stage
  | _ => stage

/-- Where an event brings a tool call. -/
def callAfter (id : String) (stage : Option CallPhase) : Body → Option CallPhase
  | toolStart id' _ _ => if id' = id then some .awaitingArgs else stage
  | toolEnd id' => if id' = id then some .awaitingResult else stage
  | toolResult _ id' _ _ => if id' = id then some .completed else stage
  | _ => stage

end Body

namespace Replay

/-- Whether a text has ended, if it is known. -/
def textStage (r : Replay) (id : String) : Option Bool := (r.texts.lookup id).map (·.ended)

/-- Where a tool call is, if it is known. -/
def callStage (r : Replay) (id : String) : Option CallPhase := (r.calls.lookup id).map (·.phase)

/-- Every text and every tool call is known once, and tool calls belong to known texts. -/
structure Tidy (r : Replay) : Prop where
  texts : (r.texts.map Prod.fst).Nodup
  calls : (r.calls.map Prod.fst).Nodup
  parents : ∀ id c, r.calls.lookup id = some c → (r.texts.lookup c.messageId).isSome = true

/-- The events that a replay accepts. -/
def Accepts (r : Replay) : Body → Prop
  | .textStart id role => id ≠ "" ∧ r.textStage id = none ∧ role.Speaks
  | .textContent id _ => r.textStage id = some false
  | .textEnd id => r.textStage id = some false
  | .textChunk id role _ =>
    ∃ id', id = some id' ∧ id' ≠ "" ∧ r.textStage id' = none ∧ (role.getD .assistant).Speaks
  | .toolStart id _ parent => id ≠ "" ∧ r.callStage id = none ∧ ∃ id', parent = some id'
  | .toolArgs id _ => r.callStage id = some .awaitingArgs
  | .toolEnd id => r.callStage id = some .awaitingArgs
  | .toolResult messageId id _ _ =>
    messageId ≠ "" ∧ id ≠ "" ∧ r.callStage id = some .awaitingResult
  | .custom name value =>
    name = userMessageName → ∃ m, decodeJson Message.decode value = .ok m ∧ m.role = .user
  | _ => True

/-- A replay goes on to another one with an event. -/
structure Becomes (r : Replay) (b : Body) (r' : Replay) : Prop where
  text : ∀ id, r'.textStage id = b.textAfter id (r.textStage id)
  call : ∀ id, r'.callStage id = b.callAfter id (r.callStage id)
  tidy : r'.Tidy

/-- An event is accepted and the replay goes on with it, or it is not accepted and fails. -/
def Outcome (r : Replay) (b : Body) (x : Except ReplayError Replay) : Prop :=
  match x with
  | .ok r' => r.Accepts b ∧ r.Becomes b r'
  | .error _ => ¬r.Accepts b

variable {r r' : Replay} {id : String} {b : Body}

/-! ## Tables -/

theorem names_update {α : Type} (id : String) (f : α → α) (table : List (String × α)) :
    (update id f table).map Prod.fst = table.map Prod.fst := by
  induction table with
  | nil => rfl
  | cons x table ih => rw [update_cons, List.map_cons, List.map_cons, ih]

/-! ## Text messages -/

theorem textStage_eq_none : r.textStage id = none ↔ r.texts.lookup id = none :=
  Option.map_eq_none_iff

theorem callStage_eq_none : r.callStage id = none ↔ r.calls.lookup id = none :=
  Option.map_eq_none_iff

theorem nameFor_ok (r : Replay) (role : Role) :
    (∃ name, r.nameFor role = .ok name) ↔ role.Speaks := by
  cases role <;> simp [nameFor, Role.Speaks]

/-- A text that gets known is where it begins; nothing else changes. -/
theorem textStage_pushText (hn : r.textStage id = none) (m : Message) (content : String)
    (ended : Bool) (key : String) : (r.pushText id m content ended).textStage key
      = if id = key then some ended else r.textStage key := by
  unfold textStage pushText
  simp only
  rw [lookup_concat (textStage_eq_none.1 hn)]
  by_cases h : key = id
  · rw [if_pos h, if_pos h.symm]
    rfl
  · rw [if_neg h, if_neg (Ne.symm h)]

theorem Tidy.pushText (ht : r.Tidy) (hn : r.textStage id = none) (m : Message) (content : String)
    (ended : Bool) : (r.pushText id m content ended).Tidy where
  texts := nodup_concat ht.texts (textStage_eq_none.1 hn) _
  calls := ht.calls
  parents key c hc := by
    have hknown := ht.parents key c hc
    show ((r.texts ++ [(id, _)]).lookup c.messageId).isSome = true
    rw [lookup_concat (textStage_eq_none.1 hn)]
    split
    · rfl
    · exact hknown

/-- A text changes where it is, as the change says; nothing else does. -/
theorem textStage_update {t : TextState} (hl : r.texts.lookup id = some t)
    (f : TextState → TextState) (key : String) :
    ({ r with texts := update id f r.texts } : Replay).textStage key
      = if id = key then some (f t).ended else r.textStage key := by
  unfold textStage
  simp only
  rw [lookup_update]
  by_cases h : key = id
  · rw [if_pos h, if_pos h.symm, h, hl]
    rfl
  · rw [if_neg h, if_neg (Ne.symm h)]

theorem Tidy.updateText (ht : r.Tidy) (id : String) (f : TextState → TextState) :
    ({ r with texts := update id f r.texts } : Replay).Tidy where
  texts := by
    show ((update id f r.texts).map Prod.fst).Nodup
    rw [names_update]
    exact ht.texts
  calls := ht.calls
  parents key c hc := by
    show ((update id f r.texts).lookup c.messageId).isSome = true
    rw [isSome_lookup_update]
    exact ht.parents key c hc

theorem textStart_outcome (ht : r.Tidy) (id : String) (role : Role) :
    r.Outcome (.textStart id role) (r.textStart id role) := by
  unfold textStart
  split
  · rename_i hid
    exact fun h => h.1 (String.isEmpty_iff.1 hid)
  · rename_i hid
    split
    · rename_i hknown
      intro h
      rw [textStage_eq_none.1 h.2.1] at hknown
      cases hknown
    · rename_i hknown
      have hn : r.textStage id = none :=
        textStage_eq_none.2 (Option.not_isSome_iff_eq_none.1 hknown)
      cases hname : r.nameFor role with
      | error error =>
        intro h
        obtain ⟨name, hok⟩ := (r.nameFor_ok role).2 h.2.2
        rw [hname] at hok
        cases hok
      | ok name =>
        refine ⟨⟨fun h => hid (String.isEmpty_iff.2 h), hn, (r.nameFor_ok role).1 ⟨name, hname⟩⟩,
          textStage_pushText hn _ _ _, fun _ => rfl, ht.pushText hn _ _ _⟩

theorem textContent_outcome (ht : r.Tidy) (id delta : String) :
    r.Outcome (.textContent id delta) (r.textContent id delta) := by
  unfold textContent
  cases hl : r.texts.lookup id with
  | none =>
    intro h
    rw [Accepts, textStage, hl] at h
    cases h
  | some t =>
    have hstage : r.textStage id = some t.ended := congrArg (Option.map _) hl
    simp only
    split
    · rename_i he
      rw [he] at hstage
      intro h
      cases hstage.symm.trans h
    · rename_i he
      rw [Bool.eq_false_iff.2 he] at hstage
      refine ⟨hstage, fun key => ?_, fun _ => rfl, ht.updateText id _⟩
      rw [textStage_update hl]
      split
      · rename_i hk
        rw [← hk, Bool.eq_false_iff.2 he]
        exact hstage.symm
      · rfl

theorem textEnd_outcome (ht : r.Tidy) (id : String) :
    r.Outcome (.textEnd id) (r.textEnd id) := by
  unfold textEnd
  cases hl : r.texts.lookup id with
  | none =>
    intro h
    rw [Accepts, textStage, hl] at h
    cases h
  | some t =>
    have hstage : r.textStage id = some t.ended := congrArg (Option.map _) hl
    simp only
    split
    · rename_i he
      rw [he] at hstage
      intro h
      cases hstage.symm.trans h
    · rename_i he
      rw [Bool.eq_false_iff.2 he] at hstage
      have htidy := ht.updateText id fun t => { t with ended := true }
      exact ⟨hstage, textStage_update hl fun t => { t with ended := true }, fun _ => rfl,
        htidy.texts, htidy.calls, htidy.parents⟩

theorem textChunk_outcome (ht : r.Tidy) (id : Option String) (role : Option Role)
    (delta : Option String) : r.Outcome (.textChunk id role delta) (r.textChunk id role delta) := by
  unfold textChunk
  simp only
  split
  · rename_i hid
    rintro ⟨id, rfl, hne, -⟩
    exact hne (String.isEmpty_iff.1 hid)
  · rename_i hid
    -- An id that is not empty was given.
    obtain ⟨id, rfl⟩ : ∃ id', id = some id' := by
      cases id with
      | none => exact absurd rfl hid
      | some id => exact ⟨id, rfl⟩
    simp only [Option.getD_some]
    split
    · rename_i hknown
      rintro ⟨_, hsome, -, hn, -⟩
      cases hsome
      rw [textStage_eq_none.1 hn] at hknown
      cases hknown
    · rename_i hknown
      have hn : r.textStage id = none :=
        textStage_eq_none.2 (Option.not_isSome_iff_eq_none.1 hknown)
      cases hname : r.nameFor (role.getD .assistant) with
      | error error =>
        rintro ⟨_, -, -, -, hspeaks⟩
        obtain ⟨name, hok⟩ := (r.nameFor_ok _).2 hspeaks
        rw [hname] at hok
        cases hok
      | ok name =>
        refine ⟨⟨id, rfl, fun h => hid (String.isEmpty_iff.2 h), hn,
          (r.nameFor_ok _).1 ⟨name, hname⟩⟩, fun key => ?_, fun _ => rfl, ht.pushText hn _ _ _⟩
        rw [textStage_pushText hn]
        by_cases hk : id = key
        · rw [if_pos hk, hk]
          exact (if_pos rfl).symm
        · rw [if_neg hk]
          exact (if_neg fun h => hk (Option.some.inj h)).symm

/-! ## Tool calls -/

/-- A tool call changes where it is, as the change says; nothing else does. -/
theorem callStage_update {c : CallState} (hl : r.calls.lookup id = some c)
    (f : CallState → CallState) (key : String) :
    ({ r with calls := update id f r.calls } : Replay).callStage key
      = if id = key then some (f c).phase else r.callStage key := by
  unfold callStage
  simp only
  rw [lookup_update]
  by_cases h : key = id
  · rw [if_pos h, if_pos h.symm, h, hl]
    rfl
  · rw [if_neg h, if_neg (Ne.symm h)]

theorem Tidy.updateCall (ht : r.Tidy) (id : String) {f : CallState → CallState}
    (hf : ∀ c, (f c).messageId = c.messageId) :
    ({ r with calls := update id f r.calls } : Replay).Tidy where
  texts := ht.texts
  calls := by
    show ((update id f r.calls).map Prod.fst).Nodup
    rw [names_update]
    exact ht.calls
  parents key c hc := by
    change (update id f r.calls).lookup key = some c at hc
    rw [lookup_update] at hc
    split at hc
    · obtain ⟨c₀, hc₀, rfl⟩ := Option.map_eq_some_iff.1 hc
      rw [hf]
      exact ht.parents key c₀ hc₀
    · exact ht.parents key c hc

/-- A call that gets known is where it starts, and its text is known. -/
theorem Tidy.pushCall (ht : r.Tidy) (hn : r.callStage id = none) {c : CallState}
    (hc : (r.texts.lookup c.messageId).isSome = true) :
    ({ r with calls := r.calls ++ [(id, c)] } : Replay).Tidy where
  texts := ht.texts
  calls := nodup_concat ht.calls (callStage_eq_none.1 hn) c
  parents key c' hc' := by
    change (r.calls ++ [(id, c)]).lookup key = some c' at hc'
    rw [lookup_concat (callStage_eq_none.1 hn)] at hc'
    split at hc'
    · cases hc'
      exact hc
    · exact ht.parents key c' hc'

/-- A text that is not known is made one that has ended. -/
theorem textStage_withParent (ht : r.Tidy) (parent : String) (m : Message) :
    let r' := if (r.texts.lookup parent).isSome then r else r.pushText parent m "" true
    r'.Tidy ∧ r'.calls = r.calls ∧ (r'.texts.lookup parent).isSome = true ∧
      ∀ key, r'.textStage key = if some parent = some key
        then some ((r.textStage key).getD true) else r.textStage key := by
  intro r'
  by_cases h : (r.texts.lookup parent).isSome = true
  · have hr : r' = r := if_pos h
    rw [hr]
    refine ⟨ht, rfl, h, fun key => ?_⟩
    split
    · rename_i hk
      cases hk
      obtain ⟨t, hl⟩ := Option.isSome_iff_exists.1 h
      rw [textStage, hl]
      rfl
    · rfl
  · have hr : r' = r.pushText parent m "" true := if_neg h
    have hn : r.textStage parent = none :=
      textStage_eq_none.2 (Option.not_isSome_iff_eq_none.1 h)
    rw [hr]
    refine ⟨ht.pushText hn _ _ _, rfl, ?_, fun key => ?_⟩
    · show ((r.texts ++ [(parent, _)]).lookup parent).isSome = true
      rw [lookup_concat (textStage_eq_none.1 hn), if_pos rfl]
      rfl
    · rw [textStage_pushText hn]
      by_cases hk : parent = key
      · rw [if_pos hk, if_pos (congrArg some hk), ← hk, hn]
        rfl
      · rw [if_neg hk, if_neg fun h => hk (Option.some.inj h)]

theorem toolStart_outcome (ht : r.Tidy) (id name : String) (parent : Option String) :
    r.Outcome (.toolStart id name parent) (r.toolStart id name parent) := by
  unfold toolStart
  split
  · rename_i hid
    exact fun h => h.1 (String.isEmpty_iff.1 hid)
  · rename_i hid
    split
    · rename_i hknown
      intro h
      rw [callStage_eq_none.1 h.2.1] at hknown
      cases hknown
    · rename_i hknown
      have hn : r.callStage id = none :=
        callStage_eq_none.2 (Option.not_isSome_iff_eq_none.1 hknown)
      cases parent with
      | none => exact fun ⟨_, _, _, h⟩ => nomatch h
      | some parent =>
        obtain ⟨htidy, hcalls, htext, hstage⟩ := textStage_withParent ht parent
          { id := some parent, role := .assistant, name := some r.app }
        simp only at htidy hcalls htext hstage ⊢
        generalize (if (r.texts.lookup parent).isSome = true then r else _) = r' at *
        have hn' : r'.callStage id = none := by
          rw [callStage, hcalls]
          exact hn
        refine ⟨⟨fun h => hid (String.isEmpty_iff.2 h), hn, parent, rfl⟩, hstage, fun key => ?_, ?_⟩
        · show ((r'.calls ++ [(id, _)]).lookup key).map CallState.phase
            = if id = key then some .awaitingArgs else r.callStage key
          rw [lookup_concat (callStage_eq_none.1 hn'), hcalls]
          by_cases hk : key = id
          · rw [if_pos hk, if_pos hk.symm]
            rfl
          · rw [if_neg hk, if_neg (Ne.symm hk)]
            rfl
        · have htidy' (index : Nat) :=
            htidy.pushCall hn' (c := ⟨parent, "", .awaitingArgs, index⟩) htext
          exact ⟨htidy.texts, (htidy' _).calls, (htidy' _).parents⟩

theorem toolArgs_outcome (ht : r.Tidy) (id delta : String) :
    r.Outcome (.toolArgs id delta) (r.toolArgs id delta) := by
  unfold toolArgs
  cases hl : r.calls.lookup id with
  | none =>
    intro h
    rw [Accepts, callStage, hl] at h
    cases h
  | some c =>
    have hstage : r.callStage id = some c.phase := congrArg (Option.map _) hl
    simp only
    split
    · rename_i hp
      intro h
      exact hp (Option.some.inj (hstage.symm.trans h))
    · rename_i hp
      rw [Decidable.not_not.1 hp] at hstage
      refine ⟨hstage, fun _ => rfl, fun key => ?_, ht.updateCall id fun _ => rfl⟩
      rw [callStage_update hl]
      split
      · rename_i hk
        rw [← hk, Decidable.not_not.1 hp]
        exact hstage.symm
      · rfl

theorem toolEnd_outcome (ht : r.Tidy) (id : String) :
    r.Outcome (.toolEnd id) (r.toolEnd id) := by
  unfold toolEnd
  cases hl : r.calls.lookup id with
  | none =>
    intro h
    rw [Accepts, callStage, hl] at h
    cases h
  | some c =>
    have hstage : r.callStage id = some c.phase := congrArg (Option.map _) hl
    simp only
    split
    · rename_i hp
      intro h
      exact hp (Option.some.inj (hstage.symm.trans h))
    · rename_i hp
      rw [Decidable.not_not.1 hp] at hstage
      -- The text of a known call is known.
      obtain ⟨t, htext⟩ := Option.isSome_iff_exists.1 (ht.parents id c hl)
      simp only [htext]
      have htidy := ht.updateCall id (f := fun c => { c with phase := .awaitingResult })
        fun _ => rfl
      exact ⟨hstage, fun _ => rfl, callStage_update hl fun c => { c with phase := .awaitingResult },
        htidy.texts, htidy.calls, htidy.parents⟩

theorem toolResult_outcome (ht : r.Tidy) (messageId callId content : String)
    (role : Option Role) : r.Outcome (.toolResult messageId callId content role)
      (r.toolResult messageId callId content role) := by
  unfold toolResult
  split
  · rename_i hempty
    rintro ⟨hm, hc, -⟩
    simp [hm, hc] at hempty
  · rename_i hempty
    have hne : messageId ≠ "" ∧ callId ≠ "" := by
      constructor <;> rintro rfl <;> simp at hempty
    cases hl : r.calls.lookup callId with
    | none =>
      rintro ⟨-, -, h⟩
      rw [callStage, hl] at h
      cases h
    | some c =>
      have hstage : r.callStage callId = some c.phase := congrArg (Option.map _) hl
      simp only
      split
      · rename_i hp
        rintro ⟨-, -, h⟩
        exact hp (Option.some.inj (hstage.symm.trans h))
      · rename_i hp
        rw [Decidable.not_not.1 hp] at hstage
        have htidy := ht.updateCall callId (f := fun c => { c with phase := .completed })
          fun _ => rfl
        exact ⟨⟨hne.1, hne.2, hstage⟩, fun _ => rfl,
          callStage_update hl fun c => { c with phase := .completed }, htidy.texts, htidy.calls,
          htidy.parents⟩

/-! ## Events -/

theorem custom_outcome (ht : r.Tidy) (timestamp : Nat) (name : String) (value : Json) :
    r.Outcome (.custom name value) (r.event timestamp (.custom name value)) := by
  rw [event]
  split
  · rename_i hname
    unfold userMessage
    cases hm : decodeJson Message.decode value with
    | error fault =>
      intro h
      obtain ⟨m, hok, -⟩ := h hname
      rw [hm] at hok
      cases hok
    | ok m =>
      simp only
      split
      · rename_i hrole
        intro h
        obtain ⟨m', hok, huser⟩ := h hname
        rw [hm] at hok
        cases hok
        exact hrole huser
      · rename_i hrole
        exact ⟨fun _ => ⟨m, hm, Decidable.not_not.1 hrole⟩, fun _ => rfl, fun _ => rfl, ht.texts,
          ht.calls, ht.parents⟩
  · rename_i hname
    exact ⟨fun h => absurd h hname, fun _ => rfl, fun _ => rfl, ht.texts, ht.calls, ht.parents⟩

/-- **What a replay accepts.**  An event is accepted and the replay goes on with it, or it is not
accepted and fails. -/
theorem event_outcome (ht : r.Tidy) (timestamp : Nat) (b : Body) :
    r.Outcome b (r.event timestamp b) := by
  cases b with
  | textStart id role => exact textStart_outcome ht id role
  | textContent id delta => exact textContent_outcome ht id delta
  | textEnd id => exact textEnd_outcome ht id
  | textChunk id role delta => exact textChunk_outcome ht id role delta
  | toolStart id name parent => exact toolStart_outcome ht id name parent
  | toolArgs id delta => exact toolArgs_outcome ht id delta
  | toolEnd id => exact toolEnd_outcome ht id
  | toolResult messageId callId content role =>
    exact toolResult_outcome ht messageId callId content role
  | custom name value => exact custom_outcome ht timestamp name value
  | _ => exact ⟨trivial, fun _ => rfl, fun _ => rfl, ht.texts, ht.calls, ht.parents⟩

end Replay

end AgentStream
