/-
# A replay accepts exactly the well-framed logs

The events of a text and of a tool call so far tell where it is, and the other way round.

* `TextSoFar`, `CallSoFar` : what the events so far say of where a text and a tool call are;
* `Replay.Traced` : a replay stands where the events so far have brought it;
* `Replay.Traced.next`, `Replay.Traced.accepts` : it goes on with an event that it accepts, and
  accepts every event of well-framed ones;
* `replay_error_eq_none_iff` : the logs whose replay reports no failure.
-/
import AgentStream.Proofs.Replay.Stages

namespace AgentStream

open Body

variable {id : String} {bodies rest : List Body} {b : Body} {stage : Option Bool}

/-! ## Events of one text and of one call -/

namespace Body

theorem textEvents_concat (bodies : List Body) (hb : b.textId? = some id) :
    textEvents id (bodies ++ [b]) = textEvents id bodies ++ [b] := by
  rw [textEvents, List.filter_append, List.filter_cons_of_pos (by exact decide_eq_true hb)]
  rfl

theorem textEvents_concat_other (bodies : List Body) (hb : b.textId? ≠ some id) :
    textEvents id (bodies ++ [b]) = textEvents id bodies := by
  rw [textEvents, List.filter_append, List.filter_cons_of_neg (by simpa using hb)]
  exact List.append_nil _

theorem callEvents_concat (bodies : List Body) (hb : b.callId? = some id) :
    callEvents id (bodies ++ [b]) = callEvents id bodies ++ [b] := by
  rw [callEvents, List.filter_append, List.filter_cons_of_pos (by exact decide_eq_true hb)]
  rfl

theorem callEvents_concat_other (bodies : List Body) (hb : b.callId? ≠ some id) :
    callEvents id (bodies ++ [b]) = callEvents id bodies := by
  rw [callEvents, List.filter_append, List.filter_cons_of_neg (by simpa using hb)]
  exact List.append_nil _

/-- An event of a text stands between the events before it and those behind it. -/
theorem textEvents_cons (hb : b.textId? = some id) :
    textEvents id (bodies ++ b :: rest) = textEvents id bodies ++ b :: textEvents id rest := by
  rw [textEvents, List.filter_append, List.filter_cons_of_pos (by exact decide_eq_true hb)]
  rfl

theorem callEvents_cons (hb : b.callId? = some id) :
    callEvents id (bodies ++ b :: rest) = callEvents id bodies ++ b :: callEvents id rest := by
  rw [callEvents, List.filter_append, List.filter_cons_of_pos (by exact decide_eq_true hb)]
  rfl

theorem textId?_of_opens (hb : b.OpensText id) : b.textId? = some id := by
  cases b with
  | textStart => exact congrArg some hb
  | textChunk => exact hb
  | _ => exact hb.elim

/-- An event that neither belongs to a text nor calls a tool from it leaves it where it is. -/
theorem textAfter_other (hb : b.textId? ≠ some id) (hc : ¬b.CallsFrom id) :
    b.textAfter id stage = stage := by
  cases b with
  | textStart => exact if_neg fun h => hb (congrArg some h)
  | textEnd => exact if_neg fun h => hb (congrArg some h)
  | textChunk => exact if_neg hb
  | toolStart => exact if_neg hc
  | _ => rfl

theorem callAfter_other {stage : Option CallPhase} (hb : b.callId? ≠ some id) :
    b.callAfter id stage = stage := by
  cases b with
  | toolStart => exact if_neg fun h => hb (congrArg some h)
  | toolEnd => exact if_neg fun h => hb (congrArg some h)
  | toolResult => exact if_neg fun h => hb (congrArg some h)
  | _ => rfl

theorem attached_concat : Attached id (bodies ++ [b]) ↔
    Attached id bodies ∧ ∀ a ∈ bodies, a.CallsFrom id → ¬b.OpensText id := by
  rw [Attached, List.pairwise_append]
  simp [Attached]

/-- A text from which no tool is called may begin anywhere. -/
theorem attached_of_free (h : ∀ b ∈ bodies, ¬b.CallsFrom id) : Attached id bodies := by
  induction bodies with
  | nil => exact List.Pairwise.nil
  | cons b bodies ih =>
    refine List.Pairwise.cons (fun _ _ hab => h b List.mem_cons_self hab.1) (ih fun b hb => ?_)
    exact h b (List.mem_cons_of_mem _ hb)

end Body

/-! ## What the events so far say -/

/-- What the events so far say of where a text is. -/
inductive TextSoFar (id : String) (bodies : List Body) : Option Bool → Prop
  | unknown (events : textEvents id bodies = []) (free : ∀ b ∈ bodies, ¬b.CallsFrom id) :
      TextSoFar id bodies none
  | started {role : Role} {deltas : List String}
      (events : textEvents id bodies = textStart id role :: deltas.map (textContent id))
      (named : id ≠ "") (speaks : role.Speaks) (attached : Attached id bodies) :
      TextSoFar id bodies (some false)
  /-- It has ended, or a tool was called from it before it began. -/
  | ended (shape : TextShape id (textEvents id bodies)) (attached : Attached id bodies)
      (known : textEvents id bodies ≠ [] ∨ ∃ b ∈ bodies, b.CallsFrom id) :
      TextSoFar id bodies (some true)

/-- What the events so far say of where a tool call is. -/
inductive CallSoFar (id : String) (bodies : List Body) : Option CallPhase → Prop
  | unknown (events : callEvents id bodies = []) : CallSoFar id bodies none
  | calling {name parent : String} {deltas : List String}
      (events : callEvents id bodies = Body.calling id name parent deltas) (named : id ≠ "") :
      CallSoFar id bodies (some .awaitingArgs)
  | called {name parent : String} {deltas : List String}
      (events : callEvents id bodies = Body.calling id name parent deltas ++ [toolEnd id])
      (named : id ≠ "") : CallSoFar id bodies (some .awaitingResult)
  | answered (shape : CallShape id (callEvents id bodies)) (known : callEvents id bodies ≠ []) :
      CallSoFar id bodies (some .completed)

variable {r r' : Replay}

/-- A text goes on with an event of its own. -/
theorem TextSoFar.own (h : TextSoFar id bodies (r.textStage id)) (ha : r.Accepts b)
    (hb : b.textId? = some id) :
    TextSoFar id (bodies ++ [b]) (b.textAfter id (r.textStage id)) := by
  have hevents := textEvents_concat bodies hb
  -- It is begun where nothing is known of it.
  have hbegun (hn : r.textStage id = none) :
      textEvents id (bodies ++ [b]) = [b] ∧ Attached id (bodies ++ [b]) := by
    rw [hn] at h
    cases h with
    | unknown events free =>
      rw [hevents, events]
      exact ⟨rfl, attached_concat.2 ⟨attached_of_free free, fun a ha hc => absurd hc (free a ha)⟩⟩
  -- It goes on or ends where it has begun.
  have hgone (hs : r.textStage id = some false) (ho : ¬b.OpensText id) :
      ∃ role deltas, textEvents id (bodies ++ [b])
          = textStart id role :: (List.map (textContent id) deltas ++ [b]) ∧
        id ≠ "" ∧ Role.Speaks role ∧ Attached id (bodies ++ [b]) := by
    rw [hs] at h
    cases h with
    | @started role deltas events named speaks attached =>
      rw [hevents, events]
      exact ⟨role, deltas, rfl, named, speaks, attached_concat.2 ⟨attached, fun _ _ _ => ho⟩⟩
  cases b with
  | textStart id' role =>
    cases hb
    obtain ⟨hid, hn, hrole⟩ := ha
    obtain ⟨events, attached⟩ := hbegun hn
    rw [textAfter, if_pos rfl]
    exact @TextSoFar.started id _ role [] events hid hrole attached
  | textContent id' delta =>
    cases hb
    obtain ⟨role, deltas, events, named, speaks, attached⟩ := hgone ha fun h => h
    rw [show (textContent id delta).textAfter id (r.textStage id) = some false from ha]
    refine @TextSoFar.started id _ role (deltas ++ [delta]) ?_ named speaks attached
    rw [events, List.map_append]
    rfl
  | textEnd id' =>
    cases hb
    obtain ⟨role, deltas, events, named, speaks, attached⟩ := hgone ha fun h => h
    rw [textAfter, if_pos rfl]
    refine .ended ?_ attached (.inl ?_)
    · rw [events]
      exact .streamed deltas named speaks
    · rw [events]
      exact List.cons_ne_nil _ _
  | textChunk id' role delta =>
    cases hb
    obtain ⟨id, hsome, hid, hn, hrole⟩ := ha
    cases hsome
    obtain ⟨events, attached⟩ := hbegun hn
    rw [textAfter, if_pos rfl]
    refine .ended ?_ attached (.inl ?_)
    · rw [events]
      exact .whole delta hid hrole
    · rw [events]
      exact List.cons_ne_nil _ _
  | _ => cases hb

/-- A text goes on with an event that is not its own, but may call a tool from it. -/
theorem TextSoFar.other (h : TextSoFar id bodies stage) (hb : b.textId? ≠ some id) :
    TextSoFar id (bodies ++ [b]) (b.textAfter id stage) := by
  have hopens : ¬b.OpensText id := fun ho => hb (textId?_of_opens ho)
  have hevents := textEvents_concat_other bodies hb
  have hattached (ha : Attached id bodies) : Attached id (bodies ++ [b]) :=
    attached_concat.2 ⟨ha, fun _ _ _ => hopens⟩
  by_cases hc : b.CallsFrom id
  · -- A tool call makes the text known.
    have hstage : b.textAfter id stage = some (stage.getD true) := by
      cases b with
      | toolStart => exact if_pos hc
      | _ => exact hc.elim
    rw [hstage]
    cases h with
    | unknown events free =>
      refine .ended ?_ (hattached (attached_of_free free)) (.inr ⟨b, by simp, hc⟩)
      rw [hevents, events]
      exact .absent
    | started events named speaks attached =>
      exact .started (hevents.trans events) named speaks (hattached attached)
    | ended shape attached known =>
      exact .ended (hevents ▸ shape) (hattached attached) (.inr ⟨b, by simp, hc⟩)
  · rw [textAfter_other hb hc]
    cases h with
    | unknown events free =>
      refine .unknown (hevents.trans events) fun a ha => ?_
      rcases List.mem_append.1 ha with ha | ha
      · exact free a ha
      · rw [List.mem_singleton.1 ha]
        exact hc
    | started events named speaks attached =>
      exact .started (hevents.trans events) named speaks (hattached attached)
    | ended shape attached known =>
      refine .ended (hevents ▸ shape) (hattached attached) (known.imp (hevents ▸ ·) ?_)
      exact fun ⟨a, ha, hac⟩ => ⟨a, List.mem_append_left _ ha, hac⟩

theorem CallSoFar.next (h : CallSoFar id bodies (r.callStage id)) (ha : r.Accepts b) :
    CallSoFar id (bodies ++ [b]) (b.callAfter id (r.callStage id)) := by
  by_cases hb : b.callId? = some id
  · have hevents := callEvents_concat bodies hb
    cases b with
    | toolStart id' name parent =>
      cases hb
      obtain ⟨hid, hn, parent, rfl⟩ := ha
      rw [hn] at h
      cases h with
      | unknown events =>
        rw [callAfter, if_pos rfl]
        refine @CallSoFar.calling id _ name parent [] ?_ hid
        rw [hevents, events]
        rfl
    | toolArgs id' delta =>
      cases hb
      rw [show r.callStage id = some .awaitingArgs from ha] at h ⊢
      cases h with
      | @calling name parent deltas events named =>
        refine @CallSoFar.calling id _ name parent (deltas ++ [delta]) ?_ named
        rw [hevents, events, Body.calling, Body.calling, List.map_append]
        rfl
    | toolEnd id' =>
      cases hb
      rw [show r.callStage id = some .awaitingArgs from ha] at h
      cases h with
      | calling events named =>
        rw [callAfter, if_pos rfl]
        exact .called (by rw [hevents, events]) named
    | toolResult messageId id' content role =>
      cases hb
      obtain ⟨hm, hid, hs⟩ := ha
      rw [hs] at h
      cases h with
      | called events named =>
        rw [callAfter, if_pos rfl]
        rw [events, List.append_assoc] at hevents
        refine .answered ?_ ?_
        · rw [hevents]
          exact .whole _ named hm
        · rw [hevents]
          exact List.cons_ne_nil _ _
    | _ => cases hb
  · have hevents := callEvents_concat_other bodies hb
    rw [callAfter_other hb]
    cases h' : r.callStage id with
    | none =>
      rw [h'] at h
      cases h with
      | unknown events => exact .unknown (hevents.trans events)
    | some phase =>
      rw [h'] at h
      cases h with
      | calling events named => exact .calling (hevents.trans events) named
      | called events named => exact .called (hevents.trans events) named
      | answered shape known => exact .answered (hevents ▸ shape) (hevents ▸ known)

/-- A text that nothing has been said of is not known. -/
theorem TextSoFar.eq_none (h : TextSoFar id bodies stage) (events : textEvents id bodies = [])
    (free : ∀ a ∈ bodies, ¬a.CallsFrom id) : stage = none := by
  cases h with
  | unknown => rfl
  | started events' => cases events.symm.trans events'
  | ended shape attached known =>
    rcases known with known | ⟨a, ha, hac⟩
    · exact absurd events known
    · exact absurd hac (free a ha)

/-- A text that has started and not ended is open. -/
theorem TextSoFar.eq_started (h : TextSoFar id bodies stage) {role : Role} {deltas : List String}
    (events : textEvents id bodies = textStart id role :: deltas.map (textContent id)) :
    stage = some false := by
  cases h with
  | unknown events' => cases events.symm.trans events'
  | started => rfl
  | ended shape =>
    rw [events] at shape
    exact absurd shape TextShape.not_started

theorem CallSoFar.eq_none {stage : Option CallPhase} (h : CallSoFar id bodies stage)
    (events : callEvents id bodies = []) : stage = none := by
  cases h with
  | unknown => rfl
  | calling events' => cases events.symm.trans events'
  | called events' => cases events.symm.trans events'
  | answered shape known => exact absurd events known

/-- The last event of a call is its result. -/
theorem CallShape.result {events : List Body} (h : CallShape id events) (hne : events ≠ []) :
    ∃ messageId content role, toolResult messageId id content role ∈ events := by
  cases h with
  | absent => exact absurd rfl hne
  | @whole _ _ messageId content role _ _ _ => exact ⟨messageId, content, role, by simp⟩

/-- A call that has been given arguments, and nothing else, takes more of them. -/
theorem CallSoFar.eq_calling {stage : Option CallPhase} (h : CallSoFar id bodies stage)
    {name parent : String} {deltas : List String}
    (events : callEvents id bodies = Body.calling id name parent deltas) :
    stage = some .awaitingArgs := by
  cases h with
  | unknown events' => cases events.symm.trans events'
  | calling => rfl
  | called events' =>
    have hend : toolEnd id ∈ callEvents id bodies := by
      rw [events']
      exact List.mem_append_right _ List.mem_cons_self
    rw [events] at hend
    exact absurd hend (Body.not_mem_calling (.inl rfl))
  | answered shape known =>
    obtain ⟨messageId, content, role, hresult⟩ := shape.result known
    rw [events] at hresult
    exact absurd hresult (Body.not_mem_calling (.inr ⟨_, _, _, rfl⟩))

/-- A call that has ended, and has no result, takes one. -/
theorem CallSoFar.eq_called {stage : Option CallPhase} (h : CallSoFar id bodies stage)
    {name parent : String} {deltas : List String}
    (events : callEvents id bodies = Body.calling id name parent deltas ++ [toolEnd id]) :
    stage = some .awaitingResult := by
  cases h with
  | unknown events' => cases events.symm.trans events'
  | calling events' =>
    have hend : toolEnd id ∈ callEvents id bodies := by
      rw [events]
      exact List.mem_append_right _ List.mem_cons_self
    rw [events'] at hend
    exact absurd hend (Body.not_mem_calling (.inl rfl))
  | called => rfl
  | answered shape known =>
    obtain ⟨messageId, content, role, hresult⟩ := shape.result known
    rw [events] at hresult
    rcases List.mem_append.1 hresult with hresult | hresult
    · exact absurd hresult (Body.not_mem_calling (.inr ⟨_, _, _, rfl⟩))
    · cases List.mem_singleton.1 hresult

/-! ## Replays of events so far -/

/-- A replay stands where the events so far have brought it. -/
structure Replay.Traced (bodies : List Body) (r : Replay) : Prop where
  tidy : r.Tidy
  text : ∀ id, TextSoFar id bodies (r.textStage id)
  call : ∀ id, CallSoFar id bodies (r.callStage id)
  turn : ∀ value, custom userMessageName value ∈ bodies →
    ∃ m, decodeJson Message.decode value = .ok m ∧ m.role = .user
  chunk : ∀ role delta, Body.textChunk none role delta ∉ bodies

namespace Replay

/-- Nothing is known before the first event. -/
theorem traced_nil (app user : String) : ({ app, user } : Replay).Traced [] where
  tidy := ⟨List.nodup_nil, List.nodup_nil, nofun⟩
  text _ := .unknown rfl nofun
  call _ := .unknown rfl
  turn := nofun
  chunk := nofun

/-- A replay goes on with an event that it accepts. -/
theorem Traced.next (ht : r.Traced bodies) (ha : r.Accepts b) (hb : r.Becomes b r') :
    r'.Traced (bodies ++ [b]) where
  tidy := hb.tidy
  text id := by
    rw [hb.text]
    by_cases hid : b.textId? = some id
    · exact (ht.text id).own ha hid
    · exact (ht.text id).other hid
  call id := by
    rw [hb.call]
    exact (ht.call id).next ha
  turn value hv := by
    rcases List.mem_append.1 hv with hv | hv
    · exact ht.turn value hv
    · rw [← List.mem_singleton.1 hv] at ha
      exact ha rfl
  chunk role delta hc := by
    rcases List.mem_append.1 hc with hc | hc
    · exact ht.chunk role delta hc
    · rw [← List.mem_singleton.1 hc] at ha
      obtain ⟨id, hsome, -⟩ := ha
      cases hsome

/-- An event of a text in well-framed ones is accepted. -/
theorem Traced.accepts_text (ht : r.Traced bodies)
    (hw : Body.WellFramed (bodies ++ b :: rest)) (hb : b.textId? = some id) : r.Accepts b := by
  have hshape := hw.text id
  rw [textEvents_cons hb] at hshape
  rcases hshape.split with ⟨hnone, hid, hbegins⟩ | ⟨⟨role, deltas, hstarted⟩, hgoes⟩
  · -- It begins the text, so no tool was called from it.
    have hopens : b.OpensText id := by
      rcases hbegins with ⟨role, -, rfl⟩ | ⟨role, delta, -, rfl⟩ <;> rfl
    have hfree : ∀ a ∈ bodies, ¬a.CallsFrom id := fun a ha hc =>
      (List.pairwise_append.1 (hw.attached id)).2.2 a ha b List.mem_cons_self ⟨hc, hopens⟩
    have hstage := (ht.text id).eq_none hnone hfree
    rcases hbegins with ⟨role, hrole, rfl⟩ | ⟨role, delta, hrole, rfl⟩
    · exact ⟨hid, hstage, hrole⟩
    · exact ⟨id, rfl, hid, hstage, hrole⟩
  · have hstage := (ht.text id).eq_started hstarted
    rcases hgoes with ⟨delta, rfl⟩ | rfl
    · exact hstage
    · exact hstage

/-- An event of a tool call in well-framed ones is accepted. -/
theorem Traced.accepts_call (ht : r.Traced bodies)
    (hw : Body.WellFramed (bodies ++ b :: rest)) (hb : b.callId? = some id) : r.Accepts b := by
  have hshape := hw.call id
  rw [callEvents_cons hb] at hshape
  rcases hshape.split with ⟨hnone, hid, name, parent, rfl⟩
    | ⟨⟨name, parent, deltas, hcalling⟩, hgoes⟩
    | ⟨⟨name, parent, deltas, hcalled⟩, hid, messageId, content, role, hm, rfl⟩
  · exact ⟨hid, (ht.call id).eq_none hnone, parent, rfl⟩
  · have hstage := (ht.call id).eq_calling hcalling
    rcases hgoes with ⟨delta, rfl⟩ | rfl
    · exact hstage
    · exact hstage
  · exact ⟨hm, hid, (ht.call id).eq_called hcalled⟩

/-- A replay accepts every event of well-framed ones. -/
theorem Traced.accepts (ht : r.Traced bodies) (hw : Body.WellFramed (bodies ++ b :: rest)) :
    r.Accepts b := by
  have hmem : b ∈ bodies ++ b :: rest := List.mem_append_right _ List.mem_cons_self
  cases b with
  | textStart id role => exact ht.accepts_text hw rfl
  | textContent id delta => exact ht.accepts_text hw rfl
  | textEnd id => exact ht.accepts_text hw rfl
  | textChunk id role delta =>
    cases id with
    | none => exact absurd hmem (hw.chunk role delta)
    | some id => exact ht.accepts_text hw rfl
  | toolStart id name parent => exact ht.accepts_call hw rfl
  | toolArgs id delta => exact ht.accepts_call hw rfl
  | toolEnd id => exact ht.accepts_call hw rfl
  | toolResult messageId id content role => exact ht.accepts_call hw rfl
  | custom name value =>
    rintro rfl
    exact hw.turn value hmem
  | _ => exact trivial

/-! ## What is left open -/

/-- Nothing is left open if every known text has ended and every known tool call has a result. -/
theorem unfinished_eq_none (ht : r.Tidy) : r.unfinished = none ↔
    (∀ id, r.textStage id ≠ some false) ∧
      ∀ id phase, r.callStage id = some phase → phase = .completed := by
  have htexts : (r.texts.find? fun x => !x.2.ended) = none ↔
      ∀ id, r.textStage id ≠ some false := by
    refine (find?_eq_none_iff_lookup ht.texts fun t => !t.ended).trans ⟨fun h id hs => ?_,
      fun h id t hl => ?_⟩
    · obtain ⟨t, hl, he⟩ := Option.map_eq_some_iff.1 hs
      have hended := h id t hl
      rw [he] at hended
      cases hended
    · cases he : t.ended with
      | true => rfl
      | false => exact absurd (by rw [textStage, hl, Option.map_some, he]) (h id)
  have hcalls : (r.calls.find? fun x => x.2.phase != .completed) = none ↔
      ∀ id phase, r.callStage id = some phase → phase = .completed := by
    refine (find?_eq_none_iff_lookup ht.calls fun c => c.phase != .completed).trans
      ⟨fun h id phase hs => ?_, fun h id c hl => ?_⟩
    · obtain ⟨c, hl, rfl⟩ := Option.map_eq_some_iff.1 hs
      exact bne_eq_false_iff_eq.1 (h id c hl)
    · exact bne_eq_false_iff_eq.2 (h id c.phase (congrArg (Option.map _) hl))
  rw [← htexts, ← hcalls]
  unfold unfinished
  split
  · rename_i hopen
    constructor
    · intro h
      cases h
    · intro h
      cases h.1.symm.trans hopen
  · rename_i hended
    split
    · rename_i hopen
      constructor
      · intro h
        cases h
      · intro h
        cases h.2.symm.trans hopen
    · rename_i hdone
      exact iff_of_true rfl ⟨hended, hdone⟩

/-- A replay leaves nothing open if the events so far are well framed. -/
theorem Traced.unfinished_iff (ht : r.Traced bodies) :
    r.unfinished = none ↔ Body.WellFramed bodies := by
  rw [unfinished_eq_none ht.tidy]
  constructor
  · rintro ⟨htexts, hcalls⟩
    refine ⟨ht.turn, ht.chunk, fun id => ?_, fun id => ?_, fun id => ?_⟩
    · have hsofar := ht.text id
      have hended := htexts id
      generalize r.textStage id = stage at hsofar hended
      cases hsofar with
      | unknown events => exact events ▸ .absent
      | started => exact absurd rfl hended
      | ended shape => exact shape
    · have hsofar := ht.text id
      generalize r.textStage id = stage at hsofar
      cases hsofar with
      | unknown _ free => exact attached_of_free free
      | started _ _ _ attached => exact attached
      | ended _ attached => exact attached
    · have hsofar := ht.call id
      have hdone := hcalls id
      generalize r.callStage id = stage at hsofar hdone
      cases hsofar with
      | unknown events => exact events ▸ .absent
      | calling => cases hdone _ rfl
      | called => cases hdone _ rfl
      | answered shape => exact shape
  · intro hw
    constructor
    · intro id hs
      have hsofar := ht.text id
      rw [hs] at hsofar
      cases hsofar with
      | started events =>
        have hshape := hw.text id
        rw [events] at hshape
        exact TextShape.not_started hshape
    · intro id phase hs
      have hsofar := ht.call id
      rw [hs] at hsofar
      -- A call without a result is not all of a call.
      have hresult (hne : callEvents id bodies ≠ []) := (hw.call id).result hne
      cases hsofar with
      | calling events =>
        rw [events] at hresult
        obtain ⟨_, _, _, hmem⟩ := hresult (List.cons_ne_nil _ _)
        exact absurd hmem (Body.not_mem_calling (.inr ⟨_, _, _, rfl⟩))
      | called events =>
        rw [events] at hresult
        obtain ⟨_, _, _, hmem⟩ := hresult (List.cons_ne_nil _ _)
        rcases List.mem_append.1 hmem with hmem | hmem
        · exact absurd hmem (Body.not_mem_calling (.inr ⟨_, _, _, rfl⟩))
        · cases List.mem_singleton.1 hmem
      | answered => rfl

/-! ## Logs -/

/-- What must hold of the entries of a log behind events. -/
def Continues (bodies : List Body) (log : List Entry) : Prop :=
  (∀ e ∈ log, e.payload ≠ [] → ∃ event, e.event = .ok event) ∧
    Body.WellFramed (bodies ++ log.filterMap Entry.body?)

variable {e : Entry} {log : List Entry}

theorem continues_nil : Continues bodies [] ↔ Body.WellFramed bodies := by
  rw [Continues, List.filterMap_nil, List.append_nil]
  exact and_iff_right nofun

/-- An empty entry says nothing. -/
theorem continues_empty (he : e.payload = []) :
    Continues bodies (e :: log) ↔ Continues bodies log := by
  have hb : e.body? = none := by rw [Entry.body?, he]; rfl
  rw [Continues, Continues, List.filterMap_cons_none hb, List.forall_mem_cons]
  exact and_congr_left fun _ => and_iff_right fun hne => absurd he hne

/-- An entry that can be read says its event. -/
theorem continues_event {event : Event} (he : e.payload ≠ []) (hread : e.event = .ok event) :
    Continues bodies (e :: log) ↔ Continues (bodies ++ [event.body]) log := by
  have hb : e.body? = some event.body := by
    rw [Entry.body?, hread, List.isEmpty_eq_false_iff.2 he]
    rfl
  rw [Continues, Continues, List.filterMap_cons_some hb, List.forall_mem_cons, List.append_assoc]
  exact and_congr_left fun _ => and_iff_right fun _ => ⟨event, hread⟩

/-- The entries of a log behind events are accepted and leave nothing open if they continue them,
and only then. -/
theorem Traced.steps (ht : r.Traced bodies) (log : List Entry) :
    match r.steps log with
    | (r', none) => r'.unfinished = none ↔ Continues bodies log
    | (_, some _) => ¬Continues bodies log := by
  induction log generalizing r bodies with
  | nil => exact ht.unfinished_iff.trans continues_nil.symm
  | cons e log ih =>
    rw [Replay.steps, Replay.step]
    by_cases he : e.payload = []
    · rw [if_pos (List.isEmpty_iff.2 he), continues_empty he]
      exact ih ht
    · rw [if_neg fun h => he (List.isEmpty_iff.1 h)]
      cases hread : e.event with
      | error error =>
        rintro ⟨hall, -⟩
        obtain ⟨event, hok⟩ := hall e List.mem_cons_self he
        rw [hread] at hok
        cases hok
      | ok event =>
        rw [continues_event he hread]
        have houtcome := event_outcome ht.tidy e.timestamp event.body
        simp only
        cases hevent : r.event e.timestamp event.body with
        | error error =>
          rw [hevent] at houtcome
          intro hc
          have hw := hc.2
          rw [List.append_assoc] at hw
          exact houtcome (ht.accepts hw)
        | ok r' =>
          rw [hevent] at houtcome
          exact ih (ht.next houtcome.1 houtcome.2)

end Replay

/-- **A replay accepts exactly the well-framed logs.** -/
theorem replay_error_eq_none_iff (app user : String) (log : List Entry) :
    (replay app user log).error = none ↔ WellFramed log := by
  have hsteps := (Replay.traced_nil app user).steps log
  have hlog : Replay.Continues [] log ↔ WellFramed log :=
    ⟨fun h => ⟨h.1, h.2⟩, fun h => ⟨h.read, h.framed⟩⟩
  rw [← hlog, replay]
  split at hsteps
  · rename_i r hr
    rw [hr]
    exact hsteps
  · rename_i r error hr
    rw [hr]
    exact iff_of_false nofun hsteps

end AgentStream
