/-
# Messages that start again

A framer frames the report of a model only if it has not seen the response before.  A chat response
is framed unless its message is the one spoken of last, so a message that comes back behind another
one starts again, and this is the only way in which one does.

* `started` : the messages that start, in their order;
* `Framer.ComesBack` : an output begins a message that was started before;
* `Framer.started_translate` : the messages that an output starts;
* `Framer.nodup_started` : every message starts once if none comes back, and only then;
* `Framer.started_translateAll` : so of outputs, and what the replay of their events says.
-/
import AgentStream.Proofs.Framing.Moves
import AgentStream.Proofs.Framing.Said
import AgentStream.Proofs.Replay.Causes

namespace AgentStream

open Engine (Output Response ModelReport ToolReport CustomReport)

/-! ## Starts -/

/-- The message that an event starts. -/
def Body.starts? : Body → Option String
  | textStart id _ => some id
  | _ => none

/-- The event starts a text or a tool call. -/
def Body.isStart : Body → Bool
  | textStart .. => true
  | toolStart .. => true
  | _ => false

/-- The messages that start, in their order. -/
def started (events : List Event) : List String := events.filterMap (·.body.starts?)

variable {events events' : List Event}

@[simp] theorem started_append (events events' : List Event) :
    started (events ++ events') = started events ++ started events' :=
  List.filterMap_append

namespace Engine

/-- The text with which a response may begin a message, if it is a chat response. -/
def Response.text (r : Response) : String :=
  match r.choices with
  | [] => ""
  | c :: _ =>
    if r.object = chunkKind then c.delta.content
    else if r.object = completionKind then c.message.content
    else ""

end Engine

namespace Framer

/-- The message that the response of an output begins: one that comes with a text, unless it is
spoken of already. -/
def begins? (f : Framer) (o : Output) : Option String :=
  (o.response.filter fun r => r.error.isNone && !r.text.isEmpty && f.lastId != r.id).map (·.id)

/-- The response of an output begins a message that was started before, by one of the outputs
before it or by its own reports. -/
def ComesBack (f : Framer) (before : List String) (o : Output) : Prop :=
  ∃ id ∈ before ++ started (f.reports o).1, (f.reports o).2.begins? o = some id

variable {f g : Framer} {fresh : String} {o : Output}

/-! ## Starts of an output -/

theorem started_andThen (s : Step) (next : Framer → Step) :
    started (andThen s next).1 = started s.1 ++ started (next s.2).1 :=
  started_append _ _

theorem started_ite {c : Prop} [Decidable c] {s : Step} (hs : started s.1 = []) :
    started (if c then s else ([], f)).1 = [] := by
  split
  · exact hs
  · rfl

@[simp] theorem started_close (f : Framer) : started f.close.1 = [] := by
  unfold close
  split <;> rfl

theorem started_wholeCall (id name : String) (parent arguments : Option String) :
    started (wholeCall id name parent arguments) = [] := by
  cases arguments <;> rfl

theorem started_calls (parent : Option String) (calls : List ToolCall) (f : Framer) :
    started (Framer.calls parent calls f).1 = [] := by
  induction calls generalizing f with
  | nil => rfl
  | cons call rest ih =>
    unfold Framer.calls
    split
    · exact ih f
    · rw [started_andThen, started_wholeCall, ih]
      rfl

theorem started_toolCalls (f : Framer) (r : Response) : started (f.toolCalls r).1 = [] :=
  started_calls _ _ f

theorem started_toolResults (f : Framer) (fresh : String) (o : Output) (r : Response) :
    started (f.toolResults fresh o r).1 = [] := by
  show started (List.map _ _) = []
  rw [started, List.filterMap_map, List.filterMap_eq_nil_iff]
  exact fun _ _ => rfl

/-- A piece of another message than the one spoken of last starts it, unless it is empty. -/
theorem started_chunk (f : Framer) (r : Response) (hk : r.object = Response.chunkKind) :
    started (f.chunk r).1 = if !r.text.isEmpty && f.lastId != r.id then [r.id] else [] := by
  unfold chunk Engine.Response.text
  cases r.choices with
  | nil => rfl
  | cons c rest =>
    have hpiece : started (if c.delta.content.isEmpty then []
        else [(Body.textContent r.id c.delta.content : Event)]) = [] := by
      split <;> rfl
    have hending : started (if !(c.finishReason.getD "").isEmpty then
        [(Body.textEnd r.id : Event)] else []) = [] := by
      split <;> rfl
    have hlast : (f.seeResponse r.id).lastId = f.lastId := rfl
    simp only [hk, if_true, hlast]
    by_cases hid : f.lastId = r.id
    · simp only [hid, if_true, bne_self_eq_false, Bool.and_false, Bool.false_eq_true, if_false]
      split
      · rw [started_append, hpiece, hending]
        rfl
      · rfl
    · rw [if_neg hid, bne_iff_ne.2 hid]
      by_cases hempty : c.delta.content.isEmpty = true
      · rw [if_pos hempty, hempty]
        rfl
      · have hstart : started ((f.seeResponse r.id).close.1
            ++ [(Body.textStart r.id c.delta.role.shown : Event)]) = [r.id] := by
          rw [started_append, started_close]
          rfl
        rw [if_neg hempty, started_append, started_append, hstart, hpiece, hending,
          Bool.eq_false_iff.2 hempty]
        rfl

/-- A whole message other than the one spoken of last is started, unless it is empty. -/
theorem started_completion (f : Framer) (r : Response) (hk : r.object = Response.completionKind) :
    started (f.completion r).1 = if !r.text.isEmpty && f.lastId != r.id then [r.id] else [] := by
  have hne : Response.completionKind ≠ Response.chunkKind := by decide
  unfold completion Engine.Response.text
  cases r.choices with
  | nil => rfl
  | cons c rest =>
    have hlast : (f.seeResponse r.id).lastId = f.lastId := rfl
    simp only [hk, hne, if_true, if_false, hlast]
    by_cases hid : f.lastId = r.id
    · rw [if_pos hid, bne_eq_false_iff_eq.2 hid, Bool.and_false]
      exact started_close _
    · rw [if_neg hid, bne_iff_ne.2 hid]
      by_cases hempty : c.message.content.isEmpty = true
      · rw [if_pos hempty, hempty]
        rfl
      · rw [if_neg hempty, started_append, started_close, Bool.eq_false_iff.2 hempty]
        rfl

/-- The text of a response starts what the response begins. -/
theorem started_textOf (f : Framer) (r : Response) :
    started (textOf r f).1 = if !r.text.isEmpty && f.lastId != r.id then [r.id] else [] := by
  unfold textOf
  by_cases hchunk : r.object = Response.chunkKind
  · rw [if_pos hchunk]
    exact started_chunk f r hchunk
  · rw [if_neg hchunk]
    by_cases hwhole : r.object = Response.completionKind
    · rw [if_pos hwhole]
      exact started_completion f r hwhole
    · have hempty : r.text = "" := by
        unfold Engine.Response.text
        cases r.choices with
        | nil => rfl
        | cons c rest => simp only [if_neg hchunk, if_neg hwhole]
      rw [if_neg hwhole, hempty]
      rfl

/-- So does the response: its tool calls, its results and the end of the run start nothing. -/
theorem started_response (f : Framer) (fresh : String) (o : Output) (r : Response) :
    started (response fresh o r f).1
      = if !r.text.isEmpty && f.lastId != r.id then [r.id] else [] := by
  have hends (f : Framer) : started (ends r f).1 = [] := by
    refine started_ite ?_
    rw [started_andThen, started_close]
    rfl
  rw [response_eq, started_andThen, hends, List.append_nil]
  unfold respond
  rw [started_andThen, started_andThen, started_textOf, started_ite (started_toolCalls _ r),
    started_ite (started_toolResults _ fresh o r), List.append_nil, List.append_nil]

/-- The report of a model starts its message, unless the response was seen before. -/
theorem started_modelReport (f : Framer) (m : ModelReport) : started (f.modelReport m).1 = [] ∨
    m.responseId ∉ f.seenResponses ∧ started (f.modelReport m).1 = [m.responseId] := by
  unfold modelReport
  split
  · exact .inl rfl
  · rename_i hm
    refine .inr ⟨fun hseen => hm (by simp [hseen]), ?_⟩
    have hclose : started (if f.lastId = m.responseId then ([], f) else f.close).1 = [] := by
      split
      · rfl
      · exact started_close f
    show started ((if f.lastId = m.responseId then ([], f) else f.close).1 ++ _) = _
    rw [started_append, hclose]
    rfl

theorem started_toolReport (f : Framer) (t : ToolReport) : started (f.toolReport t).1 = [] := by
  unfold toolReport
  split
  · rfl
  · exact started_wholeCall _ _ _ _

theorem started_customReport (f : Framer) (c : CustomReport) :
    started (f.customReport c).1 = [] := by
  unfold customReport
  split
  · rfl
  · split <;> rfl
  · rfl

/-- What a report starts: what its step starts, if there is a step. -/
theorem started_reported {α : Type} {P : List String → Prop} (o : Output) (key kind : String)
    (dec : Decoder α) (step : Framer → α → Step) (f : Framer) (hn : P [])
    (hs : ∀ a, P (started (step f a).1)) :
    P (started (reported o key kind dec step f).1) := by
  unfold reported report
  cases o.blob? key with
  | none => exact hn
  | some raw =>
    simp only
    cases decodeText dec raw with
    | ok a => exact hs a
    | error fault => exact hn

/-- The reports of an output start at most one message, of a response that was not seen before. -/
theorem started_reports (f : Framer) (o : Output) : started (f.reports o).1 = [] ∨
    ∃ id, id ∉ f.seenResponses ∧ started (f.reports o).1 = [id] := by
  have hmodel := started_reported
    (P := fun ids => ids = [] ∨ ∃ id, id ∉ f.seenResponses ∧ ids = [id])
    o Engine.modelKey "model" ModelReport.record.decode modelReport f (.inl rfl)
    fun m => (f.started_modelReport m).imp id fun h => ⟨_, h⟩
  have htool (f : Framer) := started_reported (P := (· = [])) o Engine.toolKey "tool"
    ToolReport.record.decode toolReport f rfl f.started_toolReport
  have hcustom (f : Framer) := started_reported (P := (· = [])) o Engine.customKey "node custom"
    CustomReport.record.decode customReport f rfl f.started_customReport
  unfold reports
  simp only
  rw [started_andThen, started_andThen, htool, hcustom, List.append_nil, List.append_nil]
  exact hmodel

/-- **What an output starts**: the message of its reports, and the one that its response begins. -/
theorem started_translate (f : Framer) (fresh : String) (o : Output) :
    started (f.translate fresh o).1
      = started (f.reports o).1 ++ ((f.reports o).2.begins? o).toList := by
  rw [translate_eq, begins?]
  cases o.response with
  | none => exact (List.append_nil _).symm
  | some r =>
    cases he : r.error with
    | some e =>
      simp only [he]
      rw [started_andThen]
      simp [Option.filter, he]
      rfl
    | none =>
      simp only [he]
      rw [started_andThen, started_response]
      congr 1
      simp only [Option.filter, he, Option.isNone_none, Bool.true_and]
      split <;> rfl

/-! ## Outputs one after the other -/

/-- A framer does not forget what it has seen, and has seen every message that it starts. -/
theorem Move.seen {fresh : String → Prop} (hm : Move fresh f events g) :
    f.seenResponses ⊆ g.seenResponses ∧ started events ⊆ g.seenResponses := by
  cases hm with
  | sees id => exact ⟨fun _ => List.mem_insert_of_mem, List.nil_subset _⟩
  | opens id role hc hs => exact ⟨fun _ h => h, fun _ h => List.mem_singleton.1 h ▸ hs⟩
  | frames id name parent arguments =>
    rw [started_wholeCall]
    exact ⟨fun _ h => h, List.nil_subset _⟩
  | asides e he =>
    have hnone : started [e] = [] := by
      rw [started, List.filterMap_cons_none, List.filterMap_nil]
      cases hb : e.body <;> simp [hb, Body.isAside, Body.starts?] at he ⊢
    rw [hnone]
    exact ⟨fun _ h => h, List.nil_subset _⟩
  | _ => exact ⟨fun _ h => h, List.nil_subset _⟩

theorem Moves.seen {fresh : String → Prop} (hm : Moves fresh f events g) :
    f.seenResponses ⊆ g.seenResponses ∧ started events ⊆ g.seenResponses := by
  induction hm with
  | none => exact ⟨fun _ h => h, List.nil_subset _⟩
  | next hm _ ih =>
    rw [started_append]
    exact ⟨List.Subset.trans hm.seen.1 ih.1,
      List.append_subset.2 ⟨List.Subset.trans hm.seen.2 ih.1, ih.2⟩⟩

/-- Behind messages that were all seen, an output starts no message again unless one comes back. -/
theorem nodup_translate {before : List String} (hn : before.Nodup)
    (hseen : before ⊆ f.seenResponses) (fresh : String) (o : Output) :
    (before ++ started (f.translate fresh o).1).Nodup ↔ ¬f.ComesBack before o := by
  have hreports : (before ++ started (f.reports o).1).Nodup := by
    rcases f.started_reports o with hnone | ⟨id, hid, hone⟩
    · rw [hnone, List.append_nil]
      exact hn
    · rw [hone]
      exact List.nodup_append.2 ⟨hn, List.pairwise_singleton _ id, fun _ hx _ hy h =>
        hid (hseen (List.mem_singleton.1 hy ▸ h ▸ hx))⟩
  rw [started_translate, ← List.append_assoc, ComesBack]
  cases (f.reports o).2.begins? o with
  | none =>
    rw [Option.toList_none, List.append_nil]
    exact iff_of_true hreports fun ⟨_, _, h⟩ => nomatch h
  | some id =>
    rw [Option.toList_some, List.nodup_append]
    constructor
    · rintro ⟨-, -, hdisjoint⟩ ⟨_, hmem, h⟩
      cases h
      exact hdisjoint id hmem id (List.mem_singleton_self id) rfl
    · intro h
      refine ⟨hreports, List.pairwise_singleton _ id, fun x hx y hy he => h ⟨id, ?_, rfl⟩⟩
      rw [← List.mem_singleton.1 hy, ← he]
      exact hx

/-- Every message starts once if none comes back, and only then. -/
theorem nodup_started {before : List String} (hn : before.Nodup)
    (hseen : before ⊆ f.seenResponses) (hf : f.Framed) (outputs : List (String × Output)) :
    (before ++ started (translateAll outputs f).1).Nodup ↔
      ∀ front x behind, outputs = front ++ x :: behind →
        ¬(translateAll front f).2.ComesBack
          (before ++ started (translateAll front f).1) x.2 := by
  induction outputs generalizing f before with
  | nil =>
    refine iff_of_true ?_ fun front x behind h => by simp at h
    show (before ++ []).Nodup
    rw [List.append_nil]
    exact hn
  | cons x rest ih =>
    obtain ⟨fresh, o⟩ := x
    have hm : Moves (fun _ => True) f (f.translate fresh o).1 (f.translate fresh o).2 :=
      translate_moves hf trivial o
    -- The first output starts what it starts, and the others go on from there.
    have hsplit (outputs : List (String × Output)) :
        before ++ started (translateAll ((fresh, o) :: outputs) f).1
          = before ++ started (f.translate fresh o).1
            ++ started (translateAll outputs (f.translate fresh o).2).1 := by
      rw [List.append_assoc, ← started_andThen]
      rfl
    have hlast (outputs : List (String × Output)) : (translateAll ((fresh, o) :: outputs) f).2
        = (translateAll outputs (f.translate fresh o).2).2 := rfl
    by_cases hfirst : (before ++ started (f.translate fresh o).1).Nodup
    · have hrest := ih hfirst
        (List.append_subset.2 ⟨List.Subset.trans hseen hm.seen.1, hm.seen.2⟩) (hm.framed hf)
      rw [hsplit, hrest]
      constructor
      · intro h front x behind he
        rcases List.cons_eq_append_iff.1 he with ⟨rfl, hx⟩ | ⟨front, rfl, hx⟩
        · cases hx
          show ¬f.ComesBack (before ++ []) o
          rw [List.append_nil]
          exact (nodup_translate hn hseen fresh o).1 hfirst
        · rw [hsplit, hlast]
          exact h front x behind hx
      · intro h front x behind he
        have hback := h ((fresh, o) :: front) x behind (congrArg _ he)
        rw [hsplit, hlast] at hback
        exact hback
    · refine iff_of_false ?_ fun h => hfirst ((nodup_translate hn hseen fresh o).2 ?_)
      · rw [hsplit]
        exact fun h => hfirst (List.nodup_append.1 h).1
      · have hback := h [] (fresh, o) rest rfl
        change ¬f.ComesBack (before ++ []) o at hback
        rw [List.append_nil] at hback
        exact hback

/-! ## Replays -/

/-- The events of frames carry nothing else, and no text is said in one piece. -/
theorem translateAll_bare (outputs : List (String × Output)) (f : Framer) :
    ∀ e ∈ (translateAll outputs f).1, e.Bare ∧ (e.kind == "TEXT_MESSAGE_CHUNK") = false := by
  have hframe (b : Body) (hb : b.isFrame = true) :
      (b : Event).Bare ∧ ((b : Event).kind == "TEXT_MESSAGE_CHUNK") = false := by
    refine ⟨fun _ => rfl, ?_⟩
    cases b <;> first | rfl | cases hb
  refine forall_translateAll (fun f fresh o => forall_translate f fresh o hframe
    (fun _ _ => ⟨nofun, rfl⟩) (fun _ _ => ⟨nofun, rfl⟩) fun _ c _ _ f => ?_) outputs f
  exact forall_customReport hframe (fun _ _ => ⟨nofun, rfl⟩) f c

/-- A message that starts at an event was not started before it, if every message starts once. -/
theorem notMem_of_nodup {front behind : List Body} {id : String} {role role' : Role}
    (hn : (started events).Nodup)
    (he : events.map (·.body) = front ++ Body.textStart id role :: behind) :
    Body.textStart id role' ∉ front := by
  intro hmem
  have hstarted : started events
      = front.filterMap Body.starts? ++ id :: behind.filterMap Body.starts? := by
    have hmap : started events = (events.map (·.body)).filterMap Body.starts? := by
      rw [List.filterMap_map]
      rfl
    rw [hmap, he, List.filterMap_append]
    rfl
  rw [hstarted, List.nodup_append] at hn
  exact hn.2.2 id (List.mem_filterMap.2 ⟨_, hmem, rfl⟩) id List.mem_cons_self rfl

/-- If every message starts once, a replay that finds one started again has seen a tool call from
it before. -/
theorem duplicate_of_nodup (hb : ∀ e ∈ events, e.Bare ∧ (e.kind == "TEXT_MESSAGE_CHUNK") = false)
    (hn : (started events).Nodup) {stored : List Event} {log : List Entry}
    (hj : Joins Merger.merge? events stored) (hl : Holds log stored) {app user id : String}
    (h : (replay app user log).error = some (.duplicateTextStart id)) :
    ∃ front role behind, events.map (·.body) = front ++ Body.textStart id role :: behind ∧
      ∃ b ∈ front, b.CallsFrom id := by
  obtain ⟨said, role, rest, hlog, b, hsaid, hbegun⟩ := replay_duplicate h
  -- The starts of the log are those of the events.
  have hstarts := filter_bodies hl hj (fun e he => (hb e he).1) (p := Body.isStart)
    (fun b hb => by cases b <;> first | rfl | cases hb) fun _ _ => rfl
  rw [hlog, List.filter_append, List.filter_cons_of_pos rfl] at hstarts
  obtain ⟨front, tail, hevents, hfront, htail⟩ := List.filter_eq_append_iff.1 hstarts.symm
  obtain ⟨between, behind, rfl, -, -, -⟩ := List.filter_eq_cons_iff.1 htail
  rw [← List.append_assoc] at hevents
  have hmem (hs : b.isStart = true) : b ∈ front ++ between := by
    have hfiltered : b ∈ front.filter Body.isStart := hfront ▸ List.mem_filter.2 ⟨hsaid, hs⟩
    exact List.mem_append_left _ (List.mem_of_mem_filter hfiltered)
  rcases hbegun with hopens | hcalls
  · cases b with
    | textStart id' role' =>
      obtain rfl : id' = id := hopens
      exact absurd (hmem rfl) (notMem_of_nodup hn hevents)
    | textChunk =>
      have hlogged := hlog ▸ List.mem_append_left _ hsaid
      obtain ⟨e, he, hkind⟩ := kind_of_mem_bodies hl hj hlogged
      exact absurd hkind (beq_eq_false_iff_ne.1 (hb e he).2)
    | _ => exact hopens.elim
  · cases b with
    | toolStart => exact ⟨front ++ between, role, behind, hevents, _, hmem rfl, hcalls⟩
    | _ => exact hcalls.elim

/-- **Messages that start again.**  Whatever outputs a new framer is given: every message starts
once if no output brings one back, and only then.  A replay of what was recorded of the events, with
pieces merged in any way, then finds a text started twice only because a tool call from it, which
makes it known, came before its one start. -/
theorem started_translateAll (threadId runId : String) (outputs : List (String × Output)) :
    let new : Framer := { threadId, runId }
    let (events, _) := translateAll outputs new
    ((started events).Nodup ↔ ∀ front x behind, outputs = front ++ x :: behind →
      let (before, f) := translateAll front new
      ¬f.ComesBack (started before) x.2) ∧
    ((started events).Nodup → ∀ stored log, Joins Merger.merge? events stored →
      Holds log stored → ∀ app user id,
        (replay app user log).error = some (.duplicateTextStart id) →
        ∃ front role behind, events.map (·.body) = front ++ Body.textStart id role :: behind ∧
          ∃ b ∈ front, b.CallsFrom id) := by
  have hf : Framed { threadId, runId } := nofun
  refine ⟨?_, fun hn stored log hj hl app user id h =>
    duplicate_of_nodup (translateAll_bare outputs _) hn hj hl h⟩
  exact nodup_started List.nodup_nil (List.nil_subset _) hf outputs

/-- A tool is called from a message that is said only behind another one: every message starts once,
and the replay still finds a text started twice, behind the tool call. -/
theorem started_called :
    let called : Engine.Message := { toolCalls := [.ofFunction "c" "search"] }
    let calling : Response :=
      { id := "m", object := Response.completionKind, choices := [{ message := called }] }
    let outputs : List Output := [{ id := "o-1", response := some calling },
      { id := "o-2", response := some (.completion "n" "b") },
      { id := "o-3", response := some (.completion "m" "a") }]
    let (events, _) := translateAll (outputs.map fun o => ("", o)) { threadId := "t", runId := "r" }
    started events = ["n", "m"] ∧
      (replay "app" "user" (events.mapIdx fun i e => .ofEvent i e)).error
        = some (.duplicateTextStart "m") ∧
      ∃ front role behind, events.map (·.body) = front ++ Body.textStart "m" role :: behind ∧
        ∃ b ∈ front, b.CallsFrom "m" := by
  intro called calling outputs
  have hn : (started (translateAll (outputs.map fun o => ("", o))
      { threadId := "t", runId := "r" }).1).Nodup := by decide +kernel
  have herror : (replay "app" "user" ((translateAll (outputs.map fun o => ("", o))
      { threadId := "t", runId := "r" }).1.mapIdx fun i e => .ofEvent i e)).error
        = some (.duplicateTextStart "m") := by decide +kernel
  have htwice := (started_translateAll "t" "r" (outputs.map fun o => ("", o))).2 hn _ _
    (Joins.refl _) (holds_mapIdx _ _) "app" "user" "m" herror
  exact ⟨by decide +kernel, herror, htwice⟩

/-- A message that was streamed to its end comes back as a whole behind another one. -/
theorem started_aggregate :
    let streamed := (Response.chunk "m" "a").withFinishReason "stop"
    let outputs : List Output := [{ id := "o-1", response := some streamed },
      { id := "o-2", response := some (.completion "n" "b") },
      { id := "o-3", response := some (.completion "m" "a") }]
    let (events, _) := translateAll (outputs.map fun o => ("", o)) { threadId := "t", runId := "r" }
    started events = ["m", "n", "m"] ∧
      (replay "app" "user" (events.mapIdx fun i e => .ofEvent i e)).error
        = some (.duplicateTextStart "m") := by
  decide +kernel

end Framer

end AgentStream
