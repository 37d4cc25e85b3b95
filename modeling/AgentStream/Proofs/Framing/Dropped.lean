/-
# Texts that are dropped

A chat response says its text unless its message is the one spoken of last and no frame is open,
which is taken to mean that the message was said before.  The message spoken of last is one that was
started, except that a response which calls tools or gives their results may speak of another one
while no frame is open.  So a text whose message was never started is dropped just behind such a
response, or before any message is spoken of if it has the empty id.

* `Framer.Speaks` : a step goes on to speak of the same message, or of one that it starts;
* `Framer.speaksOf_translate` : the message that an output speaks of last;
* `Framer.spoken_translateAll` : so of outputs;
* `Framer.mem_textOf_iff` : when a response says its text;
* `Framer.said_translateAll` : when the text of a message that was not started is said.
-/
import AgentStream.Proofs.Framing.Ends
import AgentStream.Proofs.Framing.Starts

namespace AgentStream

open Engine (Output Response ModelReport ToolReport CustomReport)

/-! ## Frames that were started -/

section Frames

variable {events : List Event} {opened opened' : Option String} {id delta : String}

/-- A message that is left open was open before or was started. -/
theorem started_of_open (h : framesAfter opened events = some (some id)) :
    opened = some id ∨ id ∈ started events := by
  rcases starts_of_framesAfter h with ⟨hopened, -⟩ | ⟨front, e, role, behind, rfl, he, -⟩
  · exact .inl hopened
  · refine .inr (List.mem_filterMap.2 ⟨e, by simp, ?_⟩)
    rw [he]
    rfl

/-- A message of which something is said was open before or was started. -/
theorem started_of_said (h : framesAfter opened events = some opened')
    (hsaid : (Body.textContent id delta : Event) ∈ events) :
    opened = some id ∨ id ∈ started events := by
  obtain ⟨front, behind, rfl⟩ := List.append_of_mem hsaid
  rw [framesAfter_append] at h
  obtain ⟨between, hfront, h⟩ := Option.bind_eq_some_iff.1 h
  rw [framesAfter_cons] at h
  obtain ⟨after, hpiece, -⟩ := Option.bind_eq_some_iff.1 h
  have hopen : between = some id := by
    simp only [frameAfter] at hpiece
    split at hpiece
    · rename_i hbetween
      exact hbetween
    · cases hpiece
  rw [hopen] at hfront
  rw [started_append, List.mem_append]
  exact (started_of_open hfront).imp_right .inl

end Frames

namespace Framer

variable {f g : Framer} {fresh : String} {o : Output} {r : Response}

/-! ## The message spoken of last -/

/-- The message under which an output speaks of tools: that of their results, or else the one that
calls them. -/
def toolsUnder (fresh : String) (o : Output) : Option String :=
  (o.response.filter (·.error.isNone)).bind fun r =>
    if r.object = Response.toolKind || r.givesToolResult then
      some ((nonempty o.id).getD ((nonempty r.id).getD fresh))
    else if r.callsTools then some r.id
    else none

/-- A step starts nothing and goes on to speak of the same message, or it speaks of one that it
starts. -/
def Speaks (f : Framer) (s : Step) : Prop :=
  started s.1 = [] ∧ s.2.lastId = f.lastId ∨ s.2.lastId ∈ started s.1

theorem Speaks.andThen {s : Step} {next : Framer → Step} (hs : Speaks f s)
    (hn : Speaks s.2 (next s.2)) : Speaks f (andThen s next) := by
  rw [Speaks, started_andThen]
  rcases hn with ⟨hnone, hlast⟩ | hstarted
  · rw [hnone, List.append_nil]
    show _ ∧ (next s.2).2.lastId = _ ∨ (next s.2).2.lastId ∈ _
    rw [hlast]
    exact hs
  · exact .inr (List.mem_append_right _ hstarted)

theorem speaks_ite {c : Prop} [Decidable c] {s : Step} (hs : Speaks f s) :
    Speaks f (if c then s else ([], f)) := by
  split
  · exact hs
  · exact .inl ⟨rfl, rfl⟩

theorem lastId_close (f : Framer) : f.close.2.lastId = f.lastId := by
  unfold close
  split <;> rfl

theorem speaks_close (f : Framer) : Speaks f f.close :=
  .inl ⟨started_close f, lastId_close f⟩

/-- A response with a text speaks of its message. -/
theorem lastId_textOf (r : Response) (f : Framer) : (textOf r f).2.lastId
    = if !r.text.isEmpty && f.lastId != r.id then r.id else f.lastId := by
  have hne : Response.completionKind ≠ Response.chunkKind := by decide
  unfold textOf chunk completion Engine.Response.text
  cases r.choices with
  | nil => split <;> [rfl; split <;> rfl]
  | cons c rest =>
    have hlast : (f.seeResponse r.id).lastId = f.lastId := rfl
    simp only [hlast]
    by_cases hid : f.lastId = r.id
    · -- What is spoken of already stays what it is.
      simp only [if_pos hid, bne_eq_false_iff_eq.2 hid, Bool.and_false, Bool.false_eq_true,
        if_false]
      split
      · split <;> rfl
      · split
        · exact lastId_close _
        · rfl
    · simp only [if_neg hid, bne_iff_ne.2 hid, Bool.and_true]
      split
      · cases c.delta.content.isEmpty <;> rfl
      · split
        · cases c.message.content.isEmpty <;> rfl
        · rfl

theorem speaks_textOf (r : Response) (f : Framer) : Speaks f (textOf r f) := by
  rw [Speaks, started_textOf, lastId_textOf]
  split
  · exact .inr (List.mem_singleton_self _)
  · exact .inl ⟨rfl, rfl⟩

theorem speaks_modelReport (f : Framer) (m : ModelReport) : Speaks f (f.modelReport m) := by
  unfold modelReport
  split
  · exact .inl ⟨rfl, rfl⟩
  · refine .inr ?_
    show m.responseId ∈ started ((if f.lastId = m.responseId then ([], f) else f.close).1 ++ _)
    rw [started_append]
    exact List.mem_append_right _ (List.mem_singleton_self _)

theorem speaks_toolReport (f : Framer) (t : ToolReport) : Speaks f (f.toolReport t) := by
  refine .inl ⟨started_toolReport f t, ?_⟩
  unfold toolReport
  split <;> rfl

theorem speaks_customReport (f : Framer) (c : CustomReport) : Speaks f (f.customReport c) := by
  refine .inl ⟨started_customReport f c, ?_⟩
  unfold customReport
  split
  · rfl
  · split <;> rfl
  · rfl

/-- A report speaks of what its step does. -/
theorem speaks_reported {α : Type} (o : Output) (key kind : String) (dec : Decoder α)
    {step : Framer → α → Step} (f : Framer) (hs : ∀ a, Speaks f (step f a)) :
    Speaks f (reported o key kind dec step f) := by
  unfold reported report
  cases o.blob? key with
  | none => exact .inl ⟨rfl, rfl⟩
  | some raw =>
    simp only
    cases decodeText dec raw with
    | ok a => exact hs a
    | error fault => exact .inl ⟨rfl, rfl⟩

theorem speaks_reports (f : Framer) (o : Output) : Speaks f (f.reports o) :=
  .andThen (.andThen (speaks_reported o _ _ _ f f.speaks_modelReport)
    (speaks_reported o _ _ _ _ (speaks_toolReport _)))
    (speaks_reported o _ _ _ _ (speaks_customReport _))

theorem lastId_ends (r : Response) (f : Framer) : (ends r f).2.lastId = f.lastId := by
  unfold ends
  split
  · exact lastId_close f
  · rfl

theorem speaks_ends (r : Response) (f : Framer) : Speaks f (ends r f) :=
  speaks_ite (.andThen (speaks_close f) (.inl ⟨rfl, rfl⟩))

/-! ## Tools -/

theorem calls_keeps (parent : Option String) (calls : List ToolCall) (f : Framer) :
    (Framer.calls parent calls f).2.lastId = f.lastId ∧
      (Framer.calls parent calls f).2.isOpen = f.isOpen := by
  induction calls generalizing f with
  | nil => exact ⟨rfl, rfl⟩
  | cons call rest ih =>
    unfold Framer.calls
    split
    · exact ih f
    · exact ih _

/-- A response speaks of its message, for the tools that it calls, while no frame is open. -/
theorem toolCalls_turns (f : Framer) (r : Response) :
    (f.toolCalls r).2.isOpen = f.isOpen ∧
      (f.toolCalls r).2.lastId = if f.isOpen then f.lastId else r.id := by
  obtain ⟨hlast, hopen⟩ := calls_keeps (nonempty r.id) (r.choices.flatMap (·.message.toolCalls)) f
  unfold toolCalls
  simp only [hopen]
  split
  · exact ⟨hopen, hlast⟩
  · exact ⟨rfl, rfl⟩

/-- So it does for the results that it gives. -/
theorem lastId_toolResults (f : Framer) (fresh : String) (o : Output) (r : Response) :
    (f.toolResults fresh o r).2.lastId
      = if f.isOpen then f.lastId else (nonempty o.id).getD ((nonempty r.id).getD fresh) := by
  unfold toolResults
  simp only
  split <;> rfl

/-- Tools leave an open frame alone. -/
theorem speaks_toolCalls (hopen : f.isOpen = true) (r : Response) : Speaks f (f.toolCalls r) :=
  .inl ⟨started_toolCalls f r, by rw [(f.toolCalls_turns r).2, if_pos hopen]⟩

theorem speaks_toolResults (hopen : f.isOpen = true) (fresh : String) (o : Output) (r : Response) :
    Speaks f (f.toolResults fresh o r) :=
  .inl ⟨started_toolResults f fresh o r, by rw [lastId_toolResults, if_pos hopen]⟩

/-- Up to the end of the run a response speaks of its message by starting it, or for its tools. -/
theorem speaksOf_respond (f : Framer) (fresh : String) (o : Output) (r : Response) :
    Speaks f (respond fresh o r f) ∨
      (if r.object = Response.toolKind || r.givesToolResult then
        some ((nonempty o.id).getD ((nonempty r.id).getD fresh))
      else if r.callsTools then some r.id
      else none) = some (respond fresh o r f).2.lastId := by
  have htext := speaks_textOf r f
  let called := andThen (textOf r f) fun f => if r.callsTools then f.toolCalls r else ([], f)
  have hcalled : called.2.isOpen = (textOf r f).2.isOpen := by
    show (if r.callsTools then _ else _ : Step).2.isOpen = _
    split
    · exact (toolCalls_turns _ r).1
    · rfl
  cases hopen : (textOf r f).2.isOpen with
  | true =>
    refine .inl (Speaks.andThen (htext.andThen (speaks_ite (speaks_toolCalls hopen r))) ?_)
    exact speaks_ite (speaks_toolResults (hcalled.trans hopen) fresh o r)
  | false =>
    by_cases hresults : (r.object = Response.toolKind || r.givesToolResult) = true
    · rw [if_pos hresults]
      refine .inr (congrArg some ?_)
      show _ = (if r.object = Response.toolKind || r.givesToolResult then
        called.2.toolResults fresh o r else ([], called.2)).2.lastId
      rw [if_pos hresults, lastId_toolResults, hcalled, hopen]
      rfl
    · rw [if_neg hresults]
      have hrespond : respond fresh o r f = andThen called fun f => ([], f) := by
        unfold respond
        simp only [if_neg hresults]
        rfl
      rw [hrespond]
      by_cases hcalls : r.callsTools = true
      · rw [if_pos hcalls]
        refine .inr (congrArg some ?_)
        show _ = (if r.callsTools then (textOf r f).2.toolCalls r
          else ([], (textOf r f).2)).2.lastId
        rw [if_pos hcalls, (toolCalls_turns _ r).2, hopen]
        rfl
      · refine .inl (Speaks.andThen (htext.andThen ?_) (.inl ⟨rfl, rfl⟩))
        rw [if_neg hcalls]
        exact .inl ⟨rfl, rfl⟩

/-- **The message that an output speaks of last**: the same one as before, or one that it starts, or
the one under which it speaks of tools. -/
theorem speaksOf_translate (f : Framer) (fresh : String) (o : Output) :
    Speaks f (f.translate fresh o) ∨ toolsUnder fresh o = some (f.translate fresh o).2.lastId := by
  have hreports := f.speaks_reports o
  rw [translate_eq, toolsUnder]
  cases o.response with
  | none => exact .inl hreports
  | some r =>
    cases he : r.error with
    | some e =>
      simp only [he]
      exact .inl (hreports.andThen (.inl ⟨rfl, rfl⟩))
    | none =>
      simp only [he, Option.filter_some, Option.isNone_none, if_true, Option.bind_some]
      have hends := speaks_ends r (respond fresh o r (f.reports o).2).2
      rcases speaksOf_respond (f.reports o).2 fresh o r with hspeaks | htools
      · exact .inl (hreports.andThen (hspeaks.andThen hends))
      · refine .inr (htools.trans (congrArg some ?_))
        exact (lastId_ends r (respond fresh o r (f.reports o).2).2).symm

/-- The message of an id is the one under which one of the outputs speaks of tools, and none has
been started since. -/
def LeftByTools (f : Framer) (outputs : List (String × Output)) (id : String) : Prop :=
  ∃ front x behind, outputs = front ++ x :: behind ∧ toolsUnder x.1 x.2 = some id ∧
    started (translateAll behind (translateAll (front ++ [x]) f).2).1 = []

/-- **The message that outputs speak of last.** -/
theorem spoken_translateAll (outputs : List (String × Output)) (f : Framer) :
    Speaks f (translateAll outputs f) ∨
      LeftByTools f outputs (translateAll outputs f).2.lastId := by
  induction outputs generalizing f with
  | nil => exact .inl (.inl ⟨rfl, rfl⟩)
  | cons x rest ih =>
    rcases ih (f.translate x.1 x.2).2 with hrest | ⟨front, y, behind, rfl, htools, hnone⟩
    · rcases f.speaksOf_translate x.1 x.2 with hfirst | htools
      · exact .inl (hfirst.andThen hrest)
      · rcases hrest with ⟨hnone, hlast⟩ | hstarted
        · exact .inr ⟨[], x, rest, rfl, htools.trans (congrArg some hlast.symm), hnone⟩
        · exact .inl (.inr (started_andThen _ _ ▸ List.mem_append_right _ hstarted))
    · exact .inr ⟨x :: front, y, behind, rfl, htools, hnone⟩

/-! ## Texts of responses -/

/-- A response says its text if another message is spoken of. -/
theorem mem_textOf {r : Response} (hid : f.lastId ≠ r.id) (ht : r.text ≠ "") :
    (Body.textContent r.id r.text : Event) ∈ (textOf r f).1 := by
  have hne : Response.completionKind ≠ Response.chunkKind := by decide
  have hlast : (f.seeResponse r.id).lastId = f.lastId := rfl
  unfold Engine.Response.text at ht ⊢
  unfold textOf chunk completion
  cases hchoices : r.choices with
  | nil => exact absurd (by rw [hchoices]) ht
  | cons c rest =>
    rw [hchoices] at ht
    simp only [hlast, if_neg hid] at ht ⊢
    by_cases hchunk : r.object = Response.chunkKind
    · rw [if_pos hchunk] at ht
      have hempty : ¬c.delta.content.isEmpty = true := by simpa using ht
      simp [hchunk, hempty]
    · by_cases hwhole : r.object = Response.completionKind
      · rw [if_neg hchunk, if_pos hwhole] at ht
        have hempty : ¬c.message.content.isEmpty = true := by simpa using ht
        simp [hwhole, hne, hempty, wholeText]
      · rw [if_neg hchunk, if_neg hwhole] at ht
        exact absurd rfl ht

/-- A response of the message spoken of last says nothing while no frame is open. -/
theorem textOf_silent {r : Response} (hid : f.lastId = r.id) (hc : f.isOpen = false) :
    (textOf r f).1 = [] := by
  have hlast : (f.seeResponse r.id).lastId = f.lastId := rfl
  have hopen : (f.seeResponse r.id).isOpen = f.isOpen := rfl
  have hclose : (f.seeResponse r.id).close.1 = [] := by
    rw [close, hopen, hc]
    rfl
  unfold textOf chunk completion
  cases r.choices with
  | nil => split <;> [rfl; split <;> rfl]
  | cons c rest =>
    simp only [hlast, hopen, if_pos hid, hc, Bool.false_eq_true, if_false]
    split
    · rfl
    · split
      · exact hclose
      · rfl

/-- **Texts of messages that were not started.**  Whatever outputs a new framer is given: a chat
response with a text, whose message was started neither by the outputs before it nor by its own
reports, says the text just if its message is not the one spoken of last.  If it is, the response
says nothing at all in place of the text; then its id is empty and nothing has been spoken of, or an
output before it has spoken of tools under its id, and no message was started since. -/
theorem said_translateAll (threadId runId fresh : String) (front : List (String × Output))
    {r : Response} (hr : o.response = some r) (he : r.error = none) (ht : r.text ≠ "") :
    let new : Framer := { threadId, runId }
    let before := translateAll front new
    let own := before.2.reports o
    r.id ∉ started (before.1 ++ own.1) →
      ((Body.textContent r.id r.text : Event) ∈ (before.2.translate fresh o).1 ↔
        own.2.lastId ≠ r.id) ∧
      (own.2.lastId = r.id → (textOf r own.2).1 = [] ∧
        (r.id = "" ∧ started (before.1 ++ own.1) = [] ∨
          LeftByTools new front r.id ∧ started own.1 = [])) := by
  intro new before own hnew
  have hf : Framed new := nofun
  have hmoves : Moves (fun _ => True) new before.1 before.2 :=
    translateAll_moves hf front fun _ _ => trivial
  have hreports : Moves (fun _ => True) before.2 own.1 own.2 :=
    @translate_moves _ _ (hmoves.framed hf) fresh trivial { o with response := none }
  have houtput : Moves (fun _ => True) before.2 (before.2.translate fresh o).1
      (before.2.translate fresh o).2 := translate_moves (hmoves.framed hf) trivial o
  have hparts : before.2.translate fresh o = andThen own (response fresh o r) := by
    rw [translate_eq, hr]
    simp only [he]
    rfl
  refine ⟨⟨fun hsaid hlast => hnew ?_, fun hlast => ?_⟩, fun hlast => ⟨?_, ?_⟩⟩
  · -- What is said of a message is said behind its start, and the response does not start it.
    have hframes := (hmoves.trans houtput).framesAfter
    rcases started_of_said hframes (List.mem_append_right _ hsaid) with hopen | hstarted
    · cases hopen
    · have hbegins : own.2.begins? o = none := by
        rw [begins?, hr, hlast]
        simp [he, Option.filter]
      rw [started_append, started_translate, hbegins, Option.toList_none,
        List.append_nil] at hstarted
      rwa [started_append]
  · rw [hparts]
    refine List.mem_append_right _ (List.mem_append_left _ ?_)
    exact List.mem_append_left _ (List.mem_append_left _ (mem_textOf hlast ht))
  · refine textOf_silent hlast (Bool.eq_false_iff.2 fun hopen => ?_)
    have hframes := (hmoves.trans hreports).framesAfter
    rw [openId?, openId?, if_pos hopen, hlast] at hframes
    rcases started_of_open hframes with hnone | hstarted
    · cases hnone
    · exact hnew hstarted
  · rw [started_append, List.mem_append, not_or] at hnew
    rcases before.2.speaks_reports o with ⟨hnone, hsame⟩ | hstarted
    · rw [hsame] at hlast
      rcases spoken_translateAll front new with (⟨hnothing, hempty⟩ | hstarted) | htools
      · rw [started_append, hnone, hnothing]
        exact .inl ⟨hlast.symm.trans hempty, rfl⟩
      · exact absurd (hlast ▸ hstarted) hnew.1
      · exact .inr ⟨hlast ▸ htools, hnone⟩
    · exact absurd (hlast ▸ hstarted) hnew.2

/-- A piece of a message that calls a tool. -/
def calling : Output :=
  let called : Engine.Message := { toolCalls := [.ofFunction "c" "search"] }
  { id := "o-1",
    response := some { id := "m", object := Response.chunkKind, choices := [{ delta := called }] } }

/-- Behind it the text of another message is said, and the text of its own is not. -/
theorem said_translateAll_calling :
    let new : Framer := { threadId := "t", runId := "r" }
    let f := (translateAll [("", calling)] new).2
    let text (id : String) : Output := { id := "o-2", response := some (.chunk id "a") }
    (Body.textContent "n" "a" : Event) ∈ (f.translate "" (text "n")).1 ∧
      (Body.textContent "m" "a" : Event) ∉ (f.translate "" (text "m")).1 ∧
      LeftByTools new [("", calling)] "m" := by
  intro new f text
  have hsaid (id : String) := said_translateAll (o := text id) "t" "r" "" [("", calling)] rfl rfl
  have hother := hsaid "n" (by decide) (by decide +kernel)
  have hown := hsaid "m" (by decide) (by decide +kernel)
  have hlast : ((translateAll [("", calling)] new).2.reports (text "m")).2.lastId = "m" := by
    decide +kernel
  refine ⟨hother.1.2 (by decide +kernel), fun h => hown.1.1 h hlast, ?_⟩
  rcases (hown.2 hlast).2 with ⟨hempty, -⟩ | ⟨hleft, -⟩
  · exact absurd hempty (by decide)
  · exact hleft

/-- A message of which a tool is called first: its text is dropped, and it is never started. -/
theorem said_dropped :
    let piece : Response := .chunk "m" "a"
    let text : Output := { id := "o-2", response := some piece }
    let (events, f) := translateAll [("", calling), ("", text)] { threadId := "t", runId := "r" }
    piece.error = none ∧ piece.text = "a" ∧ events = [] ∧ f.lastId = "m" ∧ f.isOpen = false := by
  decide +kernel

end Framer

end AgentStream
