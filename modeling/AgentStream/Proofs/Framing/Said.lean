/-
# What a framer says

Beside the events of frames a framer says three things: that a report could not be decoded or that
the engine has failed, what a node says of its own, and that the run has ended.  What holds of these
and of all events of frames holds of all that it says.

* `Framer.reports`, `Framer.respond` : the parts of a translation;
* `Framer.forall_reports`, `Framer.forall_respond` : what is said in each part;
* `Framer.forall_translate` : what is said of an output.
-/
import AgentStream.Proofs.Event.Codec
import AgentStream.Proofs.Framing.Moves

namespace AgentStream

open Engine (Output Response ModelReport ToolReport CustomReport)

namespace Framer

/-! ## Parts of a translation -/

/-- The step of the reports of graph nodes, which come before the response. -/
def reports (f : Framer) (o : Output) : Step :=
  let model := reported o Engine.modelKey "model" ModelReport.record.decode modelReport f
  let tool := andThen model
    (reported o Engine.toolKey "tool" ToolReport.record.decode toolReport)
  andThen tool (reported o Engine.customKey "node custom" CustomReport.record.decode customReport)

/-- The text of a response. -/
def textOf (r : Response) (f : Framer) : Step :=
  if r.object = Response.chunkKind then f.chunk r
  else if r.object = Response.completionKind then f.completion r
  else ([], f)

/-- The step of a response up to the end of the run. -/
def respond (fresh : String) (o : Output) (r : Response) (f : Framer) : Step :=
  let called := andThen (textOf r f) fun f => if r.callsTools then f.toolCalls r else ([], f)
  andThen called fun f =>
    if r.object = Response.toolKind || r.givesToolResult then f.toolResults fresh o r else ([], f)

/-- The step of the end of the run, if a response marks it. -/
def ends (r : Response) (f : Framer) : Step :=
  if r.object = Response.endKind then
    andThen f.close fun f => ([Event.runFinished f.threadId f.runId], f)
  else ([], f)

theorem response_eq (fresh : String) (o : Output) (r : Response) (f : Framer) :
    response fresh o r f = andThen (respond fresh o r f) (ends r) := rfl

theorem translate_eq (f : Framer) (fresh : String) (o : Output) :
    f.translate fresh o = match o.response with
      | none => f.reports o
      | some r =>
        match r.error with
        | some e => andThen (f.reports o) fun f => ([f.failure e.message], f)
        | none => andThen (f.reports o) (response fresh o r) := rfl

/-! ## What is said in frames -/

variable {P : Event → Prop} {f : Framer} {fresh : String} {o : Output}

theorem forall_andThen {s : Step} {next : Framer → Step} (hs : ∀ e ∈ s.1, P e)
    (hn : ∀ f, ∀ e ∈ (next f).1, P e) : ∀ e ∈ (andThen s next).1, P e :=
  List.forall_mem_append.2 ⟨hs, hn s.2⟩

/-- A step that is taken under a condition. -/
theorem forall_ite {c : Prop} [Decidable c] {s : Step} (hs : c → ∀ e ∈ s.1, P e) :
    ∀ e ∈ (if c then s else ([], f)).1, P e := by
  split
  · exact hs ‹_›
  · exact List.forall_mem_nil _

section Frames

variable (hframe : ∀ b : Body, b.isFrame = true → P (b : Event))
include hframe

theorem forall_close (f : Framer) : ∀ e ∈ f.close.1, P e := by
  unfold close
  split
  · exact List.forall_mem_singleton.2 (hframe _ rfl)
  · exact List.forall_mem_nil _

theorem forall_wholeText (id : String) (role : Role) (text : String) :
    ∀ e ∈ wholeText id role text, P e := by
  simp only [wholeText, List.forall_mem_cons]
  exact ⟨hframe _ rfl, hframe _ rfl, hframe _ rfl, List.forall_mem_nil _⟩

theorem forall_wholeCall (id name : String) (parent arguments : Option String) :
    ∀ e ∈ wholeCall id name parent arguments, P e := by
  have hpiece : ∀ e ∈ (arguments.map fun a => (Body.toolArgs id a : Event)).toList, P e := by
    intro e he
    obtain ⟨a, -, rfl⟩ := Option.map_eq_some_iff.1 (Option.mem_toList.1 he)
    exact hframe _ rfl
  exact List.forall_mem_append.2 ⟨List.forall_mem_append.2
    ⟨List.forall_mem_singleton.2 (hframe _ rfl), hpiece⟩,
    List.forall_mem_singleton.2 (hframe _ rfl)⟩

theorem forall_chunk (f : Framer) (r : Response) : ∀ e ∈ (f.chunk r).1, P e := by
  unfold chunk
  split
  · exact List.forall_mem_nil _
  · rename_i c rest _
    have hpiece : ∀ e ∈ if c.delta.content.isEmpty then []
        else [(Body.textContent r.id c.delta.content : Event)], P e := by
      split
      · exact List.forall_mem_nil _
      · exact List.forall_mem_singleton.2 (hframe _ rfl)
    have hending : ∀ e ∈ if !(c.finishReason.getD "").isEmpty then
        [(Body.textEnd r.id : Event)] else [], P e := by
      split
      · exact List.forall_mem_singleton.2 (hframe _ rfl)
      · exact List.forall_mem_nil _
    have hstart : ∀ e ∈ [(Body.textStart r.id c.delta.role.shown : Event)], P e :=
      List.forall_mem_singleton.2 (hframe _ rfl)
    simp only
    split
    · split
      · exact List.forall_mem_append.2 ⟨hpiece, hending⟩
      · exact List.forall_mem_nil _
    · split
      · exact List.forall_mem_nil _
      · rename_i hempty
        rw [if_neg hempty] at hpiece
        simp only [List.forall_mem_append]
        exact ⟨⟨⟨forall_close hframe _, hstart⟩, hpiece⟩, hending⟩

theorem forall_completion (f : Framer) (r : Response) : ∀ e ∈ (f.completion r).1, P e := by
  unfold completion
  split
  · exact List.forall_mem_nil _
  · simp only
    split
    · exact forall_close hframe _
    · split
      · exact List.forall_mem_nil _
      · exact List.forall_mem_append.2 ⟨forall_close hframe _, forall_wholeText hframe _ _ _⟩

theorem forall_calls (parent : Option String) (calls : List ToolCall) (f : Framer) :
    ∀ e ∈ (Framer.calls parent calls f).1, P e := by
  induction calls generalizing f with
  | nil => exact List.forall_mem_nil _
  | cons call rest ih =>
    unfold Framer.calls
    split
    · exact ih f
    · exact forall_andThen (forall_wholeCall hframe _ _ _ _) ih

theorem forall_toolResults (f : Framer) (fresh : String) (o : Output) (r : Response) :
    ∀ e ∈ (f.toolResults fresh o r).1, P e := by
  intro e he
  obtain ⟨m, -, rfl⟩ := List.mem_map.1 he
  exact hframe _ rfl

theorem forall_modelReport (f : Framer) (m : ModelReport) : ∀ e ∈ (f.modelReport m).1, P e := by
  unfold modelReport
  split
  · exact List.forall_mem_nil _
  · refine List.forall_mem_append.2 ⟨?_, forall_wholeText hframe _ _ _⟩
    split
    · exact List.forall_mem_nil _
    · exact forall_close hframe f

theorem forall_customReport (hcustom : ∀ name value, P (Body.custom name value)) (f : Framer)
    (c : CustomReport) : ∀ e ∈ (f.customReport c).1, P e := by
  unfold customReport
  split
  · exact List.forall_mem_singleton.2 (hcustom _ _)
  · split
    · exact List.forall_mem_singleton.2 (hframe _ rfl)
    · exact List.forall_mem_singleton.2 (hcustom _ _)
  · exact List.forall_mem_singleton.2 (hcustom _ _)

theorem forall_toolReport (f : Framer) (t : ToolReport) : ∀ e ∈ (f.toolReport t).1, P e := by
  unfold toolReport
  split
  · exact List.forall_mem_nil _
  · exact forall_wholeCall hframe _ _ _ _

/-- **Up to the end of the run a response is said in frames.** -/
theorem forall_respond (fresh : String) (o : Output) (r : Response) (f : Framer) :
    ∀ e ∈ (respond fresh o r f).1, P e := by
  refine forall_andThen (forall_andThen ?text fun f => ?calls) fun f => ?results
  case text =>
    unfold textOf
    split
    · exact forall_chunk hframe f r
    · exact forall_ite fun _ => forall_completion hframe f r
  case calls => exact forall_ite fun _ => forall_calls hframe _ _ f
  case results => exact forall_ite fun _ => forall_toolResults hframe f fresh o r

end Frames

/-! ## What is said besides -/

/-- What a report says is what its step says of what was decoded, or that it could not be. -/
theorem forall_reported {α : Type} (o : Output) (key kind : String) (dec : Decoder α)
    {step : Framer → α → Step} (f : Framer)
    (hfail : ∀ message runId, P (.runError message (some runId)))
    (hs : ∀ raw a, o.blob? key = some raw → decodeText dec raw = .ok a → ∀ e ∈ (step f a).1, P e) :
    ∀ e ∈ (reported o key kind dec step f).1, P e := by
  unfold reported report
  cases hraw : o.blob? key with
  | none => exact List.forall_mem_nil _
  | some raw =>
    simp only
    cases ha : decodeText dec raw with
    | ok a => exact hs raw a hraw ha
    | error fault => exact List.forall_mem_singleton.2 (hfail _ _)

/-- **The reports are said in frames**, failures and events of the nodes' own. -/
theorem forall_reports (f : Framer) (o : Output)
    (hframe : ∀ b : Body, b.isFrame = true → P (b : Event))
    (hfail : ∀ message runId, P (.runError message (some runId)))
    (hcustom : ∀ raw c, o.blob? Engine.customKey = some raw →
      decodeText CustomReport.record.decode raw = .ok c →
        ∀ f : Framer, ∀ e ∈ (f.customReport c).1, P e) :
    ∀ e ∈ (f.reports o).1, P e := by
  refine forall_andThen (forall_andThen ?model fun f => ?tool) fun f => ?custom
  case model =>
    exact forall_reported o _ _ _ f hfail fun _ m _ _ => forall_modelReport hframe f m
  case tool => exact forall_reported o _ _ _ f hfail fun _ t _ _ => forall_toolReport hframe f t
  case custom => exact forall_reported o _ _ _ f hfail fun raw c hraw hc => hcustom raw c hraw hc f

/-- **What a framer says of an output.** -/
theorem forall_translate (f : Framer) (fresh : String) (o : Output)
    (hframe : ∀ b : Body, b.isFrame = true → P (b : Event))
    (hfail : ∀ message runId, P (.runError message (some runId)))
    (hfinish : ∀ threadId runId, P (.runFinished threadId runId))
    (hcustom : ∀ raw c, o.blob? Engine.customKey = some raw →
      decodeText CustomReport.record.decode raw = .ok c →
        ∀ f : Framer, ∀ e ∈ (f.customReport c).1, P e) :
    ∀ e ∈ (f.translate fresh o).1, P e := by
  have hreports := forall_reports f o hframe hfail hcustom
  rw [translate_eq]
  cases o.response with
  | none => exact hreports
  | some r =>
    simp only
    cases r.error with
    | some e => exact forall_andThen hreports fun f => List.forall_mem_singleton.2 (hfail _ _)
    | none =>
      refine forall_andThen hreports fun f => ?_
      rw [response_eq]
      refine forall_andThen (forall_respond hframe fresh o r f) fun f => forall_ite fun _ => ?_
      exact forall_andThen (forall_close hframe f) fun f =>
        List.forall_mem_singleton.2 (hfinish _ _)

/-- What is said of each output is said of all of them. -/
theorem forall_translateAll
    (h : ∀ (f : Framer) (fresh : String) (o : Output), ∀ e ∈ (f.translate fresh o).1, P e)
    (outputs : List (String × Output)) (f : Framer) : ∀ e ∈ (translateAll outputs f).1, P e := by
  induction outputs generalizing f with
  | nil => exact List.forall_mem_nil _
  | cons x rest ih => exact forall_andThen (h f x.1 x.2) ih

end Framer

end AgentStream
