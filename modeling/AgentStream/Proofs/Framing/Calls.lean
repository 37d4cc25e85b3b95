/-
# Tool calls are framed once and whole

A chat response announces tool calls in any of its choices, and the report of a tool announces one;
the same call may be announced again and again.  A framer frames every call that is announced at its
first announcement and then never again, and whatever else it says, it says it between the frames.

* `Announcement`, `Engine.Output.announced` : the tool calls that an output announces;
* `firsts`, `knownAfter` : the announcements of calls that were not announced before;
* `Woven` : events in which given tool calls are framed;
* `Framer.FramesCalls` : a step frames the calls that are announced to it;
* `Framer.translate_framesCalls` : so does every output;
* `Framer.calls_translateAll` : the tool calls of all outputs.
-/
import AgentStream.Proofs.Framing.Said

namespace AgentStream

open Engine (Output Response ModelReport ToolReport CustomReport)

/-! ## Announcements -/

/-- A tool call as it is announced, with the message that it belongs to, if that is named, and its
arguments, unless there are none. -/
structure Announcement where
  id : String
  name : String
  parent : Option String
  arguments : Option String
deriving DecidableEq

namespace Announcement

/-- The frame of a tool call: its start, its arguments if there are any, and its end. -/
def frame (a : Announcement) : List Event :=
  match a.arguments with
  | some arguments =>
    [Body.toolStart a.id a.name a.parent, Body.toolArgs a.id arguments, Body.toolEnd a.id]
  | none => [Body.toolStart a.id a.name a.parent, Body.toolEnd a.id]

/-- A call is framed as it is announced. -/
theorem wholeCall_eq (a : Announcement) :
    Framer.wholeCall a.id a.name a.parent a.arguments = a.frame := by
  obtain ⟨id, name, parent, arguments⟩ := a
  cases arguments <;> rfl

/-- A tool call of a chat response. -/
def ofCall (parent : Option String) (call : ToolCall) : Announcement :=
  ⟨call.id, call.function.name, parent, Framer.nonempty call.function.arguments⟩

/-- The tool call of a report. -/
def ofReport (t : ToolReport) : Announcement :=
  ⟨t.toolId, t.toolName, Framer.nonempty t.responseId,
    if allBlank t.input then none else some t.input⟩

end Announcement

namespace Engine

/-- The tool call that a report announces, if it is that of a start. -/
def ToolReport.announced (t : ToolReport) : List Announcement :=
  if t.phase = .start then [.ofReport t] else []

/-- The tool calls of a response, those of all of its choices. -/
def Response.announced (r : Response) : List Announcement :=
  if r.callsTools then
    (r.choices.flatMap (·.message.toolCalls)).map (.ofCall (Framer.nonempty r.id))
  else []

/-- The report under a key, if there is one that can be decoded. -/
def Output.report? {α : Type} (o : Output) (key : String) (dec : Decoder α) : Option α :=
  (o.blob? key).bind fun raw => (decodeText dec raw).toOption

/-- **The tool calls that an output announces**: that of its report, and those of its response
unless this is an error. -/
def Output.announced (o : Output) : List Announcement :=
  (o.report? "_tool_metadata" ToolReport.record.decode).toList.flatMap ToolReport.announced
    ++ (o.response.filter (·.error.isNone)).toList.flatMap Response.announced

end Engine

/-! ## First announcements -/

/-- The announcements of calls that are not known, the first one of each call. -/
def firsts (known : List String) : List Announcement → List Announcement
  | [] => []
  | a :: rest => if a.id ∈ known then firsts known rest else a :: firsts (known.insert a.id) rest

/-- The calls that are known behind announcements. -/
def knownAfter (known : List String) (announced : List Announcement) : List String :=
  announced.foldl (fun known a => known.insert a.id) known

section Firsts

variable {known : List String} {a : Announcement} {xs ys : List Announcement}

theorem knownAfter_append (known : List String) (xs ys : List Announcement) :
    knownAfter known (xs ++ ys) = knownAfter (knownAfter known xs) ys := List.foldl_append

theorem firsts_append (known : List String) (xs ys : List Announcement) :
    firsts known (xs ++ ys) = firsts known xs ++ firsts (knownAfter known xs) ys := by
  induction xs generalizing known with
  | nil => rfl
  | cons a xs ih =>
    rw [List.cons_append, firsts, firsts, knownAfter, List.foldl_cons, ← knownAfter]
    split
    · rename_i hknown
      rw [List.insert_of_mem hknown]
      exact ih known
    · rw [List.cons_append, ih]

/-- First announcements are announcements. -/
theorem firsts_subset (known : List String) (xs : List Announcement) : firsts known xs ⊆ xs := by
  induction xs generalizing known with
  | nil => exact List.Subset.refl _
  | cons a xs ih =>
    rw [firsts]
    split
    · exact List.subset_cons_of_subset a (ih known)
    · exact List.cons_subset_cons a (ih _)

/-- What is announced first was not known. -/
theorem notMem_of_mem_firsts (h : a ∈ firsts known xs) : a.id ∉ known := by
  induction xs generalizing known with
  | nil => cases h
  | cons b xs ih =>
    rw [firsts] at h
    split at h
    · exact ih h
    · rename_i hnew
      rcases List.mem_cons.1 h with rfl | h
      · exact hnew
      · exact fun hmem => ih h (List.mem_insert_of_mem hmem)

/-- No call is announced first twice. -/
theorem nodup_firsts (known : List String) (xs : List Announcement) :
    ((firsts known xs).map (·.id)).Nodup := by
  induction xs generalizing known with
  | nil => exact List.nodup_nil
  | cons a xs ih =>
    rw [firsts]
    split
    · exact ih known
    · rw [List.map_cons]
      refine List.nodup_cons.2 ⟨?_, ih _⟩
      intro hmem
      obtain ⟨b, hb, hid⟩ := List.mem_map.1 hmem
      refine notMem_of_mem_firsts hb ?_
      rw [hid]
      exact List.mem_insert_self

/-- Every call that is announced is known before or announced first. -/
theorem mem_firsts (h : a ∈ xs) : a.id ∈ known ∨ a.id ∈ (firsts known xs).map (·.id) := by
  induction xs generalizing known with
  | nil => cases h
  | cons b xs ih =>
    rw [firsts]
    split
    · rename_i hknown
      rcases List.mem_cons.1 h with rfl | h
      · exact .inl hknown
      · exact ih h
    · rw [List.map_cons]
      rcases List.mem_cons.1 h with rfl | h
      · exact .inr List.mem_cons_self
      · rcases @ih (known.insert b.id) h with hmem | hmem
        · rcases List.mem_insert_iff.1 hmem with hid | hmem
          · exact .inr (hid ▸ List.mem_cons_self)
          · exact .inl hmem
        · exact .inr (List.mem_cons_of_mem _ hmem)

end Firsts

/-! ## Events with frames -/

/-- The event is one of the frame of a tool call. -/
def Body.isCall : Body → Bool
  | toolStart .. => true
  | toolArgs .. => true
  | toolEnd .. => true
  | _ => false

/-- Events in which tool calls are framed in the given order: every event of a tool call stands in
one of the frames, and the events of a frame stand next to each other. -/
inductive Woven : List Event → List Announcement → Prop
  | nil : Woven [] []
  | other {e : Event} {events : List Event} {framed : List Announcement}
      (other : e.body.isCall = false) (rest : Woven events framed) : Woven (e :: events) framed
  | frame {a : Announcement} {events : List Event} {framed : List Announcement}
      (rest : Woven events framed) : Woven (a.frame ++ events) (a :: framed)

namespace Woven

variable {events events' : List Event} {framed framed' : List Announcement}

theorem append (h : Woven events framed) (h' : Woven events' framed') :
    Woven (events ++ events') (framed ++ framed') := by
  induction h with
  | nil => exact h'
  | other hother _ ih => exact .other hother ih
  | frame _ ih =>
    rw [List.append_assoc]
    exact .frame ih

theorem alone (a : Announcement) : Woven a.frame [a] := by
  rw [← List.append_nil a.frame]
  exact .frame .nil

theorem filter_frame (a : Announcement) : a.frame.filter (·.body.isCall) = a.frame := by
  obtain ⟨id, name, parent, arguments⟩ := a
  cases arguments <;> rfl

/-- The events of tool calls are those of the frames, one frame behind the other. -/
theorem filter_eq (h : Woven events framed) :
    events.filter (·.body.isCall) = framed.flatMap Announcement.frame := by
  induction h with
  | nil => rfl
  | other hother _ ih => rw [List.filter_cons_of_neg (by simp [hother]), ih]
  | frame _ ih => rw [List.filter_append, filter_frame, ih, List.flatMap_cons]

end Woven

namespace Framer

variable {fresh : String → Prop} {f g : Framer} {events : List Event}
  {xs ys : List Announcement}

/-- A step frames the calls that are announced to it for the first time, and keeps all in mind. -/
structure FramesCalls (f : Framer) (announced : List Announcement) (s : Step) : Prop where
  woven : Woven s.1 (firsts f.seenCalls announced)
  seen : s.2.seenCalls = knownAfter f.seenCalls announced

theorem FramesCalls.andThen {s : Step} {next : Framer → Step} (hs : f.FramesCalls xs s)
    (hn : s.2.FramesCalls ys (next s.2)) : f.FramesCalls (xs ++ ys) (andThen s next) where
  woven := by
    rw [firsts_append, ← hs.seen]
    exact hs.woven.append hn.woven
  seen := by
    rw [knownAfter_append, ← hs.seen]
    exact hn.seen

/-! ## Steps that frame no call -/

/-- Every call that is framed by a move is one more that is kept in mind. -/
theorem Move.woven (hm : Move fresh f events g) :
    ∃ framed, Woven events framed ∧
      g.seenCalls.length = f.seenCalls.length + framed.length := by
  have hother (e : Event) (he : e.body.isCall = false) : Woven [e] [] := .other he .nil
  cases hm with
  | frames id name parent arguments hn =>
    let a : Announcement := ⟨id, name, parent, arguments⟩
    refine ⟨[a], ?_, List.length_insert_of_not_mem hn⟩
    rw [show Framer.wholeCall id name parent arguments = a.frame from a.wholeCall_eq]
    exact Woven.alone a
  | sees | turns => exact ⟨[], .nil, rfl⟩
  | asides e he =>
    refine ⟨[], hother e ?_, rfl⟩
    cases hb : e.body <;> simp [hb, Body.isAside, Body.isCall] at he ⊢
  | _ => exact ⟨[], hother _ rfl, rfl⟩

theorem Moves.woven (hm : Moves fresh f events g) :
    ∃ framed, Woven events framed ∧
      g.seenCalls.length = f.seenCalls.length + framed.length := by
  induction hm with
  | none => exact ⟨[], .nil, rfl⟩
  | next hm _ ih =>
    obtain ⟨framed, hwoven, hlength⟩ := hm.woven
    obtain ⟨framed', hwoven', hlength'⟩ := ih
    refine ⟨framed ++ framed', hwoven.append hwoven', ?_⟩
    rw [hlength', hlength, List.length_append, Nat.add_assoc]

/-- Moves frame no call if none is kept in mind. -/
theorem Moves.framesNone {s : Step} (hm : Moves (fun _ => True) f s.1 s.2)
    (hseen : s.2.seenCalls = f.seenCalls) : f.FramesCalls [] s where
  woven := by
    obtain ⟨framed, hwoven, hlength⟩ := hm.woven
    rw [hseen] at hlength
    obtain rfl : framed = [] := List.length_eq_zero_iff.1 (by omega)
    exact hwoven
  seen := hseen

theorem close_calls (f : Framer) : f.close.2.seenCalls = f.seenCalls := by
  unfold close
  split <;> rfl

theorem chunk_calls (f : Framer) (r : Response) : (f.chunk r).2.seenCalls = f.seenCalls := by
  unfold chunk
  split
  · rfl
  · simp only
    split
    · split <;> rfl
    · split
      · rfl
      · exact close_calls _

theorem completion_calls (f : Framer) (r : Response) :
    (f.completion r).2.seenCalls = f.seenCalls := by
  unfold completion
  split
  · rfl
  · simp only
    split
    · exact close_calls _
    · split
      · rfl
      · exact close_calls _

theorem textOf_framesNone (f : Framer) (r : Response) : f.FramesCalls [] (textOf r f) := by
  unfold textOf
  split
  · exact Moves.framesNone (f.chunk_moves r) (f.chunk_calls r)
  · split
    · exact Moves.framesNone (f.completion_moves r) (f.completion_calls r)
    · exact ⟨.nil, rfl⟩

theorem toolResults_framesNone (f : Framer) (fresh : String) (o : Output) (r : Response) :
    f.FramesCalls [] (f.toolResults fresh o r) := by
  refine Moves.framesNone (f.toolResults_moves trivial o r) ?_
  unfold toolResults
  simp only
  split <;> rfl

theorem ends_framesNone (f : Framer) (r : Response) : f.FramesCalls [] (ends r f) := by
  unfold ends
  split
  · refine Moves.framesNone (andThen_moves (close_moves f) (Move.asides _ _ rfl).alone) ?_
    exact close_calls f
  · exact ⟨.nil, rfl⟩

theorem modelReport_framesNone (hf : f.Framed) (m : ModelReport) :
    f.FramesCalls [] (f.modelReport m) := by
  refine Moves.framesNone (modelReport_moves hf m) ?_
  unfold modelReport
  split
  · rfl
  · simp only [seeResponse]
    split
    · rfl
    · exact close_calls f

theorem customReport_framesNone (f : Framer) (c : CustomReport) :
    f.FramesCalls [] (f.customReport c) := by
  refine Moves.framesNone (f.customReport_moves c) ?_
  unfold customReport
  split
  · rfl
  · split <;> rfl
  · rfl

/-! ## Steps that frame calls -/

/-- The frame of a call, unless the call is known. -/
def frameCall (f : Framer) (a : Announcement) : Step :=
  if a.id ∈ f.seenCalls then ([], f)
  else (a.frame, { f with seenCalls := f.seenCalls.insert a.id })

theorem frameCall_framesCalls (f : Framer) (a : Announcement) :
    f.FramesCalls [a] (f.frameCall a) := by
  unfold frameCall
  by_cases hknown : a.id ∈ f.seenCalls
  · rw [if_pos hknown]
    constructor
    · rw [firsts, if_pos hknown]
      exact .nil
    · exact (List.insert_of_mem hknown).symm
  · rw [if_neg hknown]
    constructor
    · rw [firsts, if_neg hknown]
      exact Woven.alone a
    · rfl

theorem calls_cons (parent : Option String) (call : ToolCall) (rest : List ToolCall) (f : Framer) :
    Framer.calls parent (call :: rest) f
      = andThen (f.frameCall (.ofCall parent call)) (Framer.calls parent rest) := by
  rw [Framer.calls, frameCall]
  by_cases hknown : (Announcement.ofCall parent call).id ∈ f.seenCalls
  · have hseen : f.seenCalls.contains call.id = true := List.contains_iff_mem.2 hknown
    rw [if_pos hseen, if_pos hknown]
    rfl
  · have hnew : ¬f.seenCalls.contains call.id = true := fun h => hknown (List.contains_iff_mem.1 h)
    rw [if_neg hnew, if_neg hknown, ← Announcement.wholeCall_eq]
    rfl

/-- The calls of a response are framed one by one. -/
theorem calls_framesCalls (parent : Option String) (calls : List ToolCall) (f : Framer) :
    f.FramesCalls (calls.map (.ofCall parent)) (Framer.calls parent calls f) := by
  induction calls generalizing f with
  | nil => exact ⟨.nil, rfl⟩
  | cons call calls ih =>
    rw [calls_cons]
    exact (f.frameCall_framesCalls _).andThen (ih _)

theorem toolCalls_framesCalls (f : Framer) (r : Response) :
    f.FramesCalls ((r.choices.flatMap (·.message.toolCalls)).map (.ofCall (nonempty r.id)))
      (f.toolCalls r) := by
  obtain ⟨hwoven, hseen⟩ := calls_framesCalls (nonempty r.id)
    (r.choices.flatMap (·.message.toolCalls)) f
  refine ⟨hwoven, ?_⟩
  rw [← hseen, toolCalls]
  simp only
  split <;> rfl

/-- The call of a report is framed as that of a response is. -/
theorem toolReport_eq (f : Framer) (t : ToolReport) :
    f.toolReport t = if t.phase = .start then f.frameCall (.ofReport t) else ([], f) := by
  rw [toolReport, frameCall]
  by_cases hphase : t.phase = .start
  · rw [if_pos hphase]
    by_cases hknown : (Announcement.ofReport t).id ∈ f.seenCalls
    · have hseen : f.seenCalls.contains t.toolId = true := List.contains_iff_mem.2 hknown
      rw [if_pos hknown, hseen, Bool.or_true, if_pos rfl]
    · have hnew : f.seenCalls.contains t.toolId = false :=
        Bool.eq_false_iff.2 fun h => hknown (List.contains_iff_mem.1 h)
      rw [if_neg hknown, hnew, Bool.or_false, if_neg (by simp [hphase]),
        ← Announcement.wholeCall_eq]
      rfl
  · rw [if_neg hphase, if_pos (by simp [hphase])]

theorem toolReport_framesCalls (f : Framer) (t : ToolReport) :
    f.FramesCalls t.announced (f.toolReport t) := by
  rw [toolReport_eq, ToolReport.announced]
  split
  · exact f.frameCall_framesCalls _
  · exact ⟨.nil, rfl⟩

/-! ## Outputs -/

/-- What is framed for a report, which is nothing if there is none that can be decoded. -/
theorem reported_framesCalls {α : Type} {o : Output} {key : String} {dec : Decoder α}
    {step : Framer → α → Step} (kind : String) (hnone : o.report? key dec = none → xs = [])
    (hsome : ∀ a, o.report? key dec = some a → f.FramesCalls xs (step f a)) :
    f.FramesCalls xs (reported o key kind dec step f) := by
  unfold reported report
  unfold Output.report? at hnone hsome
  cases hblob : o.blob? key with
  | none =>
    obtain rfl := hnone (by rw [hblob]; rfl)
    exact ⟨.nil, rfl⟩
  | some raw =>
    rw [hblob] at hnone hsome
    simp only
    cases hread : decodeText dec raw with
    | ok a => exact hsome a (by rw [Option.bind_some, hread]; rfl)
    | error fault =>
      obtain rfl := hnone (by rw [Option.bind_some, hread]; rfl)
      exact ⟨.other rfl .nil, rfl⟩

theorem reports_framesCalls (hf : f.Framed) (o : Output) :
    f.FramesCalls
      ((o.report? "_tool_metadata" ToolReport.record.decode).toList.flatMap ToolReport.announced)
      (f.reports o) := by
  have hmodel : f.FramesCalls []
      (reported o Engine.modelKey "model" ModelReport.record.decode modelReport f) :=
    reported_framesCalls _ (fun _ => rfl) fun m _ => modelReport_framesNone hf m
  have htool (f : Framer) : f.FramesCalls
      ((o.report? "_tool_metadata" ToolReport.record.decode).toList.flatMap ToolReport.announced)
      (reported o "_tool_metadata" "tool" ToolReport.record.decode toolReport f) := by
    refine reported_framesCalls _ (fun h => by rw [h]; rfl) fun t h => ?_
    rw [h, Option.toList_some, List.flatMap_singleton]
    exact f.toolReport_framesCalls t
  have hcustom (f : Framer) : f.FramesCalls []
      (reported o Engine.customKey "node custom" CustomReport.record.decode customReport f) :=
    reported_framesCalls _ (fun _ => rfl) fun c _ => f.customReport_framesNone c
  have hall := (hmodel.andThen (htool _)).andThen (hcustom _)
  rw [List.nil_append, List.append_nil] at hall
  exact hall

theorem response_framesCalls (fresh : String) (o : Output) (r : Response) (f : Framer) :
    f.FramesCalls r.announced (response fresh o r f) := by
  have hcalls (f : Framer) :
      f.FramesCalls r.announced (if r.callsTools then f.toolCalls r else ([], f)) := by
    unfold Response.announced
    split
    · exact f.toolCalls_framesCalls r
    · exact ⟨.nil, rfl⟩
  have hresults (f : Framer) : f.FramesCalls []
      (if r.object = Response.toolKind || r.givesToolResult then f.toolResults fresh o r
        else ([], f)) := by
    split
    · exact f.toolResults_framesNone fresh o r
    · exact ⟨.nil, rfl⟩
  have hcalled : f.FramesCalls ([] ++ r.announced)
      (andThen (textOf r f) fun f => if r.callsTools then f.toolCalls r else ([], f)) :=
    (f.textOf_framesNone r).andThen (hcalls _)
  have hanswered : f.FramesCalls ([] ++ r.announced ++ []) (respond fresh o r f) := by
    unfold respond
    exact hcalled.andThen (hresults _)
  have hall := hanswered.andThen (ends_framesNone _ r)
  rw [List.append_nil, List.append_nil, List.nil_append] at hall
  exact hall

/-- **An output frames the calls that it announces**, those that are known left out. -/
theorem translate_framesCalls (hf : f.Framed) (fresh : String) (o : Output) :
    f.FramesCalls o.announced (f.translate fresh o) := by
  rw [translate_eq, Output.announced]
  have hreports := reports_framesCalls hf o
  cases o.response with
  | none =>
    rw [Option.filter_none, Option.toList_none, List.flatMap_nil, List.append_nil]
    exact hreports
  | some r =>
    cases herror : r.error with
    | some error =>
      simp only [Option.filter, herror]
      exact hreports.andThen ⟨.other rfl .nil, rfl⟩
    | none =>
      simp only [Option.filter, herror, Option.isNone_none, if_true, Option.toList_some,
        List.flatMap_singleton]
      exact hreports.andThen (response_framesCalls fresh o r _)

theorem translateAll_framesCalls (hf : f.Framed) (outputs : List (String × Output)) :
    f.FramesCalls (outputs.flatMap fun x => x.2.announced) (translateAll outputs f) := by
  induction outputs generalizing f with
  | nil => exact ⟨.nil, rfl⟩
  | cons x outputs ih =>
    have hfirst := translate_framesCalls hf x.1 x.2
    have hm : Moves (fun _ => True) f (f.translate x.1 x.2).1 (f.translate x.1 x.2).2 :=
      translate_moves hf trivial x.2
    exact hfirst.andThen (ih (hm.framed hf))

/-! ## Arguments -/

theorem arguments_ne_of_announced {o : Output} {a : Announcement} (h : a ∈ o.announced) :
    a.arguments ≠ some "" := by
  rcases List.mem_append.1 h with h | h
  · obtain ⟨t, -, h⟩ := List.mem_flatMap.1 h
    rw [ToolReport.announced] at h
    split at h
    · obtain rfl := List.mem_singleton.1 h
      rw [Announcement.ofReport]
      simp only
      split
      · nofun
      · rename_i hblank
        intro hempty
        rw [Option.some.inj hempty] at hblank
        exact hblank rfl
    · cases h
  · obtain ⟨r, -, h⟩ := List.mem_flatMap.1 h
    rw [Response.announced] at h
    split at h
    · obtain ⟨call, -, rfl⟩ := List.mem_map.1 h
      exact nonempty_ne _
    · cases h

/-- **Tool calls are framed once and whole.**  Whatever outputs a new framer is given: the tool
calls that they announce, by responses or by reports and however often, are framed at their first
announcements.  The events of tool calls are those of the frames, one frame behind the other and
each in one piece; no two frames are of one call, every call that is announced has a frame, and no
frame has empty arguments. -/
theorem calls_translateAll (threadId runId : String) (outputs : List (String × Output)) :
    let (events, _) := translateAll outputs { threadId, runId }
    let announced := outputs.flatMap fun x => x.2.announced
    let framed := firsts [] announced
    Woven events framed ∧
      events.filter (·.body.isCall) = framed.flatMap Announcement.frame ∧
      (framed.map (·.id)).Nodup ∧
      (∀ id, id ∈ framed.map (·.id) ↔ id ∈ announced.map (·.id)) ∧
      ∀ a ∈ framed, a.arguments ≠ some "" := by
  have hf : Framed { threadId, runId } := nofun
  obtain ⟨hwoven, -⟩ := translateAll_framesCalls hf outputs
  refine ⟨hwoven, hwoven.filter_eq, nodup_firsts _ _, fun id => ?_, fun a ha => ?_⟩
  · constructor
    · exact fun h => List.map_subset _ (firsts_subset _ _) h
    · intro h
      obtain ⟨a, ha, rfl⟩ := List.mem_map.1 h
      exact (mem_firsts ha).resolve_left List.not_mem_nil
  · obtain ⟨x, -, hx⟩ := List.mem_flatMap.1 (firsts_subset _ _ ha)
    exact arguments_ne_of_announced hx

end Framer

end AgentStream
