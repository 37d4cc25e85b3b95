/-
# How answers are framed

An engine gives a message in one piece, or in pieces that come to its text, some of them empty.
Either way the framer says a start, pieces that come to the text, and an end.

* `Speaks` : outputs that show no activity, and what they are translated into;
* `Delivers`, `Answers` : the responses that give one message, and messages one after the other;
* `Framer.Stands` : what a framer knows, but for what it has seen;
* `Framer.Says` : what a framer says to responses, and what it knows then;
* `Framer.delivers_says`, `Framer.answers_says` : what it says to messages.
-/
import AgentStream.Activity
import AgentStream.Framing

namespace AgentStream

open Engine (Output Response)

/-! ## Outputs and what they say -/

/-- Outputs show no activity, and whichever ids are fresh they are translated into these
events. -/
inductive Speaks {τ : Type} [Translator τ] (switches : Activity.Switches) :
    τ → List Output → List Event → τ → Prop
  | nil (t : τ) : Speaks switches t [] [] t
  | cons {t t' t'' : τ} {o : Output} {outputs : List Output} {events events' : List Event}
      (silent : ∀ fresh fresh', Activity.project switches fresh fresh' o = [])
      (translated : ∀ fresh, Translator.translate t fresh o = (.ok events, t'))
      (rest : Speaks switches t' outputs events' t'') :
      Speaks switches t (o :: outputs) (events ++ events') t''

theorem Speaks.append {τ : Type} [Translator τ] {switches : Activity.Switches} {t t' t'' : τ}
    {outputs outputs' : List Output} {events events' : List Event}
    (h : Speaks switches t outputs events t') (h' : Speaks switches t' outputs' events' t'') :
    Speaks switches t (outputs ++ outputs') (events ++ events') t'' := by
  induction h with
  | nil t => exact h'
  | cons silent translated _ ih =>
    rw [List.append_assoc]
    exact .cons silent translated (ih h')

/-- The responses of outputs without blobs. -/
def Carries (outputs : List Output) (responses : List Response) : Prop :=
  outputs.map (·.response) = responses.map some ∧ ∀ o ∈ outputs, o.blobs = []

section Carries

variable {outputs : List Output} {responses responses' : List Response} {r : Response}

theorem Carries.nil (h : Carries outputs []) : outputs = [] := List.map_eq_nil_iff.1 h.1

theorem Carries.cons (h : Carries outputs (r :: responses)) :
    ∃ o rest, outputs = o :: rest ∧ o.response = some r ∧ o.blobs = [] ∧
      Carries rest responses := by
  cases outputs with
  | nil => exact nomatch h.1
  | cons o rest =>
    obtain ⟨ho, hrest⟩ := List.cons.inj h.1
    obtain ⟨hb, hbs⟩ := List.forall_mem_cons.1 h.2
    exact ⟨o, rest, rfl, ho, hb, hrest, hbs⟩

theorem Carries.append (h : Carries outputs (responses ++ responses')) :
    ∃ xs ys, outputs = xs ++ ys ∧ Carries xs responses ∧ Carries ys responses' := by
  obtain ⟨hr, hb⟩ := h
  rw [List.map_append] at hr
  obtain ⟨xs, ys, rfl, hx, hy⟩ := List.map_eq_append_iff.1 hr
  obtain ⟨hbx, hby⟩ := List.forall_mem_append.1 hb
  exact ⟨xs, ys, rfl, ⟨hx, hbx⟩, hy, hby⟩

end Carries

/-- Without blobs an output shows no activity. -/
theorem Activity.project_of_blobs {o : Output} (h : o.blobs = []) (switches : Activity.Switches)
    (fresh fresh' : String) : Activity.project switches fresh fresh' o = [] := by
  have hblob (key : String) : o.blob? key = none := by
    rw [Output.blob?, h]
    rfl
  have hnode : Activity.node? o = none := by simp only [Activity.node?, hblob]
  have hstep : Activity.interrupted? o = none := by simp only [Activity.interrupted?, hblob]
  simp only [Activity.project, Activity.lifecycle, Activity.interrupt, hnode, hstep, ite_self,
    List.append_nil]

/-! ## Deliveries -/

/-- Responses give a message: in one piece, or in pieces that come to its text.  The last of
these has a finish reason, behind which the whole message may come again, or else the whole
message comes behind them, whatever it says then. -/
inductive Delivers (id text : String) : List Response → Prop
  | whole : Delivers id text [.completion id text]
  | finished (deltas : List String) (last reason : String) (summary : Option String)
      (joined : String.join (deltas ++ [last]) = text) (given : reason ≠ "") :
      Delivers id text (deltas.map (Response.chunk id)
        ++ (Response.chunk id last).withFinishReason reason
          :: (summary.map (Response.completion id)).toList)
  | completed (deltas : List String) (summary : String) (joined : String.join deltas = text) :
      Delivers id text (deltas.map (Response.chunk id) ++ [.completion id summary])

/-- Responses give messages one after the other. -/
inductive Answers : List (String × String) → List Response → Prop
  | nil : Answers [] []
  | cons {id text : String} {pairs : List (String × String)} {responses responses' : List Response}
      (first : Delivers id text responses) (rest : Answers pairs responses') :
      Answers ((id, text) :: pairs) (responses ++ responses')

/-- A piece of a message, unless it is empty. -/
def piece (id delta : String) : List Event :=
  if delta.isEmpty then [] else [Body.textContent id delta]

/-- The frame of a message, in pieces. -/
def frame (id : String) (deltas : List String) : List Event :=
  (Body.textStart id .assistant : Event) :: deltas.flatMap (piece id) ++ [(Body.textEnd id : Event)]

/-- The frames of messages one after the other. -/
def frames (said : List (String × List String)) : List Event := said.flatMap fun x => frame x.1 x.2

namespace Framer

/-- What a framer knows, but for what it has seen. -/
structure Stands (f : Framer) (threadId runId lastId : String) (isOpen : Bool) : Prop where
  threadId : f.threadId = threadId
  runId : f.runId = runId
  lastId : f.lastId = lastId
  isOpen : f.isOpen = isOpen

variable {f : Framer} {threadId runId lastId id : String} {isOpen : Bool}
  {switches : Activity.Switches}

theorem andThen_silent (s : Step) : andThen s (fun f => ([], f)) = s := by
  show (s.1 ++ [], s.2) = s
  rw [List.append_nil]

/-- The reports of an output without blobs say nothing. -/
theorem translate_of_blobs {o : Output} {r : Response} (hb : o.blobs = [])
    (hr : o.response = some r) (he : r.error = none) (fresh : String) :
    f.translate fresh o = response fresh o r f := by
  have hblob (key : String) : o.blob? key = none := by
    rw [Output.blob?, hb]
    rfl
  have hreported {α : Type} (key kind : String) (dec : Decoder α) (step : Framer → α → Step)
      (f : Framer) : reported o key kind dec step f = ([], f) := by
    simp only [reported, report, hblob]
  simp only [translate, hreported, andThen, hr, he, List.nil_append]

/-! ## Single responses -/

/-- A piece of a message of the assistant, with or without a finish reason. -/
def chunkOf (id delta : String) (reason : Option String) : Response :=
  { Response.chunk id delta with
    choices := [{ delta := .assistant delta, finishReason := reason }] }

/-- A piece of a message is nothing else. -/
theorem response_chunkOf (id delta : String) (reason : Option String) (fresh : String) (o : Output)
    (f : Framer) :
    response fresh o (chunkOf id delta reason) f = f.chunk (chunkOf id delta reason) := by
  have hobject : (chunkOf id delta reason).object = Response.chunkKind := rfl
  have hcalls : (chunkOf id delta reason).callsTools = false := rfl
  have hresult : (chunkOf id delta reason).givesToolResult = false := rfl
  have htool : Response.chunkKind ≠ Response.toolKind := by decide
  have hend : Response.chunkKind ≠ Response.endKind := by decide
  simp only [response, hobject, hcalls, hresult, htool, hend, if_true, if_false, decide_false,
    Bool.or_self, Bool.false_eq_true, andThen_silent]

/-- A whole message is nothing else. -/
theorem response_completion (id content : String) (fresh : String) (o : Output) (f : Framer) :
    response fresh o (.completion id content) f = f.completion (.completion id content) := by
  have hobject : (Response.completion id content).object = Response.completionKind := rfl
  have hcalls : (Response.completion id content).callsTools = false := rfl
  have hresult : (Response.completion id content).givesToolResult = false := rfl
  have hchunk : Response.completionKind ≠ Response.chunkKind := by decide
  have htool : Response.completionKind ≠ Response.toolKind := by decide
  have hend : Response.completionKind ≠ Response.endKind := by decide
  simp only [response, hobject, hcalls, hresult, hchunk, htool, hend, if_true, if_false,
    decide_false, Bool.or_self, Bool.false_eq_true, andThen_silent]

/-- The end of a run closes what is open and says so. -/
theorem response_runEnd (fresh : String) (o : Output) (f : Framer) :
    response fresh o .runEnd f
      = andThen f.close fun f => ([Event.runFinished f.threadId f.runId], f) := by
  have hchunk : Response.endKind ≠ Response.chunkKind := by decide
  have hcompletion : Response.endKind ≠ Response.completionKind := by decide
  have htool : Response.endKind ≠ Response.toolKind := by decide
  have hobject : Response.runEnd.object = Response.endKind := rfl
  have hcalls : Response.runEnd.callsTools = false := rfl
  have hresult : Response.runEnd.givesToolResult = false := rfl
  simp only [response, hobject, hcalls, hresult, hchunk, hcompletion, htool, if_true, if_false,
    decide_false, Bool.or_self, Bool.false_eq_true, andThen, List.nil_append]

/-- The end of a message, if there is a finish reason. -/
def ending (id : String) (reason : Option String) : List Event :=
  if !(reason.getD "").isEmpty then [Body.textEnd id] else []

/-- Nothing is open that would have to be closed. -/
theorem close_closed (h : f.isOpen = false) (id : String) :
    (f.seeResponse id).close = ([], f.seeResponse id) := by
  have hopen : ¬(f.seeResponse id).isOpen = true := by
    show ¬f.isOpen = true
    rw [h]
    nofun
  rw [close, if_neg hopen]

/-- A piece of the open message goes on with it; a finish reason ends it. -/
theorem chunk_open (h : f.Stands threadId runId id true) (delta : String) (reason : Option String) :
    f.chunk (chunkOf id delta reason) = (piece id delta ++ ending id reason,
      { f.seeResponse id with isOpen := !!(reason.getD "").isEmpty }) := by
  show (if f.lastId = id then
      if f.isOpen then (piece id delta ++ ending id reason, _) else _
    else _) = _
  rw [if_pos h.lastId, if_pos h.isOpen]
  rfl

/-- An empty piece of another message says nothing. -/
theorem chunk_empty (h : f.Stands threadId runId lastId false) (hid : lastId ≠ id)
    (reason : Option String) : f.chunk (chunkOf id "" reason) = ([], f.seeResponse id) := by
  have hid : ¬f.lastId = id := fun he => hid (h.lastId.symm.trans he)
  show (if f.lastId = id then _ else ([], f.seeResponse id)) = _
  rw [if_neg hid]

/-- The first piece of another message that is not empty opens its frame. -/
theorem chunk_first (h : f.Stands threadId runId lastId false) (hid : lastId ≠ id) {delta : String}
    (hd : delta ≠ "") (reason : Option String) :
    f.chunk (chunkOf id delta reason)
      = ((Body.textStart id .assistant : Event) :: piece id delta ++ ending id reason,
        { f.seeResponse id with lastId := id, isOpen := !!(reason.getD "").isEmpty }) := by
  have hid : ¬f.lastId = id := fun he => hid (h.lastId.symm.trans he)
  have hd : ¬delta.isEmpty = true := by simpa using hd
  show (if f.lastId = id then _ else if delta.isEmpty then _ else _) = _
  rw [if_neg hid, if_neg hd, close_closed h.isOpen]
  rfl

/-- The whole of the message spoken of last closes its frame. -/
theorem completion_last (h : f.Stands threadId runId id isOpen) (content : String) :
    f.completion (.completion id content) = (f.seeResponse id).close := by
  show (if f.lastId = id then (f.seeResponse id).close else _) = _
  rw [if_pos h.lastId]

/-- Another message that comes as a whole is a whole frame. -/
theorem completion_other (h : f.Stands threadId runId lastId false) (hid : lastId ≠ id)
    {content : String} (hc : content ≠ "") :
    f.completion (.completion id content)
      = (frame id [content], { f.seeResponse id with lastId := id }) := by
  have hid : ¬f.lastId = id := fun he => hid (h.lastId.symm.trans he)
  have hc : ¬content.isEmpty = true := by simpa using hc
  have hframe : frame id [content] = wholeText id .assistant content := by
    rw [frame, List.flatMap_singleton, piece, if_neg hc]
    rfl
  show (if f.lastId = id then _ else if content.isEmpty then _ else _) = _
  rw [if_neg hid, if_neg hc, close_closed h.isOpen, hframe]
  rfl

/-! ## Messages -/

/-- To outputs that carry responses a framer says events, and knows then what it should. -/
def Says (switches : Activity.Switches) (f : Framer) (responses : List Response)
    (events : List Event) (P : Framer → Prop) : Prop :=
  ∀ outputs, Carries outputs responses → ∃ f', Speaks switches f outputs events f' ∧ P f'

section Says

variable {P Q : Framer → Prop} {events events' : List Event}

theorem says_nil (h : P f) : Says switches f [] [] P := by
  intro outputs ho
  rw [ho.nil]
  exact ⟨f, .nil f, h⟩

theorem says_single {r : Response} {f' : Framer} (he : r.error = none)
    (hr : ∀ fresh o, response fresh o r f = (events, f')) (hp : P f') :
    Says switches f [r] events P := by
  intro outputs ho
  obtain ⟨o, rest, rfl, hresponse, hb, hrest⟩ := ho.cons
  rw [hrest.nil]
  have htranslated (fresh : String) : Translator.translate f fresh o = (.ok events, f') := by
    have htranslate : f.translate fresh o = (events, f') := by
      rw [translate_of_blobs hb hresponse he, hr]
    show (Except.ok (f.translate fresh o).1, (f.translate fresh o).2) = _
    rw [htranslate]
  have hspeaks : Speaks switches f [o] (events ++ []) f' :=
    .cons (Activity.project_of_blobs hb switches) htranslated (.nil f')
  rw [List.append_nil] at hspeaks
  exact ⟨f', hspeaks, hp⟩

theorem Says.append {responses responses' : List Response} (h : Says switches f responses events P)
    (h' : ∀ f', P f' → Says switches f' responses' events' Q) :
    Says switches f (responses ++ responses') (events ++ events') Q := by
  intro outputs ho
  obtain ⟨xs, ys, rfl, hx, hy⟩ := ho.append
  obtain ⟨f', hspeaks, hp⟩ := h xs hx
  obtain ⟨f'', hspeaks', hq⟩ := h' f' hp ys hy
  exact ⟨f'', hspeaks.append hspeaks', hq⟩

end Says

theorem says_chunk_open (h : f.Stands threadId runId id true) (delta : String)
    (reason : Option String) : Says switches f [chunkOf id delta reason]
      (piece id delta ++ ending id reason)
      fun f' => f'.Stands threadId runId id (reason.getD "").isEmpty :=
  says_single rfl
    (fun fresh o => (response_chunkOf id delta reason fresh o f).trans (chunk_open h delta reason))
    ⟨h.threadId, h.runId, h.lastId, Bool.not_not _⟩

theorem says_chunk_empty (h : f.Stands threadId runId lastId false) (hid : lastId ≠ id) :
    Says switches f [.chunk id ""] [] fun f' => f'.Stands threadId runId lastId false :=
  says_single rfl
    (fun fresh o => (response_chunkOf id "" none fresh o f).trans (chunk_empty h hid none))
    ⟨h.threadId, h.runId, h.lastId, h.isOpen⟩

theorem says_chunk_first (h : f.Stands threadId runId lastId false) (hid : lastId ≠ id)
    {delta : String} (hd : delta ≠ "") (reason : Option String) :
    Says switches f [chunkOf id delta reason]
      ((Body.textStart id .assistant : Event) :: piece id delta ++ ending id reason)
      fun f' => f'.Stands threadId runId id (reason.getD "").isEmpty :=
  says_single rfl
    (fun fresh o =>
      (response_chunkOf id delta reason fresh o f).trans (chunk_first h hid hd reason))
    ⟨h.threadId, h.runId, rfl, Bool.not_not _⟩

theorem says_completion_open (h : f.Stands threadId runId id true) (content : String) :
    Says switches f [.completion id content] [(Body.textEnd id : Event)]
      fun f' => f'.Stands threadId runId id false := by
  have hclose : (f.seeResponse id).close
      = ([(Body.textEnd id : Event)], { f.seeResponse id with isOpen := false }) := by
    show (if f.isOpen then ([(Body.textEnd f.lastId : Event)], _) else _) = _
    rw [if_pos h.isOpen, h.lastId]
  exact says_single rfl
    (fun fresh o => (response_completion id content fresh o f).trans
      ((completion_last h content).trans hclose))
    ⟨h.threadId, h.runId, h.lastId, rfl⟩

theorem says_completion_closed (h : f.Stands threadId runId id false) (content : String) :
    Says switches f [.completion id content] [] fun f' => f'.Stands threadId runId id false :=
  says_single rfl
    (fun fresh o => (response_completion id content fresh o f).trans
      ((completion_last h content).trans (close_closed h.isOpen id)))
    ⟨h.threadId, h.runId, h.lastId, h.isOpen⟩

theorem says_completion_other (h : f.Stands threadId runId lastId false) (hid : lastId ≠ id)
    {content : String} (hc : content ≠ "") :
    Says switches f [.completion id content] (frame id [content])
      fun f' => f'.Stands threadId runId id false :=
  says_single rfl
    (fun fresh o =>
      (response_completion id content fresh o f).trans (completion_other h hid hc))
    ⟨h.threadId, h.runId, rfl, h.isOpen⟩

/-- Pieces go on with the open message. -/
theorem says_chunks_open (h : f.Stands threadId runId id true) (deltas : List String) :
    Says switches f (deltas.map (Response.chunk id)) (deltas.flatMap (piece id))
      fun f' => f'.Stands threadId runId id true := by
  induction deltas generalizing f with
  | nil => exact says_nil h
  | cons delta deltas ih =>
    have hfirst : Says switches f [.chunk id delta] (piece id delta ++ []) _ :=
      says_chunk_open h delta none
    rw [List.append_nil] at hfirst
    exact hfirst.append fun f' hf' => ih hf'

/-- Pieces of another message say nothing as long as they come to nothing. -/
theorem says_chunks_empty (h : f.Stands threadId runId lastId false) (hid : lastId ≠ id)
    {deltas : List String} (hd : String.join deltas = "") :
    Says switches f (deltas.map (Response.chunk id)) []
      fun f' => f'.Stands threadId runId lastId false := by
  induction deltas generalizing f with
  | nil => exact says_nil h
  | cons delta deltas ih =>
    rw [String.join_cons, String.append_eq_empty_iff] at hd
    rw [List.map_cons, hd.1]
    exact (says_chunk_empty h hid).append fun f' hf' => ih hf' hd.2

/-- Pieces of another message open its frame once they come to a text. -/
theorem says_chunks_first (h : f.Stands threadId runId lastId false) (hid : lastId ≠ id)
    {deltas : List String} (hd : String.join deltas ≠ "") :
    Says switches f (deltas.map (Response.chunk id))
      ((Body.textStart id .assistant : Event) :: deltas.flatMap (piece id))
      fun f' => f'.Stands threadId runId id true := by
  induction deltas generalizing f with
  | nil => exact absurd rfl hd
  | cons delta deltas ih =>
    by_cases hdelta : delta = ""
    · subst hdelta
      have hrest : String.join deltas ≠ "" := fun he => hd (by rw [String.join_cons, he]; rfl)
      exact (says_chunk_empty h hid).append fun f' hf' => ih hf' hrest
    · have hfirst : Says switches f [.chunk id delta] (_ :: piece id delta ++ []) _ :=
        says_chunk_first h hid hdelta none
      rw [List.append_nil] at hfirst
      exact hfirst.append fun f' hf' => says_chunks_open hf' deltas

/-- Behind the end of a message its whole says nothing. -/
theorem says_summary (h : f.Stands threadId runId id false) (summary : Option String) :
    Says switches f (summary.map (Response.completion id)).toList []
      fun f' => f'.Stands threadId runId id false := by
  cases summary with
  | none => exact says_nil h
  | some content => exact says_completion_closed h content

theorem flatMap_piece_empty (id : String) {deltas : List String} (hd : String.join deltas = "") :
    deltas.flatMap (piece id) = [] := by
  induction deltas with
  | nil => rfl
  | cons delta deltas ih =>
    rw [String.join_cons, String.append_eq_empty_iff] at hd
    rw [List.flatMap_cons, ih hd.2, hd.1]
    rfl

/-- The last piece of a message, with a finish reason, completes the frame of all pieces. -/
theorem says_finished (h : f.Stands threadId runId lastId false) (hid : lastId ≠ id)
    {deltas : List String} {last reason : String} (hd : String.join (deltas ++ [last]) ≠ "")
    (hr : reason ≠ "") :
    Says switches f (deltas.map (Response.chunk id) ++ [chunkOf id last (some reason)])
      (frame id (deltas ++ [last])) fun f' => f'.Stands threadId runId id false := by
  have hreason : reason.isEmpty = false := by simpa using hr
  have hending : ending id (some reason) = [(Body.textEnd id : Event)] := by
    show (if !reason.isEmpty then [(Body.textEnd id : Event)] else []) = _
    rw [hreason]
    rfl
  rw [frame, List.flatMap_append, List.flatMap_singleton]
  by_cases hempty : String.join deltas = ""
  · have hlast : last ≠ "" := by
      rintro rfl
      exact hd (by rw [String.join_append, hempty]; rfl)
    rw [flatMap_piece_empty id hempty]
    refine (says_chunks_empty h hid hempty).append fun f' hf' => ?_
    rw [← hending]
    exact hreason ▸ says_chunk_first hf' hid hlast (some reason)
  · have hevents : (Body.textStart id .assistant : Event) :: (deltas.flatMap (piece id)
        ++ piece id last) ++ [(Body.textEnd id : Event)]
          = ((Body.textStart id .assistant : Event) :: deltas.flatMap (piece id))
            ++ (piece id last ++ ending id (some reason)) := by
      rw [hending]
      simp
    rw [hevents]
    refine (says_chunks_first h hid hempty).append fun f' hf' => ?_
    exact hreason ▸ says_chunk_open hf' last (some reason)

/-- **However a message is given, a framer says its frame.** -/
theorem delivers_says (switches : Activity.Switches) (threadId runId : String) {text : String}
    (ht : text ≠ "") {responses : List Response} (hd : Delivers id text responses) :
    ∃ deltas, String.join deltas = text ∧ ∀ (f : Framer) (lastId : String),
      f.Stands threadId runId lastId false → lastId ≠ id →
        Says switches f responses (frame id deltas)
          fun f' => f'.Stands threadId runId id false := by
  cases hd with
  | whole => exact ⟨[text], by simp, fun f lastId h hid => says_completion_other h hid ht⟩
  | completed deltas summary joined =>
    refine ⟨deltas, joined, fun f lastId h hid => ?_⟩
    exact (says_chunks_first h hid (joined ▸ ht)).append fun f' hf' =>
      says_completion_open hf' summary
  | finished deltas last reason summary joined given =>
    refine ⟨deltas ++ [last], joined, fun f lastId h hid => ?_⟩
    have hall : Says switches f _ (frame id (deltas ++ [last]) ++ []) _ :=
      (says_finished h hid (joined ▸ ht) given).append fun f' hf' => says_summary hf' summary
    rw [List.append_nil, List.append_assoc] at hall
    exact hall

/-- **To messages one after the other a framer says their frames.** -/
theorem answers_says (switches : Activity.Switches) (threadId runId : String)
    {pairs : List (String × String)} {responses : List Response} (ha : Answers pairs responses)
    (htexts : ∀ x ∈ pairs, x.2 ≠ "") :
    ∃ said : List (String × List String), said.map (fun x => (x.1, String.join x.2)) = pairs ∧
      ∀ (f : Framer) (lastId : String), f.Stands threadId runId lastId false →
        (lastId :: pairs.map Prod.fst).Nodup →
          Says switches f responses (frames said)
            fun f' => ∃ id, f'.Stands threadId runId id false := by
  induction ha with
  | nil => exact ⟨[], rfl, fun f lastId h _ => says_nil ⟨lastId, h⟩⟩
  | @cons id text pairs responses responses' first rest ih =>
    obtain ⟨htext, hrest⟩ := List.forall_mem_cons.1 htexts
    obtain ⟨deltas, rfl, hfirst⟩ := delivers_says switches threadId runId htext first
    obtain ⟨said, rfl, hsaid⟩ := ih hrest
    refine ⟨(id, deltas) :: said, rfl, fun f lastId h hids => ?_⟩
    obtain ⟨hnew, hids⟩ := List.nodup_cons.1 hids
    have hid : lastId ≠ id := fun he => hnew (he ▸ List.mem_cons_self)
    exact (hfirst f lastId h hid).append fun f' hf' => hsaid f' id hf' hids

/-- To the end of the engine's run a framer says the end of the run. -/
theorem says_runEnd (h : ∃ id, f.Stands threadId runId id false) :
    Says switches f [.runEnd] [Event.runFinished threadId runId]
      fun f' => ∃ id, f'.Stands threadId runId id false := by
  obtain ⟨id, hf⟩ := h
  have hclose : f.close = ([], f) := by
    rw [close, hf.isOpen]
    rfl
  refine says_single rfl (fun fresh o => ?_) ⟨id, hf⟩
  rw [response_runEnd, hclose, andThen, hf.threadId, hf.runId]
  rfl

end Framer

end AgentStream
