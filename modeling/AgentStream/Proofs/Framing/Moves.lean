/-
# Moves of a framer

Whatever an output says, a framer only makes a few kinds of moves: it opens, feeds and closes a
text frame, frames a tool call that it did not frame before, gives the result of a tool call, or
says something that belongs to no frame.  What holds of every move holds of every output.

* `Framer.Move`, `Framer.Moves` : the moves, and moves one after the other;
* `Framer.Framed` : the message of the open frame is one that was seen;
* `Framer.translate_moves` : the events of an output are those of moves;
* `Framer.translateAll` : the events of outputs in their order.
-/
import AgentStream.Framing

namespace AgentStream

open Engine (Output Response ModelReport ToolReport CustomReport)

/-- The event belongs to no frame: it ends a run, or is one of the program's own. -/
def Body.isAside : Body → Bool
  | runFinished .. => true
  | runError .. => true
  | custom .. => true
  | _ => false

namespace Framer

/-! ## Moves -/

/-- One move, with its events and the next state; `fresh` are the ids that nothing else has. -/
inductive Move (fresh : String → Prop) : Framer → List Event → Framer → Prop
  /-- A response is remembered. -/
  | sees (f : Framer) (id : String) : Move fresh f [] (f.seeResponse id)
  /-- Another message is spoken of while no frame is open. -/
  | turns (f : Framer) (id : String) (hc : f.isOpen = false) :
    Move fresh f [] { f with lastId := id }
  /-- A frame is opened while none is, for a message that was seen. -/
  | opens (f : Framer) (id : String) (role : Role) (hc : f.isOpen = false)
      (hs : id ∈ f.seenResponses) :
    Move fresh f [Body.textStart id role] { f with lastId := id, isOpen := true }
  /-- A piece of text goes into the open frame. -/
  | feeds (f : Framer) (text : String) (ho : f.isOpen = true) :
    Move fresh f [Body.textContent f.lastId text] f
  /-- The open frame is closed. -/
  | closes (f : Framer) (ho : f.isOpen = true) :
    Move fresh f [Body.textEnd f.lastId] { f with isOpen := false }
  /-- A tool call is framed that was not framed before. -/
  | frames (f : Framer) (id name : String) (parent arguments : Option String)
      (hn : id ∉ f.seenCalls) (ha : arguments ≠ some "") :
    Move fresh f (wholeCall id name parent arguments)
      { f with seenCalls := f.seenCalls.insert id }
  /-- The result of a tool call is given, under an id that is fresh or not empty. -/
  | answers (f : Framer) (messageId callId content : String)
      (hm : fresh messageId ∨ messageId ≠ "") (hc : callId ≠ "") :
    Move fresh f [.toolResult messageId callId content] f
  /-- Something is said that belongs to no frame. -/
  | asides (f : Framer) (e : Event) (he : e.body.isAside = true) : Move fresh f [e] f

/-- Moves one after the other. -/
inductive Moves (fresh : String → Prop) : Framer → List Event → Framer → Prop
  | none (f : Framer) : Moves fresh f [] f
  | next {f g h : Framer} {events rest : List Event} (hm : Move fresh f events g)
      (hr : Moves fresh g rest h) : Moves fresh f (events ++ rest) h

variable {fresh : String → Prop} {f g h : Framer} {events events' : List Event}

theorem Moves.trans (hf : Moves fresh f events g) (hg : Moves fresh g events' h) :
    Moves fresh f (events ++ events') h := by
  induction hf with
  | none => exact hg
  | next hm _ ih =>
    rw [List.append_assoc]
    exact .next hm (ih hg)

theorem Move.alone (hm : Move fresh f events g) : Moves fresh f events g := by
  rw [← List.append_nil events]
  exact .next hm (.none g)

/-- The moves of a step are followed by those of the next one. -/
theorem andThen_moves {s : Step} {next : Framer → Step} (hs : Moves fresh f s.1 s.2)
    (hn : Moves fresh s.2 (next s.2).1 (next s.2).2) :
    Moves fresh f (andThen s next).1 (andThen s next).2 :=
  hs.trans hn

/-- A step that is taken under a condition. -/
theorem ite_moves {c : Prop} [Decidable c] {s : Step} (hs : c → Moves fresh f s.1 s.2) :
    Moves fresh f (if c then s else ([], f)).1 (if c then s else ([], f)).2 := by
  split
  · rename_i hc
    exact hs hc
  · exact .none f

/-! ## Seen messages -/

/-- The message of the open frame was seen before. -/
def Framed (f : Framer) : Prop := f.isOpen = true → f.lastId ∈ f.seenResponses

theorem Move.framed (hm : Move fresh f events g) (hf : f.Framed) : g.Framed := by
  cases hm with
  | sees id => exact fun ho => List.mem_insert_of_mem (hf ho)
  | turns id hc => exact fun ho => absurd (hc.symm.trans ho) nofun
  | opens id role hc hs => exact fun _ => hs
  | closes => exact nofun
  | _ => exact hf

theorem Moves.framed (hm : Moves fresh f events g) (hf : f.Framed) : g.Framed := by
  induction hm with
  | none => exact hf
  | next hm _ ih => exact ih (hm.framed hf)

/-! ## Text frames -/

theorem mem_seeResponse (f : Framer) (id : String) : id ∈ (f.seeResponse id).seenResponses :=
  List.mem_insert_self

theorem close_moves (f : Framer) : Moves fresh f f.close.1 f.close.2 := by
  unfold close
  split
  · rename_i ho
    exact (Move.closes f ho).alone
  · exact .none f

theorem close_isOpen (f : Framer) : f.close.2.isOpen = false := by
  unfold close
  split
  · rfl
  · rename_i ho
    simpa using ho

theorem close_seen (f : Framer) : f.close.2.seenResponses = f.seenResponses := by
  unfold close
  split <;> rfl

/-- A whole frame, with no frame open before it. -/
theorem wholeText_moves (f : Framer) (id : String) (role : Role) (text : String)
    (hc : f.isOpen = false) (hs : id ∈ f.seenResponses) :
    Moves fresh f (wholeText id role text) { f with lastId := id, isOpen := false } := by
  have ho : Move fresh f [Body.textStart id role] { f with lastId := id, isOpen := true } :=
    .opens f id role hc hs
  refine .next ho (.next (.feeds _ text rfl) (Move.alone ?_))
  exact .closes { f with lastId := id, isOpen := true } rfl

theorem isOpen_self {b : Bool} (hb : f.isOpen = b) : { f with isOpen := b } = f := by
  subst hb
  rfl

/-- A piece of text, unless it is empty, and the end of the frame behind it, if it has ended. -/
theorem piece_moves (f : Framer) (id text : String) (finished : Bool) (ho : f.isOpen = true)
    (hid : f.lastId = id) :
    Moves fresh f
      ((if text.isEmpty then [] else [(Body.textContent id text : Event)])
        ++ if finished then [(Body.textEnd id : Event)] else [])
      { f with isOpen := !finished } := by
  subst hid
  have hp : Moves fresh f (if text.isEmpty then [] else [(Body.textContent f.lastId text : Event)])
      f := by
    split
    · exact .none f
    · exact (Move.feeds f text ho).alone
  refine hp.trans ?_
  cases finished with
  | true => exact (Move.closes f ho).alone
  | false =>
    rw [isOpen_self (b := !false) ho]
    exact .none f

/-- A frame is opened for another message, and the one before it is closed. -/
theorem reopen_moves (f : Framer) (id : String) (role : Role) (hs : id ∈ f.seenResponses) :
    Moves fresh f (f.close.1 ++ [(Body.textStart id role : Event)])
      { f.close.2 with lastId := id, isOpen := true } := by
  refine f.close_moves.trans (Move.alone ?_)
  refine .opens f.close.2 id role f.close_isOpen ?_
  rw [close_seen]
  exact hs

/-- A whole frame for another message; the one before it is closed. -/
theorem closed_moves (f : Framer) (id : String) (role : Role) (text : String)
    (hs : id ∈ f.seenResponses) :
    Moves fresh f (f.close.1 ++ wholeText id role text) { f.close.2 with lastId := id } := by
  have hw : Moves fresh f.close.2 (wholeText id role text)
      { f.close.2 with lastId := id, isOpen := false } := by
    refine f.close.2.wholeText_moves id role text f.close_isOpen ?_
    rw [close_seen]
    exact hs
  rw [isOpen_self (f := { f.close.2 with lastId := id }) f.close_isOpen] at hw
  exact f.close_moves.trans hw

theorem see_moves (f : Framer) (id : String) : Moves fresh f [] (f.seeResponse id) :=
  (Move.sees f id).alone

theorem chunk_moves (f : Framer) (r : Response) :
    Moves fresh f (f.chunk r).1 (f.chunk r).2 := by
  cases hch : r.choices with
  | nil =>
    simp only [chunk, hch]
    exact .none f
  | cons c rest =>
    simp only [chunk, hch]
    split
    · rename_i hid
      split
      · rename_i ho
        exact (f.see_moves r.id).trans (piece_moves _ r.id c.delta.content _ ho hid)
      · exact f.see_moves r.id
    · split
      · exact f.see_moves r.id
      · rename_i hne
        have hopen : Moves fresh (f.seeResponse r.id)
            ((f.seeResponse r.id).close.1 ++ [(Body.textStart r.id c.delta.role.shown : Event)])
            { (f.seeResponse r.id).close.2 with lastId := r.id, isOpen := true } :=
          reopen_moves _ r.id _ (f.mem_seeResponse r.id)
        have hm := hopen.trans (piece_moves _ r.id c.delta.content
          (!(c.finishReason.getD "").isEmpty) rfl rfl)
        rw [if_neg hne, ← List.append_assoc] at hm
        exact (f.see_moves r.id).trans hm

theorem completion_moves (f : Framer) (r : Response) :
    Moves fresh f (f.completion r).1 (f.completion r).2 := by
  cases hch : r.choices with
  | nil =>
    simp only [completion, hch]
    exact .none f
  | cons c rest =>
    simp only [completion, hch]
    split
    · exact (f.see_moves r.id).trans (close_moves _)
    · split
      · exact f.see_moves r.id
      · exact (f.see_moves r.id).trans (closed_moves _ r.id _ _ (f.mem_seeResponse r.id))

/-- The output of a model, for a message that is not the one of the open frame. -/
theorem modelReport_moves (hf : f.Framed) (m : ModelReport) :
    Moves fresh f (f.modelReport m).1 (f.modelReport m).2 := by
  unfold modelReport
  split
  · exact .none f
  · rename_i hm
    have hn : m.responseId ∉ f.seenResponses := by
      intro h
      simp [h] at hm
    have hclose : Moves fresh f (if f.lastId = m.responseId then ([], f) else f.close).1
        (if f.lastId = m.responseId then ([], f) else f.close).2 ∧
        (if f.lastId = m.responseId then ([], f) else f.close).2.isOpen = false := by
      split
      · -- The frame of this message cannot be open: the message has not been seen.
        rename_i hid
        refine ⟨.none f, ?_⟩
        cases ho : f.isOpen with
        | false => rfl
        | true => exact absurd (hid ▸ hf ho) hn
      · exact ⟨close_moves f, close_isOpen f⟩
    refine hclose.1.trans ((see_moves _ m.responseId).trans ?_)
    exact wholeText_moves _ m.responseId .assistant m.output hclose.2 (mem_seeResponse _ _)

/-! ## Tool calls -/

theorem nonempty_ne (s : String) : nonempty s ≠ some "" := by
  unfold nonempty
  split
  · nofun
  · rename_i h
    intro hs
    rw [Option.some.inj hs] at h
    exact h rfl

theorem calls_moves (parent : Option String) (calls : List ToolCall) (f : Framer) :
    Moves fresh f (Framer.calls parent calls f).1 (Framer.calls parent calls f).2 := by
  induction calls generalizing f with
  | nil => exact .none f
  | cons call rest ih =>
    unfold Framer.calls
    split
    · exact ih f
    · rename_i hn
      refine andThen_moves (Move.alone ?_) (ih _)
      exact .frames f call.id call.function.name parent _ (by simpa using hn) (nonempty_ne _)

/-- Another message may be spoken of, if no frame is open. -/
theorem turn_moves (f : Framer) (id : String) :
    Moves fresh f [] (if f.isOpen then f else { f with lastId := id }) := by
  split
  · exact .none f
  · rename_i hc
    exact (Move.turns f id (by simpa using hc)).alone

theorem toolCalls_moves (f : Framer) (r : Response) :
    Moves fresh f (f.toolCalls r).1 (f.toolCalls r).2 := by
  have hcalls : Moves fresh f
      (Framer.calls (nonempty r.id) (r.choices.flatMap (·.message.toolCalls)) f).1
      (Framer.calls (nonempty r.id) (r.choices.flatMap (·.message.toolCalls)) f).2 :=
    calls_moves _ _ f
  have hm := hcalls.trans (turn_moves _ r.id)
  rw [List.append_nil] at hm
  exact hm

/-- Results of tool calls, all under one id. -/
theorem results_moves (f : Framer) (messageId : String)
    (hm : fresh messageId ∨ messageId ≠ "") (messages : List Engine.Message)
    (hc : ∀ m ∈ messages, m.toolId ≠ "") :
    Moves fresh f (messages.map fun m => Event.toolResult messageId m.toolId m.content) f := by
  induction messages with
  | nil => exact .none f
  | cons m rest ih =>
    refine .next (.answers f messageId m.toolId m.content hm (hc m List.mem_cons_self)) ?_
    exact ih fun m' hm' => hc m' (List.mem_cons_of_mem m hm')

theorem nonempty_getD (s d : String) : (nonempty s).getD d = d ∨ (nonempty s).getD d ≠ "" := by
  unfold nonempty
  split
  · exact .inl rfl
  · rename_i h
    refine .inr fun hs => h ?_
    rw [show s = "" from hs]
    rfl

theorem toolResults_moves (f : Framer) {id : String} (hid : fresh id) (o : Output)
    (r : Response) : Moves fresh f (f.toolResults id o r).1 (f.toolResults id o r).2 := by
  have hm : fresh ((nonempty o.id).getD ((nonempty r.id).getD id)) ∨
      (nonempty o.id).getD ((nonempty r.id).getD id) ≠ "" := by
    rcases nonempty_getD o.id ((nonempty r.id).getD id) with h | h
    · rw [h]
      rcases nonempty_getD r.id id with h | h
      · rw [h]
        exact .inl hid
      · exact .inr h
    · exact .inr h
  have hresults := results_moves f _ hm
    ((r.choices.map (·.message)).filter fun m => !m.toolId.isEmpty) (by simp)
  have hturn := hresults.trans (turn_moves f ((nonempty o.id).getD ((nonempty r.id).getD id)))
  rw [List.append_nil] at hturn
  exact hturn

theorem toolReport_moves (f : Framer) (t : ToolReport) :
    Moves fresh f (f.toolReport t).1 (f.toolReport t).2 := by
  unfold toolReport
  split
  · exact .none f
  · rename_i h
    refine (Move.frames f t.toolId t.toolName _ _ ?_ ?_).alone
    · intro hs
      simp [hs] at h
    · split
      · nofun
      · rename_i hb
        intro hs
        rw [Option.some.inj hs] at hb
        exact hb rfl

/-! ## Outputs -/

theorem customReport_moves (f : Framer) (r : CustomReport) :
    Moves fresh f (f.customReport r).1 (f.customReport r).2 := by
  unfold customReport
  split
  · exact (Move.asides f _ rfl).alone
  · split
    · rename_i h
      exact (Move.feeds f r.message (by simp at h; exact h.1)).alone
    · exact (Move.asides f _ rfl).alone
  · exact (Move.asides f _ rfl).alone

/-- A report that is there makes the moves of its step; one that cannot be decoded fails the
run. -/
theorem reported_moves {α : Type} (o : Output) (key kind : String) (dec : Decoder α)
    (step : Framer → α → Step) (f : Framer)
    (hs : ∀ a, Moves fresh f (step f a).1 (step f a).2) :
    Moves fresh f (reported o key kind dec step f).1 (reported o key kind dec step f).2 := by
  unfold reported report
  cases o.blob? key with
  | none => exact .none f
  | some raw =>
    simp only
    cases decodeText dec raw with
    | ok a => exact hs a
    | error fault => exact (Move.asides f _ rfl).alone

theorem response_moves {id : String} (hid : fresh id) (o : Output) (r : Response) (f : Framer) :
    Moves fresh f (response id o r f).1 (response id o r f).2 := by
  unfold response
  refine andThen_moves (andThen_moves (andThen_moves ?text ?calls) ?results) ?ending
  -- Each part of a response is framed behind the one before it, whatever that left open.
  case text =>
    split
    · exact f.chunk_moves r
    · exact ite_moves fun _ => f.completion_moves r
  case calls => exact ite_moves fun _ => toolCalls_moves _ r
  case results => exact ite_moves fun _ => toolResults_moves _ hid o r
  case ending =>
    exact ite_moves fun _ => andThen_moves (close_moves _) (Move.asides _ _ rfl).alone

/-- **The events of an output are those of moves.** -/
theorem translate_moves (hf : f.Framed) {id : String} (hid : fresh id) (o : Output) :
    Moves fresh f (f.translate id o).1 (f.translate id o).2 := by
  have hmodel : Moves fresh f
      (reported o Engine.modelKey "model" ModelReport.record.decode modelReport f).1
      (reported o Engine.modelKey "model" ModelReport.record.decode modelReport f).2 :=
    reported_moves o _ _ _ _ f fun m => modelReport_moves hf m
  have htool := andThen_moves hmodel (reported_moves o Engine.toolKey "tool"
    ToolReport.record.decode toolReport _ fun t => toolReport_moves _ t)
  have hcustom := andThen_moves htool (reported_moves o Engine.customKey "node custom"
    CustomReport.record.decode customReport _ fun c => customReport_moves _ c)
  unfold translate
  cases o.response with
  | none => exact hcustom
  | some r =>
    simp only
    cases r.error with
    | none => exact andThen_moves hcustom (response_moves hid o r _)
    | some e => exact andThen_moves hcustom (Move.asides _ _ rfl).alone

/-- The events of outputs in their order, each with a fresh id, and the last state. -/
def translateAll : List (String × Output) → Framer → Step
  | [], f => ([], f)
  | (id, o) :: rest, f => andThen (f.translate id o) (translateAll rest)

/-- The events of outputs are those of moves. -/
theorem translateAll_moves (hf : f.Framed) (outputs : List (String × Output))
    (hid : ∀ x ∈ outputs, fresh x.1) :
    Moves fresh f (translateAll outputs f).1 (translateAll outputs f).2 := by
  induction outputs generalizing f with
  | nil => exact .none f
  | cons x rest ih =>
    have hm : Moves fresh f (f.translate x.1 x.2).1 (f.translate x.1 x.2).2 :=
      translate_moves hf (hid x List.mem_cons_self) x.2
    exact andThen_moves hm (ih (hm.framed hf) fun y hy => hid y (List.mem_cons_of_mem x hy))

end Framer

end AgentStream
