/-
# Text frames

Read from left to right, what a framer says keeps to its frames: a text message starts only
while none is open, and pieces and ends are those of the message that is open.

* `frameAfter`, `framesAfter` : a reader that knows which message is open, and stops at an event
  that is out of place;
* `Framer.framesAfter_translateAll` : it reads the events of all outputs, and agrees with the
  framer on what is open behind them.
-/
import AgentStream.Proofs.Framing.Moves

namespace AgentStream

/-! ## A reader of frames -/

/-- The message that is open behind an event, if one is; nothing at all if a message starts while
one is open, or if a piece or an end is not of the message that is open. -/
def frameAfter (opened : Option String) (e : Event) : Option (Option String) :=
  match e.body with
  | .textStart id _ => if opened = none then some (some id) else none
  | .textContent id _ => if opened = some id then some (some id) else none
  | .textEnd id => if opened = some id then some none else none
  | _ => some opened

/-- The message that is open behind events, if all of them are in place. -/
def framesAfter (opened : Option String) (events : List Event) : Option (Option String) :=
  events.foldlM frameAfter opened

example : framesAfter none [Body.textStart "a" .assistant, Body.textStart "b" .assistant] = none :=
  rfl

theorem framesAfter_append (opened : Option String) (events events' : List Event) :
    framesAfter opened (events ++ events')
      = (framesAfter opened events).bind fun opened => framesAfter opened events' :=
  List.foldlM_append

namespace Framer

variable {fresh : String → Prop} {f g : Framer} {events : List Event}

/-- The message whose frame is open. -/
def openId? (f : Framer) : Option String := if f.isOpen then some f.lastId else none

/-- The frame of a tool call opens and closes no text. -/
theorem framesAfter_wholeCall (opened : Option String) (id name : String)
    (parent arguments : Option String) :
    framesAfter opened (wholeCall id name parent arguments) = some opened := by
  cases arguments <;> rfl

/-- A move keeps to the frames. -/
theorem Move.framesAfter (hm : Move fresh f events g) :
    framesAfter f.openId? events = some g.openId? := by
  cases hm with
  | sees id => rfl
  | turns id hc =>
    have hf : f.openId? = none := by rw [openId?, hc]; rfl
    have hg : openId? { f with lastId := id } = none := by rw [openId?, hc]; rfl
    rw [hf, hg]
    rfl
  | opens id role hc hs =>
    have hf : f.openId? = none := by rw [openId?, hc]; rfl
    rw [hf]
    rfl
  | feeds text ho =>
    have hf : f.openId? = some f.lastId := by rw [openId?, ho]; rfl
    rw [hf]
    simp [AgentStream.framesAfter, frameAfter]
  | closes ho =>
    have hf : f.openId? = some f.lastId := by rw [openId?, ho]; rfl
    rw [hf]
    simp [AgentStream.framesAfter, frameAfter, openId?]
  | frames id name parent arguments => exact framesAfter_wholeCall _ id name parent arguments
  | answers => rfl
  | asides e he =>
    simp only [AgentStream.framesAfter, List.foldlM_cons, List.foldlM_nil, frameAfter]
    cases hb : e.body <;> simp [hb, Body.isAside] at he ⊢

/-- Moves keep to the frames. -/
theorem Moves.framesAfter (hm : Moves fresh f events g) :
    AgentStream.framesAfter f.openId? events = some g.openId? := by
  induction hm with
  | none => rfl
  | next hm _ ih =>
    rw [framesAfter_append, hm.framesAfter]
    exact ih

/-- **Text framing.**  Whatever outputs a new framer is given, and whatever ids are taken for
fresh: read from left to right, a text message starts only while none is open, pieces and ends
are those of the message that is open, and behind all of them the message spoken of last is open
if the framer says so, and none is otherwise. -/
theorem framesAfter_translateAll (threadId runId : String)
    (outputs : List (String × Engine.Output)) :
    let (events, f) := translateAll outputs { threadId, runId }
    framesAfter none events = some (if f.isOpen then some f.lastId else none) := by
  have hf : Framed { threadId, runId } := nofun
  have hm : Moves (fun _ => True) { threadId, runId } _ _ :=
    translateAll_moves hf outputs fun _ _ => trivial
  exact hm.framesAfter

end Framer

end AgentStream
