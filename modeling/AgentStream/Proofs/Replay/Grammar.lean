/-
# Well-framed logs

What a log must look like for its replay to come to its end: every text and every tool call is
framed on its own, whatever else stands between its events.

* `Body.textEvents`, `Body.callEvents` : the events of one text and of one tool call;
* `TextShape`, `CallShape` : how they may follow each other;
* `Body.WellFramed`, `WellFramed` : what must hold of all events, and of all entries, of a log;
* `TextShape.split`, `CallShape.split` : what comes before an event of a text or of a tool call.
-/
import AgentStream.Replay

namespace AgentStream

/-! ## Events of texts and of tool calls -/

/-- The role is one under which text messages are shown. -/
def Role.Speaks (role : Role) : Prop := role = .user ∨ role = .assistant

namespace Body

/-- The text that an event belongs to. -/
def textId? : Body → Option String
  | textStart id _ => some id
  | textContent id _ => some id
  | textEnd id => some id
  | textChunk id _ _ => id
  | _ => none

/-- The tool call that an event belongs to. -/
def callId? : Body → Option String
  | toolStart id _ _ => some id
  | toolArgs id _ => some id
  | toolEnd id => some id
  | toolResult _ id _ _ => some id
  | _ => none

/-- The event begins a text. -/
def OpensText (id : String) : Body → Prop
  | textStart id' _ => id' = id
  | textChunk id' _ _ => id' = some id
  | _ => False

/-- The event begins a tool call that belongs to a text. -/
def CallsFrom (id : String) : Body → Prop
  | toolStart _ _ parent => parent = some id
  | _ => False

/-- The events of a text, in their order. -/
def textEvents (id : String) (bodies : List Body) : List Body :=
  bodies.filter fun b => b.textId? = some id

/-- The events of a tool call, in their order. -/
def callEvents (id : String) (bodies : List Body) : List Body :=
  bodies.filter fun b => b.callId? = some id

end Body

/-! ## Shapes -/

open Body

/-- How the events of a text may follow each other, if there are any: it starts, goes on in any
number of pieces and ends, or it comes in one piece. -/
inductive TextShape (id : String) : List Body → Prop
  | absent : TextShape id []
  | streamed {role : Role} (deltas : List String) (named : id ≠ "") (speaks : role.Speaks) :
      TextShape id (textStart id role :: (deltas.map (textContent id) ++ [textEnd id]))
  | whole {role : Option Role} (delta : Option String) (named : id ≠ "")
      (speaks : (role.getD .assistant).Speaks) : TextShape id [textChunk (some id) role delta]

/-- How the events of a tool call may follow each other, if there are any: it starts from a text,
is given its arguments in any number of pieces, ends, and has a result. -/
inductive CallShape (id : String) : List Body → Prop
  | absent : CallShape id []
  | whole {name parent messageId content : String} {role : Option Role} (deltas : List String)
      (named : id ≠ "") (answered : messageId ≠ "") :
      CallShape id (toolStart id name (some parent)
        :: (deltas.map (toolArgs id) ++ [toolEnd id, toolResult messageId id content role]))

/-- No tool call comes from a text before the text begins. -/
def Body.Attached (id : String) (bodies : List Body) : Prop :=
  bodies.Pairwise fun a b => ¬(a.CallsFrom id ∧ b.OpensText id)

/-- What must hold of the events of a log. -/
structure Body.WellFramed (bodies : List Body) : Prop where
  /-- Every turn that was recorded is a user's message. -/
  turn : ∀ value, custom Replay.userMessageName value ∈ bodies →
    ∃ m, decodeJson Message.decode value = .ok m ∧ m.role = .user
  /-- A text in one piece is named. -/
  chunk : ∀ role delta, textChunk none role delta ∉ bodies
  text : ∀ id, TextShape id (textEvents id bodies)
  attached : ∀ id, Attached id bodies
  call : ∀ id, CallShape id (callEvents id bodies)

/-- What an entry says, if it can be read; an empty one says nothing. -/
def Entry.body? (e : Entry) : Option Body :=
  if e.payload.isEmpty then none else e.event.toOption.map (·.body)

/-- What must hold of a log: everything that is not empty can be read, and is well framed. -/
structure WellFramed (log : List Entry) : Prop where
  read : ∀ e ∈ log, e.payload ≠ [] → ∃ event, e.event = .ok event
  framed : Body.WellFramed (log.filterMap Entry.body?)

/-! ## What comes before an event -/

variable {id : String} {xs ys : List Body} {b : Body}

/-- An event among pieces and what follows them is one of the pieces, or stands behind them. -/
theorem pieces_split {piece : String → Body} {deltas : List String} {tail : List Body}
    (h : xs ++ b :: ys = deltas.map piece ++ tail) :
    (∃ front delta, xs = List.map piece front ∧ b = piece delta) ∨
      ∃ more, xs = deltas.map piece ++ more ∧ tail = more ++ b :: ys := by
  rcases List.append_eq_append_iff.1 h with ⟨more, hmap, hrest⟩ | ⟨more, hxs, htail⟩
  · cases more with
    | nil =>
      right
      rw [List.append_nil] at hmap
      exact ⟨[], by rw [List.append_nil, hmap], hrest.symm⟩
    | cons b' more =>
      left
      obtain ⟨rfl, -⟩ := List.cons.inj hrest
      obtain ⟨front, behind, -, hfront, hbehind⟩ := List.map_eq_append_iff.1 hmap
      obtain ⟨delta, -, -, hdelta, -⟩ := List.map_eq_cons_iff.1 hbehind
      exact ⟨front, delta, hfront.symm, hdelta.symm⟩
  · exact .inr ⟨more, hxs, htail⟩

/-- Before an event of a text there is nothing if it begins the text, and else the start and
pieces of the text. -/
theorem TextShape.split (h : TextShape id (xs ++ b :: ys)) :
    (xs = [] ∧ id ≠ "" ∧ ((∃ role : Role, role.Speaks ∧ b = textStart id role) ∨
      ∃ (role : Option Role) (delta : Option String), (role.getD .assistant).Speaks ∧
        b = textChunk (some id) role delta)) ∨
    ((∃ (role : Role) (deltas : List String),
      xs = textStart id role :: deltas.map (textContent id)) ∧
      ((∃ delta, b = textContent id delta) ∨ b = textEnd id)) := by
  generalize hall : xs ++ b :: ys = all at h
  cases h with
  | absent => exact absurd hall (by simp)
  | @streamed role deltas named speaks =>
    rcases List.append_eq_cons_iff.1 hall with ⟨rfl, h⟩ | ⟨xs, rfl, h⟩
    · cases h
      exact .inl ⟨rfl, named, .inl ⟨role, speaks, rfl⟩⟩
    · right
      rcases pieces_split h.symm with ⟨front, delta, rfl, rfl⟩ | ⟨more, rfl, hend⟩
      · exact ⟨⟨role, front, rfl⟩, .inl ⟨delta, rfl⟩⟩
      · obtain ⟨rfl, hb⟩ | ⟨_, rfl, h⟩ := List.append_eq_cons_iff.1 hend.symm
        · cases hb
          exact ⟨⟨role, deltas, by rw [List.append_nil]⟩, .inr rfl⟩
        · exact absurd h (by simp)
  | @whole role delta named speaks =>
    rcases List.append_eq_cons_iff.1 hall with ⟨rfl, h⟩ | ⟨xs, rfl, h⟩
    · cases h
      exact .inl ⟨rfl, named, .inr ⟨role, delta, speaks, rfl⟩⟩
    · exact absurd h (by simp)

/-- A text that has started is not all of a text before it ends. -/
theorem TextShape.not_started {role : Role} {deltas : List String} :
    ¬TextShape id (textStart id role :: deltas.map (textContent id)) := by
  intro h
  generalize hall : textStart id role :: deltas.map (textContent id) = all at h
  cases h with
  | absent => cases hall
  | streamed deltas' _ _ =>
    obtain ⟨-, htail⟩ := List.cons.inj hall
    have hend : textEnd id ∈ deltas.map (textContent id) := by
      rw [htail]
      exact List.mem_append_right _ List.mem_cons_self
    obtain ⟨delta, -, hdelta⟩ := List.mem_map.1 hend
    cases hdelta
  | whole => cases hall

/-- A call has been given its arguments so far. -/
def Body.calling (id name parent : String) (deltas : List String) : List Body :=
  toolStart id name (some parent) :: deltas.map (toolArgs id)

/-- Before an event of a tool call there is nothing if it starts the call, its start and pieces of
its arguments if it is a piece or ends them, and all of this with the end if it is the result. -/
theorem CallShape.split (h : CallShape id (xs ++ b :: ys)) :
    (xs = [] ∧ id ≠ "" ∧ ∃ name parent, b = toolStart id name (some parent)) ∨
    ((∃ name parent deltas, xs = calling id name parent deltas) ∧
      ((∃ delta, b = toolArgs id delta) ∨ b = toolEnd id)) ∨
    ((∃ name parent deltas, xs = calling id name parent deltas ++ [toolEnd id]) ∧ id ≠ "" ∧
      ∃ messageId content role, messageId ≠ "" ∧ b = toolResult messageId id content role) := by
  generalize hall : xs ++ b :: ys = all at h
  cases h with
  | absent => exact absurd hall (by simp)
  | @whole name parent messageId content role deltas named answered =>
    rcases List.append_eq_cons_iff.1 hall with ⟨rfl, h⟩ | ⟨xs, rfl, h⟩
    · cases h
      exact .inl ⟨rfl, named, name, parent, rfl⟩
    · right
      rcases pieces_split h.symm with ⟨front, delta, rfl, rfl⟩ | ⟨more, rfl, hend⟩
      · exact .inl ⟨⟨name, parent, front, rfl⟩, .inl ⟨delta, rfl⟩⟩
      · match more, hend with
        | [], hend =>
          cases hend
          exact .inl ⟨⟨name, parent, deltas, by rw [List.append_nil]; rfl⟩, .inr rfl⟩
        | [_], hend =>
          cases hend
          exact .inr ⟨⟨name, parent, deltas, rfl⟩, named, messageId, content, role, answered, rfl⟩
        | _ :: _ :: more, hend => exact absurd (congrArg List.length hend) (by simp)

/-- A call that has been given arguments has not ended, and a call that has ended has no result. -/
theorem Body.not_mem_calling {name parent : String} {deltas : List String} (hb : b = toolEnd id ∨
    ∃ messageId content role, b = toolResult messageId id content role) :
    b ∉ calling id name parent deltas := by
  intro hmem
  rcases List.mem_cons.1 hmem with rfl | hmem
  · rcases hb with h | ⟨_, _, _, h⟩ <;> cases h
  · obtain ⟨delta, -, rfl⟩ := List.mem_map.1 hmem
    rcases hb with h | ⟨_, _, _, h⟩ <;> cases h

end AgentStream
