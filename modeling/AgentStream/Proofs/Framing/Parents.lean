/-
# The messages that tool calls belong to

A replay accepts the start of a tool call only if the call is named, and so is the message that it
belongs to.  A framer names the message after the response of the call, so it leaves it out if the
response has no id; a replay fails at the start of a call for one of the two reasons only if what
announced it first has left out the one or the other.

* `Woven.toolStart` : a call that starts was announced so;
* `Framer.toolStart_translateAll` : a replay of the events of all outputs at the start of a call.
-/
import AgentStream.Proofs.Framing.Calls
import AgentStream.Proofs.Framing.Starts
import AgentStream.Proofs.Replay.Failures

namespace AgentStream

open Engine (Output Response ToolReport)
open Merger (merge?)

/-- The event starts a tool call. -/
def Body.isToolStart : Body → Bool
  | toolStart .. => true
  | _ => false

variable {events : List Event} {framed : List Announcement} {id name : String}
  {parent : Option String}

/-- The frame of a call starts the call as it was announced. -/
theorem Announcement.toolStart {a : Announcement} {e : Event} (he : e ∈ a.frame)
    (hb : e.body = .toolStart id name parent) : a.id = id ∧ a.name = name ∧ a.parent = parent := by
  obtain ⟨id', name', parent', arguments⟩ := a
  cases arguments with
  | none =>
    rcases List.mem_pair.1 he with rfl | rfl
    · cases hb
      exact ⟨rfl, rfl, rfl⟩
    · cases hb
  | some text =>
    rcases List.mem_cons.1 he with rfl | he
    · cases hb
      exact ⟨rfl, rfl, rfl⟩
    · -- Neither a piece of the arguments nor the end is a start.
      rcases List.mem_pair.1 he with rfl | rfl <;> cases hb

/-- A call that starts was announced so. -/
theorem Woven.toolStart (h : Woven events framed)
    (hb : Body.toolStart id name parent ∈ events.map (·.body)) :
    ∃ a ∈ framed, a.id = id ∧ a.name = name ∧ a.parent = parent := by
  obtain ⟨e, he, hbody⟩ := List.mem_map.1 hb
  have hcall : e ∈ events.filter (·.body.isCall) := by
    refine List.mem_filter.2 ⟨he, ?_⟩
    rw [hbody]
    rfl
  rw [h.filter_eq] at hcall
  obtain ⟨a, ha, hframe⟩ := List.mem_flatMap.1 hcall
  exact ⟨a, ha, a.toolStart hframe hbody⟩

/-- What a log says of the start of a call was recorded. -/
theorem toolStart_recorded {log : List Entry} {stored : List Event} (hl : Holds log stored)
    (hj : Joins merge? events stored) (hb : ∀ e ∈ events, e.Bare)
    (h : Body.toolStart id name parent ∈ log.filterMap Entry.body?) :
    Body.toolStart id name parent ∈ events.map (·.body) := by
  have hstarts := filter_bodies hl hj hb (p := Body.isToolStart)
    (fun b hb => by cases b <;> first | rfl | cases hb) fun _ _ => rfl
  have hmem : Body.toolStart id name parent
      ∈ (log.filterMap Entry.body?).filter Body.isToolStart := List.mem_filter.2 ⟨h, rfl⟩
  rw [hstarts] at hmem
  exact List.mem_of_mem_filter hmem

/-- A call without an id is the only one whose start fails for that reason. -/
theorem replay_toolStartMissingId {app user : String} {log : List Entry}
    (h : (replay app user log).error = some .toolStartMissingId) :
    ∃ name parent, Body.toolStart "" name parent ∈ log.filterMap Entry.body? := by
  rcases replay_error_cases h with (⟨_, he⟩ | ⟨_, he⟩) | ⟨_, he⟩ | ⟨b, hb, r, hfailure⟩
  · cases he
  · cases he
  · cases he
  · cases hfailure with
    | toolStartMissingId => exact ⟨_, _, hb⟩

/-- A call that belongs to no message is the only one whose start fails for that reason. -/
theorem replay_toolStartMissingParent {app user : String} {log : List Entry}
    (h : (replay app user log).error = some .toolStartMissingParent) :
    ∃ id name, Body.toolStart id name none ∈ log.filterMap Entry.body? := by
  rcases replay_error_cases h with (⟨_, he⟩ | ⟨_, he⟩) | ⟨_, he⟩ | ⟨b, hb, r, hfailure⟩
  · cases he
  · cases he
  · cases he
  · cases hfailure with
    | toolStartMissingParent => exact ⟨_, _, hb⟩

namespace Framer

/-- **Starts of tool calls.**  Whatever outputs a new framer is given, as long as every call that
they announce is named: a replay of what was recorded of the events, with pieces merged in any way,
does not find a call without an id, and it finds one that belongs to no message only if there is a
call whose first announcement comes from a response without an id. -/
theorem toolStart_translateAll (threadId runId : String) (outputs : List (String × Output))
    (hnamed : ∀ x ∈ outputs, ∀ a ∈ x.2.announced, a.id ≠ "") :
    let (events, _) := translateAll outputs { threadId, runId }
    ∀ stored log, Joins merge? events stored → Holds log stored → ∀ app user,
      (replay app user log).error ≠ some .toolStartMissingId ∧
      ((replay app user log).error = some .toolStartMissingParent →
        ∃ a ∈ firsts [] (outputs.flatMap fun x => x.2.announced), a.parent = none) := by
  have hf : Framed { threadId, runId } := nofun
  have hwoven := (translateAll_framesCalls hf outputs).woven
  have hbare := fun e he => (translateAll_bare outputs { threadId, runId } e he).1
  intro stored log hj hl app user
  constructor
  · intro h
    obtain ⟨name, parent, hsaid⟩ := replay_toolStartMissingId h
    obtain ⟨a, ha, hid, -, -⟩ := hwoven.toolStart (toolStart_recorded hl hj hbare hsaid)
    obtain ⟨x, hx, hannounced⟩ := List.mem_flatMap.1 (firsts_subset _ _ ha)
    exact hnamed x hx a hannounced hid
  · intro h
    obtain ⟨id, name, hsaid⟩ := replay_toolStartMissingParent h
    obtain ⟨a, ha, -, -, hparent⟩ := hwoven.toolStart (toolStart_recorded hl hj hbare hsaid)
    exact ⟨a, ha, hparent⟩

/-- The report of a tool. -/
def reportingTool (t : ToolReport) : Output :=
  { id := "o-1", blobs := [("_tool_metadata", t.toJson.encode)] }

/-- A response that calls two tools, the first of which was reported before, and its results. -/
theorem toolStart_reported :
    let called : Engine.Message :=
      { toolCalls := [.ofFunction "c" "find", .ofFunction "d" "search"] }
    let outputs : List Output := [reportingTool ⟨"c", "find", .start, "", "m"⟩,
      { id := "o-2", response := some
          { id := "m", object := Response.completionKind, choices := [{ message := called }] } },
      { id := "o-3", response := some (.toolResult "n" "c" "find" "out") },
      { id := "o-4", response := some (.toolResult "n" "d" "search" "out") }]
    let (events, _) := translateAll (outputs.map fun o => ("", o)) { threadId := "t", runId := "r" }
    (∀ x ∈ outputs.map fun o => ("", o), ∀ a ∈ x.2.announced, a.id ≠ "") ∧
      (replay "app" "user" (events.mapIdx fun i e => .ofEvent i e)).error
        ≠ some .toolStartMissingParent := by
  intro called outputs
  have hnamed : ∀ x ∈ outputs.map fun o => ("", o), ∀ a ∈ x.2.announced, a.id ≠ "" := by
    decide +kernel
  have hparents : ∀ a ∈ firsts [] ((outputs.map fun o => ("", o)).flatMap fun x => x.2.announced),
      a.parent ≠ none := by
    decide +kernel
  refine ⟨hnamed, fun h => ?_⟩
  obtain ⟨a, ha, hparent⟩ := (toolStart_translateAll "t" "r" _ hnamed _ _ (Joins.refl _)
    (holds_mapIdx _ _) "app" "user").2 h
  exact hparents a ha hparent

/-- The report of a tool that names no response: its call is framed all the same, and the replay of
what is said, the result of the call included, fails at the start of the call. -/
theorem toolStart_unparented :
    let outputs : List Output := [reportingTool ⟨"c", "find", .start, "", ""⟩,
      { id := "o-2", response := some (.toolResult "n" "c" "find" "out") }]
    let (events, _) := translateAll (outputs.map fun o => ("", o)) { threadId := "t", runId := "r" }
    (∀ o ∈ outputs, ∀ a ∈ o.announced, a.id ≠ "") ∧
      events = [(Body.toolStart "c" "find" none : Event), (Body.toolEnd "c" : Event),
        .toolResult "o-2" "c" "out"] ∧
      (replay "app" "user" (events.mapIdx fun i e => .ofEvent i e)).error
        = some .toolStartMissingParent := by
  decide +kernel

end Framer

end AgentStream
