/-
# What is produced can be read back

The metadata of a graph engine is put into events, nested more deeply than it was: by one level as
what a node says of its own, by three as the patch of an activity.  What the metadata holds is
within bounds, so an event that is produced of an output can be written and read again just if it is
not nested too deeply itself.

* `Engine.Output.Within` : how deeply the metadata of an output is nested;
* `Event.Produced` : the events that may come of an output;
* `Event.Produced.made` : what they are made of;
* `Event.produced_readBack` : which of them are read back, and the replay of those that are.
-/
import AgentStream.Activity
import AgentStream.Proofs.Event.RoundTrip
import AgentStream.Proofs.Framing.Said
import AgentStream.Proofs.Replay.Causes

namespace AgentStream

open Json (Everywhere everywhere_append everywhere_member everywhere_optional)
open Engine (Output StepReport CustomReport)

/-! ## Values and their texts -/

namespace Json

variable {n : Nat}

/-- An object of values that are held, in sorted form. -/
theorem held_sorted {members : Members} (h : Everywhere (Held n) members) :
    (obj members).sorted.Held (n + 1) := by
  have hsorted : sortedMembers members = members :=
    SortedMembers.sorted_eq (sortedMembers_iff.2 fun m hm => (h m hm).sorted)
  rw [sorted, hsorted]
  exact held_ofMembers h

end Json

namespace Doc

/-- The text of a value is read as a document that is nested like the value. -/
theorem within_read_encode {n : Nat} {j : Json} (hj : j.integral = true) (hn : j.depth ≤ n)
    (hd : j.depth ≤ nestingLimit) : (read j.encode).1.Within n := by
  rw [read_encode hj hd]
  exact within_ofJson hj hn

end Doc

/-! ## Reports -/

namespace Engine

/-- The metadata of an output that comes to be part of events is nested within bounds, with room for
three levels around it. -/
structure Output.Within (n : Nat) (o : Output) : Prop where
  node : ∀ raw ∈ o.blob? nodeKey, (Doc.read raw).1.Within n
  step : ∀ raw ∈ o.blob? stepKey, (Doc.read raw).1.Within n
  /-- What a node says of its own is only nested by one level more. -/
  custom : ∀ raw ∈ o.blob? customKey, (Doc.read raw).1.Within (n + 2)

variable {n : Nat}

/-- A step that is decoded is written within the bounds of its report. -/
theorem StepReport.keeps_record (n : Nat) :
    StepReport.record.Keeps n fun r => r.toJson.sorted.Held (n + 1) := by
  have hstring : (Record.defaulted (plain "nodeId") Decoder.string "").Keeps n fun _ => True :=
    fun _ _ _ _ => trivial
  refine Record.Keeps.seq (Record.Keeps.seq (Record.Keeps.map
    (Record.keeps_required _ (Decoder.keeps_signed n)) ?_) hstring)
    (Record.keeps_optional _ (Decoder.keeps_option_any n) forall_mem_none)
  intro number hnumber nodeId _ value hvalue
  refine Json.held_sorted (everywhere_append.2 ⟨everywhere_append.2
    ⟨everywhere_member.2 (Json.held_int hnumber), Json.everywhere_nonempty (Json.held_str _)⟩, ?_⟩)
  exact everywhere_optional.2 fun j hj => (hvalue j hj).1

/-- The values of a report of a node's own are held. -/
structure CustomReport.Held (n : Nat) (r : CustomReport) : Prop where
  payload : ∀ j ∈ r.payload, j.Held n
  stepNumber : Json.intRange r.stepNumber = true
  timestamp : Json.intRange r.timestamp = true

theorem CustomReport.keeps_record (n : Nat) :
    CustomReport.record.Keeps n (CustomReport.Held n) := by
  have htrue {α : Type} (name : FieldName) (dec : Decoder α) (a : α) :
      (Record.defaulted name dec a).Keeps n fun _ => True := fun _ _ _ _ => trivial
  have hsigned (name : FieldName) :
      (Record.defaulted name Decoder.signed 0).Keeps n fun i => Json.intRange i = true :=
    Record.keeps_defaulted name (Decoder.keeps_signed n) rfl
  refine Record.Keeps.seq (Record.Keeps.seq (Record.Keeps.seq (Record.Keeps.seq (Record.Keeps.seq
    (Record.Keeps.seq (Record.Keeps.seq (Record.Keeps.map (htrue _ _ _) ?_) (htrue _ _ _))
      (htrue _ _ _)) (htrue _ _ _)) (htrue _ _ _))
    (Record.keeps_optional _ (Decoder.keeps_option_any n) forall_mem_none)) (hsigned _)) (hsigned _)
  intro _ _ _ _ _ _ _ _ _ _ payload hpayload number hnumber time htime
  exact ⟨fun j hj => (hpayload j hj).1, hnumber, htime⟩

end Engine

/-! ## Events that are made of them -/

/-- An event that carries nothing beside its body, of values that are held. -/
structure Event.Made (n : Nat) (e : Event) : Prop where
  bare : e = (e.body : Event)
  held : e.body.Held n

variable {n : Nat} {e : Event} {o : Output}

theorem Event.made {b : Body} (h : b.Held n) : Event.Made n (b : Event) := ⟨rfl, h⟩

/-- The events of frames hold no values of their own. -/
theorem Event.made_frame {b : Body} (h : b.isFrame = true) : Event.Made n (b : Event) := by
  refine Event.made ?_
  cases b <;> first | exact trivial | cases h

namespace Activity

/-- A value that is added to an activity. -/
theorem made_add (id kind path : String) {value : Json} (h : value.Held n) :
    Event.Made (n + 2) (Body.activityDelta id kind [addOperation path value]) := by
  have hoperation : (addOperation path value).Held (n + 1) := by
    refine Json.held_ofMembers fun m hm => ?_
    simp only [List.mem_cons, List.not_mem_nil, or_false] at hm
    rcases hm with rfl | rfl | rfl
    · exact Json.held_str _
    · exact Json.held_str path
    · exact h
  exact Event.made ⟨Nat.succ_pos _, List.forall_mem_singleton.2 hoperation⟩

theorem lifecycle_made (hw : o.Within n) (fresh : String) :
    ∀ e ∈ lifecycle o fresh, e.Made (n + 2) := by
  unfold lifecycle
  split
  · rename_i value hnode
    refine List.forall_mem_singleton.2 (made_add _ _ _ ?_)
    unfold node? at hnode
    split at hnode
    · cases hnode
    · rename_i raw hraw
      split at hnode
      · cases hnode
      · rename_i value' hvalue
        split at hnode
        · cases hnode
        · cases hnode
          exact (Decoder.keeps_any n).text (hw.node raw hraw) hvalue
  · exact List.forall_mem_nil _

theorem interrupt_made (hw : o.Within n) (fresh : String) :
    ∀ e ∈ interrupt o fresh, e.Made (n + 2) := by
  unfold interrupt
  split
  · rename_i step hstep
    refine List.forall_mem_singleton.2 (made_add _ _ _ ?_)
    unfold interrupted? at hstep
    split at hstep
    · cases hstep
    · rename_i raw hraw
      split at hstep
      · cases hstep
      · rename_i step' hdecode
        split at hstep
        · cases hstep
          -- The report is an object itself, so what it holds is nested less deeply by one level.
          have hkeeps := (StepReport.keeps_record (n - 1)).decode
          obtain ⟨hn, hheld⟩ := hkeeps.text (hw.step raw hraw) hdecode
          rwa [Nat.sub_add_cancel hn] at hheld
        · cases hstep
  · exact List.forall_mem_nil _

/-- **What the activity of an output is made of.** -/
theorem project_made (hw : o.Within n) (switches : Switches) (fresh fresh' : String) :
    ∀ e ∈ project switches fresh fresh' o, e.Made (n + 2) := by
  refine List.forall_mem_append.2 ⟨?_, ?_⟩
  · split
    · exact lifecycle_made hw fresh
    · exact List.forall_mem_nil _
  · split
    · exact interrupt_made hw fresh'
    · exact List.forall_mem_nil _

end Activity

namespace Framer

theorem everywhere_stepMember {i : Int} (h : Json.intRange i = true) :
    Everywhere (Json.Held n) (stepMember i) := by
  unfold stepMember
  split
  · exact everywhere_member.2 (Json.held_int h)
  · exact List.forall_mem_nil _

/-- A node's own event holds what is put into it. -/
theorem customEvent_made (r : CustomReport) (name : String) {payload : Members}
    (h : Everywhere (Json.Held n) payload) : (customEvent r name payload).Made (n + 1) :=
  Event.made (Json.held_ofMembers (List.forall_mem_cons.2 ⟨Json.held_str r.nodeId, h⟩))

theorem customReport_made (f : Framer) {r : CustomReport} (h : r.Held n) :
    ∀ e ∈ (f.customReport r).1, e.Made (n + 1) := by
  have hstep := everywhere_stepMember (n := n) h.stepNumber
  unfold customReport
  split
  · refine List.forall_mem_singleton.2 (customEvent_made r _ (everywhere_append.2 ⟨?_, hstep⟩))
    exact List.forall_mem_cons.2 ⟨Json.held_double _, everywhere_member.2 (Json.held_str _)⟩
  · split
    · exact List.forall_mem_singleton.2 (Event.made_frame rfl)
    · exact List.forall_mem_singleton.2 (customEvent_made r _
        (everywhere_append.2 ⟨everywhere_member.2 (Json.held_str _), hstep⟩))
  · refine List.forall_mem_singleton.2 (customEvent_made r _ ?_)
    simp only [everywhere_append]
    exact ⟨⟨⟨everywhere_optional.2 h.payload, Json.everywhere_nonempty (Json.held_str _)⟩, hstep⟩,
      everywhere_member.2 (Json.held_int h.timestamp)⟩

/-- **What a framer says of an output is made of.** -/
theorem translate_made (hw : o.Within n) (f : Framer) (fresh : String) :
    ∀ e ∈ (f.translate fresh o).1, e.Made (n + 2) := by
  refine forall_translate f fresh o (fun b hb => Event.made_frame hb)
    (fun _ _ => Event.made trivial) (fun _ _ => Event.made forall_mem_none) ?_
  intro raw c hraw hdecode f
  have hkeeps := (CustomReport.keeps_record (n + 2 - 1)).decode
  exact customReport_made f (hkeeps.text (hw.custom raw hraw) hdecode).2

end Framer

/-! ## Reading back -/

namespace Event

/-- The events that may come of an output: its activity, and what a framer says of it. -/
inductive Produced (o : Output) (e : Event) : Prop
  | activity {switches : Activity.Switches} {fresh fresh' : String}
      (h : e ∈ Activity.project switches fresh fresh' o)
  | said {f : Framer} {fresh : String} (h : e ∈ (f.translate fresh o).1)

/-- **What an event that comes of an output is made of.** -/
theorem Produced.made (h : e.Produced o) (hw : o.Within n) : e.Made (n + 2) := by
  cases h with
  | activity h => exact Activity.project_made hw _ _ _ e h
  | said h => exact Framer.translate_made hw _ _ e h

/-- An event is nested by one level more than the values that it is made of. -/
theorem Made.depth_toJson (h : e.Made n) : e.toJson.depth ≤ n + 1 := by
  have hraw : e.rawEvent = none := congrArg Event.rawEvent h.bare
  exact Event.depth_toJson h.held.depth_members (hraw ▸ forall_mem_none)

/-- An event that is made of values that are held can be written if it is not nested too deeply. -/
theorem Made.portable (h : e.Made n) (hd : e.DoubleFree)
    (hdepth : e.toJson.depth ≤ Doc.nestingLimit) : e.Portable := by
  have hraw : e.rawEvent = none := congrArg Event.rawEvent h.bare
  have htime : e.timestamp = none := congrArg Event.timestamp h.bare
  have hfree : ∀ j ∈ e.freeValues, j.Held n := by
    rw [freeValues, hraw, Option.toList_none, List.append_nil]
    exact h.held.values
  exact {
    sorted := fun j hj => (hfree j hj).sorted
    ranged := fun j hj => (hfree j hj).ranged
    timestamp := htime ▸ forall_mem_none
    doubleFree := hd
    given := by
      rw [optionalValues, hraw, Option.toList_none, List.append_nil]
      exact h.held.given
    shallow := hdepth }

/-- **An event that comes of an output is read back just if it is not nested too deeply**, unless it
holds a double. -/
theorem Produced.readBack_iff (h : e.Produced o) (hd : e.DoubleFree) :
    e.ReadBack ↔ e.toJson.depth ≤ Doc.nestingLimit := by
  -- What was read from metadata kept to the limit of the reader.
  have hwithin : o.Within Doc.nestingLimit :=
    ⟨fun raw _ => Doc.within_read raw, fun raw _ => Doc.within_read raw,
      fun raw _ => (Doc.within_read raw).mono (Nat.le_add_right _ 2)⟩
  exact ⟨fun hread => (portable_of_ofBytes hread hd).shallow,
    fun hdepth => ((h.made hwithin).portable hd hdepth).ofBytes_encode⟩

/-- Metadata with room for three levels around it comes to be events that are read back. -/
theorem Produced.readBack (h : e.Produced o) (hd : e.DoubleFree)
    (hw : o.Within (Doc.nestingLimit - 3)) : e.ReadBack :=
  (h.readBack_iff hd).2 (h.made hw).depth_toJson

end Event

/-! ## Metadata and the log -/

namespace Event

instance : DecidablePred DoubleFree := fun e =>
  inferInstanceAs (Decidable (∀ j ∈ e.freeValues, j.DoubleFree))

/-- **Which events that come of an output are read back**, doubles apart: those that are not nested
too deeply, so all of them if the metadata leaves room for three levels around it.  If such an event
is recorded among others that are read back, no log of the record is found to hold what is no
event. -/
theorem produced_readBack {o : Output} {e : Event} (h : e.Produced o) (hd : e.DoubleFree) :
    (e.ReadBack ↔ e.toJson.depth ≤ Doc.nestingLimit) ∧
    (o.Within (Doc.nestingLimit - 3) → e.ReadBack) ∧
    (e.toJson.depth ≤ Doc.nestingLimit → ∀ front behind stored log,
      (∀ a ∈ front ++ behind, a.ReadBack) →
      Joins Merger.merge? (front ++ e :: behind) stored → Holds log stored →
      ∀ app user error, (replay app user log).error ≠ some (.decode error)) := by
  refine ⟨h.readBack_iff hd, h.readBack hd, fun hdepth front behind stored log hothers hj hl => ?_⟩
  refine replay_ne_decode hl hj fun a ha => ?_
  obtain ⟨hfront, hbehind⟩ := List.forall_mem_append.1 hothers
  rcases List.mem_append.1 ha with ha | ha
  · exact hfront a ha
  · rcases List.mem_cons.1 ha with rfl | ha
    · exact (h.readBack_iff hd).2 hdepth
    · exact hbehind a ha

/-- Arrays in each other. -/
def nested (k : Nat) : Json := Nat.repeat (fun j => .arr [j]) k (.arr [])

/-- Metadata with a value of a node's own. -/
def metadata (value : Json) : Json := .obj [("payload", value)]

/-- An output with metadata. -/
def reporting (value : Json) : Output :=
  { id := "o-1", blobs := [(Engine.customKey, (metadata value).encode)] }

/-- The metadata is nested by one level more than the value. -/
theorem reporting_within {value : Json} (hv : value.integral = true) (hd : value.depth ≤ n + 1)
    (hn : n + 2 ≤ Doc.nestingLimit) : (reporting value).Within n := by
  refine ⟨nofun, nofun, fun raw hraw => ?_⟩
  have hblob : raw = (metadata value).encode :=
    (Option.some.inj (Option.filter_eq_some_iff.1 hraw).1).symm
  have hdepth : (metadata value).depth ≤ n + 2 := by
    show max value.depth 0 + 1 ≤ n + 2
    omega
  have hintegral : (metadata value).integral = true := by
    show (value.integral && true) = true
    rw [hv]
    rfl
  rw [hblob]
  exact Doc.within_read_encode hintegral hdepth (Nat.le_trans hdepth hn)

/-- The event that a framer makes of the metadata. -/
def shown (value : Json) : Event :=
  Body.custom "node.custom" (.obj [("nodeId", .str ""), ("payload", value), ("timestamp", .int 0)])

/-- Metadata that leaves just enough room is read back and replayed. -/
theorem produced_readBack_nested :
    (shown (nested 124)).ReadBack ∧ ∀ error,
      (replay "app" "user" [.ofEvent 0 (shown (nested 124))]).error ≠ some (.decode error) := by
  have hsaid : shown (nested 124)
      ∈ (({ threadId := "t", runId := "r" } : Framer).translate "" (reporting (nested 124))).1 := by
    decide +kernel
  have hproduced : (shown (nested 124)).Produced (reporting (nested 124)) := .said hsaid
  have hfree : (shown (nested 124)).DoubleFree := by decide +kernel
  have hwithin : (reporting (nested 124)).Within (Doc.nestingLimit - 3) :=
    reporting_within (by decide +kernel) (by decide +kernel) (by decide)
  obtain ⟨hiff, hread, hreplay⟩ := produced_readBack hproduced hfree
  refine ⟨hread hwithin, fun error => ?_⟩
  exact hreplay (hiff.1 (hread hwithin)) [] [] _ _ (List.forall_mem_nil _) (Joins.refl _)
    (holds_mapIdx id [shown (nested 124)]) "app" "user" error

/-- One level more in the metadata, which is still decoded, and what comes of it is not read back:
the replay of the log fails. -/
theorem produced_not_readBack :
    let f : Framer := { threadId := "t", runId := "r" }
    (f.translate "" (reporting (nested 125))).1 = [shown (nested 125)] ∧
    (shown (nested 125)).DoubleFree ∧ ¬ (shown (nested 125)).ReadBack ∧
    (replay "app" "user" [.ofEvent 0 (shown (nested 125))]).error
      = some (.decode (.fault .malformed)) := by
  have hread : ofBytes (shown (nested 125)).encode = .error (.fault .malformed) := by decide +kernel
  refine ⟨by decide +kernel, by decide +kernel, fun h => ?_, by decide +kernel⟩
  cases hread.symm.trans h

end Event

end AgentStream
