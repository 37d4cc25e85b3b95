/-
# The life cycle of nodes, as it is shown

The metadata of a node is shown as it stands, members included that are not known, if it is a
report of a node.  A report is an object of typed members, but also an array of their values is
taken for one, and so is an object that gives the phase as the only member of an object.

* `Engine.NodeReport.Told` : what the members of a report say;
* `Engine.NodeReport.decodeJson_iff` : which values are taken for a report;
* `Activity.ReportsNode` : the metadata of an output is a report of a node;
* `Activity.lifecycles_project` : what is shown of it;
* `Activity.lifecycles_array` : an array is shown.
-/
import AgentStream.Activity
import AgentStream.Proofs.Json.Kept
import AgentStream.Proofs.Json.Shapes

namespace AgentStream

/-! ## Names -/

theorem Decoder.named_eq_ok {α : Type} {table : List (String × α)} {name : String} {a : α} :
    named table name = .ok a ↔ table.lookup name = some a := by
  unfold named
  cases table.lookup name <;> simp

/-- A held value is one of a table of names if it is the name, or an object whose only member has
the name and is `null`. -/
theorem Decoder.oneOf_held_iff {α : Type} {table : List (String × α)} {j : Json} {a : α} :
    oneOf table .held (Doc.ofJson j) = .ok a ↔
      ∃ name, (j = .str name ∨ j = .obj [(name, .null)]) ∧ table.lookup name = some a := by
  cases j with
  | str name => simp [Doc.ofJson, oneOf, named_eq_ok]
  | obj members =>
    match members with
    | [] => simp [Doc.ofJson, Doc.ofMembers, oneOf]
    | _ :: _ :: _ => simp [Doc.ofJson, Doc.ofMembers, oneOf]
    | [(name, j)] =>
      have hnothing : nothing .held (Doc.ofJson j) = .ok () ↔ j = .null := by
        cases j with
        | obj members => cases members <;> simp [Doc.ofJson, Doc.ofMembers, nothing]
        | _ => simp [Doc.ofJson, nothing]
      have honly : oneOf table .held (Doc.ofJson (.obj [(name, j)])) = .ok a ↔
          named table name = .ok a ∧ nothing .held (Doc.ofJson j) = .ok () := by
        show (named table name >>= fun a => nothing .held (Doc.ofJson j) >>= fun _ => pure a)
          = _ ↔ _
        cases named table name <;> cases nothing .held (Doc.ofJson j) <;>
          simp [bind, Except.bind, pure, Except.pure]
      rw [honly, named_eq_ok, hnothing]
      simp [and_comm]
  | _ => simp [Doc.ofJson, oneOf]

namespace Engine.NodeReport

/-- What the members of a node's report say; values that may be absent may also be `null`. -/
structure Told (members : Members) (r : NodeReport) : Prop where
  nodeId : members.lookup "nodeId" = some (.str r.nodeId)
  nodeType : members.lookup "nodeType" = some (.str r.nodeType)
  phase : ∃ name, (members.lookup "phase" = some (.str name) ∨
    members.lookup "phase" = some (.obj [(name, .null)])) ∧
    Phase.nodeTable.lookup name = some r.phase
  attempt : Json.Tells members "attempt" (r.attempt.map fun n : Nat => .int n)
  attempt_lt : ∀ n ∈ r.attempt, n < 2 ^ 32
  stepNumber : Json.Tells members "stepNumber" (r.stepNumber.map .int)
  stepNumber_range : ∀ i ∈ r.stepNumber, Signed i
  error : Json.Tells members "error" (r.error.map .str)
  modelName : Json.Tells members "modelName" (r.modelName.map .str)

theorem read_record_iff {g : Given} {members : Members} {r : NodeReport} (ho : g.origin = .held)
    (h : g.Shows record.fields members) : record.read g = .ok r ↔ r.Told members := by
  -- field by field, what it is read as says what stands under its name
  have hid {s : String} := h.required_string_iff (s := s) (by decide : plain "nodeId" ∈ _)
  have htype {s : String} := h.required_string_iff (s := s) (by decide : plain "nodeType" ∈ _)
  have herror {v : Option String} := h.optional_string_iff (v := v)
    (by decide : plain "error" ∈ _)
  have hmodel {v : Option String} := h.optional_string_iff (v := v)
    (by decide : plain "modelName" ∈ _)
  have hattempt {v : Option Nat} := h.optional_iff (v := v) (by decide : plain "attempt" ∈ _)
    (fun (n : Nat) (_ : n < 2 ^ 32) => (nofun : Json.int n ≠ .null))
    fun j _ _ => Decoder.takes_unsigned 32 g.origin j
  have hstep {v : Option Int} := h.optional_iff (v := v) (by decide : plain "stepNumber" ∈ _)
    (fun i _ => (nofun : Json.int i ≠ .null)) fun j _ _ => Decoder.takes_signed g.origin j
  have hphase {p : Phase} : (Record.required (plain "phase") (Decoder.oneOf Phase.nodeTable)).read g
      = .ok p ↔ ∃ name, (members.lookup "phase" = some (.str name) ∨
        members.lookup "phase" = some (.obj [(name, .null)])) ∧
        Phase.nodeTable.lookup name = some p := by
    rw [h.required_iff (by decide), ho]
    simp only [Decoder.oneOf_held_iff]
    constructor
    · rintro ⟨j, hj, name, hname, hp⟩
      exact ⟨name, hname.imp (fun he => hj.trans (congrArg some he)) fun he =>
        hj.trans (congrArg some he), hp⟩
    · rintro ⟨name, hname | hname, hp⟩
      · exact ⟨_, hname, name, .inl rfl, hp⟩
      · exact ⟨_, hname, name, .inr rfl, hp⟩
  simp only [record, Record.read_seq_iff, Record.read_map_iff, hid, htype, hphase, hattempt, hstep,
    herror, hmodel]
  constructor
  · rintro ⟨-, modelName, ⟨-, error, ⟨-, stepNumber, ⟨-, attempt, ⟨-, phase, ⟨-, nodeType,
      ⟨nodeId, hi, rfl⟩, ht, rfl⟩, hp, rfl⟩, ha, rfl⟩, hs, rfl⟩, he, rfl⟩, hm, rfl⟩
    exact ⟨hi, ht, hp, ha.1, ha.2, hs.1, hs.2, he, hm⟩
  · rintro ⟨hi, ht, hp, ha, halt, hs, hsrange, he, hm⟩
    exact ⟨_, _, ⟨_, _, ⟨_, _, ⟨_, _, ⟨_, _, ⟨_, _, ⟨_, hi, rfl⟩, ht, rfl⟩, hp, rfl⟩,
      ⟨ha, halt⟩, rfl⟩, ⟨hs, hsrange⟩, rfl⟩, he, rfl⟩, hm, rfl⟩

/-- **Which values are taken for the report of a node.** -/
theorem decodeJson_iff {j : Json} (h : j.Sorted) {r : NodeReport} :
    decodeJson record.decode j = .ok r ↔
      ∃ members, record.members? j = some members ∧ r.Told members := by
  exact Record.decodeJson_iff (by decide) (by decide) h fun g members _ ho hg =>
    read_record_iff ho hg

end Engine.NodeReport

namespace Activity

open Engine (Output NodeReport)

/-! ## What is shown -/

/-- The events of a list that show the life cycle of nodes. -/
def lifecycles (events : List Event) : List Event :=
  events.filter fun e => match e.body with
    | .activityDelta _ kind _ => kind == "graph.node.lifecycle"
    | _ => false

/-- The metadata of an output is a text that is JSON to its end, and the value that the text says
is a report of a node. -/
def ReportsNode (o : Output) (value : Json) : Prop :=
  ∃ raw d members report, o.blobs.lookup "_node_metadata" = some raw ∧
    Doc.read raw = (d, some []) ∧ d.toJson? = some value ∧
    NodeReport.record.members? value = some members ∧ NodeReport.Told members report

variable {o : Output} {value : Json}

/-- The value that a text says is in sorted form. -/
theorem sorted_of_toJson? {raw : Bytes} {d : Doc} {rest : Option Bytes}
    (hread : Doc.read raw = (d, rest)) (hvalue : d.toJson? = some value) : value.Sorted := by
  have hwithin := Doc.within_read raw
  rw [hread] at hwithin
  exact (Doc.held_toJson? hwithin hvalue).sorted

/-- Free values are decoded from texts that are read to their end. -/
theorem decodeText_any {raw : Bytes} : decodeText Decoder.any raw = .ok value ↔
    ∃ d, Doc.read raw = (d, some []) ∧ d.toJson? = some value := by
  have hany (d : Doc) : Decoder.any .text d = .ok value ↔ d.toJson? = some value := by
    unfold Decoder.any
    cases d.toJson? <;> simp
  simp only [decodeText_eq_ok, hany]

/-- **The metadata that is shown** is that which reports a node. -/
theorem node?_eq_some : node? o = some value ↔ ReportsNode o value := by
  constructor
  · intro h
    unfold node? at h
    split at h
    · cases h
    · rename_i raw hraw
      split at h
      · cases h
      · rename_i value' hvalue
        split at h
        · cases h
        · rename_i report hreport
          cases h
          obtain ⟨d, hread, hd⟩ := decodeText_any.1 hvalue
          obtain ⟨members, hmembers, htold⟩ :=
            (NodeReport.decodeJson_iff (sorted_of_toJson? hread hd)).1 hreport
          exact ⟨raw, d, members, report, (Option.filter_eq_some_iff.1 hraw).1, hread, hd, hmembers,
            htold⟩
  · rintro ⟨raw, d, members, report, hraw, hread, hd, hmembers, htold⟩
    have hblob : o.blob? "_node_metadata" = some raw := by
      refine Option.filter_eq_some_iff.2 ⟨hraw, ?_⟩
      cases raw with
      | nil => cases hread
      | cons b raw => rfl
    have hreport := (NodeReport.decodeJson_iff (sorted_of_toJson? hread hd)).2
      ⟨members, hmembers, htold⟩
    simp only [node?, Engine.nodeKey, hblob, decodeText_any.2 ⟨d, hread, hd⟩, hreport]

/-- The operation of a patch, member by member. -/
theorem addOperation_eq (path : String) (value : Json) : addOperation path value
    = .obj [("op", .str "add"), ("path", .str path), ("value", value)] := rfl

theorem lifecycles_interrupt (fresh : String) : lifecycles (interrupt o fresh) = [] := by
  unfold interrupt
  split <;> rfl

/-- What is shown of the life cycle is what `lifecycle` says, whatever else is shown. -/
theorem lifecycles_eq {switches : Switches} (hon : switches.lifecycle = true)
    (fresh fresh' : String) : lifecycles (project switches fresh fresh' o) = lifecycle o fresh := by
  -- interrupts are of another kind, whether they are switched on or not
  have hself : lifecycles (lifecycle o fresh) = lifecycle o fresh := by
    unfold lifecycle
    split <;> rfl
  have hother (events : List Event) (b : Bool) (h : lifecycles events = []) :
      lifecycles (if b then events else []) = [] := by
    cases b
    · rfl
    · exact h
  rw [project, if_pos hon, lifecycles, List.filter_append]
  show lifecycles (lifecycle o fresh) ++ lifecycles _ = _
  rw [hself, hother _ _ (lifecycles_interrupt fresh'), List.append_nil]

/-- **What is shown of the life cycle of a node.**  The metadata that reports a node is shown as it
stands, in the one operation of one event, and nothing else is.  Of an object all members are
shown, the last of several with one name.  The other switches make no difference, nor does anything
else that an output brings along but its id. -/
theorem lifecycles_project (switches : Switches) (hon : switches.lifecycle = true)
    (fresh fresh' : String) (o : Output) :
    (∀ value, lifecycles (project switches fresh fresh' o)
        = [(Body.activityDelta (if o.id.isEmpty then fresh else o.id) "graph.node.lifecycle"
            [.obj [("op", .str "add"), ("path", .str "/node"), ("value", value)]] : Event)] ↔
          ReportsNode o value) ∧
    (lifecycles (project switches fresh fresh' o) = [] ↔ ∀ value, ¬ReportsNode o value) ∧
    (∀ raw docs value, o.blobs.lookup "_node_metadata" = some raw →
      Doc.read raw = (.obj docs, some []) → ReportsNode o value →
      ∃ given members, Doc.toMembers? docs = some given ∧ value = .obj members ∧
        members.Pairwise (·.1 < ·.1) ∧
        ∀ name, members.lookup name = given.reverse.lookup name) ∧
    ∀ (switches' : Switches) (fresh'' : String) (o' : Output), switches'.lifecycle = true →
      o'.id = o.id → o'.blobs.lookup "_node_metadata" = o.blobs.lookup "_node_metadata" →
      lifecycles (project switches' fresh fresh'' o')
        = lifecycles (project switches fresh fresh' o) := by
  rw [lifecycles_eq hon]
  refine ⟨fun value => ?shown, ?silent, fun raw docs value hraw hread hreports => ?object,
    fun switches' fresh'' o' hon' hid hblob => ?same⟩
  case shown =>
    rw [← node?_eq_some, lifecycle]
    cases hnode : node? o with
    | none => simp
    | some value' => simp [messageId, lifecycleKind, addOperation_eq]
  case silent =>
    simp only [← node?_eq_some, lifecycle]
    cases node? o <;> simp
  case object =>
    obtain ⟨raw', d, members, report, hraw', hread', hvalue, -⟩ := hreports
    obtain rfl : raw = raw' := Option.some.inj (hraw.symm.trans hraw')
    obtain rfl : .obj docs = d := congrArg Prod.fst (hread.symm.trans hread')
    obtain ⟨given, hgiven, rfl⟩ := Option.map_eq_some_iff.1 hvalue
    exact ⟨given, Json.sortMembers given, hgiven, rfl, Json.sortMembers_pairwise given,
      Json.lookup_sortMembers_last given⟩
  case same =>
    have hnode : node? o' = node? o := by
      unfold node? Output.blob? Engine.nodeKey
      rw [hblob]
    rw [lifecycles_eq hon', lifecycle, lifecycle, hnode, messageId, messageId, hid]

/-- An output with metadata of a node. -/
def nodeOutput (metadata : String) : Output :=
  { id := "o-1", blobs := [("_node_metadata", utf8 metadata)] }

/-- Metadata that names a node twice, calls its phase by the second name for it, and has a member
that is not known. -/
def endMetadata : String :=
  "\x7b\"phase\":\"end\",\"nodeId\":\"draft\",\"nodeType\":\"llm\",\"inputKeys\":[\"q\"],"
    ++ "\"attempt\":null,\"nodeId\":\"plan\"\x7d"

/-- It is shown with the second name and that member, whichever other switches are on. -/
theorem lifecycles_project_end :
    let members : Members := [("attempt", .null), ("inputKeys", .arr [.str "q"]),
      ("nodeId", .str "plan"), ("nodeType", .str "llm"), ("phase", .str "end")]
    let shown : Event := Body.activityDelta "o-1" "graph.node.lifecycle"
      [.obj [("op", .str "add"), ("path", .str "/node"), ("value", .obj members)]]
    lifecycles (project ⟨true, true, true⟩ "" "" (nodeOutput endMetadata)) = [shown] ∧
      lifecycles (project ⟨true, false, false⟩ "" "" (nodeOutput endMetadata)) = [shown] := by
  intro members shown
  have htext : decodeText Decoder.any (utf8 endMetadata) = .ok (.obj members) := by
    decide +kernel
  obtain ⟨d, hread, hvalue⟩ := decodeText_any.1 htext
  have htold : NodeReport.Told members ⟨"plan", "llm", .complete, none, none, none, none⟩ :=
    ⟨rfl, rfl, ⟨"end", .inl rfl, rfl⟩, .inr ⟨rfl, rfl⟩, forall_mem_none, .inl rfl,
      forall_mem_none, .inl rfl, .inl rfl⟩
  have hreports : ReportsNode (nodeOutput endMetadata) (.obj members) :=
    ⟨_, d, _, _, rfl, hread, hvalue, rfl, htold⟩
  have hproject := lifecycles_project ⟨true, true, true⟩ rfl "" "" (nodeOutput endMetadata)
  have hshown := (hproject.1 (.obj members)).2 hreports
  exact ⟨hshown, (hproject.2.2.2 ⟨true, false, false⟩ "" _ rfl rfl rfl).trans hshown⟩

/-- Metadata that is no object is shown if it lists the fields of a report in their order. -/
theorem lifecycles_array :
    (∀ members, decodeText Decoder.any (utf8 "[\"plan\",\"llm\",\"start\"]") ≠ .ok (.obj members)) ∧
      lifecycles (project ⟨true, false, false⟩ "" "" (nodeOutput "[\"plan\",\"llm\",\"start\"]"))
        = [(Body.activityDelta "o-1" "graph.node.lifecycle"
            [.obj [("op", .str "add"), ("path", .str "/node"),
              ("value", .arr [.str "plan", .str "llm", .str "start"])]] : Event)] := by
  have htext : decodeText Decoder.any (utf8 "[\"plan\",\"llm\",\"start\"]")
      = .ok (.arr [.str "plan", .str "llm", .str "start"]) := by decide +kernel
  exact ⟨fun members h => (nomatch htext.symm.trans h), by decide +kernel⟩

end Activity

end AgentStream
