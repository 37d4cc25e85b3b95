/-
# What nodes say of their own, replayed

A node of a graph names its own events as it likes, and a replay takes an event of the program's
own for a user's turn by its name.  An event of any other name is shown as an activity, whatever
becomes of its value when it is written and read; one of that name never is, and as it has no role
the replay fails.

* `Doc.read_named` : the first two members of an object are read whatever the others are;
* `Event.ofBytes_named` : an event of the program's own keeps its name;
* `Replay.replay_activity`, `Replay.replay_userMessage` : what such an event is replayed as;
* `Framer.Reports` : what is said of a node's own, which is never a message;
* `Framer.custom_replayed` : what it is replayed as.
-/
import AgentStream.Proofs.Event.Pieces
import AgentStream.Proofs.Framing.Said
import AgentStream.Proofs.Json.Records
import AgentStream.Proofs.Replay.Basic

namespace AgentStream

open Engine (Output CustomReport)

/-! ## Names of events -/

namespace Doc

open Json (compact compactMembers)

/-- The first two members of an object are read, if they are strings, whatever the others are. -/
theorem read_named (tag kind name text : String) (members : Members) : ∃ ms rest,
    read (Json.obj ((tag, .str kind) :: (name, .str text) :: members)).encode
      = (obj ((some tag, str kind) :: (some name, str text) :: ms), rest) := by
  let all : Members := (tag, .str kind) :: (name, .str text) :: members
  obtain ⟨fuel, hfuel⟩ : ∃ fuel, 2 * (utf8 (compact (.obj all))).length + 1 = fuel + 3 := by
    refine ⟨2 * (utf8 (compact (.obj all))).length - 2, ?_⟩
    rw [Json.utf8_obj, List.length_cons]
    omega
  obtain ⟨ms, rest, hms⟩ := readMembers_str name text members fuel (nestingLimit - 1) []
  have hfirst := readMembers_str_more tag kind (name, .str text) members (fuel + 1)
    (nestingLimit - 1) []
  have hread := read_obj (tag, .str kind) ((name, .str text) :: members)
  rw [hfuel] at hread
  simp only [hms] at hfirst
  simp only [hfirst] at hread
  exact ⟨ms, _, hread⟩

end Doc

namespace Event

/-- The fields of an event of the program's own. -/
def customRecord : Record Body :=
  Body.custom <$> .required (plain "name") Decoder.string
    <*> .defaulted (plain "value") Decoder.any .null

/-- The name that is given is the name of the event, whatever its value is. -/
theorem customRecord_read {g : Given} {name : String} {b : Body}
    (hname : g.value? "name" = some (.str name)) (h : customRecord.read g = .ok b) :
    ∃ value, b = .custom name value := by
  have hcustom : (Body.custom <$> Record.required (plain "name") Decoder.string).read g
      = .ok (Body.custom name) :=
    Record.read_map _ (Record.read_given hname rfl)
  cases hvalue : (Record.defaulted (plain "value") Decoder.any .null).read g with
  | ok value =>
    have hread : customRecord.read g = .ok (.custom name value) := Record.read_seq hcustom hvalue
    exact ⟨value, Except.ok.inj (h.symm.trans hread)⟩
  | error fault =>
    change (Record.seq _ _).read g = _ at h
    simp only [Record.seq, hcustom, hvalue] at h
    cases h

/-- The name of such an event is the one that is given first. -/
theorem customRecord_ofMembers {name : String} {others : List (Option String × Doc)} {b : Body}
    (h : customRecord.ofMembers false .setAside ((some "name", .str name) :: others) = .ok b) :
    ∃ value, b = .custom name value := by
  have hscan : Record.scan customRecord.fields false .setAside 0 []
      ((some "name", .str name) :: others)
        = Record.scan customRecord.fields false .setAside 1 [("name", 0, .str name)] others := rfl
  obtain ⟨more, fault, hmore, -⟩ :=
    @Record.scan_congr customRecord.fields false .setAside others 1 [("name", 0, .str name)] _ rfl
  rw [Record.ofMembers, hscan, hmore] at h
  simp only at h
  split at h
  · rename_i hread
    cases h
    exact customRecord_read rfl hread
  all_goals cases h

/-- **An event of the program's own keeps its name** when it is written and read. -/
theorem ofBytes_named {name : String} {value : Json} {e e' : Event}
    (hbody : e.body = .custom name value) (h : ofBytes e.encode = .ok e') :
    ∃ value', e'.body = .custom name value' := by
  obtain ⟨ms, rest, hread⟩ := Doc.read_named "type" "CUSTOM" "name" name
    (("value", value) :: (Json.optional "timestamp" (e.timestamp.map fun t => .int t)
      ++ Json.optional "rawEvent" e.rawEvent))
  have hencode : e.encode = (Json.obj (("type", .str "CUSTOM") :: ("name", .str name)
      :: ("value", value) :: (Json.optional "timestamp" (e.timestamp.map fun t => .int t)
        ++ Json.optional "rawEvent" e.rawEvent))).encode := by
    rw [encode, toJson, kind, hbody]
    rfl
  rw [← hencode] at hread
  obtain ⟨-, d, hd, hdecode⟩ := ofBytes_eq_ok.1 h
  obtain rfl : Doc.obj ((some "type", .str "CUSTOM") :: (some "name", .str name) :: ms) = d :=
    congrArg Prod.fst (hread.symm.trans hd)
  obtain ⟨⟨kind, others⟩, hset, hdecode⟩ := of_bind_eq_ok hdecode
  -- The kind is told first, and the name is set aside in front of the other members.
  change setAside "type" kinds (some (kindOf customRecord)) ((some "name", .str name) :: ms)
    = .ok (kind, others) at hset
  rw [setAside, if_neg (by decide), if_pos (by rfl)] at hset
  obtain ⟨⟨kind', others'⟩, hrest, hset⟩ := of_bind_eq_ok hset
  obtain rfl : kind' = some (kindOf customRecord) := setAside_some hrest
  cases hset
  obtain ⟨b, hb, hdecode⟩ := of_bind_eq_ok hdecode
  obtain ⟨carried, -, hdecode⟩ := of_bind_eq_ok hdecode
  cases hdecode
  exact customRecord_ofMembers hb

end Event

/-! ## Replays -/

namespace Replay

variable {app user name : String} {value : Json} {ts : Nat} {e e' : Event}

/-- An entry of an event says what it is read as. -/
theorem step_ofEvent {r : Replay} (h : Event.ofBytes e.encode = .ok e') :
    r.step (.ofEvent ts e) = r.event ts e'.body := by
  rw [step, Entry.event, Entry.ofEvent, Event.encode_ne_nil, h]
  rfl

/-- An event of the program's own is shown as an activity under any other name than the one of a
user's turn. -/
theorem replay_activity (h : Event.ofBytes e.encode = .ok e')
    (hbody : e'.body = .custom name value) (hname : name ≠ userMessageName) :
    replay app user [.ofEvent ts e]
      = ⟨[{ id := some ("activity-" ++ toString ts), role := .activity,
            content := some (.obj [("name", .str name), ("value", value)]),
            activityType := some "CUSTOM" }], none⟩ := by
  rw [replay, steps, step_ofEvent h, hbody, event, if_neg hname]
  rfl

/-- Under that name it is a message of a user or a failure. -/
theorem replay_userMessage (h : Event.ofBytes e.encode = .ok e')
    (hbody : e'.body = .custom userMessageName value) : replay app user [.ofEvent ts e]
      = match decodeJson Message.decode value with
        | .error fault => ⟨[], some (.userMessage fault)⟩
        | .ok m =>
          if m.role = .user then ⟨[m.withFallbackName user], none⟩
          else ⟨[], some (.unsupportedRole m.role)⟩ := by
  rw [replay, steps, step_ofEvent h, hbody, event, if_pos rfl, userMessage]
  cases decodeJson Message.decode value with
  | error fault => rfl
  | ok m =>
    by_cases hrole : m.role = .user
    · simp only [if_pos hrole, if_neg (not_not_intro hrole)]
      rfl
    · simp only [if_neg hrole, if_pos hrole]

end Replay

/-! ## Nodes -/

namespace Framer

/-- An event says what a node says of its own: if it is one of the program's own, it has the name
of a user's turn just if the node gives it that name, and its value is no message, as it has no
role. -/
def Reports (c : CustomReport) (e : Event) : Prop :=
  ∀ name value, e.body = .custom name value →
    (name = Replay.userMessageName ↔ c.eventType = Replay.userMessageName) ∧
      decodeJson Message.decode value = .error (.missingField "role")

/-- No category names its events like a user's turn. -/
theorem reports_customEvent (c : CustomReport) {fallback : String} {payload : Members}
    (hname : fallback ≠ Replay.userMessageName)
    (hvalue : decodeJson Message.decode (.ofMembers (("nodeId", .str c.nodeId) :: payload))
      = .error (.missingField "role")) : Reports c (customEvent c fallback payload) := by
  intro name value h
  cases h
  refine ⟨?_, hvalue⟩
  by_cases hempty : c.eventType.isEmpty
  · have hdeclared : c.eventType ≠ Replay.userMessageName := by
      intro heq
      rw [heq] at hempty
      exact absurd hempty (by decide)
    rw [if_pos hempty]
    exact ⟨fun h => absurd h hname, fun h => absurd h hdeclared⟩
  · rw [if_neg hempty]

theorem reports_customReport (f : Framer) (c : CustomReport) :
    ∀ e ∈ (f.customReport c).1, Reports c e := by
  unfold customReport stepMember
  split
  · refine List.forall_mem_singleton.2 (reports_customEvent c (by decide) ?_)
    split <;> rfl
  · split
    · exact List.forall_mem_singleton.2 nofun
    · refine List.forall_mem_singleton.2 (reports_customEvent c (by decide) ?_)
      split <;> rfl
  · refine List.forall_mem_singleton.2 (reports_customEvent c (by decide) ?_)
    unfold Json.nonempty
    cases c.payload <;> split <;> split <;> rfl

/-- An event of the program's own that comes of an output is what a node says of its own. -/
theorem reports_translate {f : Framer} {fresh : String} {o : Output} {raw : Bytes}
    {c : CustomReport} (hraw : o.blob? "_node_custom_metadata" = some raw)
    (hc : decodeText CustomReport.record.decode raw = .ok c) :
    ∀ e ∈ (f.translate fresh o).1, Reports c e := by
  refine forall_translate f fresh o ?frame (fun _ _ => nofun) (fun _ _ => nofun) ?custom
  case frame =>
    rintro b hb name value rfl
    cases hb
  case custom =>
    intro raw' c' hraw' hc' f'
    cases hraw.symm.trans hraw'
    cases hc.symm.trans hc'
    exact reports_customReport f' c

/-- **What a node says of its own is shown as an activity** if it is read back, with the name and
the value that are read, unless the node names it like a user's turn.  Then nothing is shown, and
what is read back as it was written makes the replay fail. -/
theorem custom_replayed {f : Framer} {fresh : String} {o : Output} {raw : Bytes} {c : CustomReport}
    {e : Event} {name : String} {value : Json} (e' : Event) (app user : String) (ts : Nat)
    (hraw : o.blob? "_node_custom_metadata" = some raw)
    (hc : decodeText CustomReport.record.decode raw = .ok c)
    (he : e ∈ (f.translate fresh o).1) (hbody : e.body = .custom name value)
    (hread : Event.ofBytes e.encode = .ok e') :
    ∃ value', e'.body = .custom name value' ∧
      (replay app user [.ofEvent ts e]
        = ⟨[{ id := some ("activity-" ++ toString ts), role := .activity,
              content := some (.obj [("name", .str name), ("value", value')]),
              activityType := some "CUSTOM" }], none⟩ ↔
        c.eventType ≠ "user.message") ∧
      (c.eventType = "user.message" → e' = e →
        replay app user [.ofEvent ts e] = ⟨[], some (.userMessage (.missingField "role"))⟩) := by
  obtain ⟨hname, hvalue⟩ := reports_translate hraw hc e he name value hbody
  obtain ⟨value', hbody'⟩ := Event.ofBytes_named hbody hread
  refine ⟨value', hbody', ⟨fun hshown => ?_, fun hne => ?_⟩, fun heq hsame => ?_⟩
  · -- A user's turn that is replayed is a user's message, which no activity is.
    intro heq
    obtain rfl := hname.2 heq
    rw [Replay.replay_userMessage hread hbody'] at hshown
    split at hshown
    · cases hshown
    · split at hshown
      · rename_i m _ hrole
        have hmessage := (List.cons.inj (Replayed.mk.inj hshown).1).1
        have hactivity : (m.withFallbackName user).role = .activity := by rw [hmessage]
        rw [Message.role_withFallbackName, hrole] at hactivity
        cases hactivity
      · cases hshown
  · exact Replay.replay_activity hread hbody' fun h => hne (hname.1 h)
  · obtain rfl := hname.2 heq
    subst hsame
    cases hbody.symm.trans hbody'
    rw [Replay.replay_userMessage hread hbody, hvalue]

/-- What a node says of its own under a name. -/
def declares (eventType : String) : CustomReport where
  category := .custom
  eventType
  nodeId := "n"
  message := ""
  progress := .ofMagnitude false 0
  payload := none
  stepNumber := 0
  timestamp := 1

/-- An output with an event that a node names. -/
def naming (eventType : String) : Output :=
  { id := "o-1", blobs := [("_node_custom_metadata", (declares eventType).toJson.encode)] }

/-- That event as it is said. -/
def named (eventType : String) : Event :=
  Body.custom eventType (.ofMembers [("nodeId", .str "n"), ("timestamp", .int 1)])

/-- A node's event under a name that is free is shown. -/
theorem custom_replayed_naming :
    let new : Framer := { threadId := "t", runId := "r" }
    named "node.done" ∈ (new.translate "" (naming "node.done")).1 ∧
      replay "app" "user" [.ofEvent 1 (named "node.done")]
        = ⟨[{ id := some "activity-1", role := .activity,
              content := some (.obj [("name", .str "node.done"),
                ("value", .obj [("nodeId", .str "n"), ("timestamp", .int 1)])]),
              activityType := some "CUSTOM" }], none⟩ := by
  intro new
  have hsaid : named "node.done" ∈ (new.translate "" (naming "node.done")).1 := by decide +kernel
  refine ⟨hsaid, ?_⟩
  obtain ⟨value, hbody, hshown, -⟩ :=
    custom_replayed (c := declares "node.done") (named "node.done") "app" "user" 1 rfl
      (by decide +kernel) hsaid rfl (by decide +kernel)
  cases hbody
  exact hshown.2 (by decide)

/-- Under the name of a user's turn it makes the replay fail. -/
theorem naming_userMessage :
    let new : Framer := { threadId := "t", runId := "r" }
    let e := named "user.message"
    (new.translate "" (naming "user.message")).1 = [e] ∧ Event.ofBytes e.encode = .ok e ∧
      replay "app" "user" [.ofEvent 1 e] = ⟨[], some (.userMessage (.missingField "role"))⟩ := by
  decide +kernel

end Framer

end AgentStream
