/-
# Resuming an interrupted graph

A state may resume a graph in four ways, and the first of them that it offers is acknowledged: the
map of a command, the value of a command, a map that is not empty, a single value.  A command whose
map is empty resumes nothing.

* `Engine.ResumeCommand.Told` : what the members of a command say;
* `Activity.Commands` : the command that a state holds;
* `Activity.Offers`, `Activity.Nothing` : what a state resumes a graph with, if anything;
* `Activity.resume?_eq_some`, `Activity.resume?_eq_none` : that is what is found;
* `Activity.Acknowledges` : what the acknowledgement says;
* `Activity.resumed?_acknowledges` : when a resume is acknowledged, and how.
-/
import AgentStream.Proofs.Activity.LifeCycle

namespace AgentStream

namespace Engine.ResumeCommand

/-- What the members of a command say; both may be absent or `null`. -/
structure Told (members : Members) (c : ResumeCommand) : Prop where
  resumeMap : Json.Tells members "resumeMap" (c.resumeMap.map .obj)
  resume : Json.Tells members "resume" c.resume
  resume_ne : c.resume ≠ some .null

/-- **Which values are taken for a command.** -/
theorem decodeJson_iff {j : Json} (h : j.Sorted) {c : ResumeCommand} :
    decodeJson record.decode j = .ok c ↔
      ∃ members, record.members? j = some members ∧ c.Told members := by
  refine Record.decodeJson_iff (by decide) (by decide) h fun g members hmembers ho hg => ?_
  have hmap {v : Option Members} := hg.optional_iff (v := v) (by decide : plain "resumeMap" ∈ _)
    (fun ms (_ : True) => (nofun : Json.obj ms ≠ .null))
    fun j hj _ => Decoder.takes_object (Record.sorted_members? h hmembers hj) g.origin
  have hvalue {v : Option Json} := hg.optional_iff (v := v) (by decide : plain "resume" ∈ _)
    (fun j (hne : j ≠ .null) => hne)
    fun j hj hne => Decoder.takes_any (Record.sorted_members? h hmembers hj) hne g.origin
  simp only [record, Record.read_seq_iff, Record.read_map_iff, hmap, hvalue, Option.map_id']
  constructor
  · rintro ⟨-, resume, ⟨resumeMap, ⟨hm, -⟩, rfl⟩, ⟨hv, hne⟩, rfl⟩
    exact ⟨hm, hv, fun he => hne .null he rfl⟩
  · rintro ⟨hm, hv, hne⟩
    exact ⟨_, _, ⟨_, ⟨hm, fun _ _ => trivial⟩, rfl⟩, ⟨hv, fun j hj he => hne (he ▸ hj)⟩, rfl⟩

end Engine.ResumeCommand

namespace Activity

open Engine (ResumeCommand)

/-! ## What a state offers -/

/-- The command that a state holds. -/
def Commands (state : Members) (c : ResumeCommand) : Prop :=
  ∃ j members, state.lookup "__command__" = some j ∧
    ResumeCommand.record.members? j = some members ∧ c.Told members

/-- No command of a state gives a map or a value. -/
def Uncommanded (state : Members) : Prop :=
  ∀ c, Commands state c → c.resumeMap = none ∧ c.resume = none

/-- What a state resumes a graph with: the first that there is of the map of a command, its value,
a map that is not empty, and a value, `null` included. -/
inductive Offers (state : Members) : Resume → Prop
  | commandMap {c : ResumeCommand} {m : String × Json} {ms : Members} :
      Commands state c → c.resumeMap = some (m :: ms) → Offers state (.map (m :: ms))
  | commandValue {c : ResumeCommand} {value : Json} :
      Commands state c → c.resumeMap = none → c.resume = some value → Offers state (.value value)
  | stateMap {m : String × Json} {ms : Members} : Uncommanded state →
      state.lookup "__resume_map__" = some (.obj (m :: ms)) → Offers state (.map (m :: ms))
  | stateValue {value : Json} : Uncommanded state →
      (∀ m ms, state.lookup "__resume_map__" ≠ some (.obj (m :: ms))) →
      state.lookup "__resume__" = some value → Offers state (.value value)

/-- A state resumes nothing: its command has an empty map, or nothing is found in any of the four
places. -/
def Nothing (state : Members) : Prop :=
  (∃ c, Commands state c ∧ c.resumeMap = some []) ∨
    Uncommanded state ∧
    (∀ m ms, state.lookup "__resume_map__" ≠ some (.obj (m :: ms))) ∧
    state.lookup "__resume__" = none

variable {state : Members} {r : Resume} {c : ResumeCommand}

theorem command?_eq_some (h : (Json.obj state).Sorted) :
    command? state = some c ↔ Commands state c := by
  unfold command? Commands Engine.commandKey
  cases hj : state.lookup "__command__" with
  | none => simp
  | some j =>
    have hsorted : j.Sorted := Json.sortedMembers_iff.1 h.2 _ (mem_of_lookup hj)
    have hdecode : decodeJson ResumeCommand.record.decode j = .ok c ↔ _ :=
      ResumeCommand.decodeJson_iff hsorted
    constructor
    · intro hc
      simp only at hc
      split at hc
      · rename_i c' hc'
        cases hc
        obtain ⟨members, hmembers, htold⟩ := hdecode.1 hc'
        exact ⟨j, members, rfl, hmembers, htold⟩
      · cases hc
    · rintro ⟨j', members, hj', hmembers, htold⟩
      cases hj'
      simp only [hdecode.2 ⟨members, hmembers, htold⟩]

section Found

variable (h : (Json.obj state).Sorted)
include h

theorem resume?_emptyMap (hc : Commands state c) (hmap : c.resumeMap = some []) :
    resume? state = none := by
  obtain ⟨_, _⟩ := c
  cases hmap
  rw [resume?, (command?_eq_some h).2 hc]

theorem resume?_commandMap (hc : Commands state c) {m : String × Json} {ms : Members}
    (hmap : c.resumeMap = some (m :: ms)) : resume? state = some (.map (m :: ms)) := by
  obtain ⟨_, _⟩ := c
  cases hmap
  rw [resume?, (command?_eq_some h).2 hc]

theorem resume?_commandValue (hc : Commands state c) {value : Json} (hmap : c.resumeMap = none)
    (hvalue : c.resume = some value) : resume? state = some (.value value) := by
  obtain ⟨_, _⟩ := c
  cases hmap
  cases hvalue
  rw [resume?, (command?_eq_some h).2 hc]

/-- Where no command gives a map or a value, the state itself is asked. -/
theorem resume?_uncommanded (hnone : Uncommanded state) :
    resume? state = stateResume? state := by
  rw [resume?]
  cases hc : command? state with
  | none => rfl
  | some c =>
    obtain ⟨hmap, hvalue⟩ := hnone c ((command?_eq_some h).1 hc)
    obtain ⟨_, _⟩ := c
    cases hmap
    cases hvalue
    rfl

theorem resume?_of_offers (hr : Offers state r) : resume? state = some r := by
  cases hr with
  | commandMap hc hmap => exact resume?_commandMap h hc hmap
  | commandValue hc hmap hvalue => exact resume?_commandValue h hc hmap hvalue
  | stateMap hnone hmap =>
    rw [resume?_uncommanded h hnone, stateResume?, Engine.resumeMapKey, hmap]
  | stateValue hnone hmap hvalue =>
    rw [resume?_uncommanded h hnone, stateResume?, Engine.resumeMapKey, Engine.resumeKey]
    split
    · rename_i m ms hm
      exact absurd hm (hmap m ms)
    · rw [hvalue]
      rfl

theorem resume?_of_nothing (hnothing : Nothing state) : resume? state = none := by
  rcases hnothing with ⟨c, hc, hmap⟩ | ⟨hnone, hmap, hvalue⟩
  · exact resume?_emptyMap h hc hmap
  · rw [resume?_uncommanded h hnone, stateResume?, Engine.resumeMapKey, Engine.resumeKey]
    split
    · rename_i m ms hm
      exact absurd hm (hmap m ms)
    · rw [hvalue]
      rfl

end Found

/-- A state resumes a graph or it does not. -/
theorem offers_or_nothing (state : Members) : (∃ r, Offers state r) ∨ Nothing state := by
  by_cases hnone : Uncommanded state
  · -- The state itself is asked, for its map first.
    by_cases hmap : ∃ m ms, state.lookup "__resume_map__" = some (.obj (m :: ms))
    · obtain ⟨m, ms, hmap⟩ := hmap
      exact .inl ⟨_, .stateMap hnone hmap⟩
    · have hmap : ∀ m ms, state.lookup "__resume_map__" ≠ some (.obj (m :: ms)) :=
        fun m ms hm => hmap ⟨m, ms, hm⟩
      cases hvalue : state.lookup "__resume__" with
      | none => exact .inr (.inr ⟨hnone, hmap, hvalue⟩)
      | some value => exact .inl ⟨_, .stateValue hnone hmap hvalue⟩
  · obtain ⟨c, hgiven⟩ := not_forall.1 hnone
    obtain ⟨hc, hgiven⟩ := Classical.not_imp.1 hgiven
    cases hmap : c.resumeMap with
    | some ms =>
      cases ms with
      | nil => exact .inr (.inl ⟨c, hc, hmap⟩)
      | cons m ms => exact .inl ⟨_, .commandMap hc hmap⟩
    | none =>
      cases hvalue : c.resume with
      | none => exact absurd ⟨hmap, hvalue⟩ hgiven
      | some value => exact .inl ⟨_, .commandValue hc hmap hvalue⟩

/-- **What is found is what the state offers.** -/
theorem resume?_eq_some (h : (Json.obj state).Sorted) :
    resume? state = some r ↔ Offers state r := by
  refine ⟨fun hr => ?_, resume?_of_offers h⟩
  rcases offers_or_nothing state with ⟨r', hr'⟩ | hnothing
  · obtain rfl := Option.some.inj (hr.symm.trans (resume?_of_offers h hr'))
    exact hr'
  · exact nomatch hr.symm.trans (resume?_of_nothing h hnothing)

theorem resume?_eq_none (h : (Json.obj state).Sorted) : resume? state = none ↔ Nothing state := by
  refine ⟨fun hr => ?_, resume?_of_nothing h⟩
  rcases offers_or_nothing state with ⟨r, hr'⟩ | hnothing
  · exact nomatch hr.symm.trans (resume?_of_offers h hr')
  · exact hnothing

/-! ## The acknowledgement -/

/-- The states that an acknowledgement repeats, each with the member that does. -/
def identities : List (String × String) :=
  [("lineageId", "lineage_id"), ("checkpointId", "checkpoint_id")]

/-- The names that occur in an acknowledgement. -/
def payloadNames : List String := ["resumeMap", "resume"] ++ identities.map Prod.fst

/-- The members of an acknowledgement: the resume as a map or as a value, the lineage and the
checkpoint if the state names them, and no others. -/
structure Acknowledges (state : Members) (r : Resume) (members : Members) : Prop where
  ordered : members.Pairwise (·.1 < ·.1)
  resumeMap : ∀ j, members.lookup "resumeMap" = some j ↔ ∃ values, r = .map values ∧ j = .obj values
  resume : ∀ j, members.lookup "resume" = some j ↔ r = .value j
  identity : ∀ p ∈ identities, ∀ j, members.lookup p.1 = some j ↔
    ∃ s, j = .str s ∧ s ≠ "" ∧ state.lookup p.2 = some (.str s)
  nothingElse : ∀ m ∈ members, m.1 ∈ payloadNames

/-- The states that a resume is made of. -/
def resumeKeys : List String :=
  ["__command__", "__resume_map__", "__resume__", "lineage_id", "checkpoint_id"]

theorem mem_identity {key name : String} {m : String × Json} :
    m ∈ identity state key name ↔
      ∃ s, m = (name, .str s) ∧ s ≠ "" ∧ state.lookup key = some (.str s) := by
  rw [identity]
  split
  · rename_i s hs
    rw [hs, Json.nonempty]
    by_cases he : s = ""
    · subst he
      refine iff_of_false List.not_mem_nil ?_
      rintro ⟨s, -, hne, hs⟩
      cases hs
      exact hne rfl
    · have hfull : s.isEmpty = false := by
        rw [← Bool.not_eq_true, String.isEmpty_iff]
        exact he
      rw [hfull]
      constructor
      · intro hm
        exact ⟨s, List.mem_singleton.1 hm, he, rfl⟩
      · rintro ⟨s', rfl, -, hs'⟩
        cases hs'
        exact List.mem_singleton_self _
  · rename_i hnot
    refine iff_of_false List.not_mem_nil ?_
    rintro ⟨s, -, -, hs⟩
    exact hnot s hs

theorem identity_sublist (state : Members) (key name : String) :
    ((identity state key name).map Prod.fst).Sublist [name] := by
  rw [identity]
  split
  · rw [Json.nonempty]
    split
    · exact List.nil_sublist _
    · exact List.Sublist.refl _
  · exact List.nil_sublist _

/-- The payload acknowledges the resume. -/
theorem payload_acknowledges (state : Members) (r : Resume) :
    ∃ members, payload state r = .obj members ∧ Acknowledges state r members := by
  -- one member tells the resume, and either identity follows it or does not
  obtain ⟨first, hfirst, hnames, hpayload⟩ : ∃ first : Members,
      (∀ m, m ∈ first ↔ (∃ values, r = .map values ∧ m = ("resumeMap", .obj values)) ∨
        ∃ value, r = .value value ∧ m = ("resume", value)) ∧
      (first.map Prod.fst).Sublist ["resumeMap", "resume"] ∧
      payload state r = .ofMembers (first ++ identity state "lineage_id" "lineageId"
        ++ identity state "checkpoint_id" "checkpointId") := by
    cases r with
    | map values =>
      exact ⟨[("resumeMap", .obj values)], by simp, by simp, rfl⟩
    | value value =>
      exact ⟨[("resume", value)], by simp, by simp, rfl⟩
  have hsublist := (hnames.append (identity_sublist state "lineage_id" "lineageId")).append
    (identity_sublist state "checkpoint_id" "checkpointId")
  rw [← List.map_append, ← List.map_append] at hsublist
  have hnodup := hsublist.nodup (by decide)
  have hlookup (name : String) (j : Json) := by
    exact ((mem_iff_lookup (k := name) (a := j) hnodup).trans
      (iff_of_eq (congrArg (· = some j) (Json.lookup_sortMembers name hnodup).symm))).symm
  simp only [List.mem_append, hfirst, mem_identity] at hlookup
  refine ⟨_, hpayload, Json.sortMembers_pairwise _, fun j => ?_, fun j => ?_, fun p hp j => ?_,
    fun m hm => hsublist.subset (List.mem_map_of_mem (Json.mem_sortMembers hm))⟩
  · rw [hlookup]
    simp
  · rw [hlookup]
    simp
  · rw [hlookup]
    rcases List.mem_pair.1 hp with rfl | rfl <;> simp

/-- What acknowledges a resume is told by the state and the resume. -/
theorem Acknowledges.unique {members members' : Members} (h : Acknowledges state r members)
    (h' : Acknowledges state r members') : members = members' := by
  have hnodup := nodup_of_ordered h.ordered
  have hnodup' := nodup_of_ordered h'.ordered
  have hsame : ∀ name ∈ payloadNames, ∀ j, members.lookup name = some j ↔
      members'.lookup name = some j := by
    intro name hname j
    rcases List.mem_append.1 hname with hname | hname
    · rcases List.mem_pair.1 hname with rfl | rfl
      · rw [h.resumeMap, h'.resumeMap]
      · rw [h.resume, h'.resume]
    · obtain ⟨p, hp, rfl⟩ := List.mem_map.1 hname
      rw [h.identity p hp, h'.identity p hp]
  have hmem (m : String × Json) : m ∈ members ↔ m ∈ members' := by
    constructor
    · intro hm
      exact mem_of_lookup ((hsame _ (h.nothingElse m hm) m.2).1 ((mem_iff_lookup hnodup).1 hm))
    · intro hm
      exact mem_of_lookup
        ((hsame _ (h'.nothingElse m hm) m.2).2 ((mem_iff_lookup hnodup').1 hm))
  -- members with the same rows, both in order
  have hperm : members.Perm members' :=
    (List.perm_ext_iff_of_nodup hnodup.of_map hnodup'.of_map).2 hmem
  exact hperm.eq_of_pairwise (fun _ _ _ _ hlt hgt => absurd hgt (lt_asymm hlt)) h.ordered h'.ordered

/-- The event that takes the interrupt back and shows a resume. -/
def acknowledgement (fresh : String) (members : Members) : Event :=
  Body.activityDelta fresh "graph.node.interrupt"
    [.obj [("op", .str "add"), ("path", .str "/interrupt"), ("value", .null)],
      .obj [("op", .str "add"), ("path", .str "/resume"), ("value", .obj members)]]

/-- The acknowledgement of a resume repeats its payload. -/
theorem resumed?_of_resume? {fresh : String} {members : Members} (hr : resume? state = some r)
    (hpayload : payload state r = .obj members) :
    resumed? fresh state = some (acknowledgement fresh members) := by
  rw [resumed?, hr, Option.map_some, hpayload, addOperation_eq, addOperation_eq]
  rfl

/-- A resume depends on the states that it is made of. -/
theorem resumed?_congr (fresh : String) {state' : Members}
    (h : ∀ key ∈ resumeKeys, state'.lookup key = state.lookup key) :
    resumed? fresh state' = resumed? fresh state := by
  have hcommand : command? state' = command? state := by
    rw [command?, command?, Engine.commandKey, h "__command__" (by decide)]
  have hresume : resume? state' = resume? state := by
    rw [resume?, resume?, hcommand, stateResume?, stateResume?, Engine.resumeMapKey,
      Engine.resumeKey, h "__resume_map__" (by decide), h "__resume__" (by decide)]
  have hpayload : payload state' = payload state := by
    funext r
    simp only [payload, identity, Engine.lineageKey, Engine.checkpointKey,
      h "lineage_id" (by decide), h "checkpoint_id" (by decide)]
  rw [resumed?, resumed?, hresume, hpayload]

/-- **When a resume is acknowledged, and how.**  Nothing is acknowledged just if the command of the
state has an empty map, or if there is no resume in any of the four places.  Otherwise the interrupt
is taken back and the payload tells what the state offers first.  Nothing else that the state holds
makes a difference. -/
theorem resumed?_acknowledges (fresh : String) (state : Members) (h : (Json.obj state).Sorted) :
    (resumed? fresh state = none ↔
      (∃ c, Commands state c ∧ c.resumeMap = some []) ∨
        (∀ c, Commands state c → c.resumeMap = none ∧ c.resume = none) ∧
        (∀ m ms, state.lookup "__resume_map__" ≠ some (.obj (m :: ms))) ∧
        state.lookup "__resume__" = none) ∧
    (∀ e, resumed? fresh state = some e ↔ ∃ r members,
      Offers state r ∧ Acknowledges state r members ∧ e = acknowledgement fresh members) ∧
    ∀ state', (∀ key ∈ resumeKeys, state'.lookup key = state.lookup key) →
      resumed? fresh state' = resumed? fresh state := by
  refine ⟨?none, fun e => ?some, fun state' hsame => resumed?_congr fresh hsame⟩
  case none =>
    rw [resumed?, Option.map_eq_none_iff]
    exact resume?_eq_none h
  case some =>
    constructor
    · intro he
      obtain ⟨r, hr, -⟩ := Option.map_eq_some_iff.1 he
      obtain ⟨members, hpayload, hmembers⟩ := payload_acknowledges state r
      have hacknowledged : resumed? fresh state = some (acknowledgement fresh members) :=
        resumed?_of_resume? hr hpayload
      refine ⟨r, members, (resume?_eq_some h).1 hr, hmembers, ?_⟩
      exact Option.some.inj (he.symm.trans hacknowledged)
    · rintro ⟨r, members, hr, hmembers, rfl⟩
      obtain ⟨members', hpayload, hmembers'⟩ := payload_acknowledges state r
      rw [hmembers'.unique hmembers] at hpayload
      exact resumed?_of_resume? ((resume?_eq_some h).2 hr) hpayload

/-- A state whose command gives a value and no map, beside a value of its own. -/
def commandedState : Members :=
  [("__command__", .obj [("resume", .bool true), ("resumeMap", .null)]), ("__resume__", .int 1),
    ("checkpoint_id", .str ""), ("lineage_id", .str "l")]

/-- The value of the command is acknowledged, with the lineage but without a checkpoint. -/
theorem resumed?_commanded :
    resumed? "m" commandedState = some (Body.activityDelta "m" "graph.node.interrupt"
      [.obj [("op", .str "add"), ("path", .str "/interrupt"), ("value", .null)],
        .obj [("op", .str "add"), ("path", .str "/resume"),
          ("value", .obj [("lineageId", .str "l"), ("resume", .bool true)])]]) := by
  have hsorted : (Json.obj commandedState).Sorted := by
    refine ⟨by decide, ⟨by decide, trivial, trivial, trivial⟩, trivial, trivial, trivial, trivial⟩
  have hcommand : Commands commandedState ⟨none, some (.bool true)⟩ :=
    ⟨_, _, rfl, rfl, .inr ⟨rfl, rfl⟩, .inl rfl, nofun⟩
  have hlineage : commandedState.lookup "lineage_id" = some (.str "l") := rfl
  have hcheckpoint : commandedState.lookup "checkpoint_id" = some (.str "") := rfl
  refine ((resumed?_acknowledges "m" commandedState hsorted).2.1 _).2
    ⟨.value (.bool true), _, .commandValue hcommand rfl rfl, ?_, rfl⟩
  refine ⟨by decide, by simp [lookup_cons_ite], by simp [lookup_cons_ite, eq_comm],
    fun p hp j => ?_, by decide⟩
  rcases List.mem_pair.1 hp with rfl | rfl
  · rw [hlineage]
    exact ⟨fun hj => ⟨"l", (Option.some.inj hj).symm, by decide, rfl⟩, fun ⟨s, hj, _, hs⟩ =>
      hs.trans (congrArg some hj.symm)⟩
  · rw [hcheckpoint]
    refine iff_of_false nofun fun ⟨s, _, hne, hs⟩ => hne ?_
    cases hs
    rfl

end Activity

end AgentStream
