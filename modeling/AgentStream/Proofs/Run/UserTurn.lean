/-
# The turn of a user in the log

Once a run has been started, the turn of its user stands in the log of the session right behind the
start, and no event of the run, failure or cancellation displaces it: whatever becomes of the run, a
replay of the log shows the turn first.

* `Message.turn` : the turn as it is shown;
* `Runner.plan_ok` : what a plan keeps of its request;
* `Run.record_of_turn` : what a run that is over has told the recorder;
* `Runner.turn_survives` : what a replay shows first.
-/
import AgentStream.Proofs.Replay.Standing
import AgentStream.Proofs.Run.Shown

namespace AgentStream

open Merger (merge?)

/-! ## Turns and plans -/

/-- The turn of a user as it is shown: under its id, and under its name or else that of the user. -/
def Message.turn (m : Message) (id userId : String) : Message :=
  { m with
    id := some id
    name := some (if (m.name.getD "").isEmpty then userId else m.name.getD "") }

theorem Message.withFallbackName_turn (m : Message) (id userId : String) :
    ({ m with id := some id } : Message).withFallbackName userId = m.turn id userId :=
  withFallbackName_eq _ _

/-- A request that is planned has a thread and a turn. -/
theorem Runner.plan_ok {τ : Type} {runner : Runner τ} {fresh : String} {view : ScopeView}
    {request : Request} {p : Plan τ} (h : runner.plan fresh view request = .ok p) :
    p.request.threadId ≠ "" ∧ Turn.ofMessages fresh p.request.messages = .ok p.turn := by
  obtain ⟨⟨request', userId⟩, -, h⟩ := of_bind_eq_ok h
  simp only at h
  split at h
  · cases h
  · rename_i hthread
    obtain ⟨turn, hturn, h⟩ := of_bind_eq_ok h
    obtain ⟨state, -, h⟩ := of_bind_eq_ok h
    obtain ⟨options, -, h⟩ := of_bind_eq_ok h
    obtain ⟨-, -, h⟩ := of_bind_eq_ok h
    obtain ⟨translator, -, h⟩ := of_bind_eq_ok h
    cases h
    refine ⟨fun he => hthread (String.isEmpty_iff.2 he), ?_⟩
    cases hmessages : Turn.ofMessages fresh request'.messages with
    | error error =>
      rw [hmessages] at hturn
      cases hturn
    | ok turn' =>
      rw [hmessages] at hturn
      cases hturn
      rfl

/-! ## The record of a turn -/

namespace Run

variable {τ : Type} [Translator τ]

/-- **What a run that is over has told the recorder**, once its start was delivered: to append the
start, the turn of the user and then whatever it delivered, and to flush. -/
theorem record_of_turn {p : Plan τ} {config : Config} (happ : config.appName ≠ "")
    (huser : p.userId ≠ "") (hthread : p.request.threadId ≠ "") {note : Event}
    (hnote : noteOf? p = some note) {replies : List (Moment × Reply)}
    (hclosed : ((ofPlan p config true).after replies).stage = .closed)
    (hstarted : (ofPlan p config true).delivered replies ≠ []) :
    ∃ events, ((ofPlan p config true).history replies).filter Deed.isCall
      = (openingOf p :: note :: events).map Deed.append ++ [.flush] := by
  have hrecorded : (ofPlan p config true).recorded = true := by
    simp [ofPlan, Plan.key, SessionKey.isValid, happ, huser, hthread]
  have hsound := history_sound p config true replies
  obtain ⟨hplan, hkept⟩ := after_keeps (ofPlan p config true) replies
  obtain ⟨hended, hhistory⟩ := hsound.closed hclosed
  rw [hrecorded] at hkept
  rw [hplan] at hended
  rw [if_pos hkept, trailOf, hplan, hkept] at hhistory
  have hhead := hended.head?.resolve_left hstarted
  obtain ⟨events, hevents⟩ := List.head?_eq_some_iff.1 hhead
  refine ⟨events, ?_⟩
  rw [hhistory, List.filter_append, calls_trail, hevents]
  show (recordOf (noteOf? p) _).map Deed.append ++ _ = _
  rw [hnote]
  rfl

end Run

/-! ## The first message of a session -/

namespace Runner

/-- **The turn of a user survives every run.**  A planned run whose request ends with a message of
the user, in a value that is held (so in sorted form), without doubles and not too deep to be read
again, has been started and is over, whatever the engine, the callbacks, the translator and the
client did meanwhile.  If a recorder in memory was told for the empty session what the run tells it
and nothing else, a replay of the log shows the message first, under the id of the turn and a name
that is not empty, and otherwise as it was, whether or not the replay fails. -/
theorem turn_survives {τ : Type} [Translator τ] (runner : Runner τ) {fresh : String}
    {view : ScopeView} {request : Request} {p : Plan τ}
    (hplan : runner.plan fresh view request = .ok p) (happ : runner.config.appName ≠ "")
    (huser : p.userId ≠ "") {last : Message} (hlast : p.request.messages.getLast? = some last)
    (hrole : last.role = .user) (hcontent : ∀ c ∈ last.content, c.Sorted ∧ c.integral = true)
    (hdepth : (last.turn p.turn.messageId p.userId).note.toJson.depth ≤ Doc.nestingLimit)
    {replies : List (Moment × Reply)}
    (hclosed : ((Run.ofPlan p runner.config true).after replies).stage = .closed)
    (hstarted : (Run.ofPlan p runner.config true).delivered replies ≠ [])
    {r : Recorder MemoryStore} (hr : r.Sound)
    (hempty : r.store.log (p.key runner.config.appName) = [])
    (hheld : r.heldBack (p.key runner.config.appName) = []) {uses : List Recorder.Use}
    (hu : uses.filterMap (·.call? (p.key runner.config.appName))
      = ((Run.ofPlan p runner.config true).history replies).filter Deed.isCall)
    (app user : String) :
    ∃ rest, (replay app user
        ((r.after uses).store.log (p.key runner.config.appName))).messages
      = last.turn p.turn.messageId p.userId :: rest := by
  let key := p.key runner.config.appName
  let turn := last.turn p.turn.messageId p.userId
  obtain ⟨hthread, hturn⟩ := plan_ok hplan
  have hkey : key.isValid = true := by
    simp [key, Plan.key, SessionKey.isValid, happ, huser, hthread]
  have hsource := Turn.source_of_user hturn hlast hrole
  have hshown := last.withFallbackName_turn p.turn.messageId p.userId
  have hnote : Run.noteOf? p = some turn.note := by
    rw [Run.noteOf?, Turn.record?, hsource]
    show some (Message.note _) = _
    rw [hshown]
  obtain ⟨events, hevents⟩ := Run.record_of_turn happ huser hthread hnote hclosed hstarted
  obtain ⟨stored, hholds, hjoins⟩ := Recorder.log_of_calls MemoryStore.shows
    MemoryStore.neverFails hkey hr hempty hheld (hu.trans hevents)
  have hnull := (Turn.ofMessages_user hturn hsource).2
  have hfirst := replay_noted (m := turn) hrole
    (fun c hc => ⟨(hcontent c hc).1, hnull c hc, (hcontent c hc).2⟩) hdepth hholds hjoins app user
  -- The turn has a name, so it is not named after whoever replays the log.
  have hnamed : turn.withFallbackName user = turn := by
    rw [show turn = _ from hshown.symm]
    exact Replay.withFallbackName_twice _ huser user
  rw [hnamed] at hfirst
  obtain ⟨rest, hrest⟩ := List.head?_eq_some_iff.1 hfirst
  exact ⟨rest, hrest⟩

/-- What a user says in parts, one of them with a member that is not known, under a name that is
empty and with what does not belong to a user's message. -/
def parting : Message :=
  { role := .user
    content := some (.arr [.obj [("lang", .str "en"), ("text", .str "bye"), ("type", .str "text")]])
    name := some ""
    toolCalls := [⟨"c", "function", ⟨"f", "\x7b\x7d"⟩⟩]
    toolName := some "f" }

/-- The request with which the user says so. -/
def partingRequest : Request := { threadId := "thread", runId := "run", messages := [parting] }

/-- The plan of the run. -/
def partingPlan : Plan Framer :=
  usualPlan partingRequest "user"
    ⟨.userParts [.text "bye"], "f", .user { parting with id := some "f" }⟩

/-- The engine has streamed the first piece of a message when the scope of the run is done. -/
def partingReplies : List (Moment × Reply) :=
  [.taken, .answered (.ok ()), .answered (.ok ()), .started "s",
    .yielded "a" "b" "c" (saying (.chunk "r-1" "Good")), .taken, .answered (.ok ()), .taken,
    .answered (.ok ()), .done, .answered (.ok ())].map (Run.quiet, ·)

/-- The run is cut off and the replay of its log fails, and still shows the turn first. -/
theorem turn_survives_parting :
    let run := Run.ofPlan partingPlan { appName := "app" } true
    let key : SessionKey := ⟨"app", "user", "thread"⟩
    let uses := (run.history partingReplies).filterMap (Recorder.Use.ofDeed? key id)
    let r := ({ store := {}, options := {} } : Recorder MemoryStore).after uses
    (replay "app" "user" (r.store.log key)).error = some (.textNotClosed "r-1") ∧
    ∃ rest, (replay "app" "user" (r.store.log key)).messages
      = { parting with id := some "f", name := some "user" } :: rest := by
  intro run key uses r
  have hplan : (usual { appName := "app" } helloUser).plan "f" {} partingRequest
      = .ok partingPlan := usual_plan rfl (by decide) (by decide +kernel)
  have hcontent : ∀ c ∈ parting.content, c.Sorted ∧ c.integral = true := by
    rintro c ⟨rfl⟩
    exact ⟨⟨⟨by decide, trivial, trivial, trivial, trivial⟩, trivial⟩, rfl⟩
  have hclosed : (run.after partingReplies).stage = .closed := by decide +kernel
  have hstarted : run.delivered partingReplies ≠ [] := by decide +kernel
  have hsound : ({ store := {}, options := {} } : Recorder MemoryStore).Sound := fun _ _ => rfl
  refine ⟨by decide +kernel, ?_⟩
  exact turn_survives (usual { appName := "app" } helloUser) hplan (by decide) (by decide) rfl rfl
    hcontent (by decide +kernel) hclosed hstarted hsound rfl rfl (Recorder.calls_of_deeds key id _)
    "app" "user"

end Runner

end AgentStream
