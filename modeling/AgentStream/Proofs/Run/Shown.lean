/-
# What is shown of a run

A user says something, the engine answers with messages, and the run is recorded.  A snapshot of
the session then shows the user's turn and the messages, however the engine gave them and however
the recorder merged their pieces.

* `Snapshot.shown`, `Snapshot.shown_record` : what a snapshot shows of a record that has ended;
* `Runner.usual` : a runner with the usual hooks and the usual translator;
* `Runner.snapshot_shows` : what a snapshot shows of a run.
-/
import AgentStream.Proofs.Replay.Conversation
import AgentStream.Proofs.Run.Logged
import AgentStream.Proofs.Run.Undisturbed
import AgentStream.Run.Snapshot

namespace AgentStream

/-! ## Snapshots of records that have ended -/

namespace Snapshot

/-- A snapshot after replies. -/
def after (s : Snapshot) (replies : List SnapshotReply) : Snapshot := replies.foldl step s

/-- The event that the client takes with a reply. -/
def taken (s : Snapshot) : SnapshotReply → List Event
  | .taken _ =>
    match s.stage with
    | .offering e _ => [e]
    | _ => []
  | _ => []

/-- The events that a client takes. -/
def shown : Snapshot → List SnapshotReply → List Event
  | _, [] => []
  | s, reply :: rest => s.taken reply ++ shown (s.step reply) rest

/-- The replies to a snapshot whose client takes every event, the first three at some times, and
whose record is read in between. -/
def watched (log : Except RecordError (List Entry)) (first second third : Nat) :
    List SnapshotReply :=
  [.taken first, .log log, .taken second, .taken third]

/-- The snapshot of a record that has ended and can be replayed shows its messages. -/
theorem shown_record {config : Config} (request : Request) {user : String} {log : List Entry}
    {messages : List Message} (hreplay : replay config.appName user log = ⟨messages, none⟩)
    (hend : endsRun log = true) (first second third : Nat) :
    let s := ofRequest config request user
    s.shown (watched (.ok log) first second third)
      = [Event.runStarted request.threadId request.runId, Body.messagesSnapshot messages,
        Event.runFinished request.threadId request.runId] ∧
    (s.after (watched (.ok log) first second third)).stage = .closed := by
  intro s
  have hmessages : s.showing log
      = .offering (Body.messagesSnapshot messages) (.shown none log) := by
    show SnapshotStage.offering (Body.messagesSnapshot (replay config.appName user log).messages)
      (.shown (replay config.appName user log).error log) = _
    rw [hreplay]
  have hlast (s' : Snapshot) : s'.afterMessages second none log = lastly s'.closing := by
    simp only [afterMessages, hend, Bool.not_true, Bool.and_false, Bool.false_eq_true, if_false]
  let shows : Snapshot :=
    { s with stage := .offering (Body.messagesSnapshot messages) (.shown none log) }
  have hshows : (s.step (.taken first)).step (.log (.ok log)) = shows := by
    show ({ s with stage := s.showing log } : Snapshot) = shows
    rw [hmessages]
  have hcloses : shows.step (.taken second) = { s with stage := lastly s.closing } := by
    show ({ s with stage := shows.afterMessages second none log } : Snapshot) = _
    rw [hlast]
    rfl
  constructor
  · show Event.runStarted request.threadId request.runId
      :: (((s.step (.taken first)).step (.log (.ok log))).shown [.taken second, .taken third]) = _
    rw [hshows]
    show _ :: _ :: ((shows.step (.taken second)).shown [.taken third]) = _
    rw [hcloses]
    rfl
  · show ((((s.step (.taken first)).step (.log (.ok log))).step (.taken second)).step
      (.taken third)).stage = .closed
    rw [hshows, hcloses]
    rfl

/-- A log that holds the end of a run last has come to the end of a run. -/
theorem endsRun_of_holds {log : List Entry} {stored : List Event} (h : Holds log stored)
    {e : Event} (hl : stored.getLast? = some e) (hread : e.ReadBack) (he : e.isTerminal = true) :
    endsRun log = true := by
  obtain ⟨before, rfl⟩ := List.getLast?_eq_some_iff.1 hl
  obtain ⟨xs, ys, rfl, -, hy⟩ := h.append
  obtain ⟨entry, rest, rfl, hentry, hrest⟩ := hy.cons
  have hevent : entry.event = .ok e := by
    rw [Entry.event, hentry]
    exact hread
  rw [hrest.nil, endsRun, List.getLast?_concat]
  simp only [hevent, he]

end Snapshot

/-! ## Turns of users -/

/-- What is kept of a user's turn is a user's message with a content. -/
theorem Turn.ofMessages_user {fresh : String} {messages : List Message} {turn : Turn}
    {said : Message} (h : ofMessages fresh messages = .ok turn) (hs : turn.source = .user said) :
    said.role = .user ∧ ∀ c ∈ said.content, c ≠ .null := by
  cases hlast : messages.getLast? with
  | none =>
    rw [ofMessages, hlast] at h
    cases h
  | some last =>
    by_cases hrole : last.role = .user
    · have hsource := source_of_user h hlast hrole
      rw [hs] at hsource
      cases hsource
      refine ⟨hrole, fun c hc hnull => ?_⟩
      rw [ofMessages, hlast] at h
      simp only [ofMessage, hrole] at h
      obtain ⟨message, hmessage, -⟩ := of_bind_eq_ok h
      -- A content that is null makes no message of the engine.
      rw [show last.content = some c from hc, hnull] at hmessage
      cases hmessage
    · obtain ⟨callId, content, htool⟩ := source_of_other h hlast hrole
      cases hs.symm.trans htool

/-! ## The usual runner -/

/-- A runner with the usual hooks, but for the one that says who the user is, the usual translator
and no callbacks. -/
def Runner.usual (config : Config) (userId : ScopeView → Request → Except String String) :
    Runner Framer where
  config
  hooks := { userId, translator := fun _ r _ => .ok { threadId := r.threadId, runId := r.runId } }

namespace Runner

variable {config : Config} {userId : ScopeView → Request → Except String String}
  {view : ScopeView} {request : Request} {user : String}

/-- The plan of a run of the usual runner. -/
def usualPlan (request : Request) (user : String) (turn : Turn) : Plan Framer where
  request
  userId := user
  turn
  options := {}
  translator := { threadId := request.threadId, runId := request.runId }

theorem usual_prepare (hname : userId view request = .ok user) :
    (usual config userId).prepare view request = .ok (request, user) := by
  show (Except.mapError _ (userId view request) >>= _) = _
  rw [hname]
  rfl

/-- The usual runner plans a run for every request with a thread and a turn. -/
theorem usual_plan (hname : userId view request = .ok user) (hthread : request.threadId ≠ "")
    {fresh : String} {turn : Turn} (hturn : Turn.ofMessages fresh request.messages = .ok turn) :
    (usual config userId).plan fresh view request = .ok (usualPlan request user turn) := by
  have hthread : request.threadId.isEmpty = false := by simpa using hthread
  rw [plan, usual_prepare hname]
  simp only [bind, Except.bind, hthread, Bool.false_eq_true, if_false, hturn]
  rfl

/-- The usual runner starts a snapshot for every request. -/
theorem usual_snapshot (hname : userId view request = .ok user) (happ : config.appName ≠ "") :
    (usual config userId).snapshot true view request = .ok (.ofRequest config request user) := by
  have happ : (usual config userId).config.appName.isEmpty = false := by
    show config.appName.isEmpty = false
    simpa using happ
  rw [snapshot, usual_prepare hname]
  simp only [happ, Bool.false_eq_true, if_false]
  rfl

end Runner

/-! ## Conversations -/

/-- The engine gives messages, and then its stream ends, with the end of its run or without. -/
def Plays (responses : List Engine.Response) (outputs : List Engine.Output) : Prop :=
  Carries outputs responses ∨ Carries outputs (responses ++ [.runEnd])

/-- **To messages a new framer says their frames**, and the end of the run if the engine tells
it. -/
theorem Plays.speaks (switches : Activity.Switches) (threadId runId : String)
    {pairs : List (String × String)} (hids : (pairs.map Prod.fst).Nodup)
    (hpairs : ∀ x ∈ pairs, x.1 ≠ "" ∧ x.2 ≠ "") {responses : List Engine.Response}
    (hanswers : Answers pairs responses) {outputs : List Engine.Output}
    (houtputs : Plays responses outputs) :
    ∃ said : List (String × List String), said.map (fun x => (x.1, String.join x.2)) = pairs ∧
      ∃ more t, Speaks switches ({ threadId, runId } : Framer) outputs (frames said ++ more) t ∧
        (more = [] ∨ more = [Event.runFinished threadId runId]) := by
  obtain ⟨said, hsaid, hsays⟩ :=
    Framer.answers_says switches threadId runId hanswers fun x hx => (hpairs x hx).2
  refine ⟨said, hsaid, ?_⟩
  have hdistinct : ("" :: pairs.map Prod.fst).Nodup := by
    refine List.nodup_cons.2 ⟨fun hmem => ?_, hids⟩
    obtain ⟨x, hx, hempty⟩ := List.mem_map.1 hmem
    exact (hpairs x hx).1 hempty
  have hframes := hsays { threadId, runId } "" ⟨rfl, rfl, rfl, rfl⟩ hdistinct
  rcases houtputs with houtputs | houtputs
  · obtain ⟨t, ht, -⟩ := hframes outputs houtputs
    exact ⟨[], t, by rwa [List.append_nil], .inl rfl⟩
  · obtain ⟨t, ht, -⟩ :=
      (hframes.append fun f' hf' => Framer.says_runEnd hf') outputs houtputs
    exact ⟨_, t, ht, .inr rfl⟩

namespace Run

variable {turn : Turn} {said : Message}

/-- **What is delivered of a conversation**: the start of the run, the frames of the messages, and
the end of the run, once. -/
theorem conversation_delivered (config : Config) (request : Request) (user : String)
    (hsource : turn.source = .user said) {pairs : List (String × String)}
    (hids : (pairs.map Prod.fst).Nodup) (hpairs : ∀ x ∈ pairs, x.1 ≠ "" ∧ x.2 ≠ "")
    {responses : List Engine.Response} (hanswers : Answers pairs responses)
    {outputs : List Engine.Output} (houtputs : Plays responses outputs) :
    ∃ spoken : List (String × List String),
      spoken.map (fun x => (x.1, String.join x.2)) = pairs ∧
      ∀ replies,
        Performs (ofPlan (Runner.usualPlan request user turn) config true) outputs replies →
        ∃ n, ∀ k, n ≤ k →
          let r := ofPlan (Runner.usualPlan request user turn) config true
          (r.after (firstReplies replies k)).stage = .closed ∧
          r.delivered (firstReplies replies k)
            = Event.runStarted request.threadId request.runId
              :: (frames spoken ++ [Event.runFinished request.threadId request.runId]) := by
  obtain ⟨spoken, hspoken, more, t, hspeaks, hmore⟩ :=
    houtputs.speaks config.switches request.threadId request.runId hids hpairs hanswers
  refine ⟨spoken, hspoken, fun replies hperforms => ?_⟩
  let p : Plan Framer := Runner.usualPlan request user turn
  let ending : Event := .runFinished request.threadId request.runId
  have hend : upToEnd (frames spoken ++ more ++ [ending]) = frames spoken ++ [ending] := by
    rcases hmore with rfl | rfl
    · rw [List.append_nil]
      exact upToEnd_append Replay.isTerminal_frames rfl []
    · rw [List.append_assoc]
      exact upToEnd_append Replay.isTerminal_frames rfl [ending]
  have hecho : p.echo = [] := by
    rw [Plan.echo, show p.turn.source = .user said from hsource]
  obtain ⟨n, hn⟩ := hperforms.delivered rfl hspeaks
  refine ⟨n, fun k hk => ?_⟩
  obtain ⟨hclosed, hdelivered⟩ := hn k hk
  have hall : (ofPlan p config true).delivered (firstReplies replies k) = openingOf p
      :: (p.echo ++ upToEnd (frames spoken ++ more ++ [ending])) := hdelivered
  rw [hend, hecho] at hall
  exact ⟨hclosed, hall⟩

/-- **What is recorded of a conversation.**  Once the run is over it has told the recorder to append
the record of the turn and the messages, and to flush. -/
theorem conversation_recorded {config : Config} {request : Request} {user : String}
    (happ : config.appName ≠ "") (hthread : request.threadId ≠ "") (huser : user ≠ "")
    (hsource : turn.source = .user said)
    {spoken : List (String × List String)} {replies : List (Moment × Reply)}
    (hclosed : ((ofPlan (Runner.usualPlan request user turn) config true).after replies).stage
      = .closed)
    (hdelivered : (ofPlan (Runner.usualPlan request user turn) config true).delivered replies
      = Event.runStarted request.threadId request.runId
        :: (frames spoken ++ [Event.runFinished request.threadId request.runId])) :
    ((ofPlan (Runner.usualPlan request user turn) config true).history replies).filter Deed.isCall
      = (conversation request.threadId request.runId (said.withFallbackName user).note
        spoken).map .append ++ [.flush] := by
  let p : Plan Framer := Runner.usualPlan request user turn
  have hnote : noteOf? p = some (said.withFallbackName user).note := by
    rw [noteOf?, Turn.record?, show p.turn.source = .user said from hsource]
    rfl
  have hhistory := (((history_recorded p config happ huser hthread).1 replies).2.2 hclosed).1
  rw [hhistory, List.filter_append, calls_trail, hdelivered, hnote]
  rfl

end Run

/-- **What a log shows of a conversation**: if its recorder was told to append the record of a
conversation and to flush, the log is replayed as the turn and the messages, and has come to its
end. -/
theorem Recorder.replay_conversation (app : String) {user : String} (huser : user ≠ "")
    {said : Message} (hrole : said.role = .user)
    (hcontent : ∀ c ∈ said.content, c.Sorted ∧ c ≠ .null ∧ c.integral = true)
    (hdepth : (said.withFallbackName user).note.toJson.depth ≤ Doc.nestingLimit)
    {spoken : List (String × List String)} (hids : (spoken.map Prod.fst).Nodup)
    (hne : ∀ x ∈ spoken, x.1 ≠ "") {threadId runId : String} {σ : Type} [LogStore σ]
    {log : σ → SessionKey → List Entry} (hs : LogStore.Shows log) (hn : LogStore.NeverFails σ)
    {key : SessionKey} (hkey : key.isValid = true) {r : Recorder σ} (hr : r.Sound)
    (hempty : log r.store key = []) (hheld : r.heldBack key = []) {uses : List Recorder.Use}
    (hu : uses.filterMap (·.call? key) = (conversation threadId runId
      (said.withFallbackName user).note spoken).map .append ++ [.flush]) :
    replay app user (log (r.after uses).store key)
      = ⟨said.withFallbackName user
        :: spoken.map fun x => Replay.spoken app x.1 (String.join x.2), none⟩ ∧
    Snapshot.endsRun (log (r.after uses).store key) = true := by
  let turn := said.withFallbackName user
  obtain ⟨stored, hholds, hjoins⟩ := Recorder.log_of_calls hs hn hkey hr hempty hheld hu
  have hnote : turn.note.ReadBack := by
    refine Event.ofBytes_note (fun c hc => ?_) hdepth
    rw [said.content_withFallbackName user] at hc
    exact (hcontent c hc).2.2
  have hread := Replay.readBack_conversation hnote spoken threadId runId
  constructor
  · obtain ⟨timed, htimed, hsteps⟩ := Replay.steps_stored hholds hjoins hread
    obtain ⟨r', hleads, hmessages, hdone⟩ := Replay.leads_conversation app huser hrole hcontent
      hdepth hids hne threadId runId
    rw [replay, hsteps, hleads timed htimed]
    simp only [hmessages, hdone]
  · have hlast : (conversation threadId runId turn.note spoken).getLast?
        = some (Event.runFinished threadId runId) := by
      rw [conversation, ← List.cons_append, ← List.cons_append, List.getLast?_concat]
    exact Snapshot.endsRun_of_holds hholds (getLast?_joins hjoins hlast rfl)
      (Event.ofBytes_runFinished threadId runId) rfl

/-! ## Snapshots of conversations -/

namespace Runner

/-- **A snapshot shows the conversation.**  A user says something to the usual runner, in a value
that is held (so in sorted form), has no doubles and is not too deep to be read again.  The engine
gives messages with ids of their own, in one piece each or in any number of pieces, and nothing
disturbs the run.  Then the run is over at some time.  If a recorder in memory was told for the
session what the run tells it and nothing else, a snapshot of the session shows its start, the
user's turn with the messages in their order, and its end. -/
theorem snapshot_shows (config : Config) (happ : config.appName ≠ "")
    (userId : ScopeView → Request → Except String String) {view view' : ScopeView}
    {request request' : Request} (hthread : request.threadId ≠ "")
    (hsame : request'.threadId = request.threadId) {user : String} (huser : user ≠ "")
    (hname : userId view request = .ok user) (hname' : userId view' request' = .ok user)
    {fresh : String} {turn : Turn} {said : Message}
    (hturn : Turn.ofMessages fresh request.messages = .ok turn) (hsource : turn.source = .user said)
    (hcontent : ∀ c ∈ said.content, c.Sorted ∧ c.integral = true)
    (hdepth : (said.withFallbackName user).note.toJson.depth ≤ Doc.nestingLimit)
    {pairs : List (String × String)} (hids : (pairs.map Prod.fst).Nodup)
    (hpairs : ∀ x ∈ pairs, x.1 ≠ "" ∧ x.2 ≠ "") {responses : List Engine.Response}
    (hanswers : Answers pairs responses) {outputs : List Engine.Output}
    (houtputs : Plays responses outputs) :
    ∃ plan snapshot, (usual config userId).plan fresh view request = .ok plan ∧
      (usual config userId).snapshot true view' request' = .ok snapshot ∧
      ∀ replies, (Run.ofPlan plan config true).Performs outputs replies → ∃ n, ∀ k, n ≤ k →
        ((Run.ofPlan plan config true).after (Run.firstReplies replies k)).stage = .closed ∧
        ∀ (r : Recorder MemoryStore) (uses : List Recorder.Use), r.Sound →
          r.store.log snapshot.key = [] → r.heldBack snapshot.key = [] →
          uses.filterMap (·.call? snapshot.key)
            = ((Run.ofPlan plan config true).history (Run.firstReplies replies k)).filter
              Deed.isCall →
          ∀ first second third,
            let replies := Snapshot.watched ((r.after uses).events snapshot.key none).1 first second
              third
            snapshot.shown replies
              = [Event.runStarted request'.threadId request'.runId,
                Body.messagesSnapshot (said.withFallbackName user
                  :: pairs.map fun x => Replay.spoken config.appName x.1 x.2),
                Event.runFinished request'.threadId request'.runId] ∧
            (snapshot.after replies).stage = .closed := by
  obtain ⟨hrole, hnull⟩ := Turn.ofMessages_user hturn hsource
  obtain ⟨spoken, hspoken, hdelivered⟩ :=
    Run.conversation_delivered config request user hsource hids hpairs hanswers houtputs
  refine ⟨usualPlan request user turn, .ofRequest config request' user,
    usual_plan hname hthread hturn, usual_snapshot hname' happ, fun replies hperforms => ?_⟩
  obtain ⟨n, hn⟩ := hdelivered replies hperforms
  refine ⟨n, fun k hk => ⟨(hn k hk).1, ?_⟩⟩
  intro r uses hr hempty hheld hu first second third
  let key : SessionKey := ⟨config.appName, user, request'.threadId⟩
  have hkey : key.isValid = true := by
    have hthread' : request'.threadId ≠ "" := hsame ▸ hthread
    simp [key, SessionKey.isValid, happ, huser, hthread']
  have hrecorded := hu.trans (Run.conversation_recorded happ hthread huser hsource (hn k hk).1
    (hn k hk).2)
  have hdistinct : (spoken.map Prod.fst).Nodup := by
    rw [← hspoken, List.map_map] at hids
    exact hids
  have hnamed : ∀ x ∈ spoken, x.1 ≠ "" := fun x hx =>
    (hpairs (x.1, String.join x.2) (hspoken ▸ List.mem_map_of_mem hx)).1
  obtain ⟨hreplay, hend⟩ := Recorder.replay_conversation config.appName huser hrole
    (fun c hc => ⟨(hcontent c hc).1, hnull c hc, (hcontent c hc).2⟩) hdepth hdistinct hnamed
    MemoryStore.shows MemoryStore.neverFails hkey hr hempty hheld hrecorded
  have hread : ((r.after uses).events key none).1 = .ok ((r.after uses).store.log key) := by
    rw [Recorder.events_after MemoryStore.shows MemoryStore.neverFails hkey]
    simp only [Option.all_none, List.filter_true]
  have hmessages : pairs.map (fun x => Replay.spoken config.appName x.1 x.2)
      = spoken.map fun x => Replay.spoken config.appName x.1 (String.join x.2) := by
    rw [← hspoken, List.map_map]
    rfl
  have hshown := Snapshot.shown_record request' hreplay hend first second third
  rw [← hread, ← hmessages] at hshown
  exact hshown

/-- A user says hello. -/
def hello : Message := { Message.user "hello" with id := some "m-1" }

/-- The request with which the user says hello. -/
def helloRequest : Request := { threadId := "thread", runId := "run", messages := [hello] }

/-- Every request is the user's. -/
def helloUser : ScopeView → Request → Except String String := fun _ _ => .ok "user"

/-- The engine answers in pieces, the first one of which is empty, and then says something else in
one piece. -/
def helloResponses : List Engine.Response :=
  [.chunk "r-1" "", .chunk "r-1" "Hi", (Engine.Response.chunk "r-1" "!").withFinishReason "stop",
    .completion "r-2" "How are you?"]

/-- An output of the engine with a response. -/
def saying (r : Engine.Response) : Engine.Output := { id := "o-1", response := some r }

/-- The outputs of the engine, with the end of its run. -/
def helloOutputs : List Engine.Output := (helloResponses ++ [Engine.Response.runEnd]).map saying

/-- What is replied to the run: its client takes every event, and the recorder never fails. -/
def helloScript : List (Moment × Reply) :=
  let kept : List Reply := [.taken, .answered (.ok ())]
  let next (n : Nat) : List Reply := (helloOutputs[n]?.map (Reply.yielded "a" "b" "c" ·)).toList
  let script : List Reply := kept ++ [.answered (.ok ()), .started "s"]
    ++ next 0 ++ next 1 ++ kept ++ kept ++ next 2 ++ kept ++ kept ++ next 3 ++ kept ++ kept ++ kept
    ++ next 4 ++ kept ++ [.answered (.ok ())]
  script.map (Run.quiet, ·)

/-- The run. -/
def helloRun : Run Framer :=
  .ofPlan (usualPlan helloRequest "user" ⟨.user "hello", "m-1", .user hello⟩)
    { appName := "app" } true

theorem hello_performs : helloRun.Performs helloOutputs (Run.scripted helloScript) := by
  refine Run.performs_scripted (List.forall_mem_map.2 fun _ _ => rfl)
    (List.forall_mem_map.2 fun _ _ => rfl) ?_ ?_ ?_ ?_
  · simp [helloScript, helloOutputs, helloResponses]
  · decide +kernel
  · decide +kernel
  · decide +kernel

/-- What is shown of the session in which a user said hello. -/
theorem snapshot_shows_hello :
    ∃ k snapshot,
      (usual { appName := "app" } helloUser).snapshot true {} helloRequest = .ok snapshot ∧
      let replies := Run.firstReplies (Run.scripted helloScript) k
      let uses := (helloRun.history replies).filterMap (Recorder.Use.ofDeed? snapshot.key id)
      let r := ({ store := {}, options := {} } : Recorder MemoryStore).after uses
      (helloRun.after replies).stage = .closed ∧
      snapshot.shown (Snapshot.watched (r.events snapshot.key none).1 1 2 3)
        = [Event.runStarted "thread" "run",
          Body.messagesSnapshot [{ hello with name := some "user" },
            Replay.spoken "app" "r-1" "Hi!", Replay.spoken "app" "r-2" "How are you?"],
          Event.runFinished "thread" "run"] := by
  have hanswers : Answers [("r-1", "Hi!"), ("r-2", "How are you?")] helloResponses :=
    .cons (.finished ["", "Hi"] "!" "stop" none rfl (by decide)) (.cons .whole .nil)
  have houtputs : Plays helloResponses helloOutputs := .inr ⟨rfl, by decide⟩
  have hcontent : ∀ c ∈ hello.content, c.Sorted ∧ c.integral = true := by
    rintro c ⟨rfl⟩
    exact ⟨trivial, rfl⟩
  have hname : helloUser {} helloRequest = .ok "user" := rfl
  have hturn : Turn.ofMessages "f" helloRequest.messages
      = .ok ⟨.user "hello", "m-1", .user hello⟩ := rfl
  obtain ⟨plan, snapshot, hplan, hsnapshot, hshows⟩ := snapshot_shows { appName := "app" }
    (by decide) helloUser (by decide) rfl (by decide) hname hname hturn rfl hcontent (by decide)
    (by decide) (by decide) hanswers houtputs
  obtain rfl : usualPlan helloRequest "user" ⟨.user "hello", "m-1", .user hello⟩ = plan :=
    Except.ok.inj hplan
  obtain ⟨k, hk⟩ := hshows _ hello_performs
  obtain ⟨hclosed, hshown⟩ := hk k le_rfl
  let r : Recorder MemoryStore := { store := {}, options := {} }
  have hsound : r.Sound := fun _ _ => rfl
  refine ⟨k, snapshot, hsnapshot, hclosed, ?_⟩
  exact (hshown r _ hsound rfl rfl (Recorder.calls_of_deeds snapshot.key id _) 1 2 3).1

end Runner

end AgentStream
