/-
# Snapshots on a host

A host replies to a snapshot with what is in the log, puts what it offers into its stream, and
appends nothing.  So the stream tells the log that was read and then what is added to it, each
entry once.

* `Host.SnapshotTurn`, `Host.snapshotTurn_spec` : what a turn of a snapshot does;
* `Snapshot.covers_log` : what a snapshot tells of a log that grows.
-/
import AgentStream.Host.Queue
import AgentStream.Proofs.Log.Faithful
import AgentStream.Proofs.Run.Watching
import Mathlib.Data.List.GetD

namespace AgentStream

/-! ## Turns of snapshots -/

namespace Host

variable {τ σ : Type} {log : σ → SessionKey → List Entry}

/-- The log of a session on a host. -/
def logOf (log : σ → SessionKey → List Entry) (h : Host τ σ) (key : SessionKey) : List Entry :=
  (h.recorder.map fun r => log r.store key).getD []

/-- A host replies to a snapshot. -/
structure Replies (log : σ → SessionKey → List Entry) (h : Host τ σ) (s : Snapshot)
    (scope : Scope) (stream : Nat) (reply : SnapshotReply) (h' : Host τ σ) : Prop where
  /-- What is asked of the log is what it holds. -/
  reads : s.Reads (h.logOf log s.key) reply
  /-- What is taken is put into the stream. -/
  puts : h'.streams = ((s.taken reply).foldl (fun h e => h.put stream e) h).streams
  cutsOff : s.CutsOff reply → h.isDone scope = true ∨ (h.stream stream).reading = false
  expires : s.Expires reply → ∃ deadline next, s.want = .time (some deadline) next ∧
    deadline ≤ h.now
  /-- Nothing is appended to any log. -/
  keeps : h'.logOf log = h.logOf log

/-- What a turn of a snapshot does: it is over and closes its stream, or has to wait, or is replied
to. -/
inductive SnapshotTurn (log : σ → SessionKey → List Entry) (h : Host τ σ) (s : Snapshot)
    (scope : Scope) (stream : Nat) : Progress τ σ → Prop
  | over (closed : s.stage = .closed) (keeps : (h.closeStream stream).logOf log = h.logOf log) :
      SnapshotTurn log h s scope stream (.over (h.closeStream stream))
  | blocked (w : Wait) : SnapshotTurn log h s scope stream (.blocked w (.snapshot s scope stream) h)
  | replied {reply : SnapshotReply} {h' : Host τ σ}
      (replies : h.Replies log s scope stream reply h') :
      SnapshotTurn log h s scope stream (.more (.snapshot (s.step reply) scope stream) h')

variable {h h' : Host τ σ} {s : Snapshot} {scope : Scope} {stream : Nat}

/-- An event is refused because the scope is done or the client has gone. -/
theorem of_refused (hd : h.delivery scope stream = .refused) :
    h.isDone scope = true ∨ (h.stream stream).reading = false := by
  unfold delivery at hd
  split at hd
  · rename_i hor
    rwa [Bool.or_eq_true, Bool.not_eq_true'] at hor
  · split at hd <;> cases hd

/-- A reply that reads nothing and takes nothing changes nothing on the host. -/
theorem replies_same {reply : SnapshotReply} (hreads : ∀ result, reply ≠ .log result)
    (htaken : s.taken reply = [])
    (hcut : s.CutsOff reply → h.isDone scope = true ∨ (h.stream stream).reading = false)
    (hexpires : s.Expires reply → ∃ deadline next, s.want = .time (some deadline) next ∧
      deadline ≤ h.now) : h.Replies log s scope stream reply h where
  reads _ result _ hreply := absurd hreply (hreads result)
  puts := by
    rw [htaken]
    rfl
  cutsOff := hcut
  expires := hexpires
  keeps := rfl

section

variable [LogStore σ]

/-- Reading the log of a session changes no log. -/
theorem log_events (hs : LogStore.Shows log) (r : Recorder σ) (key : SessionKey)
    (after : Option Nat) : log (r.events key after).2.store = log r.store := by
  unfold Recorder.events
  split
  · rfl
  · exact hs.list_state r.store key after

/-- A turn of a snapshot that asks for the log replies with what is in it. -/
theorem replies_log (hs : LogStore.Shows log) (hn : LogStore.NeverFails σ)
    (hkey : s.key.isValid = true) {after : Option Nat} (hw : s.want = .entries after)
    {r : Recorder σ} (hr : h.recorder = some r) :
    h.Replies log s scope stream (.log (h.entries r s.key after).1)
      (h.entries r s.key after).2 where
  reads after' result hwant hreply := by
    rw [hw] at hwant
    cases hwant
    cases hreply
    rw [logOf, hr]
    exact Recorder.events_after hs hn hkey r after
  puts := rfl
  cutsOff hcut := by
    rcases hcut with ⟨hreply, -⟩ | ⟨hreply, -⟩ <;> cases hreply
  expires hexpires := by
    cases hexpires.1
  keeps := by
    funext key
    rw [logOf, logOf, hr]
    exact congrFun (log_events hs r s.key after) key

end

/-- Without a recorder there is nothing in the log. -/
theorem replies_nothing (hr : h.recorder = none) :
    h.Replies log s scope stream (.log (.ok [])) h where
  reads after' result _ hreply := by
    cases hreply
    rw [logOf, hr]
    rfl
  puts := rfl
  cutsOff hcut := by
    rcases hcut with ⟨hreply, -⟩ | ⟨hreply, -⟩ <;> cases hreply
  expires hexpires := by
    cases hexpires.1
  keeps := rfl

/-- An event that is taken is put into the stream. -/
theorem replies_taken {e : Event} (hw : s.want = .offer e) :
    h.Replies log s scope stream (.taken h.now) (h.put stream e) where
  reads _ _ _ hreply := by
    cases hreply
  puts := by
    obtain ⟨next, hs⟩ := Snapshot.offering_of_want hw
    rw [Snapshot.taken, hs]
    rfl
  cutsOff hcut := by
    rcases hcut with ⟨hreply, -⟩ | ⟨hreply, -⟩ <;> cases hreply
  expires hexpires := by
    cases hexpires.1
  keeps := rfl

/-- **A turn of a snapshot** replies with what is in the log, and appends nothing to it. -/
theorem snapshotTurn_spec [LogStore σ] (hs : LogStore.Shows log) (hn : LogStore.NeverFails σ)
    (h : Host τ σ) (job : Nat) {s : Snapshot} (hkey : s.key.isValid = true) (scope : Scope)
    (stream : Nat) :
    h.SnapshotTurn log s scope stream (h.snapshotTurn job s scope stream) := by
  unfold snapshotTurn
  cases hw : s.want with
  | nothing => exact .over (Snapshot.closed_of_want hw) rfl
  | offer e =>
    cases hd : h.delivery scope stream with
    | taken => exact .replied (replies_taken hw)
    | refused =>
      refine .replied (replies_same nofun rfl (fun _ => of_refused hd) fun hexpires => ?_)
      cases hexpires.1
    | full => exact .blocked _
  | entries after =>
    cases hr : h.recorder with
    | some r => exact .replied (replies_log hs hn hkey hw hr)
    | none => exact .replied (replies_nothing hr)
  | time deadline next =>
    simp only
    split
    · rename_i hdone
      refine .replied (replies_same nofun rfl (fun _ => .inl hdone) fun hexpires => ?_)
      cases hexpires.1
    · split
      · rename_i hlate
        refine .replied (replies_same nofun rfl (fun hcut => ?_) fun _ => ?_)
        · rcases hcut with ⟨hreply, -⟩ | ⟨hreply, -⟩ <;> cases hreply
        · obtain ⟨time, rfl, htime⟩ := (Option.any_eq_true _ _).1 hlate
          exact ⟨time, next, hw, of_decide_eq_true htime⟩
      · split
        · refine .replied (replies_same nofun rfl (fun hcut => ?_) fun hexpires => ?_)
          · rcases hcut with ⟨hreply, -⟩ | ⟨hreply, -⟩ <;> cases hreply
          · cases hexpires.1
        · exact .blocked _

end Host

/-! ## Snapshots of logs that grow -/

namespace Snapshot

variable {τ σ : Type} [LogStore σ] {log : σ → SessionKey → List Entry}

/-- **A snapshot covers its log exactly once.**  However its log grows between the replies to it, it
shows its start, and from the reading of the log on it tells the story of what was read and of what
was added: the messages, and then what is added, each entry once and in order, up to the end of a
run.  If it is cut off it has told a part of the story, and if its time has expired one failure
behind a part; if it is attended to it tells everything that is ever added, up to the end of the
story, and then it is over.  On a host it reads what is in the log, and no turn of it appends
anything. -/
theorem covers_log (hs : LogStore.Shows log) (hn : LogStore.NeverFails σ) (config : Config)
    (request : Request) (user : String) :
    let s := ofRequest config request user
    (∀ logs replies, s.Watching logs replies →
      (∀ n, (∀ m < n, ¬s.ReadsFirst replies m) →
        s.told replies n <+: [.runStarted request.threadId request.runId] ∧
        ((s.past replies n).stage = .closed → s.WasCut replies n)) ∧
      (∀ m n, s.ReadsFirst replies m → m < n →
        let whole := s.story (logs m) (added (logs m) (logs n))
        let late := s.WasLate replies n ∧
          ∃ part, part <+: whole ∧ s.told replies n = part ++ [s.timeoutFailure]
        (s.told replies n <+: whole ∨ late) ∧
        ((s.past replies n).stage = .closed → ¬s.WasCut replies n →
          (s.Final (logs m) (added (logs m) (logs n)) ∧ s.told replies n = whole) ∨ late)) ∧
      (s.Attended replies → ∃ m, s.ReadsFirst replies m ∧
        (∀ n, (s.past replies n).Expires (replies n) →
          s.told replies (n + 2) = s.told replies n ++ [s.timeoutFailure] ∧
          (s.past replies (n + 2)).stage = .closed) ∧
        ((∀ n, ¬s.WasLate replies n) → ∀ k, ∃ n,
          s.story (logs m) (added (logs m) (logs k)) <+: s.told replies n ∧
          (s.Final (logs m) (added (logs m) (logs k)) →
            (s.past replies n).stage = .closed)))) ∧
    ∀ (h : Host τ σ) job s' scope stream, s'.key.isValid = true →
      h.SnapshotTurn log s' scope stream (h.snapshotTurn job s' scope stream) := by
  intro s
  refine ⟨fun logs replies hw => ⟨fun n hunread => ?_, fun m n hread hmn => ?_, fun ha => ?_⟩,
    fun h job s' scope stream hkey => Host.snapshotTurn_spec hs hn h job hkey scope stream⟩
  · rcases hw.course n with ⟨-, hbegins⟩ | ⟨m, hm, hread, -⟩
    · exact hbegins.told
    · exact absurd hread (hunread m hm)
  · intro whole late
    obtain ⟨seen, hahead, hseen, hstands⟩ := hw.stands hread hmn
    have hmore := story_mono hseen s (logs m)
    -- What is told of what was seen is told of the whole log.
    have hlate : (s.WasLate replies n ∧ ∃ part, part <+: s.story (logs m) (added (logs m) seen) ∧
        s.told replies n = part ++ [s.timeoutFailure]) → late := by
      rintro ⟨hlate, part, hpart, htold⟩
      exact ⟨hlate, part, hpart.trans hmore, htold⟩
    refine ⟨hstands.told.imp (·.trans hmore) hlate, fun hclosed hcut => ?_⟩
    rw [hclosed] at hstands
    refine (hstands.closed hcut).imp (fun ⟨hfinal, htold⟩ => ?_) hlate
    obtain ⟨hends, hsame⟩ := hfinal.mono hseen
    exact ⟨hends, htold.trans hsame.symm⟩
  · obtain ⟨m, hread⟩ := ha.reads
    exact ⟨m, hread, fun n he => ha.expires he, fun hl k => ha.tells hw hl hread k⟩

/-! ## A run that ends while it is followed -/

/-- A snapshot that looks at its log every ten milliseconds. -/
def polling : Snapshot :=
  .ofRequest { appName := "app", followEnabled := true, flushIntervalMs := 10 }
    { threadId := "thread", runId := "run" } "user"

/-- The log of a run that has started. -/
def startedLog : List Entry := [.ofEvent 1 (Event.runStarted "thread" "first")]

/-- The log of the run once it has ended; one entry cannot be read. -/
def endedLog : List Entry :=
  startedLog ++ [.ofEvent 2 (Body.stepStarted "think"), ⟨3, []⟩,
    .ofEvent 5 (Event.runFinished "thread" "first")]

/-- The run ends before the snapshot looks at the log again. -/
def pollingLogs (n : Nat) : List Entry := if n < 4 then startedLog else endedLog

/-- What is replied to the snapshot. -/
def pollingReplies (n : Nat) : SnapshotReply :=
  [.taken 0, .log (.ok startedLog), .taken 0, .ticked, .log (.ok (endedLog.drop 1)), .taken 20,
    .taken 20].getD n .done

theorem rising_endedLog : Rising endedLog := ⟨by decide, by decide⟩

/-- What the snapshot waits for, before each reply. -/
def pollingWants : List SnapshotWant :=
  [.offer (Event.runStarted "thread" "run"), .entries none, .offer (Body.messagesSnapshot []),
    .time none 10, .entries (some 1), .offer (Body.stepStarted "think"),
    .offer (Event.runFinished "thread" "run")]

theorem closed_polling : (polling.past pollingReplies 7).stage = .closed := by decide +kernel

theorem want_polling (n : Nat) :
    (polling.past pollingReplies n).want = pollingWants.getD n .nothing := by
  by_cases hn : n < 7
  · have hwants : ∀ n < 7, (polling.past pollingReplies n).want = pollingWants.getD n .nothing := by
      decide +kernel
    exact hwants n hn
  · have hlate : 7 ≤ n := Nat.not_lt.1 hn
    rw [want, past_closed closed_polling hlate, List.getD_eq_default _ _ hlate]

theorem watching_polling : polling.Watching pollingLogs pollingReplies where
  rising n := by
    rw [pollingLogs]
    split
    · exact rising_endedLog.isPrefix ⟨_, rfl⟩
    · exact rising_endedLog
  grows n := by
    rw [pollingLogs, pollingLogs]
    split
    · split
      · exact List.prefix_rfl
      · exact ⟨_, rfl⟩
    · rename_i h
      rw [if_neg fun h' => h (Nat.lt_of_succ_lt h')]
  reads n after result hwant hreply := by
    rw [want_polling] at hwant
    rcases n with _ | _ | _ | _ | _ | _ | _ | n
    all_goals cases hreply
    -- The log is read at the times 1 and 4.
    · cases hwant
      rfl
    · cases hwant
      rfl

theorem attended_polling : polling.Attended pollingReplies where
  takes n e h := by
    rw [want_polling] at h
    rcases n with _ | _ | _ | _ | _ | _ | _ | n
    all_goals first | exact ⟨_, rfl⟩ | cases h
  answers n after h := by
    rw [want_polling] at h
    rcases n with _ | _ | _ | _ | _ | _ | _ | n
    all_goals first | exact ⟨_, rfl⟩ | cases h
  times n deadline next h := by
    rw [want_polling] at h
    rcases n with _ | _ | _ | _ | _ | _ | _ | n
    all_goals first | exact .inl rfl | cases h

/-- The snapshot tells the messages, what is added, and the end under its own names. -/
theorem covers_log_polling :
    polling.Attended pollingReplies ∧
    polling.told pollingReplies 7 = polling.story startedLog (added startedLog endedLog) ∧
    polling.told pollingReplies 7 = [Event.runStarted "thread" "run", Body.messagesSnapshot [],
      Body.stepStarted "think", Event.runFinished "thread" "run"] := by
  have hcovers := (@covers_log Framer _ _ _ MemoryStore.shows MemoryStore.neverFails polling.config
    polling.request polling.userId).1 pollingLogs pollingReplies watching_polling
  have hread : polling.ReadsFirst pollingReplies 1 := ⟨rfl, _, rfl⟩
  have hcut := attended_polling.not_wasCut 7
  refine ⟨attended_polling, ?_, by decide +kernel⟩
  have hends := (hcovers.2.1 1 7 hread (by decide)).2 closed_polling hcut
  rcases hends with ⟨-, htold⟩ | ⟨⟨k, hk, hlate⟩, -⟩
  · exact htold
  · rcases k with _ | _ | _ | _ | _ | _ | _ | k
    all_goals first | omega | cases hlate.1

end Snapshot

end AgentStream
