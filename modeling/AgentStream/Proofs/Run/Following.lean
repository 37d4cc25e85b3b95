/-
# Where a snapshot stands in its story

At every stage a snapshot has shown a part of its story, and the stage holds what comes next.

* `Snapshot.Stands` : what a snapshot has shown at a stage, and how far it has read the log;
* `Snapshot.Stands.told` : it is a part of the story, or one failure was shown behind a part;
* `Snapshot.Stands.pass` : entries that were read are passed on;
* `Snapshot.Stands.step` : a snapshot goes on from there, whatever it is replied.
-/
import AgentStream.Proofs.Run.Shown
import AgentStream.Proofs.Run.Story

namespace AgentStream

namespace Snapshot

/-! ## What a snapshot waits for -/

section

variable {s : Snapshot}

theorem offering_of_want {e : Event} (h : s.want = .offer e) :
    ∃ next, s.stage = .offering e next := by
  cases hs : s.stage <;> rw [want, hs] at h <;> cases h
  exact ⟨_, rfl⟩

theorem waiting_of_want {deadline : Option Nat} {next : Nat} (h : s.want = .time deadline next) :
    ∃ f, s.stage = .waiting f := by
  cases hs : s.stage <;> rw [want, hs] at h <;> cases h
  exact ⟨_, rfl⟩

theorem closed_of_want (h : s.want = .nothing) : s.stage = .closed := by
  unfold want at h
  split at h
  all_goals first | assumption | cases h

end

/-! ## Replies that end a snapshot -/

/-- The snapshot is cut off: its client has gone, or its scope is done. -/
def CutsOff (s : Snapshot) (reply : SnapshotReply) : Prop :=
  (reply = .refused ∧ ∃ e, s.want = .offer e) ∨
    (reply = .done ∧ ∃ deadline next, s.want = .time deadline next)

/-- The snapshot has followed its log for as long as it may. -/
def Expires (s : Snapshot) (reply : SnapshotReply) : Prop :=
  reply = .expired ∧ ∃ deadline next, s.want = .time deadline next

/-- The failure that ends a snapshot whose time has expired. -/
def timeoutFailure (s : Snapshot) : Event :=
  .runError "messages snapshot follow timeout" (some s.request.runId)

/-- The part of a log that was added to its beginning. -/
def added (log seen : List Entry) : List Entry := seen.drop log.length

/-- What a snapshot has shown of a log at a stage, where it has seen the log again later.  It may
have been cut off, and its time may have expired. -/
inductive Stands (s : Snapshot) (cut expired : Prop) (log seen : List Entry) :
    List Event → SnapshotStage → Prop
  | showing (unread : seen = log) :
      Stands s cut expired log seen [.runStarted s.request.threadId s.request.runId]
        (.offering (Body.messagesSnapshot (replay s.config.appName s.userId log).messages)
          (.shown (replay s.config.appName s.userId log).error log))
  | waiting {f : Follow} (follows : s.Follows log) (cursor : f.cursor = cursorOf seen)
      (endless : Endless (added log seen)) :
      Stands s cut expired log seen (s.story log (added log seen)) (.waiting f)
  | looking {f : Follow} (follows : s.Follows log) (cursor : f.cursor = cursorOf seen)
      (endless : Endless (added log seen)) :
      Stands s cut expired log seen (s.story log (added log seen)) (.looking f)
  /-- An event of what was read is offered, and what is behind it is still to be passed on. -/
  | passing {done rest : List Entry} {f : Follow} {shown : List Event} {e : Event}
      (follows : s.Follows log) (split : seen = done ++ rest) (ahead : log <+: done)
      (cursor : f.cursor = cursorOf done) (endless : Endless (added log done))
      (told : shown ++ [e] = s.story log (added log done)) :
      Stands s cut expired log seen shown (.offering e (.passed f rest))
  | ending {shown : List Event} {e : Event} (final : s.Final log (added log seen))
      (told : shown ++ [e] = s.story log (added log seen)) :
      Stands s cut expired log seen shown (lastly e)
  | ended (final : s.Final log (added log seen)) :
      Stands s cut expired log seen (s.story log (added log seen)) .closed
  | expiring {shown : List Event} (late : expired)
      (told : shown <+: s.story log (added log seen)) :
      Stands s cut expired log seen shown (lastly s.timeoutFailure)
  | expired {shown : List Event} (late : expired)
      (told : shown <+: s.story log (added log seen)) :
      Stands s cut expired log seen (shown ++ [s.timeoutFailure]) .closed
  | cutOff {shown : List Event} (off : cut) (told : shown <+: s.story log (added log seen)) :
      Stands s cut expired log seen shown .closed

variable {s : Snapshot} {cut expired cut' expired' : Prop} {log seen now : List Entry}
  {shown : List Event} {stage : SnapshotStage} {reply : SnapshotReply}

/-! ## Parts of the story -/

/-- What was added to a log, and then to that. -/
theorem added_append (h : log <+: seen) (more : List Entry) :
    added log (seen ++ more) = added log seen ++ more :=
  List.drop_append_of_le_length h.length_le

/-- What is shown is a part of the story, or one failure was shown behind a part because the time
has expired. -/
theorem Stands.told (h : Stands s cut expired log seen shown stage) :
    shown <+: s.story log (added log seen) ∨
      (expired ∧ ∃ part, part <+: s.story log (added log seen) ∧
        shown = part ++ [s.timeoutFailure]) := by
  cases h with
  | showing =>
    left
    rw [story, opening]
    exact ⟨_, rfl⟩
  | waiting => exact .inl List.prefix_rfl
  | looking => exact .inl List.prefix_rfl
  | @passing done rest f shown e follows split ahead cursor endless told =>
    left
    rw [split, added_append ahead]
    have hpart : shown <+: s.story log (added log done) := ⟨[e], told⟩
    exact hpart.trans (s.story_isPrefix log _ rest)
  | ending final told => exact .inl ⟨_, told⟩
  | ended => exact .inl List.prefix_rfl
  | expiring late told => exact .inl told
  | expired late told => exact .inr ⟨late, _, told, rfl⟩
  | cutOff off told => exact .inl told

/-- A snapshot that is over and was not cut off has told its whole story, or one failure behind a
part of it because the time has expired. -/
theorem Stands.closed (h : Stands s cut expired log seen shown .closed) (hc : ¬cut) :
    (s.Final log (added log seen) ∧ shown = s.story log (added log seen)) ∨
      (expired ∧ ∃ part, part <+: s.story log (added log seen) ∧
        shown = part ++ [s.timeoutFailure]) := by
  generalize hs : SnapshotStage.closed = stage at h
  cases h with
  | ended final => exact .inl ⟨final, rfl⟩
  | expired late told => exact .inr ⟨late, _, told, rfl⟩
  | cutOff off => exact absurd off hc
  | _ => cases hs

theorem Stands.mono (h : Stands s cut expired log seen shown stage) (hc : cut → cut')
    (he : expired → expired') : Stands s cut' expired' log seen shown stage := by
  cases h with
  | showing unread => exact .showing unread
  | waiting follows cursor endless => exact .waiting follows cursor endless
  | looking follows cursor endless => exact .looking follows cursor endless
  | passing follows split ahead cursor endless told =>
    exact .passing follows split ahead cursor endless told
  | ending final told => exact .ending final told
  | ended final => exact .ended final
  | expiring late told => exact .expiring (he late) told
  | expired late told => exact .expired (he late) told
  | cutOff off told => exact .cutOff (hc off) told

/-! ## Passing on -/

/-- What is passed on does not depend on the stage. -/
theorem passing_stage (s : Snapshot) (stage : SnapshotStage) (f : Follow) (rest : List Entry) :
    ({ s with stage } : Snapshot).passing f rest = s.passing f rest := by
  induction rest generalizing f with
  | nil => rfl
  | cons entry rest ih =>
    rw [Snapshot.passing, Snapshot.passing]
    simp only [ih]
    rfl

/-- Entries that were read are passed on. -/
theorem Stands.pass {done rest : List Entry} {f : Follow} (follows : s.Follows log)
    (ahead : log <+: done) (cursor : f.cursor = cursorOf done)
    (endless : Endless (added log done)) (hr : Rising (done ++ rest)) :
    Stands s cut expired log (done ++ rest) (s.story log (added log done))
      (s.passing f rest) := by
  have hadded := added_append ahead rest
  rcases passing_cases (s := s) hr cursor with ⟨hendless, hnone, f', hf', hwaits⟩
    | ⟨front, behind, e, f', rfl, hendless, hfront, hf', hoffers⟩ | ⟨e, hends, hlast, htells⟩
  · have hstory : s.story log (added log (done ++ rest)) = s.story log (added log done) := by
      rw [follows.story, follows.story, hadded, passed_append endless, hnone, List.append_nil]
    rw [hwaits, ← hstory]
    exact .waiting follows hf' (hadded ▸ endless.append hendless)
  · rw [hoffers]
    have hfrontAdded := added_append ahead front
    refine .passing follows (List.append_assoc done front behind).symm
      (ahead.trans (List.prefix_append done front)) hf' (hfrontAdded ▸ endless.append hendless) ?_
    rw [follows.story, follows.story, hfrontAdded, passed_append endless, hfront,
      List.append_assoc]
  · rw [htells]
    refine .ending (fun _ hall => hends fun entry h => ?_) ?_
    · exact hall entry (hadded ▸ List.mem_append_right _ h)
    · rw [follows.story, follows.story, hadded, passed_append endless, hlast, List.append_assoc]

/-! ## Once the messages were shown -/

/-- A log that is followed is waited for, from its end on. -/
theorem afterMessages_follows (h : s.Follows log) (moment : Nat) :
    ∃ f, f.cursor = cursorOf log ∧ s.afterMessages moment
      (replay s.config.appName s.userId log).error log = .waiting f := by
  obtain ⟨interval, hi⟩ := Option.isSome_iff_exists.1 h.interval
  have hfollow : (s.config.followEnabled && !endsRun log) = true := by
    rw [h.enabled, h.unended]
    rfl
  rw [h.replayed, afterMessages]
  simp only [hfollow, if_true, follow?, hi, Option.map_some]
  exact ⟨_, rfl, rfl⟩

/-- Of a log that is not followed one more event is told. -/
theorem afterMessages_not_follows (h : ¬s.Follows log) (moment : Nat) (later : List Entry) :
    ∃ e, s.story log later = s.opening log ++ [e] ∧ s.afterMessages moment
      (replay s.config.appName s.userId log).error log = lastly e := by
  rw [story]
  cases hr : (replay s.config.appName s.userId log).error with
  | some error => exact ⟨_, rfl, rfl⟩
  | none =>
    simp only [afterMessages]
    by_cases hf : s.config.followEnabled = true ∧ endsRun log = false
    · cases hi : s.config.flushInterval with
      | some interval => exact absurd ⟨hr, hf.1, hf.2, by rw [hi]; rfl⟩ h
      | none =>
        simp only [hf, follow?, hi, and_self, Bool.not_false, if_true]
        exact ⟨_, rfl, rfl⟩
    · refine ⟨s.closing, by simp only [hf, if_false], ?_⟩
      have hends : (s.config.followEnabled && !endsRun log) = false := by
        simpa [imp_iff_not_or, or_comm] using hf
      simp only [hends, Bool.false_eq_true, if_false]

/-- Once the messages were shown a log is followed, or its story ends. -/
theorem Stands.begin (s : Snapshot) (log : List Entry) (moment : Nat) :
    Stands s cut expired log log (s.opening log) (s.afterMessages moment
      (replay s.config.appName s.userId log).error log) := by
  have hadded : added log log = [] := List.drop_length
  by_cases h : s.Follows log
  · obtain ⟨f, hf, hwaits⟩ := afterMessages_follows h moment
    have hstory : s.story log (added log log) = s.opening log := by
      rw [h.story, hadded]
      exact List.append_nil _
    rw [hwaits, ← hstory]
    refine .waiting h hf ?_
    rw [hadded]
    exact nofun
  · obtain ⟨e, hstory, hlast⟩ := afterMessages_not_follows h moment (added log log)
    rw [hlast]
    exact .ending (fun hf => absurd hf h) hstory.symm

/-! ## Steps -/

/-- What a snapshot asks of its log is replied with what the log holds then. -/
def Reads (s : Snapshot) (now : List Entry) (reply : SnapshotReply) : Prop :=
  ∀ after result, s.want = .entries after → reply = .log result →
    result = .ok (now.filter fun e => after.all (decide <| · < e.timestamp))

/-- A beginning of a log rises as well. -/
theorem Rising.isPrefix (h : Rising now) (hp : seen <+: now) : Rising seen where
  order := h.order.sublist hp.sublist
  positive e he := h.positive e (hp.subset he)

/-- Of an offered event a snapshot is told that it was taken, or refused, or nothing. -/
theorem offering_cases (s : Snapshot) (e : Event) (next : SnapshotNext) (reply : SnapshotReply) :
    (∃ moment, reply = .taken moment) ∨
    (reply = .refused ∧ ({ s with stage := .offering e next } : Snapshot).taken reply = [] ∧
      (({ s with stage := .offering e next } : Snapshot).step reply).stage = .closed) ∨
    (({ s with stage := .offering e next } : Snapshot).taken reply = [] ∧
      (({ s with stage := .offering e next } : Snapshot).step reply).stage = .offering e next) := by
  cases reply with
  | taken moment => exact .inl ⟨moment, rfl⟩
  | refused => exact .inr (.inl ⟨rfl, rfl, by cases next <;> rfl⟩)
  | log result => exact .inr (.inr ⟨rfl, by cases next <;> rfl⟩)
  | expired => exact .inr (.inr ⟨rfl, by cases next <;> rfl⟩)
  | ticked => exact .inr (.inr ⟨rfl, by cases next <;> rfl⟩)
  | done => exact .inr (.inr ⟨rfl, by cases next <;> rfl⟩)

/-- What was shown before an event is offered is a part of the story. -/
theorem Stands.part {e : Event} {next : SnapshotNext}
    (h : Stands s cut expired log seen shown (.offering e next)) :
    shown <+: s.story log (added log seen) := by
  generalize hs : SnapshotStage.offering e next = stage at h
  cases h with
  | showing =>
    rw [story, opening]
    exact ⟨_, rfl⟩
  | @passing done rest f shown e follows split ahead cursor endless told =>
    have hpart : shown <+: s.story log (added log done) := ⟨[e], told⟩
    rw [split, added_append ahead]
    exact hpart.trans (s.story_isPrefix log _ rest)
  | ending final told => exact ⟨_, told⟩
  | expiring late told => exact told
  | _ => cases hs

/-- Once an offered event is taken, what comes next stands in the story. -/
theorem Stands.take {e : Event} {next : SnapshotNext}
    (h : Stands s cut expired log seen shown (.offering e next)) (hr : Rising seen)
    (moment : Nat) :
    Stands s cut expired log seen (shown ++ [e])
      (({ s with stage := .offering e next } : Snapshot).step (.taken moment)).stage := by
  generalize hs : SnapshotStage.offering e next = stage at h
  cases h with
  | showing unread =>
    cases hs
    rw [unread]
    exact Stands.begin s log moment
  | passing follows split ahead cursor endless told =>
    cases hs
    rw [split] at hr
    rw [told, split]
    show Stands s cut expired log _ _ (({ s with stage := _ } : Snapshot).passing _ _)
    rw [passing_stage]
    exact .pass follows ahead cursor endless hr
  | ending final told =>
    cases hs
    rw [told]
    exact .ended final
  | expiring late told =>
    cases hs
    exact .expired late told
  | _ => cases hs

/-- A snapshot that offers an event goes on, whatever it is replied. -/
theorem Stands.step_offering {e : Event} {next : SnapshotNext}
    (h : Stands s cut expired log seen shown (.offering e next)) (hr : Rising seen) :
    let current : Snapshot := { s with stage := .offering e next }
    Stands s (cut ∨ current.CutsOff reply) (expired ∨ current.Expires reply) log seen
      (shown ++ current.taken reply) (current.step reply).stage := by
  intro current
  rcases s.offering_cases e next reply with ⟨moment, rfl⟩ | ⟨rfl, htaken, hstep⟩ | ⟨htaken, hstep⟩
  · exact (h.take hr moment).mono .inl .inl
  · rw [htaken, hstep, List.append_nil]
    exact .cutOff (.inr (.inl ⟨rfl, e, rfl⟩)) h.part
  · rw [htaken, hstep, List.append_nil]
    exact h.mono .inl .inl

/-- Nothing is taken where nothing is offered. -/
theorem taken_eq_nil (h : ∀ e, s.want ≠ .offer e) : s.taken reply = [] := by
  cases reply with
  | taken moment =>
    cases hs : s.stage with
    | offering e next => exact absurd (show s.want = .offer e by rw [want, hs]) (h e)
    | _ => rw [taken, hs]
  | _ => rfl

/-- A snapshot that waits goes on, whatever it is replied. -/
theorem Stands.step_waiting {f : Follow} (follows : s.Follows log)
    (cursor : f.cursor = cursorOf seen) (endless : Endless (added log seen)) :
    let current : Snapshot := { s with stage := .waiting f }
    Stands s (cut ∨ current.CutsOff reply) (expired ∨ current.Expires reply) log seen
      (s.story log (added log seen)) (current.step reply).stage := by
  intro current
  cases reply with
  | done => exact .cutOff (.inr (.inr ⟨rfl, f.deadline, f.next, rfl⟩)) List.prefix_rfl
  | expired => exact .expiring (.inr ⟨rfl, f.deadline, f.next, rfl⟩) List.prefix_rfl
  | ticked => exact .looking follows cursor endless
  | _ => exact .waiting follows cursor endless

/-- A snapshot that looks at its log passes on what was added. -/
theorem Stands.look {f : Follow} (follows : s.Follows log) (cursor : f.cursor = cursorOf seen)
    (endless : Endless (added log seen)) (ahead : log <+: seen) (hseen : seen <+: now)
    (hr : Rising now) {result : Except RecordError (List Entry)}
    (hreads : ({ s with stage := .looking f } : Snapshot).Reads now (.log result)) :
    Stands s cut expired log now (s.story log (added log seen))
      (({ s with stage := .looking f } : Snapshot).step (.log result)).stage := by
  obtain rfl := hreads (some f.cursor) result rfl rfl
  obtain ⟨rest, rfl⟩ := hseen
  show Stands s cut expired log _ _ (({ s with stage := .looking f } : Snapshot).passing f
    ((seen ++ rest).filter fun e => decide (f.cursor < e.timestamp)))
  rw [passing_stage, cursor, filter_cursorOf hr]
  exact .pass follows ahead cursor endless hr

/-- **A snapshot goes on from where it stands**, whatever it is replied.  It may have read the log
once more. -/
theorem Stands.step (h : Stands s cut expired log seen shown stage) (ahead : log <+: seen)
    (hseen : seen <+: now) (hr : Rising now)
    (hreads : ({ s with stage } : Snapshot).Reads now reply) :
    let current : Snapshot := { s with stage }
    ∃ seen', (seen' = seen ∨ seen' = now) ∧
      Stands s (cut ∨ current.CutsOff reply) (expired ∨ current.Expires reply) log seen'
        (shown ++ current.taken reply) (current.step reply).stage := by
  intro current
  by_cases hoffer : ∃ e, current.want = .offer e
  · refine ⟨seen, .inl rfl, ?_⟩
    cases stage with
    | offering e next => exact h.step_offering (hr.isPrefix hseen)
    | _ => exact hoffer.elim nofun
  · rw [taken_eq_nil fun e he => hoffer ⟨e, he⟩, List.append_nil]
    cases h with
    | waiting follows cursor endless =>
      exact ⟨seen, .inl rfl, Stands.step_waiting follows cursor endless⟩
    | looking follows cursor endless =>
      cases reply with
      | log result =>
        exact ⟨now, .inr rfl, .look follows cursor endless ahead hseen hr hreads⟩
      | _ => exact ⟨seen, .inl rfl, .looking follows cursor endless⟩
    | ended final =>
      exact ⟨seen, .inl rfl, by cases reply <;> exact .ended final⟩
    | expired late told =>
      exact ⟨seen, .inl rfl, by cases reply <;> exact .expired (.inl late) told⟩
    | cutOff off told =>
      exact ⟨seen, .inl rfl, by cases reply <;> exact .cutOff (.inl off) told⟩
    | _ => exact absurd ⟨_, rfl⟩ hoffer

end Snapshot

end AgentStream
