/-
# Snapshots of logs that grow

A snapshot is replied to again and again, while its log grows.  From the reading of the log on it
stands in the story of what was read and of what is added.

* `Snapshot.Watching` : a log that grows beside a snapshot, and is what the snapshot reads;
* `Snapshot.Course`, `Snapshot.Watching.course` : where a snapshot is at any time;
* `Snapshot.Attended.catchesUp` : a snapshot that is attended to tells all that is added.
-/
import AgentStream.Proofs.Run.Following
import Mathlib.Data.List.Infix

namespace AgentStream

namespace Snapshot

variable {s : Snapshot} {logs : Nat → List Entry} {replies : Nat → SnapshotReply} {m n : Nat}

/-! ## Sequences of replies -/

/-- A snapshot after the first replies of a sequence. -/
def past (s : Snapshot) (replies : Nat → SnapshotReply) (n : Nat) : Snapshot :=
  s.after ((List.range n).map replies)

/-- What a client has taken by then. -/
def told (s : Snapshot) (replies : Nat → SnapshotReply) (n : Nat) : List Event :=
  s.shown ((List.range n).map replies)

theorem shown_append (s : Snapshot) (xs ys : List SnapshotReply) :
    s.shown (xs ++ ys) = s.shown xs ++ (s.after xs).shown ys := by
  induction xs generalizing s with
  | nil => rfl
  | cons reply xs ih =>
    rw [List.cons_append, shown, shown, ih, List.append_assoc]
    rfl

theorem past_succ (s : Snapshot) (replies : Nat → SnapshotReply) (n : Nat) :
    s.past replies (n + 1) = (s.past replies n).step (replies n) := by
  rw [past, List.range_succ, List.map_append, after, List.foldl_append]
  rfl

theorem told_succ (s : Snapshot) (replies : Nat → SnapshotReply) (n : Nat) :
    s.told replies (n + 1) = s.told replies n ++ (s.past replies n).taken (replies n) := by
  rw [told, List.range_succ, List.map_append, shown_append]
  exact congrArg (_ ++ ·) (List.append_nil _)

/-- A step changes nothing but the stage. -/
theorem step_eq (s : Snapshot) (reply : SnapshotReply) :
    s.step reply = { s with stage := (s.step reply).stage } := by
  unfold step
  split <;> rfl

/-- Steps change nothing but the stage. -/
theorem past_eq (s : Snapshot) (replies : Nat → SnapshotReply) (n : Nat) :
    s.past replies n = { s with stage := (s.past replies n).stage } := by
  induction n with
  | zero => rfl
  | succ n ih =>
    rw [past_succ, step_eq, ih]

/-- A snapshot that is over stays so. -/
theorem past_closed (hn : (s.past replies n).stage = .closed) (hnm : n ≤ m) :
    (s.past replies m).stage = .closed := by
  induction hnm with
  | refl => exact hn
  | @step k _ ih =>
    have hpast := s.past_eq replies k
    rw [ih] at hpast
    rw [past_succ, hpast]
    cases replies k <;> rfl

/-- A log that only grows, and whose timestamps rise, is what a snapshot reads. -/
structure Watching (s : Snapshot) (logs : Nat → List Entry) (replies : Nat → SnapshotReply) :
    Prop where
  rising : ∀ n, Rising (logs n)
  grows : ∀ n, logs n <+: logs (n + 1)
  reads : ∀ n, (s.past replies n).Reads (logs n) (replies n)

/-- A log that grows holds what it held. -/
theorem Watching.isPrefix (h : Watching s logs replies) (hmn : m ≤ n) : logs m <+: logs n := by
  induction hmn with
  | refl => exact List.prefix_rfl
  | step _ ih => exact ih.trans (h.grows _)

/-! ## Where a snapshot is -/

/-- The log is read for the first time. -/
def ReadsFirst (s : Snapshot) (replies : Nat → SnapshotReply) (n : Nat) : Prop :=
  (s.past replies n).want = .entries none ∧ ∃ result, replies n = .log result

/-- A snapshot was cut off by then. -/
def WasCut (s : Snapshot) (replies : Nat → SnapshotReply) (n : Nat) : Prop :=
  ∃ k < n, (s.past replies k).CutsOff (replies k)

/-- The time of a snapshot has expired by then. -/
def WasLate (s : Snapshot) (replies : Nat → SnapshotReply) (n : Nat) : Prop :=
  ∃ k < n, (s.past replies k).Expires (replies k)

/-- What a snapshot has shown at a stage before it has read its log. -/
inductive Begins (s : Snapshot) (cut : Prop) : List Event → SnapshotStage → Prop
  | starting :
      Begins s cut [] (.offering (.runStarted s.request.threadId s.request.runId) .opened)
  | reading : Begins s cut [.runStarted s.request.threadId s.request.runId] .reading
  | cutOff (off : cut) : Begins s cut [] .closed

/-- Where a snapshot is: it has not read its log yet, or it has done so once and stands in the
story. -/
def Course (s : Snapshot) (logs : Nat → List Entry) (replies : Nat → SnapshotReply) (n : Nat) :
    Prop :=
  ((∀ m < n, ¬s.ReadsFirst replies m) ∧
    Begins s (s.WasCut replies n) (s.told replies n) (s.past replies n).stage) ∨
  ∃ m < n, s.ReadsFirst replies m ∧ (∀ m' < n, s.ReadsFirst replies m' → m' = m) ∧
    ∃ seen, logs m <+: seen ∧ seen <+: logs n ∧
      Stands s (s.WasCut replies n) (s.WasLate replies n) (logs m) seen (s.told replies n)
        (s.past replies n).stage

theorem wasCut_succ (s : Snapshot) (replies : Nat → SnapshotReply) (n : Nat) :
    s.WasCut replies n ∨ (s.past replies n).CutsOff (replies n) ↔ s.WasCut replies (n + 1) :=
  Nat.exists_lt_succ_right.symm

theorem wasLate_succ (s : Snapshot) (replies : Nat → SnapshotReply) (n : Nat) :
    s.WasLate replies n ∨ (s.past replies n).Expires (replies n) ↔ s.WasLate replies (n + 1) :=
  Nat.exists_lt_succ_right.symm

/-- A snapshot that stands in a story does not read its log for the first time. -/
theorem Stands.want_ne {cut expired : Prop} {log seen : List Entry} {shown : List Event}
    {stage : SnapshotStage} (h : Stands s cut expired log seen shown stage) :
    ({ s with stage } : Snapshot).want ≠ .entries none := by
  cases h <;> nofun

/-- Before it has read its log a snapshot has shown its start at most. -/
theorem Begins.told {cut : Prop} {shown : List Event} {stage : SnapshotStage}
    (h : Begins s cut shown stage) :
    shown <+: [.runStarted s.request.threadId s.request.runId] ∧ (stage = .closed → cut) := by
  cases h with
  | starting => exact ⟨List.nil_prefix, nofun⟩
  | reading => exact ⟨List.prefix_rfl, nofun⟩
  | cutOff off => exact ⟨List.nil_prefix, fun _ => off⟩

/-- A snapshot that does not read its log yet goes on as it begins. -/
theorem Begins.step {cut : Prop} {shown : List Event} {stage : SnapshotStage}
    {reply : SnapshotReply} (h : Begins s cut shown stage) :
    let current : Snapshot := { s with stage }
    ¬(current.want = .entries none ∧ ∃ result, reply = .log result) →
      Begins s (cut ∨ current.CutsOff reply) (shown ++ current.taken reply)
        (current.step reply).stage := by
  intro current hread
  cases h with
  | starting =>
    rcases s.offering_cases (.runStarted s.request.threadId s.request.runId) .opened reply with
      ⟨moment, rfl⟩ | ⟨rfl, htaken, hstep⟩ | ⟨htaken, hstep⟩
    · exact .reading
    · rw [htaken, hstep]
      exact .cutOff (.inr (.inl ⟨rfl, _, rfl⟩))
    · rw [htaken, hstep]
      exact .starting
  | reading =>
    rw [show current.taken reply = [] from taken_eq_nil nofun, List.append_nil]
    cases reply with
    | log result => exact absurd ⟨rfl, result, rfl⟩ hread
    | _ => exact .reading
  | cutOff off =>
    rw [show current.taken reply = [] from taken_eq_nil nofun]
    cases reply <;> exact .cutOff (.inl off)

/-- The first reading of a log shows its messages. -/
theorem Begins.read {cut cut' expired : Prop} {shown : List Event} {stage : SnapshotStage}
    {log : List Entry} (h : Begins s cut shown stage)
    (hw : ({ s with stage } : Snapshot).want = .entries none) :
    Stands s cut' expired log log shown
      (({ s with stage } : Snapshot).step (.log (.ok log))).stage := by
  cases h with
  | starting => cases hw
  | reading => exact .showing rfl
  | cutOff off => cases hw

variable {config : Config} {request : Request} {user : String}

/-- **The course of a snapshot**: it begins, and from the reading of its log on it stands in the
story. -/
theorem Watching.course (h : Watching (ofRequest config request user) logs replies) (n : Nat) :
    Course (ofRequest config request user) logs replies n := by
  generalize hs : ofRequest config request user = s at h
  induction n with
  | zero =>
    subst hs
    exact .inl ⟨nofun, .starting⟩
  | succ n ih =>
    have hpast := s.past_eq replies n
    rw [Course, told_succ, past_succ, ← wasCut_succ, ← wasLate_succ, hpast]
    rcases ih with ⟨hunread, hbegins⟩ | ⟨m, hm, hread, honce, seen, hahead, hseen, hstands⟩
    · by_cases hfirst : s.ReadsFirst replies n
      · -- The log is read for the first time.
        obtain ⟨hwant, result, hreply⟩ := hfirst
        have hlog := h.reads n none result hwant hreply
        simp only [Option.all_none, List.filter_true] at hlog
        refine .inr ⟨n, Nat.lt_succ_self n, ⟨hwant, result, hreply⟩, fun m' hm' hfirst' => ?_,
          logs n, List.prefix_rfl, h.grows n, ?_⟩
        · rcases Nat.lt_succ_iff_lt_or_eq.1 hm' with hlt | heq
          · exact absurd hfirst' (hunread m' hlt)
          · exact heq
        · have hnone : ({ s with stage := (s.past replies n).stage } : Snapshot).taken (replies n)
              = [] := by
            refine taken_eq_nil fun e hoffer => ?_
            rw [← hpast, hwant] at hoffer
            cases hoffer
          rw [hnone, List.append_nil, hreply, hlog]
          exact hbegins.read (hpast ▸ hwant)
      · refine .inl ⟨fun m hm => ?_, ?_⟩
        · rcases Nat.lt_succ_iff_lt_or_eq.1 hm with hlt | rfl
          · exact hunread m hlt
          · exact hfirst
        · exact hbegins.step (hpast ▸ hfirst)
    · right
      have hnotFirst : ¬s.ReadsFirst replies n := fun hfirst =>
        hstands.want_ne (hpast ▸ hfirst.1)
      obtain ⟨seen', hor, hstands'⟩ := hstands.step hahead hseen (h.rising n) (hpast ▸ h.reads n)
      refine ⟨m, Nat.lt_succ_of_lt hm, hread, fun m' hm' hfirst' => ?_, seen', ?_, ?_, hstands'⟩
      · rcases Nat.lt_succ_iff_lt_or_eq.1 hm' with hlt | rfl
        · exact honce m' hlt hfirst'
        · exact absurd hfirst' hnotFirst
      · rcases hor with rfl | rfl
        · exact hahead
        · exact h.isPrefix (Nat.le_of_lt hm)
      · rcases hor with rfl | rfl
        · exact hseen.trans (h.grows n)
        · exact h.grows n

/-- Once its log was read a snapshot stands in the story of what was read. -/
theorem Watching.stands (h : Watching (ofRequest config request user) logs replies)
    (hread : (ofRequest config request user).ReadsFirst replies m) (hmn : m < n) :
    let s := ofRequest config request user
    ∃ seen, logs m <+: seen ∧ seen <+: logs n ∧
      Stands s (s.WasCut replies n) (s.WasLate replies n) (logs m) seen (s.told replies n)
        (s.past replies n).stage := by
  rcases h.course n with ⟨hunread, -⟩ | ⟨m', -, -, honce, hstands⟩
  · exact absurd hread (hunread m hmn)
  · rw [honce m hmn hread]
    exact hstands

/-! ## Snapshots that are attended to -/

/-- A client takes every event, what is asked of the log is answered, and the times of the looks
come, or following expires. -/
structure Attended (s : Snapshot) (replies : Nat → SnapshotReply) : Prop where
  takes : ∀ n e, (s.past replies n).want = .offer e → ∃ moment, replies n = .taken moment
  answers : ∀ n after, (s.past replies n).want = .entries after → ∃ result, replies n = .log result
  times : ∀ n deadline next, (s.past replies n).want = .time deadline next →
    replies n = .ticked ∨ replies n = .expired

/-- A snapshot that is attended to is not cut off. -/
theorem Attended.not_wasCut (h : Attended s replies) (n : Nat) : ¬s.WasCut replies n := by
  rintro ⟨k, -, ⟨hreply, e, hwant⟩ | ⟨hreply, deadline, next, hwant⟩⟩
  · obtain ⟨moment, htaken⟩ := h.takes k e hwant
    rw [hreply] at htaken
    cases htaken
  · rcases h.times k deadline next hwant with htick | hexpired
    · rw [hreply] at htick
      cases htick
    · rw [hreply] at hexpired
      cases hexpired

/-- Once following has expired one failure is told, and nothing more. -/
theorem Attended.expires (h : Attended s replies)
    (he : (s.past replies n).Expires (replies n)) :
    s.told replies (n + 2) = s.told replies n ++ [s.timeoutFailure] ∧
      (s.past replies (n + 2)).stage = .closed := by
  obtain ⟨hreply, deadline, next, hwant⟩ := he
  obtain ⟨f, hf⟩ := waiting_of_want hwant
  have hpast := s.past_eq replies n
  rw [hf] at hpast
  have hfails : s.past replies (n + 1) = { s with stage := lastly s.timeoutFailure } := by
    rw [past_succ, hreply, hpast]
    rfl
  obtain ⟨moment, htaken⟩ := h.takes (n + 1) s.timeoutFailure (by rw [hfails]; rfl)
  have hnone : (s.past replies n).taken (replies n) = [] := by
    refine taken_eq_nil fun e hoffer => ?_
    rw [hwant] at hoffer
    cases hoffer
  constructor
  · rw [told_succ, told_succ, hnone, hfails, htaken, List.append_nil]
    rfl
  · rw [past_succ, hfails, htaken]
    rfl

/-- How many events are to be taken at most before a snapshot waits, looks or is over. -/
def rank : SnapshotStage → Nat
  | .offering _ .opened => 1
  | .offering _ (.shown _ _) => 2
  | .offering _ (.passed _ rest) => rest.length + 2
  | .offering _ .last => 1
  | _ => 0

theorem rank_passing (s : Snapshot) (f : Follow) (rest : List Entry) :
    rank (s.passing f rest) ≤ rest.length + 1 := by
  induction rest generalizing f with
  | nil => exact Nat.zero_le _
  | cons entry rest ih =>
    have hle (f : Follow) : rank (s.passing f rest) ≤ rest.length + 1 + 1 :=
      Nat.le_succ_of_le (ih f)
    rw [Snapshot.passing, List.length_cons]
    split
    · exact hle f
    · split
      · exact hle _
      · split
        · exact Nat.le_add_left 1 _
        · exact Nat.le_add_left 1 _
        · exact Nat.le_refl _

theorem rank_afterMessages (s : Snapshot) (moment : Nat) (error : Option ReplayError)
    (log : List Entry) : rank (s.afterMessages moment error log) ≤ 1 := by
  cases error with
  | some error => exact Nat.le_refl 1
  | none =>
    simp only [afterMessages]
    split
    · split
      · exact Nat.zero_le 1
      · exact Nat.le_refl 1
    · exact Nat.le_refl 1

/-- The rank falls with every event that is taken. -/
theorem rank_take (s : Snapshot) (e : Event) (next : SnapshotNext) (moment : Nat) :
    rank (({ s with stage := .offering e next } : Snapshot).step (.taken moment)).stage
      < rank (.offering e next) := by
  cases next with
  | opened => exact Nat.zero_lt_one
  | shown error log => exact Nat.lt_succ_of_le (rank_afterMessages _ moment error log)
  | passed f rest => exact Nat.lt_succ_of_le (rank_passing _ f rest)
  | last => exact Nat.zero_lt_one

/-- A rank that is not zero is that of an offer. -/
theorem offering_of_rank {stage : SnapshotStage} (h : rank stage ≠ 0) :
    ∃ e next, stage = .offering e next := by
  cases stage with
  | offering e next => exact ⟨e, next, rfl⟩
  | _ => exact absurd rfl h

variable {log seen : List Entry}

/-- The events that are to be taken are taken. -/
theorem Attended.settles (ha : Attended s replies) (hr : Rising seen)
    (h : Stands s False False log seen (s.told replies n) (s.past replies n).stage) :
    ∃ k, n ≤ k ∧ rank (s.past replies k).stage = 0 ∧
      Stands s False False log seen (s.told replies k) (s.past replies k).stage := by
  generalize hd : rank (s.past replies n).stage = d
  induction d using Nat.strong_induction_on generalizing n with
  | _ d ih =>
    by_cases hzero : rank (s.past replies n).stage = 0
    · exact ⟨n, Nat.le_refl n, hzero, h⟩
    · obtain ⟨e, next, hs⟩ := offering_of_rank hzero
      have hpast := s.past_eq replies n
      rw [hs] at hpast h hd
      obtain ⟨moment, hreply⟩ := ha.takes n e (by rw [hpast]; rfl)
      have hstep : s.past replies (n + 1)
          = ({ s with stage := .offering e next } : Snapshot).step (.taken moment) := by
        rw [past_succ, hreply, hpast]
      have htold : s.told replies (n + 1) = s.told replies n ++ [e] := by
        rw [told_succ, hreply, hpast]
        rfl
      have hlt := s.rank_take e next moment
      rw [← hstep, hd] at hlt
      have hstands := h.take hr moment
      rw [← hstep, ← htold] at hstands
      obtain ⟨k, hk, hzero', hk'⟩ := ih _ hlt hstands rfl
      exact ⟨k, Nat.le_of_succ_le hk, hzero', hk'⟩

/-- Where nothing is offered the whole story is told so far, and it is over or goes on. -/
theorem Stands.settled {shown : List Event} {stage : SnapshotStage}
    (h : Stands s False False log seen shown stage) (hzero : rank stage = 0) :
    shown = s.story log (added log seen) ∧
      ((stage = .closed ∧ s.Final log (added log seen)) ∨
        (s.Follows log ∧ Endless (added log seen) ∧
          ∃ f, f.cursor = cursorOf seen ∧ (stage = .waiting f ∨ stage = .looking f))) := by
  cases h with
  | waiting follows cursor endless =>
    exact ⟨rfl, .inr ⟨follows, endless, _, cursor, .inl rfl⟩⟩
  | looking follows cursor endless =>
    exact ⟨rfl, .inr ⟨follows, endless, _, cursor, .inr rfl⟩⟩
  | ended final => exact ⟨rfl, .inl ⟨rfl, final⟩⟩
  | expired late => exact late.elim
  | cutOff off => exact off.elim
  | _ => cases hzero

/-- A snapshot that waits looks at its log next. -/
theorem Attended.ticks (ha : Attended s replies) (hl : ∀ n, ¬s.WasLate replies n) {f : Follow}
    (hs : (s.past replies n).stage = .waiting f) :
    ∃ f', f'.cursor = f.cursor ∧ (s.past replies (n + 1)).stage = .looking f' ∧
      s.told replies (n + 1) = s.told replies n := by
  have hpast := s.past_eq replies n
  rw [hs] at hpast
  have hwant : (s.past replies n).want = .time f.deadline f.next := by
    rw [hpast]
    rfl
  rcases ha.times n f.deadline f.next hwant with hreply | hreply
  · refine ⟨{ f with next := f.next + f.interval }, rfl, ?_, ?_⟩
    · rw [past_succ, hreply, hpast]
      rfl
    · rw [told_succ, hreply]
      exact List.append_nil _
  · exact absurd ⟨n, Nat.lt_succ_self n, hreply, f.deadline, f.next, hwant⟩ (hl (n + 1))

/-- A snapshot that looks at its log passes on what the log holds then. -/
theorem Attended.looks (ha : Attended s replies) (hw : Watching s logs replies) {f : Follow}
    (hs : (s.past replies n).stage = .looking f) (follows : s.Follows log)
    (cursor : f.cursor = cursorOf seen) (endless : Endless (added log seen)) (ahead : log <+: seen)
    (hseen : seen <+: logs n) (htold : s.told replies n = s.story log (added log seen)) :
    Stands s False False log (logs n) (s.told replies (n + 1)) (s.past replies (n + 1)).stage := by
  have hpast := s.past_eq replies n
  rw [hs] at hpast
  obtain ⟨result, hreply⟩ := ha.answers n (some f.cursor) (by rw [hpast]; rfl)
  have hreads := hw.reads n
  rw [hreply, hpast] at hreads
  rw [told_succ, past_succ, hreply, hpast, show Snapshot.taken _ (.log result) = [] from rfl,
    List.append_nil, htold]
  exact .look follows cursor endless ahead hseen (hw.rising n) hreads

/-- **A snapshot that is attended to catches up** with its log again and again, or its story has
ended. -/
theorem Attended.catchesUp (hw : Watching (ofRequest config request user) logs replies)
    (ha : Attended (ofRequest config request user) replies)
    (hl : ∀ n, ¬(ofRequest config request user).WasLate replies n)
    (hread : (ofRequest config request user).ReadsFirst replies m) (hmn : m < n) :
    let s := ofRequest config request user
    ∃ k, ∃ seen, logs m <+: seen ∧ seen <+: logs k ∧
      Stands s False False (logs m) seen (s.told replies k) (s.past replies k).stage ∧
      rank (s.past replies k).stage = 0 ∧
      (logs n <+: seen ∨ (s.past replies k).stage = .closed) := by
  intro s
  obtain ⟨seen, hahead, hseen, hstands⟩ := hw.stands hread hmn
  have hstands := hstands.mono (ha.not_wasCut n) (hl n)
  obtain ⟨k, hk, hzero, hstands⟩ := ha.settles ((hw.rising n).isPrefix hseen) hstands
  have hseen := hseen.trans (hw.isPrefix hk)
  obtain ⟨htold, ⟨hclosed, -⟩ | ⟨follows, endless, f, cursor, hs⟩⟩ := hstands.settled hzero
  · exact ⟨k, seen, hahead, hseen, hstands, hzero, .inr hclosed⟩
  · -- The snapshot looks at its log at a time `j`, and sees all that was there before.
    obtain ⟨j, hj, f', hcursor', hlooks, htold'⟩ : ∃ j, k ≤ j ∧ ∃ f' : Follow,
        f'.cursor = cursorOf seen ∧ (s.past replies j).stage = .looking f' ∧
          s.told replies j = s.told replies k := by
      rcases hs with hs | hs
      · obtain ⟨f', hcursor', hlooks, htold'⟩ := ha.ticks hl hs
        exact ⟨k + 1, Nat.le_succ k, f', hcursor'.trans cursor, hlooks, htold'⟩
      · exact ⟨k, Nat.le_refl k, f, cursor, hs, rfl⟩
    have hstands' := ha.looks hw hlooks follows hcursor' endless hahead
      (hseen.trans (hw.isPrefix hj)) (htold'.trans htold)
    obtain ⟨k', hk', hzero', hstands'⟩ := ha.settles (hw.rising j) hstands'
    exact ⟨k', logs j, hahead.trans (hseen.trans (hw.isPrefix hj)),
      hw.isPrefix (Nat.le_of_succ_le hk'), hstands', hzero',
      .inl (hw.isPrefix (Nat.le_trans hk hj))⟩

/-- Less was added to a log if less is in it. -/
theorem added_isPrefix {xs ys : List Entry} (h : xs <+: ys) (log : List Entry) :
    added log xs <+: added log ys := h.drop _

/-- Less is told if less was added. -/
theorem story_mono {xs ys : List Entry} (h : xs <+: ys) (s : Snapshot) (log : List Entry) :
    s.story log (added log xs) <+: s.story log (added log ys) := by
  obtain ⟨more, hmore⟩ := added_isPrefix h log
  rw [← hmore]
  exact s.story_isPrefix log _ more

/-- Once a story has ended it does not matter what else is added. -/
theorem Final.mono {xs ys : List Entry} (h : s.Final log (added log xs)) (hp : xs <+: ys) :
    s.Final log (added log ys) ∧ s.story log (added log ys) = s.story log (added log xs) := by
  obtain ⟨more, hmore⟩ := added_isPrefix hp log
  rw [← hmore]
  refine ⟨fun hf hall => h hf fun entry he => ?_, h.story more⟩
  exact hall entry (List.mem_append_left _ he)

/-- **A snapshot that is attended to tells everything** that is added to its log, up to the end of
a run, and then it is over. -/
theorem Attended.tells (hw : Watching (ofRequest config request user) logs replies)
    (ha : Attended (ofRequest config request user) replies)
    (hl : ∀ n, ¬(ofRequest config request user).WasLate replies n)
    (hread : (ofRequest config request user).ReadsFirst replies m) (k : Nat) :
    let s := ofRequest config request user
    ∃ n, s.story (logs m) (added (logs m) (logs k)) <+: s.told replies n ∧
      (s.Final (logs m) (added (logs m) (logs k)) → (s.past replies n).stage = .closed) := by
  intro s
  have hk : logs k <+: logs (max k (m + 1)) := hw.isPrefix (Nat.le_max_left ..)
  obtain ⟨n, seen, hahead, hseen, hstands, hzero, hor⟩ :=
    ha.catchesUp hw hl hread (Nat.le_max_right k (m + 1))
  obtain ⟨htold, hsettled⟩ := hstands.settled hzero
  refine ⟨n, ?_, fun hfinal => ?_⟩
  · rw [htold]
    rcases hor with hor | hclosed
    · exact story_mono (hk.trans hor) s (logs m)
    · -- The story has ended, so nothing comes behind what was seen.
      rcases hsettled with ⟨-, hfinal⟩ | ⟨-, -, f, -, hs⟩
      · have hall := story_mono (hw.isPrefix (Nat.le_max_right n k)) s (logs m)
        rwa [(hfinal.mono (hseen.trans (hw.isPrefix (Nat.le_max_left n k)))).2] at hall
      · rw [hclosed] at hs
        rcases hs with hs | hs <;> cases hs
  · rcases hsettled with ⟨hclosed, -⟩ | ⟨follows, endless, -⟩
    · exact hclosed
    · rcases hor with hor | hclosed
      · exact absurd (fun entry he => endless entry ((added_isPrefix (hk.trans hor) _).subset he))
          (hfinal follows)
      · exact hclosed

/-- A snapshot that is attended to reads its log. -/
theorem Attended.reads (ha : Attended (ofRequest config request user) replies) :
    ∃ m, (ofRequest config request user).ReadsFirst replies m := by
  obtain ⟨moment, hreply⟩ := ha.takes 0 (.runStarted request.threadId request.runId) rfl
  have hwant : ((ofRequest config request user).past replies 1).want = .entries none := by
    rw [past_succ, hreply]
    rfl
  exact ⟨1, hwant, ha.answers 1 none hwant⟩

end Snapshot

end AgentStream
