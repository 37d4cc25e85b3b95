/-
# What a snapshot tells of a record

A snapshot tells the messages of a record and then, if it follows it, what is added to it, each
entry once and in order.

* `Snapshot.passed` : what is passed on of entries;
* `Snapshot.story` : all that a snapshot tells of a log and of what is added to it later;
* `Snapshot.cursorOf`, `Snapshot.filter_cursorOf` : a timestamp stands for how far a log was read;
* `Snapshot.passing_cases` : entries are passed on up to the first one that is not skipped.
-/
import AgentStream.Run.Snapshot

namespace AgentStream

namespace Snapshot

variable {s : Snapshot} {log later more xs ys : List Entry}

/-! ## Entries that are passed on -/

/-- The event with which the end of a run is told, under the names of the own request. -/
def lastOf? (s : Snapshot) : Body → Option Event
  | .runFinished .. => some s.closing
  | .runError message _ _ => some (.runError message (some s.request.runId))
  | _ => none

/-- What is passed on of entries: what can be read of them, up to the end of a run. -/
def passed (s : Snapshot) : List Entry → List Event
  | [] => []
  | entry :: rest =>
    match entry.event with
    | .error _ => passed s rest
    | .ok e =>
      match s.lastOf? e.body with
      | some last => [last]
      | none => e :: passed s rest

/-- No entry holds the end of a run. -/
def Endless (entries : List Entry) : Prop :=
  ∀ entry ∈ entries, ∀ e, entry.event = .ok e → e.isTerminal = false

/-- An event ends a run if its end is told. -/
theorem lastOf?_eq_none (s : Snapshot) (b : Body) : s.lastOf? b = none ↔ b.isTerminal = false := by
  cases b <;> simp [lastOf?, Body.isTerminal]

variable {entry : Entry} {rest : List Entry} {e last : Event} {error : Event.ReadError}

theorem passed_unread (he : entry.event = .error error) :
    s.passed (entry :: rest) = s.passed rest := by
  rw [passed, he]

theorem passed_last (he : entry.event = .ok e) (hl : s.lastOf? e.body = some last) :
    s.passed (entry :: rest) = [last] := by
  rw [passed, he]
  simp only [hl]

theorem passed_next (he : entry.event = .ok e) (hl : s.lastOf? e.body = none) :
    s.passed (entry :: rest) = e :: s.passed rest := by
  rw [passed, he]
  simp only [hl]

/-- Entries hold no end of a run if the first one does not and the others do not. -/
theorem endless_cons : Endless (entry :: rest) ↔
    (∀ e, entry.event = .ok e → e.isTerminal = false) ∧ Endless rest :=
  List.forall_mem_cons

theorem Endless.append (hx : Endless xs) (hy : Endless ys) : Endless (xs ++ ys) :=
  List.forall_mem_append.2 ⟨hx, hy⟩

/-- Entries that do not end a run are passed on, and so is what follows them. -/
theorem passed_append (hx : Endless xs) : s.passed (xs ++ ys) = s.passed xs ++ s.passed ys := by
  induction xs with
  | nil => rfl
  | cons entry xs ih =>
    obtain ⟨hentry, hrest⟩ := endless_cons.1 hx
    rw [List.cons_append]
    cases he : entry.event with
    | error error => rw [passed_unread he, passed_unread he, ih hrest]
    | ok e =>
      have hl := (s.lastOf?_eq_none e.body).2 (hentry e he)
      rw [passed_next he hl, passed_next he hl, ih hrest]
      rfl

/-- Nothing is passed on behind the end of a run. -/
theorem passed_ended (hx : ¬Endless xs) : s.passed (xs ++ ys) = s.passed xs := by
  induction xs with
  | nil => exact absurd nofun hx
  | cons entry xs ih =>
    rw [List.cons_append]
    cases he : entry.event with
    | error error =>
      rw [passed_unread he, passed_unread he]
      refine ih fun hrest => hx (endless_cons.2 ⟨fun e hok => ?_, hrest⟩)
      rw [he] at hok
      cases hok
    | ok e =>
      cases hl : s.lastOf? e.body with
      | some last => rw [passed_last he hl, passed_last he hl]
      | none =>
        rw [passed_next he hl, passed_next he hl]
        refine congrArg (e :: ·) (ih fun hrest => hx (endless_cons.2 ⟨fun e' hok => ?_, hrest⟩))
        rw [he] at hok
        cases hok
        exact (s.lastOf?_eq_none e.body).1 hl

/-- What is added later is passed on later. -/
theorem passed_isPrefix (s : Snapshot) (xs ys : List Entry) :
    s.passed xs <+: s.passed (xs ++ ys) := by
  by_cases hx : Endless xs
  · rw [passed_append hx]
    exact List.prefix_append _ _
  · exact ⟨[], by rw [List.append_nil, passed_ended hx]⟩

/-! ## Stories -/

/-- What a snapshot shows of a log first: its start, and the messages. -/
def opening (s : Snapshot) (log : List Entry) : List Event :=
  [.runStarted s.request.threadId s.request.runId,
    Body.messagesSnapshot (replay s.config.appName s.userId log).messages]

/-- All that a snapshot tells of a log and of what is added to it later. -/
def story (s : Snapshot) (log later : List Entry) : List Event :=
  s.opening log ++
    match (replay s.config.appName s.userId log).error with
    | some error =>
      [.runError ("reduce track events: " ++ error.message) (some s.request.runId)]
    | none =>
      if s.config.followEnabled = true ∧ endsRun log = false then
        match s.config.flushInterval with
        | some _ => s.passed later
        | none => [.runError "messages snapshot follow requires a positive flush interval"
            (some s.request.runId)]
      else [s.closing]

/-- A log is followed: it can be replayed, it has not come to the end of a run, and following is
enabled and has an interval. -/
structure Follows (s : Snapshot) (log : List Entry) : Prop where
  replayed : (replay s.config.appName s.userId log).error = none
  enabled : s.config.followEnabled = true
  unended : endsRun log = false
  interval : s.config.flushInterval.isSome = true

theorem Follows.story (h : s.Follows log) (later : List Entry) :
    s.story log later = s.opening log ++ s.passed later := by
  obtain ⟨interval, hi⟩ := Option.isSome_iff_exists.1 h.interval
  rw [Snapshot.story, h.replayed, hi]
  simp only [h.enabled, h.unended, and_self, if_true]

/-- A log that is not followed has a story of its own. -/
theorem story_of_not_follows (h : ¬s.Follows log) (later : List Entry) :
    s.story log later = s.story log [] := by
  rw [story, story]
  cases hr : (replay s.config.appName s.userId log).error with
  | some error => rfl
  | none =>
    simp only
    split
    · rename_i hf
      cases hi : s.config.flushInterval with
      | none => rfl
      | some interval => exact absurd ⟨hr, hf.1, hf.2, by rw [hi]; rfl⟩ h
    · rfl

/-- A story only goes on. -/
theorem story_isPrefix (s : Snapshot) (log later more : List Entry) :
    s.story log later <+: s.story log (later ++ more) := by
  by_cases h : s.Follows log
  · rw [h.story, h.story]
    exact List.prefix_append_right_inj _ |>.2 (s.passed_isPrefix later more)
  · exact ⟨[], by rw [List.append_nil, story_of_not_follows h later,
      story_of_not_follows h (later ++ more)]⟩

/-- A story has come to its end: the log is not followed, or the end of a run was added. -/
def Final (s : Snapshot) (log later : List Entry) : Prop := s.Follows log → ¬Endless later

/-- A story that has come to its end does not go on. -/
theorem Final.story (h : s.Final log later) (more : List Entry) :
    s.story log (later ++ more) = s.story log later := by
  by_cases hf : s.Follows log
  · rw [hf.story, hf.story, passed_ended (h hf)]
  · rw [story_of_not_follows hf, story_of_not_follows hf later]

/-! ## How far a log was read -/

/-- In a log the timestamps rise, and begin behind zero. -/
structure Rising (log : List Entry) : Prop where
  order : log.Pairwise (·.timestamp < ·.timestamp)
  positive : ∀ e ∈ log, 1 ≤ e.timestamp

/-- The timestamp that stands for a log that was read: that of its last entry. -/
def cursorOf (log : List Entry) : Nat := (log.getLast?.map Entry.timestamp).getD 0

theorem cursorOf_concat (xs : List Entry) (entry : Entry) :
    cursorOf (xs ++ [entry]) = entry.timestamp := by
  rw [cursorOf, List.getLast?_concat]
  rfl

/-- What was read is not later than the cursor, and what was added since is. -/
theorem cursorOf_spec (h : Rising (xs ++ ys)) :
    (∀ e ∈ xs, e.timestamp ≤ cursorOf xs) ∧ ∀ e ∈ ys, cursorOf xs < e.timestamp := by
  cases List.eq_nil_or_concat xs with
  | inl hnil =>
    rw [hnil]
    exact ⟨nofun, fun e he => h.positive e (List.mem_append_right _ he)⟩
  | inr hconcat =>
    obtain ⟨front, last, rfl⟩ := hconcat
    rw [List.concat_eq_append] at h ⊢
    rw [cursorOf_concat]
    obtain ⟨hx, -, hxy⟩ := List.pairwise_append.1 h.order
    obtain ⟨-, -, hlast⟩ := List.pairwise_append.1 hx
    refine ⟨fun e he => ?_, fun e he => hxy last (List.mem_append_right _ List.mem_cons_self) e he⟩
    rcases List.mem_append.1 he with he | he
    · exact Nat.le_of_lt (hlast e he last List.mem_cons_self)
    · exact Nat.le_of_eq (congrArg Entry.timestamp (List.mem_singleton.1 he))

/-- The entries behind the cursor are those that were added since. -/
theorem filter_cursorOf (h : Rising (xs ++ ys)) :
    ((xs ++ ys).filter fun e => decide (cursorOf xs < e.timestamp)) = ys := by
  obtain ⟨hx, hy⟩ := cursorOf_spec h
  rw [List.filter_append, List.filter_eq_nil_iff.2 fun e he => ?_,
    List.filter_eq_self.2 fun e he => decide_eq_true (hy e he), List.nil_append]
  rw [decide_eq_true_iff]
  exact Nat.not_lt.2 (hx e he)

/-! ## Passing on -/

/-- An entry behind the cursor that cannot be read is skipped. -/
theorem passing_unread {f : Follow} (ht : f.cursor < entry.timestamp)
    (he : entry.event = .error error) :
    s.passing f (entry :: rest) = s.passing { f with cursor := entry.timestamp } rest := by
  rw [passing, if_neg (Nat.not_le.2 ht)]
  simp only [he]

/-- The end of a run is told. -/
theorem passing_last {f : Follow} (ht : f.cursor < entry.timestamp) (he : entry.event = .ok e)
    (hl : s.lastOf? e.body = some last) : s.passing f (entry :: rest) = lastly last := by
  rw [passing, if_neg (Nat.not_le.2 ht)]
  simp only [he]
  cases hb : e.body <;> rw [hb] at hl <;> cases hl <;> rfl

/-- Every other event is passed on. -/
theorem passing_next {f : Follow} (ht : f.cursor < entry.timestamp) (he : entry.event = .ok e)
    (hl : s.lastOf? e.body = none) : s.passing f (entry :: rest)
      = .offering e (.passed { f with cursor := entry.timestamp } rest) := by
  rw [passing, if_neg (Nat.not_le.2 ht)]
  simp only [he]
  cases hb : e.body <;> rw [hb] at hl <;> cases hl

/-- **Entries are passed on** up to the first one that is not skipped: there is none, or its event
is offered, or it tells the end of a run. -/
theorem passing_cases {done rest : List Entry} (h : Rising (done ++ rest)) {f : Follow}
    (hf : f.cursor = cursorOf done) :
    (Endless rest ∧ s.passed rest = [] ∧
      ∃ f', f'.cursor = cursorOf (done ++ rest) ∧ s.passing f rest = .waiting f') ∨
    (∃ front behind e f', rest = front ++ behind ∧ Endless front ∧ s.passed front = [e] ∧
      f'.cursor = cursorOf (done ++ front) ∧ s.passing f rest = .offering e (.passed f' behind)) ∨
    ∃ e, ¬Endless rest ∧ s.passed rest = [e] ∧ s.passing f rest = lastly e := by
  induction rest generalizing done f with
  | nil => exact .inl ⟨nofun, rfl, f, by rw [List.append_nil, hf], rfl⟩
  | cons entry rest ih =>
    have ht : f.cursor < entry.timestamp := by
      rw [hf]
      exact (cursorOf_spec h).2 entry List.mem_cons_self
    cases he : entry.event with
    | error error =>
      have hskips (xs : List Entry) (hxs : Endless xs) : Endless (entry :: xs) := by
        refine endless_cons.2 ⟨fun e hok => ?_, hxs⟩
        rw [he] at hok
        cases hok
      have hsplit : done ++ entry :: rest = done ++ [entry] ++ rest := List.append_cons ..
      rw [passing_unread ht he, passed_unread he, hsplit]
      have hcursor : ({ f with cursor := entry.timestamp } : Follow).cursor
          = cursorOf (done ++ [entry]) := (cursorOf_concat done entry).symm
      rcases ih (hsplit ▸ h) hcursor with ⟨hendless, hnone, hwaits⟩
        | ⟨front, behind, e, f', rfl, hendless, hfront, hf', hoffers⟩ | ⟨e, hends, hlast, htells⟩
      · exact .inl ⟨hskips rest hendless, hnone, hwaits⟩
      · refine .inr (.inl ⟨entry :: front, behind, e, f', rfl, hskips front hendless, ?_, ?_,
          hoffers⟩)
        · rw [passed_unread he, hfront]
        · rw [hf', List.append_assoc]
          rfl
      · exact .inr (.inr ⟨e, fun hall => hends (endless_cons.1 hall).2, hlast, htells⟩)
    | ok e =>
      cases hl : s.lastOf? e.body with
      | some last =>
        refine .inr (.inr ⟨last, fun hall => ?_, passed_last he hl, passing_last ht he hl⟩)
        have hnone := (s.lastOf?_eq_none e.body).2 ((endless_cons.1 hall).1 e he)
        rw [hl] at hnone
        cases hnone
      | none =>
        have hentry : ∀ e', entry.event = .ok e' → e'.isTerminal = false := by
          intro e' hok
          rw [he] at hok
          cases hok
          exact (s.lastOf?_eq_none e.body).1 hl
        refine .inr (.inl ⟨[entry], rest, e, { f with cursor := entry.timestamp }, rfl,
          endless_cons.2 ⟨hentry, nofun⟩, ?_, (cursorOf_concat done entry).symm,
          passing_next ht he hl⟩)
        rw [passed_next he hl]
        rfl

end Snapshot

end AgentStream
