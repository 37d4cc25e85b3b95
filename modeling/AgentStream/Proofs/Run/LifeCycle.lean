/-
# The life cycle of runs

What a client sees of a run: nothing, or the start of the run, then events that do not end it,
and at most one that does.  Nothing is delivered once the scope is done.  A run whose scope
lasts, whose client keeps taking events and whose engine stops at some time delivers an event
that ends it.

* `Reply.serves` : the replies of surroundings that do not fail a run;
* `Stage.rank` : how many steps a run takes at most until the engine is asked again;
* `Run.delivered_lifeCycle` : the life cycle of every run;
* `Run.scripted`, `Run.served_scripted` : surroundings that reply as a script says.
-/
import AgentStream.Framing
import AgentStream.Proofs.Run.History

namespace AgentStream

/-! ## Surroundings that do not fail a run -/

/-- The reply gives the run what it waits for: the client takes what is offered, the engine
starts or refuses to, its stream goes on or ends, and the calls of the recorder return. -/
def Reply.serves : Reply → Want → Bool
  | .taken, .offer _ => true
  | .answered _, .append _ => true
  | .answered _, .flush => true
  | .started _, .start => true
  | .failed _, .start => true
  | .yielded .., .output => true
  | .ended, .output => true
  | _, .nothing => true
  | _, _ => false

/-- The reply is an output of the engine. -/
def Reply.isOutput : Reply → Bool
  | .yielded .. => true
  | _ => false

/-! ## Ranks of stages -/

/-- How many steps follow a recorded event at most. -/
def Next.rank : Next → Nat
  | .opened => 10
  | .echoed => 8
  | .acknowledged => 5
  | .emitted rest => 2 * rest.length + 5
  | .last => 2

/-- How many steps a run takes at most without another output of the engine. -/
def Stage.rank : Stage → Nat
  | .offering _ next => next.rank + 1
  | .recording _ next => next.rank
  | .noting _ => 8
  | .starting => 7
  | .pumping => 4
  | .flushing => 1
  | .closed => 0

theorem Next.two_le_rank (next : Next) : 2 ≤ next.rank := by
  cases next with
  | emitted rest => exact Nat.le_add_left_of_le (by decide)
  | _ => decide

/-- A run of rank zero is over. -/
theorem Stage.closed_of_rank {s : Stage} (h : s.rank = 0) : s = .closed := by
  cases s with
  | closed => rfl
  | recording e next =>
    have h2 := next.two_le_rank
    rw [Stage.rank] at h
    omega
  | _ => cases h

namespace Run

variable {τ : Type}

/-! ## What may have been delivered -/

variable {cut : Prop} {p : Plan τ} {events : List Event}

/-- Events that may have been delivered begin with the start of the run, if there are any. -/
theorem Ended.head? (h : Ended cut p events) :
    events = [] ∨ events.head? = some (openingOf p) := by
  rcases h with ⟨-, rfl | hr⟩ | ⟨before, e, hr, -, rfl⟩
  · exact .inl rfl
  · exact .inr hr.1
  · refine .inr ?_
    rw [List.head?_append, hr.1]
    rfl

/-- Behind an event that ends the run there is none. -/
theorem Ended.behind {before behind : List Event} {e : Event}
    (h : Ended cut p events) (hb : events = before ++ e :: behind) (he : e.isTerminal = true) :
    behind = [] := by
  have never {earlier : List Event} (hr : Running p earlier) (hm : e ∈ earlier) : False := by
    rw [hr.2 e hm] at he
    cases he
  rcases h with ⟨-, rfl | hr⟩ | ⟨earlier, e', hr, -, rfl⟩
  · simp at hb
  · exact (never hr (by simp [hb])).elim
  · rcases List.eq_nil_or_concat behind with rfl | ⟨behind, a, rfl⟩
    · rfl
    · rw [List.concat_eq_append, ← List.cons_append, ← List.append_assoc] at hb
      have hm : e ∈ earlier := by simp [(List.append_inj' hb rfl).1]
      exact (never hr hm).elim

/-- At most one event ends the run. -/
theorem Ended.countP_le (h : Ended cut p events) :
    events.countP Event.isTerminal ≤ 1 := by
  have none {events : List Event} (hr : Running p events) :
      events.countP Event.isTerminal = 0 := by
    rw [List.countP_eq_zero]
    intro e he
    rw [hr.2 e he]
    decide
  rcases h with ⟨-, rfl | hr⟩ | ⟨before, e, hr, -, rfl⟩
  · exact Nat.zero_le 1
  · rw [none hr]
    exact Nat.zero_le 1
  · rw [List.countP_append, none hr, Nat.zero_add]
    exact List.countP_le_length

/-! ## Replies that serve -/

/-- Only a run that is over waits for nothing. -/
theorem closed_of_want {r : Run τ} (h : r.want = .nothing) : r.stage = .closed := by
  unfold want at h
  split at h
  case h_7 hst => exact hst
  all_goals cases h

/-- A reply that serves a run at a moment that is not done does not cut it off. -/
theorem not_cutsOff_of_serves {r : Run τ} {m : Moment} {reply : Reply}
    (hr : r.stage ≠ .closed) (hm : m.isDone = false) (hs : reply.serves r.want = true) :
    ¬CutsOff m reply := by
  rintro (h | rfl | rfl)
  · rw [hm] at h
    cases h
  all_goals
    cases hw : r.want with
    | nothing => exact hr (closed_of_want hw)
    | _ =>
      rw [hw] at hs
      cases hs

/-! ## Ranks of steps -/

theorem finish_rank (r : Run τ) : r.finish.2.stage.rank ≤ 1 := by
  unfold finish
  split
  · exact Nat.le_refl 1
  · exact Nat.zero_le 1

theorem emitting_rank (r : Run τ) (m : Moment) (rest : List Event) :
    (r.emitting m rest).rank ≤ 2 * rest.length + 4 := by
  cases rest with
  | nil => exact Nat.le_refl 4
  | cons e rest =>
    cases hc : m.callbacks.afterTranslation m.view e with
    | ok e =>
      simp only [emitting, hc]
      show 2 * rest.length + 5 + 1 ≤ 2 * (rest.length + 1) + 4
      omega
    | error reason =>
      simp only [emitting, hc]
      show 3 ≤ 2 * (rest.length + 1) + 4
      omega

theorem afterOpening_rank (r : Run τ) : r.afterOpening.rank ≤ 9 := by
  unfold afterOpening
  split
  · exact Nat.le_refl 9
  · split
    · split
      · show 8 ≤ 9
        decide
      · show 7 ≤ 9
        decide
    · show 7 ≤ 9
      decide

theorem afterStart_rank (r : Run τ) (fresh : String) : (r.afterStart fresh).rank ≤ 6 := by
  unfold afterStart
  split
  · split
    · exact Nat.le_refl 6
    · show 4 ≤ 6
      decide
  · show 4 ≤ 6
    decide

theorem follow_rank (r : Run τ) (m : Moment) (e : Event) (next : Next) :
    (r.follow m e next).2.stage.rank < next.rank := by
  have hf : r.finish.2.stage.rank < next.rank :=
    Nat.lt_of_le_of_lt r.finish_rank next.two_le_rank
  unfold follow
  split
  · exact hf
  · cases next with
    | opened => exact Nat.lt_succ_of_le r.afterOpening_rank
    | echoed => exact Nat.lt_succ_self 7
    | acknowledged => exact Nat.lt_succ_self 4
    | emitted rest => exact Nat.lt_succ_of_le (r.emitting_rank m rest)
    | last => exact hf

theorem deliver_rank (r : Run τ) (m : Moment) (e : Event) (next : Next) :
    (r.deliver m e next).2.stage.rank ≤ next.rank := by
  unfold deliver
  split
  · exact Nat.le_refl _
  · exact Nat.le_of_lt (r.follow_rank m e next)

variable [Translator τ]

/-- A step that serves a run, and is not for another output, lowers its rank. -/
theorem step_rank {r : Run τ} {m : Moment} {reply : Reply} (hr : r.stage ≠ .closed)
    (hm : m.isDone = false) (hs : reply.serves r.want = true) (ho : reply.isOutput = false) :
    (r.step m reply).2.stage.rank < r.stage.rank := by
  have hd : ¬m.isDone = true := by simp [hm]
  cases hst : r.stage with
  | offering e next =>
    cases reply <;> simp only [want, hst, Reply.serves, Bool.false_eq_true] at hs
    simp only [step.eq_def, hst, if_neg hd]
    exact Nat.lt_succ_of_le (r.deliver_rank m e next)
  | recording e next =>
    cases reply <;> simp only [want, hst, Reply.serves, Bool.false_eq_true] at hs
    simp only [step.eq_def, hst]
    exact r.follow_rank m e next
  | noting e =>
    cases reply <;> simp only [want, hst, Reply.serves, Bool.false_eq_true] at hs
    simp only [step.eq_def, hst]
    exact Nat.lt_succ_self 7
  | starting =>
    cases reply with
    | started fresh =>
      simp only [step.eq_def, hst]
      exact Nat.lt_succ_of_le (r.afterStart_rank fresh)
    | failed reason =>
      simp only [step.eq_def, hst]
      show 3 < 7
      decide
    | _ => simp only [want, hst, Reply.serves, Bool.false_eq_true] at hs
  | pumping =>
    cases reply with
    | ended =>
      simp only [step.eq_def, hst, if_neg hd]
      exact Nat.lt_succ_self 3
    -- An output is the only reply that may raise the rank again.
    | yielded => simp only [Reply.isOutput, Bool.true_eq_false] at ho
    | _ => simp only [want, hst, Reply.serves, Bool.false_eq_true] at hs
  | flushing =>
    cases reply <;> simp only [want, hst, Reply.serves, Bool.false_eq_true] at hs
    simp only [step.eq_def, hst]
    exact Nat.lt_succ_self 0
  | closed => exact absurd hst hr

/-! ## Steps that deliver nothing -/

/-- A call of the recorder delivers nothing. -/
theorem delivered_calls (w : Want) (reply : Reply) :
    (w.calls reply).filterMap Deed.delivered? = [] := by
  cases w <;> cases reply <;> rfl

/-- At a moment that is done nothing is delivered. -/
theorem deeds_done (r : Run τ) {m : Moment} (hm : m.isDone = true) (reply : Reply) :
    (r.deeds m reply).filterMap Deed.delivered? = [] := by
  have h : (r.step m reply).1.filterMap Action.deed? = [] := by
    unfold step
    split
    · rw [if_pos hm]
      exact r.finish_deeds
    · exact r.finish_deeds
    · exact r.follow_deeds ..
    · rfl
    · rfl
    · rfl
    · rw [if_pos hm]
      exact r.finish_deeds
    · rw [if_pos hm]
      exact r.finish_deeds
    · exact r.finish_deeds
    · rfl
    · rfl
  rw [deeds, h, List.append_nil]
  exact delivered_calls r.want reply

/-- As long as the moments are done nothing is delivered. -/
theorem delivered_done (r : Run τ) (replies : List (Moment × Reply))
    (hm : ∀ x ∈ replies, x.1.isDone = true) : r.delivered replies = [] := by
  induction replies generalizing r with
  | nil => rfl
  | cons x rest ih =>
    rw [delivered, history, List.filterMap_append, r.deeds_done (hm x List.mem_cons_self)]
    exact ih (r.step x.1 x.2).2 fun y hy => hm y (List.mem_cons_of_mem x hy)

/-- A run that is over stays so, and does nothing. -/
theorem closed_stays {r : Run τ} (hr : r.stage = .closed) (replies : List (Moment × Reply)) :
    r.after replies = r ∧ r.history replies = [] := by
  induction replies with
  | nil => exact ⟨rfl, rfl⟩
  | cons x rest ih =>
    have hstep : r.step x.1 x.2 = ([], r) := by simp only [step.eq_def, hr]
    have hd : r.deeds x.1 x.2 = [] := by
      rw [deeds, hstep, want, hr]
      rfl
    rw [after, history, hstep, hd]
    exact ih

/-! ## Runs that are served -/

/-- The first replies of a sequence. -/
def firstReplies (replies : Nat → Moment × Reply) (n : Nat) : List (Moment × Reply) :=
  (List.range n).map replies

/-- The surroundings never fail a run. -/
structure Served (r : Run τ) (replies : Nat → Moment × Reply) : Prop where
  /-- Its scope is not done before it is over. -/
  lasts : ∀ n, (r.after (firstReplies replies n)).stage ≠ .closed →
    (replies n).1.isDone = false
  /-- Its client keeps taking events, its engine starts or refuses to, and what it asks of the
  recorder returns. -/
  serves : ∀ n, (replies n).2.serves (r.after (firstReplies replies n)).want = true
  /-- Its engine's stream is finite. -/
  finite : ∃ n, ∀ k, n ≤ k → (replies k).2.isOutput = false

theorem firstReplies_succ (replies : Nat → Moment × Reply) (n : Nat) :
    firstReplies replies (n + 1) = firstReplies replies n ++ [replies n] := by
  simp only [firstReplies, List.range_succ, List.map_append, List.map_cons, List.map_nil]

theorem firstReplies_of_le (replies : Nat → Moment × Reply) {n k : Nat} (h : n ≤ k) :
    ∃ rest, firstReplies replies k = firstReplies replies n ++ rest := by
  induction h with
  | refl => exact ⟨[], (List.append_nil _).symm⟩
  | @step k _ ih =>
    obtain ⟨rest, hr⟩ := ih
    exact ⟨rest ++ [replies k], by rw [firstReplies_succ, hr, List.append_assoc]⟩

/-- A run that is served is over at some time: its rank falls once the engine's stream has
ended. -/
theorem Served.closed {r : Run τ} {replies : Nat → Moment × Reply} (hs : Served r replies) :
    ∃ n, (r.after (firstReplies replies n)).stage = .closed := by
  obtain ⟨start, hf⟩ := hs.finite
  -- From `start` on there is no output any more, so every step lowers the rank.
  have falls (d : Nat) : ∀ n, start ≤ n → (r.after (firstReplies replies n)).stage.rank ≤ d →
      ∃ k, (r.after (firstReplies replies k)).stage = .closed := by
    induction d with
    | zero => exact fun n _ hd => ⟨n, Stage.closed_of_rank (Nat.le_zero.1 hd)⟩
    | succ d ih =>
      intro n hn hd
      by_cases ho : (r.after (firstReplies replies n)).stage = .closed
      · exact ⟨n, ho⟩
      · have hlt := step_rank ho (hs.lasts n ho) (hs.serves n) (hf n hn)
        refine ih (n + 1) (Nat.le_succ_of_le hn) ?_
        rw [firstReplies_succ, after_append]
        exact Nat.le_of_lt_succ (Nat.lt_of_lt_of_le hlt hd)
  exact falls _ start (Nat.le_refl start) (Nat.le_refl _)

/-- Nothing cuts off a run that is served. -/
theorem Served.sound {config : Config} {hasRecorder : Bool} {replies : Nat → Moment × Reply}
    (hs : Served (ofPlan p config hasRecorder) replies) (n : Nat) :
    Sound False ((ofPlan p config hasRecorder).after (firstReplies replies n))
      ((ofPlan p config hasRecorder).history (firstReplies replies n)) := by
  induction n with
  | zero => exact ⟨rfl, rfl⟩
  | succ n ih =>
    rw [firstReplies_succ, after_append, history_append]
    by_cases ho : ((ofPlan p config hasRecorder).after (firstReplies replies n)).stage = .closed
    · obtain ⟨hstays, hnothing⟩ := closed_stays ho [replies n]
      rw [hstays, hnothing, List.append_nil]
      exact ih
    · have hc := not_cutsOff_of_serves ho (hs.lasts n ho) (hs.serves n)
      have hstep := step_sound ih (replies n).1 (replies n).2
      rw [history, history, List.append_nil]
      exact hstep.mono fun h => h.elim id hc

/-! ## The life cycle -/

/-- **The life cycle of runs.**  Whatever a run is replied to, it delivers nothing, or its start
first; it delivers at most one event that ends a run, and nothing behind that.  At moments that
are done it delivers nothing more.  If it is served, it is over at some time, and the last event
that it delivers is the one that ends it. -/
theorem delivered_lifeCycle (p : Plan τ) (config : Config) (hasRecorder : Bool) :
    (∀ replies, let events := (ofPlan p config hasRecorder).delivered replies
      (events = [] ∨
        events.head? = some (.runStarted p.request.threadId p.request.runId)) ∧
      events.countP Event.isTerminal ≤ 1 ∧
      ∀ before e behind, events = before ++ e :: behind → e.isTerminal = true → behind = []) ∧
    (∀ before behind, (∀ x ∈ behind, x.1.isDone = true) →
      (ofPlan p config hasRecorder).delivered (before ++ behind)
        = (ofPlan p config hasRecorder).delivered before) ∧
    ∀ replies : Nat → Moment × Reply, Served (ofPlan p config hasRecorder) replies →
      ∃ n before e, e.isTerminal = true ∧ (∀ a ∈ before, a.isTerminal = false) ∧
        ∀ k, n ≤ k →
          ((ofPlan p config hasRecorder).after (firstReplies replies k)).stage = .closed ∧
          (ofPlan p config hasRecorder).delivered (firstReplies replies k) = before ++ [e] := by
  refine ⟨fun replies => ?_, fun before behind hd => ?_, fun replies hs => ?_⟩
  · have he := (history_sound p config hasRecorder replies).delivered
    rw [(after_keeps _ replies).1] at he
    exact ⟨he.head?, he.countP_le, fun before e behind => he.behind⟩
  · rw [delivered_append, delivered_done _ behind hd, List.append_nil]
  · obtain ⟨n, ho⟩ := hs.closed
    rcases ((hs.sound n).closed ho).1 with ⟨hc, -⟩ | ⟨before, e, hr, he, hd⟩
    · -- Nothing cut the run off, so a terminal event ended it.
      exact hc.elim
    · refine ⟨n, before, e, he, hr.2, fun k hk => ?_⟩
      obtain ⟨rest, hrest⟩ := firstReplies_of_le replies hk
      obtain ⟨hstays, hnothing⟩ := closed_stays ho rest
      rw [hrest, after_append, delivered_append, hstays, delivered, delivered, hnothing,
        List.filterMap_nil, List.append_nil]
      exact ⟨ho, hd⟩

/-! ## Scripts -/

/-- A moment at which nothing is done. -/
def quiet : Moment := ⟨{}, {}⟩

/-- Replies as a script says; behind it a reply may be anything. -/
def scripted (script : List (Moment × Reply)) (n : Nat) : Moment × Reply :=
  script.getD n (quiet, .taken)

section Scripts

variable {r : Run τ} {script : List (Moment × Reply)} {n : Nat}

theorem scripted_early (h : n < script.length) : scripted script n = script[n] := by
  rw [scripted, List.getD_eq_getElem?_getD, List.getElem?_eq_getElem h]
  rfl

theorem scripted_late (h : script.length ≤ n) : scripted script n = (quiet, .taken) := by
  rw [scripted, List.getD_eq_getElem?_getD, List.getElem?_eq_none h]
  rfl

/-- Behind a script that brings it to its end a run waits for nothing. -/
theorem want_late
    (hclosed : (r.after (firstReplies (scripted script) script.length)).stage = .closed)
    (h : script.length ≤ n) : (r.after (firstReplies (scripted script) n)).want = .nothing := by
  obtain ⟨rest, hrest⟩ := firstReplies_of_le (scripted script) h
  rw [hrest, after_append, (closed_stays hclosed rest).1, want, hclosed]

/-- A script serves a run that it brings to its end. -/
theorem served_scripted
    (hlasts : ∀ n, n < script.length → (scripted script n).1.isDone = false)
    (hserves : ∀ n, n < script.length →
      (scripted script n).2.serves (r.after (firstReplies (scripted script) n)).want = true)
    (hclosed : (r.after (firstReplies (scripted script) script.length)).stage = .closed) :
    Served r (scripted script) where
  lasts n _ := by
    by_cases h : n < script.length
    · exact hlasts n h
    · rw [scripted_late (Nat.not_lt.1 h)]
      rfl
  serves n := by
    by_cases h : n < script.length
    · exact hserves n h
    · rw [scripted_late (Nat.not_lt.1 h), want_late hclosed (Nat.not_lt.1 h)]
      rfl
  finite := by
    refine ⟨script.length, fun k hk => ?_⟩
    rw [scripted_late hk]
    rfl

end Scripts

/-! ## A greeting -/

/-- The plan of a run in which a user says hello. -/
def greeting : Plan Framer where
  request := { threadId := "thread", runId := "run" }
  userId := "user"
  turn := ⟨.user "hello", "m-1", .user (.user "hello")⟩
  options := {}
  translator := { threadId := "thread", runId := "run" }

/-- The engine answers with one message and the recorder never fails. -/
def greetingReplies : List (Moment × Reply) :=
  [.taken, .answered (.ok ()), .answered (.ok ()), .started "s",
    .yielded "a" "b" "c" { id := "o-1", response := some (.completion "r-1" "hi") },
    .taken, .answered (.ok ()), .taken, .answered (.ok ()), .taken, .answered (.ok ()),
    .ended, .taken, .answered (.ok ()), .answered (.ok ())].map (quiet, ·)

/-- The greeting run, recorded. -/
def greetingRun : Run Framer := ofPlan greeting { appName := "app" } true

/-- The reply to the greeting run at a time; once it is over it may be anything. -/
def greetingReply (n : Nat) : Moment × Reply := greetingReplies.getD n (quiet, .taken)

/-- The surroundings never fail the greeting. -/
theorem greeting_served : Served greetingRun greetingReply :=
  served_scripted (by decide) (by decide +kernel) (by decide +kernel)

/-- What the greeting delivers before it ends. -/
def greetingEvents : List Event :=
  [.runStarted "thread" "run", Body.textStart "r-1" .assistant, Body.textContent "r-1" "hi",
    Body.textEnd "r-1"]

/-- The life cycle of the greeting: nothing comes behind the event that ends it, a scope that is
done stops it, and it is over at some time. -/
theorem greeting_lifeCycle :
    (∃ e behind, greetingRun.delivered (firstReplies greetingReply 15)
        = greetingEvents ++ e :: behind ∧ e.isTerminal = true ∧ behind = []) ∧
    greetingRun.delivered
        (firstReplies greetingReply 2 ++ [(⟨{}, { done := some .canceled }⟩, .taken)])
      = greetingRun.delivered (firstReplies greetingReply 2) ∧
    ∃ n before e, e.isTerminal = true ∧ (∀ a ∈ before, a.isTerminal = false) ∧
      ∀ k, n ≤ k →
        (greetingRun.after (firstReplies greetingReply k)).stage = .closed ∧
        greetingRun.delivered (firstReplies greetingReply k) = before ++ [e] := by
  have lifeCycle := delivered_lifeCycle greeting { appName := "app" } true
  have he : greetingRun.delivered (firstReplies greetingReply 15)
      = greetingEvents ++ [.runFinished "thread" "run"] := by decide +kernel
  refine ⟨⟨_, [], he, rfl, ?_⟩, ?_, ?_⟩
  · exact (lifeCycle.1 _).2.2 _ _ _ he rfl
  · exact lifeCycle.2.1 _ _ (by decide)
  · exact lifeCycle.2.2 greetingReply greeting_served

end Run

end AgentStream
