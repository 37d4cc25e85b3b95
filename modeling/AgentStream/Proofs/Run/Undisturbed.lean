/-
# Runs that nothing disturbs

A run whose scope lasts, whose client keeps taking events, that has no callbacks and whose engine
starts and gives its outputs: at every time what it has delivered, with what it is still going to
deliver, is the same.  So once it is over it has delivered all of that.

* `upToEnd` : events up to one that ends a run;
* `Run.Ahead` : what a run is going to deliver for outputs that are still to come;
* `Run.step_advances` : a step delivers what was ahead first;
* `Run.Performs`, `Run.Performs.delivered` : what a run delivers for all outputs of its engine.
-/
import AgentStream.Proofs.Framing.Answers
import AgentStream.Proofs.Run.LifeCycle

namespace AgentStream

/-- Events up to one that ends a run. -/
def upToEnd : List Event → List Event
  | [] => []
  | e :: rest => if e.isTerminal then [e] else e :: upToEnd rest

theorem upToEnd_append {events : List Event} (h : ∀ e ∈ events, e.isTerminal = false) {e : Event}
    (he : e.isTerminal = true) (rest : List Event) :
    upToEnd (events ++ e :: rest) = events ++ [e] := by
  induction events with
  | nil => exact if_pos he
  | cons a events ih =>
    obtain ⟨ha, hevents⟩ := List.forall_mem_cons.1 h
    have ha : ¬a.isTerminal = true := by simp [ha]
    rw [List.cons_append, upToEnd, if_neg ha, ih hevents]
    rfl

/-- The result of a tool that is shown once more behind the start of a run. -/
def Plan.echo {τ : Type} (p : Plan τ) : List Event :=
  match p.turn.source with
  | .tool callId content => [.toolResult p.turn.messageId callId content]
  | .user _ => []

/-- The output that a reply gives. -/
def Reply.output? : Reply → Option Engine.Output
  | .yielded _ _ _ o => some o
  | _ => none

namespace Run

variable {τ : Type}

theorem deliver_deeds (r : Run τ) (m : Moment) (e : Event) (next : Next) :
    (r.deliver m e next).1.filterMap Action.deed? = [.deliver e] := by
  unfold deliver
  split
  · rfl
  · show (Action.deliver e :: (r.follow m e next).1).filterMap Action.deed? = _
    rw [List.filterMap_cons, follow_deeds]
    rfl

variable [Translator τ]

/-! ## What is ahead -/

/-- What is delivered for outputs that are still to come, and the end of the run behind them. -/
def Future (r : Run τ) (outputs : List Engine.Output) (events : List Event) : Prop :=
  ∃ said t, Speaks r.switches r.translator outputs said t ∧
    events = upToEnd (said ++ [r.closing])

/-- What is delivered behind an event. -/
def Behind (r : Run τ) (outputs : List Engine.Output) (e : Event) (next : Next)
    (events : List Event) : Prop :=
  if e.isTerminal then events = []
  else
    match next with
    | .opened => ∃ rest, r.Future outputs rest ∧ events = r.plan.echo ++ rest
    | .echoed => r.Future outputs events
    | .acknowledged => r.Future outputs events
    | .emitted rest => ∃ said t, Speaks r.switches r.translator outputs said t ∧
        events = upToEnd (rest ++ (said ++ [r.closing]))
    | .last => events = []

/-- What a run is going to deliver for outputs that are still to come. -/
def Ahead (r : Run τ) (outputs : List Engine.Output) (events : List Event) : Prop :=
  match r.stage with
  | .offering e next => ∃ rest, events = e :: rest ∧ r.Behind outputs e next rest
  | .recording e next => r.Behind outputs e next events
  | .noting _ | .starting | .pumping => r.Future outputs events
  | .flushing | .closed => events = []

variable {r : Run τ} {m : Moment} {outputs : List Engine.Output} {events : List Event} {e : Event}
  {next : Next} {reply : Reply}

/-! ## The parts of a step -/

theorem finish_ahead (r : Run τ) (outputs : List Engine.Output) :
    r.finish.2.Ahead outputs [] := by
  unfold finish
  split <;> exact rfl

/-- Events are offered one by one, and nothing behind one that ends the run. -/
theorem emitting_ahead (hm : m.callbacks = {}) {rest said : List Event} {t : τ}
    (hs : Speaks r.switches r.translator outputs said t) :
    (r.goTo (r.emitting m rest)).Ahead outputs (upToEnd (rest ++ (said ++ [r.closing]))) := by
  cases rest with
  | nil => exact ⟨said, t, hs, rfl⟩
  | cons e rest =>
    have hafter : m.callbacks.afterTranslation m.view e = .ok e := by
      rw [hm]
      rfl
    have hstage : r.emitting m (e :: rest) = .offering e (.emitted rest) := by
      simp only [emitting, hafter]
    rw [hstage, List.cons_append, upToEnd]
    by_cases he : e.isTerminal = true
    · rw [if_pos he]
      refine ⟨[], rfl, ?_⟩
      rw [Behind, if_pos he]
    · rw [if_neg he]
      refine ⟨_, rfl, ?_⟩
      rw [Behind, if_neg he]
      exact ⟨said, t, hs, rfl⟩

/-- Behind the start comes the result of a tool, if there is one. -/
theorem afterOpening_ahead {rest : List Event} (hf : r.Future outputs rest) :
    (r.goTo r.afterOpening).Ahead outputs (r.plan.echo ++ rest) := by
  unfold afterOpening Plan.echo
  cases r.plan.turn.source with
  | tool callId content =>
    refine ⟨rest, rfl, ?_⟩
    show if false = true then rest = [] else r.Future outputs rest
    rw [if_neg Bool.false_ne_true]
    exact hf
  | user record =>
    simp only
    split
    · split <;> exact hf
    · exact hf

/-- What follows a delivered event. -/
theorem follow_ahead (hm : m.callbacks = {}) (hb : r.Behind outputs e next events) :
    (r.follow m e next).2.Ahead outputs events := by
  unfold follow
  unfold Behind at hb
  by_cases he : e.isTerminal = true
  · rw [if_pos he] at hb
    rw [if_pos he, hb]
    exact r.finish_ahead outputs
  · rw [if_neg he] at hb
    rw [if_neg he]
    cases next with
    | opened =>
      obtain ⟨rest, hf, rfl⟩ := hb
      exact afterOpening_ahead hf
    | echoed => exact hb
    | acknowledged => exact hb
    | emitted rest =>
      obtain ⟨said, t, hs, rfl⟩ := hb
      exact emitting_ahead hm hs
    | last =>
      rw [show events = [] from hb]
      exact r.finish_ahead outputs

/-- A delivered event is recorded next, or followed at once. -/
theorem deliver_ahead (hm : m.callbacks = {}) (hb : r.Behind outputs e next events) :
    (r.deliver m e next).2.Ahead outputs events := by
  unfold deliver
  split
  · exact hb
  · exact follow_ahead hm hb

/-- An output is translated and its events are offered. -/
theorem afterOutput_ahead (hm : m.callbacks = {}) {o : Engine.Output}
    (hf : r.Future (o :: outputs) events) (fresh fresh' fresh'' : String) :
    (r.afterOutput m fresh fresh' fresh'' o).Ahead outputs events := by
  obtain ⟨said, t, hs, rfl⟩ := hf
  cases hs with
  | @cons _ t' _ _ _ first rest silent translated hrest =>
    have hbefore : m.callbacks.beforeTranslation m.view o = .ok o := by
      rw [hm]
      rfl
    have hafter : r.afterOutput m fresh fresh' fresh'' o
        = { r with translator := t', stage := r.emitting m first } := by
      simp only [afterOutput, hbefore, silent, translated, List.nil_append]
    rw [hafter, List.append_assoc]
    let r' : Run τ := { r with translator := t' }
    exact emitting_ahead (r := r') hm hrest

/-! ## Steps -/

/-- What a step delivers. -/
theorem deeds_delivered (r : Run τ) (m : Moment) (reply : Reply) :
    (r.deeds m reply).filterMap Deed.delivered?
      = ((r.step m reply).1.filterMap Action.deed?).filterMap Deed.delivered? := by
  rw [deeds, List.filterMap_append, delivered_calls, List.nil_append]

/-- A step that delivers nothing leaves ahead what was ahead. -/
theorem silent_ahead {actions : List Action} {r' : Run τ} {outputs' : List Engine.Output}
    (hstep : r.step m reply = (actions, r')) (ha : actions.filterMap Action.deed? = [])
    (h : r'.Ahead outputs' events) : ∃ events', (r.step m reply).2.Ahead outputs' events' ∧
      events = (r.deeds m reply).filterMap Deed.delivered? ++ events' := by
  rw [deeds_delivered, hstep, ha]
  exact ⟨events, h, rfl⟩

/-- What was ahead is what the step delivers, and then what is ahead behind it. -/
def Advances (r : Run τ) (m : Moment) (reply : Reply) (outputs : List Engine.Output)
    (events : List Event) : Prop :=
  ∃ events', (r.step m reply).2.Ahead (outputs.drop (if reply.isOutput then 1 else 0)) events' ∧
    events = (r.deeds m reply).filterMap Deed.delivered? ++ events'

/-- An event that is offered is taken. -/
theorem offering_advances (hst : r.stage = .offering e next) (ha : r.Ahead outputs events)
    (hm : m.callbacks = {}) (hd : m.isDone = false) (hs : reply.serves r.want = true) :
    r.Advances m reply outputs events := by
  cases reply <;> simp only [want, hst, Reply.serves, Bool.false_eq_true] at hs
  have hd : ¬m.isDone = true := by simp [hd]
  obtain ⟨rest, rfl, hb⟩ : ∃ rest, events = e :: rest ∧ r.Behind outputs e next rest := by
    simpa only [Ahead, hst] using ha
  have hstep : r.step m .taken = r.deliver m e next := by simp only [step.eq_def, hst, if_neg hd]
  rw [Advances, deeds_delivered, hstep, deliver_deeds]
  exact ⟨rest, deliver_ahead hm hb, rfl⟩

/-- A delivered event has been appended to the record. -/
theorem recording_advances (hst : r.stage = .recording e next) (ha : r.Ahead outputs events)
    (hm : m.callbacks = {}) (hs : reply.serves r.want = true) :
    r.Advances m reply outputs events := by
  cases reply <;> simp only [want, hst, Reply.serves, Bool.false_eq_true] at hs
  rename_i result
  have hb : r.Behind outputs e next events := by simpa only [Ahead, hst] using ha
  have hstep : r.step m (.answered result) = r.follow m e next := by simp only [step.eq_def, hst]
  exact silent_ahead hstep (r.follow_deeds m e next) (follow_ahead hm hb)

/-- The user's turn has been appended to the record. -/
theorem noting_advances (hst : r.stage = .noting e) (ha : r.Ahead outputs events)
    (hs : reply.serves r.want = true) : r.Advances m reply outputs events := by
  cases reply <;> simp only [want, hst, Reply.serves, Bool.false_eq_true] at hs
  rename_i result
  have hf : r.Future outputs events := by simpa only [Ahead, hst] using ha
  have hstep : r.step m (.answered result) = ([], r.goTo .starting) := by
    simp only [step.eq_def, hst]
  exact silent_ahead hstep rfl hf

/-- The engine starts, and no resume is acknowledged. -/
theorem starting_advances (hst : r.stage = .starting) (ha : r.Ahead outputs events)
    (hs : reply.serves r.want = true) (hstart : ∀ reason, reply ≠ .failed reason)
    (hresume : Activity.resume? r.plan.options.runtimeState = none) :
    r.Advances m reply outputs events := by
  have hf : r.Future outputs events := by simpa only [Ahead, hst] using ha
  cases reply with
  | started fresh =>
    have hafter : r.afterStart fresh = .pumping := by
      rw [afterStart, Activity.resumed?, hresume]
      exact ite_self _
    have hstep : r.step m (.started fresh) = ([], r.goTo .pumping) := by
      simp only [step.eq_def, hst, hafter]
    exact silent_ahead hstep rfl hf
  | failed reason => exact absurd rfl (hstart reason)
  | _ => simp only [want, hst, Reply.serves, Bool.false_eq_true] at hs

/-- The engine gives its next output, or stops behind the last. -/
theorem pumping_advances (hst : r.stage = .pumping) (ha : r.Ahead outputs events)
    (hm : m.callbacks = {}) (hd : m.isDone = false) (hs : reply.serves r.want = true)
    (hplays : reply.output? = outputs.head?) : r.Advances m reply outputs events := by
  have hd : ¬m.isDone = true := by simp [hd]
  have hf : r.Future outputs events := by simpa only [Ahead, hst] using ha
  cases reply with
  | yielded fresh fresh' fresh'' o =>
    obtain ⟨rest, rfl⟩ : ∃ rest, outputs = o :: rest := by
      cases outputs with
      | nil => exact absurd hplays (Option.some_ne_none o)
      | cons o' rest => exact ⟨rest, by rw [Option.some.inj hplays]⟩
    have hstep : r.step m (.yielded fresh fresh' fresh'' o)
        = ([], r.afterOutput m fresh fresh' fresh'' o) := by
      simp only [step.eq_def, hst, if_neg hd]
    exact silent_ahead hstep rfl (afterOutput_ahead hm hf fresh fresh' fresh'')
  | ended =>
    obtain rfl : outputs = [] := List.head?_eq_none_iff.1 hplays.symm
    have hstep : r.step m .ended = ([], r.goTo (lastly r.closing)) := by
      simp only [step.eq_def, hst, if_neg hd]
    obtain ⟨said, t, hspeaks, rfl⟩ := hf
    cases hspeaks
    refine silent_ahead hstep rfl ⟨[], rfl, ?_⟩
    rw [Behind, if_pos (by rfl)]
  | _ => simp only [want, hst, Reply.serves, Bool.false_eq_true] at hs

/-- The record has been flushed. -/
theorem flushing_advances (hst : r.stage = .flushing) (ha : r.Ahead outputs events)
    (hs : reply.serves r.want = true) : r.Advances m reply outputs events := by
  cases reply <;> simp only [want, hst, Reply.serves, Bool.false_eq_true] at hs
  rename_i result
  have hnone : events = [] := by simpa only [Ahead, hst] using ha
  have hstep : r.step m (.answered result) = r.leave := by simp only [step.eq_def, hst]
  exact silent_ahead hstep rfl hnone

/-- Nothing is ahead of a run that is over. -/
theorem closed_advances (hst : r.stage = .closed) (ha : r.Ahead outputs events) :
    r.Advances m reply outputs events := by
  have hnone : events = [] := by simpa only [Ahead, hst] using ha
  have hstep : r.step m reply = ([], r) := by simp only [step.eq_def, hst]
  refine silent_ahead hstep rfl ?_
  simpa only [Ahead, hst] using hnone

/-- **A step delivers what was ahead first**, and leaves the rest ahead. -/
theorem step_advances (ha : r.Ahead outputs events) (hm : m.callbacks = {})
    (hd : m.isDone = false) (hs : reply.serves r.want = true)
    (hstart : ∀ reason, r.want = .start → reply ≠ .failed reason)
    (hplays : r.want = .output → reply.output? = outputs.head?)
    (hresume : Activity.resume? r.plan.options.runtimeState = none) :
    r.Advances m reply outputs events := by
  cases hst : r.stage with
  | offering e next => exact offering_advances hst ha hm hd hs
  | recording e next => exact recording_advances hst ha hm hs
  | noting e => exact noting_advances hst ha hs
  | starting =>
    have hwant : r.want = .start := by simp only [want, hst]
    exact starting_advances hst ha hs (fun reason => hstart reason hwant) hresume
  | pumping =>
    have hwant : r.want = .output := by simp only [want, hst]
    exact pumping_advances hst ha hm hd hs (hplays hwant)
  | flushing => exact flushing_advances hst ha hs
  | closed => exact closed_advances hst ha

/-! ## Runs that nothing disturbs -/

/-- How many outputs there are among the first replies. -/
def played (replies : Nat → Moment × Reply) (n : Nat) : Nat :=
  (firstReplies replies n).countP fun x => x.2.isOutput

/-- Nothing disturbs a run while its engine gives outputs and stops. -/
structure Performs (r : Run τ) (outputs : List Engine.Output)
    (replies : Nat → Moment × Reply) : Prop extends Served r replies where
  /-- There are no callbacks. -/
  plain : ∀ n, (replies n).1.callbacks = {}
  /-- The engine starts. -/
  starts : ∀ n reason, (r.after (firstReplies replies n)).want = .start →
    (replies n).2 ≠ .failed reason
  /-- When it is asked it gives the next output, or stops if there is none. -/
  plays : ∀ n, (r.after (firstReplies replies n)).want = .output →
    (replies n).2.output? = outputs[played replies n]?

theorem played_succ (replies : Nat → Moment × Reply) (n : Nat) :
    played replies (n + 1) = played replies n + if (replies n).2.isOutput then 1 else 0 := by
  rw [played, firstReplies_succ, List.countP_append, List.countP_singleton]
  rfl

/-- What a run has delivered, with what is ahead, stays the same. -/
theorem Performs.conserves {replies : Nat → Moment × Reply} (h : Performs r outputs replies)
    (hresume : Activity.resume? r.plan.options.runtimeState = none) (ha : r.Ahead outputs events)
    (n : Nat) : ∃ events',
      (r.after (firstReplies replies n)).Ahead (outputs.drop (played replies n)) events' ∧
        events = r.delivered (firstReplies replies n) ++ events' := by
  induction n with
  | zero => exact ⟨events, ha, rfl⟩
  | succ n ih =>
    obtain ⟨events', ha', rfl⟩ := ih
    rw [firstReplies_succ, after_append, delivered_append, played_succ, ← List.drop_drop]
    by_cases ho : (r.after (firstReplies replies n)).stage = .closed
    · have hnone : events' = [] := by simpa only [Ahead, ho] using ha'
      obtain ⟨hstays, hnothing⟩ := closed_stays ho [replies n]
      rw [hstays, delivered, delivered, hnothing, hnone, List.filterMap_nil, List.append_nil]
      refine ⟨[], ?_, (List.append_nil _).symm⟩
      simp only [Ahead, ho]
    · have hplan := (r.after_keeps (firstReplies replies n)).1
      have hplays (hw : (r.after (firstReplies replies n)).want = .output) :
          (replies n).2.output? = (outputs.drop (played replies n)).head? := by
        rw [h.plays n hw, List.head?_drop]
      obtain ⟨events'', ha'', rfl⟩ := step_advances ha' (h.plain n) (h.lasts n ho) (h.serves n)
        (h.starts n) hplays (hplan ▸ hresume)
      refine ⟨events'', ha'', ?_⟩
      rw [List.append_assoc, delivered, delivered, history, history, List.append_nil]

/-- **What an undisturbed run delivers.**  It is over at some time, and has delivered its start,
the result of a tool if that is its turn, and what its engine's outputs are translated into, up to
the first event that ends the run; if none does, the end of the run comes behind them. -/
theorem Performs.delivered {p : Plan τ} {config : Config} {hasRecorder : Bool}
    {replies : Nat → Moment × Reply} {said : List Event} {t : τ}
    (h : Performs (ofPlan p config hasRecorder) outputs replies)
    (hresume : Activity.resume? p.options.runtimeState = none)
    (hs : Speaks config.switches p.translator outputs said t) :
    ∃ n, ∀ k, n ≤ k →
      ((ofPlan p config hasRecorder).after (firstReplies replies k)).stage = .closed ∧
      (ofPlan p config hasRecorder).delivered (firstReplies replies k)
        = openingOf p :: (p.echo
          ++ upToEnd (said ++ [.runFinished p.request.threadId p.request.runId])) := by
  obtain ⟨n, ho⟩ := h.closed
  have ha : (ofPlan p config hasRecorder).Ahead outputs (openingOf p :: (p.echo
      ++ upToEnd (said ++ [.runFinished p.request.threadId p.request.runId]))) := by
    refine ⟨_, rfl, ?_⟩
    show if false = true then _ else _
    rw [if_neg Bool.false_ne_true]
    exact ⟨_, ⟨said, t, hs, rfl⟩, rfl⟩
  refine ⟨n, fun k hk => ?_⟩
  obtain ⟨rest, hrest⟩ := firstReplies_of_le replies hk
  have hclosed :
      ((ofPlan p config hasRecorder).after (firstReplies replies k)).stage = .closed := by
    rw [hrest, after_append, (closed_stays ho rest).1]
    exact ho
  obtain ⟨events', ha', he⟩ := h.conserves hresume ha k
  have hnone : events' = [] := by simpa only [Ahead, hclosed] using ha'
  rw [hnone, List.append_nil] at he
  exact ⟨hclosed, he.symm⟩

/-- A script performs a run that it brings to its end, if the engine starts and gives its outputs
in order. -/
theorem performs_scripted {script : List (Moment × Reply)}
    (hplain : ∀ x ∈ script, x.1.callbacks = {}) (hlasts : ∀ x ∈ script, x.1.isDone = false)
    (hstarts : ∀ x ∈ script, ∀ reason, x.2 ≠ .failed reason)
    (hserves : ∀ n, n < script.length →
      (scripted script n).2.serves (r.after (firstReplies (scripted script) n)).want = true)
    (hplays : ∀ n, n < script.length → (r.after (firstReplies (scripted script) n)).want = .output →
      (scripted script n).2.output? = outputs[played (scripted script) n]?)
    (hclosed : (r.after (firstReplies (scripted script) script.length)).stage = .closed) :
    Performs r outputs (scripted script) where
  toServed := by
    refine served_scripted (fun n h => ?_) hserves hclosed
    rw [scripted_early h]
    exact hlasts _ (List.getElem_mem h)
  plain n := by
    by_cases h : n < script.length
    · rw [scripted_early h]
      exact hplain _ (List.getElem_mem h)
    · rw [scripted_late (Nat.not_lt.1 h)]
      rfl
  starts n reason _ := by
    by_cases h : n < script.length
    · rw [scripted_early h]
      exact hstarts _ (List.getElem_mem h) reason
    · rw [scripted_late (Nat.not_lt.1 h)]
      nofun
  plays n hw := by
    by_cases h : n < script.length
    · exact hplays n h hw
    · rw [want_late hclosed (Nat.not_lt.1 h)] at hw
      cases hw

end Run

end AgentStream
