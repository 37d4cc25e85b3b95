/-
# Histories of runs

What a run does to its stream and to its record, over any sequence of replies at any moments.
A history has one shape: every event is delivered and at once appended to the record, the turn
of a user is noted right behind the start, and a flush ends it.

* `Run.history` : the deliveries, appends and flushes of a run, in their order;
* `trail` : the history that belongs to a list of delivered events;
* `Run.step_sound`, `Run.history_sound` : at every stage the history is the trail of the start
  and of events that do not end a run, with at most one that does behind them.
-/
import AgentStream.Run.Basic

namespace AgentStream

/-- What a run does to its stream and to its record. -/
inductive Deed
  /-- An event is put into the stream. -/
  | deliver (e : Event)
  /-- An event is passed to the recorder. -/
  | append (e : Event)
  /-- The recorder is told to flush. -/
  | flush
deriving DecidableEq

/-- The event that a deed delivers. -/
def Deed.delivered? : Deed → Option Event
  | .deliver e => some e
  | _ => none

/-- The delivery that an action is. -/
def Action.deed? : Action → Option Deed
  | .deliver e => some (.deliver e)
  | _ => none

/-- A call of the recorder, once it is answered. -/
def Reply.completes (call : Deed) : Reply → List Deed
  | .answered _ => [call]
  | _ => []

/-- The calls of the recorder that a reply completes. -/
def Want.calls : Want → Reply → List Deed
  | .append e, reply => reply.completes (.append e)
  | .flush, reply => reply.completes .flush
  | _, _ => []

namespace Run

variable {τ : Type}

/-! ## What a run never changes -/

theorem finish_keeps (r : Run τ) :
    r.finish.2.plan = r.plan ∧ r.finish.2.recorded = r.recorded := by
  unfold finish
  split <;> exact ⟨rfl, rfl⟩

theorem follow_keeps (r : Run τ) (m : Moment) (e : Event) (next : Next) :
    (r.follow m e next).2.plan = r.plan ∧ (r.follow m e next).2.recorded = r.recorded := by
  unfold follow
  split
  · exact r.finish_keeps
  · cases next <;> first | exact ⟨rfl, rfl⟩ | exact r.finish_keeps

variable [Translator τ]

theorem afterOutput_keeps (r : Run τ) (m : Moment) (fresh fresh' fresh'' : String)
    (o : Engine.Output) :
    (r.afterOutput m fresh fresh' fresh'' o).plan = r.plan ∧
      (r.afterOutput m fresh fresh' fresh'' o).recorded = r.recorded := by
  unfold afterOutput
  split
  · exact ⟨rfl, rfl⟩
  · simp only
    split <;> exact ⟨rfl, rfl⟩

/-- A step keeps the plan, and whether the run is recorded. -/
theorem step_keeps (r : Run τ) (m : Moment) (reply : Reply) :
    (r.step m reply).2.plan = r.plan ∧ (r.step m reply).2.recorded = r.recorded := by
  unfold step
  split
  · split
    · exact r.finish_keeps
    · unfold deliver
      split
      · exact ⟨rfl, rfl⟩
      · exact r.follow_keeps ..
  · exact r.finish_keeps
  · exact r.follow_keeps ..
  · exact ⟨rfl, rfl⟩
  · exact ⟨rfl, rfl⟩
  · exact ⟨rfl, rfl⟩
  · split
    · exact r.finish_keeps
    · exact r.afterOutput_keeps ..
  · split
    · exact r.finish_keeps
    · exact ⟨rfl, rfl⟩
  · exact r.finish_keeps
  · exact ⟨rfl, rfl⟩
  · exact ⟨rfl, rfl⟩

/-! ## Histories -/

/-- What one step does: the call of the recorder that was answered, then the deliveries. -/
def deeds (r : Run τ) (m : Moment) (reply : Reply) : List Deed :=
  r.want.calls reply ++ (r.step m reply).1.filterMap Action.deed?

/-- The run after replies, each at its moment. -/
def after (r : Run τ) : List (Moment × Reply) → Run τ
  | [] => r
  | (m, reply) :: rest => after (r.step m reply).2 rest

/-- What a run does when it is replied to one time after the other. -/
def history (r : Run τ) : List (Moment × Reply) → List Deed
  | [] => []
  | (m, reply) :: rest => r.deeds m reply ++ history (r.step m reply).2 rest

/-- The events that a run delivers. -/
def delivered (r : Run τ) (replies : List (Moment × Reply)) : List Event :=
  (r.history replies).filterMap Deed.delivered?

theorem after_append (r : Run τ) (xs ys : List (Moment × Reply)) :
    r.after (xs ++ ys) = (r.after xs).after ys := by
  induction xs generalizing r with
  | nil => rfl
  | cons x xs ih => exact ih (r.step x.1 x.2).2

theorem history_append (r : Run τ) (xs ys : List (Moment × Reply)) :
    r.history (xs ++ ys) = r.history xs ++ (r.after xs).history ys := by
  induction xs generalizing r with
  | nil => rfl
  | cons x xs ih =>
    simp only [List.cons_append, history, after, List.append_assoc]
    rw [ih]

theorem delivered_append (r : Run τ) (xs ys : List (Moment × Reply)) :
    r.delivered (xs ++ ys) = r.delivered xs ++ (r.after xs).delivered ys := by
  simp only [delivered, history_append, List.filterMap_append]

/-- Replies keep the plan, and whether the run is recorded. -/
theorem after_keeps (r : Run τ) (replies : List (Moment × Reply)) :
    (r.after replies).plan = r.plan ∧ (r.after replies).recorded = r.recorded := by
  induction replies generalizing r with
  | nil => exact ⟨rfl, rfl⟩
  | cons x rest ih =>
    obtain ⟨hp, hr⟩ := ih (r.step x.1 x.2).2
    obtain ⟨hp', hr'⟩ := r.step_keeps x.1 x.2
    exact ⟨hp.trans hp', hr.trans hr'⟩

end Run

/-! ## Trails -/

/-- The deeds for one event: its delivery, and its append where runs are recorded. -/
def mark (recorded : Bool) (e : Event) : List Deed :=
  if recorded then [.deliver e, .append e] else [.deliver e]

/-- The append of the user's turn, where runs are recorded and there is one. -/
def noted (recorded : Bool) (note? : Option Event) : List Deed :=
  if recorded then note?.toList.map .append else []

/-- The history that belongs to delivered events: the user's turn is noted behind the first. -/
def trail (recorded : Bool) (note? : Option Event) : List Event → List Deed
  | [] => []
  | e :: rest => mark recorded e ++ noted recorded note? ++ rest.flatMap (mark recorded)

theorem trail_concat (recorded : Bool) (note? : Option Event) (events : List Event) (e : Event)
    (h : events ≠ []) :
    trail recorded note? (events ++ [e]) = trail recorded note? events ++ mark recorded e := by
  cases events with
  | nil => exact absurd rfl h
  | cons a rest =>
    simp only [List.cons_append, trail, List.flatMap_append, List.append_assoc]
    simp

theorem delivered_mark (recorded : Bool) (e : Event) :
    (mark recorded e).filterMap Deed.delivered? = [e] := by
  cases recorded <;> rfl

theorem delivered_noted (recorded : Bool) (note? : Option Event) :
    (noted recorded note?).filterMap Deed.delivered? = [] := by
  cases recorded <;> cases note? <;> rfl

/-- A trail delivers the events that it belongs to. -/
theorem delivered_trail (recorded : Bool) (note? : Option Event) (events : List Event) :
    (trail recorded note? events).filterMap Deed.delivered? = events := by
  cases events with
  | nil => rfl
  | cons e rest =>
    rw [trail, List.filterMap_append, List.filterMap_append, delivered_mark, delivered_noted,
      List.append_nil, List.singleton_append]
    congr 1
    induction rest with
    | nil => rfl
    | cons a rest ih =>
      rw [List.flatMap_cons, List.filterMap_append, delivered_mark, ih, List.singleton_append]

namespace Run

variable {τ : Type}

/-! ## Sound histories -/

/-- Delivered events of a run that may go on: its start first, and none that ends it. -/
def Running (p : Plan τ) (events : List Event) : Prop :=
  events.head? = some (openingOf p) ∧ ∀ e ∈ events, e.isTerminal = false

/-- Delivered events of a run that has ended: by a terminal event, or else because it was
cut off. -/
def Ended (cut : Prop) (p : Plan τ) (events : List Event) : Prop :=
  (cut ∧ (events = [] ∨ Running p events)) ∨
    ∃ before e, Running p before ∧ e.isTerminal = true ∧ events = before ++ [e]

/-- The trail of events that a run has delivered. -/
def trailOf (r : Run τ) (events : List Event) : List Deed :=
  trail r.recorded (noteOf? r.plan) events

/-- What has been done by the time an event is delivered and recorded. -/
def Recorded (r : Run τ) (e : Event) : Next → List Deed → Prop
  | .opened, h => e = openingOf r.plan ∧ h = mark r.recorded e
  | next, h => (next = .last → e.isTerminal = true) ∧
      ∃ events, Running r.plan events ∧ h = r.trailOf (events ++ [e])

/-- What has been done by the time an event is offered. -/
def Offered (r : Run τ) (e : Event) : Next → List Deed → Prop
  | .opened, h => e = openingOf r.plan ∧ h = []
  | next, h => (next = .last → e.isTerminal = true) ∧
      ∃ events, Running r.plan events ∧ h = r.trailOf events

/-- What has been done at each stage of a run. -/
def Sound (cut : Prop) (r : Run τ) (h : List Deed) : Prop :=
  match r.stage with
  | .offering e next => r.Offered e next h
  | .recording e next => r.recorded = true ∧
      ∃ before, r.Offered e next before ∧ h = before ++ [.deliver e]
  | .noting e => r.recorded = true ∧ noteOf? r.plan = some e ∧
      h = mark true (openingOf r.plan)
  | .starting | .pumping => ∃ events, Running r.plan events ∧ h = r.trailOf events
  | .flushing => r.recorded = true ∧ ∃ events, Ended cut r.plan events ∧ h = r.trailOf events
  | .closed => ∃ events, Ended cut r.plan events ∧
      h = r.trailOf events ++ if r.recorded then [.flush] else []

variable {cut cut' : Prop} {p : Plan τ} {r : Run τ} {h : List Deed} {e : Event} {next : Next}
  {events : List Event}

theorem Running.ne_nil (hr : Running p events) : events ≠ [] := by
  rintro rfl
  cases hr.1

theorem Running.concat (hr : Running p events) (he : e.isTerminal = false) :
    Running p (events ++ [e]) := by
  constructor
  · rw [List.head?_append, hr.1]
    rfl
  · intro a ha
    rcases List.mem_append.1 ha with ha | ha
    · exact hr.2 a ha
    · rw [List.mem_singleton.1 ha]
      exact he

/-- The start alone. -/
theorem running_opening (p : Plan τ) : Running p [openingOf p] := by
  constructor
  · rfl
  · intro e he
    rw [List.mem_singleton.1 he]
    rfl

theorem Ended.mono (hc : cut → cut') (he : Ended cut p events) : Ended cut' p events :=
  he.imp_left fun he => ⟨hc he.1, he.2⟩

/-- An offered event that is delivered and recorded. -/
theorem Offered.recorded (ho : r.Offered e next h) :
    r.Recorded e next (h ++ mark r.recorded e) := by
  cases next with
  | opened =>
    obtain ⟨rfl, rfl⟩ := ho
    exact ⟨rfl, rfl⟩
  | _ =>
    obtain ⟨hl, events, hr, rfl⟩ := ho
    exact ⟨hl, events, hr, (trail_concat _ _ _ _ hr.ne_nil).symm⟩

theorem Sound.mono (hc : cut → cut') (hs : Sound cut r h) : Sound cut' r h := by
  unfold Sound at hs ⊢
  split at hs
  case h_6 =>
    obtain ⟨hr, events, he, rfl⟩ := hs
    exact ⟨hr, events, he.mono hc, rfl⟩
  case h_7 =>
    obtain ⟨events, he, rfl⟩ := hs
    exact ⟨events, he.mono hc, rfl⟩
  all_goals exact hs

/-! ## What has been delivered -/

/-- What has been delivered once an offered event is. -/
theorem Recorded.delivered (hr : r.Recorded e next h) :
    Ended True r.plan (h.filterMap Deed.delivered?) := by
  cases next with
  | opened =>
    obtain ⟨rfl, rfl⟩ := hr
    rw [delivered_mark]
    exact .inl ⟨trivial, .inr (running_opening r.plan)⟩
  | _ =>
    obtain ⟨-, events, hrun, rfl⟩ := hr
    rw [trailOf, delivered_trail]
    cases he : e.isTerminal with
    | false => exact .inl ⟨trivial, .inr (hrun.concat he)⟩
    | true => exact .inr ⟨events, e, hrun, he, rfl⟩

/-- What has been delivered while an event is offered. -/
theorem Offered.delivered (ho : r.Offered e next h) :
    Ended True r.plan (h.filterMap Deed.delivered?) := by
  cases next with
  | opened =>
    obtain ⟨-, rfl⟩ := ho
    exact .inl ⟨trivial, .inl rfl⟩
  | _ =>
    obtain ⟨-, events, hrun, rfl⟩ := ho
    rw [trailOf, delivered_trail]
    exact .inl ⟨trivial, .inr hrun⟩

/-- The history of a run that is over is the trail of what it has delivered, with a flush behind
it if the run is recorded. -/
theorem Sound.closed (hs : Sound cut r h) (ho : r.stage = .closed) :
    Ended cut r.plan (h.filterMap Deed.delivered?) ∧
      h = r.trailOf (h.filterMap Deed.delivered?) ++ if r.recorded then [.flush] else [] := by
  obtain ⟨events, he, rfl⟩ : ∃ events, Ended cut r.plan events ∧
      h = r.trailOf events ++ if r.recorded then [.flush] else [] := by
    simpa only [Sound, ho] using hs
  have hf : (if r.recorded = true then [Deed.flush] else []).filterMap Deed.delivered? = [] := by
    split <;> rfl
  have hd : (r.trailOf events ++ if r.recorded = true then [Deed.flush] else []).filterMap
      Deed.delivered? = events := by
    rw [List.filterMap_append, hf, List.append_nil, trailOf, delivered_trail]
  rw [hd]
  exact ⟨he, rfl⟩

/-- At every stage nothing has been delivered, or the start, events that do not end the run and
at most one behind them that does. -/
theorem Sound.delivered (hs : Sound cut r h) :
    Ended True r.plan (h.filterMap Deed.delivered?) := by
  by_cases ho : r.stage = .closed
  · exact (hs.closed ho).1.mono fun _ => trivial
  unfold Sound at hs
  split at hs
  case h_1 => exact hs.delivered
  case h_2 e next hst =>
    -- The delivery alone shows what the delivery and the append of the event do.
    obtain ⟨hr, before, ho, rfl⟩ := hs
    have h := ho.recorded.delivered
    rw [List.filterMap_append, delivered_mark] at h
    rw [List.filterMap_append]
    exact h
  case h_3 =>
    obtain ⟨-, -, rfl⟩ := hs
    rw [delivered_mark]
    exact .inl ⟨trivial, .inr (running_opening r.plan)⟩
  case h_4 | h_5 =>
    obtain ⟨events, hrun, rfl⟩ := hs
    rw [trailOf, delivered_trail]
    exact .inl ⟨trivial, .inr hrun⟩
  case h_6 =>
    obtain ⟨-, events, he, rfl⟩ := hs
    rw [trailOf, delivered_trail]
    exact he.mono fun _ => trivial
  case h_7 hst => exact absurd hst ho

/-! ## What the parts of a step leave behind -/

theorem sound_goTo_offering (ho : r.Offered e next h) : Sound cut (r.goTo (.offering e next)) h := by
  cases next <;> exact ho

/-- A last event has to be terminal. -/
theorem sound_lastly (he : e.isTerminal = true) (hr : Running r.plan events) :
    Sound cut (r.goTo (lastly e)) (r.trailOf events) :=
  ⟨fun _ => he, events, hr, rfl⟩

/-- A run that finishes flushes first if it is recorded. -/
theorem finish_sound (he : Ended cut r.plan events) : Sound cut r.finish.2 (r.trailOf events) := by
  unfold finish
  split
  · rename_i hr
    exact ⟨hr, events, he, rfl⟩
  · rename_i hr
    refine ⟨events, he, ?_⟩
    show r.trailOf events = r.trailOf events ++ if r.recorded = true then [.flush] else []
    rw [if_neg hr, List.append_nil]

theorem finish_deeds (r : Run τ) : r.finish.1.filterMap Action.deed? = [] := by
  unfold finish
  split <;> rfl

/-- A run that is cut off while it offers an event has ended. -/
theorem Offered.cutOff (hc : cut) (ho : r.Offered e next h) : Sound cut r.finish.2 h := by
  cases next with
  | opened =>
    obtain ⟨-, rfl⟩ := ho
    exact finish_sound (.inl ⟨hc, .inl rfl⟩)
  | _ =>
    obtain ⟨-, events, hr, rfl⟩ := ho
    exact finish_sound (.inl ⟨hc, .inr hr⟩)

/-- Events of an output are offered one by one; a failure is offered last. -/
theorem emitting_sound (m : Moment) (rest : List Event) (hr : Running r.plan events) :
    Sound cut (r.goTo (r.emitting m rest)) (r.trailOf events) := by
  cases rest with
  | nil => exact ⟨events, hr, rfl⟩
  | cons e rest =>
    cases hc : m.callbacks.afterTranslation m.view e with
    | ok e =>
      have ho : r.Offered e (.emitted rest) (r.trailOf events) := ⟨nofun, events, hr, rfl⟩
      simpa only [emitting, hc] using sound_goTo_offering ho
    | error reason => simpa only [emitting, hc] using sound_lastly rfl hr

/-- Behind the start comes the result of a tool or the note of the user's turn. -/
theorem afterOpening_sound (r : Run τ) :
    Sound cut (r.goTo r.afterOpening) (mark r.recorded (openingOf r.plan)) := by
  have plain (hn : noted r.recorded (noteOf? r.plan) = []) :
      mark r.recorded (openingOf r.plan) = r.trailOf [openingOf r.plan] := by
    simp [trailOf, trail, hn]
  unfold afterOpening
  split
  · -- The result of a tool is no turn of a user, so there is nothing to note.
    rename_i callId content hs
    have hn : noteOf? r.plan = none := by simp [noteOf?, Turn.record?, hs]
    refine sound_goTo_offering ⟨nofun, _, running_opening r.plan, plain ?_⟩
    rw [hn]
    cases r.recorded <;> rfl
  · split
    · rename_i note hn
      split
      · rename_i hr
        refine ⟨hr, hn, ?_⟩
        rw [hr]
        rfl
      · rename_i hr
        refine ⟨_, running_opening r.plan, plain ?_⟩
        rw [noted, if_neg hr]
    · rename_i hn
      refine ⟨_, running_opening r.plan, plain ?_⟩
      rw [hn]
      cases r.recorded <;> rfl

/-- What follows a delivered and recorded event. -/
theorem follow_sound (m : Moment) (hr : r.Recorded e next h) :
    Sound cut (r.follow m e next).2 h := by
  unfold follow
  by_cases he : e.isTerminal = true
  · rw [if_pos he]
    cases next with
    | opened =>
      -- The start of a run does not end it.
      rw [hr.1] at he
      cases he
    | _ =>
      obtain ⟨-, events, hrun, rfl⟩ := hr
      exact finish_sound (.inr ⟨events, e, hrun, he, rfl⟩)
  · rw [if_neg he]
    have he : e.isTerminal = false := by simpa using he
    cases next with
    | opened =>
      obtain ⟨rfl, rfl⟩ := hr
      exact afterOpening_sound r
    | last => exact absurd (hr.1 rfl) (by rw [he]; nofun)
    | emitted rest =>
      obtain ⟨-, events, hrun, rfl⟩ := hr
      exact emitting_sound m rest (hrun.concat he)
    | _ =>
      obtain ⟨-, events, hrun, rfl⟩ := hr
      exact ⟨_, hrun.concat he, rfl⟩

theorem follow_deeds (r : Run τ) (m : Moment) (e : Event) (next : Next) :
    (r.follow m e next).1.filterMap Action.deed? = [] := by
  unfold follow
  split
  · exact r.finish_deeds
  · cases next <;> first | rfl | exact r.finish_deeds

/-- An offered event that is delivered is recorded next, or else followed at once. -/
theorem deliver_sound (m : Moment) (ho : r.Offered e next h) :
    Sound cut (r.deliver m e next).2
      (h ++ (r.deliver m e next).1.filterMap Action.deed?) := by
  unfold deliver
  by_cases hr : r.recorded = true
  · rw [if_pos hr]
    exact ⟨hr, h, ho, rfl⟩
  · rw [if_neg hr]
    have hm : mark r.recorded e = [.deliver e] := by rw [mark, if_neg hr]
    have hd : (Action.deliver e :: (r.follow m e next).1).filterMap Action.deed?
        = [Deed.deliver e] := by
      rw [List.filterMap_cons, follow_deeds]
      rfl
    simp only [hd]
    exact follow_sound m (hm ▸ ho.recorded)

/-- Once the engine is started, a resume may be acknowledged. -/
theorem afterStart_sound (fresh : String) (hr : Running r.plan events) :
    Sound cut (r.goTo (r.afterStart fresh)) (r.trailOf events) := by
  have pumping : Sound cut (r.goTo .pumping) (r.trailOf events) := ⟨events, hr, rfl⟩
  unfold afterStart
  split
  · cases Activity.resumed? fresh r.plan.options.runtimeState with
    | none => exact pumping
    | some ack =>
      have ho : r.Offered ack .acknowledged (r.trailOf events) := ⟨nofun, events, hr, rfl⟩
      exact sound_goTo_offering ho
  · exact pumping

variable [Translator τ]

/-- What is done for an output of the engine. -/
theorem afterOutput_sound (m : Moment) (fresh fresh' fresh'' : String) (o : Engine.Output)
    (hr : Running r.plan events) :
    Sound cut (r.afterOutput m fresh fresh' fresh'' o) (r.trailOf events) := by
  unfold afterOutput
  cases m.callbacks.beforeTranslation m.view o with
  | error reason => exact sound_lastly rfl hr
  | ok o =>
    simp only
    rcases Translator.translate r.translator fresh'' o with ⟨result, translator⟩
    cases result with
    | error reason =>
      exact sound_lastly (r := { r with translator }) rfl hr
    | ok produced =>
      exact emitting_sound (r := { r with translator }) m _ hr

/-! ## Steps keep histories sound -/

/-- The reply shows that the scope is done or that the client has gone. -/
def CutsOff (m : Moment) (reply : Reply) : Prop :=
  m.isDone = true ∨ reply = .refused ∨ reply = .done

variable {r' : Run τ} {m : Moment} {reply : Reply} {actions : List Action}

/-- A step that delivers nothing adds the call that it answers. -/
theorem undelivered_sound (hstep : r.step m reply = (actions, r'))
    (ha : actions.filterMap Action.deed? = []) (hs : Sound cut r' (h ++ r.want.calls reply)) :
    Sound cut (r.step m reply).2 (h ++ r.deeds m reply) := by
  rw [deeds, hstep, ha, List.append_nil]
  exact hs

/-- A step that neither delivers anything nor answers a call adds nothing. -/
theorem silent_sound (hstep : r.step m reply = (actions, r'))
    (ha : actions.filterMap Action.deed? = []) (hc : r.want.calls reply = [])
    (hs : Sound cut r' h) : Sound cut (r.step m reply).2 (h ++ r.deeds m reply) := by
  apply undelivered_sound hstep ha
  rw [hc, List.append_nil]
  exact hs

/-- A reply that the run does not wait for. -/
theorem idle_sound (hstep : r.step m reply = ([], r)) (hc : r.want.calls reply = [])
    (hs : Sound cut r h) : Sound (cut ∨ cut') (r.step m reply).2 (h ++ r.deeds m reply) :=
  silent_sound hstep rfl hc (hs.mono Or.inl)

/-- An offered event is delivered, unless the run is cut off. -/
theorem step_offering_sound (hst : r.stage = .offering e next) (hs : Sound cut r h) :
    Sound (cut ∨ CutsOff m reply) (r.step m reply).2 (h ++ r.deeds m reply) := by
  have ho : r.Offered e next h := by simpa only [Sound, hst] using hs
  have hw : r.want.calls reply = [] := by simp only [want, hst]; rfl
  -- Here and below `step.eq_def` opens a step: its equations branch by branch are many, and slow.
  cases reply with
  | taken =>
    by_cases hd : m.isDone = true
    · have hstep : r.step m .taken = r.finish := by simp only [step.eq_def, hst, if_pos hd]
      exact silent_sound hstep r.finish_deeds hw (ho.cutOff (.inr (.inl hd)))
    · have hstep : r.step m .taken = r.deliver m e next := by
        simp only [step.eq_def, hst, if_neg hd]
      rw [deeds, hstep, hw, List.nil_append]
      exact deliver_sound m ho
  | refused =>
    have hstep : r.step m .refused = r.finish := by simp only [step.eq_def, hst]
    exact silent_sound hstep r.finish_deeds hw (ho.cutOff (.inr (.inr (.inl rfl))))
  | _ => exact idle_sound (by simp only [step.eq_def, hst]) hw hs

/-- Once a delivered event is appended, its delivery and its append are its mark. -/
theorem step_recording_sound (hst : r.stage = .recording e next) (hs : Sound cut r h) :
    Sound (cut ∨ CutsOff m reply) (r.step m reply).2 (h ++ r.deeds m reply) := by
  obtain ⟨hr, before, ho, rfl⟩ : r.recorded = true ∧
      ∃ before, r.Offered e next before ∧ h = before ++ [.deliver e] := by
    simpa only [Sound, hst] using hs
  have hw : r.want = .append e := by simp only [want, hst]
  cases reply with
  | answered result =>
    have hstep : r.step m (.answered result) = r.follow m e next := by
      simp only [step.eq_def, hst]
    have hm : [.deliver e] ++ [.append e] = mark r.recorded e := by rw [mark, if_pos hr]; rfl
    apply undelivered_sound hstep (r.follow_deeds m e next)
    rw [hw, Want.calls, Reply.completes, List.append_assoc, hm]
    exact follow_sound m ho.recorded
  | _ => exact idle_sound (by simp only [step.eq_def, hst]) (by rw [hw]; rfl) hs

/-- The user's turn completes the trail of the start. -/
theorem step_noting_sound (hst : r.stage = .noting e) (hs : Sound cut r h) :
    Sound (cut ∨ CutsOff m reply) (r.step m reply).2 (h ++ r.deeds m reply) := by
  obtain ⟨hr, hn, rfl⟩ : r.recorded = true ∧ noteOf? r.plan = some e ∧
      h = mark true (openingOf r.plan) := by simpa only [Sound, hst] using hs
  have hw : r.want = .append e := by simp only [want, hst]
  cases reply with
  | answered result =>
    have hstep : r.step m (.answered result) = ([], r.goTo .starting) := by
      simp only [step.eq_def, hst]
    have ht : r.trailOf [openingOf r.plan] = mark true (openingOf r.plan) ++ [.append e] := by
      rw [trailOf, hr, hn]
      rfl
    apply undelivered_sound hstep rfl
    rw [hw, Want.calls, Reply.completes, ← ht]
    exact ⟨_, running_opening r.plan, rfl⟩
  | _ => exact idle_sound (by simp only [step.eq_def, hst]) (by rw [hw]; rfl) hs

/-- The engine starts, or its failure is offered last. -/
theorem step_starting_sound (hst : r.stage = .starting) (hs : Sound cut r h) :
    Sound (cut ∨ CutsOff m reply) (r.step m reply).2 (h ++ r.deeds m reply) := by
  obtain ⟨events, hr, rfl⟩ : ∃ events, Running r.plan events ∧ h = r.trailOf events := by
    simpa only [Sound, hst] using hs
  have hw : r.want.calls reply = [] := by simp only [want, hst]; rfl
  cases reply with
  | started fresh =>
    have hstep : r.step m (.started fresh) = ([], r.goTo (r.afterStart fresh)) := by
      simp only [step.eq_def, hst]
    exact silent_sound hstep rfl hw (afterStart_sound fresh hr)
  | failed reason =>
    have hstep : r.step m (.failed reason)
        = ([], r.goTo (lastly (r.failure ("run agent: " ++ reason)))) := by
      simp only [step.eq_def, hst]
    exact silent_sound hstep rfl hw (sound_lastly rfl hr)
  | _ => exact idle_sound (by simp only [step.eq_def, hst]) hw hs

/-- The engine goes on or ends, unless the run is cut off. -/
theorem step_pumping_sound (hst : r.stage = .pumping) (hs : Sound cut r h) :
    Sound (cut ∨ CutsOff m reply) (r.step m reply).2 (h ++ r.deeds m reply) := by
  obtain ⟨events, hr, rfl⟩ : ∃ events, Running r.plan events ∧ h = r.trailOf events := by
    simpa only [Sound, hst] using hs
  have hw : r.want.calls reply = [] := by simp only [want, hst]; rfl
  have hcut (hc : CutsOff m reply) (hstep : r.step m reply = r.finish) :
      Sound (cut ∨ CutsOff m reply) (r.step m reply).2
        (r.trailOf events ++ r.deeds m reply) :=
    silent_sound hstep r.finish_deeds hw (finish_sound (.inl ⟨.inr hc, .inr hr⟩))
  cases reply with
  | yielded fresh fresh' fresh'' o =>
    by_cases hd : m.isDone = true
    · exact hcut (.inl hd) (by simp only [step.eq_def, hst, if_pos hd])
    · have hstep : r.step m (.yielded fresh fresh' fresh'' o)
          = ([], r.afterOutput m fresh fresh' fresh'' o) := by
        simp only [step.eq_def, hst, if_neg hd]
      exact silent_sound hstep rfl hw (afterOutput_sound m fresh fresh' fresh'' o hr)
  | ended =>
    by_cases hd : m.isDone = true
    · exact hcut (.inl hd) (by simp only [step.eq_def, hst, if_pos hd])
    · have hstep : r.step m .ended = ([], r.goTo (lastly r.closing)) := by
        simp only [step.eq_def, hst, if_neg hd]
      exact silent_sound hstep rfl hw (sound_lastly rfl hr)
  | done => exact hcut (.inr (.inr rfl)) (by simp only [step.eq_def, hst])
  | _ => exact idle_sound (by simp only [step.eq_def, hst]) hw hs

/-- Once the record is flushed the run is over. -/
theorem step_flushing_sound (hst : r.stage = .flushing) (hs : Sound cut r h) :
    Sound (cut ∨ CutsOff m reply) (r.step m reply).2 (h ++ r.deeds m reply) := by
  obtain ⟨hr, events, he, rfl⟩ : r.recorded = true ∧
      ∃ events, Ended cut r.plan events ∧ h = r.trailOf events := by
    simpa only [Sound, hst] using hs
  have hw : r.want = .flush := by simp only [want, hst]
  cases reply with
  | answered result =>
    have hstep : r.step m (.answered result) = r.leave := by simp only [step.eq_def, hst]
    apply undelivered_sound hstep rfl
    refine ⟨events, he.mono Or.inl, ?_⟩
    rw [hw]
    show _ = r.trailOf events ++ if r.recorded = true then [Deed.flush] else []
    rw [if_pos hr]
    rfl
  | _ => exact idle_sound (by simp only [step.eq_def, hst]) (by rw [hw]; rfl) hs

/-- **A step keeps the history sound**: what was done before it, with what it does, is what
has been done at the next stage. -/
theorem step_sound (hs : Sound cut r h) (m : Moment) (reply : Reply) :
    Sound (cut ∨ CutsOff m reply) (r.step m reply).2 (h ++ r.deeds m reply) := by
  cases hst : r.stage with
  | offering e next => exact step_offering_sound hst hs
  | recording e next => exact step_recording_sound hst hs
  | noting e => exact step_noting_sound hst hs
  | starting => exact step_starting_sound hst hs
  | pumping => exact step_pumping_sound hst hs
  | flushing => exact step_flushing_sound hst hs
  | closed =>
    have hw : r.want.calls reply = [] := by simp only [want, hst]; rfl
    exact idle_sound (by simp only [step.eq_def, hst]) hw hs

/-- Sound histories go on being sound. -/
theorem after_sound (hs : Sound cut r h) (replies : List (Moment × Reply)) :
    Sound (cut ∨ ∃ x ∈ replies, CutsOff x.1 x.2) (r.after replies) (h ++ r.history replies) := by
  induction replies generalizing cut r h with
  | nil =>
    rw [history, List.append_nil]
    exact hs.mono Or.inl
  | cons x rest ih =>
    rw [history, ← List.append_assoc]
    refine (ih (step_sound hs x.1 x.2)).mono ?_
    rintro ((hc | hc) | ⟨y, hy, hc⟩)
    · exact .inl hc
    · exact .inr ⟨x, List.mem_cons_self, hc⟩
    · exact .inr ⟨y, List.mem_cons_of_mem x hy, hc⟩

/-- **Every history of a run is sound.** -/
theorem history_sound (p : Plan τ) (config : Config) (hasRecorder : Bool)
    (replies : List (Moment × Reply)) :
    Sound (∃ x ∈ replies, CutsOff x.1 x.2) ((ofPlan p config hasRecorder).after replies)
      ((ofPlan p config hasRecorder).history replies) := by
  have hs : Sound False (ofPlan p config hasRecorder) [] := ⟨rfl, rfl⟩
  exact (after_sound hs replies).mono (Or.resolve_left · id)

end Run

end AgentStream
