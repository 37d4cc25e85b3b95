/-
# How runs wind down

Until a run is over it has only events to deliver.  Once it is over it ends its scope, releases
the place of its session and closes its stream, in this order and each once; by then the record
is flushed.

* `Run.actions` : all that a run has to do besides, reply after reply;
* `Run.actions_winds` : deliveries, and behind them the wind-down of a run that is over;
* `Run.Winds.release`, `Run.Winds.close` : what comes before and behind its parts;
* `Run.flushed_of_closed` : a recorded run that is over has flushed its record last.
-/
import AgentStream.Proofs.Run.History

namespace AgentStream

namespace Run

variable {τ : Type}

/-- The actions are deliveries, and behind them the wind-down if the run is over. -/
def Winds (r : Run τ) (actions : List Action) : Prop :=
  ∃ events : List Event,
    actions = events.map .deliver ++ if r.stage = .closed then windDown else []

variable {r : Run τ} {stage : Stage} {done rest : List Action} {a : Action}

/-! ## The parts of a step -/

theorem winds_goTo (r : Run τ) (h : stage ≠ .closed) : Winds (r.goTo stage) [] := by
  have h : ¬(r.goTo stage).stage = .closed := h
  refine ⟨[], ?_⟩
  rw [if_neg h]
  rfl

theorem finish_winds (r : Run τ) : Winds r.finish.2 r.finish.1 := by
  unfold finish
  split
  · exact r.winds_goTo nofun
  · exact ⟨[], rfl⟩

theorem emitting_ne_closed (r : Run τ) (m : Moment) (events : List Event) :
    r.emitting m events ≠ .closed := by
  unfold emitting
  split
  · nofun
  · split <;> nofun

theorem afterOpening_ne_closed (r : Run τ) : r.afterOpening ≠ .closed := by
  unfold afterOpening
  split
  · nofun
  · split
    · split <;> nofun
    · nofun

theorem afterStart_ne_closed (r : Run τ) (fresh : String) : r.afterStart fresh ≠ .closed := by
  unfold afterStart
  split
  · split <;> nofun
  · nofun

theorem follow_winds (r : Run τ) (m : Moment) (e : Event) (next : Next) :
    Winds (r.follow m e next).2 (r.follow m e next).1 := by
  unfold follow
  split
  · exact r.finish_winds
  · cases next with
    | opened => exact r.winds_goTo r.afterOpening_ne_closed
    | echoed => exact r.winds_goTo nofun
    | acknowledged => exact r.winds_goTo nofun
    | emitted rest => exact r.winds_goTo (r.emitting_ne_closed m rest)
    | last => exact r.finish_winds

theorem deliver_winds (r : Run τ) (m : Moment) (e : Event) (next : Next) :
    Winds (r.deliver m e next).2 (r.deliver m e next).1 := by
  unfold deliver
  split
  · exact ⟨[e], rfl⟩
  · obtain ⟨events, hevents⟩ := r.follow_winds m e next
    exact ⟨e :: events, congrArg (Action.deliver e :: ·) hevents⟩

variable [Translator τ]

theorem afterOutput_winds (r : Run τ) (m : Moment) (fresh fresh' fresh'' : String)
    (o : Engine.Output) : Winds (r.afterOutput m fresh fresh' fresh'' o) [] := by
  unfold afterOutput
  cases m.callbacks.beforeTranslation m.view o with
  | error reason => exact r.winds_goTo nofun
  | ok o =>
    simp only
    split
    · rename_i reason translator _
      exact Run.winds_goTo { r with translator } nofun
    · rename_i events translator _
      exact Run.winds_goTo { r with translator } (Run.emitting_ne_closed _ m _)

/-! ## Steps -/

/-- A step of a run that is not over has events to deliver, and its wind-down if it ends the
run. -/
theorem step_winds (h : r.stage ≠ .closed) (m : Moment) (reply : Reply) :
    Winds (r.step m reply).2 (r.step m reply).1 := by
  unfold step
  split
  · split
    · exact r.finish_winds
    · exact r.deliver_winds ..
  · exact r.finish_winds
  · exact r.follow_winds ..
  · exact r.winds_goTo nofun
  · exact r.winds_goTo (r.afterStart_ne_closed _)
  · exact r.winds_goTo nofun
  · split
    · exact r.finish_winds
    · exact r.afterOutput_winds ..
  · split
    · exact r.finish_winds
    · exact r.winds_goTo nofun
  · exact r.finish_winds
  · exact ⟨[], rfl⟩
  · exact r.winds_goTo h

/-- What a run has to do besides, reply after reply. -/
def actions (r : Run τ) : List (Moment × Reply) → List Action
  | [] => []
  | (m, reply) :: rest => (r.step m reply).1 ++ actions (r.step m reply).2 rest

theorem actions_append (r : Run τ) (xs ys : List (Moment × Reply)) :
    r.actions (xs ++ ys) = r.actions xs ++ (r.after xs).actions ys := by
  induction xs generalizing r with
  | nil => rfl
  | cons x xs ih =>
    rw [List.cons_append, actions, actions, ih, List.append_assoc]
    rfl

/-- A run that is over has nothing to do any more. -/
theorem actions_closed (h : r.stage = .closed) (replies : List (Moment × Reply)) :
    r.actions replies = [] ∧ (r.after replies).stage = .closed := by
  induction replies with
  | nil => exact ⟨rfl, h⟩
  | cons x rest ih =>
    have hstep : r.step x.1 x.2 = ([], r) := by simp only [step.eq_def, h]
    rw [actions, after, hstep]
    exact ih

/-- **All that a run has to do besides**: it delivers events, and winds down once it is over. -/
theorem actions_winds (h : r.stage ≠ .closed) (replies : List (Moment × Reply)) :
    Winds (r.after replies) (r.actions replies) := by
  induction replies generalizing r with
  | nil => exact r.winds_goTo h
  | cons x rest ih =>
    obtain ⟨events, hevents⟩ := step_winds h x.1 x.2
    rw [actions, after, hevents]
    by_cases hc : (r.step x.1 x.2).2.stage = .closed
    · obtain ⟨hnone, hstays⟩ := actions_closed hc rest
      refine ⟨events, ?_⟩
      rw [hnone, if_pos hc, if_pos hstays, List.append_nil]
    · obtain ⟨events', hrest⟩ := ih hc
      refine ⟨events ++ events', ?_⟩
      rw [if_neg hc, List.append_nil, hrest, List.map_append, List.append_assoc]

/-! ## The wind-down -/

omit [Translator τ] in
/-- Whatever is no delivery belongs to the wind-down. -/
theorem Winds.split (h : Winds r (done ++ a :: rest)) (ha : ∀ e, a ≠ .deliver e) :
    r.stage = .closed ∧ ∃ (events : List Event) (before : List Action),
      done = events.map .deliver ++ before ∧ windDown = before ++ a :: rest := by
  obtain ⟨events, h⟩ := h
  have hmem : a ∉ events.map Action.deliver := fun hm => by
    obtain ⟨e, -, he⟩ := List.mem_map.1 hm
    exact ha e he.symm
  rcases List.append_eq_append_iff.1 h with ⟨xs, hxs, hrest⟩ | ⟨before, hdone, hrest⟩
  · -- The deliveries would go beyond the action, or end right before it.
    cases xs with
    | nil =>
      by_cases hc : r.stage = .closed
      · rw [if_pos hc] at hrest
        rw [List.append_nil] at hxs
        exact ⟨hc, events, [], by rw [List.append_nil, hxs], hrest.symm⟩
      · rw [if_neg hc] at hrest
        cases hrest
    | cons x xs =>
      obtain ⟨rfl, -⟩ := List.cons.inj hrest
      exact absurd (hxs ▸ List.mem_append_right done List.mem_cons_self) hmem
  · by_cases hc : r.stage = .closed
    · rw [if_pos hc] at hrest
      exact ⟨hc, events, before, hdone, hrest⟩
    · rw [if_neg hc] at hrest
      cases before <;> cases hrest

omit [Translator τ] in
/-- Before a run releases its place it has delivered events and ended its scope; then only its
stream is left to be closed. -/
theorem Winds.release (h : Winds r (done ++ .release :: rest)) :
    r.stage = .closed ∧ (∃ events : List Event, done = events.map .deliver ++ [.endScope]) ∧
      rest = [.close] := by
  obtain ⟨hc, events, before, rfl, hwind⟩ := h.split nofun
  match before with
  | [] => cases hwind
  | [_] =>
    cases hwind
    exact ⟨hc, ⟨events, rfl⟩, rfl⟩
  | [_, _] => cases hwind
  | _ :: _ :: _ :: before => cases before <;> cases hwind

omit [Translator τ] in
/-- Before a run closes its stream it has released its place. -/
theorem Winds.close (h : Winds r (done ++ .close :: rest)) :
    (∃ events : List Event, done = events.map .deliver ++ [.endScope, .release]) ∧ rest = [] := by
  obtain ⟨hc, events, before, rfl, hwind⟩ := h.split nofun
  match before with
  | [] => cases hwind
  | [_] => cases hwind
  | [_, _] =>
    cases hwind
    exact ⟨⟨events, rfl⟩, rfl⟩
  | _ :: _ :: _ :: before => cases before <;> cases hwind

/-- A recorded run that is over has flushed its record last. -/
theorem flushed_of_closed (p : Plan τ) (config : Config) (hasRecorder : Bool)
    {replies : List (Moment × Reply)}
    (hc : ((ofPlan p config hasRecorder).after replies).stage = .closed)
    (hr : (ofPlan p config hasRecorder).recorded = true) :
    ∃ before, (ofPlan p config hasRecorder).history replies = before ++ [.flush] := by
  have hh := ((history_sound p config hasRecorder replies).closed hc).2
  rw [if_pos ((after_keeps _ replies).2.trans hr)] at hh
  exact ⟨_, hh⟩

end Run

end AgentStream
