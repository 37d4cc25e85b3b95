/-
# What a finished run leaves open

A run says that it has ended well in two ways: its framer says so when the engine marks the end of
its own run, and the run itself says so when the stream of the engine ends without a mark.  A framer
closes the frame before it says so; nothing closes it when the stream just ends.

* `Run.Goes`, `Run.Rests` : the frames of a run that goes on and of one that is over;
* `Run.step_framing` : a step keeps to the frames;
* `Run.finished_closed` : what a finished run leaves open.
-/
import AgentStream.Proofs.Framing.Ends
import AgentStream.Proofs.Replay.Causes
import AgentStream.Proofs.Run.Record
import AgentStream.Proofs.Run.Undisturbed

namespace AgentStream

/-! ## Events that touch no frame -/

/-- The event touches no text, and says not that the run has ended. -/
structure Event.Quiet (e : Event) : Prop where
  frames : ∀ opened, frameAfter opened e = some opened
  bare : e.Bare
  unfinished : e.body.finishes = false

theorem quiet_start (threadId runId : String) : (Event.runStarted threadId runId).Quiet :=
  ⟨fun _ => rfl, nofun, rfl⟩

theorem quiet_activity (id kind : String) (patch : List Json) :
    Event.Quiet (Body.activityDelta id kind patch) := ⟨fun _ => rfl, nofun, rfl⟩

theorem quiet_result (messageId callId content : String) :
    (Event.toolResult messageId callId content).Quiet := ⟨fun _ => rfl, fun _ => rfl, rfl⟩

theorem quiet_error (message : String) (runId : Option String) :
    (Event.runError message runId).Quiet := ⟨fun _ => rfl, nofun, rfl⟩

theorem framesAfter_quiet {events : List Event} (h : ∀ e ∈ events, e.Quiet)
    (opened : Option String) : framesAfter opened events = some opened := by
  induction events with
  | nil => rfl
  | cons e events ih =>
    obtain ⟨he, hevents⟩ := List.forall_mem_cons.1 h
    rw [framesAfter_cons, he.frames]
    exact ih hevents

/-- What a run shows of the nodes of a graph touches no frame. -/
theorem Activity.project_quiet (switches : Activity.Switches) (fresh fresh' : String)
    (o : Engine.Output) : ∀ e ∈ Activity.project switches fresh fresh' o, e.Quiet := by
  have hlifecycle : ∀ e ∈ Activity.lifecycle o fresh, e.Quiet := by
    unfold Activity.lifecycle
    split
    · exact List.forall_mem_singleton.2 (quiet_activity _ _ _)
    · exact List.forall_mem_nil _
  have hinterrupt : ∀ e ∈ Activity.interrupt o fresh', e.Quiet := by
    unfold Activity.interrupt
    split
    · exact List.forall_mem_singleton.2 (quiet_activity _ _ _)
    · exact List.forall_mem_nil _
  refine List.forall_mem_append.2 ⟨?_, ?_⟩
  · split
    · exact hlifecycle
    · exact List.forall_mem_nil _
  · split
    · exact hinterrupt
    · exact List.forall_mem_nil _

/-- The event starts or ends a text. -/
def Body.isEdge : Body → Bool
  | textStart .. => true
  | textEnd .. => true
  | _ => false

/-- The events of frames that a framer says carry nothing else. -/
theorem translate_bare (f : Framer) (fresh : String) (o : Engine.Output) :
    ∀ e ∈ (f.translate fresh o).1, e.Bare := by
  refine f.forall_translate fresh o (fun _ _ _ => rfl) (fun _ _ => nofun) (fun _ _ => nofun) ?_
  exact fun _ c _ _ f => Framer.forall_customReport (fun _ _ _ => rfl) (fun _ _ => nofun) f c

/-- The events of an output that are offered behind one. -/
def Next.rest : Next → List Event
  | .emitted rest => rest
  | _ => []

namespace Run

/-! ## Frames of a run -/

/-- A run goes on: what it has said, and then the events of an output, keep to the frames up to
where its framer stands.  Only the last of these says that the run has ended, and then no frame is
open or the stream of the engine has `ended`. -/
structure Goes (ended : Prop) (f : Framer) (said batch : List Event) : Prop where
  framed : f.Framed
  bare : ∀ e ∈ said ++ batch, e.Bare
  frames : framesAfter none (said ++ batch) = some f.openId?
  unfinished : Unfinished said
  last : ∀ front e behind, batch = front ++ e :: behind → e.body.finishes = true →
    behind = [] ∧ (ended ∨ f.isOpen = false)

/-- A run is over: if the last that it has said is that it has ended, all that it has said keeps to
the frames. -/
structure Rests (ended : Prop) (f : Framer) (said : List Event) : Prop where
  bare : ∀ e ∈ said, e.Bare
  finished : ∀ before e, said = before ++ [e] → e.body.finishes = true →
    framesAfter none said = some f.openId? ∧ (ended ∨ f.isOpen = false)

/-- What a run has said at each stage. -/
def Framing (ended : Prop) (r : Run Framer) (said : List Event) : Prop :=
  match r.stage with
  | .offering e next => Goes ended r.translator said (e :: next.rest)
  | .recording e next =>
    ∃ before, said = before ++ [e] ∧ Goes ended r.translator before (e :: next.rest)
  | .noting _ | .starting | .pumping => Goes ended r.translator said []
  | .flushing | .closed => Rests ended r.translator said

variable {ended : Prop} {f g : Framer} {said batch rest : List Event} {e : Event}
  {r : Run Framer} {m : Moment}

/-- A run that is cut off has not said that it has ended. -/
theorem Goes.stop (h : Goes ended f said batch) : Rests ended f said where
  bare e he := h.bare e (List.mem_append_left _ he)
  finished before e hs hf := by
    have he : e ∈ said := by simp [hs]
    rw [h.unfinished e he] at hf
    cases hf

/-- The last event of a run is said. -/
theorem Goes.finish (h : Goes ended f said (e :: rest)) : Rests ended f (said ++ [e]) where
  bare a ha := by
    refine h.bare a ?_
    rcases List.mem_append.1 ha with ha | ha
    · exact List.mem_append_left _ ha
    · exact List.mem_append_right _ (List.mem_singleton.1 ha ▸ List.mem_cons_self)
  finished before a hs hf := by
    obtain ⟨-, rfl⟩ : said = before ∧ e = a := by simpa using hs
    obtain ⟨rfl, hclosed⟩ := h.last [] e rest rfl hf
    exact ⟨h.frames, hclosed⟩

/-- An event that does not end the run is said. -/
theorem Goes.next (h : Goes ended f said (e :: rest)) (he : e.body.finishes = false) :
    Goes ended f (said ++ [e]) rest where
  framed := h.framed
  bare := by
    rw [List.append_assoc]
    exact h.bare
  frames := by
    rw [List.append_assoc]
    exact h.frames
  unfinished := unfinished_append.2 ⟨h.unfinished, unfinished_single he⟩
  last front a behind hb hf := h.last (e :: front) a behind (congrArg (e :: ·) hb) hf

/-- The events of an output are still to be said. -/
theorem Goes.produce (h : Goes ended f said []) (hg : g.Framed) (hb : ∀ e ∈ batch, e.Bare)
    (hframes : framesAfter f.openId? batch = some g.openId?)
    (hlast : ∀ front e behind, batch = front ++ e :: behind → e.body.finishes = true →
      behind = [] ∧ (ended ∨ g.isOpen = false)) : Goes ended g said batch where
  framed := hg
  bare := by
    have hsaid := h.bare
    rw [List.append_nil] at hsaid
    exact List.forall_mem_append.2 ⟨hsaid, hb⟩
  frames := by
    have hsaid := h.frames
    rw [List.append_nil] at hsaid
    rw [framesAfter_append, hsaid]
    exact hframes
  unfinished := h.unfinished
  last := hlast

/-- A quiet event is still to be said. -/
theorem Goes.offer (h : Goes ended f said []) (he : e.Quiet) : Goes ended f said [e] := by
  refine h.produce h.framed (List.forall_mem_singleton.2 he.bare)
    (framesAfter_quiet (List.forall_mem_singleton.2 he) _) fun front a behind hb hf => ?_
  obtain ⟨-, rfl, -⟩ : front = [] ∧ e = a ∧ behind = [] := by
    rcases front with _ | ⟨_, front⟩ <;> simp_all
  rw [he.unfinished] at hf
  cases hf

/-! ## What the parts of a step leave behind -/

theorem framing_finish (h : Rests ended r.translator said) : Framing ended r.finish.2 said := by
  unfold finish
  split <;> exact h

/-- The events of an output are offered one by one. -/
theorem framing_emitting (hm : m.callbacks = {}) (h : Goes ended r.translator said batch) :
    Framing ended (r.goTo (r.emitting m batch)) said := by
  cases batch with
  | nil => exact h
  | cons e rest =>
    have hafter : m.callbacks.afterTranslation m.view e = .ok e := by
      rw [hm]
      rfl
    simp only [emitting, hafter]
    exact h

/-- Behind the start nothing is said of a text. -/
theorem framing_afterOpening (h : Goes ended r.translator said []) :
    Framing ended (r.goTo r.afterOpening) said := by
  unfold afterOpening
  split
  · exact h.offer (quiet_result _ _ _)
  · split
    · split <;> exact h
    · exact h

theorem framing_afterStart (fresh : String) (h : Goes ended r.translator said []) :
    Framing ended (r.goTo (r.afterStart fresh)) said := by
  unfold afterStart
  split
  · cases hresume : Activity.resumed? fresh r.plan.options.runtimeState with
    | none => exact h
    | some ack =>
      obtain ⟨_, -, rfl⟩ := Option.map_eq_some_iff.1 hresume
      exact h.offer (quiet_activity _ _ _)
  · exact h

/-- What follows an event that was said. -/
theorem framing_follow (hm : m.callbacks = {}) {next : Next}
    (h : Goes ended r.translator said (e :: next.rest)) :
    Framing ended (r.follow m e next).2 (said ++ [e]) := by
  unfold follow
  split
  · exact framing_finish h.finish
  · rename_i hterminal
    have he : e.body.finishes = false := by
      cases hb : e.body <;> first | rfl | exact absurd (by rw [Event.isTerminal, hb]; rfl) hterminal
    cases next with
    | opened => exact framing_afterOpening (h.next he)
    | echoed => exact h.next he
    | acknowledged => exact h.next he
    | emitted rest => exact framing_emitting hm (h.next he)
    | last => exact framing_finish h.finish

theorem framing_deliver (hm : m.callbacks = {}) {next : Next}
    (h : Goes ended r.translator said (e :: next.rest)) :
    Framing ended (r.deliver m e next).2 (said ++ [e]) := by
  unfold deliver
  split
  · exact ⟨said, rfl, h⟩
  · exact framing_follow hm h

/-- A failure is offered last. -/
theorem framing_failure (message : String) (h : Goes ended r.translator said []) :
    Framing ended (r.goTo (lastly (r.failure message))) said :=
  h.offer (quiet_error _ _)

/-- The run says that it has ended because the stream of the engine has. -/
theorem framing_closing (he : ended) (h : Goes ended r.translator said []) :
    Framing ended (r.goTo (lastly r.closing)) said := by
  show Goes ended r.translator said [r.closing]
  refine h.produce h.framed ?_ rfl ?_
  · exact List.forall_mem_singleton.2 nofun
  · intro front a behind hb _
    -- The stream of the engine has ended: this alone may leave a frame open.
    rcases front with _ | ⟨_, front⟩
    · cases hb
      exact ⟨rfl, .inl he⟩
    · simp at hb

/-- The activity of an output and what the framer says of it are still to be said. -/
theorem framing_afterOutput (hm : m.callbacks = {}) (fresh fresh' fresh'' : String)
    (o : Engine.Output) (h : Goes ended r.translator said []) :
    Framing ended (r.afterOutput m fresh fresh' fresh'' o) said := by
  have hbefore : m.callbacks.beforeTranslation m.view o = .ok o := by
    rw [hm]
    rfl
  have hquiet := Activity.project_quiet r.switches fresh fresh' o
  have hmoves : Framer.Moves (fun _ => True) r.translator (r.translator.translate fresh'' o).1
      (r.translator.translate fresh'' o).2 := Framer.translate_moves h.framed trivial o
  simp only [afterOutput, hbefore, Translator.translate]
  refine framing_emitting (r := { r with translator := (r.translator.translate fresh'' o).2 }) hm
    (h.produce (hmoves.framed h.framed) ?bare ?frames ?last)
  case bare =>
    exact List.forall_mem_append.2 ⟨fun e he => (hquiet e he).bare, translate_bare _ _ o⟩
  case frames =>
    rw [framesAfter_append, framesAfter_quiet hquiet]
    exact hmoves.framesAfter
  case last =>
    intro front e behind hb hf
    -- Only the framer says that a run has ended, and the activity comes in front of what it says.
    have hactivity : Unfinished (Activity.project r.switches fresh fresh' o) :=
      fun e he => (hquiet e he).unfinished
    rcases r.translator.translate_finishesLast fresh'' o with hnone | ⟨hclosed, said, a, he, hsaid⟩
    · have hmem := hb ▸ List.mem_append_right front List.mem_cons_self
      rw [unfinished_append.2 ⟨hactivity, hnone⟩ e hmem] at hf
      cases hf
    · rw [he, ← List.append_assoc] at hb
      exact ⟨(unfinished_append.2 ⟨hactivity, hsaid⟩).behind hb hf, .inr hclosed⟩

/-! ## Steps -/

/-- What is done without a delivery says nothing. -/
theorem framing_silent {x : List Action × Run Framer} (ha : x.1.filterMap Action.deed? = [])
    (h : Framing ended x.2 said) :
    Framing ended x.2 (said ++ (x.1.filterMap Action.deed?).filterMap Deed.delivered?) := by
  rw [ha, List.filterMap_nil, List.append_nil]
  exact h

/-- A run that is cut off says nothing more. -/
theorem framing_cutOff (h : Goes ended r.translator said batch) :
    Framing ended r.finish.2
      (said ++ (r.finish.1.filterMap Action.deed?).filterMap Deed.delivered?) :=
  framing_silent r.finish_deeds (framing_finish h.stop)

/-- **A step keeps to the frames.** -/
theorem step_framing (h : Framing ended r said) (hm : m.callbacks = {}) {reply : Reply}
    (he : reply = .ended → ended) :
    Framing ended (r.step m reply).2 (said ++ (r.deeds m reply).filterMap Deed.delivered?) := by
  rw [deeds_delivered]
  unfold step
  split
  case h_1 e next hst =>
    have h : Goes ended r.translator said (e :: next.rest) := by simpa only [Framing, hst] using h
    split
    · exact framing_cutOff h
    · rw [deliver_deeds]
      exact framing_deliver hm h
  case h_2 e next hst =>
    have h : Goes ended r.translator said (e :: next.rest) := by simpa only [Framing, hst] using h
    exact framing_cutOff h
  case h_3 e next _ hst =>
    obtain ⟨before, rfl, hsaid⟩ : ∃ before, said = before ++ [e] ∧
        Goes ended r.translator before (e :: next.rest) := by simpa only [Framing, hst] using h
    exact framing_silent (r.follow_deeds m e next) (framing_follow hm hsaid)
  case h_4 e _ hst =>
    have h : Goes ended r.translator said [] := by simpa only [Framing, hst] using h
    exact framing_silent (x := ([], r.goTo .starting)) rfl h
  case h_5 fresh hst =>
    have h : Goes ended r.translator said [] := by simpa only [Framing, hst] using h
    exact framing_silent (x := ([], r.goTo (r.afterStart fresh))) rfl (framing_afterStart fresh h)
  case h_6 reason hst =>
    have h : Goes ended r.translator said [] := by simpa only [Framing, hst] using h
    exact framing_silent (x := ([], _)) rfl (framing_failure ("run agent: " ++ reason) h)
  case h_7 fresh fresh' fresh'' o hst =>
    have h : Goes ended r.translator said [] := by simpa only [Framing, hst] using h
    split
    · exact framing_cutOff h
    · exact framing_silent (x := ([], _)) rfl (framing_afterOutput hm fresh fresh' fresh'' o h)
  case h_8 hst =>
    have h : Goes ended r.translator said [] := by simpa only [Framing, hst] using h
    split
    · exact framing_cutOff h
    · exact framing_silent (x := ([], _)) rfl (framing_closing (he rfl) h)
  case h_9 hst =>
    have h : Goes ended r.translator said [] := by simpa only [Framing, hst] using h
    exact framing_cutOff h
  case h_10 hst =>
    have h : Rests ended r.translator said := by simpa only [Framing, hst] using h
    exact framing_silent (x := r.leave) rfl h
  case h_11 => exact framing_silent (x := ([], r)) rfl h

/-- **A run keeps to the frames.** -/
theorem after_framing (h : Framing ended r said) {replies : List (Moment × Reply)}
    (hm : ∀ x ∈ replies, x.1.callbacks = {}) (he : ∀ x ∈ replies, x.2 = .ended → ended) :
    Framing ended (r.after replies) (said ++ r.delivered replies) := by
  induction replies generalizing r said with
  | nil =>
    rw [show r.delivered [] = [] from rfl, List.append_nil]
    exact h
  | cons x rest ih =>
    obtain ⟨hmx, hm⟩ := List.forall_mem_cons.1 hm
    obtain ⟨hex, he⟩ := List.forall_mem_cons.1 he
    have hsplit : r.delivered (x :: rest) = (r.deeds x.1 x.2).filterMap Deed.delivered?
        ++ (r.step x.1 x.2).2.delivered rest := List.filterMap_append
    rw [hsplit, ← List.append_assoc]
    exact ih (step_framing h hmx hex) hm he

/-- A run with a new framer has said nothing yet. -/
theorem framing_ofPlan {p : Plan Framer} {threadId runId : String}
    (hnew : p.translator = { threadId, runId }) (config : Config) (hasRecorder : Bool) :
    Framing ended (ofPlan p config hasRecorder) [] := by
  have hnothing : Goes ended p.translator [] [] := by
    rw [hnew]
    exact ⟨nofun, List.forall_mem_nil _, rfl, unfinished_nil, fun front e behind hb => by simp at hb⟩
  exact hnothing.offer (quiet_start _ _)

/-- At every stage, if the last that a run has said is that it has ended, all that it has said keeps
to the frames. -/
theorem Framing.rests (h : Framing ended r said) : Rests ended r.translator said := by
  unfold Framing at h
  split at h
  case h_2 =>
    obtain ⟨before, rfl, h⟩ := h
    exact h.finish
  case h_6 | h_7 => exact h
  all_goals exact h.stop

/-! ## Records -/

/-- What is recorded is what was delivered, and the turn of the user. -/
theorem mem_recordOf {note? : Option Event} {events : List Event}
    (h : e ∈ recordOf note? events) : e ∈ events ∨ note? = some e := by
  cases events with
  | nil => cases h
  | cons a events =>
    rcases List.mem_cons.1 h with rfl | h
    · exact .inl List.mem_cons_self
    · rcases List.mem_append.1 h with h | h
      · exact .inr (Option.mem_toList.1 h)
      · exact .inl (List.mem_cons_of_mem a h)

theorem mem_recordOf_of_mem {note? : Option Event} {events : List Event} (h : e ∈ events) :
    e ∈ recordOf note? events := by
  cases events with
  | nil => cases h
  | cons a events =>
    rcases List.mem_cons.1 h with rfl | h
    · exact List.mem_cons_self
    · exact List.mem_cons_of_mem a (List.mem_append_right _ h)

/-- If every message that starts ends behind its start, the replay of a record finds none open. -/
theorem replay_ne_notClosed {p : Plan Framer} {events stored : List Event} {log : List Entry}
    (hb : ∀ e ∈ events, e.Bare)
    (hends : ∀ front e behind id role, events = front ++ e :: behind →
      e.body = .textStart id role → ∃ a ∈ behind, a.body = .textEnd id)
    (hj : Joins Merger.merge? (recordOf (noteOf? p) events) stored) (hl : Holds log stored)
    (app user id : String) : (replay app user log).error ≠ some (.textNotClosed id) := by
  intro herror
  obtain ⟨⟨role, hstart⟩, hend⟩ := replay_notClosed herror
  have hnote {e : Event} (h : noteOf? p = some e) :
      ∃ value, e.body = .custom Replay.userMessageName value := by
    obtain ⟨m, -, rfl⟩ := Option.map_eq_some_iff.1 h
    exact ⟨_, rfl⟩
  have hbare : ∀ e ∈ recordOf (noteOf? p) events, e.Bare := by
    intro e he
    rcases mem_recordOf he with he | he
    · exact hb e he
    · obtain ⟨value, hbody⟩ := hnote he
      intro hf
      rw [hbody] at hf
      cases hf
  -- The log starts and ends the same texts as the record.
  have hfilter := filter_bodies hl hj hbare (p := Body.isEdge)
    (fun b hb => by cases b <;> first | rfl | cases hb) fun _ _ => rfl
  have hedge (b : Body) (hb : b.isEdge = true) : b ∈ log.filterMap Entry.body? ↔
      b ∈ (recordOf (noteOf? p) events).map (·.body) := by
    rw [← and_iff_left (a := b ∈ log.filterMap Entry.body?) hb, ← List.mem_filter, hfilter,
      List.mem_filter, and_iff_left hb]
  obtain ⟨e, he, hbody⟩ := List.mem_map.1 ((hedge _ rfl).1 hstart)
  rcases mem_recordOf he with he | he
  · obtain ⟨front, behind, hsplit⟩ := List.append_of_mem he
    obtain ⟨a, ha, haend⟩ := hends front e behind id role hsplit hbody
    have hmem : a ∈ events := by
      rw [hsplit]
      exact List.mem_append_right _ (List.mem_cons_of_mem e ha)
    exact hend ((hedge _ rfl).2 (haend ▸ List.mem_map_of_mem (mem_recordOf_of_mem hmem)))
  · -- The turn of a user starts no text.
    obtain ⟨value, hcustom⟩ := hnote he
    rw [hbody] at hcustom
    cases hcustom

/-! ## Finished runs -/

/-- **What a finished run leaves open.**  A run with a new framer and no callbacks has said last
that it has ended: what it has said keeps to the frames, up to where its framer stands.  So every
message that was started ended behind its start just if the framer has none open, which is so unless
the stream of the engine ended without a mark; and then no replay of the record finds a message
open. -/
theorem finished_closed (p : Plan Framer) {threadId runId : String}
    (hnew : p.translator = { threadId, runId }) (config : Config) (hasRecorder : Bool)
    {replies : List (Moment × Reply)} (hm : ∀ x ∈ replies, x.1.callbacks = {}) {last : Event}
    (hlast : ((ofPlan p config hasRecorder).delivered replies).getLast? = some last)
    (hf : last.kind = "RUN_FINISHED") :
    let events := (ofPlan p config hasRecorder).delivered replies
    let f := ((ofPlan p config hasRecorder).after replies).translator
    framesAfter none events = some (if f.isOpen then some f.lastId else none) ∧
    ((∀ front e behind id role, events = front ++ e :: behind → e.body = .textStart id role →
      ∃ a ∈ behind, a.body = .textEnd id) ↔ f.isOpen = false) ∧
    (.ended ∉ replies.map Prod.snd → f.isOpen = false) ∧
    (f.isOpen = false → ∀ stored log, Joins Merger.merge? (recordOf (noteOf? p) events) stored →
      Holds log stored → ∀ app user id,
        (replay app user log).error ≠ some (.textNotClosed id)) := by
  intro events f
  have hstart : Framing (.ended ∈ replies.map Prod.snd) (ofPlan p config hasRecorder) [] :=
    framing_ofPlan hnew config hasRecorder
  have hrests := (after_framing hstart hm fun x hx he => he ▸ List.mem_map_of_mem hx).rests
  rw [List.nil_append] at hrests
  obtain ⟨before, hbefore⟩ := List.getLast?_eq_some_iff.1 hlast
  obtain ⟨hframes, hclosed⟩ := hrests.finished before last hbefore
    (by rw [Body.finishes_eq]; exact beq_iff_eq.2 hf)
  have hopen : f.openId? = none ↔ f.isOpen = false := by
    unfold Framer.openId?
    cases f.isOpen <;> simp
  have hiff := (closed_iff hframes).trans hopen
  refine ⟨hframes, hiff, fun hnone => hclosed.resolve_left hnone, fun hc stored log hj hl => ?_⟩
  exact replay_ne_notClosed hrests.bare (hiff.2 hc) hj hl

/-- The greeting, in which the engine says one whole message before its stream ends, leaves nothing
open, and the replay of its record finds nothing open. -/
theorem greeting_finished :
    greetingRun.delivered greetingReplies = greetingEvents ++ [.runFinished "thread" "run"] ∧
    (∀ front e behind id role,
      greetingEvents ++ [.runFinished "thread" "run"] = front ++ e :: behind →
      e.body = .textStart id role → ∃ a ∈ behind, a.body = .textEnd id) ∧
    ∀ user id, (replay "app" user ((recordOf (noteOf? greeting)
      (greetingRun.delivered greetingReplies)).mapIdx fun i e => .ofEvent i e)).error
        ≠ some (.textNotClosed id) := by
  have hdelivered : greetingRun.delivered greetingReplies
      = greetingEvents ++ [.runFinished "thread" "run"] := by decide +kernel
  have hclosed : (greetingRun.after greetingReplies).translator.isOpen = false := by decide +kernel
  have hm : ∀ x ∈ greetingReplies, x.1.callbacks = {} := by
    simp only [greetingReplies, List.forall_mem_map]
    exact fun _ _ => rfl
  have hlast : (greetingRun.delivered greetingReplies).getLast?
      = some (.runFinished "thread" "run") := by decide +kernel
  have finished := finished_closed greeting rfl { appName := "app" } true hm hlast rfl
  refine ⟨hdelivered, ?_, fun user id => ?_⟩
  · rw [← hdelivered]
    exact finished.2.1.2 hclosed
  · exact finished.2.2.2 hclosed _ _ (Joins.refl _) (holds_mapIdx _ _) "app" user id

/-- The engine streams the first piece of a message, and its stream ends. -/
def brokenOffReplies : List (Moment × Reply) :=
  [.taken, .answered (.ok ()), .answered (.ok ()), .started "s",
    .yielded "a" "b" "c" { id := "o-1", response := some (.chunk "m" "a") },
    .taken, .answered (.ok ()), .taken, .answered (.ok ()), .ended, .taken, .answered (.ok ()),
    .answered (.ok ())].map (quiet, ·)

/-- A run whose engine stops within a message is finished all the same, and the message is left
open. -/
theorem brokenOff_notClosed :
    greetingRun.delivered brokenOffReplies = [Event.runStarted "thread" "run",
      Body.textStart "m" .assistant, Body.textContent "m" "a", Event.runFinished "thread" "run"] ∧
    (replay "app" "user" ((recordOf (noteOf? greeting)
      (greetingRun.delivered brokenOffReplies)).mapIdx fun i e => .ofEvent i e)).error
        = some (.textNotClosed "m") := by
  decide +kernel

end Run

end AgentStream
