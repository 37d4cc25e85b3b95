/-
# The record of runs

What a recorded run passes to the recorder is what it delivers: every event is appended once,
before the next one is delivered, the turn of a user stands right behind the start, and one
flush ends the record.  What the recorder answers makes no difference.

* `recordOf` : the record that belongs to a list of delivered events;
* `Turn.source_of_user`, `Turn.source_of_other` : where the turn of a request comes from;
* `Run.noteOf?_user`, `Run.noteOf?_tool` : what is noted of a turn;
* `Sound.isPrefix` : at every stage a history has got some way into its trail;
* `Reply.unheard` : a reply without what the recorder answers;
* `Run.history_recorded` : the record of every run.
-/
import AgentStream.Proofs.Run.LifeCycle

namespace AgentStream

/-! ## Records -/

/-- The event that a deed appends. -/
def Deed.appended? : Deed → Option Event
  | .append e => some e
  | _ => none

/-- The record that belongs to delivered events: the user's turn is noted behind the first. -/
def recordOf (note? : Option Event) : List Event → List Event
  | [] => []
  | e :: rest => e :: (note?.toList ++ rest)

/-- A deed is a call of the recorder. -/
def Deed.isCall : Deed → Bool
  | .deliver _ => false
  | _ => true

/-- The trail of a recorded run tells the recorder to append the record of its events. -/
theorem calls_trail (note? : Option Event) (events : List Event) :
    (trail true note? events).filter Deed.isCall = (recordOf note? events).map .append := by
  cases events with
  | nil => rfl
  | cons e rest =>
    have hn : (noted true note?).filter Deed.isCall = note?.toList.map .append := by
      cases note? <;> rfl
    have hr : (rest.flatMap (mark true)).filter Deed.isCall = rest.map .append := by
      induction rest with
      | nil => rfl
      | cons a rest ih =>
        rw [List.flatMap_cons, List.filter_append, ih]
        rfl
    rw [trail, List.filter_append, List.filter_append, hn, hr, recordOf, List.map_cons,
      List.map_append]
    rfl

/-- The trail of a recorded run appends the record of its events. -/
theorem appended_trail (note? : Option Event) (events : List Event) :
    (trail true note? events).filterMap Deed.appended? = recordOf note? events := by
  have hcalls (deeds : List Deed) :
      (deeds.filter Deed.isCall).filterMap Deed.appended? = deeds.filterMap Deed.appended? := by
    rw [List.filterMap_filter]
    refine congrArg (List.filterMap · deeds) (funext fun d => ?_)
    cases d <;> rfl
  rw [← hcalls, calls_trail, List.filterMap_map]
  exact List.filterMap_some

namespace Run

variable {τ : Type}

/-! ## Histories as prefixes of trails -/

/-- The deeds for one event begin its trail. -/
theorem mark_isPrefix (r : Run τ) (e : Event) : mark r.recorded e <+: r.trailOf [e] := by
  rw [trailOf, trail, List.append_assoc]
  exact List.prefix_append _ _

/-- What has been done by the time an event is recorded begins the trail of what has been
delivered. -/
theorem Recorded.isPrefix {r : Run τ} {e : Event} {next : Next} {h : List Deed}
    (hr : r.Recorded e next h) : h <+: r.trailOf (h.filterMap Deed.delivered?) := by
  cases next with
  | opened =>
    obtain ⟨rfl, rfl⟩ := hr
    rw [delivered_mark]
    exact r.mark_isPrefix _
  | _ =>
    obtain ⟨-, events, -, rfl⟩ := hr
    rw [trailOf, delivered_trail]
    exact List.prefix_refl _

theorem Offered.isPrefix {r : Run τ} {e : Event} {next : Next} {h : List Deed}
    (ho : r.Offered e next h) : h <+: r.trailOf (h.filterMap Deed.delivered?) := by
  cases next with
  | opened =>
    obtain ⟨-, rfl⟩ := ho
    exact List.nil_prefix
  | _ =>
    obtain ⟨-, events, -, rfl⟩ := ho
    rw [trailOf, delivered_trail]
    exact List.prefix_refl _

/-- Until the run is over its history begins the trail of what has been delivered; then a flush
comes behind that. -/
theorem Sound.isPrefix {cut : Prop} {r : Run τ} {h : List Deed} (hs : Sound cut r h)
    (hr : r.recorded = true) :
    h <+: r.trailOf (h.filterMap Deed.delivered?) ++ [.flush] := by
  by_cases ho : r.stage = .closed
  · have hh := (hs.closed ho).2
    rw [if_pos hr] at hh
    exact ⟨[], by rw [List.append_nil]; exact hh⟩
  refine List.IsPrefix.trans ?_ (List.prefix_append _ _)
  unfold Sound at hs
  split at hs
  case h_1 => exact hs.isPrefix
  case h_2 e next hst =>
    -- The append is still to come: the history lacks the last deed of the mark.
    obtain ⟨-, before, ho, rfl⟩ := hs
    have hm : mark r.recorded e = [.deliver e] ++ [.append e] := by rw [hr]; rfl
    have hp := ho.recorded.isPrefix
    rw [List.filterMap_append, delivered_mark, hm, ← List.append_assoc] at hp
    rw [List.filterMap_append]
    exact (List.prefix_append _ _).trans hp
  case h_3 =>
    obtain ⟨-, -, rfl⟩ := hs
    rw [delivered_mark, ← hr]
    exact r.mark_isPrefix _
  case h_4 | h_5 =>
    obtain ⟨events, -, rfl⟩ := hs
    rw [trailOf, delivered_trail]
    exact List.prefix_refl _
  case h_6 =>
    obtain ⟨-, events, -, rfl⟩ := hs
    rw [trailOf, delivered_trail]
    exact List.prefix_refl _
  case h_7 hst => exact absurd hst ho

end Run

/-! ## What is noted of a turn -/

/-- A user's message is kept as it is, under the id of the turn. -/
theorem Turn.source_of_user {fresh : String} {messages : List Message} {turn : Turn}
    {last : Message} (h : ofMessages fresh messages = .ok turn)
    (hlast : messages.getLast? = some last) (hrole : last.role = .user) :
    turn.source = .user { last with id := some turn.messageId } := by
  rw [ofMessages, hlast] at h
  simp only [ofMessage, hrole] at h
  cases hmessage : userMessage last.content with
  | error error =>
    rw [hmessage] at h
    cases h
  | ok message =>
    rw [hmessage] at h
    cases h
    simp only [hrole]

/-- Any other message that makes a turn is the result of a tool. -/
theorem Turn.source_of_other {fresh : String} {messages : List Message} {turn : Turn}
    {last : Message} (h : ofMessages fresh messages = .ok turn)
    (hlast : messages.getLast? = some last) (hrole : last.role ≠ .user) :
    ∃ callId content, turn.source = .tool callId content := by
  rw [ofMessages, hlast] at h
  simp only [ofMessage] at h
  split at h
  · rename_i huser
    exact absurd huser hrole
  · split at h
    · cases h
    · split at h
      · cases h
        exact ⟨_, _, rfl⟩
      · cases h
  · cases h

namespace Run

variable {τ : Type} {p : Plan τ}

/-- What a user says is noted under its name, or else that of the user. -/
theorem noteOf?_user {said : Message} (h : p.turn.source = .user said) :
    let name := if (said.name.getD "").isEmpty then p.userId else said.name.getD ""
    noteOf? p = some
      (Body.custom "user.message" (Message.toJson { said with name := some name }).sorted) := by
  intro name
  rw [noteOf?, Turn.record?, h, ← Message.withFallbackName_eq]
  rfl

/-- Of the result of a tool nothing is noted. -/
theorem noteOf?_tool {callId content : String} (h : p.turn.source = .tool callId content) :
    noteOf? p = none := by
  rw [noteOf?, Turn.record?, h]
  rfl

end Run

/-! ## What the recorder answers -/

/-- A reply without what the recorder answers. -/
def Reply.unheard : Reply → Reply
  | .answered _ => .answered (.ok ())
  | reply => reply

namespace Run

variable {τ : Type} [Translator τ]

/-- A step does not depend on what the recorder answers. -/
theorem step_unheard (r : Run τ) (m : Moment) (reply : Reply) :
    r.step m reply.unheard = r.step m reply := by
  cases reply with
  | answered result => cases h : r.stage <;> simp only [step.eq_def, Reply.unheard, h]
  | _ => rfl

theorem deeds_unheard (r : Run τ) (m : Moment) (reply : Reply) :
    r.deeds m reply.unheard = r.deeds m reply := by
  have hc : r.want.calls reply.unheard = r.want.calls reply := by
    cases reply <;> cases r.want <;> rfl
  rw [deeds, deeds, step_unheard, hc]

/-- A history does not depend on what the recorder answers. -/
theorem history_unheard (r : Run τ) (replies : List (Moment × Reply)) :
    r.history (replies.map fun x => (x.1, x.2.unheard)) = r.history replies := by
  induction replies generalizing r with
  | nil => rfl
  | cons x rest ih =>
    rw [List.map_cons, history, history, deeds_unheard, step_unheard, ih]

/-! ## The record of a run -/

/-- **The record of runs.**  For a run with a recorder whose session has a valid key: every
delivered event is appended at once, before the next one is delivered, and the turn of a user
right behind the start.  When the run is over, the recorder has been passed exactly the record
of what was delivered, and then been told once to flush.  What it answers makes no difference to
what is delivered.  The turn is appended as one `user.message` if a user's message ends the
request, under a name that is not empty, and nothing is if the result of a tool does. -/
theorem history_recorded (p : Plan τ) (config : Config) (ha : config.appName ≠ "")
    (hu : p.userId ≠ "") (ht : p.request.threadId ≠ "") :
    (∀ replies, let events := (ofPlan p config true).delivered replies
      (events = [] ∨ events.head? = some (.runStarted p.request.threadId p.request.runId)) ∧
      (ofPlan p config true).history replies <+: trail true (noteOf? p) events ++ [.flush] ∧
      (((ofPlan p config true).after replies).stage = .closed →
        (ofPlan p config true).history replies = trail true (noteOf? p) events ++ [.flush] ∧
        ((ofPlan p config true).history replies).filterMap Deed.appended?
          = recordOf (noteOf? p) events)) ∧
    (∀ replies replies' : List (Moment × Reply),
      replies.map (fun x => (x.1, x.2.unheard)) = replies'.map (fun x => (x.1, x.2.unheard)) →
      (ofPlan p config true).delivered replies = (ofPlan p config true).delivered replies') ∧
    (∀ said, p.turn.source = .user said →
      let name := if (said.name.getD "").isEmpty then p.userId else said.name.getD ""
      noteOf? p = some
        (Body.custom "user.message" (Message.toJson { said with name := some name }).sorted)) ∧
    (∀ callId content, p.turn.source = .tool callId content → noteOf? p = none) ∧
    ∀ fresh last, Turn.ofMessages fresh p.request.messages = .ok p.turn →
      p.request.messages.getLast? = some last →
      (last.role = .user → p.turn.source = .user { last with id := some p.turn.messageId }) ∧
      (last.role ≠ .user → ∃ callId content, p.turn.source = .tool callId content) := by
  have hv : (ofPlan p config true).recorded = true := by
    simp [ofPlan, Plan.key, SessionKey.isValid, ha, hu, ht]
  refine ⟨fun replies => ?record, fun replies replies' he => ?unheard, fun _ => noteOf?_user,
    fun _ _ => noteOf?_tool, fun fresh last hturn hlast =>
      ⟨Turn.source_of_user hturn hlast, Turn.source_of_other hturn hlast⟩⟩
  case record =>
    have hs := history_sound p config true replies
    obtain ⟨hp, hr⟩ := after_keeps (ofPlan p config true) replies
    rw [hv] at hr
    have hpre := hs.isPrefix hr
    have hd := hs.delivered
    rw [trailOf, hp, hr] at hpre
    rw [hp] at hd
    refine ⟨hd.head?, hpre, fun ho => ?_⟩
    have hh := (hs.closed ho).2
    rw [if_pos hr, trailOf, hp, hr] at hh
    refine ⟨hh, ?_⟩
    have happ := congrArg (List.filterMap Deed.appended?) hh
    rw [List.filterMap_append, appended_trail] at happ
    rw [happ]
    exact List.append_nil _
  case unheard => rw [delivered, delivered, ← history_unheard, he, history_unheard]

/-- The record of the greeting: the turn of the user stands behind the start, every other append
behind its delivery.  What is delivered does not depend on whether the first append fails. -/
theorem greeting_recorded :
    let said : Json :=
      .obj [("content", .str "hello"), ("name", .str "user"), ("role", .str "user")]
    greetingRun.history greetingReplies =
      [.deliver (.runStarted "thread" "run"), .append (.runStarted "thread" "run"),
        .append (Body.custom "user.message" said),
        .deliver (Body.textStart "r-1" .assistant), .append (Body.textStart "r-1" .assistant),
        .deliver (Body.textContent "r-1" "hi"), .append (Body.textContent "r-1" "hi"),
        .deliver (Body.textEnd "r-1"), .append (Body.textEnd "r-1"),
        .deliver (.runFinished "thread" "run"), .append (.runFinished "thread" "run"), .flush] ∧
    greetingRun.delivered [(quiet, .taken), (quiet, .answered (.error (.store ⟨"full"⟩)))]
      = greetingRun.delivered [(quiet, .taken), (quiet, .answered (.ok ()))] := by
  intro said
  have recorded := history_recorded greeting { appName := "app" } (by decide) (by decide)
    (by decide)
  have hclosed : (greetingRun.after greetingReplies).stage = .closed := by decide +kernel
  refine ⟨((recorded.1 greetingReplies).2.2 hclosed).1.trans ?_, recorded.2.1 _ _ rfl⟩
  rw [recorded.2.2.1 _ rfl]
  decide +kernel

end Run

end AgentStream
