/-
# Where frames end

Events whose frames are in place leave no message open just if every message that starts among them
ends behind its start.  A framer says that a run has ended behind all else that it says of an
output, and has closed the frame before that.

* `closed_iff` : what it means that no message is left open;
* `Unfinished` : events that do not say that the run has ended;
* `Framer.translate_finishesLast` : an output that says so leaves no frame open.
-/
import AgentStream.Proofs.Framing.Frames
import AgentStream.Proofs.Framing.Said

namespace AgentStream

open Engine (Output Response)

/-! ## Messages that are left open -/

variable {events : List Event} {opened : Option String} {id : String}

theorem framesAfter_cons (opened : Option String) (e : Event) (events : List Event) :
    framesAfter opened (e :: events)
      = (frameAfter opened e).bind fun opened => framesAfter opened events := rfl

/-- A message that is open before events of which none is left open ends among them. -/
theorem ends_of_framesAfter (h : framesAfter (some id) events = some none) :
    ∃ e ∈ events, e.body = .textEnd id := by
  induction events with
  | nil => cases h
  | cons e events ih =>
    rw [framesAfter_cons] at h
    obtain ⟨opened', he, hrest⟩ := Option.bind_eq_some_iff.1 h
    by_cases hb : e.body = .textEnd id
    · exact ⟨e, List.mem_cons_self, hb⟩
    · -- Every other event that is in place leaves the message open.
      have hopen : opened' = some id := by
        unfold frameAfter at he
        split at he <;> simp_all
      rw [hopen] at hrest
      obtain ⟨a, ha, hend⟩ := ih hrest
      exact ⟨a, List.mem_cons_of_mem e ha, hend⟩

/-- A message that is left open was open before and does not end, or it starts and does not end
behind its start. -/
theorem starts_of_framesAfter (h : framesAfter opened events = some (some id)) :
    (opened = some id ∧ ∀ e ∈ events, e.body ≠ .textEnd id) ∨
      ∃ front e role behind, events = front ++ e :: behind ∧ e.body = .textStart id role ∧
        ∀ a ∈ behind, a.body ≠ .textEnd id := by
  induction events generalizing opened with
  | nil => exact .inl ⟨Option.some.inj h, List.forall_mem_nil _⟩
  | cons e events ih =>
    rw [framesAfter_cons] at h
    obtain ⟨opened', he, hrest⟩ := Option.bind_eq_some_iff.1 h
    rcases ih hrest with ⟨rfl, hnone⟩ | ⟨front, a, role, behind, rfl, ha, hnone⟩
    · cases hb : e.body with
      | textStart id' role =>
        simp only [frameAfter, hb] at he
        split at he
        · cases he
          exact .inr ⟨[], e, role, events, rfl, hb, hnone⟩
        · cases he
      | textEnd id' =>
        simp only [frameAfter, hb] at he
        split at he <;> cases he
      | _ =>
        refine .inl ⟨?_, List.forall_mem_cons.2 ⟨by simp [hb], hnone⟩⟩
        simp only [frameAfter, hb] at he
        first
          | exact Option.some.inj he
          | split at he
            · rename_i ho
              cases he
              exact ho
            · cases he
    · exact .inr ⟨e :: front, a, role, behind, rfl, ha, hnone⟩

/-- **No message is left open** just if every message that starts ends behind its start. -/
theorem closed_iff (h : framesAfter none events = some opened) :
    (∀ front e behind id role, events = front ++ e :: behind → e.body = .textStart id role →
      ∃ a ∈ behind, a.body = .textEnd id) ↔ opened = none := by
  constructor
  · intro hends
    cases opened with
    | none => rfl
    | some id =>
      rcases starts_of_framesAfter h with ⟨hn, -⟩ | ⟨front, e, role, behind, he, hb, hnone⟩
      · cases hn
      · -- The message whose frame is open was started last, and has not ended since.
        obtain ⟨a, ha, hend⟩ := hends front e behind id role he hb
        exact absurd hend (hnone a ha)
  · rintro rfl front e behind id role rfl hb
    rw [framesAfter_append] at h
    obtain ⟨opened', -, h⟩ := Option.bind_eq_some_iff.1 h
    rw [framesAfter_cons] at h
    obtain ⟨opened'', he, h⟩ := Option.bind_eq_some_iff.1 h
    simp only [frameAfter, hb] at he
    split at he
    · cases he
      exact ends_of_framesAfter h
    · cases he

/-! ## Events that do not end a run -/

/-- The event says that the run has ended well. -/
def Body.finishes : Body → Bool
  | runFinished .. => true
  | _ => false

theorem Body.finishes_eq (b : Body) : b.finishes = (b.kind == "RUN_FINISHED") := by
  cases b <;> rfl

/-- None of the events says that the run has ended well. -/
def Unfinished (events : List Event) : Prop := ∀ e ∈ events, e.body.finishes = false

theorem unfinished_nil : Unfinished [] := List.forall_mem_nil _

theorem unfinished_append {events events' : List Event} :
    Unfinished (events ++ events') ↔ Unfinished events ∧ Unfinished events' :=
  List.forall_mem_append

theorem unfinished_single {e : Event} (h : e.body.finishes = false) : Unfinished [e] :=
  List.forall_mem_singleton.2 h

/-- If only the last event may say that the run has ended, nothing comes behind one that does. -/
theorem Unfinished.behind {said front behind : List Event} {e last : Event} (h : Unfinished said)
    (he : said ++ [last] = front ++ e :: behind) (hf : e.body.finishes = true) : behind = [] := by
  rcases List.eq_nil_or_concat behind with rfl | ⟨behind, a, rfl⟩
  · rfl
  · rw [List.concat_eq_append, ← List.cons_append, ← List.append_assoc] at he
    have hmem : e ∈ said := by simp [(List.append_inj' he rfl).1]
    rw [h e hmem] at hf
    cases hf

namespace Framer

variable {f : Framer}

theorem unfinished_frame (b : Body) (hb : b.isFrame = true) : b.finishes = false := by
  cases b <;> first | rfl | cases hb

/-- The step of an output says that the run has ended behind all else, and leaves no frame open
then. -/
def FinishesLast (s : Step) : Prop :=
  Unfinished s.1 ∨ s.2.isOpen = false ∧ ∃ said e, s.1 = said ++ [e] ∧ Unfinished said

theorem FinishesLast.behind {s : Step} {next : Framer → Step} (h : FinishesLast (next s.2))
    (hs : Unfinished s.1) : FinishesLast (andThen s next) := by
  rcases h with h | ⟨hopen, said, e, he, hsaid⟩
  · exact .inl (unfinished_append.2 ⟨hs, h⟩)
  · refine .inr ⟨hopen, s.1 ++ said, e, ?_, unfinished_append.2 ⟨hs, hsaid⟩⟩
    show s.1 ++ (next s.2).1 = _
    rw [he, List.append_assoc]

/-- The end of a run is marked behind the end of the frame. -/
theorem ends_finishesLast (r : Response) (f : Framer) : FinishesLast (ends r f) := by
  unfold ends
  split
  · exact .inr ⟨close_isOpen f, f.close.1, _, rfl, forall_close unfinished_frame f⟩
  · exact .inl unfinished_nil

/-- **How a framer ends a run.**  It says so behind all else that it says of an output, and leaves
no frame open then. -/
theorem translate_finishesLast (f : Framer) (fresh : String) (o : Output) :
    FinishesLast (f.translate fresh o) := by
  have hreports : Unfinished (f.reports o).1 :=
    forall_reports f o unfinished_frame (fun _ _ => rfl) fun _ c _ _ f =>
      forall_customReport unfinished_frame (fun _ _ => rfl) f c
  rw [translate_eq]
  cases o.response with
  | none => exact .inl hreports
  | some r =>
    simp only
    cases r.error with
    | some e => exact .inl (unfinished_append.2 ⟨hreports, unfinished_single rfl⟩)
    | none =>
      refine FinishesLast.behind ?_ hreports
      rw [response_eq]
      exact (ends_finishesLast r _).behind (forall_respond unfinished_frame fresh o r _)

end Framer

end AgentStream
