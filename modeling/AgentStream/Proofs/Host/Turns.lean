/-
# Turns of a host

A host lets its jobs take turns.  A turn of a run is at most one reply to its flight, which then
does what is to be done; whatever else a host does leaves the flights as they are.  So every turn of
a host is traffic, and between the turns the runs among the jobs are the flights that are not over.

* `Host.Orderly` : the jobs of a host go by their numbers;
* `Traffic.Staffed` : the runs among the jobs of a host are flights;
* `Traffic.Beside` : what leaves the flights and the jobs as they are;
* `Traffic.Goes` : what leads from a traffic to another one without a new flight;
* `Traffic.Turned`, `Traffic.jobTurn_turned` : what a turn of a job makes of the traffic;
* `Traffic.turn_goes` : a turn of a host is traffic.
-/
import AgentStream.Proofs.Host.Traffic
import AgentStream.Proofs.Run.LifeCycle

namespace AgentStream

variable {τ σ : Type}

/-! ## Jobs -/

/-- The stream that a job writes. -/
def Job.stream? : Job τ → Option Nat
  | .run _ _ _ stream _ => some stream
  | .snapshot _ _ stream => some stream
  | .watchdog _ _ => none
  | .flusher _ _ _ => none

namespace Host

/-- The jobs of a host go by their numbers, and each one that writes has a stream of its own. -/
structure Orderly (h : Host τ σ) : Prop where
  number : ∀ x ∈ h.jobs, x.1 < h.nextJob
  unique : ∀ x ∈ h.jobs, ∀ y ∈ h.jobs, x.1 = y.1 → x = y
  opened : ∀ x ∈ h.jobs, ∀ s ∈ x.2.stream?, s < h.streams.length
  own : ∀ x ∈ h.jobs, ∀ y ∈ h.jobs, ∀ s ∈ x.2.stream?, s ∈ y.2.stream? → x = y

variable {h h' : Host τ σ} {id : Nat} {job job' : Job τ} {x : Nat × Job τ}

/-- Jobs may leave. -/
theorem Orderly.of_jobs (ho : h.Orderly) (hjobs : ∀ x ∈ h'.jobs, x ∈ h.jobs)
    (hnext : h.nextJob ≤ h'.nextJob) (hstreams : h.streams.length ≤ h'.streams.length) :
    h'.Orderly where
  number x hx := Nat.lt_of_lt_of_le (ho.number x (hjobs x hx)) hnext
  unique x hx y hy := ho.unique x (hjobs x hx) y (hjobs y hy)
  opened x hx s hs := Nat.lt_of_lt_of_le (ho.opened x (hjobs x hx) s hs) hstreams
  own x hx y hy := ho.own x (hjobs x hx) y (hjobs y hy)

/-- A job comes with the next number, and with a new stream if it writes one. -/
theorem Orderly.launched (ho : h.Orderly) (hjobs : h'.jobs = h.jobs ++ [(h.nextJob, job)])
    (hnext : h'.nextJob = h.nextJob + 1) (hstreams : h.streams.length ≤ h'.streams.length)
    (hstream : ∀ s ∈ job.stream?, h.streams.length ≤ s ∧ s < h'.streams.length) :
    h'.Orderly := by
  have hmem (x : Nat × Job τ) (hx : x ∈ h'.jobs) : x ∈ h.jobs ∨ x = (h.nextJob, job) := by
    rwa [hjobs, List.mem_append, List.mem_singleton] at hx
  refine ⟨fun x hx => ?_, fun x hx y hy he => ?_, fun x hx s hs => ?_,
    fun x hx y hy s hs hs' => ?_⟩
  · rw [hnext]
    rcases hmem x hx with hx | rfl
    · exact Nat.lt_succ_of_lt (ho.number x hx)
    · exact Nat.lt_succ_self _
  · rcases hmem x hx with hx | rfl <;> rcases hmem y hy with hy | rfl
    · exact ho.unique x hx y hy he
    · exact absurd he (Nat.ne_of_lt (ho.number x hx))
    · exact absurd he (Nat.ne_of_gt (ho.number y hy))
    · rfl
  · rcases hmem x hx with hx | rfl
    · exact Nat.lt_of_lt_of_le (ho.opened x hx s hs) hstreams
    · exact (hstream s hs).2
  · rcases hmem x hx with hx | rfl <;> rcases hmem y hy with hy | rfl
    · exact ho.own x hx y hy s hs hs'
    · exact absurd (ho.opened x hx s hs) (Nat.not_lt.2 (hstream s hs').1)
    · exact absurd (ho.opened y hy s hs') (Nat.not_lt.2 (hstream s hs).1)
    · rfl

/-- A job stands where it stood. -/
theorem mem_setJob (hmem : (id, job) ∈ h.jobs) (job' : Job τ) :
    x ∈ (h.setJob id job').jobs ↔ (x ∈ h.jobs ∧ x.1 ≠ id) ∨ x = (id, job') := by
  constructor
  · intro hx
    obtain ⟨y, hy, rfl⟩ := List.mem_map.1 hx
    by_cases hn : y.1 = id
    · simp only [if_pos hn]
      exact .inr (hn ▸ rfl)
    · simp only [if_neg hn]
      exact .inl ⟨hy, hn⟩
  · rintro (⟨hx, hn⟩ | rfl)
    · exact List.mem_map.2 ⟨x, hx, if_neg hn⟩
    · exact List.mem_map.2 ⟨(id, job), hmem, if_pos rfl⟩

theorem Orderly.setJob (ho : h.Orderly) (hmem : (id, job) ∈ h.jobs)
    (hstream : job'.stream? = job.stream?) : (h.setJob id job').Orderly := by
  have hback (x : Nat × Job τ) (hx : x ∈ (h.setJob id job').jobs) := (mem_setJob hmem job').1 hx
  refine ⟨fun x hx => ?_, fun x hx y hy he => ?_, fun x hx s hs => ?_,
    fun x hx y hy s hs hs' => ?_⟩
  · rcases hback x hx with ⟨hx, -⟩ | rfl
    · exact ho.number x hx
    · exact ho.number (id, job) hmem
  · rcases hback x hx with ⟨hx, hne⟩ | rfl <;> rcases hback y hy with ⟨hy, hne'⟩ | rfl
    · exact ho.unique x hx y hy he
    · exact absurd he hne
    · exact absurd he.symm hne'
    · rfl
  · rcases hback x hx with ⟨hx, -⟩ | rfl
    · exact ho.opened x hx s hs
    · exact ho.opened (id, job) hmem s (hstream ▸ hs)
  · rcases hback x hx with ⟨hx, hne⟩ | rfl <;> rcases hback y hy with ⟨hy, hne'⟩ | rfl
    · exact ho.own x hx y hy s hs hs'
    · exact absurd (congrArg Prod.fst (ho.own x hx _ hmem s hs (hstream ▸ hs'))) hne
    · exact absurd (congrArg Prod.fst (ho.own y hy _ hmem s hs' (hstream ▸ hs))) hne'
    · rfl

end Host

/-! ## Flights as jobs -/

/-- A flight that has done all that it was to do. -/
def Flight.settled (f : Flight τ) : Flight τ := { f with done := f.done ++ f.todo, todo := [] }

/-- A flight as a job. -/
def Flight.job [Translator τ] (f : Flight τ) (feed : Feed) : Job τ :=
  .run f.run f.key f.scope f.stream feed

namespace Traffic

/-- A job that is a run is a flight; that of a snapshot writes a stream that is no flight's. -/
inductive Accounted [Translator τ] (flights : List (Flight τ)) : Job τ → Prop
  | run {f : Flight τ} (flight : f ∈ flights) (feed : Feed) : Accounted flights (f.job feed)
  | snapshot {s : Snapshot} {scope : Scope} {stream : Nat}
      (apart : ∀ f ∈ flights, f.stream ≠ stream) : Accounted flights (.snapshot s scope stream)
  | watchdog (scope deadline : Nat) : Accounted flights (.watchdog scope deadline)
  | flusher (key : SessionKey) (interval : Nat) (due : Option Nat) :
      Accounted flights (.flusher key interval due)

/-- What a job may become in a turn in which no flight is replied to. -/
inductive Stays : Job τ → Job τ → Prop
  | run {r : Run τ} {key : SessionKey} {scope : Scope} {stream : Nat} (feed feed' : Feed) :
      Stays (.run r key scope stream feed) (.run r key scope stream feed')
  | snapshot {scope : Scope} {stream : Nat} (s s' : Snapshot) :
      Stays (.snapshot s scope stream) (.snapshot s' scope stream)
  | watchdog (scope deadline : Nat) : Stays (.watchdog scope deadline) (.watchdog scope deadline)
  | flusher {key : SessionKey} {interval : Nat} (due due' : Option Nat) :
      Stays (.flusher key interval due) (.flusher key interval due')

/-- The runs among the jobs of a host are flights, and every flight that is not over is one of
them. -/
structure Staffed [Translator τ] (t : Traffic τ σ) : Prop where
  orderly : t.host.Orderly
  idle : ∀ f ∈ t.flights, f.todo = []
  accounted : ∀ x ∈ t.host.jobs, Accounted t.flights x.2
  manned : ∀ f ∈ t.flights, f.run.stage ≠ .closed → ∃ id feed, (id, f.job feed) ∈ t.host.jobs

variable [Translator τ] {t t' : Traffic τ σ} {h h' h'' : Host τ σ}
  {flights flights' : List (Flight τ)} {id : Nat} {job job' : Job τ}

omit [Translator τ] in
theorem Stays.stream? (hj : Stays job job') : job'.stream? = job.stream? := by
  cases hj <;> rfl

theorem Stays.accounted (hj : Stays job job') (hacc : Accounted flights job) :
    Accounted flights job' := by
  cases hacc with
  | run flight feed =>
    cases hj with
    | run _ feed' => exact .run flight feed'
  | snapshot apart =>
    cases hj with
    | snapshot _ s' => exact .snapshot apart
  | watchdog =>
    cases hj with
    | watchdog => exact .watchdog _ _
  | flusher =>
    cases hj with
    | flusher _ due' => exact .flusher _ _ _

/-- A flight stays the same flight. -/
theorem Stays.flight {g : Flight τ} {feed : Feed} (hj : Stays (g.job feed) job') :
    ∃ feed', job' = g.job feed' := by
  cases hj with
  | run _ feed' => exact ⟨feed', rfl⟩

theorem Staffed.of_jobs (ht : Staffed ⟨h, flights⟩) (hjobs : h'.jobs = h.jobs)
    (hnext : h'.nextJob = h.nextJob) (hstreams : h'.streams.length = h.streams.length) :
    Staffed ⟨h', flights⟩ where
  orderly := ht.orderly.of_jobs (fun _ hx => hjobs ▸ hx) (Nat.le_of_eq hnext.symm)
    (Nat.le_of_eq hstreams.symm)
  idle := ht.idle
  accounted x hx := ht.accounted x (hjobs ▸ hx)
  manned f hf hopen := by
    obtain ⟨id, feed, hx⟩ := ht.manned f hf hopen
    exact ⟨id, feed, hjobs ▸ hx⟩

/-- A job that is no flight comes with the next number. -/
theorem Staffed.launched (ht : Staffed ⟨h, flights⟩)
    (hjobs : h'.jobs = h.jobs ++ [(h.nextJob, job)]) (hnext : h'.nextJob = h.nextJob + 1)
    (hstreams : h.streams.length ≤ h'.streams.length)
    (hstream : ∀ s ∈ job.stream?, h.streams.length ≤ s ∧ s < h'.streams.length)
    (hnew : Accounted flights job) : Staffed ⟨h', flights⟩ where
  orderly := ht.orderly.launched hjobs hnext hstreams hstream
  idle := ht.idle
  accounted := by
    show ∀ x ∈ h'.jobs, Accounted flights x.2
    rw [hjobs]
    exact List.forall_mem_append.2 ⟨ht.accounted, List.forall_mem_singleton.2 hnew⟩
  manned f hf hopen := by
    obtain ⟨id, feed, hx⟩ := ht.manned f hf hopen
    exact ⟨id, feed, hjobs ▸ List.mem_append_left _ hx⟩

/-- A new flight comes with the next number and the next stream. -/
theorem Staffed.admitted (ht : Staffed ⟨h, flights⟩) {f : Flight τ} (idle : f.todo = [])
    {feed : Feed} (hjobs : h'.jobs = h.jobs ++ [(h.nextJob, f.job feed)])
    (hnext : h'.nextJob = h.nextJob + 1) (hstream : f.stream = h.streams.length)
    (hstreams : h'.streams.length = h.streams.length + 1) :
    Staffed ⟨h', flights ++ [f]⟩ where
  orderly := by
    refine ht.orderly.launched hjobs hnext (Nat.le_of_lt (Nat.lt_of_succ_le ?_)) ?_
    · exact Nat.le_of_eq hstreams.symm
    · rintro s ⟨rfl⟩
      refine ⟨Nat.le_of_eq hstream.symm, ?_⟩
      rw [hstreams, hstream]
      exact Nat.lt_succ_self _
  idle := List.forall_mem_append.2 ⟨ht.idle, List.forall_mem_singleton.2 idle⟩
  accounted := by
    show ∀ x ∈ h'.jobs, Accounted (flights ++ [f]) x.2
    rw [hjobs]
    refine List.forall_mem_append.2 ⟨fun x hx => ?_,
      List.forall_mem_singleton.2 (.run (List.mem_append_right _ List.mem_cons_self) feed)⟩
    obtain ⟨n, j⟩ := x
    cases ht.accounted _ hx with
    | run flight feed => exact .run (List.mem_append_left _ flight) feed
    | snapshot apart =>
      have hlt := ht.orderly.opened _ hx _ rfl
      refine .snapshot (List.forall_mem_append.2 ⟨apart, List.forall_mem_singleton.2 ?_⟩)
      exact hstream ▸ Nat.ne_of_gt hlt
    | watchdog => exact .watchdog _ _
    | flusher => exact .flusher _ _ _
  manned g hg hopen := by
    show ∃ id feed, (id, g.job feed) ∈ h'.jobs
    rw [hjobs]
    rcases List.mem_append.1 hg with hg | hg
    · obtain ⟨id, feed, hx⟩ := ht.manned g hg hopen
      exact ⟨id, feed, List.mem_append_left _ hx⟩
    · obtain rfl := List.mem_singleton.1 hg
      exact ⟨h.nextJob, feed, List.mem_append_right _ List.mem_cons_self⟩

/-- A job stands where it stood; it is the same flight as before if it is one. -/
theorem Staffed.setJob (ht : Staffed ⟨h, flights⟩) (hmem : (id, job) ∈ h.jobs)
    (hstream : job'.stream? = job.stream?) (hidle : ∀ g ∈ flights', g.todo = [])
    (hothers : ∀ x ∈ h.jobs, x.1 ≠ id → Accounted flights' x.2) (hnew : Accounted flights' job')
    (hmanned : ∀ g ∈ flights', (∃ feed, job' = g.job feed) ∨
      g ∈ flights ∧ ∀ feed, job ≠ g.job feed) : Staffed ⟨h.setJob id job', flights'⟩ where
  orderly := ht.orderly.setJob hmem hstream
  idle := hidle
  accounted x hx := by
    rcases (Host.mem_setJob hmem job').1 hx with ⟨hx, hne⟩ | rfl
    · exact hothers x hx hne
    · exact hnew
  manned g hg hopen := by
    rcases hmanned g hg with ⟨feed, hjob⟩ | ⟨hg, hne⟩
    · exact ⟨id, feed, (Host.mem_setJob hmem job').2 (.inr (hjob ▸ rfl))⟩
    · obtain ⟨n, feed, hx⟩ := ht.manned g hg hopen
      refine ⟨n, feed, (Host.mem_setJob hmem job').2 (.inl ⟨hx, fun hn => hne feed ?_⟩)⟩
      exact (congrArg Prod.snd (ht.orderly.unique _ hx _ hmem hn)).symm

/-- A job leaves that is no flight, or one that is over. -/
theorem Staffed.forget (ht : Staffed ⟨h, flights⟩) (hmem : (id, job) ∈ h.jobs)
    (hover : ∀ (g : Flight τ) feed, job = g.job feed → g.run.stage = .closed) :
    Staffed ⟨h.forget id, flights⟩ where
  orderly := ht.orderly.of_jobs (fun _ hx => (List.mem_filter.1 hx).1) (Nat.le_refl _)
    (Nat.le_refl _)
  idle := ht.idle
  accounted x hx := ht.accounted x (List.mem_filter.1 hx).1
  manned g hg hopen := by
    obtain ⟨n, feed, hx⟩ := ht.manned g hg hopen
    refine ⟨n, feed, List.mem_filter.2 ⟨hx, bne_iff_ne.2 fun hn => hopen (hover g feed ?_)⟩⟩
    exact (congrArg Prod.snd (ht.orderly.unique _ hx _ hmem hn)).symm

/-! ## Beside the flights -/

/-- A host does something that leaves the flights and its jobs as they are; it may launch jobs. -/
structure Beside (flights : List (Flight τ)) (h h' : Host τ σ) : Prop where
  elsewhere : Elsewhere flights h h'
  jobs : ∀ x ∈ h.jobs, x ∈ h'.jobs
  staffed : Staffed ⟨h, flights⟩ → Staffed ⟨h', flights⟩

namespace Beside

theorem trans (hb : Beside flights h h') (hb' : Beside flights h' h'') : Beside flights h h'' where
  elsewhere :=
    { inFlight := hb'.elsewhere.inFlight.trans hb.elsewhere.inFlight
      scopes := hb.elsewhere.scopes.trans hb'.elsewhere.scopes
      streams := Nat.le_trans hb.elsewhere.streams hb'.elsewhere.streams
      writing := fun f hf => (hb'.elsewhere.writing f hf).trans (hb.elsewhere.writing f hf) }
  jobs x hx := hb'.jobs x (hb.jobs x hx)
  staffed := hb'.staffed ∘ hb.staffed

/-- What changes neither streams nor jobs nor the table. -/
theorem of_eq (hi : h'.inFlight = h.inFlight) (hs : h.scopes.Extends h'.scopes)
    (hstreams : h'.streams = h.streams) (hjobs : h'.jobs = h.jobs)
    (hnext : h'.nextJob = h.nextJob) : Beside flights h h' where
  elsewhere :=
    { inFlight := hi
      scopes := hs
      streams := Nat.le_of_eq (congrArg List.length hstreams.symm)
      writing := fun f _ => by rw [Host.stream, hstreams]; rfl }
  jobs x hx := hjobs ▸ hx
  staffed ht := ht.of_jobs hjobs hnext (congrArg List.length hstreams)

theorem refl (flights : List (Flight τ)) (h : Host τ σ) : Beside flights h h :=
  of_eq rfl (.refl _) rfl rfl rfl

/-- A change to a stream that leaves it written if it was. -/
theorem setStream {f : Stream → Stream} (hf : ∀ s, (f s).writing = s.writing) (h : Host τ σ)
    (stream : Nat) : Beside flights h (h.setStream stream f) where
  elsewhere :=
    { inFlight := rfl
      scopes := .refl _
      streams := Nat.le_of_eq (List.length_modify ..).symm
      writing := fun g _ => h.writing_setStream hf stream g.stream }
  jobs _ hx := hx
  staffed ht := ht.of_jobs rfl rfl (List.length_modify ..)

/-- The end of a stream that is no flight's. -/
theorem closeStream (h : Host τ σ) {stream : Nat} (hn : ∀ f ∈ flights, f.stream ≠ stream) :
    Beside flights h (h.closeStream stream) where
  elsewhere :=
    { inFlight := rfl
      scopes := .refl _
      streams := Nat.le_of_eq (List.length_modify ..).symm
      writing := fun g hg => by rw [h.writing_closeStream, if_neg (hn g hg)] }
  jobs _ hx := hx
  staffed ht := ht.of_jobs rfl rfl (List.length_modify ..)

/-- A job that writes no stream. -/
theorem launch (h : Host τ σ) (hstream : job.stream? = none) (hnew : Accounted flights job) :
    Beside flights h (h.launch job) where
  elsewhere := ⟨rfl, .refl _, Nat.le_refl _, fun _ _ => rfl⟩
  jobs _ hx := List.mem_append_left _ hx
  staffed ht := ht.launched rfl rfl (Nat.le_refl _) (fun s hs => by rw [hstream] at hs; cases hs)
    hnew

/-- A snapshot with a new stream. -/
theorem snapshot (h : Host τ σ) (hopen : ∀ f ∈ flights, f.stream < h.streams.length)
    (s : Snapshot) (scope : Scope) :
    Beside flights h (h.openStream.2.launch (.snapshot s scope h.streams.length)) where
  elsewhere :=
    { inFlight := rfl
      scopes := .refl _
      streams := by
        show h.streams.length ≤ (h.streams ++ [({} : Stream)]).length
        rw [List.length_append]
        exact Nat.le_add_right _ _
      writing := fun f hf => by
        show ((h.streams ++ [({} : Stream)]).getD f.stream _).writing = _
        rw [Host.stream, List.getD_eq_getElem?_getD, List.getD_eq_getElem?_getD,
          List.getElem?_append_left (hopen f hf)] }
  jobs _ hx := List.mem_append_left _ hx
  staffed ht := by
    have hlength : (h.streams ++ [({} : Stream)]).length = h.streams.length + 1 :=
      List.length_append
    refine ht.launched rfl rfl (hlength ▸ Nat.le_succ _) ?_
      (.snapshot fun f hf => Nat.ne_of_lt (hopen f hf))
    rintro s ⟨rfl⟩
    exact ⟨Nat.le_refl _, hlength ▸ Nat.lt_succ_self _⟩

/-- The end of a scope. -/
theorem cancel (flights : List (Flight τ)) (h : Host τ σ) (scope : Nat) :
    Beside flights h (h.cancel scope) := by
  obtain ⟨ready, waits, heq⟩ := h.cancel_eq scope
  rw [heq]
  exact of_eq rfl (Scopes.extends_finish h.scopes scope .canceled) rfl rfl rfl

/-- The end of a scope whose deadline has come. -/
theorem expire (flights : List (Flight τ)) (h : Host τ σ) (scope : Nat) :
    Beside flights h (h.expire scope) := by
  obtain ⟨ready, waits, heq⟩ := h.expire_eq scope
  rw [heq]
  exact of_eq rfl (Scopes.extends_finish h.scopes scope .deadlineExceeded) rfl rfl rfl

/-! ### Scopes -/

theorem child (flights : List (Flight τ)) (h : Host τ σ) {s : Scope}
    (hs : s.id < h.scopes.nodes.length) : Beside flights h (h.child s).2 :=
  of_eq rfl (Scopes.extends_child hs) rfl rfl rfl

theorem detached (flights : List (Flight τ)) (h : Host τ σ) (s : Scope) :
    Beside flights h (h.detached s).2 :=
  of_eq rfl (Scopes.extends_detached h.scopes s) rfl rfl rfl

theorem withDeadline (flights : List (Flight τ)) (h : Host τ σ) {s : Scope}
    (hs : s.id < h.scopes.nodes.length) (deadline : Nat) :
    Beside flights h (h.withDeadline s deadline).2 := by
  have he := (Scopes.extends_child hs).trans (Scopes.extends_withDeadline h.scopes s deadline)
  have hscopes : Beside flights h { h with scopes := (h.scopes.withDeadline s deadline).2.2 } :=
    of_eq rfl he rfl rfl rfl
  unfold Host.withDeadline
  simp only
  split
  · exact hscopes.trans (launch _ rfl (.watchdog _ _))
  · exact hscopes

/-- The scope of a run is made beside the flights. -/
theorem runScope (flights : List (Flight τ)) (h : Host τ σ) {caller : Scope}
    (hr : h.scopes.Rooted) (hc : caller.id < h.scopes.nodes.length) :
    Beside flights h (h.runScope caller).2 := by
  -- Beside the flights, and where the new scope is known.
  let R (h : Host τ σ) (top scope : Nat) (h' : Host τ σ) : Prop :=
    h.scopes.Rooted → top < h.scopes.nodes.length →
      Beside flights h h' ∧ scope < h'.scopes.nodes.length
  have hR : R h caller.id (h.runScope caller).1.id (h.runScope caller).2 := by
    refine Host.runScope_of (R := R) ?_ ?_ ?_ ?_
    · exact fun hr hc => ⟨child flights h hc, (Scopes.derives_child hr hc).known⟩
    · intro hr _
      have hd : h.scopes.Derives caller.id (h.detached caller).2.scopes (h.detached caller).1.id :=
        Scopes.derives_detached hr caller
      exact ⟨detached flights h caller, hd.known⟩
    · exact fun h s deadline hr hs => ⟨withDeadline flights h hs deadline,
        ((h.scopeFor_withDeadline s deadline).derives hr hs).known⟩
    · intro h h' h'' top mid scope hm hs hr ht
      obtain ⟨hb, hmid⟩ := hm hr ht
      obtain ⟨hb', hscope⟩ := hs (hb.elsewhere.scopes.rooted hr) hmid
      exact ⟨hb.trans hb', hscope⟩
  exact (hR hr hc).1

/-! ### Records -/

section

variable [LogStore σ]

/-- An append may launch a periodic flush. -/
theorem append (flights : List (Flight τ)) (h : Host τ σ) (r : Recorder σ) (key : SessionKey)
    (e : Event) : Beside flights h (h.append r key e).2 := by
  have hrecorder : Beside flights h { h with recorder := some (r.append h.clock key e).2.2 } :=
    of_eq rfl (.refl _) rfl rfl rfl
  unfold Host.append
  simp only
  split
  · exact hrecorder.trans (launch _ rfl (.flusher _ _ _))
  · exact hrecorder

theorem flush (flights : List (Flight τ)) (h : Host τ σ) (r : Recorder σ) (key : SessionKey) :
    Beside flights h (h.flush r key).2 :=
  of_eq rfl (.refl _) rfl rfl rfl

theorem entries (flights : List (Flight τ)) (h : Host τ σ) (r : Recorder σ) (key : SessionKey)
    (after : Option Nat) : Beside flights h (h.entries r key after).2 :=
  of_eq rfl (.refl _) rfl rfl rfl

end

/-- Whatever is asked of the recorder is asked beside the flights. -/
theorem ask {f : Recorder σ → Except RecordError Unit × Host τ σ}
    (hf : ∀ r, Beside flights h (f r).2) : Beside flights h (h.ask f).2 := by
  unfold Host.ask
  cases h.recorder with
  | some r => exact hf r
  | none => exact refl _ _

theorem freshId (flights : List (Flight τ)) (h : Host τ σ) : Beside flights h h.freshId.2 :=
  of_eq rfl (.refl _) rfl rfl rfl

end Beside

/-! ## Going on -/

/-- A traffic goes on without a new flight. -/
structure Goes (t t' : Traffic τ σ) : Prop where
  reaches : Reaches t t'
  scopes : t.host.scopes.Extends t'.host.scopes
  flights : t'.flights.map Flight.scope = t.flights.map Flight.scope

namespace Goes

theorem refl (t : Traffic τ σ) : Goes t t := ⟨.refl, .refl _, rfl⟩

theorem trans {t'' : Traffic τ σ} (hg : Goes t t') (hg' : Goes t' t'') : Goes t t'' where
  reaches := hg.reaches.trans hg'.reaches
  scopes := hg.scopes.trans hg'.scopes
  flights := hg'.flights.trans hg.flights

/-- What happens elsewhere. -/
theorem elsewhere (he : Elsewhere flights h h') : Goes ⟨h, flights⟩ ⟨h', flights⟩ :=
  ⟨.single (.elsewhere he), he.scopes, rfl⟩

end Goes

variable {i : Nat} {f : Flight τ}

omit [Translator τ] in
/-- The scopes of flights are the same if one goes on in its own. -/
theorem scopes_set (hf : flights[i]? = some f) {f' : Flight τ} (hscope : f'.scope = f.scope) :
    (flights.set i f').map Flight.scope = flights.map Flight.scope := by
  have hi : (flights.map Flight.scope)[i]? = some f'.scope := by
    rw [List.getElem?_map, hf, hscope]
    rfl
  obtain ⟨hlt, hget⟩ := List.getElem?_eq_some_iff.1 hi
  rw [List.map_set, ← hget, List.set_getElem_self]

/-- The scopes are where they were, and so are the jobs. -/
structure Keeps (h h' : Host τ σ) : Prop where
  scopes : h.scopes.Extends h'.scopes
  jobs : h'.jobs = h.jobs
  nextJob : h'.nextJob = h.nextJob
  streams : h'.streams.length = h.streams.length

omit [Translator τ] in
/-- What a run does besides leaves the scopes and the jobs where they are. -/
theorem keeps_perform (h : Host τ σ) (key : SessionKey) (scope : Scope) (stream : Nat)
    (a : Action) : Keeps h (h.perform key scope stream a) := by
  cases a with
  | deliver e => exact ⟨.refl _, rfl, rfl, List.length_modify ..⟩
  | endScope =>
    obtain ⟨ready, waits, heq⟩ := h.cancel_eq scope.id
    rw [Host.perform, heq]
    exact ⟨Scopes.extends_finish h.scopes scope.id .canceled, rfl, rfl, rfl⟩
  | release => exact ⟨.refl _, rfl, rfl, rfl⟩
  | close => exact ⟨.refl _, rfl, rfl, List.length_modify ..⟩

omit [Translator τ] in
theorem keeps_performs (key : SessionKey) (scope : Scope) (stream : Nat) (actions : List Action)
    (h : Host τ σ) : Keeps h (actions.foldl (Host.perform key scope stream) h) := by
  induction actions generalizing h with
  | nil => exact ⟨.refl _, rfl, rfl, rfl⟩
  | cons a actions ih =>
    have ha := keeps_perform h key scope stream a
    have hrest := ih (h.perform key scope stream a)
    exact ⟨ha.scopes.trans hrest.scopes, hrest.jobs.trans ha.jobs, hrest.nextJob.trans ha.nextJob,
      hrest.streams.trans ha.streams⟩

/-- A flight does all that it is to do, one thing after the other. -/
theorem goes_settled (hf : flights[i]? = some f) :
    Goes ⟨h, flights⟩
      ⟨f.todo.foldl (Host.perform f.key f.scope f.stream) h, flights.set i f.settled⟩ := by
  generalize htodo : f.todo = actions
  induction actions generalizing h flights f with
  | nil =>
    have hsettled : f.settled = f := by rw [Flight.settled, htodo, List.append_nil, ← htodo]
    obtain ⟨hlt, hget⟩ := List.getElem?_eq_some_iff.1 hf
    rw [hsettled, ← hget, List.set_getElem_self]
    exact .refl _
  | cons a actions ih =>
    have hact : Goes ⟨h, flights⟩
        ⟨h.perform f.key f.scope f.stream a, flights.set i (f.acted a actions)⟩ :=
      ⟨.single (.act (t := ⟨h, flights⟩) hf htodo), (keeps_perform h ..).scopes, scopes_set hf rfl⟩
    have hi : (flights.set i (f.acted a actions))[i]? = some (f.acted a actions) := by
      rw [List.getElem?_set_self (List.getElem?_eq_some_iff.1 hf).1]
    have hrest := ih (h := h.perform f.key f.scope f.stream a) hi rfl
    have hsettled : (f.acted a actions).settled = f.settled := by
      rw [Flight.settled, Flight.settled, Flight.acted, htodo, List.append_assoc]
      rfl
    rw [List.set_set, hsettled] at hrest
    exact hact.trans hrest

/-- A flight is replied to and does what is then to be done. -/
theorem goes_replied (hf : flights[i]? = some f) (idle : f.todo = []) (m : Moment) (reply : Reply) :
    Goes ⟨h, flights⟩
      ⟨(f.run.step m reply).1.foldl (Host.perform f.key f.scope f.stream) h,
        flights.set i (f.replied m reply).settled⟩ := by
  have hreply : Goes ⟨h, flights⟩ ⟨h, flights.set i (f.replied m reply)⟩ :=
    ⟨.single (.reply (t := ⟨h, flights⟩) hf idle m reply), .refl _, scopes_set hf rfl⟩
  have hi : (flights.set i (f.replied m reply))[i]? = some (f.replied m reply) := by
    rw [List.getElem?_set_self (List.getElem?_eq_some_iff.1 hf).1]
  have hrest := goes_settled (h := h) hi
  rw [List.set_set] at hrest
  exact hreply.trans hrest

/-- The run of a flight that is replied to. -/
theorem run_replied (f : Flight τ) (m : Moment) (reply : Reply) :
    (f.replied m reply).settled.run = (f.run.step m reply).2 :=
  f.start.after_append f.replies [(m, reply)]

/-! ## Turns -/

/-- What a turn of a job makes of the traffic. -/
inductive Turned (t : Traffic τ σ) (id : Nat) : Progress τ σ → Prop
  | more {job : Job τ} {h : Host τ σ} {flights : List (Flight τ)} (goes : Goes t ⟨h, flights⟩)
      (staffed : Staffed ⟨h.setJob id job, flights⟩) : Turned t id (.more job h)
  | blocked (w : Wait) {job : Job τ} {h : Host τ σ} {flights : List (Flight τ)}
      (goes : Goes t ⟨h, flights⟩) (staffed : Staffed ⟨h.setJob id job, flights⟩) :
      Turned t id (.blocked w job h)
  | leaves {h : Host τ σ} {flights : List (Flight τ)} (goes : Goes t ⟨h, flights⟩)
      (staffed : Staffed ⟨h.forget id, flights⟩) : Turned t id (.over h)

/-- A job stays beside the flights. -/
theorem Staffed.beside (ht : t.Staffed) (hmem : (id, job) ∈ t.host.jobs)
    (hb : Beside t.flights t.host h) (hj : Stays job job') :
    Staffed ⟨h.setJob id job', t.flights⟩ := by
  have hs : Staffed ⟨h, t.flights⟩ := hb.staffed ht
  have hmem' : (id, job) ∈ h.jobs := hb.jobs _ hmem
  refine hs.setJob hmem' hj.stream? hs.idle (fun x hx _ => hs.accounted x hx)
    (hj.accounted (hs.accounted _ hmem')) fun g hg => ?_
  by_cases hjob : ∃ feed, job = g.job feed
  · obtain ⟨feed, rfl⟩ := hjob
    exact .inl hj.flight
  · exact .inr ⟨hg, fun feed hjob' => hjob ⟨feed, hjob'⟩⟩

/-- A job goes on beside the flights. -/
theorem turned_more (ht : t.Staffed) (hmem : (id, job) ∈ t.host.jobs)
    (hb : Beside t.flights t.host h) (hj : Stays job job') : Turned t id (.more job' h) :=
  .more (.elsewhere hb.elsewhere) (ht.beside hmem hb hj)

/-- A job has to wait. -/
theorem turned_blocked (ht : t.Staffed) (hmem : (id, job) ∈ t.host.jobs) (w : Wait)
    (hj : Stays job job') : Turned t id (.blocked w job' t.host) :=
  .blocked w (.refl t) (ht.beside hmem (.refl _ _) hj)

/-- A job is over. -/
theorem turned_over (ht : t.Staffed) (hmem : (id, job) ∈ t.host.jobs)
    (hb : Beside t.flights t.host h)
    (hover : ∀ (g : Flight τ) feed, job = g.job feed → g.run.stage = .closed) :
    Turned t id (.over h) :=
  .leaves (.elsewhere hb.elsewhere) ((hb.staffed ht).forget (hb.jobs _ hmem) hover)

/-! ### Runs -/

section Runs

variable {feed feed' : Feed}

/-- A job that is not the flight that goes on is accounted for as before. -/
theorem Accounted.set (hacc : Accounted flights job) (hi : flights[i]? = some f) {f' : Flight τ}
    (hstream : f'.stream = f.stream) (hne : ∀ feed, job ≠ f.job feed) :
    Accounted (flights.set i f') job := by
  cases hacc with
  | @run g flight feed =>
    obtain ⟨k, hk⟩ := List.mem_iff_getElem?.1 flight
    have hik : i ≠ k := by
      rintro rfl
      obtain rfl : f = g := Option.some.inj (hi.symm.trans hk)
      exact hne feed rfl
    refine .run (List.mem_iff_getElem?.2 ⟨k, ?_⟩) feed
    rw [List.getElem?_set_ne hik, hk]
  | snapshot apart =>
    refine .snapshot fun g hg => ?_
    rcases List.mem_or_eq_of_mem_set hg with hg | rfl
    · exact apart g hg
    · exact hstream ▸ apart f (List.mem_of_getElem? hi)
  | watchdog => exact .watchdog _ _
  | flusher => exact .flusher _ _ _

/-- Any flight but the one that goes on is the one that it was, and writes another stream. -/
theorem Sound.mem_set (hs : t.Sound) (hi : t.flights[i]? = some f) {f' g : Flight τ}
    (hg : g ∈ t.flights.set i f') : g = f' ∨ g ∈ t.flights ∧ f.stream ≠ g.stream := by
  obtain ⟨k, hk⟩ := List.mem_iff_getElem?.1 hg
  by_cases hik : i = k
  · rw [← hik, List.getElem?_set_self (List.getElem?_eq_some_iff.1 hi).1] at hk
    exact .inl (Option.some.inj hk).symm
  · rw [List.getElem?_set_ne hik] at hk
    exact .inr ⟨List.mem_of_getElem? hk, (hs.apart i k f g hi hk hik).2⟩

/-- A run is replied to. -/
theorem turned_reply (hs : t.Sound) (ht : t.Staffed) (hmem : (id, f.job feed) ∈ t.host.jobs)
    (hf : f ∈ t.flights) (hb : Beside t.flights t.host h) (m : Moment) (reply : Reply)
    (feed' : Feed) :
    Turned t id (.more (.run (f.run.step m reply).2 f.key f.scope f.stream feed')
      ((f.run.step m reply).1.foldl (Host.perform f.key f.scope f.stream) h)) := by
  obtain ⟨i, hi⟩ := List.mem_iff_getElem?.1 hf
  have hkeeps := keeps_performs f.key f.scope f.stream (f.run.step m reply).1 h
  have ht' := (hb.staffed ht).of_jobs hkeeps.jobs hkeeps.nextJob hkeeps.streams
  have hmem' : (id, f.job feed) ∈
      ((f.run.step m reply).1.foldl (Host.perform f.key f.scope f.stream) h).jobs := by
    rw [hkeeps.jobs]
    exact hb.jobs _ hmem
  have hjob : (.run (f.run.step m reply).2 f.key f.scope f.stream feed' : Job τ)
      = (f.replied m reply).settled.job feed' := by
    rw [Flight.job, run_replied]
    rfl
  have hset : (f.replied m reply).settled ∈ t.flights.set i (f.replied m reply).settled :=
    List.mem_set (List.getElem?_eq_some_iff.1 hi).1 _
  refine .more ((Goes.elsewhere hb.elsewhere).trans (goes_replied hi (ht.idle f hf) m reply))
    (ht'.setJob hmem' rfl (fun g hg => ?_) (fun x hx hne => ?_) ?_ fun g hg => ?_)
  · rcases hs.mem_set hi hg with rfl | ⟨hg, -⟩
    · rfl
    · exact ht.idle g hg
  · -- Another job writes another stream, so it is not this flight.
    refine (ht'.accounted x hx).set hi rfl fun feed'' he => hne ?_
    have hstream : f.stream ∈ x.2.stream? := he ▸ rfl
    exact congrArg Prod.fst (ht'.orderly.own x hx _ hmem' f.stream hstream rfl)
  · exact hjob ▸ .run hset feed'
  · rcases hs.mem_set hi hg with rfl | ⟨hg, hne⟩
    · exact .inl ⟨feed', hjob⟩
    · exact .inr ⟨hg, fun _ he => hne (Option.some.inj (congrArg Job.stream? he))⟩

variable [LogStore σ]

/-- A turn of a run. -/
theorem runTurn_turned (hs : t.Sound) (ht : t.Staffed) (hmem : (id, f.job feed) ∈ t.host.jobs)
    (hf : f ∈ t.flights) :
    Turned t id (t.host.runTurn id f.run f.key f.scope f.stream feed) := by
  have hsame : Beside t.flights t.host t.host := .refl _ _
  have hreply {h : Host τ σ} (hb : Beside t.flights t.host h) (m : Moment) (reply : Reply)
      (feed' : Feed) := turned_reply hs ht hmem hf hb m reply feed'
  have hmore {h : Host τ σ} (hb : Beside t.flights t.host h) (feed' : Feed) :
      Turned t id (.more (f.job feed') h) :=
    turned_more ht hmem hb (.run feed feed')
  have hwait (w : Wait) : Turned t id (.blocked w (f.job feed) t.host) :=
    turned_blocked ht hmem w (.run feed feed)
  unfold Host.runTurn
  cases hw : f.run.want with
  | nothing =>
    refine turned_over ht hmem hsame fun g _ hjob => ?_
    have hrun : f.run = g.run := (Job.run.inj hjob).1
    exact hrun ▸ Run.closed_of_want hw
  | offer e =>
    simp only
    cases t.host.delivery f.scope f.stream with
    | taken => exact hreply hsame _ _ _
    | refused => exact hreply hsame _ _ _
    | full => exact hwait _
  | append e => exact hreply (.ask fun r => .append t.flights t.host r f.key e) _ _ _
  | flush => exact hreply (.ask fun r => .flush t.flights t.host r f.key) _ _ _
  | start =>
    have hcall (call : EngineCall) :
        Beside t.flights t.host { t.host with calls := t.host.calls ++ [call] } :=
      .of_eq rfl (.refl _) rfl rfl rfl
    cases feed with
    | starting time outcome =>
      simp only
      split
      · cases outcome with
        | ok items => exact hreply (.freshId _ _) _ _ _
        | error reason => exact hreply hsame _ _ _
      · exact hwait _
    | uncalled => exact hmore (hcall _) _
    | playing items => exact hmore (hcall _) _
    | pausing time items => exact hmore (hcall _) _
  | output =>
    simp only
    split
    · exact hreply hsame _ _ _
    · split
      · have hdrawn := (Beside.freshId t.flights t.host).trans
          ((Beside.freshId _ _).trans (.freshId _ _))
        exact hreply hdrawn _ _ _
      · exact hmore hsame _
      · exact hwait _
      · split
        · exact hmore hsame _
        · exact hwait _
      · exact hreply hsame _ _ _

end Runs

/-! ### Other jobs -/

section Others

/-- A turn of a watchdog. -/
theorem watchdogTurn_turned {scope deadline : Nat} (ht : t.Staffed)
    (hmem : (id, .watchdog scope deadline) ∈ t.host.jobs) :
    Turned t id (t.host.watchdogTurn id scope deadline) := by
  unfold Host.watchdogTurn
  split
  · exact turned_over ht hmem (.refl _ _) fun _ _ hjob => by cases hjob
  · split
    · exact turned_over ht hmem (.expire t.flights t.host scope) fun _ _ hjob => by cases hjob
    · exact turned_blocked ht hmem _ (.watchdog scope deadline)

variable [LogStore σ]

/-- A turn of a snapshot. -/
theorem snapshotTurn_turned {s : Snapshot} {scope : Scope} {stream : Nat} (ht : t.Staffed)
    (hmem : (id, .snapshot s scope stream) ∈ t.host.jobs)
    (apart : ∀ f ∈ t.flights, f.stream ≠ stream) :
    Turned t id (t.host.snapshotTurn id s scope stream) := by
  have hsame : Beside t.flights t.host t.host := .refl _ _
  have hreply {h : Host τ σ} (hb : Beside t.flights t.host h) (reply : SnapshotReply) :
      Turned t id (.more (.snapshot (s.step reply) scope stream) h) :=
    turned_more ht hmem hb (.snapshot s (s.step reply))
  have hwait (w : Wait) : Turned t id (.blocked w (.snapshot s scope stream) t.host) :=
    turned_blocked ht hmem w (.snapshot s s)
  unfold Host.snapshotTurn
  cases s.want with
  | nothing => exact turned_over ht hmem (.closeStream t.host apart) fun _ _ hjob => by cases hjob
  | offer e =>
    simp only
    cases t.host.delivery scope stream with
    | taken =>
      have hput : Beside t.flights t.host (t.host.put stream e) :=
        .setStream (f := fun s => { s with buffer := some e }) (fun _ => rfl) t.host stream
      exact hreply hput _
    | refused => exact hreply hsame _
    | full => exact hwait _
  | entries after =>
    simp only
    cases t.host.recorder with
    | some r => exact hreply (.entries t.flights t.host r s.key after) _
    | none => exact hreply hsame _
  | time deadline next =>
    simp only
    split
    · exact hreply hsame _
    · split
      · exact hreply hsame _
      · split
        · exact hreply hsame _
        · exact hwait _

/-- A turn of a periodic flush. -/
theorem flusherTurn_turned {key : SessionKey} {interval : Nat} {due : Option Nat} (ht : t.Staffed)
    (hmem : (id, .flusher key interval due) ∈ t.host.jobs) :
    Turned t id (t.host.flusherTurn id key interval due) := by
  unfold Host.flusherTurn
  simp only
  split
  · cases t.host.recorder with
    | none => exact turned_over ht hmem (.refl _ _) fun _ _ hjob => by cases hjob
    | some r =>
      have htick : Beside t.flights t.host
          { t.host with recorder := some (r.tick t.host.clock key).2 } :=
        .of_eq rfl (.refl _) rfl rfl rfl
      simp only
      split
      · exact turned_more ht hmem htick (.flusher _ _)
      · exact turned_over ht hmem htick fun _ _ hjob => by cases hjob
  · exact turned_blocked ht hmem _ (.flusher _ _)

/-- **A turn of a job** is traffic, after which the jobs are flights again. -/
theorem jobTurn_turned (hs : t.Sound) (ht : t.Staffed) (hmem : (id, job) ∈ t.host.jobs) :
    Turned t id (t.host.jobTurn id job) := by
  cases ht.accounted _ hmem with
  | run flight feed => exact runTurn_turned hs ht hmem flight
  | snapshot apart => exact snapshotTurn_turned ht hmem apart
  | watchdog => exact watchdogTurn_turned ht hmem
  | flusher => exact flusherTurn_turned ht hmem

/-- **A turn of a host** is traffic. -/
theorem turn_goes (hs : t.Sound) (ht : t.Staffed) (hturn : t.host.turn? = some h) :
    ∃ flights, Goes t ⟨h, flights⟩ ∧ Staffed ⟨h, flights⟩ := by
  -- Who stands in the queue, and what waits, is beside the flights.
  have hqueue {h h' : Host τ σ} {flights : List (Flight τ)} (hg : Goes t ⟨h, flights⟩)
      (he : Elsewhere flights h h') : Goes t ⟨h', flights⟩ := hg.trans (.elsewhere he)
  unfold Host.turn? at hturn
  cases hready : t.host.ready with
  | nil =>
    rw [hready] at hturn
    cases hturn
  | cons id rest =>
    simp only [hready] at hturn
    cases hjob : t.host.jobs.lookup id with
    | none =>
      simp only [hjob] at hturn
      cases hturn
      have hb : Beside t.flights t.host t.host.leave := .of_eq rfl (.refl _) rfl rfl rfl
      exact ⟨t.flights, .elsewhere hb.elsewhere, hb.staffed ht⟩
    | some job =>
      simp only [hjob] at hturn
      have hturned := jobTurn_turned hs ht (mem_of_lookup hjob)
      generalize t.host.jobTurn id job = p at hturn hturned
      cases hturned with
      | more goes staffed =>
        cases hturn
        exact ⟨_, hqueue goes ⟨rfl, .refl _, Nat.le_refl _, fun _ _ => rfl⟩, staffed⟩
      | blocked w goes staffed =>
        cases hturn
        exact ⟨_, hqueue goes ⟨rfl, .refl _, Nat.le_refl _, fun _ _ => rfl⟩,
          staffed.of_jobs rfl rfl rfl⟩
      | leaves goes staffed =>
        cases hturn
        exact ⟨_, hqueue goes ⟨rfl, .refl _, Nat.le_refl _, fun _ _ => rfl⟩,
          staffed.of_jobs rfl rfl rfl⟩

end Others

end Traffic

end AgentStream
