/-
# Periodic flushes of a host

A host flushes the record of a session from time to time as long as text is held back for it.  An
append that fails comes to an end before it could start the job that does so, flushes that clients
ask for come in between, and idle sessions are forgotten with all that is known of their jobs.  Yet
a session has such a job exactly while the recorder says so, and never two of them.

* `Host.flushersOf` : the jobs that flush the record of a session;
* `Host.Tended` : every session for which a piece is held back has one of them, and no other one;
* `Host.Minds`, `Host.Tends` : what keeps it so, beside a job or in a turn of one;
* `Host.turns_jobTurn`, `Host.turn_tended` : the turns of all jobs do;
* `Host.Recording`, `Host.record`, `Host.recordings` : what is done with records;
* `Host.recordings_tended` : whatever is done with records keeps it so;
* `Site.reaches_tended` : so does whatever happens on a site.
-/
import AgentStream.Proofs.Host.Sites
import AgentStream.Proofs.Log.Faithful
import AgentStream.Proofs.Log.Flushing
import AgentStream.Proofs.Run.Shown

namespace AgentStream

variable {τ σ : Type}

/-- A job flushes the record of a session from time to time. -/
def Job.flushes (job : Job τ) (key : SessionKey) : Bool :=
  match job with
  | .flusher k _ _ => decide (k = key)
  | _ => false

namespace Host

variable {h h' h'' : Host τ σ} {r r' : Recorder σ} {key k : SessionKey} {id : Nat}
  {job job' : Job τ}

/-! ## Jobs by number -/

/-- No two jobs have a number in common, and the number of the next job is a new one. -/
structure Numbered (h : Host τ σ) : Prop where
  unique : (h.jobs.map Prod.fst).Nodup
  below : ∀ x ∈ h.jobs, x.1 < h.nextJob

theorem Numbered.job_eq (hn : h.Numbered) (hmem : (id, job) ∈ h.jobs)
    (hmem' : (id, job') ∈ h.jobs) : job' = job := by
  have hlookup := (mem_iff_lookup hn.unique).1 hmem
  have hlookup' := (mem_iff_lookup hn.unique).1 hmem'
  exact Option.some.inj (hlookup'.symm.trans hlookup)

theorem Numbered.launch (hn : h.Numbered) (job : Job τ) : (h.launch job).Numbered where
  unique := by
    refine nodup_concat hn.unique (List.lookup_eq_none_iff.2 fun x hx => ?_) job
    have hlt : x.1 < h.nextJob := hn.below x hx
    exact bne_iff_ne.2 (by omega)
  below x hx := by
    show x.1 < h.nextJob + 1
    rcases List.mem_append.1 hx with hx | hx
    · have hlt : x.1 < h.nextJob := hn.below x hx
      omega
    · obtain rfl := List.mem_singleton.1 hx
      exact Nat.lt_succ_self _

/-- The numbers of the jobs stay when one of them stands otherwise. -/
theorem numbers_setJob (h : Host τ σ) (id : Nat) (job : Job τ) :
    (h.setJob id job).jobs.map Prod.fst = h.jobs.map Prod.fst := by
  show (h.jobs.map _).map Prod.fst = _
  rw [List.map_map]
  refine List.map_congr_left fun x _ => ?_
  show (if x.1 = id then (x.1, job) else (x.1, x.2)).1 = x.1
  split <;> rfl

theorem Numbered.setJob (hn : h.Numbered) (id : Nat) (job : Job τ) :
    (h.setJob id job).Numbered where
  unique := by
    rw [numbers_setJob]
    exact hn.unique
  below x hx := by
    have hmem : x.1 ∈ h.jobs.map Prod.fst :=
      numbers_setJob h id job ▸ List.mem_map_of_mem hx
    obtain ⟨y, hy, hyx⟩ := List.mem_map.1 hmem
    exact hyx ▸ hn.below y hy

theorem Numbered.forget (hn : h.Numbered) (id : Nat) : (h.forget id).Numbered where
  unique := hn.unique.sublist (List.filter_sublist.map Prod.fst)
  below x hx := hn.below x (List.mem_filter.1 hx).1

/-! ## The jobs that flush a record -/

/-- The numbers of the jobs that flush the record of a session. -/
def flushersOf (h : Host τ σ) (key : SessionKey) : List Nat :=
  (h.jobs.filter fun x => x.2.flushes key).map Prod.fst

theorem mem_flushersOf (hmem : (id, job) ∈ h.jobs) (hj : job.flushes key = true) :
    id ∈ h.flushersOf key :=
  List.mem_map_of_mem (List.mem_filter.2 ⟨hmem, hj⟩)

theorem flushersOf_launch (h : Host τ σ) (job : Job τ) (key : SessionKey) :
    (h.launch job).flushersOf key
      = h.flushersOf key ++ if job.flushes key = true then [h.nextJob] else [] := by
  show ((h.jobs ++ [(h.nextJob, job)]).filter _).map Prod.fst = _
  rw [List.filter_append, List.map_append]
  congr 1
  by_cases hj : job.flushes key = true
  · rw [if_pos hj, List.filter_cons_of_pos (by exact hj)]
    rfl
  · rw [if_neg hj, List.filter_cons_of_neg (by exact hj)]
    rfl

/-- A job that stands otherwise flushes what it flushed before. -/
theorem flushersOf_setJob (hn : h.Numbered) (hmem : (id, job) ∈ h.jobs)
    (hj : job'.flushes = job.flushes) (key : SessionKey) :
    (h.setJob id job').flushersOf key = h.flushersOf key := by
  let stand (x : Nat × Job τ) : Nat × Job τ := if x.1 = id then (x.1, job') else (x.1, x.2)
  have hnumber (x : Nat × Job τ) : (stand x).1 = x.1 := by
    simp only [stand]
    split <;> rfl
  have hflushes : ∀ x ∈ h.jobs, ((fun x => x.2.flushes key) ∘ stand) x = x.2.flushes key := by
    rintro ⟨n, other⟩ hx
    simp only [stand, Function.comp_apply]
    split
    · -- No other job has this number.
      rename_i hid
      obtain rfl : n = id := hid
      rw [hj, hn.job_eq hmem hx]
    · rfl
  show ((h.jobs.map stand).filter fun x => x.2.flushes key).map Prod.fst = _
  rw [List.filter_map, List.map_map, flushersOf, List.filter_congr hflushes]
  exact List.map_congr_left fun x _ => hnumber x

theorem flushersOf_forget (h : Host τ σ) (id : Nat) (key : SessionKey) :
    (h.forget id).flushersOf key = (h.flushersOf key).filter fun n => n != id := by
  show ((h.jobs.filter fun x => x.1 != id).filter fun x => x.2.flushes key).map Prod.fst = _
  rw [flushersOf, List.filter_map, List.filter_filter, List.filter_filter]
  congr 1
  exact List.filter_congr fun x _ => Bool.and_comm _ _

/-- A job that leaves flushed the records of other sessions at most. -/
theorem flushersOf_forget_other (hn : h.Numbered) (hmem : (id, job) ∈ h.jobs)
    (hj : job.flushes key = false) : (h.forget id).flushersOf key = h.flushersOf key := by
  rw [flushersOf_forget]
  refine List.filter_eq_self.2 fun n hmem' => bne_iff_ne.2 ?_
  rintro rfl
  obtain ⟨⟨_, other⟩, hx, rfl⟩ := List.mem_map.1 hmem'
  obtain ⟨hx, hflushes⟩ := List.mem_filter.1 hx
  obtain rfl := hn.job_eq hmem hx
  exact absurd hflushes (Bool.eq_false_iff.1 hj)

/-! ## Tended sessions -/

/-- A session for which a piece is held back is going to be flushed; one job does so while the
recorder says that a periodic flush is under way, and none does otherwise. -/
structure Tended (h : Host τ σ) (r : Recorder σ) : Prop where
  recorder : h.recorder = some r
  interval : r.options.flushInterval.isSome = true
  watched : ∀ key, r.Watched key
  single : ∀ key, (r.held key).flushing = true → ∃ id, h.flushersOf key = [id]
  none : ∀ key, (r.held key).flushing = false → h.flushersOf key = []
  numbered : h.Numbered

/-- Nothing is held back at first. -/
theorem tended_start {store : σ} {options : RecorderOptions}
    (hrecorder : h.recorder = some { store, options })
    (hinterval : options.flushInterval.isSome = true) (hn : h.Numbered)
    (hnone : ∀ key, h.flushersOf key = []) : h.Tended { store, options } where
  recorder := hrecorder
  interval := hinterval
  watched _ := Recorder.watched_of_none rfl
  single _ hon := nomatch hon
  none key _ := hnone key
  numbered := hn

/-- A session has a single job that flushes its record if the recorder says so. -/
theorem Tended.flushing_iff (ht : h.Tended r) (key : SessionKey) :
    (r.held key).flushing = true ↔ ∃ id, h.flushersOf key = [id] := by
  constructor
  · exact ht.single key
  · rintro ⟨id, hid⟩
    cases hoff : (r.held key).flushing with
    | true => rfl
    | false => cases hid.symm.trans (ht.none key hoff)

/-- A job that flushes the record of a session is the only one. -/
theorem Tended.flushersOf_eq (ht : h.Tended r) (hmem : (id, job) ∈ h.jobs)
    (hj : job.flushes key = true) : h.flushersOf key = [id] := by
  have hid : id ∈ h.flushersOf key := mem_flushersOf hmem hj
  cases hflushing : (r.held key).flushing with
  | false =>
    -- Then the session would have no such job.
    rw [ht.none key hflushing] at hid
    cases hid
  | true =>
    obtain ⟨n, hn⟩ := ht.single key hflushing
    rw [hn] at hid ⊢
    rw [List.mem_singleton.1 hid]

/-- An operation on a session keeps the sessions tended if the jobs follow what the recorder
says. -/
theorem Tended.attends (ht : h.Tended r) {flushing : Bool}
    (ha : Recorder.Attends key flushing r r') (hrecorder : h'.recorder = some r')
    (hn : h'.Numbered) (hothers : ∀ k, k ≠ key → h'.flushersOf k = h.flushersOf k)
    (hon : flushing = true → ∃ id, h'.flushersOf key = [id])
    (hoff : flushing = false → h'.flushersOf key = []) : h'.Tended r' where
  recorder := hrecorder
  interval := by
    rw [ha.options]
    exact ht.interval
  watched k := by
    by_cases hk : k = key
    · exact hk ▸ ha.watched
    · rw [Recorder.Watched, ha.others k hk]
      exact ht.watched k
  single k hf := by
    by_cases hk : k = key
    · subst hk
      exact hon (ha.flushing ▸ hf)
    · rw [ha.others k hk] at hf
      rw [hothers k hk]
      exact ht.single k hf
  none k hf := by
    by_cases hk : k = key
    · subst hk
      exact hoff (ha.flushing ▸ hf)
    · rw [ha.others k hk] at hf
      rw [hothers k hk]
      exact ht.none k hf
  numbered := hn

/-- The same jobs tend the same sessions. -/
theorem Tended.of_jobs (ht : h.Tended r) (hrecorder : h'.recorder = h.recorder)
    (hflushers : ∀ key, h'.flushersOf key = h.flushersOf key) (hn : h'.Numbered) :
    h'.Tended r where
  recorder := hrecorder.trans ht.recorder
  interval := ht.interval
  watched := ht.watched
  single key hf := hflushers key ▸ ht.single key hf
  none key hf := hflushers key ▸ ht.none key hf
  numbered := hn

theorem Tended.of_eq (ht : h.Tended r) (hrecorder : h'.recorder = h.recorder)
    (hjobs : h'.jobs = h.jobs) (hnext : h'.nextJob = h.nextJob) : h'.Tended r := by
  refine ht.of_jobs hrecorder (fun key => ?_) ⟨hjobs ▸ ht.numbered.unique, fun x hx => ?_⟩
  · rw [flushersOf, flushersOf, hjobs]
  · rw [hnext]
    exact ht.numbered.below x (hjobs ▸ hx)

/-! ## What keeps the sessions tended -/

/-- The host does something that leaves its jobs as they are, though it may launch some.  Tended
sessions stay so, and no periodic flush comes to an end. -/
structure Minds (h h' : Host τ σ) : Prop where
  jobs : ∀ x ∈ h.jobs, x ∈ h'.jobs
  tended : ∀ r, h.Tended r → ∃ r', h'.Tended r' ∧
    ∀ key, (r.held key).flushing = true → (r'.held key).flushing = true

namespace Minds

theorem trans (hm : Minds h h') (hm' : Minds h' h'') : Minds h h'' where
  jobs x hx := hm'.jobs x (hm.jobs x hx)
  tended r ht := by
    obtain ⟨r', ht', hkept⟩ := hm.tended r ht
    obtain ⟨r'', ht'', hkept'⟩ := hm'.tended r' ht'
    exact ⟨r'', ht'', fun key hf => hkept' key (hkept key hf)⟩

/-- What changes neither the recorder nor the jobs. -/
theorem of_eq (hrecorder : h'.recorder = h.recorder) (hjobs : h'.jobs = h.jobs)
    (hnext : h'.nextJob = h.nextJob) : Minds h h' where
  jobs _ hx := hjobs ▸ hx
  tended r ht := ⟨r, ht.of_eq hrecorder hjobs hnext, fun _ hf => hf⟩

theorem refl (h : Host τ σ) : Minds h h := of_eq rfl rfl rfl

/-- A job that flushes nothing. -/
theorem launch (h : Host τ σ) (hj : job.flushes = fun _ => false) : Minds h (h.launch job) where
  jobs _ hx := List.mem_append_left _ hx
  tended r ht := by
    have hflushers (key : SessionKey) : (h.launch job).flushersOf key = h.flushersOf key := by
      rw [flushersOf_launch, hj, if_neg Bool.false_ne_true, List.append_nil]
    exact ⟨r, ht.of_jobs rfl hflushers (ht.numbered.launch job), fun _ hf => hf⟩

theorem cancel (h : Host τ σ) (scope : Nat) : Minds h (h.cancel scope) := by
  obtain ⟨ready, waits, heq⟩ := h.cancel_eq scope
  rw [heq]
  exact of_eq rfl rfl rfl

theorem expire (h : Host τ σ) (scope : Nat) : Minds h (h.expire scope) := by
  obtain ⟨ready, waits, heq⟩ := h.expire_eq scope
  rw [heq]
  exact of_eq rfl rfl rfl

/-- What a run says is to be done does not touch the recorder. -/
theorem performs (key : SessionKey) (scope : Scope) (stream : Nat) (actions : List Action)
    (h : Host τ σ) : Minds h (actions.foldl (perform key scope stream) h) := by
  induction actions generalizing h with
  | nil => exact refl h
  | cons a actions ih =>
    have ha : Minds h (h.perform key scope stream a) := by
      cases a with
      | endScope => exact cancel h scope.id
      | deliver e => exact of_eq rfl rfl rfl
      | release => exact of_eq rfl rfl rfl
      | close => exact of_eq rfl rfl rfl
    exact ha.trans (ih (h.perform key scope stream a))

/-- An operation on a session that launches no job and leaves its periodic flush under way. -/
theorem of_attends (hr : h.recorder = some r)
    (ha : (∀ key, r.Watched key) → Recorder.Attends key (r.held key).flushing r r') :
    Minds h { h with recorder := some r' } where
  jobs _ hx := hx
  tended r₀ ht := by
    obtain rfl : r₀ = r := Option.some.inj (ht.recorder.symm.trans hr)
    have hattends := ha ht.watched
    have hn : Numbered { h with recorder := some r' } := ⟨ht.numbered.unique, ht.numbered.below⟩
    refine ⟨r', ?_, fun k => hattends.kept id⟩
    exact ht.attends hattends rfl hn (fun _ _ => rfl) (ht.single key) (ht.none key)

section Records

variable [LogStore σ]

/-- **An append** starts a periodic flush if one is called for. -/
theorem append (hr : h.recorder = some r) (key : SessionKey) (e : Event) :
    Minds h (h.append r key e).2 where
  jobs x hx := by
    unfold Host.append
    simp only
    split
    · exact List.mem_append_left _ hx
    · exact hx
  tended r₀ ht := by
    obtain rfl : r₀ = r := Option.some.inj (ht.recorder.symm.trans hr)
    obtain ⟨ha, hfirst⟩ := Recorder.append_attends h.clock e ht.interval (ht.watched key)
    obtain ⟨interval, hinterval⟩ := Option.isSome_iff_exists.1 ht.interval
    refine ⟨(r₀.append h.clock key e).2.2, ?_, fun k => ha.kept fun hf => by rw [hf, Bool.true_or]⟩
    let appended : Host τ σ := { h with recorder := some (r₀.append h.clock key e).2.2 }
    have happend : (h.append r₀ key e).2 =
        if (r₀.append h.clock key e).2.1 = true then appended.launch (.flusher key interval none)
        else appended := by
      unfold Host.append
      simp only [ha.options, hinterval]
      cases (r₀.append h.clock key e).2.1 <;> rfl
    have hn : appended.Numbered := ⟨ht.numbered.unique, ht.numbered.below⟩
    cases hstarts : (r₀.append h.clock key e).2.1 with
    | false =>
      rw [happend, hstarts, if_neg Bool.false_ne_true]
      rw [hstarts, Bool.or_false] at ha
      exact ht.attends ha rfl hn (fun _ _ => rfl) (ht.single key) (ht.none key)
    | true =>
      rw [happend, hstarts, if_pos rfl]
      have hflushers := flushersOf_launch appended (.flusher key interval none)
      refine ht.attends ha rfl (hn.launch _) (fun k hk => ?_) (fun _ => ⟨h.nextJob, ?_⟩)
        fun hoff => ?_
      · have hne : ¬(Job.flusher key interval none : Job τ).flushes k = true := fun hflushes =>
          hk (of_decide_eq_true hflushes).symm
        rw [hflushers, if_neg hne, List.append_nil]
        rfl
      · -- There was none before, since none was under way.
        have hempty : appended.flushersOf key = [] := ht.none key (hfirst hstarts)
        have hself : (Job.flusher key interval none : Job τ).flushes key = true :=
          decide_eq_true rfl
        rw [hflushers, hempty, if_pos hself]
        rfl
      · rw [hstarts, Bool.or_true] at hoff
        cases hoff

/-- A flush that is asked for leaves the periodic one under way. -/
theorem flush (hr : h.recorder = some r) (key : SessionKey) : Minds h (h.flush r key).2 :=
  of_attends hr fun hw => Recorder.flush_attends h.clock (hw key)

/-- A look at a record. -/
theorem entries (hr : h.recorder = some r) (key : SessionKey) (after : Option Nat) :
    Minds h (h.entries r key after).2 :=
  of_attends hr fun hw => Recorder.events_attends after (hw key)

omit [LogStore σ] in
/-- Whatever is asked of the recorder. -/
theorem ask {f : Recorder σ → Except RecordError Unit × Host τ σ}
    (hf : ∀ r, h.recorder = some r → Minds h (f r).2) : Minds h (h.ask f).2 := by
  unfold Host.ask
  cases hr : h.recorder with
  | some r => exact hf r hr
  | none => exact refl h

end Records

end Minds

/-! ## Turns -/

/-- A host with a job goes on.  Tended sessions stay so, and no periodic flush comes to an end but
that of the job. -/
def Tends (job : Job τ) (h h' : Host τ σ) : Prop :=
  ∀ r, h.Tended r → ∃ r', h'.Tended r' ∧
    ∀ key, job.flushes key = false → (r.held key).flushing = true → (r'.held key).flushing = true

/-- What a turn of a job makes of the host. -/
inductive Turns (h : Host τ σ) (id : Nat) (job : Job τ) : Progress τ σ → Prop
  | more {job' : Job τ} {h' : Host τ σ} (tends : Tends job h (h'.setJob id job')) :
      Turns h id job (.more job' h')
  | blocked (w : Wait) {job' : Job τ} {h' : Host τ σ} (tends : Tends job h (h'.setJob id job')) :
      Turns h id job (.blocked w job' h')
  | leaves {h' : Host τ σ} (tends : Tends job h (h'.forget id)) : Turns h id job (.over h')

theorem Minds.setJob (hm : Minds h h') (hmem : (id, job) ∈ h.jobs)
    (hj : job'.flushes = job.flushes) : Tends job h (h'.setJob id job') := by
  intro r ht
  obtain ⟨r', ht', hkept⟩ := hm.tended r ht
  have hflushers := flushersOf_setJob ht'.numbered (hm.jobs _ hmem) hj
  exact ⟨r', ht'.of_jobs rfl hflushers (ht'.numbered.setJob id job'), fun key _ => hkept key⟩

theorem Minds.forget (hm : Minds h h') (hmem : (id, job) ∈ h.jobs)
    (hj : job.flushes = fun _ => false) : Tends job h (h'.forget id) := by
  intro r ht
  obtain ⟨r', ht', hkept⟩ := hm.tended r ht
  have hflushers (key : SessionKey) : (h'.forget id).flushersOf key = h'.flushersOf key :=
    flushersOf_forget_other ht'.numbered (hm.jobs _ hmem) (congrFun hj key)
  exact ⟨r', ht'.of_jobs rfl hflushers (ht'.numbered.forget id), fun key _ => hkept key⟩

section Turns

variable [LogStore σ]

/-- A turn of a run. -/
theorem turns_runTurn [Translator τ] {run : Run τ} {scope : Scope} {stream : Nat} {feed : Feed}
    (hmem : (id, .run run key scope stream feed) ∈ h.jobs) :
    Turns h id (.run run key scope stream feed) (h.runTurn id run key scope stream feed) := by
  have hsame : Minds h h := .refl h
  have hdrawn (h : Host τ σ) : Minds h h.freshId.2 := .of_eq rfl rfl rfl
  have hcall (call : EngineCall) : Minds h { h with calls := h.calls ++ [call] } :=
    .of_eq rfl rfl rfl
  have hmore {h' : Host τ σ} (hm : Minds h h') (run' : Run τ) (feed' : Feed) :
      Turns h id (.run run key scope stream feed) (.more (.run run' key scope stream feed') h') :=
    .more (hm.setJob hmem rfl)
  have hreply {h' : Host τ σ} (hm : Minds h h') (run' : Run τ) (feed' : Feed)
      (actions : List Action) : Turns h id (.run run key scope stream feed)
        (.more (.run run' key scope stream feed')
          (actions.foldl (perform key scope stream) h')) :=
    hmore (hm.trans (.performs key scope stream actions h')) run' feed'
  have hwait (w : Wait) : Turns h id (.run run key scope stream feed)
      (.blocked w (.run run key scope stream feed) h) :=
    .blocked w (hsame.setJob hmem rfl)
  unfold runTurn
  cases run.want with
  | nothing => exact .leaves (hsame.forget hmem rfl)
  | offer e =>
    simp only
    cases h.delivery scope stream with
    | taken => exact hreply hsame _ _ _
    | refused => exact hreply hsame _ _ _
    | full => exact hwait _
  | append e => exact hreply (.ask fun r hr => .append hr key e) _ _ _
  | flush => exact hreply (.ask fun r hr => .flush hr key) _ _ _
  | start =>
    cases feed with
    | starting time outcome =>
      simp only
      split
      · cases outcome with
        | ok items => exact hreply (hdrawn h) _ _ _
        | error reason => exact hreply hsame _ _ _
      · exact hwait _
    | uncalled => exact hmore (hcall _) _ _
    | playing items => exact hmore (hcall _) _ _
    | pausing time items => exact hmore (hcall _) _ _
  | output =>
    simp only
    split
    · exact hreply hsame _ _ _
    · split
      · exact hreply ((hdrawn h).trans ((hdrawn _).trans (hdrawn _))) _ _ _
      · exact hmore hsame _ _
      · exact hwait _
      · split
        · exact hmore hsame _ _
        · exact hwait _
      · exact hreply hsame _ _ _

/-- A turn of a snapshot. -/
theorem turns_snapshotTurn {s : Snapshot} {scope : Scope} {stream : Nat}
    (hmem : (id, .snapshot s scope stream) ∈ h.jobs) :
    Turns h id (.snapshot s scope stream) (h.snapshotTurn id s scope stream) := by
  have hreply {h' : Host τ σ} (hm : Minds h h') (s' : Snapshot) :
      Turns h id (.snapshot s scope stream) (.more (.snapshot s' scope stream) h') :=
    .more (hm.setJob hmem rfl)
  have hwait (w : Wait) : Turns h id (.snapshot s scope stream)
      (.blocked w (.snapshot s scope stream) h) :=
    .blocked w ((Minds.refl h).setJob hmem rfl)
  have hstream (f : Stream → Stream) : Minds h (h.setStream stream f) := .of_eq rfl rfl rfl
  unfold snapshotTurn
  cases s.want with
  | nothing => exact .leaves ((hstream _).forget hmem rfl)
  | offer e =>
    simp only
    cases h.delivery scope stream with
    | taken => exact hreply (hstream _) _
    | refused => exact hreply (.refl h) _
    | full => exact hwait _
  | entries after =>
    simp only
    cases hr : h.recorder with
    | some r => exact hreply (.entries hr s.key after) _
    | none => exact hreply (.refl h) _
  | time deadline next =>
    simp only
    split
    · exact hreply (.refl h) _
    · split
      · exact hreply (.refl h) _
      · split
        · exact hreply (.refl h) _
        · exact hwait _

omit [LogStore σ] in
/-- A turn of a watchdog. -/
theorem turns_watchdogTurn {scope deadline : Nat} (hmem : (id, .watchdog scope deadline) ∈ h.jobs) :
    Turns h id (.watchdog scope deadline) (h.watchdogTurn id scope deadline) := by
  unfold watchdogTurn
  split
  · exact .leaves ((Minds.refl h).forget hmem rfl)
  · split
    · exact .leaves ((Minds.expire h scope).forget hmem rfl)
    · exact .blocked _ ((Minds.refl h).setJob hmem rfl)

/-- **A round of a periodic flush** is its last one, and the recorder knows. -/
theorem turns_flusherTurn {interval : Nat} {due : Option Nat}
    (hmem : (id, .flusher key interval due) ∈ h.jobs) :
    Turns h id (.flusher key interval due) (h.flusherTurn id key interval due) := by
  have hself : (Job.flusher key interval due : Job τ).flushes key = true := decide_eq_true rfl
  unfold flusherTurn
  simp only
  split
  · cases hr : h.recorder with
    | none =>
      refine .leaves fun r ht => ?_
      cases hr.symm.trans ht.recorder
    | some r =>
      obtain ⟨hlast, ha⟩ := Recorder.tick_attends r h.clock key
      simp only [hlast]
      refine .leaves fun r₀ ht => ?_
      obtain rfl : r₀ = r := Option.some.inj (ht.recorder.symm.trans hr)
      let ticked : Host τ σ := { h with recorder := some (r₀.tick h.clock key).2 }
      have hn : ticked.Numbered := ⟨ht.numbered.unique, ht.numbered.below⟩
      have hmem' : (id, .flusher key interval due) ∈ ticked.jobs := hmem
      have hother (k : SessionKey) (hk : k ≠ key) :
          (Job.flusher key interval due : Job τ).flushes k = false :=
        decide_eq_false fun he => hk he.symm
      have htended : (ticked.forget id).Tended (r₀.tick h.clock key).2 := by
        refine ht.attends ha rfl (hn.forget id) (fun k hk => ?_) (fun hon => nomatch hon)
          fun _ => ?_
        · exact flushersOf_forget_other hn hmem' (hother k hk)
        · -- The job was the only one of the session, so none is left.
          have hsingle : ticked.flushersOf key = [id] := ht.flushersOf_eq hmem hself
          rw [flushersOf_forget, hsingle, List.filter_cons_of_neg (by simp)]
          rfl
      refine ⟨(r₀.tick h.clock key).2, htended, fun k hk hf => ?_⟩
      have hne : k ≠ key := by
        rintro rfl
        exact Bool.eq_false_iff.1 hk hself
      rw [ha.others k hne]
      exact hf
  · exact .blocked _ ((Minds.refl h).setJob hmem rfl)

variable [Translator τ]

/-- A turn of a job. -/
theorem turns_jobTurn (hmem : (id, job) ∈ h.jobs) : Turns h id job (h.jobTurn id job) := by
  cases job with
  | run run key scope stream feed => exact turns_runTurn hmem
  | snapshot s scope stream => exact turns_snapshotTurn hmem
  | watchdog scope deadline => exact turns_watchdogTurn hmem
  | flusher key interval due => exact turns_flusherTurn hmem

/-- **A turn of a host** keeps the sessions tended.  No periodic flush comes to an end but that of
the job whose turn it is. -/
theorem turn_tended (ht : h.Tended r) (hturn : h.turn? = some h') :
    ∃ r', h'.Tended r' ∧ ∀ key, (r.held key).flushing = true →
      (∀ id ∈ h.ready.head?, ∀ job ∈ h.jobs.lookup id, job.flushes key = false) →
        (r'.held key).flushing = true := by
  unfold turn? at hturn
  cases hready : h.ready with
  | nil =>
    rw [hready] at hturn
    cases hturn
  | cons id rest =>
    simp only [hready] at hturn
    cases hjob : h.jobs.lookup id with
    | none =>
      simp only [hjob] at hturn
      cases hturn
      exact ⟨r, ht.of_eq rfl rfl rfl, fun _ hf _ => hf⟩
    | some job =>
      simp only [hjob] at hturn
      have hturns := turns_jobTurn (h := h) (mem_of_lookup hjob)
      generalize h.jobTurn id job = p at hturn hturns
      -- The queue is all that changes beside what the job does.
      have hgoes {h₁ : Host τ σ} (htends : Tends job h h₁) (hrecorder : h'.recorder = h₁.recorder)
          (hjobs : h'.jobs = h₁.jobs) (hnext : h'.nextJob = h₁.nextJob) :
          ∃ r', h'.Tended r' ∧ ∀ key, (r.held key).flushing = true →
            (∀ n ∈ (id :: rest).head?, ∀ job ∈ h.jobs.lookup n, job.flushes key = false) →
              (r'.held key).flushing = true := by
        obtain ⟨r', ht', hkept⟩ := htends r ht
        exact ⟨r', ht'.of_eq hrecorder hjobs hnext,
          fun key hf hother => hkept key (hother id rfl job hjob) hf⟩
      cases hturns with
      | more tends =>
        cases hturn
        exact hgoes tends rfl rfl rfl
      | blocked w tends =>
        cases hturn
        exact hgoes tends rfl rfl rfl
      | leaves tends =>
        cases hturn
        exact hgoes tends rfl rfl rfl

end Turns

/-! ## Records -/

/-- Something that is done with the records of a host. -/
inductive Recording
  | append (key : SessionKey) (e : Event)
  | flush (key : SessionKey)
  | entries (key : SessionKey) (after : Option Nat)
  /-- A job takes a turn, wherever it stood in the queue or whatever it waited for. -/
  | turn (job : Nat)
  /-- Time comes to a moment. -/
  | elapse (moment : Nat)

/-- The host in which a job is the next one. -/
def summon (h : Host τ σ) (job : Nat) : Host τ σ :=
  { h with
    ready := job :: h.ready.filter fun n => n != job
    waits := h.waits.filter fun w => w.job != job }

/-- It is the turn of a job that flushes the record of a session. -/
def Recording.IsRound (a : Recording) (h : Host τ σ) (key : SessionKey) : Prop :=
  ∃ id job, a = .turn id ∧ h.jobs.lookup id = some job ∧ job.flushes key = true

section Recordings

variable [Translator τ] [LogStore σ]

/-- Do something with the records, however it ends. -/
def record (h : Host τ σ) : Recording → Host τ σ
  | .append key e => (h.ask fun r => h.append r key e).2
  | .flush key => (h.ask fun r => h.flush r key).2
  | .entries key after =>
    match h.recorder with
    | some r => (h.entries r key after).2
    | none => h
  | .turn job => (h.summon job).turn?.getD h
  | .elapse moment => h.elapse moment

/-- Do one thing after the other. -/
def recordings (h : Host τ σ) (actions : List Recording) : Host τ σ := actions.foldl record h

/-- Whatever is done with the records keeps the sessions tended. -/
theorem record_tended (ht : h.Tended r) (a : Recording) :
    ∃ r', (h.record a).Tended r' ∧ ∀ key, (r.held key).flushing = true →
      ¬a.IsRound h key → (r'.held key).flushing = true := by
  have hminds (hm : Minds h (h.record a)) : ∃ r', (h.record a).Tended r' ∧
      ∀ key, (r.held key).flushing = true → ¬a.IsRound h key → (r'.held key).flushing = true := by
    obtain ⟨r', ht', hkept⟩ := hm.tended r ht
    exact ⟨r', ht', fun key hf _ => hkept key hf⟩
  cases a with
  | append key e => exact hminds (.ask fun r hr => .append hr key e)
  | flush key => exact hminds (.ask fun r hr => .flush hr key)
  | entries key after =>
    refine hminds ?_
    unfold record
    simp only [ht.recorder]
    exact .entries ht.recorder key after
  | turn id =>
    -- The sessions do not depend on who stands in the queue.
    have hs : (h.summon id).Tended r :=
      ht.of_jobs rfl (fun _ => rfl) ⟨ht.numbered.unique, ht.numbered.below⟩
    cases hturn : (h.summon id).turn? with
    | none =>
      have hstays : h.record (.turn id) = h := by rw [record, hturn, Option.getD_none]
      exact ⟨r, hstays.symm ▸ ht, fun key hf _ => hf⟩
    | some h' =>
      obtain ⟨r', ht', hkept⟩ := turn_tended hs hturn
      have hgoes : h.record (.turn id) = h' := by rw [record, hturn, Option.getD_some]
      refine ⟨r', hgoes.symm ▸ ht', fun key hf hround => hkept key hf ?_⟩
      rintro n ⟨rfl⟩ job hjob
      exact Bool.eq_false_iff.2 fun hflushes => hround ⟨id, job, rfl, hjob, hflushes⟩
  | elapse moment => exact hminds (.of_eq rfl rfl rfl)

/-- One thing after the other keeps them tended. -/
theorem recordings_tended (ht : h.Tended r) (actions : List Recording) :
    ∃ r', (h.recordings actions).Tended r' := by
  induction actions generalizing h r with
  | nil => exact ⟨r, ht⟩
  | cons a actions ih =>
    obtain ⟨r', ht', -⟩ := record_tended ht a
    exact ih ht'

/-- **What is held back is going to be flushed.**  Whatever is done with the records of a host with
a flush interval, and whichever operations of its store fail: a session for which a piece is held
back has a periodic flush under way, one under way is a single job, and there is none otherwise.
Nobody forgets a session for which a piece is held back or a periodic flush is under way, and it
is still remembered as one to be flushed after any next thing but a round of that flush. -/
theorem held_back_flushed {store : σ} {options : RecorderOptions}
    (hrecorder : h.recorder = some { store, options })
    (hinterval : options.flushInterval.isSome = true) (hn : h.Numbered)
    (hnone : ∀ key, h.flushersOf key = []) (actions : List Recording) :
    (∀ (r : Recorder σ) key k s, r.sessions.lookup key = some s → s.busy = true →
      (r.evictIdle k).sessions.lookup key = some s) ∧
    ∃ r, (h.recordings actions).recorder = some r ∧ ∀ key,
      ((r.held key).merger.pending.isSome = true → (r.held key).flushing = true) ∧
      ((r.held key).flushing = true ↔ ∃ id, (h.recordings actions).flushersOf key = [id]) ∧
      ((r.held key).flushing = false → (h.recordings actions).flushersOf key = []) ∧
      ((r.held key).busy = true → ∀ a : Recording, ¬a.IsRound (h.recordings actions) key →
        ∃ r' s, ((h.recordings actions).record a).recorder = some r' ∧
          r'.sessions.lookup key = some s ∧ s.flushing = true) := by
  refine ⟨fun r key k s hl hb => r.lookup_evictIdle hl hb, ?_⟩
  obtain ⟨r, ht⟩ := recordings_tended (tended_start hrecorder hinterval hn hnone) actions
  refine ⟨r, ht.recorder, fun key => ⟨ht.watched key, ht.flushing_iff key, ht.none key, ?_⟩⟩
  intro hbusy a hround
  have hflushing : (r.held key).flushing = true := (ht.watched key).flushing hbusy
  obtain ⟨r', ht', hkept⟩ := record_tended ht a
  have hflushing' : (r'.held key).flushing = true := hkept key hflushing hround
  exact ⟨r', r'.held key, ht'.recorder, Recorder.lookup_of_flushing hflushing', hflushing'⟩

/-- The store refuses the first piece when a second one comes, and a client has the second one
flushed while the job waits for its round.  A third piece needs no other job. -/
theorem held_back_flushed_refused :
    let options : RecorderOptions := { flushInterval := some 50 }
    let h : Host Framer UnreliableStore :=
      { runner := .usual { appName := "app" } Runner.helloUser
        engine := fun _ _ => {}
        recorder := some { store := { fails := (· == 0) }, options } }
    let actions : List Recording := [.append Recorder.demoKey (Body.textContent "m" "a"), .turn 0,
      .append Recorder.demoKey (Body.textContent "n" "b"), .elapse 20, .flush Recorder.demoKey,
      .append Recorder.demoKey (Body.textContent "n" "c")]
    h.Numbered ∧ (∀ key, h.flushersOf key = []) ∧
    ∃ r, (h.recordings actions).recorder = some r ∧
      (r.held Recorder.demoKey).merger.pending = some (Body.textContent "n" "c") ∧
      (r.held Recorder.demoKey).flushing = true ∧
      ∃ id, (h.recordings actions).flushersOf Recorder.demoKey = [id] := by
  intro options h actions
  have hn : h.Numbered := ⟨List.nodup_nil, fun x hx => by cases hx⟩
  have hnone (key : SessionKey) : h.flushersOf key = [] := rfl
  obtain ⟨-, r, hr, hkeys⟩ := held_back_flushed (h := h) rfl rfl hn hnone actions
  let last : Event := Body.textContent "n" "c"
  have hlast : (h.recordings actions).recorder.map (fun r =>
      (r.held Recorder.demoKey).merger.pending) = some (some last) := rfl
  rw [hr] at hlast
  have hpending : (r.held Recorder.demoKey).merger.pending = some last := Option.some.inj hlast
  obtain ⟨hwatched, hsingle, -, -⟩ := hkeys Recorder.demoKey
  have hflushing := hwatched (by rw [hpending]; rfl)
  exact ⟨hn, hnone, r, hr, hpending, hflushing, hsingle.1 hflushing⟩

end Recordings

end Host

/-! ## Sites -/

namespace Site

open Host (Minds)

variable {h h' : Host τ σ} {clients : List Nat} {scope : Nat} {r : Recorder σ}

/-- A deadline may need a watchdog. -/
theorem minds_withDeadline (h : Host τ σ) (s : Scope) (deadline : Nat) :
    Minds h (h.withDeadline s deadline).2 := by
  have hscopes : Minds h { h with scopes := (h.scopes.withDeadline s deadline).2.2 } :=
    .of_eq rfl rfl rfl
  unfold Host.withDeadline
  simp only
  split
  · exact hscopes.trans (.launch _ rfl)
  · exact hscopes

theorem Makes.minds (hm : Makes h clients scope h') : Minds h h' := by
  cases hm with
  | background => exact .of_eq rfl rfl rfl
  | detached s => exact .of_eq rfl rfl rfl
  | child held => exact .of_eq rfl rfl rfl
  | withDeadline held deadline => exact minds_withDeadline h _ deadline

/-- A run that is started is no periodic flush. -/
theorem minds_run {caller : Scope} {request : Request} {stream : Nat}
    (hrun : h.run caller request = .ok (stream, h')) : Minds h h' := by
  have hscope : Minds h (h.freshId.2.runScope caller).2 := by
    have hmade : Minds h.freshId.2 (h.freshId.2.runScope caller).2 := by
      refine Host.runScope_of (R := fun h _ _ h' => Minds h h') ?_ ?_ ?_ ?_
      · exact .of_eq rfl rfl rfl
      · exact .of_eq rfl rfl rfl
      · exact minds_withDeadline
      · exact fun _ _ _ _ _ _ hm hm' => hm.trans hm'
    have hdrawn : Minds h h.freshId.2 := .of_eq rfl rfl rfl
    exact hdrawn.trans hmade
  unfold Host.run at hrun
  cases hp : h.runner.plan h.freshId.1 (h.view caller) request with
  | error e =>
    simp only [hp, bind, Except.bind] at hrun
    cases hrun
  | ok plan =>
    simp only [hp, bind, Except.bind] at hrun
    split at hrun
    · cases hrun
    · cases hrun
      refine hscope.trans (Minds.trans ?_ (.launch _ rfl))
      exact .of_eq rfl rfl rfl

variable [Translator τ] [LogStore σ] {s s' : Site τ σ}

/-- **Whatever happens on a site** keeps the sessions tended. -/
theorem step_tended (ht : s.host.Tended r) (hstep : Step s s') : ∃ r', s'.host.Tended r' := by
  have hminds {h' : Host τ σ} (hm : Minds s.host h') : ∃ r', h'.Tended r' := by
    obtain ⟨r', ht', -⟩ := hm.tended r ht
    exact ⟨r', ht'⟩
  cases hstep with
  | make made => exact hminds made.minds
  | cancel held => exact hminds (.cancel s.host _)
  | run held started => exact hminds (minds_run started)
  | snapshot held started =>
    obtain ⟨snapshot, rfl⟩ := Host.snapshot_eq_ok started
    refine hminds (Minds.trans ?_ (.launch _ rfl))
    exact .of_eq rfl rfl rfl
  | cancelRun cancelled =>
    obtain ⟨key, scope, -, rfl⟩ := Host.cancelRun_eq_ok cancelled
    exact hminds (.cancel s.host scope)
  | take taken =>
    unfold Host.take? at taken
    split at taken
    · cases taken
      exact hminds (.of_eq rfl rfl rfl)
    · cases taken
  | drop stream => exact hminds (.of_eq rfl rfl rfl)
  | elapse moment => exact hminds (.of_eq rfl rfl rfl)
  | turn turned =>
    obtain ⟨r', ht', -⟩ := Host.turn_tended ht turned
    exact ⟨r', ht'⟩

/-- **On a site every piece of text that is held back is going to be flushed**, by a single job,
whatever has happened since the host had no jobs. -/
theorem reaches_tended {store : σ} {options : RecorderOptions}
    (hrecorder : h.recorder = some { store, options })
    (hinterval : options.flushInterval.isSome = true) (hjobs : h.jobs = [])
    (hreach : Reaches ⟨h, clients⟩ s) : ∃ r, s.host.Tended r := by
  induction hreach with
  | refl =>
    have hn : h.Numbered := by
      refine ⟨?_, fun x hx => ?_⟩
      · rw [hjobs]
        exact List.nodup_nil
      · rw [hjobs] at hx
        cases hx
    refine ⟨_, Host.tended_start hrecorder hinterval hn fun key => ?_⟩
    rw [Host.flushersOf, hjobs]
    rfl
  | tail _ hstep ih =>
    obtain ⟨r, ht⟩ := ih
    exact step_tended ht hstep

end Site

end AgentStream
