import Jobu.Consistency.Frame

/-!
# The live runs of a job

A live run is one of the two its job may have, so the agreement of a job with its runs (`Settled`)
says everything about the live rows.  Cancelling what waits is the one write many transactions
share.

  > `Consistent.live_fits`: a live run is in the queue of its job, at most at its revision.
  > `cancelPending_consistent`: cancelled rows stay sound, and nothing else changes.
-/

namespace Jobu

open Lib Table JobRun

open Keyed (key)

variable {jobId : Uuid} {run : JobRun} {owned manual : Option JobRun} {job job' : JobDefinition}
  {db' : Database}

/-! ## Rows of one job -/

namespace Consistent

variable {env : Environment} {E F : Uuid → Prop} {db : Database}

theorem openJob (h : Intact env db) (jobId : Uuid) : Consistent env (Only jobId) Nobody db :=
  h.weaken (fun _ => False.elim) fun _ hf => hf

/-- The job left out agrees with its runs again. -/
theorem closeJob (h : Consistent env (Only jobId) Nobody db)
    (hs : ∀ job ∈ db.jobs, job.id = jobId → Settled db.runs job) :
    Intact env db :=
  h.close hs fun _ _ hf => hf.elim

/-- A live run is one of the two its job may have. -/
theorem live_cases (h : Consistent env E F db) (hr : run ∈ db.runs) (hl : run.state.isTerminal = false) :
    ownedBy run.jobId run = true ∨ manualOf run.jobId run = true := by
  obtain ⟨hn, how⟩ := (h.runs run hr).origin
  cases ho : run.origin with
  | scheduled => exact .inl (by simp [ownedBy, isLiveOwned, isLive, hl, how, ho])
  | manual => exact .inr (by simp [manualOf, isLiveManual, isLive, hl, ho])
  | submitted => exact absurd ho hn

/-- The live runs of a job that agrees with them. -/
theorem live_mem (h : Consistent env E F db) (hw : Work db.runs jobId owned manual) (hr : run ∈ db.runs)
    (hj : run.jobId = jobId) (hl : run.state.isTerminal = false) :
    owned = some run ∨ manual = some run := by
  subst hj
  exact (h.live_cases hr hl).imp (hw.owned.eq_some hr) (hw.manual.eq_some hr)

/-- A live run follows its job. -/
theorem live_fits (h : Intact env db)
    (hj : job ∈ db.jobs) (hr : run ∈ db.runs) (hi : run.jobId = job.id)
    (hl : run.state.isTerminal = false) : Fits job run := by
  obtain ⟨_, _, hw, hok⟩ := h.settled job hj id
  rcases h.live_mem hw hr hi hl with ho | hm
  · exact hok.ownedFits run ho
  · exact hok.manualFits run hm

end Consistent

variable {runs : Table JobRun}

theorem Work.isLive_owned (h : Work runs jobId owned manual) (hr : owned = some run) :
    run ∈ runs ∧ run.jobId = jobId ∧ run.state.isTerminal = false ∧ run.scheduleOwned = true := by
  obtain ⟨hm, hp⟩ := (hr ▸ h.owned : runs.IsOnly _ (some run)).mem
  simp only [ownedBy, isLiveOwned, isLive, bool_steps] at hp
  exact ⟨hm, hp.1, hp.2.1, hp.2.2⟩

theorem Work.isLive_manual (h : Work runs jobId owned manual) (hr : manual = some run) :
    run ∈ runs ∧ run.jobId = jobId ∧ run.state.isTerminal = false ∧ run.origin = .manual := by
  obtain ⟨hm, hp⟩ := (hr ▸ h.manual : runs.IsOnly _ (some run)).mem
  simp only [manualOf, isLiveManual, isLive, bool_steps] at hp
  exact ⟨hm, hp.1, hp.2.1, hp.2.2⟩

theorem Work.of_ended (h : ∀ run ∈ runs, run.jobId = jobId → run.state.isTerminal = true) :
    Work runs jobId none none := by
  constructor
  · refine isOnly_none.2 fun run hr => ?_
    by_cases hi : run.jobId = jobId
    · simp [ownedBy, isLiveOwned, isLive, h run hr hi]
    · simp [ownedBy, hi]
  · refine isOnly_none.2 fun run hr => ?_
    by_cases hi : run.jobId = jobId
    · simp [manualOf, isLiveManual, isLive, h run hr hi]
    · simp [manualOf, hi]

variable {state : RunState}

theorem RunState.running_of_live (h : state.isTerminal = false) (hp : state.isPending = false) : state = .running := by
  cases state <;> first | rfl | simp [RunState.isTerminal, RunState.isPending] at h hp

/-! ## Cancelling what waits -/

variable {timings : Table RunTiming}

/-- The timing of a run without an open interval fits every state. -/
theorem timing_of_closed (h : ∃ t ∈ timings, t.runId = run.id ∧ Telemetry.TimingShape run.state t)
    (hc : Closed timings run.id) :
    ∃ t ∈ timings, t.runId = run.id ∧ Telemetry.TimingShape state t := by
  obtain ⟨t, ht, hi, hs⟩ := h
  exact ⟨t, ht, hi, hs.of_closed (hc t ht hi)⟩

variable {env : Environment}

theorem cancelled_sound {jobs : Table JobDefinition} {queues : Table Queue} (h : RunSound env jobs queues timings run)
    (hc : Closed timings run.id) (completedAt : Int) (reason : String) :
    RunSound env jobs queues timings (Runs.cancelled completedAt reason run) where
  id := h.id
  shape := ⟨h.shape.revision, h.shape.attributes, h.shape.payload, h.shape.owned, rfl, fun ht => (by cases ht), rfl⟩
  aligned := h.aligned
  origin := h.origin
  result _ := rfl
  job := h.job
  queue := h.queue
  timing := (timing_of_closed h.timing hc : ∃ t ∈ timings, t.runId = run.id ∧ Telemetry.TimingShape .cancelled t)

variable {E : Uuid → Prop} {db : Database}

theorem cancelPending_consistent
    {selected : JobRun → Bool} {completedAt : Int} {reason : String} {count : Nat} (h : Consistent env E Nobody db)
    (hse : ∀ run ∈ db.runs, selected run = true → run.state.isPending = true → E run.jobId ∧ Closed db.timings run.id)
    (hy : Yields (Runs.cancelPending selected completedAt reason) db count db') :
    Consistent env E Nobody db' ∧ Frame Nobody Nobody db db' ∧ db'.queues = db.queues ∧ db'.jobs = db.jobs ∧
      ∀ run' ∈ db'.runs, (run' ∈ db.runs ∧ (selected run' && run'.state.isPending) = false) ∨
        run'.state = .cancelled := by
  simp only [Runs.cancelPending, yields_steps] at hy
  obtain ⟨_, _, ⟨-, rfl⟩, _, _, rfl, -, rfl⟩ := hy
  refine ⟨h.updateRuns fun run hru hp => ?_, .updateRuns
    (Runs.key_cancelled completedAt reason) rfl rfl fun run hru hp => ?_, rfl, rfl, fun run' hr' => ?_⟩
  · rw [Bool.and_eq_true] at hp
    obtain ⟨hl, hc⟩ := hse run hru hp.1 hp.2
    have hs := h.runs run hru
    refine ⟨hl, cancelled_sound hs hc _ _, rfl, fun hF => ?_⟩
    refine (h.history run hru hF).cancel hp.2 (fun hst => ?_) rfl rfl
    have := hs.shape.started
    rw [hst] at this
    simpa [validStartedAt] using this
  · rw [Bool.and_eq_true] at hp
    exact ⟨⟨rfl, rfl, rfl, rfl, rfl⟩, RunState.not_isTerminal_of_isPending hp.2,
      fun _ => ⟨.inr ⟨hp.2, rfl⟩, fun hr => by rw [hr] at hp; cases hp.2⟩⟩
  · obtain ⟨_, hru, rfl⟩ := (mem_update (Runs.key_cancelled _ _)).1 hr'
    split
    · exact .inr rfl
    next hp => exact .inl ⟨hru, by simpa using hp⟩

/-! ## Inserting a run -/

theorem Work.insertOwned (h : Work runs jobId none manual) (hn : runs.find? run.id = none) (hj : run.jobId = jobId)
    (hst : run.state = .scheduled) (ho : run.scheduleOwned = true ∧ run.origin = .scheduled) :
    Work (runs.insert run) jobId (some run) manual := by
  have hl : run.isLive = true := by simp [isLive, hst, RunState.isTerminal]
  constructor
  · have := h.owned.insert hn fun _ => rfl
    simpa [ownedBy, isLiveOwned, hj, hl, ho.1] using this
  · have := h.manual.insert (r := run) hn fun hp => by
      simp [manualOf, isLiveManual, ho.2] at hp
    simpa [manualOf, isLiveManual, ho.2] using this

theorem Work.insertManual (h : Work runs jobId owned none) (hn : runs.find? run.id = none) (hj : run.jobId = jobId)
    (hst : run.state = .scheduled) (ho : run.origin = .manual ∧ run.scheduleOwned = false) :
    Work (runs.insert run) jobId owned (some run) := by
  have hl : run.isLive = true := by simp [isLive, hst, RunState.isTerminal]
  constructor
  · have := h.owned.insert (r := run) hn fun hp => by
      simp [ownedBy, isLiveOwned, ho.2] at hp
    simpa [ownedBy, isLiveOwned, ho.2] using this
  · have := h.manual.insert hn fun _ => rfl
    simpa [manualOf, isLiveManual, hj, hl, ho.1] using this

variable {F : Uuid → Prop}

/-- A job nobody has heard of has no runs. -/
theorem Consistent.work_of_new (h : Consistent env E F db) (hn : db.jobs.find? jobId = none) :
    Work db.runs jobId none none :=
  .of_ended fun run hr hi => by
    obtain ⟨job, hj, hji, -⟩ := (h.runs run hr).job
    exact absurd (hji.trans hi) (Table.find?_eq_none.1 hn job hj)

variable {measurement : Runs.InitialMeasurement}

/-- An inserted run is sound when it copies its job. -/
theorem inserts_consistent (h : Consistent env E F db)
    (hi : Runs.Inserts env run measurement db db') (hE : E run.jobId) (hid : run.id ≠ Uuid.nil)
    (hp : env.payloads.issue run.type run.payload = none)
    (hor : run.origin ≠ .submitted ∧ (run.scheduleOwned = true ↔ run.origin = .scheduled))
    (hj : ∃ job ∈ db.jobs, job.id = run.jobId ∧ run.jobRevision ≤ job.revision ∧
      run.type = job.type) : Consistent env E F db' := by
  obtain ⟨⟨hs, hst, hc, hr, ha, hre⟩, -, hq, hfr, hti, rfl⟩ := hi
  refine h.insertRun hE hid ?_ (storedTime_storedTime _) hor hs hj hq ⟨rfl, ?_⟩ hfr hti
  · refine ⟨hre, ha, hp, fun ho => hor.2.1 ho, ?_, fun _ => ?_, ?_⟩
    · simp [Runs.stored, hs, hc, RunState.isTerminal]
    · simp [Runs.stored, hr]
    · simp [Runs.stored, hs, hst, validStartedAt]
  · exact ⟨fun interval hi => (by cases hi), fun _ => ⟨rfl, rfl, rfl⟩⟩

theorem Runs.Inserts.frame {touched moved : Uuid → Prop}
    (h : Runs.Inserts env run measurement db db') : Frame touched moved db db' := by
  rw [h.eq]
  exact .insertRun rfl rfl h.free h.new.state

/-! ## A job enters a state -/

/-- The agreement with its live runs of a job that stays open. -/
theorem JobOk.enter (h : JobOk job owned manual) (hop : job.state ≠ .deleted ∧ job.state.isTerminal = false)
    (hq : job'.queueId = job.queueId) (hre : job.revision ≤ job'.revision)
    (hsc : job'.schedule.isOnce = job.schedule.isOnce)
    (ho' : job'.state ≠ .deleted ∧ job'.state.isTerminal = false)
    (hsu : job'.state = .suspended → ∀ run ∈ owned, run.state ≠ .running) :
    JobOk job' owned manual where
  ownedFits run hr := ⟨hq ▸ (h.ownedFits run hr).queue, (h.ownedFits run hr).revision.trans hre⟩
  manualFits run hr := ⟨hq ▸ (h.manualFits run hr).queue, (h.manualFits run hr).revision.trans hre⟩
  barrier := h.barrier
  ended he := by
    rcases he with he | he
    · exact absurd he ho'.1
    · rw [ho'.2] at he
      cases he
  recurring _ ho := h.recurring hop.1 (hsc ▸ ho)
  unfinished _ _ := h.unfinished hop.1 hop.2
  suspended := hsu

variable {f : JobRun → JobRun}

theorem JobOk.change (h : JobOk job owned manual) (hs : job'.state = job.state)
    (hre : job'.state ≠ .deleted → job'.schedule.isOnce = false → owned.isSome = true)
    (hfi : ∀ run, owned = some run ∨ manual = some run → Fits job' (f run))
    (hba : manual.isSome = true → ∀ run ∈ owned, (f run).state = .scheduled)
    (hsu : job.state = .suspended → ∀ run ∈ owned, (f run).state ≠ .running) :
    JobOk job' (owned.map f) (manual.map f) where
  ownedFits run hr := by
    obtain ⟨r, hme, rfl⟩ := Option.mem_map.1 hr
    exact hfi r (.inl hme)
  manualFits run hr := by
    obtain ⟨r, hme, rfl⟩ := Option.mem_map.1 hr
    exact hfi r (.inr hme)
  barrier hm run hr := by
    obtain ⟨r, hme, rfl⟩ := Option.mem_map.1 hr
    exact hba (by simpa using hm) r hme
  ended he := by
    obtain ⟨ho, hm⟩ := h.ended (by rwa [hs] at he)
    simp [ho, hm]
  recurring hd ho := by simpa using hre hd ho
  unfinished hd ht := by simpa using h.unfinished (hs ▸ hd) (hs ▸ ht)
  suspended hsus run hr := by
    obtain ⟨r, hme, rfl⟩ := Option.mem_map.1 hr
    exact hsu (hs ▸ hsus) r hme

/-- The live runs change with their job, but not their states. -/
theorem JobOk.map (h : JobOk job owned manual) (hs : job'.state = job.state)
    (hre : job'.state ≠ .deleted → job'.schedule.isOnce = false → owned.isSome = true)
    (hf : ∀ run, owned = some run ∨ manual = some run → Fits job' (f run) ∧
      (f run).state = run.state) : JobOk job' (owned.map f) (manual.map f) :=
  h.change hs hre (fun run hr => (hf run hr).1)
    (fun hm run hr => (hf run (.inl hr)).2.trans (h.barrier hm run hr))
    fun hsu run hr => by rw [(hf run (.inl hr)).2]; exact h.suspended hsu run hr

/-- Rows that change without ending or changing hands. -/
theorem Work.update {q : JobRun → Bool} (hf : ∀ r : JobRun, key (f r) = key r)
    (h : Work runs jobId owned manual) (hsa : ∀ r ∈ runs, q r = true → Same r (f r) ∧
      (f r).state.isTerminal = r.state.isTerminal) :
    Work (runs.update q f hf) jobId (owned.map fun r => if q r then f r else r)
      (manual.map fun r => if q r then f r else r) := by
  have ho : ∀ r ∈ runs, ownedBy jobId (if q r then f r else r) = ownedBy jobId r := by
    intro r hr
    split
    · obtain ⟨hs, ht⟩ := hsa r hr ‹_›
      simp [ownedBy, isLiveOwned, isLive, hs.jobId, hs.owned, ht]
    · rfl
  have hm : ∀ r ∈ runs, manualOf jobId (if q r then f r else r) = manualOf jobId r := by
    intro r hr
    split
    · obtain ⟨hs, ht⟩ := hsa r hr ‹_›
      simp [manualOf, isLiveManual, isLive, hs.jobId, hs.origin, ht]
    · rfl
  exact ⟨h.owned.update_same hf ho, h.manual.update_same hf hm⟩

/-- A committed transition of one job row. -/
structure Enters (jobId : Uuid) (expected next : JobState) (db db' : Database) : Prop where
  queues : db'.queues = db.queues
  runs : db'.runs = db.runs
  attempts : db'.attempts = db.attempts
  timings : db'.timings = db.timings
  row : ∃ row ∈ db.jobs, ∃ revision updatedAt, row.id = jobId ∧ row.state = expected ∧
    row.revision < revision ∧ Jobs.entered next revision updatedAt row ∈ db'.jobs
  others : ∀ job' ∈ db'.jobs, job' ∈ db.jobs ∨ job'.id = jobId

theorem setState_consistent
    {id : Uuid} {expected next : JobState} {expectedRevision nextRevision : Nat} {updatedAt : Int}
    (h : Consistent env E F db) (hE : E id)
    (hte : ∀ row ∈ db.jobs, row.id = id → next.isTerminal = true → row.schedule.isOnce = true)
    (hmax : nextRevision ≤ maximumRevision)
    (hy : Yields (Jobs.setState id expected next expectedRevision nextRevision updatedAt) db true
      db') : Consistent env E F db' ∧ Enters id expected next db db' := by
  obtain ⟨⟨hl, hne, -⟩, rfl, ⟨row, hro, rfl, hs, hr, hn⟩, rfl⟩ := Jobs.yields_setState_true.1 hy
  refine ⟨h.modifyJob fun j hj hi => ?_, rfl, rfl, rfl, rfl, ⟨row, hro, _, _, rfl, hs,
    Nat.lt_succ_of_le hr.le, modify_mem hro _ (Jobs.key_entered _ _ _)⟩, fun job' hj' => ?_⟩
  · obtain rfl := eq_of_key hj hro hi
    obtain ⟨hsh, hc, queue, hq, hqi, hd⟩ := h.jobs j hj
    refine ⟨hE, ⟨⟨⟨Nat.le_add_left 1 _, hmax⟩, hsh.attributes, hsh.payload, hsh.name,
      iff_of_false hne (by simp [Jobs.entered, hn]), hte j hj rfl⟩, hc, queue, hq, hqi,
      fun _ => hd (hs ▸ hl)⟩, hr ▸ Nat.le_succ _, rfl⟩
  · rcases (mem_modify (Jobs.key_entered _ _ _)).1 hj' with ⟨_, hjo, hi, rfl⟩ | ⟨hjo, -⟩
    · exact .inr hi
    · exact .inl hjo

end Jobu
