import Jobu.Changes.Basic
import Jobu.Consistency.JobOperations

/-!
# The changes of the management operations

What each operation of a client does to the rows when it commits, and, for those that carry one,
that the row had the expected revision.

  > `updateJob_changes`: the definition with its references, then the untouched run.
  > `eraseQueue_changes`: deleting a queue is one change of all its rows.
-/

namespace Jobu

open Lib Jobs Table Secrets Option Runs Queues Telemetry

open Keyed (key)

variable {u : Unit} {time : Int} {jobId : Uuid} {run : JobRun} {job job' : JobDefinition}
  {queue queue' : Queue} {selector : Management.QueueSelector}

variable {env : Environment} {caller : Caller} {amb : Ambient} {now : Int} {db db' : Database}

/-! ## Statements -/

theorem visitScope_measured {scope : Scope} {reopen : Bool}
    (h : Yields (visitScope amb scope reopen) db u db') : Measured db db' :=
  (visitScope_measures amb scope reopen).yields h

variable {id : Uuid} {next : QueueState} {expectedRevision nextRevision : Nat}

theorem setQueueState_quiet {expected : QueueState}
    (h : Yields (setState id expected next expectedRevision nextRevision time) db true db') :
    Quiet env caller now db db' := by
  obtain ⟨⟨hl, hn, hm⟩, rfl, ⟨row, hr, rfl, rfl, rfl, -⟩, rfl⟩ := yields_setState_true.1 h
  exact .single (.queueWritten row hr _ _ (.entered next time hl hm) hn) rfl

theorem setJobState_quiet {expected next : JobState}
    (hte : next.isTerminal = true → ∀ row ∈ db.jobs, row.id = id → row.schedule.isOnce = true)
    (h : Yields (setState id expected next expectedRevision nextRevision time) db true db') :
    Quiet env caller now db db' := by
  obtain ⟨⟨hl, hn, hm⟩, rfl, ⟨row, hr, rfl, rfl, rfl, -⟩, rfl⟩ := yields_setState_true.1 h
  exact .single (.jobEntered row hr next time hl hn hm fun ht => hte ht row hr rfl) rfl

theorem yields_insertReply {record : IdempotencyRecord} : Yields (Idempotency.insert record) db u db' ↔
      db.idempotency.find? (Idempotency.matchesKey record.method record.scopeId record.key) = none ∧ db' =
        { db with
          idempotency := { record with createdAt := storedTime record.createdAt } :: db.idempotency } := by
  simp only [Idempotency.insert, yields_steps]
  constructor
  · rintro ⟨_, _, ⟨rfl, rfl⟩, _, _, ⟨hfr, rfl⟩, rfl⟩
    exact ⟨by simpa using hfr, rfl⟩
  · rintro ⟨hfr, rfl⟩
    exact ⟨_, db, ⟨rfl, rfl⟩, (), db, ⟨by rw [hfr]; rfl, rfl⟩, rfl⟩

variable {references : List SecretReference}

/-- Every name that is referred to is the name of a stored secret. -/
theorem stored_of_require (h : Yields (requireExistingReferences env references) db u db') :
    ∀ reference ∈ references, reference.secretName ∈ db.secrets := by
  simp only [requireExistingReferences, yields_steps] at h
  obtain ⟨_, _, ⟨-, rfl⟩, names, _, ⟨rfl, rfl⟩, h⟩ := h
  generalize hn : Database.secrets _ = names at h ⊢
  clear hn
  induction references with
  | nil => exact fun _ hr => absurd hr List.not_mem_nil
  | cons _ _ ih =>
    simp only [List.forM_cons, yields_steps] at h
    obtain ⟨_, _, ⟨_, _, ⟨-, rfl⟩, hna, rfl⟩, hre⟩ := h
    exact List.forall_mem_cons.2 ⟨hna, ih hre⟩

theorem yields_replaceReferences (h : Yields (replaceReferencesForJob env jobId references) db u db') :
    db' = { db with secretReferences := db.referencing jobId references } := by
  simp only [replaceReferencesForJob, yields_steps] at h
  obtain ⟨_, _, ⟨-, rfl⟩, _, _, ⟨-, rfl⟩, rfl⟩ := h
  rfl

/-- No run of the job is live and owned by its schedule. -/
theorem no_owned {runs : Table JobRun} (h : runs.IsOnly (fun run => run.jobId = jobId && run.isLiveOwned) none) :
    ∀ run ∈ runs, run.jobId = jobId → run.isLiveOwned = false := by
  intro run hr hi
  have hn := isOnly_none.1 h run hr
  rwa [decide_eq_true hi, Bool.true_and] at hn

theorem Runs.Inserts.changes {measurement : InitialMeasurement} (h : Inserts env run measurement db db')
    (hr : Change env caller now db { db with runs := db.runs.insert (stored run) }) :
    Changes env caller now db db' := by
  obtain rfl := h.eq
  exact (Changes.single hr).then (Measured.quiet ⟨_, _, rfl⟩)

/-- The job of a live run is in the queue of the run. -/
theorem Consistent.inQueue (h : Intact env db)
    (hr : run ∈ db.runs) (hli : run.isLive = true) (hj : job ∈ db.jobs)
    (hi : job.id = run.jobId) : Jobs.inQueue run.queueId job = true := by
  have hl : run.state.isTerminal = false := by simpa [JobRun.isLive] using hli
  have hq := (h.live_fits hj hr hi.symm hl).queue
  obtain ⟨_, _, hw, hok⟩ := h.settled job hj id
  have hop : job.state ≠ .deleted := by
    intro hs
    obtain ⟨rfl, rfl⟩ := hok.ended (.inl hs)
    rcases h.live_mem hw hr hi.symm hl with ho | hm
    · cases ho
    · cases hm
  have hd : job.deletedAt = none := by
    have := mt (h.jobs job hj).shape.deleted.2 hop
    rwa [Option.isSome_iff_ne_none, not_not] at this
  simp [Jobs.inQueue, hq, hop, hd]

namespace Management

/-! ## Replies -/

/-- A queue as its creation leaves it. -/
structure FreshQueue (env : Environment) (queue : Queue) : Prop where
  name : env.isValidQueueName queue.name = true
  limits : queue.weight ≠ 0 ∧ queue.concurrencyLimit ≠ 0
  state : queue.state = .active ∧ queue.deletedAt = none ∧ queue.deletedName = none
  created : queue.updatedAt = queue.createdAt

/-- A definition as its creation leaves it. -/
structure FreshJob (env : Environment) (job : JobDefinition) : Prop where
  name : (job.name.all fun name => env.isValidJobName name) = true
  payload : env.payloads.issue job.type job.payload = none
  attributes : env.registry.isComplete job.type job.attributes = true
  state : job.revision = 1 ∧ job.state = .active ∧ job.deletedAt = none
  created : job.updatedAt = job.createdAt

/-- What a keyed creation of a queue stores. -/
structure QueueReply (env : Environment) (codec : ReplayCodec CreateQueueRequest Queue)
    (request : CreateQueueRequest) (record : IdempotencyRecord) : Prop where
  key : env.isValidIdempotencyKey record.key = true
  method : record.method = "queue.create"
  scope : record.scopeId = Uuid.nil
  canonical : FreshQueue env (newQueue request record.resourceId record.createdAt) ∧
    codec.encodeRequest request = .ok record.requestJson
  result : codec.encodeResult (newQueue request record.resourceId record.createdAt) = .ok record.resultJson

/-- What a keyed creation of a job stores: the payload is in its normal form. -/
structure JobReply (env : Environment)
    (codec : ReplayCodec (CreateJobRequest × Uuid) JobDefinition) (request : CreateJobRequest)
    (record : IdempotencyRecord) : Prop where
  key : env.isValidIdempotencyKey record.key = true
  method : record.method = "job.create"
  result : ∃ job : JobDefinition, FreshJob env job ∧ job.id = record.resourceId ∧
    job.queueId = record.scopeId ∧ job.name = request.name ∧ job.type = request.type ∧
    codec.encodeRequest ({ request with payload := job.payload }, record.scopeId) = .ok record.requestJson ∧
    codec.encodeResult job = .ok record.resultJson

/-- What a keyed Run Now stores. -/
structure RunReply (env : Environment) (codec : ReplayCodec RunNowRequest JobRun)
    (request : RunNowRequest) (record : IdempotencyRecord) : Prop where
  key : env.isValidIdempotencyKey record.key = true
  method : record.method = "job.run_now"
  scope : request.jobId = record.scopeId
  canonical : codec.encodeRequest request = .ok record.requestJson
  result : ∃ run : JobRun, run.id = record.resourceId ∧ run.jobId = record.scopeId ∧
    codec.encodeResult run = .ok record.resultJson

/-! ## Queues -/

theorem createFreshQueue_changes {request : CreateQueueRequest}
    (hy : Yields (createFreshQueue env amb request) db queue db') :
    Changes env caller now db db' ∧ (∃ row ∈ db'.queues, row.id = queue.id) ∧
      queue = newQueue request queue.id amb.utcNow := by
  simp only [createFreshQueue, yields_steps] at hy
  obtain ⟨id, _, ⟨-, rfl⟩, _, _, hfo, _, _, ⟨-, rfl⟩, _, _, hi, rfl, rfl⟩ := hy
  obtain rfl := yields_findByName hfo
  obtain ⟨hn, rfl⟩ := yields_insert hi
  refine ⟨.single (.queueInserted _ hn rfl rfl), ⟨stored (newQueue request id amb.utcNow), ?_, rfl⟩, rfl⟩
  exact (mem_insert (r := stored (newQueue request id amb.utcNow)) hn).2 (.inl rfl)

theorem createQueue_changes {codec : ReplayCodec CreateQueueRequest Queue} {request : CreateQueueRequest}
    (hre : ∀ record, QueueReply env codec request record → caller.replies record)
    (hy : Yields (createQueue env codec amb request) db queue db') : Changes env caller now db db' := by
  simp only [createQueue, yields_steps, validateConfiguration, validateIdempotencyKey] at hy
  obtain ⟨-, _, _, hi, _, _, ⟨hna, rfl⟩, _, _, ⟨_, _, ⟨hw, rfl⟩, _, _, ⟨hl, rfl⟩, _, _,
    ⟨-, rfl⟩, -, rfl⟩, _, _, ⟨-, rfl⟩, _, _, ⟨hk, rfl⟩, hy⟩ := hy
  obtain rfl := yields_initialized hi
  split at hy
  · exact (createFreshQueue_changes hy).1
  rename_i key hke
  rw [hke, all_some] at hk
  simp only [yields_steps] at hy
  obtain ⟨_, _, ⟨hca, rfl⟩, _, _, hfo, hy⟩ := hy
  obtain rfl := yields_findReply hfo
  split at hy
  · rw [yields_replayStored hy]
    exact .refl _
  simp only [yields_steps] at hy
  obtain ⟨queue, _, hc, _, db1, ⟨hres, rfl⟩, _, _, hr, rfl, rfl⟩ := hy
  obtain ⟨hch, ⟨row, hro, hid⟩, hn⟩ : Changes env caller now _ db1 ∧ _ :=
    createFreshQueue_changes hc
  obtain ⟨hfr, rfl⟩ := yields_insertReply.1 hr
  refine hch.then (.single (.replied _ hfr (hre _ ?_) (.queue rfl rfl row hro hid)) rfl)
  exact ⟨hk, rfl, rfl, ⟨⟨hna, ⟨hw, hl⟩, ⟨rfl, rfl, rfl⟩, rfl⟩, hca⟩, hn ▸ hres⟩

theorem updateQueue_changes {request : UpdateQueueRequest} (hy : Yields (updateQueue env amb request) db queue' db') :
    Changes env caller now db db' ∧ ∃ queue ∈ db.queues, queue.revision = request.expectedRevision ∧
      Yields (findQueue env request.queue false) db (some queue) db ∧
      queue' = replacedQueue queue request amb.utcNow := by
  simp only [updateQueue, yields_steps, yields_ite] at hy
  obtain ⟨-, _, _, hi, _, _, hv, _, _, hfo, queue, _, ⟨rfl, rfl⟩, _, _, ⟨hrev, rfl⟩, _, _,
    ⟨_, rfl⟩, _, _, hfr, _, _, hse, replaced, _, hr, hy⟩ := hy
  obtain rfl := yields_initialized hi
  obtain ⟨rfl, -⟩ := yields_validateQueueUpdate hv
  have hf' := hfo
  obtain ⟨rfl, hq, hl, -⟩ := yields_findQueue_some hfo
  obtain rfl := yields_requireNameFree hfr
  obtain ⟨timings, outputs, rfl⟩ := visitScope_measured hse
  rcases yields_replaceMutableFields hr with ⟨rfl, -, -, rfl⟩ | ⟨rfl, -⟩
  · obtain ⟨_, _, hre, rfl, rfl⟩ := hy
    have hl' : queue.state ≠ .deleted := hl.resolve_left Bool.false_ne_true
    refine ⟨.between ⟨timings, outputs, rfl⟩ (.single ?_) (visitScope_measured hre), queue, hq,
      hrev, hf', rfl⟩
    refine .queueWritten queue ?_ _ _ (.replaced (replacedQueue queue request amb.utcNow) rfl hl')
      hl'
    exact hq
  · obtain ⟨_, _, hd, -⟩ := hy
    exact absurd hd not_yields_diagnoseQueueUpdate

theorem advanceQueue_quiet (h : Yields (advanceQueue queue next time) db queue' db') : Quiet env caller now db db' := by
  simp only [advanceQueue, yields_steps] at h
  obtain ⟨_, _, ⟨-, rfl⟩, _, _, hse, _, _, ⟨rfl, rfl⟩, -, rfl⟩ := h
  exact setQueueState_quiet hse

variable {condition : Bool}

theorem advanceQueueIf_quiet (h : Yields (advanceQueueIf condition queue next time) db queue' db') :
    Quiet env caller now db db' := by
  unfold advanceQueueIf at h
  split at h
  · exact advanceQueue_quiet h
  · obtain ⟨-, rfl⟩ := (yields_pure _ _ _ _).1 h
    exact .refl _

theorem suspendQueue_changes
    (hy : Yields (suspendQueue env amb selector) db queue' db') : Changes env caller now db db' := by
  simp only [suspendQueue, yields_steps, yields_ite] at hy
  obtain ⟨-, _, _, hi, _, _, hsel, _, _, hfo, _, _, ⟨rfl, rfl⟩, _, _, ⟨-, rfl⟩, hy⟩ := hy
  obtain rfl := yields_initialized hi
  obtain rfl := yields_validateSelector hsel
  obtain rfl := yields_findQueue hfo
  split at hy
  · obtain ⟨-, rfl⟩ := hy
    exact .refl _
  obtain ⟨_, _, hse, _, _, hg, _, _, hc, _, _, hp, _, _, hr, -, rfl⟩ := hy
  obtain ⟨rfl, -⟩ := yields_countRunning hc
  exact .between (visitScope_measured hse)
    ((advanceQueueIf_quiet hg).trans (advanceQueueIf_quiet hp)).changes
    (visitScope_measured hr)

theorem resumeQueue_changes
    (hy : Yields (resumeQueue env amb selector) db queue' db') : Changes env caller now db db' := by
  simp only [resumeQueue, yields_steps, yields_ite] at hy
  obtain ⟨-, _, _, hi, _, _, hsel, _, _, hfo, _, _, ⟨rfl, rfl⟩, _, _, ⟨-, rfl⟩, hy⟩ := hy
  obtain rfl := yields_initialized hi
  obtain rfl := yields_validateSelector hsel
  obtain rfl := yields_findQueue hfo
  split at hy
  · obtain ⟨-, rfl⟩ := hy
    exact .refl _
  obtain ⟨_, _, hse, _, _, hr, _, _, hre, -, rfl⟩ := hy
  exact .between (visitScope_measured hse) (advanceQueue_quiet hr).changes
    (visitScope_measured hre)

/-- The rows of a queue go together: its references, jobs and waiting runs, and then itself. -/
theorem eraseQueue_changes {jobCount : Nat} (hq : queue ∈ db.queues) (hs : queue.state = .suspended)
    (hfo : ∀ run ∈ db.runs, run.queueId = queue.id → run.isLive = true →
      ∀ job ∈ db.jobs, job.id = run.jobId → inQueue queue.id job = true)
    (hy : Yields (eraseQueue amb queue jobCount) db u db') :
    Changes env caller amb.utcNow db db' := by
  simp only [eraseQueue, eraseReferencesForQueue, cancelPendingForQueue, cancelPending, yields_steps] at hy
  obtain ⟨_, _, rfl, _, _, hm, _, _, ⟨-, rfl⟩, _, _, ⟨_, _, ⟨-, rfl⟩, _, _, rfl, -, rfl⟩, _, _,
    hd, rfl, rfl⟩ := hy
  obtain rfl := yields_markAllInQueueDeleted hm
  obtain ⟨-, -, rfl⟩ := yields_markDeleted_true hd
  exact .single (.queueErased queue hq hs hfo _ _ _)

theorem deleteQueue_changes (h : Intact env db)
    (hy : Yields (deleteQueue env amb selector) db u db') : Changes env caller amb.utcNow db db' := by
  simp only [deleteQueue, yields_steps] at hy
  obtain ⟨-, _, _, hi, _, _, hsel, ⟨_, _⟩, _, hfo, _, _, hse, _, _, he, hr⟩ := hy
  obtain rfl := yields_initialized hi
  obtain rfl := yields_validateSelector hsel
  obtain ⟨rfl, hq, hs, -⟩ := yields_findDeletableQueue hfo
  obtain ⟨timings, outputs, rfl⟩ := visitScope_measured hse
  refine .between ⟨timings, outputs, rfl⟩ (eraseQueue_changes hq hs ?_ he)
    (visitScope_measured hr)
  intro _ hru hqu hl _ hj hid
  rw [← hqu]
  exact h.inQueue hru hl hj hid

/-! ## Jobs -/

theorem createFreshJob_changes {request : CreateJobRequest} {payload : Json}
    (hq : queue ∈ db.queues) (hl : queue.state ≠ .deleted)
    (hp : env.payloads.issue request.type payload = none)
    (hy : Yields (createFreshJob env amb request payload queue) db job db') :
    Changes env caller now db db' ∧ (∃ row ∈ db'.jobs, row.id = job.id) ∧ db'.queues = db.queues ∧
      ∃ schedule attributes, FreshJob env job ∧
        job = newJob request job.id queue schedule attributes payload amb.utcNow := by
  simp only [createFreshJob, yields_steps] at hy
  obtain ⟨jobId, _, ⟨-, rfl⟩, runId, _, ⟨-, rfl⟩, references, _, ⟨hnam, rfl⟩, _, _, he,
    ⟨schedule, plannedAt⟩, _, ⟨-, rfl⟩, attributes, _, ⟨-, rfl⟩, _, db0, ⟨hc, rfl⟩, _, _, hin,
    _, _, hr, _, _, hru, rfl, rfl⟩ := hy
  have hst := stored_of_require he
  obtain rfl := yields_requireExistingReferences he
  obtain ⟨hna, hn, rfl⟩ := yields_insert hin
  obtain rfl := yields_replaceReferences hr
  obtain ⟨-, ho, hi⟩ := yields_insertScheduleOwned.1 hru
  have hm := (mem_insert (r := stored (newJob request jobId queue schedule attributes payload amb.utcNow)) hn).2
    (.inl rfl)
  have hj : Quiet env caller now db0 _ := .single (.jobInserted _ references hn rfl rfl
    ⟨queue, hq, rfl, hl⟩ ⟨hnam, hst⟩) rfl
  refine ⟨hj.then (hi.changes (.runScheduled (stored _) hm JobState.noConfusion runId
    plannedAt hi.free (no_owned ho))), ?_⟩
  obtain rfl := hi.eq
  exact ⟨⟨_, hm, rfl⟩, rfl, schedule, attributes,
    ⟨hna, hp, AttributeRegistry.isComplete_iff.2 hc, ⟨rfl, rfl, rfl⟩, rfl⟩, rfl⟩

theorem createJob_changes {codec : ReplayCodec (CreateJobRequest × Uuid) JobDefinition} {request : CreateJobRequest}
    (hrep : ∀ record, JobReply env codec request record → caller.replies record)
    (hy : Yields (createJob env codec amb request) db job db') : Changes env caller now db db' := by
  simp only [createJob, yields_steps] at hy
  obtain ⟨-, _, _, hin, _, _, hv, _, _, hfo, queue, _, ⟨rfl, rfl⟩, _, _, ⟨_, rfl⟩, hy⟩ := hy
  obtain rfl := yields_initialized hin
  obtain ⟨rfl, his, hk⟩ := yields_validateJobCreation hv
  obtain ⟨rfl, hq, hl, -⟩ := yields_findQueue_some hfo
  have hl' : queue.state ≠ .deleted := hl.resolve_left Bool.false_ne_true
  split at hy
  · simp only [yields_steps] at hy
    obtain ⟨_, _, hc, _, _, hre, -, rfl⟩ := hy
    exact (createFreshJob_changes hq hl' his hc).1.then (visitScope_measured hre).quiet
  next _ hke =>
    rw [hke, all_some] at hk
    simp only [yields_steps] at hy
    obtain ⟨_, _, ⟨hca, rfl⟩, _, _, hr, hy⟩ := hy
    obtain rfl := yields_findReply hr
    split at hy
    · rw [yields_replayStored hy]
      exact .refl _
    simp only [yields_steps] at hy
    obtain ⟨job, _, hc, _, db1, ⟨hres, rfl⟩, _, _, hi, _, _, hre, -, rfl⟩ := hy
    obtain ⟨hch, ⟨row, hro, hid⟩, hqu, _, _, hfre, hn⟩ :
      Changes env caller now _ db1 ∧ _ := createFreshJob_changes hq hl' his hc
    obtain ⟨hfr, rfl⟩ := yields_insertReply.1 hi
    rw [← hqu] at hq
    refine (hch.then (.single (.replied _ hfr (hrep _ ⟨hk, rfl, job, hfre, rfl, ?_⟩) ?_)
      rfl)).then (visitScope_measured hre).quiet
    · rw [hn]
      exact ⟨rfl, rfl, rfl, hca, hn ▸ hres⟩
    · exact .job rfl queue hq rfl row hro hid

theorem insertManualRun_changes
    (hy : Yields (insertManualRun env amb jobId) db run db') : Changes env caller now db db' ∧
      run.jobId = jobId ∧ (∃ job ∈ db'.jobs, job.id = run.jobId) ∧ ∃ row ∈ db'.runs, row.id = run.id ∧
        row.jobId = run.jobId ∧ row.origin = .manual ∧ row.scheduleOwned = false := by
  simp only [insertManualRun, yields_steps] at hy
  obtain ⟨job, db0, had, _, _, hse, runId, _, ⟨-, rfl⟩, _, _, hin, rfl, rfl⟩ := hy
  obtain ⟨hid, hl⟩ : job.id = jobId ∧ job.state ≠ .deleted := by
    simp only [admitRunNow, yields_bind] at had
    obtain ⟨_, _, hj, hr⟩ := had
    simp only [yields_steps] at hr
    obtain ⟨_, _, -, _, _, -, _, _, -, _, _, -, _, _, -, _, _, -, _, _, -, _, _, -, _, _, -, _, _, -,
      _, _, -, _, _, -, rfl, -⟩ := hr
    exact (yields_findLiveJob hj).2.2
  obtain ⟨rfl, hj, -⟩ := yields_admitRunNow had
  obtain ⟨timings, outputs, rfl⟩ := visitScope_measured hse
  obtain ⟨-, -, hi⟩ := yields_insertManual hin
  have hc : Changes env caller now { db0 with timings, outputs } db' := by
    refine hi.changes (.runManual job ?_ hl _ hi.free rfl rfl ⟨rfl, rfl, rfl, rfl, rfl⟩)
    exact hj
  refine ⟨(Measured.quiet ⟨timings, outputs, rfl⟩).then hc, ?_⟩
  obtain rfl := hi.eq
  exact ⟨hid, ⟨job, hj, rfl⟩, stored (manualRun job runId amb.utcNow),
    (mem_insert (r := stored (manualRun job runId amb.utcNow)) hi.free).2 (.inl rfl), rfl, rfl, rfl, rfl⟩

theorem runNow_changes {codec : ReplayCodec RunNowRequest JobRun} {request : RunNowRequest}
    (hrep : ∀ record, RunReply env codec request record → caller.replies record)
    (hy : Yields (runNow env codec amb request) db run db') : Changes env caller now db db' := by
  simp only [runNow, yields_steps, validateIdempotencyKey] at hy
  obtain ⟨-, _, _, hin, _, _, ⟨hk, rfl⟩, hy⟩ := hy
  obtain rfl := yields_initialized hin
  split at hy
  · simp only [yields_steps] at hy
    obtain ⟨_, _, hi, _, _, hre, -, rfl⟩ := hy
    exact (insertManualRun_changes hi).1.then (visitScope_measured hre).quiet
  next _ hke =>
    rw [hke, all_some] at hk
    simp only [yields_steps] at hy
    obtain ⟨_, _, ⟨hca, rfl⟩, _, _, hr, hy⟩ := hy
    obtain rfl := yields_findReply hr
    split at hy
    · rw [yields_replayStored hy]
      exact .refl _
    simp only [yields_steps] at hy
    obtain ⟨run, _, hc, _, db1, ⟨hres, rfl⟩, _, _, hi, _, _, hre, -, rfl⟩ := hy
    obtain ⟨hch, hsc, ⟨job, hj, hji⟩, row, hro, hid, ho, hm⟩ :
      Changes env caller now _ db1 ∧ _ := insertManualRun_changes hc
    obtain ⟨hfr, rfl⟩ := yields_insertReply.1 hi
    refine (hch.then (.single (.replied _ hfr (hrep _ ?_) ?_) rfl)).then
      (visitScope_measured hre).quiet
    · exact ⟨hk, rfl, hsc.symm, hca, run, rfl, rfl, hres⟩
    · exact .run rfl job hj hji row hro hid ho hm

theorem advanceJob_quiet {next : JobState}
    (hn : next.isTerminal = false) (h : Yields (advanceJob job next time) db job' db') :
    Quiet env caller now db db' := by
  simp only [advanceJob, yields_steps] at h
  obtain ⟨_, _, ⟨-, rfl⟩, _, _, hse, _, _, ⟨rfl, rfl⟩, -, rfl⟩ := h
  exact setJobState_quiet (fun ht => by rw [hn] at ht; cases ht) hse

theorem advanceJobIf_quiet {next : JobState} (hn : next.isTerminal = false)
    (h : Yields (advanceJobIf condition job next time) db job' db') : Quiet env caller now db db' := by
  unfold advanceJobIf at h
  split at h
  · exact advanceJob_quiet hn h
  · obtain ⟨-, rfl⟩ := (yields_pure _ _ _ _).1 h
    exact .refl _

theorem suspendJob_changes (hy : Yields (suspendJob env amb id) db job' db') : Changes env caller now db db' := by
  simp only [suspendJob, yields_steps, yields_ite] at hy
  obtain ⟨-, _, _, hi, _, _, hfo, _, _, ⟨-, rfl⟩, hy⟩ := hy
  obtain rfl := yields_initialized hi
  obtain ⟨rfl, -⟩ := yields_findLiveJob hfo
  split at hy
  · obtain ⟨-, rfl⟩ := hy
    exact .refl _
  obtain ⟨_, _, hse, _, _, hg, _, _, hc, _, _, hp, _, _, hr, -, rfl⟩ := hy
  obtain ⟨rfl, -⟩ := yields_countRunning hc
  exact .between (visitScope_measured hse)
    ((advanceJobIf_quiet rfl hg).trans (advanceJobIf_quiet rfl hp)).changes
    (visitScope_measured hr)

theorem resumeJob_changes (hy : Yields (resumeJob env amb id) db job' db') : Changes env caller now db db' := by
  simp only [resumeJob, yields_steps, yields_ite] at hy
  obtain ⟨-, _, _, hi, _, _, hfo, _, _, ⟨-, rfl⟩, hy⟩ := hy
  obtain rfl := yields_initialized hi
  obtain ⟨rfl, -⟩ := yields_findLiveJob hfo
  split at hy
  · obtain ⟨-, rfl⟩ := hy
    exact .refl _
  obtain ⟨_, _, hse, _, _, hr, _, _, hre, -, rfl⟩ := hy
  exact .between (visitScope_measured hse) (advanceJob_quiet rfl hr).changes
    (visitScope_measured hre)

/-- What an update has read: the row at its expected revision, and the references of the new
payload. -/
structure UpdateRead (env : Environment) (amb : Ambient) (db : Database) (request : UpdateJobRequest)
    (schedule : Option JobSchedule) (update : JobUpdate) : Prop where
  job : update.job ∈ db.jobs ∧ update.job.id = request.jobId ∧ update.job.state ≠ .deleted
  revision : update.job.revision = request.expectedRevision
  replacement : ∃ payload, update.replacement = replacedJob env update.job request schedule payload amb.utcNow
  names : NamesSecrets env db update.replacement.type update.replacement.payload update.references

variable {request : UpdateJobRequest}

theorem resolveJobUpdate_reads {schedule : Option JobSchedule}
    {update : JobUpdate} (h : Yields (resolveJobUpdate env amb request schedule) db update db') :
    db' = db ∧ UpdateRead env amb db request schedule update := by
  simp only [resolveJobUpdate, Attempts.hasStartedForJob, validateJobPayload, yields_steps] at h
  obtain ⟨_, _, hj, _, _, ⟨hr, rfl⟩, _, _, ⟨-, rfl⟩, _, _, ⟨-, rfl⟩, _, _, ⟨-, rfl⟩, _, _,
    hre, _, _, ⟨-, rfl⟩, payload, _, ⟨-, rfl⟩, _, _, ⟨-, rfl⟩, _, _, ⟨hn, rfl⟩, _, _,
    he, _, _, ⟨-, rfl⟩, _, _, ⟨-, rfl⟩, rfl, rfl⟩ := h
  have hst := stored_of_require he
  obtain rfl := yields_requireExistingReferences he
  obtain ⟨rfl, -⟩ := yields_refreshesSnapshot hre
  obtain ⟨rfl, hj⟩ := yields_findLiveJob hj
  exact ⟨rfl, hj, hr, ⟨payload, rfl⟩, hn, hst⟩

theorem refreshSnapshot_changes {replacement : JobDefinition} (hj : job ∈ db.jobs) (he : caller.edits job.id)
    (hl : job.state ≠ .deleted) (hi : replacement.id = job.id)
    (hsn : ∀ planned, snapshotOf replacement planned = snapshotOf job planned)
    (h : Yields (refreshSnapshot env replacement time) db u db') : Changes env caller now db db' := by
  simp only [refreshSnapshot, yields_steps] at h
  obtain ⟨planned, _, ⟨-, rfl⟩, _, _, hr, -, rfl⟩ := h
  obtain ⟨-, -, rfl⟩ := yields_refreshUnstartedScheduleOwned hr
  have hsa := hsn planned
  unfold snapshotOf at hsa
  rw [hi, hsa]
  exact .single (.runRefreshed job hj he hl planned)

theorem updateJob_changes
    (he : caller.edits request.jobId) (hy : Yields (updateJob env amb request) db job' db') : Changes env caller now db db' ∧
      ∃ job ∈ db.jobs, job.id = request.jobId ∧ job.revision = request.expectedRevision := by
  simp only [updateJob, validateJobName, yields_steps, yields_ite] at hy
  obtain ⟨-, _, _, hin, _, _, ⟨-, rfl⟩, _, _, ⟨-, rfl⟩, _, _, ⟨-, rfl⟩, _, _, ⟨-, rfl⟩, update, db,
    hres, _, _, hse, _, _, hrep, hy⟩ := hy
  obtain rfl := yields_initialized hin
  obtain ⟨rfl, ⟨hj, hi, hl⟩, hrev, ⟨_, hr⟩, hn⟩ := resolveJobUpdate_reads hres
  refine ⟨?_, update.job, hj, hi, hrev⟩
  obtain ⟨timings, outputs, rfl⟩ := visitScope_measured hse
  have hi' : update.replacement.id = update.job.id := by rw [hr]; rfl
  rcases yields_updateDefinition hrep with ⟨rfl, -, -, heq⟩ | ⟨rfl, -⟩
  · rw [hi'] at heq
    subst heq
    obtain ⟨_, _, hrefs, hy⟩ := hy
    obtain rfl := yields_replaceReferences hrefs
    have hm : Measured db { db with timings, outputs } := ⟨timings, outputs, rfl⟩
    have hred : Quiet env caller now { db with timings, outputs } _ :=
      .single (.jobRedefined update.job update.replacement update.references hj
        (hi ▸ he) (by rw [hr]; rfl) (by rw [hr]; rfl) hl
        ⟨hn.named, hn.stored⟩) rfl
    split at hy
    · obtain ⟨_, _, href, _, _, hre, -, rfl⟩ := hy
      refine .between hm (hred.then ?_) (visitScope_measured hre)
      have hme := modify_mem hj (redefined update.replacement)
        (key_redefined update.replacement)
      refine refreshSnapshot_changes hme (hi ▸ he) hl hi' (fun planned => ?_) href
      rw [hr]
      rfl
    · obtain ⟨_, _, hre, -, rfl⟩ := hy
      exact .between hm hred.changes (visitScope_measured hre)
  · obtain ⟨_, _, hd, -⟩ := hy
    exact absurd hd not_yields_diagnoseJobWrite

theorem moveJob_changes {request : MoveJobRequest}
    (hy : Yields (moveJob env amb request) db job' db') : Changes env caller amb.utcNow db db' ∧
      ∃ job ∈ db.jobs, job.id = request.jobId ∧ job.revision = request.expectedRevision := by
  simp only [moveJob, yields_steps, yields_ite] at hy
  obtain ⟨-, _, _, hi, _, _, ⟨-, rfl⟩, _, _, hsel, ⟨job, target⟩, _, had, _, _, hse, _, _,
    hm, hy⟩ := hy
  obtain rfl := yields_initialized hi
  obtain rfl := yields_validateSelector hsel
  have hr : job.revision = request.expectedRevision := by
    simp only [admitMove, yields_steps, Prod.mk.injEq] at had
    obtain ⟨_, _, -, _, _, ⟨hr, -⟩, _, _, -, _, _, -, _, _, -, _, _, -, _, _, -, ⟨rfl, -⟩, -⟩ := had
    exact hr
  obtain ⟨rfl, hj, hid, hs, -, -, hta, hn, hts⟩ := yields_admitMove had
  refine ⟨?_, job, hj, hid, hr⟩
  obtain ⟨timings, outputs, rfl⟩ := visitScope_measured hse
  rcases yields_move hm with ⟨rfl, -, -, rfl⟩ | ⟨rfl, -⟩
  · simp only [moveNonTerminal, yields_steps] at hy
    obtain ⟨_, _, ⟨_, _, ⟨-, rfl⟩, _, _, rfl, -, rfl⟩, _, _, hre, -, rfl⟩ := hy
    refine .between ⟨timings, outputs, rfl⟩ (.single ?_) (visitScope_measured hre)
    refine .jobMoved job ?_ hs target ?_ ?_ hn.symm
    · exact hj
    · exact hta
    rcases hts with hts | hts
    · rw [hts]
      exact QueueState.noConfusion
    · rw [hts]
      exact QueueState.noConfusion
  · obtain ⟨_, _, hd, -⟩ := hy
    exact absurd hd not_yields_diagnoseJobWrite

theorem deleteJob_changes {request : DeleteJobRequest}
    (hy : Yields (deleteJob env amb request) db u db') : Changes env caller amb.utcNow db db' ∧
      ∃ job ∈ db.jobs, job.id = request.jobId ∧ job.revision = request.expectedRevision := by
  simp only [deleteJob, yields_steps, yields_ite] at hy
  obtain ⟨-, _, _, hin, _, _, ⟨-, rfl⟩, job, _, had, _, _, hse, deleted, _, hde, hy⟩ := hy
  obtain rfl := yields_initialized hin
  have hr : job.id = request.jobId ∧ job.state ≠ .deleted ∧ job.revision = request.expectedRevision := by
    simp only [admitJobDeletion, yields_steps] at had
    obtain ⟨_, _, hfo, _, _, ⟨hrev, -⟩, _, _, -, _, _, -, _, _, -, _, _, -, _, _, -, rfl, -⟩ := had
    obtain ⟨-, -, hid, hl⟩ := yields_findLiveJob hfo
    exact ⟨hid, hl, hrev⟩
  obtain ⟨rfl, hj, -, hi⟩ := yields_admitJobDeletion had
  refine ⟨?_, job, hj, hr.1, hr.2.2⟩
  obtain ⟨timings, outputs, rfl⟩ := visitScope_measured hse
  rcases yields_markDeleted hde with ⟨rfl, -, -, rfl⟩ | ⟨rfl, -⟩
  · simp only [cancelPendingForJob, cancelPending, yields_steps] at hy
    obtain ⟨_, _, ⟨_, _, ⟨-, rfl⟩, _, _, rfl, -, rfl⟩, _, _, href, hre⟩ := hy
    obtain rfl := yields_replaceReferences href
    refine .between ⟨timings, outputs, rfl⟩ (.single ?_) (visitScope_measured hre)
    refine .jobDeleted job ?_ hr.2.1 ?_ _
    · exact hj
    · exact hi
  · obtain ⟨_, _, hd, -⟩ := hy
    exact absurd hd not_yields_diagnoseJobWrite

end Management

end Jobu
