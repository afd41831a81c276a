import Jobu.Management.Queue

/-!
# Job management

The job operations of `management.cpp`: creation with the first run, Run Now, definition updates
that refresh an untouched run, suspension and resumption, moving a suspended job with its live runs,
and deletion.
-/

namespace Jobu

open Lib

namespace Management

/-! ## Errors -/

def invalidJobName : Error where
  category := .invalidArgument
  code := "jobu.job.invalid_name"
  message := "Job name must contain at most 256 valid UTF-8 bytes and no ASCII control characters"

def invalidJobConfiguration (reason : String) : Error where
  category := .invalidArgument
  code := "jobu.job.invalid_configuration"
  message := "Job configuration is invalid"
  detail := "reason=" ++ reason

def invalidJobPayload (issue : String) : Error where
  category := .invalidArgument
  code := "jobu.job.invalid_payload"
  message := "Job runner type or payload is structurally invalid"
  detail := "reason=" ++ issue

def jobNotFound : Error where
  category := .notFound
  code := "jobu.job.not_found"
  message := "Job was not found"

def jobDeleted : Error where
  category := .conflict
  code := "jobu.job.deleted"
  message := "Job is deleted"

def jobRevisionConflict : Error where
  category := .conflict
  code := "jobu.job.revision_conflict"
  message := "Job revision does not match the expected revision"

def jobStateConflict : Error where
  category := .conflict
  code := "jobu.job.state_conflict"
  message := "Job state changed incompatibly during the operation"

def jobNotSuspended : Error where
  category := .conflict
  code := "jobu.job.not_suspended"
  message := "Job must be fully suspended for this operation"

def jobHasRunningAttempt : Error where
  category := .conflict
  code := "jobu.job.has_running_attempt"
  message := "Job cannot be deleted while work is running"

def jobImmutable : Error where
  category := .conflict
  code := "jobu.job.immutable"
  message := "A one-time job cannot be changed after an attempt starts"

def scheduleRefreshConflict : Error where
  category := .conflict
  code := "jobu.run.schedule_conflict"
  message := "The pending schedule-owned run could not be refreshed"

def manualRunConflict : Error where
  category := .conflict
  code := "jobu.run.manual_conflict"
  message := "Run Now preconditions are not satisfied"

def invalidTimezone : Error where
  category := .invalidArgument
  code := "jobu.schedule.invalid_timezone"
  message := "Cron timezone must be nonempty"

/-! ## Requests -/

inductive JobCreationSchedule where
  | immediate
  | once (plannedAt : Int)
  | cron (expression : String) (timezone : Option String)

/-- A zone is named and its text is empty. -/
def JobCreationSchedule.hasEmptyTimezone : JobCreationSchedule → Bool
  | .cron _ (some timezone) => timezone = ""
  | _ => false

inductive JobScheduleInput where
  | once (plannedAt : Int)
  | cron (expression : String) (timezone : Option String)

structure CreateJobRequest where
  queue : QueueSelector
  name : Option String := none
  type : JobType := .cli
  schedule : JobCreationSchedule
  priority : Int := 0
  attributes : AttributeSet := {}
  payload : Json
  idempotencyKey : Option String := none

structure RunNowRequest where
  jobId : Uuid
  idempotencyKey : Option String := none

structure UpdateJobRequest where
  jobId : Uuid
  expectedRevision : Nat
  name : Option (Option String) := none
  schedule : Option JobScheduleInput := none
  priority : Option Int := none
  attributeChanges : AttributeSet := {}
  payload : Option Json := none

structure MoveJobRequest where
  jobId : Uuid
  expectedRevision : Nat
  targetQueue : QueueSelector

structure DeleteJobRequest where
  jobId : Uuid
  expectedRevision : Nat

/-! ## Shared steps -/

variable (env : Environment) (amb : Ambient)

def validateJobName (name : Option String) : Txn Unit :=
  require ((name.all fun name => env.isValidJobName name) = true) invalidJobName

def validateJobPayload (type : JobType) (payload : Json) : Txn Unit :=
  require (env.payloads.issue type payload = none)
    (invalidJobPayload ((env.payloads.issue type payload).getD "none"))

/-- `resolve_cron_schedule`. -/
def resolveCronSchedule (expression : String) (timezone : Option String) : Except Error JobSchedule := do
  let zone := timezone.getD env.defaultTimezone
  ensure (zone ≠ "") invalidTimezone
  pure (.cron expression zone)

/-- The instant a schedule is first due after now. -/
def firstPlanned (schedule : JobSchedule) (now : Int) : Except Error Int :=
  match schedule with
  | .once plannedAt => .ok plannedAt
  | .cron expression timezone => env.cron.nextAfter expression timezone now

def validateSchedule (schedule : JobSchedule) : Except Error Unit :=
  match schedule with
  | .once _ => .ok ()
  | .cron expression timezone => env.cron.validate expression timezone

/-- A job that is there and not deleted. -/
def findLiveJob (id : Uuid) : Txn JobDefinition := do
  let found ← Jobs.findById env id true
  let job ← demand found jobNotFound
  require (job.state ≠ .deleted) jobDeleted
  pure job

/-- A revision-checked state transition of a job read in this transaction. -/
def advanceJob (job : JobDefinition) (next : JobState) (now : Int) : Txn JobDefinition := do
  require (job.revision < maximumRevision) jobRevisionExhausted
  let transitioned ← Jobs.setState job.id job.state next job.revision (job.revision + 1) now
  require (transitioned = true) jobStateConflict
  pure { job with state := next, revision := job.revision + 1, updatedAt := now }

/-- A transition made under a condition. -/
def advanceJobIf (condition : Bool) (job : JobDefinition) (next : JobState) (now : Int) : Txn JobDefinition :=
  if condition then advanceJob job next now else pure job

/-- Why a guarded write of a job matched no row; `accepts` are the states the write accepts. -/
def diagnoseJobWrite (id : Uuid) (expectedRevision : Nat) (accepts : JobState → Bool) : Txn Unit := do
  let job ← findLiveJob env id
  require (job.revision = expectedRevision) jobRevisionConflict
  require (accepts job.state = true) jobNotSuspended
  fail jobStateConflict

/-! ## Creation -/

/-- The schedule of a new job and the instant of its first run. -/
def resolveCreation (schedule : JobCreationSchedule) (now : Int) : Except Error (JobSchedule × Int) :=
  match schedule with
  | .immediate => .ok (.once (storedTime now), storedTime now)
  | .once plannedAt => .ok (.once plannedAt, plannedAt)
  | .cron expression timezone => do
    let resolved ← resolveCronSchedule env expression timezone
    validateSchedule env resolved
    let next ← firstPlanned env resolved now
    pure (resolved, next)

/-- The definition a request asks for. -/
def newJob (request : CreateJobRequest) (id : Uuid) (queue : Queue) (schedule : JobSchedule)
    (attributes : AttributeSet) (payload : Json) (now : Int) : JobDefinition where
  id := id
  queueId := queue.id
  name := request.name
  type := request.type
  schedule := schedule
  priority := request.priority
  attributes := attributes
  payload := payload
  createdAt := now
  updatedAt := now

/-- The part of `create_job_impl` after replay has been ruled out: the definition, its secret
references and its first run. -/
def createFreshJob (request : CreateJobRequest) (payload : Json) (queue : Queue) : Txn JobDefinition := do
  let jobId ← query (amb.generate 0)
  let runId ← query (amb.generate 1)
  let references ← lift (env.payloads.references request.type payload)
  Secrets.requireExistingReferences env references
  let (schedule, plannedAt) ← lift (resolveCreation env request.schedule amb.utcNow)
  let attributes ← lift (env.registry.materialize request.type queue.defaults request.attributes)
  lift (env.registry.serializeMaterialized request.type attributes)
  let job := newJob request jobId queue schedule attributes payload amb.utcNow
  Jobs.insert env job
  Secrets.replaceReferencesForJob env job.id references
  Runs.insertScheduleOwned env (Lifecycle.scheduledRun job runId plannedAt)
    (Telemetry.measurement amb)
  pure job

/-- The checks `create_job_impl` makes on its request alone; the value is the normalised payload. -/
def validateJobCreation (request : CreateJobRequest) : Txn Json := do
  validateSelector env request.queue
  validateJobName env request.name
  let payload ← lift (env.payloads.normalizeSubmitted request.type request.payload)
  validateJobPayload env request.type payload
  lift (env.registry.validateJobValues request.type request.attributes)
  validateIdempotencyKey env request.idempotencyKey
  require (request.schedule.hasEmptyTimezone = false) invalidTimezone
  pure payload

/-- `create_job_impl`. -/
def createJob (codec : ReplayCodec (CreateJobRequest × Uuid) JobDefinition)
    (amb : Ambient) (request : CreateJobRequest) : Txn JobDefinition := transaction amb.fault do
  requireInitialized env
  let payload ← validateJobCreation env request
  let found ← findQueue env request.queue false
  let queue ← demand found queueNotFound
  require (queue.state = .active ∨ queue.state = .suspended) queueStateConflict
  match request.idempotencyKey with
  | none => do
    let job ← createFreshJob env amb request payload queue
    Telemetry.reconcileScope amb (.job job.id)
    pure job
  | some key => do
    let canonical ← lift (codec.encodeRequest ({ request with payload }, queue.id))
    let record ← Idempotency.find env "job.create" queue.id key
    match record with
    | some record =>
      replayStored codec record canonical Idempotency.conflict
        (fun job => job.id = record.resourceId && job.queueId = queue.id)
        (Idempotency.invalidRecord "job_resource_id_mismatch")
    | none => do
      let job ← createFreshJob env amb request payload queue
      let resultJson ← lift (codec.encodeResult job)
      Idempotency.insert
        { method := "job.create", scopeId := queue.id, key, requestJson := canonical, resultJson,
          resourceId := job.id, createdAt := amb.utcNow }
      Telemetry.reconcileScope amb (.job job.id)
      pure job

/-! ## Run Now -/

/-- The manual run of a definition. -/
def manualRun (job : JobDefinition) (id : Uuid) (now : Int) : JobRun where
  id := id
  jobId := job.id
  jobRevision := job.revision
  queueId := job.queueId
  origin := .manual
  scheduleOwned := false
  plannedAt := now
  runnableAt := now
  type := job.type
  priority := job.priority
  attributes := job.attributes
  payload := job.payload

/-- The admission checks of `run_now_impl`: the scheduled run waits, and nothing else is live. -/
def admitRunNow (jobId : Uuid) : Txn JobDefinition := do
  let job ← findLiveJob env jobId
  require (job.state.isTerminal = false) manualRunConflict
  let foundQueue ← Queues.findById env job.queueId true
  let queue ← demand foundQueue (crossTableInvariant "run_now_missing_queue")
  require (queue.state ≠ .deleted) manualRunConflict
  let foundScheduled ← Runs.findScheduleOwned env job.id
  let scheduled ← demand foundScheduled manualRunConflict
  require (scheduled.jobId = job.id ∧ scheduled.queueId = job.queueId ∧
    scheduled.origin = .scheduled ∧ scheduled.scheduleOwned = true)
    (crossTableInvariant "run_now_schedule_relationship")
  require (scheduled.state = .scheduled ∧ amb.utcNow < scheduled.plannedAt) manualRunConflict
  let busy ← Runs.hasRunningOrRetryingRun job.id
  require (busy = false) manualRunConflict
  let manual ← Runs.hasNonTerminalManualRun job.id
  require (manual = false) manualRunConflict
  pure job

/-- The part of `run_now_impl` after replay has been ruled out, up to the stored reply. -/
def insertManualRun (jobId : Uuid) : Txn JobRun := do
  let job ← admitRunNow env amb jobId
  Telemetry.settleScope amb (.job job.id)
  let runId ← query (amb.generate 0)
  let run := manualRun job runId amb.utcNow
  Runs.insertManual env run (Telemetry.measurement amb)
  pure run

/-- `run_now_impl`. -/
def runNow (codec : ReplayCodec RunNowRequest JobRun) (amb : Ambient)
    (request : RunNowRequest) : Txn JobRun := transaction amb.fault do
  requireInitialized env
  validateIdempotencyKey env request.idempotencyKey
  match request.idempotencyKey with
  | none => do
    let run ← insertManualRun env amb request.jobId
    Telemetry.reconcileScope amb (.job run.jobId)
    pure run
  | some key => do
    let canonical ← lift (codec.encodeRequest request)
    let record ← Idempotency.find env "job.run_now" request.jobId key
    match record with
    | some record =>
      replayStored codec record canonical
        (Idempotency.invalidRecord "run_now_request_scope_mismatch")
        (fun run => run.id = record.resourceId && run.jobId = request.jobId)
        (Idempotency.invalidRecord "run_now_resource_id_mismatch")
    | none => do
      let run ← insertManualRun env amb request.jobId
      let resultJson ← lift (codec.encodeResult run)
      Idempotency.insert
        { method := "job.run_now", scopeId := run.jobId, key, requestJson := canonical, resultJson,
          resourceId := run.id, createdAt := amb.utcNow }
      Telemetry.reconcileScope amb (.job run.jobId)
      pure run

/-! ## Definition updates -/

/-- The schedule an update asks for. -/
def resolveReplacement : Option JobScheduleInput → Except Error (Option JobSchedule)
  | none => .ok none
  | some (.once plannedAt) => .ok (some (.once plannedAt))
  | some (.cron expression timezone) => do
    let resolved ← resolveCronSchedule env expression timezone
    validateSchedule env resolved
    pure (some resolved)

/-- The update replaces the schedule by a one-time one. -/
def asksForOnce : Option JobScheduleInput → Bool
  | some (.once _) => true
  | _ => false

/-- Whether the schedule-owned run absorbs the update: an untouched one has to, and a claimed one
must stay as it is. -/
def refreshesSnapshot (job : JobDefinition) (request : UpdateJobRequest) : Txn Bool := do
  let found ← Runs.findScheduleOwned env job.id
  let scheduled ← demand found scheduleRefreshConflict
  if scheduled.state = .scheduled then do
    let hasAttempt ← Attempts.hasAnyForRun scheduled.id
    require (hasAttempt = false) scheduleRefreshConflict
    pure true
  else do
    require (job.schedule.isOnce = false ∧ asksForOnce request.schedule = false)
      scheduleRefreshConflict
    pure false

/-- The payload an update asks for, in its normal form. -/
def replacementPayload (job : JobDefinition) : Option Json → Except Error Json
  | none => .ok job.payload
  | some payload => env.payloads.normalizeSubmitted job.type payload

/-- The definition with the requested fields replaced, at its next revision. -/
def replacedJob (job : JobDefinition) (request : UpdateJobRequest)
    (schedule : Option JobSchedule) (payload : Json) (now : Int) : JobDefinition :=
  { job with
    revision := job.revision + 1
    name := request.name.getD job.name
    schedule := schedule.getD job.schedule
    priority := request.priority.getD job.priority
    attributes := env.registry.applyChanges job.type job.attributes request.attributeChanges
    payload
    updatedAt := now }

/-- Copies a definition into its untouched schedule-owned run. -/
def refreshSnapshot (job : JobDefinition) (now : Int) : Txn Unit := do
  let plannedAt ← lift (firstPlanned env job.schedule now)
  let refreshed ← Runs.refreshUnstartedScheduleOwned env job.id
    { jobRevision := job.revision
      queueId := job.queueId
      plannedAt
      runnableAt := plannedAt
      type := job.type
      priority := job.priority
      attributes := job.attributes
      payload := job.payload }
  require (refreshed = true) scheduleRefreshConflict

/-- What an update has resolved before its first write. -/
structure JobUpdate where
  job : JobDefinition
  replacement : JobDefinition
  references : List SecretReference
  refresh : Bool

/-- The checks of `update_job_impl` that read the database. -/
def resolveJobUpdate (request : UpdateJobRequest) (schedule : Option JobSchedule) : Txn JobUpdate := do
  let job ← findLiveJob env request.jobId
  require (job.revision = request.expectedRevision) jobRevisionConflict
  require (job.state = .active ∨ job.state = .suspended) jobStateConflict
  let started ← Attempts.hasStartedForJob job.id
  require (job.schedule.isOnce = true → started = false) jobImmutable
  let refresh ← refreshesSnapshot env job request
  lift (env.registry.validateJobValues job.type request.attributeChanges)
  let payload ← lift (replacementPayload env job request.payload)
  validateJobPayload env job.type payload
  let references ← lift (env.payloads.references job.type payload)
  Secrets.requireExistingReferences env references
  let replacement := replacedJob env job request schedule payload amb.utcNow
  lift (env.registry.serializeMaterialized job.type replacement.attributes)
  require (job.revision < maximumRevision) jobRevisionExhausted
  pure { job, replacement, references, refresh }

/-- `update_job_impl`. -/
def updateJob (request : UpdateJobRequest) : Txn JobDefinition := transaction amb.fault do
  requireInitialized env
  require (request.expectedRevision ≠ 0) (invalidJobConfiguration "expected_revision_not_positive")
  require (request.name.isSome ∨ request.schedule.isSome ∨ request.priority.isSome ∨
    request.attributeChanges.entries ≠ [] ∨ request.payload.isSome)
    (invalidJobConfiguration "empty_update")
  validateJobName env (request.name.getD none)
  let schedule ← lift (resolveReplacement env request.schedule)
  let update ← resolveJobUpdate env amb request schedule
  Telemetry.settleScope amb (.job update.job.id)
  let replaced ← Jobs.updateDefinition env update.replacement request.expectedRevision
  if replaced then pure ()
  else diagnoseJobWrite env update.job.id request.expectedRevision (fun _ => true)
  Secrets.replaceReferencesForJob env update.job.id update.references
  if update.refresh then refreshSnapshot env update.replacement amb.utcNow else pure ()
  Telemetry.reconcileScope amb (.job update.job.id)
  pure update.replacement

/-! ## Suspension, moves and deletion -/

/-- `suspend_job_impl`. -/
def suspendJob (id : Uuid) : Txn JobDefinition := transaction amb.fault do
  requireInitialized env
  let job ← findLiveJob env id
  require (job.state.isTerminal = false) jobStateConflict
  if job.state = .suspended then
    pure job
  else do
    Telemetry.settleScope amb (.job job.id)
    let job ← advanceJobIf (job.state = .active) job .suspending amb.utcNow
    let running ← Runs.countRunningForJob job.id
    let job ← advanceJobIf (running = 0) job .suspended amb.utcNow
    Telemetry.reconcileScope amb (.job job.id)
    pure job

/-- `resume_job_impl`. -/
def resumeJob (id : Uuid) : Txn JobDefinition := transaction amb.fault do
  requireInitialized env
  let job ← findLiveJob env id
  require (job.state.isTerminal = false) jobStateConflict
  if job.state = .active then
    pure job
  else do
    Telemetry.settleScope amb (.job job.id)
    let job ← advanceJob job .active amb.utcNow
    Telemetry.reconcileScope amb (.job job.id)
    pure job

/-- The checks of `move_job_impl`: neither the target's suspension nor a running run stops the
move. -/
def admitMove (request : MoveJobRequest) : Txn (JobDefinition × Queue) := do
  let job ← findLiveJob env request.jobId
  require (job.revision = request.expectedRevision) jobRevisionConflict
  require (job.state = .suspended) jobNotSuspended
  let found ← findQueue env request.targetQueue false
  let target ← demand found queueNotFound
  require (target.id ≠ job.queueId ∧ (target.state = .active ∨ target.state = .suspended))
    queueStateConflict
  require (job.revision < maximumRevision) jobRevisionExhausted
  pure (job, target)

/-- `move_job_impl`. -/
def moveJob (request : MoveJobRequest) : Txn JobDefinition :=
  transaction amb.fault do
    requireInitialized env
    require (request.expectedRevision ≠ 0)
      (invalidJobConfiguration "expected_revision_not_positive")
    validateSelector env request.targetQueue
    let (job, target) ← admitMove env request
    Telemetry.settleScope amb (.job job.id)
    let moved ← Jobs.move job.id job.revision target.id (job.revision + 1) amb.utcNow
    if moved then pure ()
    else diagnoseJobWrite env job.id request.expectedRevision (fun state => state = .suspended)
    let _ ← Runs.moveNonTerminal job.id target.id (job.revision + 1)
    Telemetry.reconcileScope amb (.job job.id)
    pure { job with
      queueId := target.id, revision := job.revision + 1, updatedAt := amb.utcNow }

/-- A finished job must have no work left. -/
def validateFinished (job : JobDefinition) : Txn Unit :=
  if job.state.isTerminal then Lifecycle.validateJobLifecycle job else pure ()

/-- The checks of `delete_job_impl`. -/
def admitJobDeletion (request : DeleteJobRequest) : Txn JobDefinition := do
  let job ← findLiveJob env request.jobId
  require (job.revision = request.expectedRevision) jobRevisionConflict
  require (job.state = .suspended ∨ job.state.isTerminal = true) jobNotSuspended
  validateFinished job
  let running ← Runs.countRunningForJob job.id
  require (running = 0) jobHasRunningAttempt
  require (job.revision < maximumRevision) jobRevisionExhausted
  pure job

/-- `delete_job_impl`. -/
def deleteJob (request : DeleteJobRequest) : Txn Unit :=
  transaction amb.fault do
    requireInitialized env
    require (request.expectedRevision ≠ 0)
      (invalidJobConfiguration "expected_revision_not_positive")
    let job ← admitJobDeletion env request
    Telemetry.settleScope amb (.job job.id)
    let deleted ← Jobs.markDeleted job.id job.revision (job.revision + 1) amb.utcNow
    if deleted then pure ()
    else
      diagnoseJobWrite env job.id request.expectedRevision
        (fun state => state = .suspended || state.isTerminal)
    let _ ← Runs.cancelPendingForJob job.id amb.utcNow "job_deleted"
    Secrets.replaceReferencesForJob env job.id []
    Telemetry.reconcileScope amb (.job job.id)

end Management

end Jobu
