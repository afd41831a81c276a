import Jobu.Scheduler.Repository

/-!
# The repairs of startup recovery

`recovery_repository_priv.cpp`.  Every read checks the whole relationship of a row: a run with its
owners, its siblings, its timing and its attempts (`findRun`).  The writes interrupt the attempt a
dead daemon left running and repair what it could not finish; each guards the exact shape it expects.
-/

namespace Jobu

open Lib

namespace Recovery

def invariant (reason : String) : Error where
  category := .internal
  code := "jobu.recovery.invariant"
  message := "Persisted recovery data violates a JobU invariant"
  detail := "reason=" ++ reason

def invalidLimit : Error where
  category := .invalidArgument
  code := "jobu.storage.invalid_limit"
  message := "Recovery scan limit must be in 1..4096"

/-- `lookup_error`: a row that does not decode. -/
def lookupError (_ : Error) : Error := invariant "durable_decode"

/-- `repair_result`: at startup a surprise conflict is corruption. -/
def repairError (e : Error) : Error :=
  if e.code = "jobu.run.schedule_conflict" then invariant "unexpected_successor_conflict"
  else if e.code = "jobu.storage.invariant" then invariant "repair_state"
  else e

/-- `validate_recovery_timestamp`: flooring to microseconds stays in the range of the clock. -/
def representable (t : Int) : Prop := minTime ≤ storedTime t ∧ t ≤ maxTime

instance (t : Int) : Decidable (representable t) := inferInstanceAs (Decidable (_ ∧ _))

def validateTimestamp (t : Int) : Txn Unit :=
  require (representable t) (invariant "timestamp_out_of_range")

/-- `interruption_result`: the outcome outside is unknown. -/
def interruptionResult : Json :=
  ⟨"\x7b\"reason\":\"daemon_interrupted\",\"outcome_unknown\":true\x7d"⟩

/-! ## Validation -/

variable (env : Environment) (db : Database)

/-- `validate_run_timing`. -/
def validateRunTiming (run : JobRun) : Except Error Unit := do
  let timing ← orError (db.timings.find? run.id) (invariant "missing_run_timing")
  ensure (∀ interval ∈ timing.openInterval, interval.epoch ≠ Uuid.nil ∧ 0 ≤ interval.tick)
    (invariant "invalid_open_timing")
  ensure (timing.status = .unmeasured →
      timing.runnableWait = 0 ∧ timing.openInterval = none ∧ timing.delayWarned = false)
    (invariant "invalid_unmeasured_timing")
  ensure (timing.openInterval.isSome = true → run.state.isPending = true)
    (invariant "open_timing_on_nonpending_run")

/-- The columns of `history`, over the attempts of a run in number order. -/
structure History where
  count : Nat
  latest : Nat
  running : Nat
  unfinished : Nat
  invalidPrior : Nat

def history (attempts : List JobAttempt) : History where
  count := attempts.length
  latest := (attempts.getLast?.map JobAttempt.attemptNumber).getD 0
  running := attempts.countP fun a => a.state = .running
  unfinished := attempts.countP fun a => a.state ≠ .completed
  invalidPrior := attempts.dropLast.countP fun a => !Telemetry.isRetryHistory a

/-- `validate_barriers`. -/
def validateBarriers (job : JobDefinition) : Except Error Unit :=
  ensure ((Scheduler.manualBarrierSummary db job.id).valid job.state job.schedule.isOnce = true)
    (invariant "manual_barrier_relationship")

/-- `validate_output`. -/
def validateOutput (key : AttemptKey) : Except Error Unit :=
  match db.outputs.find? key with
  | none => .ok ()
  | some _ => do
    let attempt ← (decodeFound decodeAttempt (db.attempts.find? key)).mapError lookupError
    ensure ((attempt.any fun a => a.state = .completed) = true)
      (invariant "output_without_completed_attempt")

/-- The outcome the last attempt of a finished run has, unless the run was cancelled later. -/
def expectedOutcome : RunState → AttemptOutcome
  | .succeeded => .succeeded
  | .failed => .failed
  | .interrupted => .interrupted
  | .cancelled | .scheduled | .running | .retryWait => .cancelled

def isRetryOutcome (outcome : Option AttemptOutcome) : Bool :=
  outcome = some .failed || outcome = some .interrupted

/-- The last attempt of a run agrees with the state of the run. -/
def validateLast (run : JobRun) (last : JobAttempt) : Except Error Unit :=
  if run.state = .running then
    ensure (last.state = .running ∧ last.dueAt = run.runnableAt) (invariant "running_attempt")
  else do
    ensure (last.state = .completed ∧ (run.state = .retryWait → isRetryOutcome last.outcome = true) ∧
      (run.state.isTerminal = true → last.outcome = some (expectedOutcome run.state) ∨
        (run.state = .cancelled ∧ isRetryOutcome last.outcome = true)))
      (invariant "latest_attempt_outcome")
    ensure (run.state.isTerminal = true → last.outcome = some (expectedOutcome run.state) →
      last.completedAt = run.completedAt ∧ last.dueAt = run.runnableAt)
      (invariant "terminal_attempt_timestamps")

/-- The attempts of a run agree with the run. -/
def validateHistory (run : JobRun) : Except Error Unit := do
  let summary := history (db.attemptsOf run.id)
  let expected := if run.state = .running then 1 else 0
  ensure (summary.count = summary.latest ∧ summary.running = expected ∧
    summary.unfinished = expected ∧ summary.invalidPrior = 0 ∧
    (run.state = .scheduled → summary.count = 0)) (invariant "attempt_history")
  if summary.count = 0 then
    ensure (run.state = .scheduled ∨ (run.state = .cancelled ∧ run.startedAt = none))
      (invariant "missing_attempt_history")
  else do
    let first ← (decodeFound decodeAttempt (db.attempts.find? ⟨run.id, 1⟩)).mapError lookupError
    let latest ← (decodeFound decodeAttempt
      (db.attempts.find? ⟨run.id, summary.latest⟩)).mapError lookupError
    let first ← orError first (invariant "first_attempt_start")
    let last ← orError latest (invariant "first_attempt_start")
    ensure (first.startedAt.isSome = true ∧ run.startedAt = first.startedAt)
      (invariant "first_attempt_start")
    validateLast run last
    validateOutput db ⟨run.id, summary.latest⟩

/-- The owners of a live run: a moved job's finished runs keep their former queue, a live one does
not, and a run in progress needs owners that let it run. -/
def validateLiveOwners (run : JobRun) (job : JobDefinition) (queue : Queue) : Except Error Unit := do
  ensure (run.queueId = job.queueId ∧ job.state ≠ .deleted ∧ queue.state ≠ .deleted ∧
    (run.state = .running → queue.state ≠ .suspended ∧ ¬ (run.scheduleOwned = true ∧ job.state = .suspended)))
    (invariant "nonterminal_ownership")
  validateBarriers db job

/-- `find_run`, on the database. -/
def checkRun (id : Uuid) : Except Error JobRun := do
  let found ← (decodeFound (decodeRun env) (db.runs.find? id)).mapError lookupError
  let run ← orError found (invariant "missing_run")
  validateRunTiming db run
  let job ← (decodeFound (decodeJob env) (db.jobs.find? run.jobId)).mapError lookupError
  let queue ← (decodeFound (decodeQueue env) (db.queues.find? run.queueId)).mapError lookupError
  let job ← orError job (invariant "run_ownership")
  let queue ← orError queue (invariant "run_ownership")
  ensure (run.origin ≠ .submitted ∧ (run.scheduleOwned = true ↔ run.origin = .scheduled))
    (invariant "run_ownership")
  if run.isLive then validateLiveOwners db run job queue else .ok ()
  validateHistory db run
  pure run

/-- `find_run`. -/
def findRun (id : Uuid) : Txn JobRun := query fun db => checkRun env db id

/-- `find_queue`. -/
def findQueue (id : Uuid) : Txn Queue := do
  let found ← rewording lookupError (Queues.findById env id true)
  demand found (invariant "missing_queue")

/-- `find_owned_job`. -/
def findOwnedJob (id : Uuid) : Txn JobDefinition := do
  let found ← rewording lookupError (Jobs.findById env id true)
  let job ← demand found (invariant "missing_job")
  let queue ← findQueue env job.queueId
  require (queue.state = .deleted → job.state = .deleted) (invariant "job_ownership")
  pure job

/-! ## Pages -/

def validLimit (limit : Nat) : Prop := 1 ≤ limit ∧ limit ≤ 4096

instance (limit : Nat) : Decidable (validLimit limit) := inferInstanceAs (Decidable (_ ∧ _))

/-- One page of a table, each row checked in its turn. -/
def listRows {T R K : Type} [Keyed T K] [LinearOrder K] (table : Database → Table T)
    (selected : T → Bool) (check : Database → T → Except Error R) (limit : Nat) (after : Option K) :
    Txn (List R) := do
  require (validLimit limit) invalidLimit
  query fun db => ((table db).page selected after limit).mapM (check db)

/-- `list_runs`; the selector is the optional state filter. -/
def listRuns (selected : JobRun → Bool) (limit : Nat) (after : Option Uuid) : Txn (List JobRun) :=
  listRows Database.runs selected (fun db run => checkRun env db run.id) limit after

/-- One row of `list_attempts`. -/
def checkAttempt (key : AttemptKey) : Except Error JobAttempt := do
  let attempt ← (decodeFound decodeAttempt (db.attempts.find? key)).mapError lookupError
  let run ← (decodeFound (decodeRun env) (db.runs.find? key.runId)).mapError lookupError
  let attempt ← orError attempt (invariant "attempt_relationship")
  let run ← orError run (invariant "attempt_relationship")
  ensure (attempt.state ≠ .pending ∧ attempt.startedAt.isSome = true ∧
    (attempt.state = .running → run.state = .running)) (invariant "attempt_relationship")
  validateOutput db key
  pure attempt

/-- `list_attempts`. -/
def listAttempts (limit : Nat) (after : Option AttemptKey) : Txn (List JobAttempt) :=
  listRows Database.attempts (fun _ => true) (fun db a => checkAttempt env db (Keyed.key a)) limit
    after

/-- One row of `list_outputs`. -/
def checkOutput (key : AttemptKey) : Except Error AttemptKey := do
  validateOutput db key
  pure key

/-- `list_outputs`. -/
def listOutputs (limit : Nat) (after : Option AttemptKey) : Txn (List AttemptKey) :=
  listRows Database.outputs (fun _ => true) (fun db o => checkOutput db (Keyed.key o)) limit after

/-- One row of `list_jobs`. -/
def checkJob (id : Uuid) : Except Error JobDefinition := do
  let found ← (decodeFound (decodeJob env) (db.jobs.find? id)).mapError lookupError
  let job ← orError found (invariant "missing_job")
  let queue ← (decodeFound (decodeQueue env) (db.queues.find? job.queueId)).mapError lookupError
  let queue ← orError queue (invariant "job_ownership")
  ensure (queue.state = .deleted → job.state = .deleted) (invariant "job_ownership")
  validateBarriers db job
  pure job

/-- `list_jobs`. -/
def listJobs (limit : Nat) (after : Option Uuid) : Txn (List JobDefinition) :=
  listRows Database.jobs (fun _ => true) (fun db job => checkJob env db job.id) limit after

/-- One row of `list_queues`. -/
def checkQueue (id : Uuid) : Except Error Queue := do
  let found ← (decodeFound (decodeQueue env) (db.queues.find? id)).mapError lookupError
  orError found (invariant "missing_queue")

/-- `list_queues`. -/
def listQueues (limit : Nat) (after : Option Uuid) : Txn (List Queue) :=
  listRows Database.queues (fun _ => true) (fun db queue => checkQueue env db queue.id) limit after

/-! ## Repairs -/

/-- The attempt of a running run that is still running, as both interruption steps re-read it. -/
def currentAttempt (key : AttemptKey) : Txn JobRun := do
  let run ← findRun env key.runId
  require (run.state = .running) (invariant "interruption_run_not_running")
  let attempt ← rewording lookupError (Attempts.find key)
  require ((attempt.any fun a => a.state = .running) = true)
    (invariant "interruption_attempt_not_current")
  pure run

/-- `find_retry_decision`: the policy of the queue decides before anything is written. -/
def findRetryDecision (key : AttemptKey) (recoveryTime : Int) : Txn (Option Retry.Schedule) := do
  let run ← currentAttempt env key
  let foundJob ← rewording lookupError (Jobs.findById env run.jobId true)
  let foundQueue ← rewording lookupError (Queues.findById env run.queueId true)
  let job ← demand foundJob (invariant "run_ownership")
  let queue ← demand foundQueue (invariant "run_ownership")
  let retry ← lift (Retry.recoveryDecision run.attributes
    { runId := run.id
      attemptNumber := key.attemptNumber
      policy := queue.recoveryPolicy
      jobState := job.state
      queueState := queue.state
      recoveryTime })
  validateTimestamp recoveryTime
  require (∀ schedule ∈ retry, representable schedule.dueAt) (invariant "timestamp_out_of_range")
  pure retry

/-- The output of an attempt whose capture was lost: empty, not silent. -/
def lostOutput (key : AttemptKey) : AttemptOutput where
  runId := key.runId
  attemptNumber := key.attemptNumber
  stdout := some []
  stderr := some []
  captureLost := true

/-- `interrupt_attempt`: an output that is already there would be evidence of corruption. -/
def interruptAttempt (key : AttemptKey) (recoveryTime : Int) : Txn Unit := do
  let _ ← currentAttempt env key
  Scheduler.completeAttempt key recoveryTime .interrupted interruptionResult
  insertRow outputTable (lostOutput key) uniqueViolation

/-- `interrupted_run_where`: the exact interruption this transaction has just written. -/
def isInterrupted (key : AttemptKey) (recoveryTime : Int) (run : JobRun) : Bool :=
  Scheduler.isUnfinished run &&
    ((db.attemptsOf run.id).getLast?.any fun last => last.attemptNumber = key.attemptNumber) &&
    ((db.attemptsOf run.id).all fun a => a.state = .completed) &&
    ((db.attempts.find? key).any fun a => a.state = .completed && a.outcome = some .interrupted &&
      a.completedAt = some (storedTime recoveryTime) && a.result = some interruptionResult &&
      a.dueAt = run.runnableAt) && db.outputs.find? key = some (lostOutput key)

/-- `set_run_interrupted`. -/
def setRunInterrupted (key : AttemptKey) (recoveryTime : Int) : Txn Unit := do
  let guard ← look fun db => isInterrupted db key recoveryTime
  let affected ← updateRow runTable key.runId guard
    (Scheduler.ended .interrupted recoveryTime interruptionResult)
    (Scheduler.key_ended .interrupted recoveryTime interruptionResult)
  require (affected = true) (invariant "interruption_run_affected_rows")

/-- The owners of an interrupted run still allow its retry. -/
def allowsRetry (run : JobRun) : Bool :=
  ((db.jobs.find? run.jobId).any fun job => job.queueId = run.queueId && job.state ≠ .deleted) &&
    (db.queues.find? run.queueId).any fun queue =>
      queue.state ≠ .deleted && queue.recoveryPolicy = .retryInterrupted

/-- `set_run_retry_wait`. -/
def setRunRetryWait (key : AttemptKey) (recoveryTime dueAt : Int) : Txn Unit := do
  require (recoveryTime ≤ dueAt) (invariant "retry_before_recovery")
  let guard ← look fun db run => isInterrupted db key recoveryTime run && allowsRetry db run
  let affected ← updateRow runTable key.runId guard (Scheduler.retrying dueAt)
    (Scheduler.key_retrying dueAt)
  require (affected = true) (invariant "recovery_retry_run_affected_rows")

/-- `insert_interrupted_successor`. -/
def insertInterruptedSuccessor (generate : Database → Except Error Uuid)
    (runId : Uuid) (lowerBound : Int) (measurement : Runs.InitialMeasurement) : Txn Bool := do
  validateTimestamp lowerBound
  let run ← findRun env runId
  require (run.state = .interrupted) (invariant "successor_requires_interrupted_run")
  if run.scheduleOwned = false then pure false
  else do
    let job ← findOwnedJob env run.jobId
    rewording repairError (Lifecycle.insertRecurringRun env generate job lowerBound measurement)

/-- `repair_missing_successor`. -/
def repairMissingSuccessor (generate : Database → Except Error Uuid)
    (jobId : Uuid) (lowerBound : Int) (measurement : Runs.InitialMeasurement) : Txn Bool := do
  validateTimestamp lowerBound
  let job ← findOwnedJob env jobId
  if job.state = .deleted ∨ job.schedule.isOnce = true then pure false
  else do
    let existing ← rewording lookupError (Runs.findScheduleOwned env jobId)
    match existing with
    | some run => do
      let _ ← findRun env run.id
      pure false
    | none => do
      query fun db => validateBarriers db job
      rewording repairError (Lifecycle.insertRecurringRun env generate job lowerBound measurement)

/-- `complete_drained_job_suspension`. -/
def completeDrainedJobSuspension (jobId : Uuid) (updatedAt : Int) : Txn Bool := do
  validateTimestamp updatedAt
  let job ← findOwnedJob env jobId
  rewording repairError (Scheduler.completeDrainedJobSuspension env job.queueId jobId updatedAt)

/-- `complete_drained_queue_suspension`. -/
def completeDrainedQueueSuspension (queueId : Uuid) (updatedAt : Int) : Txn Bool := do
  validateTimestamp updatedAt
  let _ ← findQueue env queueId
  rewording repairError (Scheduler.completeDrainedQueueSuspension env queueId updatedAt)

end Recovery

end Jobu
