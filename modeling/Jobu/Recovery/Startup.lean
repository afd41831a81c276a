import Jobu.Recovery.Repository

/-!
# Startup recovery

`recovery.cpp`.  Recovery validates everything, closes abandoned timing, interrupts every run a dead
daemon left running, repairs jobs and queues, and validates again.  Each repair is one committed
unit, so a recovery that is stopped or fails leaves the units before it behind.

The clock, the stop request and the storage are read again and again while recovery runs; the n-th
reading is the n-th element of a stream, and the state counts the readings.
-/

namespace Jobu

open Lib

namespace Recovery

/-- `RecoveryReport`. -/
structure Report where
  interruptedAttempts : Nat := 0
  retryingRuns : Nat := 0
  terminalRuns : Nat := 0
  finishedJobs : Nat := 0
  insertedSuccessors : Nat := 0
  suspendedJobs : Nat := 0
  suspendedQueues : Nat := 0
  repairedTimingRows : Nat := 0
deriving DecidableEq, Repr

/-- The sum of two reports, counter by counter. -/
def Report.add (a b : Report) : Report where
  interruptedAttempts := a.interruptedAttempts + b.interruptedAttempts
  retryingRuns := a.retryingRuns + b.retryingRuns
  terminalRuns := a.terminalRuns + b.terminalRuns
  finishedJobs := a.finishedJobs + b.finishedJobs
  insertedSuccessors := a.insertedSuccessors + b.insertedSuccessors
  suspendedJobs := a.suspendedJobs + b.suspendedJobs
  suspendedQueues := a.suspendedQueues + b.suspendedQueues
  repairedTimingRows := a.repairedTimingRows + b.repairedTimingRows

/-- The counters of a report. -/
def Report.counters (report : Report) : List Nat :=
  [report.interruptedAttempts, report.retryingRuns, report.terminalRuns, report.finishedJobs,
    report.insertedSuccessors, report.suspendedJobs, report.suspendedQueues, report.repairedTimingRows]

structure State where
  db : Database
  report : Report := {}
  polls : Nat := 0

/-- What recovery reads from outside, by the number of the reading. -/
structure Inputs where
  recoveryTime : Int
  batchSize : Nat
  measurement : Runs.InitialMeasurement
  now : Nat → Int
  shouldStop : Nat → Bool
  commitFault : Nat → Option Error
  generate : Nat → Database → Except Error Uuid
  generate_ne_nil : ∀ n db id, generate n db = .ok id → id ≠ Uuid.nil

abbrev Startup := Proc State Error

/-- Reads the database. -/
def onDatabase {α : Type} (x : Txn α) : Startup α :=
  zoom State.db (fun state db => { state with db }) x

def cancelled : Error where
  category := .cancelled
  code := "jobu.recovery.cancelled"
  message := "Startup recovery was cancelled"

def startupInvariant (reason : String) : Error where
  category := .internal
  code := "jobu.recovery.invariant"
  message := "Startup recovery could not establish valid durable state"
  detail := "reason=" ++ reason

variable (env : Environment) (inputs : Inputs)

/-- `check_stop`. -/
def checkStop : Startup Unit := do
  let n ← look State.polls
  write fun state => { state with polls := state.polls + 1 }
  require (inputs.shouldStop n = false) cancelled

/-- `max(_recovery_time, _time.utc_now())`. -/
def lowerBound : Startup Int := do
  let n ← look State.polls
  pure (max inputs.recoveryTime (inputs.now n))

/-- `accumulate`. -/
def accumulate (report delta : Report) : Except Error Report := do
  ensure (∀ counter ∈ (report.add delta).counters, counter < 2 ^ 64)
    (startupInvariant "report_counter_overflow")
  pure (report.add delta)

/-- `commit_unit`: the report changes with the commit it describes. -/
def commitUnit (repair : Txn Report) : Startup Unit := do
  checkStop inputs
  let n ← look State.polls
  transaction (inputs.commitFault n) do
    let delta ← onDatabase repair
    let report ← look State.report
    let next ← lift (accumulate report delta)
    checkStop inputs
    write fun state => { state with report := next }

/-- `visit_pages`; a page always starts after the last key of the one before, so the fuel lasts. -/
def visit {R K : Type} (inputs : Inputs) (rows : Database → Nat) (read : Option K → Txn (List R))
    (keyOf : R → K) (each : R → Startup PUnit) : Startup Unit := do
  let fuel ← look fun state => rows state.db + 1
  visitPages
    (fun after => do
      checkStop inputs
      onDatabase (read after))
    keyOf each (startupInvariant "page_limit") fuel none
  checkStop inputs

/-! ## Validation -/

/-- A run that may be there: none is running at the end. -/
def checkFinalRun (final : Bool) (run : JobRun) : Startup PUnit :=
  require (final = true → run.state ≠ .running) (startupInvariant "running_run_after_recovery")

def checkFinalAttempt (final : Bool) (attempt : JobAttempt) : Startup PUnit :=
  require (final = true → attempt.state ≠ .running)
    (startupInvariant "running_attempt_after_recovery")

def checkFinalQueue (final : Bool) (queue : Queue) : Startup PUnit :=
  require (final = true → queue.state ≠ .suspending) (startupInvariant "queue_still_suspending")

/-- The job part of `validate`: at the end every recurring job has its work. -/
def checkFinalJob (final : Bool) (job : JobDefinition) : Startup PUnit := do
  onDatabase (Lifecycle.validateJobLifecycle job)
  if final then do
    require (job.state ≠ .suspending) (startupInvariant "job_still_suspending")
    if job.state ≠ .deleted ∧ job.schedule.isOnce = false then do
      let work ← onDatabase (Runs.findScheduleOwned env job.id)
      require (work.isSome = true) (startupInvariant "missing_recurring_work")
    else pure ⟨⟩
  else pure ⟨⟩

/-- No interval is open at the end. -/
def checkClosed (final : Bool) : Startup Unit :=
  if final then do
    let rows ← onDatabase (Telemetry.listOpen 1 none)
    require (rows = []) (startupInvariant "open_timing_after_recovery")
  else pure ()

/-- `validate`. -/
def validate (final : Bool) : Startup Unit := do
  checkClosed final
  visit inputs (fun db => db.runs.rows.length) (listRuns env (fun _ => true) inputs.batchSize)
    JobRun.id (checkFinalRun final)
  visit inputs (fun db => db.attempts.rows.length) (listAttempts env inputs.batchSize)
    Keyed.key (checkFinalAttempt final)
  visit inputs (fun db => db.outputs.rows.length) (listOutputs inputs.batchSize)
    (fun key => key) (fun _ => pure ⟨⟩)
  visit inputs (fun db => db.jobs.rows.length) (listJobs env inputs.batchSize)
    JobDefinition.id (checkFinalJob env final)
  visit inputs (fun db => db.queues.rows.length) (listQueues env inputs.batchSize)
    Queue.id (checkFinalQueue final)

/-! ## Repairs -/

/-- 1 if the repair happened. -/
def tally (done : Bool) : Nat := if done then 1 else 0

/-- The unit of `repair_timing`. -/
def repairTimingRow (timing : RunTiming) : Startup PUnit :=
  commitUnit inputs do
    let repaired ← Telemetry.repairAbandoned timing.runId
    pure { repairedTimingRows := tally repaired }

/-- `repair_timing`. -/
def repairTiming : Startup Unit :=
  visit inputs (fun db => db.timings.rows.length) (Telemetry.listOpen inputs.batchSize)
    RunTiming.runId (repairTimingRow inputs)

/-- An interrupted run that is not retried: its job may be finished, or due again. -/
def followInterruption (generate : Database → Except Error Uuid) (runId : Uuid) (lower : Int) : Txn Report := do
  let finished ← Lifecycle.finishAfterTerminalRun env runId inputs.recoveryTime
  let successor ← insertInterruptedSuccessor env generate runId lower inputs.measurement
  pure
    { interruptedAttempts := 1
      terminalRuns := 1
      finishedJobs := tally finished
      insertedSuccessors := tally successor }

/-- The run transition of `recover_run`. -/
def transitionInterrupted (generate : Database → Except Error Uuid) (key : AttemptKey) (lower : Int) :
    Option Retry.Schedule → Txn Report
  | some schedule => do
    setRunRetryWait key inputs.recoveryTime schedule.dueAt
    pure { interruptedAttempts := 1, retryingRuns := 1 }
  | none => do
    setRunInterrupted key inputs.recoveryTime
    followInterruption env inputs generate key.runId lower

/-- The unit of `recover_run`. -/
def interruptRun (generate : Database → Except Error Uuid) (run : JobRun) (lower : Int) : Txn Report := do
  let active ← Scheduler.findActiveAttempt run.id
  let number ← demand active (startupInvariant "missing_running_attempt")
  let retry ← findRetryDecision env ⟨run.id, number⟩ inputs.recoveryTime
  interruptAttempt env ⟨run.id, number⟩ inputs.recoveryTime
  let delta ← transitionInterrupted env inputs generate ⟨run.id, number⟩ lower retry
  let queue ← completeDrainedQueueSuspension env run.queueId inputs.recoveryTime
  let job ← completeDrainedJobSuspension env run.jobId inputs.recoveryTime
  pure { delta with suspendedQueues := tally queue, suspendedJobs := tally job }

/-- `recover_run`. -/
def recoverRun (run : JobRun) : Startup PUnit := do
  let lower ← lowerBound inputs
  let n ← look State.polls
  commitUnit inputs (interruptRun env inputs (inputs.generate n) run lower)

/-- The unit of `recover_job`. -/
def repairJob (generate : Database → Except Error Uuid) (job : JobDefinition) (lower : Int) : Txn Report := do
  let successor ← repairMissingSuccessor env generate job.id lower inputs.measurement
  let drained ← completeDrainedJobSuspension env job.id inputs.recoveryTime
  pure { insertedSuccessors := tally successor, suspendedJobs := tally drained }

/-- `recover_job`. -/
def recoverJob (job : JobDefinition) : Startup PUnit :=
  if job.state = .deleted ∨ (job.schedule.isOnce = true ∧ job.state ≠ .suspending) then pure ⟨⟩
  else do
    let lower ← lowerBound inputs
    let n ← look State.polls
    commitUnit inputs (repairJob env inputs (inputs.generate n) job lower)

/-- The queue part of `run`. -/
def recoverQueue (queue : Queue) : Startup PUnit :=
  if queue.state ≠ .suspending then pure ⟨⟩
  else commitUnit inputs do
    let drained ← completeDrainedQueueSuspension env queue.id inputs.recoveryTime
    pure { suspendedQueues := tally drained }

/-- `Recovery::run`. -/
def run : Startup Report := do
  validate env inputs false
  repairTiming inputs
  visit inputs (fun db => db.runs.rows.length)
    (listRuns env (fun run => run.state = .running) inputs.batchSize) JobRun.id
    (recoverRun env inputs)
  visit inputs (fun db => db.jobs.rows.length) (listJobs env inputs.batchSize) JobDefinition.id
    (recoverJob env inputs)
  visit inputs (fun db => db.queues.rows.length) (listQueues env inputs.batchSize) Queue.id
    (recoverQueue env inputs)
  validate env inputs true
  look State.report

def invalidOptions : Error where
  category := .invalidArgument
  code := "jobu.recovery.invalid_options"
  message := "Recovery scan batch size must be in 1..4096"

/-- `recover_startup`. -/
def recoverStartup : Startup Report := do
  require (validLimit inputs.batchSize) invalidOptions
  run env inputs

end Recovery

end Jobu
