import Jobu.Lib.Paging
import Jobu.Lifecycle

/-!
# Runnable-wait accounting

`wait_repository_priv.cpp`, `run_eligibility_priv.cpp` and the mutation boundary of
`execution_telemetry.cpp`.  While a run could start but does not, its timing row holds an open
interval.  Every transaction that can change eligibility settles its scope first and reopens it
last; a daemon without a telemetry owner only checks that nothing is open.
-/

namespace Jobu

open Lib

namespace Telemetry

def invalidState (reason : String) : Error where
  category := .internal
  code := "jobu.telemetry.invalid_state"
  message := "Runnable-wait accounting state is invalid"
  detail := "reason=" ++ reason

def clockRegression : Error where
  category := .internal
  code := "jobu.telemetry.clock_regression"
  message := "Runnable-wait monotonic time regressed"

def counterOverflow : Error where
  category := .internal
  code := "jobu.telemetry.counter_overflow"
  message := "Runnable-wait duration cannot be represented"

def maximumCounter : Nat := 2 ^ 63 - 1

/-! ## One timing row -/

/-- `decode_timing`, for a run in the given state. -/
def decodeTiming (state : RunState) (timing : RunTiming) : Except Error RunTiming := do
  ensure (∀ interval ∈ timing.openInterval, interval.epoch ≠ Uuid.nil ∧ 0 ≤ interval.tick ∧ state.isPending = true)
    (invalidState "invalid_open_interval")
  ensure (timing.status = .unmeasured →
      timing.runnableWait = 0 ∧ timing.openInterval = none ∧ timing.delayWarned = false)
    (invalidState "invalid_unmeasured_row")
  pure timing

/-- The checks of `decode_timing`. -/
structure TimingShape (state : RunState) (timing : RunTiming) : Prop where
  interval : ∀ interval ∈ timing.openInterval, interval.epoch ≠ Uuid.nil ∧ 0 ≤ interval.tick ∧ state.isPending = true
  unmeasured : timing.status = .unmeasured →
    timing.runnableWait = 0 ∧ timing.openInterval = none ∧ timing.delayWarned = false

@[simp] theorem decodeTiming_ok {state : RunState} {timing timing' : RunTiming} :
    decodeTiming state timing = .ok timing' ↔ timing' = timing ∧ TimingShape state timing := by
  simp only [decodeTiming, except_steps]
  constructor
  · rintro ⟨_, h₁, _, h₂, rfl⟩
    exact ⟨rfl, h₁, h₂⟩
  · rintro ⟨rfl, h₁, h₂⟩
    exact ⟨(), h₁, (), h₂, rfl⟩

/-- A closed row fits every state. -/
theorem TimingShape.of_closed {state state' : RunState} {timing : RunTiming}
    (h : TimingShape state timing) (hc : timing.openInterval = none) :
    TimingShape state' timing :=
  ⟨fun interval hi => (by rw [hc] at hi; cases hi), h.unmeasured⟩

variable (amb : Ambient) (db : Database) (runId : Uuid) (sample : TimingSample)

/-- `WaitRepository::read`. -/
def read : Txn RunTiming :=
  query fun db =>
    match db.runs.find? runId, db.timings.find? runId with
    | some run, some timing => decodeTiming run.state timing
    | _, _ => .error (invalidState "missing_timing_row")

/-- `WaitRepository::write`: only the accounting columns. -/
def store (timing : RunTiming) : Txn Unit := do
  let updated ← updateRow timingTable timing.runId (fun _ => true)
    (fun row =>
      { row with
        runnableWait := timing.runnableWait
        status := timing.status
        openInterval := timing.openInterval })
    (fun _ => rfl)
  require (updated = true) (invalidState "timing_update_count")

/-- `validate_sample`. -/
def validateSample (timing : RunTiming) (sample : TimingSample) : Except Error Unit := do
  ensure (sample.epoch ≠ Uuid.nil) (invalidState "nil_sample_epoch")
  ensure (0 ≤ sample.tick) clockRegression
  ensure (∀ interval ∈ timing.openInterval, interval.epoch = sample.epoch)
    (invalidState "foreign_open_epoch")
  ensure (∀ interval ∈ timing.openInterval, interval.tick ≤ sample.tick) clockRegression

/-- The run's state, which `read` joins to its timing. -/
def runState : Txn RunState := do
  let run ← look fun db => db.runs.find? runId
  let run ← demand run (invalidState "missing_timing_row")
  pure run.state

/-- `open_interval`. -/
def openInterval (runId : Uuid) (sample : TimingSample) : Txn RunTiming := do
  let timing ← read runId
  lift (validateSample timing sample)
  let state ← runState runId
  require (state.isPending = true) (invalidState "opening_nonpending_run")
  if timing.openInterval.isSome then
    pure timing
  else do
    let opened : RunTiming :=
      { timing with
        status := if timing.status = .unmeasured then .partly else timing.status
        openInterval := some sample }
    store opened
    pure opened

/-- `accumulate`: `settle` closes the interval, `rebase` restarts it at the sample. -/
def accumulate (close : Bool) : Txn RunTiming := do
  let timing ← read runId
  lift (validateSample timing sample)
  match timing.openInterval with
  | none => pure timing
  | some interval => do
    let delta := (sample.tick - interval.tick).toNat
    require (timing.runnableWait + delta ≤ maximumCounter) counterOverflow
    let settled : RunTiming :=
      { timing with
        runnableWait := timing.runnableWait + delta
        openInterval := if close then none else some { interval with tick := sample.tick } }
    store settled
    pure settled

def settle : Txn RunTiming := accumulate runId sample true

def rebase : Txn RunTiming := accumulate runId sample false

/-- `repair_abandoned`; the value says whether an interval was closed. -/
def repairAbandoned : Txn Bool := do
  let timing ← read runId
  if timing.openInterval.isNone then
    pure false
  else do
    store { timing with status := .partly, openInterval := none }
    pure true

/-- `claim_warning`: the known wait is flagged once it exceeds the threshold.  The value says
whether this call set the flag. -/
def claimWarning (threshold : Int) : Txn Bool := do
  let timing ← read runId
  lift (validateSample timing sample)
  let delta := (timing.openInterval.elim 0 fun interval => sample.tick - interval.tick).toNat
  require (timing.runnableWait + delta ≤ maximumCounter) counterOverflow
  let state ← runState runId
  require (state.isPending = true ∧ timing.status ≠ .unmeasured ∧ 0 ≤ threshold)
    (invalidState "invalid_warning_context")
  if timing.delayWarned ∨ threshold = 0 ∨ (maximumCounter / 1000 : Int) < threshold ∨
      (timing.runnableWait + delta : Int) ≤ threshold * 1000 then
    pure false
  else
    updateRow timingTable runId (fun row => !row.delayWarned)
      (fun row => { row with delayWarned := true }) (fun _ => rfl)

/-! ## Eligibility -/

/-- `eligible_owners`. -/
def eligibleOwners (origin : RunOrigin) (scheduleOwned : Bool) (job : JobState) (queue : QueueState)
    (manualBarrier : Bool) : Bool :=
  if queue ≠ .active then false
  else match origin with
    | .manual => !scheduleOwned && (job = .active || job = .suspending || job = .suspended)
    | .scheduled => scheduleOwned && job = .active && !manualBarrier
    | .submitted => false

inductive Scope where
  | all
  | job (id : Uuid)
  | queue (id : Uuid)

def Scope.contains : Scope → JobRun → Bool
  | .all, _ => true
  | .job id, run => run.jobId = id
  | .queue id, run => run.queueId = id

/-- A run whose accounting a scope visits: pending, or with an interval left open. -/
def isAccounted (scope : Scope) (run : JobRun) : Bool :=
  (run.state.isPending || (db.timings.find? run.id).any fun timing => timing.openInterval.isSome) && scope.contains run

/-- A run with the owners and siblings its eligibility depends on. -/
structure RunEligibility where
  run : JobRun
  job : JobDefinition
  queue : Queue
  siblings : Lifecycle.NonterminalRunCounts

def invalidRelationship : Error where
  category := .internal
  code := "jobu.telemetry.invalid_state"
  message := "Persisted eligibility relationship is invalid"

/-- The live runs of a job that count as scheduled and as manual. -/
def siblingCounts (jobId : Uuid) : Lifecycle.NonterminalRunCounts where
  scheduled := db.runs.count fun run =>
    run.jobId = jobId && run.origin = .scheduled && run.scheduleOwned && run.isLive
  manual := db.runs.count fun run =>
    run.jobId = jobId && run.origin = .manual && !run.scheduleOwned && run.isLive

/-- A completed attempt that a retry may follow. -/
def isRetryHistory (attempt : JobAttempt) : Bool :=
  attempt.state = .completed && (attempt.outcome = some .failed || attempt.outcome = some .interrupted)

/-- The relationships a pending row has to satisfy. -/
def validPending (run : JobRun) (job : JobDefinition) (queue : Queue)
    (counts : Lifecycle.NonterminalRunCounts) : Bool :=
  let attempts := db.attemptsOf run.id
  let live := db.runs.count fun other => other.jobId = run.jobId && other.isLive
  !(run.state = .scheduled && !attempts.isEmpty) && !(run.state = .retryWait &&
    (attempts.isEmpty || attempts.length ≠ attempts.countP isRetryHistory)) &&
  run.queueId = job.queueId && job.state ≠ .deleted && queue.state ≠ .deleted &&
  counts.scheduled ≤ 1 && counts.manual ≤ 1 && live = counts.scheduled + counts.manual &&
  Lifecycle.validRelationship job.state job.schedule.isOnce counts &&
  !(run.origin = .scheduled && (!run.scheduleOwned || counts.scheduled ≠ 1)) &&
  !(run.origin = .manual && (run.scheduleOwned || counts.manual ≠ 1))

/-- `decode`, for one joined row. -/
def decodeEligibility (run : JobRun) : Except Error RunEligibility := do
  let job ← orError (db.jobs.find? run.jobId) invalidRelationship
  let queue ← orError (db.queues.find? run.queueId) invalidRelationship
  let counts := siblingCounts db run.jobId
  ensure (0 ≤ queue.runnableWaitWarning) invalidRelationship
  ensure (run.state.isPending = true → validPending db run job queue counts = true)
    invalidRelationship
  pure { run, job, queue, siblings := counts }

/-- `RunEligibility::eligible`. -/
def RunEligibility.eligible (row : RunEligibility) (now : Int) (available : JobType → Bool) : Bool :=
  row.run.state.isPending && row.run.runnableAt ≤ now && available row.run.type &&
    eligibleOwners row.run.origin row.run.scheduleOwned row.job.state row.queue.state
      (row.siblings.manual ≠ 0)

/-- The rows of one page of `list_eligibility` and `list_timing_scope`. -/
def scopePage (scope : Scope) (after : Option Uuid) : List JobRun :=
  db.runs.page (isAccounted db scope) after 200

/-- `list_eligibility`. -/
def listEligibility (scope : Scope) (after : Option Uuid) : Txn (List RunEligibility) :=
  query fun db => (scopePage db scope after).mapM (decodeEligibility db)

/-! ## The boundary of a transaction -/

def exhausted : Error := invalidState "page_limit"

/-- A run of the scope when no telemetry owner measures: nothing may be open. -/
def requireClosed : Txn Unit := do
  let timing ← read runId
  require (timing.openInterval.isNone = true) (invalidState "open_interval_without_owner")

/-- Opens or settles the accounting of one row. -/
def accountRow (reopen : Bool) (row : RunEligibility) : Txn Unit := do
  if reopen && row.eligible amb.utcNow amb.available then
    let _ ← openInterval row.run.id sample
  else
    let _ ← settle row.run.id sample

/-- `visit_scope`.  A page starts after the last key of the one before it, so the scan ends
before the fuel does. -/
def visitScope (scope : Scope) (reopen : Bool) : Txn Unit := do
  let fuel ← look fun db => db.runs.rows.length + 1
  match amb.sample with
  | none =>
    visitPages (fun after => look fun db => scopePage db scope after) JobRun.id
      (fun run => requireClosed run.id) exhausted fuel none
  | some sample =>
    visitPages (listEligibility scope) (fun row => row.run.id)
      (accountRow amb sample reopen) exhausted fuel none

/-- `settle_scope`. -/
def settleScope (scope : Scope) : Txn Unit := visitScope amb scope false

/-- `reconcile_scope`. -/
def reconcileScope (scope : Scope) : Txn Unit := visitScope amb scope true

/-- `MutationTiming::measurement`. -/
def measurement : Runs.InitialMeasurement :=
  if amb.sample.isSome then .complete else .unmeasured

/-- `validate_closed_run`. -/
def validateClosedRun : Txn Unit := requireClosed runId

/-- `claim_run`: the run leaves its queue, so its interval ends here. -/
def claimRun (run : JobRun) (threshold : Int) : Txn Bool :=
  match amb.sample with
  | none => do
    validateClosedRun run.id
    pure false
  | some sample => do
    let _ ← openInterval run.id sample
    let _ ← settle run.id sample
    claimWarning run.id sample threshold

/-- One row of `observe_page`. -/
def observeRow (row : RunEligibility) : Txn Unit := do
  if row.eligible amb.utcNow amb.available then do
    let _ ← openInterval row.run.id sample
    let _ ← claimWarning row.run.id sample row.queue.runnableWaitWarning
    pure ()
  else do
    let _ ← settle row.run.id sample
    pure ()

/-- `observe_page`: one page of all runs; the value is the position after it. -/
def observePage (after : Option Uuid) : Txn (Option Uuid) :=
  match amb.sample with
  | none => pure none
  | some sample => do
    let rows ← listEligibility .all after
    forM rows (observeRow amb sample)
    pure (rows.getLast?.map fun row => row.run.id)

/-- `list_open`. -/
def listOpen (limit : Nat) (after : Option Uuid) : Txn (List RunTiming) := do
  require (1 ≤ limit ∧ limit ≤ 4096) (invalidState "invalid_page_limit")
  let page ← look fun db =>
    db.timings.page (fun timing => timing.openInterval.isSome) after limit
  require ((page.all fun timing => timing.runId ≠ Uuid.nil) = true) (invalidState "invalid_page_key")
  pure page

/-- `accounting_page`: a checkpoint rebases one page of open intervals, a stop settles it. -/
def accountingPage (batchSize : Nat) (after : Option Uuid) (close : Bool) : Txn (Option Uuid) := do
  let page ← listOpen batchSize after
  forM page fun timing => do
    let _ ← accumulate timing.runId sample close
    pure ()
  pure ((page.getLast?.map RunTiming.runId).or after)

end Telemetry

end Jobu
