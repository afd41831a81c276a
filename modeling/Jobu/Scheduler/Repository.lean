import Mathlib.Data.List.Sort
import Jobu.Telemetry

/-!
# The scheduler's view of the database

`scheduler_repository_priv.cpp`.  A run is read together with its owners' states and the counts of
its attempts, and every use of such a row first checks that they agree.  A running run occupies a
slot of its type and of its queue; a waiting retry keeps its queue slot only under a blocking
policy and only while its owners would let it run.
-/

namespace Jobu

open Lib Table

namespace Scheduler

variable {db db' : Database} {row : SchedulerRun} {env : Environment} {runId queueId : Uuid}
  {completedAt updatedAt : Int} {result : Json} {u : Unit}

def invariant (reason : String) : Error :=
  storageInvariant "Persisted scheduler data violates a JobU invariant" reason

/-- `invariant` with the error that caused it. -/
def invariantCausedBy (reason : String) (cause : Error) : Error :=
  { invariant reason with
    detail := "reason=" ++ reason ++ " cause=" ++ cause.code ++
      (if cause.detail = "" then "" else " " ++ cause.detail) }

def attemptNumberExhausted : Error where
  category := .resourceExhausted
  code := "jobu.attempt.number_exhausted"
  message := "The run cannot allocate another attempt number"

def jobRevisionExhausted : Error where
  category := .resourceExhausted
  code := "jobu.job.revision_exhausted"
  message := "Job revision cannot be incremented"

def queueRevisionExhausted : Error where
  category := .resourceExhausted
  code := "jobu.queue.revision_exhausted"
  message := "Queue revision cannot be incremented"

def invalidLimit : Error where
  category := .invalidArgument
  code := "jobu.storage.invalid_limit"
  message := "Repository limit is outside its supported range"

/-- `kMaximumSchedulerPageRows`. -/
def maximumPageRows : Nat := 1000

/-! ## Joined rows -/

/-- The aggregate columns over the attempts of a run. -/
structure AttemptCounts where
  active : Nat
  running : Nat
  completed : Nat
  retryHistory : Nat
  total : Nat

def attemptCounts (attempts : List JobAttempt) : AttemptCounts where
  active := attempts.countP fun a => a.state = .pending || a.state = .running
  running := attempts.countP fun a => a.state = .running
  completed := attempts.countP fun a => a.state = .completed
  retryHistory := attempts.countP Telemetry.isRetryHistory
  total := attempts.length

/-- A run with its owners' states and its attempt counts. -/
structure SchedulerRun where
  run : JobRun
  jobQueueId : Uuid
  jobState : JobState
  jobIsOnce : Bool
  queueState : QueueState
  attempts : AttemptCounts

/-- `scheduler_run_columns`. -/
def joinedRow (db : Database) (run : JobRun) (job : JobDefinition) (queue : Queue) : SchedulerRun where
  run := run
  jobQueueId := job.queueId
  jobState := job.state
  jobIsOnce := job.schedule.isOnce
  queueState := queue.state
  attempts := attemptCounts (db.attemptsOf run.id)

/-- `scheduler_run_joins`: a run without owners has no row. -/
def joined (db : Database) (run : JobRun) : Option SchedulerRun :=
  match db.jobs.find? run.jobId, db.queues.find? run.queueId with
  | some job, some queue => some (joinedRow db run job queue)
  | _, _ => none

/-- A joined row has both owners. -/
structure Joined (db : Database) (row : SchedulerRun) (job : JobDefinition) (queue : Queue) : Prop where
  columns : row = joinedRow db row.run job queue
  ofJob : job ∈ db.jobs ∧ job.id = row.run.jobId
  ofQueue : queue ∈ db.queues ∧ queue.id = row.run.queueId

theorem joined_eq_some {run : JobRun} :
    joined db run = some row ↔ row.run = run ∧ ∃ job queue, Joined db row job queue := by
  unfold joined
  constructor
  · intro h
    split at h
    next job queue hj hq =>
      cases h
      exact ⟨rfl, job, queue, rfl, find?_eq_some.1 hj, find?_eq_some.1 hq⟩
    · cases h
  · rintro ⟨rfl, _, _, hr, hj, hq⟩
    rw [find?_eq_some.2 hj, find?_eq_some.2 hq]
    exact congrArg some hr.symm

/-- `decode_scheduler_run`. -/
def decodeSchedulerRun (env : Environment) (allowDeletedOwners : Bool) (row : SchedulerRun) :
    Except Error SchedulerRun := do
  let _ ← (decodeRun env row.run).mapError (invariantCausedBy "invalid_run")
  ensure (row.run.queueId = row.jobQueueId) (invariant "run_job_queue_mismatch")
  ensure (allowDeletedOwners = true ∨ (row.jobState ≠ .deleted ∧ row.queueState ≠ .deleted))
    (invariant "non_terminal_owner_deleted")
  ensure (row.attempts.active + row.attempts.completed = row.attempts.total ∧
    row.attempts.running ≤ row.attempts.active) (invariant "attempt_count_mismatch")
  pure row

theorem decodeSchedulerRun_ok {allow : Bool} {row' : SchedulerRun} :
    decodeSchedulerRun env allow row = .ok row' ↔ row' = row ∧ RunShape env row.run ∧
      row.run.queueId = row.jobQueueId ∧ (allow = true ∨ (row.jobState ≠ .deleted ∧ row.queueState ≠ .deleted)) ∧
      row.attempts.active + row.attempts.completed = row.attempts.total ∧
      row.attempts.running ≤ row.attempts.active := by
  simp only [decodeSchedulerRun, except_steps, decodeRun_ok]
  constructor
  · rintro ⟨_, ⟨rfl, hsh⟩, _, hq, _, hl, _, ⟨hsu, hle⟩, rfl⟩
    exact ⟨rfl, hsh, hq, hl, hsu, hle⟩
  · rintro ⟨rfl, hsh, hq, hl, hsu, hle⟩
    exact ⟨_, ⟨rfl, hsh⟩, (), hq, (), hl, (), ⟨hsu, hle⟩, rfl⟩

/-- The live siblings of a run, and whether the counted ones are all of them. -/
structure ManualBarrierSummary where
  counts : Lifecycle.NonterminalRunCounts
  live : Nat

def manualBarrierSummary (db : Database) (jobId : Uuid) : ManualBarrierSummary where
  counts := Telemetry.siblingCounts db jobId
  live := db.runs.count fun run => run.jobId = jobId && run.isLive

/-- The sibling counts agree with each other and with the job's state. -/
def ManualBarrierSummary.valid (summary : ManualBarrierSummary) (state : JobState) (once : Bool) : Bool :=
  summary.live = summary.counts.manual + summary.counts.scheduled &&
    Lifecycle.validRelationship state once summary.counts

/-! ## Capacity -/

structure CapacityUsage where
  cliRunning : Nat := 0
  httpRunning : Nat := 0
  queueSlots : Nat := 0
deriving DecidableEq

/-- A waiting retry keeps its queue slot: its policy blocks and nothing suspends it. -/
def keepsSlot (row : SchedulerRun) (policy : RetryPolicy) : Bool :=
  policy.mode = .blocking && (row.jobState = .active || row.run.origin = .manual) && row.queueState = .active

/-- `capacity_usage`. -/
def capacityUsage (row : SchedulerRun) : Except Error CapacityUsage :=
  if row.run.state = .running then do
    ensure (row.attempts.active = 1 ∧ row.attempts.running = 1 ∧
      row.attempts.completed + 1 = row.attempts.total) (invariant "running_attempt_relationship")
    pure
      { cliRunning := if row.run.type = .cli then 1 else 0
        httpRunning := if row.run.type = .cli then 0 else 1
        queueSlots := 1 }
  else do
    ensure (row.run.state = .retryWait ∧ row.attempts.active = 0 ∧ row.attempts.completed ≠ 0 ∧
      row.attempts.completed = row.attempts.total ∧
      row.attempts.retryHistory = row.attempts.completed) (invariant "retry_attempt_relationship")
    let policy ← (Retry.policyFromAttributes row.run.attributes).mapError
      (invariantCausedBy "invalid_retry_policy")
    pure { queueSlots := if keepsSlot row policy then 1 else 0 }

/-- The runs that may occupy capacity, in key order. -/
def occupants (db : Database) (selected : JobRun → Bool) : List SchedulerRun :=
  (db.runs.select fun run =>
    (run.state = .running || run.state = .retryWait) && selected run).filterMap (joined db)

/-- The row loop of `queue_has_dispatch_capacity`; its pages only bound the statement. -/
def withinLimit (env : Environment) (queue : Queue) (alreadyOccupies : Bool) :
    Nat → List SchedulerRun → Except Error Bool
  | _, [] => .ok true
  | occupied, row :: rest => do
    let row ← decodeSchedulerRun env false row
    ensure (row.run.queueId = queue.id) (invariant "capacity_queue_mismatch")
    let usage ← capacityUsage row
    if alreadyOccupies = false ∧ queue.concurrencyLimit ≤ occupied + usage.queueSlots then
      pure false
    else
      withinLimit env queue alreadyOccupies (occupied + usage.queueSlots) rest

/-- A blocking retry that waits in its slot needs no other one. -/
def alreadyOccupies (candidate : SchedulerRun) : Except Error Bool :=
  if candidate.run.state = .retryWait then do
    let usage ← capacityUsage candidate
    pure (usage.queueSlots = 1)
  else .ok false

/-- `queue_has_dispatch_capacity`. -/
def queueHasDispatchCapacity (env : Environment) (candidate : SchedulerRun) (queue : Queue) : Txn Bool :=
  query fun db => do
    let already ← alreadyOccupies candidate
    withinLimit env queue already 0 (occupants db fun run => run.queueId = queue.id)

/-- The check of the queue's capacity has passed. -/
def HasRoom (env : Environment) (db : Database) (candidate : SchedulerRun) (queue : Queue) : Prop :=
  ∃ already, alreadyOccupies candidate = .ok already ∧
    withinLimit env queue already 0 (occupants db fun run => run.queueId = queue.id) = .ok true

theorem yields_queueHasDispatchCapacity_true {candidate : SchedulerRun} {queue : Queue} :
    Yields (queueHasDispatchCapacity env candidate queue) db true db' ↔ HasRoom env db candidate queue ∧ db' = db := by
  simp only [queueHasDispatchCapacity, yields_query, except_bind_eq_ok, HasRoom]

/-- `next_attempt_number`; the attempts of a run are in number order, so the last is the maximum. -/
def nextAttemptNumber (runId : Uuid) : Txn Nat :=
  query fun db =>
    match (db.attemptsOf runId).getLast? with
    | none => .ok 1
    | some last => do
      ensure (0 < last.attemptNumber) (invariant "invalid_attempt_maximum")
      ensure (last.attemptNumber ≠ maximumAttemptNumber) attemptNumberExhausted
      pure (last.attemptNumber + 1)

theorem yields_nextAttemptNumber {number : Nat} (h : Yields (nextAttemptNumber runId) db number db') : db' = db ∧
      number = (((db.attemptsOf runId).getLast?).elim 0 JobAttempt.attemptNumber) + 1 := by
  obtain ⟨h, rfl⟩ := (yields_query _ _ _ _).1 h
  refine ⟨rfl, ?_⟩
  split at h
  next hl =>
    rw [hl]
    exact (Except.ok.inj h).symm
  next _ hl =>
    simp only [except_steps] at h
    obtain ⟨_, -, _, -, rfl⟩ := h
    rw [hl]
    rfl

/-! ## The reads of a cycle

A cycle reads its queues, barriers and capacity page by page, and nothing is written between two
pages, so each of them is one read here. -/

/-- The columns of an active queue that a cycle keeps. -/
structure QueueRuntime where
  id : Uuid
  weight : Nat
  concurrencyLimit : Nat

/-- `list_runtime_queues`, all pages. -/
def runtimeQueues : Txn (List QueueRuntime) :=
  look fun db => (db.queues.select fun queue => queue.state = .active).map fun queue =>
    { id := queue.id, weight := queue.weight, concurrencyLimit := queue.concurrencyLimit }

/-- A waiting retry that keeps its slot, with the keys that order it. -/
structure BlockingRetryCandidate where
  runId : Uuid
  queueId : Uuid
  type : JobType
  priority : Int
  runnableAt : Int
  plannedAt : Int

structure CapacityRow where
  runId : Uuid
  queueId : Uuid
  usage : CapacityUsage
  blockingRetry : Option BlockingRetryCandidate

/-- One row of `list_capacity_rows`. -/
def capacityRow (env : Environment) (row : SchedulerRun) : Except Error CapacityRow := do
  let row ← decodeSchedulerRun env false row
  let usage ← capacityUsage row
  pure
    { runId := row.run.id
      queueId := row.run.queueId
      usage
      blockingRetry :=
        if row.run.state = .retryWait ∧ usage.queueSlots = 1 then
          some
            { runId := row.run.id
              queueId := row.run.queueId
              type := row.run.type
              priority := row.run.priority
              runnableAt := row.run.runnableAt
              plannedAt := row.run.plannedAt }
        else none }

/-- `list_capacity_rows`, all pages. -/
def capacityRows (env : Environment) : Txn (List CapacityRow) :=
  query fun db => (occupants db fun _ => true).mapM (capacityRow env)

/-- One row of `list_manual_barriers`. -/
def validateManualBarrier (env : Environment) (db : Database) (row : SchedulerRun) : Except Error Unit := do
  let row ← decodeSchedulerRun env false row
  let summary := manualBarrierSummary db row.run.jobId
  ensure (row.run.scheduleOwned = false ∧ summary.counts.manual = 1 ∧
    summary.valid row.jobState row.jobIsOnce = true) (invariant "manual_barrier_relationship")

/-- `validate_manual_barriers`: every live manual run, due or not. -/
def validateManualBarriers (env : Environment) : Txn Unit :=
  query fun db =>
    ((db.runs.select JobRun.isLiveManual).filterMap (joined db)).forM (validateManualBarrier env db)

/-- `runnable_owner_predicate`. -/
def runnableOwners (db : Database) (row : SchedulerRun) : Bool :=
  row.queueState = .active && ((row.run.origin = .scheduled && row.jobState = .active) || (row.run.origin = .manual &&
      (row.jobState = .active || row.jobState = .suspending || row.jobState = .suspended))) &&
    (!row.run.scheduleOwned || (Telemetry.siblingCounts db row.run.jobId).manual = 0)

/-- The origin of a candidate agrees with its ownership and the state of its job. -/
def validateCandidateOrigin (row : SchedulerRun) : Except Error Unit :=
  match row.run.origin with
  | .scheduled =>
    ensure (row.run.scheduleOwned = true ∧ row.jobState = .active)
      (invariant "scheduled_candidate_relationship")
  | .manual =>
    ensure (row.run.scheduleOwned = false ∧
      (row.jobState = .active ∨ row.jobState = .suspending ∨ row.jobState = .suspended))
      (invariant "manual_candidate_relationship")
  | .submitted => .error (invariant "unsupported_candidate_origin")

/-- `validate_candidate`. -/
def validateCandidate (row : SchedulerRun) (type : JobType) (now : Int) (future : Bool)
    (queueId : Option Uuid) : Except Error Unit := do
  ensure (∀ id ∈ queueId, row.run.queueId = id) (invariant "candidate_queue_mismatch")
  ensure (row.run.type = type ∧ row.queueState = .active) (invariant "candidate_filter_mismatch")
  ensure (decide (now < row.run.runnableAt) = future) (invariant "candidate_time_mismatch")
  validateCandidateOrigin row
  ensure (row.attempts.active = 0 ∧ row.attempts.running = 0) (invariant "candidate_active_attempt")
  ensure (row.run.state.isPending = true) (invariant "candidate_state")
  ensure (row.run.state = .scheduled → row.attempts.total = 0)
    (invariant "scheduled_candidate_has_attempt")
  ensure (row.run.state = .retryWait → row.attempts.completed ≠ 0 ∧
    row.attempts.completed = row.attempts.total ∧ row.attempts.retryHistory = row.attempts.completed)
    (invariant "retry_candidate_attempt_history")

/-- `ORDER BY priority DESC, runnable_at ASC, planned_at ASC, id ASC`. -/
def precedes (a b : JobRun) : Bool :=
  if a.priority ≠ b.priority then b.priority < a.priority
  else if a.runnableAt ≠ b.runnableAt then a.runnableAt < b.runnableAt
  else if a.plannedAt ≠ b.plannedAt then a.plannedAt < b.plannedAt
  else a.id ≤ b.id

/-- `list_runnable`. -/
def listRunnable (env : Environment) (queueId : Uuid) (type : JobType) (now : Int) (limit : Nat) :
    Txn (List JobRun) := do
  require (limit ≠ 0 ∧ limit ≤ maximumPageRows) invalidLimit
  query fun db =>
    ((((db.runs.select fun run => run.state.isPending && run.type = type && run.runnableAt ≤ now &&
      run.queueId = queueId).filterMap (joined db)).filter (runnableOwners db)).insertionSort
      (fun a b => precedes a.run b.run = true)).take limit |>.mapM fun row => do
        let row ← decodeSchedulerRun env false row
        validateCandidate row type now false (some queueId)
        pure row.run

/-! ## Dispatch -/

structure DispatchContext where
  run : JobRun
  jobState : JobState
  queue : Queue
  nextAttempt : Nat

/-- The sibling counts a candidate of its origin has to have; the value says whether a manual
sibling holds a scheduled one back. -/
def validateSiblings (row : SchedulerRun) (counts : Lifecycle.NonterminalRunCounts) : Except Error Bool :=
  match row.run.origin with
  | .manual => do
    ensure (row.run.scheduleOwned = false ∧ counts.manual = 1)
      (invariant "manual_barrier_relationship")
    pure false
  | .scheduled => do
    ensure (row.run.scheduleOwned = true ∧ counts.scheduled = 1 ∧ counts.manual ≤ 1)
      (invariant "scheduled_candidate_relationship")
    pure (counts.manual = 1)
  | .submitted => .error (invariant "unsupported_candidate_origin")

/-- The row a dispatch starts from: pending, and joined to its owners. -/
def pendingRow (db : Database) (runId : Uuid) : Option SchedulerRun :=
  ((db.runs.find? runId).filter fun run => run.state.isPending).bind (joined db)

/-- The reads of `find_dispatch_context` before the capacity of the queue: a row that is eligible
now. -/
def findEligibleRow (env : Environment) (runId : Uuid) (now : Int) : Txn (Option SchedulerRun) :=
  query fun db =>
    match pendingRow db runId with
    | none => .ok none
    | some row => do
      let row ← decodeSchedulerRun env false row
      let summary := manualBarrierSummary db row.run.jobId
      ensure (summary.valid row.jobState row.jobIsOnce = true)
        (invariant "manual_barrier_relationship")
      let heldBack ← validateSiblings row summary.counts
      if heldBack then pure none
      else if now < row.run.runnableAt ∨ Telemetry.eligibleOwners row.run.origin
        row.run.scheduleOwned row.jobState row.queueState (summary.counts.manual ≠ 0) = false then
        pure none
      else do
        validateCandidate row row.run.type now false (some row.run.queueId)
        pure (some row)

theorem pendingRow_eq_some : pendingRow db runId = some row ↔ row.run ∈ db.runs ∧ row.run.id = runId ∧
    row.run.state.isPending = true ∧ ∃ job queue, Joined db row job queue := by
  simp only [pendingRow, Option.bind_eq_some_iff, Option.filter_eq_some_iff, find?_eq_some, joined_eq_some]
  constructor
  · rintro ⟨_, ⟨⟨hr, hi⟩, hp⟩, rfl, hj⟩
    exact ⟨hr, hi, hp, hj⟩
  · rintro ⟨hr, hi, hp, hj⟩
    exact ⟨row.run, ⟨⟨hr, hi⟩, hp⟩, rfl, hj⟩

/-- A run that may be dispatched, as the transaction itself reads it. -/
structure Eligible (db : Database) (runId : Uuid) (now : Int) (row : SchedulerRun)
    (job : JobDefinition) (queue : Queue) : Prop where
  joined : Joined db row job queue
  mem : row.run ∈ db.runs ∧ row.run.id = runId
  pending : row.run.state.isPending = true
  due : row.run.runnableAt ≤ now
  follows : row.run.queueId = job.queueId
  owners : Telemetry.eligibleOwners row.run.origin row.run.scheduleOwned job.state queue.state
    ((Telemetry.siblingCounts db row.run.jobId).manual ≠ 0) = true

variable {now : Int}

theorem yields_findEligibleRow (h : Yields (findEligibleRow env runId now) db (some row) db') :
    db' = db ∧ ∃ job queue, Eligible db runId now row job queue := by
  obtain ⟨h, rfl⟩ := (yields_query _ _ _ _).1 h
  refine ⟨rfl, ?_⟩
  split at h
  · cases h
  rename_i row' hro
  obtain ⟨hr, hi, hp, job, queue, hj⟩ := pendingRow_eq_some.1 hro
  simp only [except_steps, decodeSchedulerRun_ok] at h
  obtain ⟨_, ⟨rfl, -, hfo, -⟩, _, -, _, -, h⟩ := h
  split at h
  · cases h
  split at h
  · cases h
  rename_i hop
  simp only [except_steps, Option.some.injEq] at h
  obtain ⟨_, -, rfl⟩ := h
  rw [not_or, not_lt, Bool.not_eq_false] at hop
  have hc := hj.columns
  refine ⟨job, queue, hj, ⟨hr, hi⟩, hp, hop.1, ?_, ?_⟩
  · rw [hc] at hfo
    exact hfo
  · have ho := hop.2
    rw [hc] at ho
    exact ho

/-- The reads of `find_dispatch_context` on an eligible row: its queue, the capacity left and the
number of the next attempt. -/
def dispatchContextOf (env : Environment) (row : SchedulerRun) : Txn (Option DispatchContext) := do
  let found ← Queues.findById env row.run.queueId true
  let queue ← demand found (invariant "missing_dispatch_queue")
  require (queue.state = row.queueState) (invariant "dispatch_queue_state_mismatch")
  let hasCapacity ← queueHasDispatchCapacity env row queue
  if hasCapacity then do
    let nextAttempt ← nextAttemptNumber row.run.id
    pure (some { run := row.run, jobState := row.jobState, queue, nextAttempt })
  else
    pure none

variable {context : DispatchContext}

theorem yields_dispatchContextOf (h : Yields (dispatchContextOf env row) db (some context) db') :
    db' = db ∧ context.run = row.run ∧ (context.queue ∈ db.queues ∧ context.queue.id = row.run.queueId) ∧
      HasRoom env db row context.queue ∧ context.nextAttempt =
        (((db.attemptsOf row.run.id).getLast?).elim 0 JobAttempt.attemptNumber) + 1 := by
  simp only [dispatchContextOf, yields_steps, yields_ite, exists_and_left, exists_eq_left, exists_const, and_assoc] at h
  obtain ⟨_, _, hfo, _, rfl, -, _, _, hr, h⟩ := h
  obtain ⟨rfl, hq, hi, -⟩ := Queues.yields_findById_some.1 hfo
  split at h
  next hy =>
    obtain ⟨hh, rfl⟩ := yields_queueHasDispatchCapacity_true.1 (hy ▸ hr)
    obtain ⟨_, _, hn, hc, rfl⟩ := h
    obtain ⟨rfl, hne⟩ := yields_nextAttemptNumber hn
    cases hc
    exact ⟨rfl, rfl, ⟨hq, hi⟩, hh, hne⟩
  · cases h.1

/-- `find_dispatch_context`. -/
def findDispatchContext (env : Environment) (runId : Uuid) (now : Int) : Txn (Option DispatchContext) := do
  let eligible ← findEligibleRow env runId now
  match eligible with
  | none => pure none
  | some row => dispatchContextOf env row

/-- What a dispatch has read. -/
structure Dispatchable (env : Environment) (db : Database) (runId : Uuid) (now : Int)
    (context : DispatchContext) (row : SchedulerRun) (job : JobDefinition) : Prop where
  eligible : Eligible db runId now row job context.queue
  run : context.run = row.run
  room : HasRoom env db row context.queue
  number : context.nextAttempt = (((db.attemptsOf row.run.id).getLast?).elim 0 JobAttempt.attemptNumber) + 1

theorem yields_findDispatchContext (h : Yields (findDispatchContext env runId now) db (some context) db') :
    db' = db ∧ ∃ row job, Dispatchable env db runId now context row job := by
  simp only [findDispatchContext, yields_bind] at h
  obtain ⟨eligible, _, he, h⟩ := h
  cases eligible with
  | none => cases ((yields_pure _ _ _ _).1 h).1
  | some row =>
    obtain ⟨rfl, job, queue, hro⟩ := yields_findEligibleRow he
    obtain ⟨rfl, hr, ⟨hq, hi⟩, hroo, hn⟩ := yields_dispatchContextOf h
    obtain ⟨hm, ho⟩ := hro.joined.ofQueue
    obtain rfl : queue = context.queue := eq_of_key hm hq (ho.trans hi.symm)
    exact ⟨rfl, row, job, hro, hr, hroo, hn⟩

/-- A run that starts; the first start stays the start of the run. -/
def started (startedAt : Int) (row : JobRun) : JobRun :=
  { row with
    state := .running
    startedAt := some (row.startedAt.getD (storedTime startedAt)) }

theorem key_started (startedAt : Int) (row : JobRun) : Keyed.key (started startedAt row) = Keyed.key row := rfl

/-- `mark_dispatch_running`. -/
def markDispatchRunning (runId : Uuid) (expected : RunState) (startedAt : Int) : Txn Bool := do
  require (expected.isPending = true) (invariant "invalid_dispatch_expected_state")
  updateRow runTable runId
    (fun row => row.state = expected && row.completedAt.isNone && row.result.isNone)
    (started startedAt) (key_started startedAt)

variable {expected : RunState}

theorem yields_markDispatchRunning_true {startedAt : Int}
    (h : Yields (markDispatchRunning runId expected startedAt) db true db') :
    db' = { db with
      runs := db.runs.modify runId (started startedAt) fun _ => rfl } := by
  simp only [markDispatchRunning, yields_steps, yields_updateRow, exists_and_left, exists_eq_left, exists_const, and_assoc, true_and, Bool.true_eq_false, false_and, or_false] at h
  exact h.2.2

/-! ## Cancellation -/

/-- The attempt rows of a run agree with its state. -/
def validateCancellation (row : SchedulerRun) : Except Error Unit :=
  match row.run.state with
  | .scheduled =>
    ensure (row.attempts.active = 0 ∧ row.attempts.completed = 0 ∧ row.attempts.total = 0)
      (invariant "scheduled_cancellation_attempt_relationship")
  | .running | .retryWait => do
    let _ ← capacityUsage row
    pure ()
  | .succeeded | .failed | .interrupted | .cancelled =>
    ensure (row.attempts.active = 0 ∧ row.attempts.running = 0)
      (invariant "terminal_cancellation_attempt_relationship")

/-- `find_run_for_cancel`. -/
def findRunForCancel (env : Environment) (runId : Uuid) : Txn (Option JobRun) := do
  let existing ← Runs.findById env runId
  match existing with
  | none => pure none
  | some run =>
    query fun db => do
      let row ← orError (joined db run) (invariant "missing_cancellation_owners")
      let row ← decodeSchedulerRun env true row
      ensure (row.run.isLive = true → (manualBarrierSummary db row.run.jobId).valid row.jobState row.jobIsOnce = true)
        (invariant "manual_barrier_relationship")
      validateCancellation row
      pure (some row.run)

/-- `find_active_attempt`. -/
def findActiveAttempt (runId : Uuid) : Txn (Option Nat) :=
  query fun db =>
    match db.attempts.select fun a => a.runId = runId && a.state = .running with
    | [] => .ok none
    | [a] => do
      ensure (1 ≤ a.attemptNumber ∧ a.attemptNumber ≤ maximumAttemptNumber)
        (invariant "invalid_active_attempt_number")
      pure (some a.attemptNumber)
    | _ :: _ :: _ => .error (invariant "multiple_active_attempts")

/-- A run that has ended. -/
def ended (state : RunState) (completedAt : Int) (result : Json) (row : JobRun) : JobRun :=
  { row with state, completedAt := some (storedTime completedAt), result := some result }

theorem key_ended (state : RunState) (completedAt : Int) (result : Json) (row : JobRun) :
    Keyed.key (ended state completedAt result row) = Keyed.key row := rfl

/-- `cancel_pending_run`. -/
def cancelPendingRun (runId : Uuid) (expected : RunState) (completedAt : Int) (result : Json) : Txn Bool := do
  require (expected.isPending = true) (invariant "invalid_cancellation_expected_state")
  updateRow runTable runId
    (fun row => row.state = expected && row.completedAt.isNone && row.result.isNone &&
      (if expected = .scheduled then row.startedAt.isNone else row.startedAt.isSome))
    (ended .cancelled completedAt result) (key_ended .cancelled completedAt result)

theorem yields_cancelPendingRun_true (h : Yields (cancelPendingRun runId expected completedAt result) db true db') :
    expected.isPending = true ∧ (∃ row ∈ db.runs, row.id = runId ∧ row.state = expected) ∧
      db' = { db with
        runs := db.runs.modify runId (ended .cancelled completedAt result)
          fun _ => rfl } := by
  simp only [cancelPendingRun, yields_steps, yields_updateRow, true_and, Bool.true_eq_false, false_and, or_false] at h
  obtain ⟨_, _, ⟨hp, rfl⟩, ⟨row, hr, hi, hs⟩, rfl⟩ := h
  simp only [bool_steps] at hs
  exact ⟨hp, ⟨row, hr, hi, hs.1.1.1⟩, rfl⟩

/-! ## Completion -/

structure CompletionContext where
  run : JobRun
  jobState : JobState
  queueState : QueueState

/-- `find_completion_context`. -/
def findCompletionContext (env : Environment) (key : AttemptKey) : Txn CompletionContext := do
  let row ← query fun db => do
    let row ← orError ((db.runs.find? key.runId).bind (joined db))
      (invariant "missing_completion_run")
    let row ← decodeSchedulerRun env true row
    let _ ← capacityUsage row
    ensure (row.run.state = .running) (invariant "completion_run_not_running")
    pure row
  let attempt ← Attempts.find key
  require ((attempt.any fun a => a.state = .running) = true)
    (invariant "completion_attempt_not_running")
  pure { run := row.run, jobState := row.jobState, queueState := row.queueState }

variable {key : AttemptKey}

theorem yields_findCompletionContext {context : CompletionContext}
    (h : Yields (findCompletionContext env key) db context db') : db' = db ∧
      context.run ∈ db.runs ∧ context.run.id = key.runId ∧ context.run.state = .running ∧
      ∃ a ∈ db.attempts, (Keyed.key a : AttemptKey) = key ∧ a.state = .running := by
  simp only [findCompletionContext, yields_steps, except_steps, Option.bind_eq_some_iff, joined_eq_some, decodeSchedulerRun_ok] at h
  obtain ⟨_, _, ⟨⟨_, ⟨_, hfi, rfl, -⟩, _, ⟨rfl, -⟩, _, -, _, hs, rfl⟩, rfl⟩, attempt, _, hat, _,
    _, ⟨hru, rfl⟩, rfl, rfl⟩ := h
  obtain ⟨hd, rfl⟩ := (yields_query _ _ _ _).1 hat
  obtain ⟨hr, hi⟩ := find?_eq_some.1 hfi
  cases attempt with
  | none => cases hru
  | some a =>
    obtain ⟨_, hfo, ho⟩ := decodeFound_some.1 hd
    obtain ⟨rfl, -⟩ := decodeAttempt_ok.1 ho
    obtain ⟨ha, hk⟩ := find?_eq_some.1 hfo
    exact ⟨rfl, hr, hi, hs, a, ha, hk, by simpa using hru⟩

/-- An attempt that runs and has reported nothing. -/
def isUnreported (a : JobAttempt) : Bool :=
  a.state = .running && a.startedAt.isSome && a.completedAt.isNone && a.outcome.isNone && a.result.isNone

/-- An attempt with its outcome. -/
def reported (completedAt : Int) (outcome : AttemptOutcome) (result : Json) (a : JobAttempt) : JobAttempt :=
  { a with
    completedAt := some (storedTime completedAt)
    state := .completed
    outcome := some outcome
    result := some result }

theorem key_reported (completedAt : Int) (outcome : AttemptOutcome) (result : Json)
    (a : JobAttempt) : Keyed.key (reported completedAt outcome result a) = Keyed.key a := rfl

/-- `complete_attempt`: only an untouched running attempt completes. -/
def completeAttempt (key : AttemptKey) (completedAt : Int) (outcome : AttemptOutcome) (result : Json) : Txn Unit := do
  let affected ← updateRow attemptTable key isUnreported (reported completedAt outcome result)
    (key_reported completedAt outcome result)
  require (affected = true) (invariant "completion_attempt_affected_rows")

theorem yields_completeAttempt {outcome : AttemptOutcome} :
    Yields (completeAttempt key completedAt outcome result) db u db' ↔
      (∃ a ∈ db.attempts, (Keyed.key a : AttemptKey) = key ∧ isUnreported a = true) ∧
      db' = { db with
        attempts := db.attempts.modify key (reported completedAt outcome result)
          fun _ => rfl } := by
  simp only [completeAttempt, yields_steps, yields_updateRow]
  constructor
  · rintro ⟨_, _, ⟨-, ha, rfl⟩ | ⟨rfl, -⟩, hb, rfl⟩
    · exact ⟨ha, rfl⟩
    · cases hb
  · rintro ⟨ha, rfl⟩
    exact ⟨true, _, .inl ⟨rfl, ha, rfl⟩, rfl, rfl⟩

/-- A run whose attempt is being completed. -/
def isUnfinished (run : JobRun) : Bool :=
  run.state = .running && run.startedAt.isSome && run.completedAt.isNone && run.result.isNone

/-- A run that waits for its next attempt. -/
def retrying (runnableAt : Int) (row : JobRun) : JobRun :=
  { row with state := .retryWait, runnableAt := storedTime runnableAt }

theorem key_retrying (runnableAt : Int) (row : JobRun) : Keyed.key (retrying runnableAt row) = Keyed.key row := rfl

/-- `set_run_retry_wait`. -/
def setRunRetryWait (runId : Uuid) (runnableAt : Int) : Txn Unit := do
  let affected ← updateRow runTable runId isUnfinished (retrying runnableAt)
    (key_retrying runnableAt)
  require (affected = true) (invariant "retry_wait_run_affected_rows")

theorem yields_setRunRetryWait {runnableAt : Int} (h : Yields (setRunRetryWait runId runnableAt) db u db') :
    db' = { db with
      runs := db.runs.modify runId (retrying runnableAt) fun _ => rfl } := by
  simp only [setRunRetryWait, yields_steps, yields_updateRow] at h
  obtain ⟨_, _, ⟨-, -, rfl⟩ | ⟨rfl, -⟩, hb, rfl⟩ := h
  · rfl
  · cases hb

/-- `set_run_terminal`. -/
def setRunTerminal (runId : Uuid) (state : RunState) (completedAt : Int) (result : Json) : Txn Unit := do
  require (state = .succeeded ∨ state = .failed ∨ state = .cancelled)
    (invariant "invalid_completion_terminal_state")
  let affected ← updateRow runTable runId isUnfinished (ended state completedAt result)
    (key_ended state completedAt result)
  require (affected = true) (invariant "terminal_run_affected_rows")

theorem yields_setRunTerminal {state : RunState} (h : Yields (setRunTerminal runId state completedAt result) db u db') :
    db' = { db with
      runs := db.runs.modify runId (ended state completedAt result)
        fun _ => rfl } := by
  simp only [setRunTerminal, yields_steps, yields_updateRow] at h
  obtain ⟨_, _, ⟨-, rfl⟩, _, _, ⟨-, -, rfl⟩ | ⟨rfl, -⟩, hb, rfl⟩ := h
  · rfl
  · cases hb

/-! ## Suspensions that have drained -/

/-- `complete_drained_queue_suspension`; the value says whether the queue became suspended. -/
def completeDrainedQueueSuspension (env : Environment) (queueId : Uuid) (updatedAt : Int) : Txn Bool := do
  let found ← Queues.findById env queueId true
  let queue ← demand found (invariant "missing_drain_queue")
  if queue.state = .suspending then do
    let running ← Runs.countRunningForQueue queueId
    if running = 0 then do
      require (queue.revision < maximumRevision) queueRevisionExhausted
      let transitioned ← Queues.setState queueId .suspending .suspended queue.revision
        (queue.revision + 1) updatedAt
      require (transitioned = true) (invariant "drained_queue_state_changed")
      pure true
    else pure false
  else pure false

variable {drained : Bool}

/-- The end of a suspension, of a queue or of a job. -/
private theorem yields_drain {suspending fits a b c : Prop} [Decidable suspending] [Decidable fits]
    {selected : JobRun → Bool} {exhausted changed : Error} {set : Txn Bool} {next : Database}
    (hse : ∀ db', Yields set db true db' ↔ a ∧ b ∧ c ∧ db' = next) (hv : suspending → a ∧ b ∧ c) :
    Yields (if suspending then do
      let running ← Runs.countRunning selected
      if running = 0 then do
        require fits exhausted
        let transitioned ← set
        require (transitioned = true) changed
        pure true
      else pure false
      else pure false) db drained db' ↔
      (drained = true ∧ suspending ∧ (∀ run ∈ db.runs, selected run = true → run.state ≠ .running) ∧ fits ∧ db' = next) ∨
        (drained = false ∧ (suspending → ∃ run ∈ db.runs, selected run = true ∧ run.state = .running) ∧ db' = db) := by
  by_cases hs : suspending
  · have hz := (Runs.yields_countRunning ((yields_look _ db db _).2 ⟨rfl, rfl⟩ : Yields (Runs.countRunning selected) _ _ _)).2
    simp only [if_pos hs, Runs.countRunning, yields_steps, and_assoc, exists_and_left, exists_eq_left]
    by_cases hn : ∀ run ∈ db.runs, selected run = true → run.state ≠ .running
    · rw [if_pos (hz.2 hn)]
      simp only [yields_steps]
      constructor
      · rintro ⟨_, _, ⟨hfi, rfl⟩, _, _, hy, _, _, ⟨rfl, rfl⟩, rfl, rfl⟩
        exact .inl ⟨rfl, hs, hn, hfi, ((hse _).1 hy).2.2.2⟩
      rintro (⟨rfl, -, -, hfi, rfl⟩ | ⟨-, hso, -⟩)
      · obtain ⟨ha, hb, hc⟩ := hv hs
        exact ⟨(), db, ⟨hfi, rfl⟩, true, _, (hse _).2 ⟨ha, hb, hc, rfl⟩, (), _, ⟨rfl, rfl⟩, rfl, rfl⟩
      · obtain ⟨run, hr, hsel, hru⟩ := hso hs
        exact absurd hru (hn run hr hsel)
    · rw [if_neg (mt hz.1 hn), yields_pure]
      push Not at hn
      simp [hs, hn]
  · simp [hs]

/-- **A suspension of a queue ends exactly when nothing of the queue is running.** -/
theorem yields_drainedQueue :
    Yields (completeDrainedQueueSuspension env queueId updatedAt) db drained db' ↔
      ∃ queue ∈ db.queues, queue.id = queueId ∧ QueueShape env queue ∧ ((drained = true ∧ queue.state = .suspending ∧
          (∀ run ∈ db.runs, run.queueId = queueId → run.state ≠ .running) ∧ queue.revision < maximumRevision ∧
          db' = { db with
            queues := db.queues.modify queueId
              (Queues.entered .suspended (queue.revision + 1) updatedAt)
              fun _ => rfl }) ∨ (drained = false ∧ (queue.state = .suspending →
          ∃ run ∈ db.runs, run.queueId = queueId ∧ run.state = .running) ∧ db' = db)) := by
  have hu {queue : Queue} (hsh : QueueShape env queue) (hs : queue.state = .suspending) :=
    Option.not_isSome_iff_eq_none.1 (mt hsh.deleted.2 (by simp [hs]))
  simp only [completeDrainedQueueSuspension, yields_steps]
  constructor
  · rintro ⟨_, _, hfo, queue, _, ⟨rfl, rfl⟩, h⟩
    obtain ⟨rfl, hq, hi, -, hsh⟩ := Queues.yields_findById_some.1 hfo
    refine ⟨queue, hq, hi, hsh, ?_⟩
    simpa using (yields_drain (fun _ => Queues.yields_setState_true) fun hs =>
      ⟨by decide, rfl, queue, hq, hi, hs, rfl, hu hsh hs⟩).1 h
  rintro ⟨queue, hq, hi, hsh, h⟩
  refine ⟨some queue, db, Queues.yields_findById_some.2 ⟨rfl, hq, hi, .inl rfl, hsh⟩, queue, db, ⟨rfl, rfl⟩,
    (yields_drain (fun _ => Queues.yields_setState_true) fun hs =>
      ⟨by decide, rfl, queue, hq, hi, hs, rfl, hu hsh hs⟩).2 ?_⟩
  simpa using h

/-- `complete_drained_job_suspension`: a retry that waits does not keep the suspension open. -/
def completeDrainedJobSuspension (env : Environment) (queueId jobId : Uuid) (updatedAt : Int) : Txn Bool := do
  let found ← Jobs.findById env jobId true
  let job ← demand found (invariant "missing_drain_job")
  require (job.queueId = queueId) (invariant "drain_job_queue_mismatch")
  if job.state = .suspending then do
    let running ← Runs.countRunningForJob jobId
    if running = 0 then do
      require (job.revision < maximumRevision) jobRevisionExhausted
      let transitioned ← Jobs.setState jobId .suspending .suspended job.revision
        (job.revision + 1) updatedAt
      require (transitioned = true) (invariant "drained_job_state_changed")
      pure true
    else pure false
  else pure false

variable {jobId : Uuid}

/-- **A suspension of a job ends exactly when nothing of the job is running.** -/
theorem yields_drainedJob :
    Yields (completeDrainedJobSuspension env queueId jobId updatedAt) db drained db' ↔
      ∃ job ∈ db.jobs, job.id = jobId ∧ JobShape env job ∧ job.queueId = queueId ∧
        ((drained = true ∧ job.state = .suspending ∧
          (∀ run ∈ db.runs, run.jobId = jobId → run.state ≠ .running) ∧ job.revision < maximumRevision ∧
          db' = { db with
            jobs := db.jobs.modify jobId
              (Jobs.entered .suspended (job.revision + 1) updatedAt)
              fun _ => rfl }) ∨ (drained = false ∧ (job.state = .suspending →
          ∃ run ∈ db.runs, run.jobId = jobId ∧ run.state = .running) ∧ db' = db)) := by
  have hu {job : JobDefinition} (hsh : JobShape env job) (hs : job.state = .suspending) :=
    Option.not_isSome_iff_eq_none.1 (mt hsh.deleted.2 (by simp [hs]))
  simp only [completeDrainedJobSuspension, yields_steps]
  constructor
  · rintro ⟨_, _, hfo, job, _, ⟨rfl, rfl⟩, _, _, ⟨hq, rfl⟩, h⟩
    obtain ⟨rfl, hj, hi, -, hsh⟩ := Jobs.yields_findById_some.1 hfo
    refine ⟨job, hj, hi, hsh, hq, ?_⟩
    simpa using (yields_drain (fun _ => Jobs.yields_setState_true) fun hs =>
      ⟨by decide, rfl, job, hj, hi, hs, rfl, hu hsh hs⟩).1 h
  rintro ⟨job, hj, hi, hsh, hq, h⟩
  refine ⟨some job, db, Jobs.yields_findById_some.2 ⟨rfl, hj, hi, .inl rfl, hsh⟩, job, db, ⟨rfl, rfl⟩, (), db,
    ⟨hq, rfl⟩, (yields_drain (fun _ => Jobs.yields_setState_true) fun hs =>
      ⟨by decide, rfl, job, hj, hi, hs, rfl, hu hsh hs⟩).2 ?_⟩
  simpa using h

/-- `complete_drained_suspensions`. -/
def completeDrainedSuspensions (env : Environment) (queueId jobId : Uuid) (updatedAt : Int) : Txn Unit := do
  let _ ← completeDrainedQueueSuspension env queueId updatedAt
  let _ ← completeDrainedJobSuspension env queueId jobId updatedAt

/-- Draining touches neither runs nor attempts. -/
theorem yields_completeDrainedSuspensions
    (h : Yields (completeDrainedSuspensions env queueId jobId updatedAt) db u db') :
    db'.runs = db.runs ∧ db'.attempts = db.attempts := by
  simp only [completeDrainedSuspensions, yields_steps] at h
  obtain ⟨_, _, hq, _, _, hj, -, rfl⟩ := h
  obtain ⟨_, -, -, -, ⟨-, -, -, -, rfl⟩ | ⟨-, -, rfl⟩⟩ := yields_drainedQueue.1 hq <;>
  obtain ⟨_, -, -, -, -, ⟨-, -, -, -, rfl⟩ | ⟨-, -, rfl⟩⟩ := yields_drainedJob.1 hj <;>
  exact ⟨rfl, rfl⟩

/-- `has_any_running_state`. -/
def hasAnyRunningState : Txn Bool :=
  look fun db => (db.runs.rows.any fun run => run.state = .running) ||
    db.attempts.rows.any fun attempt => attempt.state = .running

end Scheduler

end Jobu
