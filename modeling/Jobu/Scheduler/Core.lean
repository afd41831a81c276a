import Jobu.Scheduler.Repository

/-!
# The scheduler core

`scheduler_dispatch_priv.cpp` and `scheduler_core_priv.cpp`.  The core owns what is not durable: the
attempts it has started, the cancellations it has asked for, and the capacity of the cycle it is
in.  A transaction changes the database first; the memory follows only after its commit.
-/

namespace Jobu

open Lib

namespace Scheduler

/-! ## Errors -/

def invalidCompletion (reason : String) : Error where
  category := .internal
  code := "jobu.executor.invalid_completion"
  message := "Attempt executor completion violates its contract"
  detail := "reason=" ++ reason

def stopping : Error where
  category := .unavailable
  code := "jobu.scheduler.stopping"
  message := "The scheduler has permanently stopped"

def invalidOptions : Error where
  category := .invalidArgument
  code := "jobu.scheduler.invalid_options"
  message := "Scheduler concurrency limits and candidate batch size must be positive"

def capacityOverflow : Error where
  category := .internal
  code := "jobu.storage.invariant"
  message := "Persisted scheduler capacity exceeds its supported range"

def runNotFound : Error where
  category := .notFound
  code := "jobu.run.not_found"
  message := "The requested run does not exist"

def runStateConflict : Error where
  category := .conflict
  code := "jobu.run.state_conflict"
  message := "The run state does not permit cancellation"

def recoveryRequired : Error where
  category := .conflict
  code := "jobu.scheduler.recovery_required"
  message := "The running attempt is not owned by this scheduler instance"

def schedulerInvariant (reason : String) : Error :=
  storageInvariant "Persisted scheduler cancellation state is inconsistent" reason

/-! ## The memory of the daemon -/

/-- `SchedulerCoreOptions`. -/
structure Options where
  cliConcurrency : Nat
  httpConcurrency : Nat
  candidateBatchSize : Nat

/-- `global_limit_for`. -/
def Options.limitFor (options : Options) : JobType → Nat
  | .cli => options.cliConcurrency
  | .http => options.httpConcurrency

/-- The occupancy a cycle keeps while it dispatches. -/
structure Capacity where
  cliRunning : Nat := 0
  httpRunning : Nat := 0
  queueSlots : Uuid → Nat := fun _ => 0
  blockingRetries : List BlockingRetryCandidate := []

/-- `running_for`. -/
def Capacity.runningFor (capacity : Capacity) : JobType → Nat
  | .cli => capacity.cliRunning
  | .http => capacity.httpRunning

/-- A run read by `list_runnable`, for its queue and type. -/
structure Candidate where
  runId : Uuid
  queueId : Uuid
  type : JobType

/-- What one cycle holds: its clock reading, the active queues, the capacity and the candidates
read so far. -/
structure Cycle where
  now : Int
  queues : List QueueRuntime
  capacity : Capacity
  candidates : List Candidate := []

/-- The members of `SchedulerCore`; a map is the function it stands for. -/
structure Memory where
  active : Uuid → Option Nat := fun _ => none
  cancellations : Uuid → Bool := fun _ => false
  terminal : Bool := false
  cycle : Option Cycle := none

/-- The durable and the volatile state of one daemon. -/
structure Node where
  db : Database
  memory : Memory

/-- A procedure of the core. -/
abbrev Action := Proc Node Error

/-- Runs a transaction on the durable part. -/
def durable {α : Type} (x : Txn α) : Action α :=
  zoom Node.db (fun node db => { node with db }) x

def changeMemory (f : Memory → Memory) : Action Unit :=
  write fun node => { node with memory := f node.memory }

/-- `active_attempts.emplace`, after its key was found absent. -/
def Memory.own (memory : Memory) (key : AttemptKey) : Memory :=
  { memory with
    active := fun id => if id = key.runId then some key.attemptNumber else memory.active id }

/-- The run's attempt is over: `active_attempts.erase` and `cancellation_requests.erase`. -/
def Memory.forget (memory : Memory) (runId : Uuid) : Memory :=
  { memory with
    active := fun id => if id = runId then none else memory.active id
    cancellations := fun id => if id = runId then false else memory.cancellations id }

/-- `cancellation_requests.insert`. -/
def Memory.requestCancel (memory : Memory) (runId : Uuid) : Memory :=
  { memory with cancellations := fun id => if id = runId then true else memory.cancellations id }

/-- `shutdown`: nothing is accepted any more. -/
def Memory.shutdown (memory : Memory) : Memory := { memory with terminal := true }

/-- `fail_operation`: an error of the core is final. -/
def latching {α : Type} (x : Action α) : Action α := fun node =>
  match x node with
  | .ok a node' => .ok a node'
  | .error e node' => .error e { node' with memory := node'.memory.shutdown }

/-! ## Claiming a run -/

/-- `prepare_payload_template`: a failure that belongs to the job becomes an attempt outcome, and
any other one aborts the dispatch. -/
inductive Preparation where
  | ready
  | ordinary (error : Error)
  | aborted (error : Error)

def Preparation.outcome : Preparation → Txn (Option Error)
  | .ready => pure none
  | .ordinary error => pure (some error)
  | .aborted error => fail error

variable {db db' : Database}

theorem yields_preparation {preparation : Preparation} {failure : Option Error}
    (h : Yields preparation.outcome db failure db') : db' = db := by
  cases preparation with
  | ready | ordinary => exact ((yields_pure _ _ _ _).1 h).2
  | aborted => exact ((yields_fail _ _ _ _).1 h).elim

/-- A committed start, before the executor is called. -/
structure Claim where
  key : AttemptKey
  queueId : Uuid
  type : JobType
  preparationFailure : Option Error := none

/-- The attempt a dispatch inserts. -/
def startedAttempt (context : DispatchContext) (startedAt : Int) : JobAttempt where
  runId := context.run.id
  attemptNumber := context.nextAttempt
  dueAt := context.run.runnableAt
  startedAt := some startedAt
  state := .running

/-- The transaction of `dispatch_selected_impl`: eligibility lost since the selection rolls back as
a skip. -/
def claimSelected (env : Environment) (amb : Ambient) (prepare : JobType → Json → Preparation)
    (runId : Uuid) : Txn (Option Claim) := commitSome amb.fault do
  let context ← findDispatchContext env runId amb.utcNow
  match context with
  | none => pure none
  | some selected =>
    if amb.available selected.run.type = false then pure none
    else do
      let preparationFailure ← (prepare selected.run.type selected.run.payload).outcome
      let _ ← Telemetry.claimRun amb selected.run selected.queue.runnableWaitWarning
      Attempts.insertAttempt (startedAttempt selected amb.utcNow)
      let transitioned ← markDispatchRunning selected.run.id selected.run.state amb.utcNow
      if transitioned then
        pure (some
          { key := ⟨selected.run.id, selected.nextAttempt⟩
            queueId := selected.run.queueId
            type := selected.run.type
            preparationFailure })
      else pure none

/-- What a committed start has read and written. -/
structure Started (env : Environment) (amb : Ambient) (claim : Claim) (context : DispatchContext)
    (row : SchedulerRun) (job : JobDefinition) (db db₁ db' : Database) : Prop where
  dispatchable : Dispatchable env db claim.key.runId amb.utcNow context row job
  columns : claim.key = ⟨row.run.id, context.nextAttempt⟩ ∧ claim.queueId = row.run.queueId ∧ claim.type = row.run.type
  claims : ∃ delayed, Yields (Telemetry.claimRun amb row.run context.queue.runnableWaitWarning) db
    delayed db₁
  number : context.nextAttempt ≤ maximumAttemptNumber
  free : db₁.attempts.find? claim.key = none
  eq : db' =
    { db₁ with
      attempts := db₁.attempts.insert (Attempts.stored (startedAttempt context amb.utcNow))
      runs := db₁.runs.modify row.run.id (started amb.utcNow) (key_started amb.utcNow) }

theorem yields_claimSelected {env : Environment} {amb : Ambient}
    {prepare : JobType → Json → Preparation} {runId : Uuid} {claim : Claim}
    (h : Yields (claimSelected env amb prepare runId) db (some claim) db') :
    claim.key.runId = runId ∧ ∃ context row job db₁, Started env amb claim context row job db db₁ db' := by
  simp only [claimSelected, yields_commitSome_some, yields_bind] at h
  obtain ⟨-, found, _, hfo, h⟩ := h
  cases found with
  | none => cases ((yields_pure _ _ _ _).1 h).1
  | some context =>
    obtain ⟨rfl, row, job, hc⟩ := yields_findDispatchContext hfo
    simp only [yields_ite, yields_steps] at h
    split at h
    · cases h.1
    obtain ⟨_, _, hp, delayed, db₁, hcl, _, _, hi, _, _, hm, h⟩ := h
    split at h
    next hy =>
      obtain ⟨hso, rfl⟩ := h
      cases hso
      obtain ⟨hn, -, hfr, rfl⟩ := Attempts.yields_insertAttempt hi
      obtain rfl := yields_markDispatchRunning_true (hy ▸ hm)
      obtain rfl := yields_preparation hp
      have hid : context.run.id = runId := by rw [hc.run, hc.eligible.mem.2]
      rw [hc.run] at hcl ⊢
      refine ⟨by rw [← hc.run]; exact hid, context, row, job, db₁, ?_, ⟨rfl, rfl, rfl⟩,
        ⟨delayed, hcl⟩, hn.2, ?_, rfl⟩
      · rw [hc.eligible.mem.2]
        exact hc
      · rw [← hc.run]
        exact hfr
    · cases h.1

/-! ## Completions -/

inductive FailureDisposition where
  | terminal | retryable
deriving DecidableEq, Repr

structure OutputChannel where
  bytes : List UInt8
  totalBytes : Nat
  truncated : Bool

structure CapturedOutput where
  primary : Option OutputChannel := none
  diagnostic : Option OutputChannel := none
  captureLost : Bool := false

/-- `AttemptCompletion`, as the executor reports it. -/
structure AttemptCompletion where
  key : AttemptKey
  outcome : AttemptOutcome
  failureDisposition : Option FailureDisposition := none
  retryNotBefore : Option Int := none
  result : Json
  output : Option CapturedOutput := none

def maximumResultBytes : Nat := 256 * 1024

def maximumOutputBytes : Nat := 64 * 1024 * 1024

def Json.isObject (value : Json) : Bool := value.text.toList.head? = some '\x7b'

/-- `validate_output_channel`. -/
def validateOutputChannel (name : String) (channel : OutputChannel) : Except Error Unit := do
  ensure (channel.bytes.length ≤ maximumOutputBytes) (invalidCompletion (name ++ "_too_large"))
  ensure (channel.bytes.length ≤ channel.totalBytes)
    (invalidCompletion (name ++ "_total_below_retained"))
  ensure (channel.truncated = decide (channel.bytes.length < channel.totalBytes))
    (invalidCompletion (name ++ "_truncation_mismatch"))

def validateChannelIfAny (name : String) : Option OutputChannel → Except Error Unit
  | none => .ok ()
  | some channel => validateOutputChannel name channel

/-- `validate_output`. -/
def validateOutput : Option CapturedOutput → Except Error Unit
  | none => .ok ()
  | some output => do
    validateChannelIfAny "primary" output.primary
    validateChannelIfAny "diagnostic" output.diagnostic

/-- The fields an outcome may carry. -/
def validateDisposition (completion : AttemptCompletion) : Except Error Unit :=
  match completion.outcome with
  | .succeeded | .cancelled =>
    ensure (completion.failureDisposition = none ∧ completion.retryNotBefore = none)
      (invalidCompletion "terminal_fields")
  | .failed => do
    ensure (completion.failureDisposition.isSome = true)
      (invalidCompletion "missing_failure_disposition")
    ensure (completion.retryNotBefore.isSome = true →
      completion.failureDisposition = some .retryable) (invalidCompletion "terminal_retry_deadline")
  | .interrupted => .error (invalidCompletion "interrupted_reserved")

/-- `validate_completion`. -/
def validateCompletion (completion : AttemptCompletion) : Except Error Unit := do
  validateDisposition completion
  ensure (Json.isObject completion.result = true) (invalidCompletion "result_not_object")
  ensure (completion.result.text.utf8ByteSize ≤ maximumResultBytes)
    (invalidCompletion "result_too_large")
  validateOutput completion.output

/-- `validate_output_capture`. -/
def validateOutputCapture (output : Option CapturedOutput) (attributes : AttributeSet)
    (outcome : AttemptOutcome) : Except Error Unit :=
  match output with
  | none => .ok ()
  | some _ => do
    let capture ← orError (attributes.find "output.capture")
      (invalidCompletion "missing_output_capture")
    let mode ← orError (Retry.asText capture) (invalidCompletion "invalid_output_capture")
    ensure (mode ≠ "none") (invalidCompletion "output_capture_disabled")
    ensure (mode = "on_error" ∨ mode = "always") (invalidCompletion "unknown_output_capture")
    ensure (mode = "on_error" → outcome ≠ .succeeded)
      (invalidCompletion "output_capture_on_success")

/-- `to_storage_output`. -/
def storageOutput (key : AttemptKey) (output : CapturedOutput) : AttemptOutput where
  runId := key.runId
  attemptNumber := key.attemptNumber
  stdout := output.primary.map OutputChannel.bytes
  stderr := output.diagnostic.map OutputChannel.bytes
  stdoutTruncated := output.primary.any OutputChannel.truncated
  stderrTruncated := output.diagnostic.any OutputChannel.truncated
  captureLost := output.captureLost

/-- `kCancellationResultJson`. -/
def cancellationResult : Json := Runs.reasonObject "cancelled"

/-- What a completion means once an accepted cancellation has overridden it. -/
def effective (completion : AttemptCompletion) (cancelled : Bool) : AttemptCompletion :=
  if cancelled then
    { completion with
      outcome := .cancelled
      failureDisposition := none
      retryNotBefore := none
      result := cancellationResult }
  else completion

/-- `terminal_run_state`. -/
def terminalRunState : AttemptOutcome → Except Error RunState
  | .succeeded => .ok .succeeded
  | .failed => .ok .failed
  | .cancelled => .ok .cancelled
  | .interrupted => .error (invalidCompletion "invalid_terminal_outcome")

structure CompletionEffect where
  outcome : AttemptOutcome
  retry : Option Retry.Schedule
  queueSlotRetained : Bool

/-- A blocking retry keeps its slot while its owners would let it run. -/
def retainsSlot (context : CompletionContext) (retry : Retry.Schedule) : Bool :=
  retry.mode = .blocking && (context.jobState = .active || context.run.origin = .manual) && context.queueState = .active

variable (env : Environment) (amb : Ambient)

/-- The end of a run inside a transaction: its successor, and its job if that was the last run. -/
def followTerminalRun (run : JobRun) : Txn Unit := do
  let _ ← Lifecycle.insertRecurringSuccessor env (amb.generate 0) run
    (max amb.utcNow run.plannedAt) (Telemetry.measurement amb)
  let _ ← Lifecycle.finishAfterTerminalRun env run.id amb.utcNow

/-- Stores the output of an attempt, if it has one. -/
def persistOutput (key : AttemptKey) : Option CapturedOutput → Txn Unit
  | none => pure ()
  | some output => Attempts.insertOrReplaceOutput (storageOutput key output)

/-- The run after its attempt: a retry, or the end. -/
def transitionRun (context : CompletionContext)
    (completion : AttemptCompletion) (retry : Option Retry.Schedule) : Txn Unit :=
  match retry with
  | some schedule => setRunRetryWait completion.key.runId schedule.dueAt
  | none => do
    let state ← lift (terminalRunState completion.outcome)
    setRunTerminal completion.key.runId state amb.utcNow completion.result
    followTerminalRun env amb context.run

/-- The retry decision of a completion. -/
def retryOf (context : CompletionContext) (completion : AttemptCompletion) (now : Int) :
    Except Error (Option Retry.Schedule) :=
  Retry.decision context.run.attributes
    { runId := completion.key.runId
      attemptNumber := completion.key.attemptNumber
      outcome := completion.outcome
      retryable := completion.failureDisposition = some .retryable
      retryAllowed := context.jobState ≠ .deleted && context.queueState ≠ .deleted
      completedAt := now
      retryNotBefore := completion.retryNotBefore }

/-- The transaction of `process_completion`. -/
def completeDurably (completion : AttemptCompletion) : Txn CompletionEffect := transaction amb.fault do
  let context ← findCompletionContext env completion.key
  lift (validateOutputCapture completion.output context.run.attributes completion.outcome)
  let retry ← lift (retryOf context completion amb.utcNow)
  Telemetry.validateClosedRun context.run.id
  Telemetry.settleScope amb (.job context.run.jobId)
  completeAttempt completion.key amb.utcNow completion.outcome completion.result
  persistOutput completion.key completion.output
  transitionRun env amb context completion retry
  completeDrainedSuspensions env context.run.queueId context.run.jobId amb.utcNow
  Telemetry.reconcileScope amb (.job context.run.jobId)
  pure
    { outcome := completion.outcome
      retry
      queueSlotRetained := retry.any (retainsSlot context) }

/-- `process_completion`: the callback is checked as it came, then overridden by an accepted
cancellation, and forgotten only after the commit. -/
def processCompletion (expectedRunId : Uuid) (completion : AttemptCompletion) : Action CompletionEffect := do
  let active ← look fun node => node.memory.active expectedRunId
  let number ← demand active (invalidCompletion "unexpected_callback")
  require (completion.key = ⟨expectedRunId, number⟩) (invalidCompletion "key_mismatch")
  lift (validateCompletion completion)
  let cancelled ← look fun node => node.memory.cancellations expectedRunId
  let effect ← durable (completeDurably env amb (effective completion cancelled))
  changeMemory fun memory => memory.forget expectedRunId
  pure effect

/-- The completion callback: inert once the core is terminal, and any failure is final. -/
def deliverCompletion (expectedRunId : Uuid) (completion : AttemptCompletion) : Action (Option CompletionEffect) := do
  let terminal ← look fun node => node.memory.terminal
  if terminal then pure none
  else do
    let effect ← latching (processCompletion env amb expectedRunId completion)
    pure (some effect)

/-! ## Cancellation -/

inductive CancelDisposition where
  | completed | requested
deriving DecidableEq, Repr

/-- The transaction of `cancel_run_impl` for a run that waits. -/
def cancelPending (runId : Uuid) (expected : RunState) : Txn Unit := transaction amb.fault do
  let current ← findRunForCancel env runId
  let run ← demand current runStateConflict
  require (run.state = expected) runStateConflict
  Telemetry.settleScope amb (.job run.jobId)
  let cancelled ← cancelPendingRun runId run.state amb.utcNow cancellationResult
  require (cancelled = true) runStateConflict
  followTerminalRun env amb run
  completeDrainedSuspensions env run.queueId run.jobId amb.utcNow
  Telemetry.reconcileScope amb (.job run.jobId)

/-- A running attempt is cancelled by its executor; the request is recorded once accepted. -/
def requestCancellation (runId : Uuid) (executorCancel : Except Error Unit) : Action Unit := do
  let active ← look fun node => node.memory.active runId
  let number ← demand active recoveryRequired
  let durableAttempt ← durable (findActiveAttempt runId)
  require (durableAttempt = some number) (schedulerInvariant "active_attempt_mismatch")
  let requested ← look fun node => node.memory.cancellations runId
  if requested then pure ()
  else do
    lift executorCancel
    changeMemory fun memory => memory.requestCancel runId

/-- `cancel_run_impl`. -/
def cancelRunImpl (runId : Uuid) (executorCancel : Except Error Unit) : Action CancelDisposition := do
  let found ← durable (findRunForCancel env runId)
  let run ← demand found runNotFound
  if run.state = .running then do
    requestCancellation runId executorCancel
    pure .requested
  else do
    require (run.state.isPending = true) runStateConflict
    durable (cancelPending env amb runId run.state)
    pure .completed

/-- `cancel_run`: an error of the storage is final, any other one leaves the core open. -/
def cancelRun (isFatal : Error → Bool) (runId : Uuid)
    (executorCancel : Except Error Unit) : Action CancelDisposition := fun node =>
  if node.memory.terminal then .error stopping node
  else match cancelRunImpl env amb runId executorCancel node with
    | .ok disposition node' => .ok disposition node'
    | .error e node' =>
      .error e (if isFatal e then { node' with memory := node'.memory.shutdown } else node')

/-! ## The cycle -/

/-- One row of `load_capacity`. -/
def Capacity.add (capacity : Capacity) (row : CapacityRow) : Capacity where
  cliRunning := capacity.cliRunning + row.usage.cliRunning
  httpRunning := capacity.httpRunning + row.usage.httpRunning
  queueSlots := fun id =>
    if id = row.queueId then capacity.queueSlots id + row.usage.queueSlots
    else capacity.queueSlots id
  blockingRetries := capacity.blockingRetries ++ row.blockingRetry.toList

/-- `load_capacity`; its counters hold more than the rows of any table. -/
def loadCapacity : Txn Capacity := do
  let rows ← capacityRows env
  pure (rows.foldl Capacity.add {})

/-- The start of `process_cycle_impl`: the clock, the queues, the barriers and the capacity. -/
def beginCycle (options : Options) (now : Int) : Action Unit := latching do
  require (options.cliConcurrency ≠ 0 ∧ options.httpConcurrency ≠ 0 ∧ options.candidateBatchSize ≠ 0) invalidOptions
  let queues ← durable runtimeQueues
  durable (validateManualBarriers env)
  let capacity ← durable (loadCapacity env)
  changeMemory fun memory => { memory with cycle := some { now, queues, capacity } }

/-- `load_candidate_batch`. -/
def loadCandidates (options : Options) (queueId : Uuid) (type : JobType) : Action Unit := latching do
  let cycle ← look fun node => node.memory.cycle
  match cycle with
  | none => pure ()
  | some cycle => do
    let runs ← durable (listRunnable env queueId type cycle.now
      (min options.candidateBatchSize maximumPageRows))
    let found := runs.map fun run => { runId := run.id, queueId, type : Candidate }
    changeMemory fun memory =>
      { memory with cycle := some { cycle with candidates := cycle.candidates ++ found } }

/-- `record_start`. -/
def Capacity.recordStart (capacity : Capacity) (type : JobType) (queueId : Uuid) (slotOccupied : Bool) : Capacity where
  cliRunning := if type = .cli then capacity.cliRunning + 1 else capacity.cliRunning
  httpRunning := if type = .cli then capacity.httpRunning else capacity.httpRunning + 1
  queueSlots := fun id =>
    if id = queueId ∧ slotOccupied = false then capacity.queueSlots id + 1
    else capacity.queueSlots id
  blockingRetries := capacity.blockingRetries

/-- `record_completion`. -/
def Capacity.recordCompletion (capacity : Capacity) (type : JobType) (queueId : Uuid)
    (slotRetained : Bool) : Except Error Capacity := do
  ensure (capacity.runningFor type ≠ 0 ∧ (slotRetained = true ∨ capacity.queueSlots queueId ≠ 0))
    capacityOverflow
  pure
    { cliRunning := if type = .cli then capacity.cliRunning - 1 else capacity.cliRunning
      httpRunning := if type = .cli then capacity.httpRunning else capacity.httpRunning - 1
      queueSlots := fun id =>
        if id = queueId ∧ slotRetained = false then capacity.queueSlots id - 1
        else capacity.queueSlots id
      blockingRetries := capacity.blockingRetries }

/-- A run that `dispatch_visit` may try for a type, with the flag it passes: a queue at its limit
offers only a due retry that keeps its slot, any other queue offers its candidates. -/
def Cycle.offers (cycle : Cycle) (type : JobType) (queueId runId : Uuid) (slotOccupied : Bool) : Bool :=
  cycle.queues.any fun queue => queue.id = queueId &&
    if queue.concurrencyLimit ≤ cycle.capacity.queueSlots queueId then
      slotOccupied && cycle.capacity.blockingRetries.any fun retry =>
        retry.runId = runId && retry.queueId = queueId && retry.type = type && retry.runnableAt ≤ cycle.now
    else
      (cycle.candidates.any fun candidate =>
        candidate.runId = runId && candidate.queueId = queueId && candidate.type = type) &&
      slotOccupied = cycle.capacity.blockingRetries.any fun retry => retry.runId = runId

def updateCapacity (f : Capacity → Capacity) (memory : Memory) : Memory :=
  { memory with
    cycle := memory.cycle.map fun cycle => { cycle with capacity := f cycle.capacity } }

end Scheduler

end Jobu
