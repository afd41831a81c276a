import Jobu.Repository.Requests
import Jobu.Telemetry

/-!
# Queue management

The queue operations of `management.cpp`.  Each is one transaction: the checks run in the order of
the source, the wait accounting of the affected scope is settled before the first write and
reopened after the last, and an error undoes everything.
-/

namespace Jobu

open Lib

namespace Management

/-! ## Errors -/

def invalidName : Error where
  category := .invalidArgument
  code := "jobu.queue.invalid_name"
  message := "Queue name must contain 1 through 128 bytes of valid UTF-8, no ASCII control characters, " ++
    "and no reserved deletion suffix"

def invalidConfiguration (reason : String) : Error where
  category := .invalidArgument
  code := "jobu.queue.invalid_configuration"
  message := "Queue configuration is invalid"
  detail := "reason=" ++ reason

def queueNotFound : Error where
  category := .notFound
  code := "jobu.queue.not_found"
  message := "Queue was not found"

def queueNameConflict : Error where
  category := .conflict
  code := "jobu.queue.name_conflict"
  message := "A queue with that name already exists"

def queueStateConflict : Error where
  category := .conflict
  code := "jobu.queue.state_conflict"
  message := "Queue state changed incompatibly during the operation"

def queueRevisionConflict : Error where
  category := .conflict
  code := "jobu.queue.revision_conflict"
  message := "Queue revision does not match the expected revision"

def queueRevisionExhausted : Error where
  category := .resourceExhausted
  code := "jobu.queue.revision_exhausted"
  message := "Queue revision cannot be incremented"

def queueNotSuspended : Error where
  category := .conflict
  code := "jobu.queue.not_suspended"
  message := "Queue must be fully suspended for this operation"

def queueHasRunningAttempt : Error where
  category := .conflict
  code := "jobu.queue.has_running_attempt"
  message := "Queue cannot be deleted while work is running"

def jobRevisionExhausted : Error where
  category := .resourceExhausted
  code := "jobu.job.revision_exhausted"
  message := "Job revision cannot be incremented"

def crossTableInvariant (reason : String) : Error :=
  storageInvariant "Persisted JobU data violates a cross-table invariant" reason

def invalidIdempotencyKey : Error where
  category := .invalidArgument
  code := "jobu.idempotency.invalid_key"
  message := "Idempotency key must contain 1 through 128 valid UTF-8 bytes"

/-! ## Requests -/

inductive QueueSelector where
  | id (id : Uuid)
  | name (name : String)

structure CreateQueueRequest where
  name : String
  weight : Nat := 1
  concurrencyLimit : Nat := 1
  recoveryPolicy : RecoveryPolicy := .failInterrupted
  defaults : AttributeSet := {}
  historyRetention : Option Int := none
  runnableWaitWarning : Int := 10000
  idempotencyKey : Option String := none

structure UpdateQueueRequest where
  queue : QueueSelector
  expectedRevision : Nat
  name : Option String := none
  weight : Option Nat := none
  concurrencyLimit : Option Nat := none
  recoveryPolicy : Option RecoveryPolicy := none
  defaults : Option AttributeSet := none
  historyRetention : Option (Option Int) := none
  runnableWaitWarning : Option Int := none

/-- The stored forms of one keyed request type (`idempotency_codec_priv.cpp`): its canonical
request text, its result text, and their decoders. -/
structure ReplayCodec (Request Result : Type) where
  encodeRequest : Request → Except Error String
  validateRequest : String → Except Error Unit
  encodeResult : Result → Except Error String
  decodeResult : String → Except Error Result

/-! ## Shared checks -/

variable (env : Environment) (amb : Ambient)

/-- Every operation first reports a rejected configuration of the daemon itself. -/
def requireInitialized : Txn Unit :=
  match env.initializationError with
  | none => pure ()
  | some error => fail error

def validateSelector : QueueSelector → Txn Unit
  | .id _ => pure ()
  | .name name => require (env.isValidQueueName name = true) invalidName

def validateIdempotencyKey (key : Option String) : Txn Unit :=
  require ((key.all fun key => env.isValidIdempotencyKey key) = true) invalidIdempotencyKey

/-- `find_queue`. -/
def findQueue (selector : QueueSelector) (includeDeleted : Bool) : Txn (Option Queue) :=
  match selector with
  | .id id => Queues.findById env id includeDeleted
  | .name name => Queues.findByName env name includeDeleted

def validateConfiguration (weight concurrencyLimit : Nat) (historyRetention : Option Int)
    (runnableWaitWarning : Int) : Txn Unit := do
  require (weight ≠ 0) (invalidConfiguration "weight_not_positive")
  require (concurrencyLimit ≠ 0) (invalidConfiguration "concurrency_limit_not_positive")
  require ((historyRetention.all fun seconds => 0 ≤ seconds) = true)
    (invalidConfiguration "negative_history_retention")
  require (0 ≤ runnableWaitWarning) (invalidConfiguration "negative_runnable_wait_warning")

/-- A revision-checked state transition of a queue read in this transaction. -/
def advanceQueue (queue : Queue) (next : QueueState) (now : Int) : Txn Queue := do
  require (queue.revision < maximumRevision) queueRevisionExhausted
  let transitioned ←
    Queues.setState queue.id queue.state next queue.revision (queue.revision + 1) now
  require (transitioned = true) queueStateConflict
  pure { queue with state := next, revision := queue.revision + 1, updatedAt := now }

/-- A transition made under a condition. -/
def advanceQueueIf (condition : Bool) (queue : Queue) (next : QueueState) (now : Int) : Txn Queue :=
  if condition then advanceQueue queue next now else pure queue

/-! ## Operations -/

/-- The queue a request asks for. -/
def newQueue (request : CreateQueueRequest) (id : Uuid) (now : Int) : Queue where
  id := id
  name := request.name
  weight := request.weight
  concurrencyLimit := request.concurrencyLimit
  recoveryPolicy := request.recoveryPolicy
  defaults := request.defaults
  historyRetention := request.historyRetention
  runnableWaitWarning := request.runnableWaitWarning
  createdAt := now
  updatedAt := now

/-- The part of `create_queue_impl` after replay has been ruled out. -/
def createFreshQueue (request : CreateQueueRequest) : Txn Queue := do
  let id ← query (amb.generate 0)
  let queue := newQueue request id amb.utcNow
  let existing ← Queues.findByName env queue.name false
  require (existing.isNone = true) queueNameConflict
  Queues.insert queue
  pure queue

/-- The replay of a keyed request: the stored result of the same request, or a conflict. -/
def replayStored {Request Result : Type} (codec : ReplayCodec Request Result)
    (record : IdempotencyRecord) (canonical : String) (mismatch : Error)
    (isResource : Result → Bool) (resourceMismatch : Error) : Txn Result := do
  lift (codec.validateRequest record.requestJson)
  require (record.requestJson = canonical) mismatch
  let replay ← lift (codec.decodeResult record.resultJson)
  require (isResource replay = true) resourceMismatch
  pure replay

/-- `create_queue_impl`. -/
def createQueue (codec : ReplayCodec CreateQueueRequest Queue) (amb : Ambient)
    (request : CreateQueueRequest) : Txn Queue := transaction amb.fault do
  requireInitialized env
  require (env.isValidQueueName request.name = true) invalidName
  validateConfiguration request.weight request.concurrencyLimit request.historyRetention
    request.runnableWaitWarning
  lift (env.registry.validateQueueDefaults request.defaults)
  validateIdempotencyKey env request.idempotencyKey
  match request.idempotencyKey with
  | none => createFreshQueue env amb request
  | some key => do
    let canonical ← lift (codec.encodeRequest request)
    let record ← Idempotency.find env "queue.create" Uuid.nil key
    match record with
    | some record =>
      replayStored codec record canonical Idempotency.conflict
        (fun queue => queue.id = record.resourceId)
        (Idempotency.invalidRecord "queue_resource_id_mismatch")
    | none => do
      let queue ← createFreshQueue env amb request
      let resultJson ← lift (codec.encodeResult queue)
      Idempotency.insert
        { method := "queue.create", scopeId := Uuid.nil, key, requestJson := canonical, resultJson,
          resourceId := queue.id, createdAt := amb.utcNow }
      pure queue

/-- The checks `update_queue_impl` makes on its request alone. -/
def validateQueueUpdate (request : UpdateQueueRequest) : Txn Unit := do
  require (request.expectedRevision ≠ 0 ∧ request.expectedRevision ≤ maximumRevision)
    (invalidConfiguration "invalid_revision")
  validateSelector env request.queue
  require (request.name.isSome ∨ request.weight.isSome ∨ request.concurrencyLimit.isSome ∨
    request.recoveryPolicy.isSome ∨ request.defaults.isSome ∨ request.historyRetention.isSome ∨
    request.runnableWaitWarning.isSome) (invalidConfiguration "empty_update")
  require ((request.name.all fun name => env.isValidQueueName name) = true) invalidName
  require (request.weight ≠ some 0) (invalidConfiguration "weight_not_positive")
  require (request.concurrencyLimit ≠ some 0) (invalidConfiguration "concurrency_limit_not_positive")
  lift ((request.defaults.map env.registry.validateQueueDefaults).getD (.ok ()))
  require ((request.historyRetention.all fun retention =>
    retention.all fun seconds => 0 ≤ seconds) = true)
    (invalidConfiguration "negative_history_retention")
  require ((request.runnableWaitWarning.all fun warning => 0 ≤ warning) = true)
    (invalidConfiguration "negative_runnable_wait_warning")

/-- The queue with the requested fields replaced. -/
def replacedQueue (queue : Queue) (request : UpdateQueueRequest) (now : Int) : Queue :=
  { queue with
    revision := queue.revision + 1
    name := request.name.getD queue.name
    weight := request.weight.getD queue.weight
    concurrencyLimit := request.concurrencyLimit.getD queue.concurrencyLimit
    recoveryPolicy := request.recoveryPolicy.getD queue.recoveryPolicy
    defaults := request.defaults.getD queue.defaults
    historyRetention := request.historyRetention.getD queue.historyRetention
    runnableWaitWarning := request.runnableWaitWarning.getD queue.runnableWaitWarning
    updatedAt := now }

/-- A new name must not belong to another live queue. -/
def requireNameFree (queue : Queue) (name : Option String) : Txn Unit :=
  match name with
  | none => pure ()
  | some name =>
    if name = queue.name then pure ()
    else do
      let conflict ← Queues.findByName env name false
      require ((conflict.all fun other => other.id = queue.id) = true) queueNameConflict

/-- Why the guarded replacement matched no row. -/
def diagnoseQueueUpdate (id : Uuid) (expectedRevision : Nat) : Txn Unit := do
  let diagnosed ← Queues.findById env id true
  let queue ← demand diagnosed queueNotFound
  require (queue.state ≠ .deleted) queueNotFound
  require (queue.revision = expectedRevision) queueRevisionConflict
  fail queueStateConflict

/-- `update_queue_impl`. -/
def updateQueue (request : UpdateQueueRequest) : Txn Queue :=
  transaction amb.fault do
    requireInitialized env
    validateQueueUpdate env request
    let found ← findQueue env request.queue false
    let queue ← demand found queueNotFound
    require (queue.revision = request.expectedRevision) queueRevisionConflict
    require (queue.revision ≠ maximumRevision) queueRevisionExhausted
    requireNameFree env queue request.name
    let replacement := replacedQueue queue request amb.utcNow
    Telemetry.settleScope amb (.queue replacement.id)
    let replaced ← Queues.replaceMutableFields replacement request.expectedRevision
    if replaced then pure ()
    else diagnoseQueueUpdate env replacement.id request.expectedRevision
    Telemetry.reconcileScope amb (.queue replacement.id)
    pure replacement

/-- `suspend_queue_impl`: the gate is set first; an idle queue passes it at once. -/
def suspendQueue (selector : QueueSelector) : Txn Queue :=
  transaction amb.fault do
    requireInitialized env
    validateSelector env selector
    let found ← findQueue env selector true
    let queue ← demand found queueNotFound
    require (queue.state ≠ .deleted) queueStateConflict
    if queue.state = .suspended then
      pure queue
    else do
      Telemetry.settleScope amb (.queue queue.id)
      let queue ← advanceQueueIf (queue.state = .active) queue .suspending amb.utcNow
      let running ← Runs.countRunningForQueue queue.id
      let queue ← advanceQueueIf (running = 0) queue .suspended amb.utcNow
      Telemetry.reconcileScope amb (.queue queue.id)
      pure queue

/-- `resume_queue_impl`. -/
def resumeQueue (selector : QueueSelector) : Txn Queue :=
  transaction amb.fault do
    requireInitialized env
    validateSelector env selector
    let found ← findQueue env selector true
    let queue ← demand found queueNotFound
    require (queue.state ≠ .deleted) queueStateConflict
    if queue.state = .active then
      pure queue
    else do
      Telemetry.settleScope amb (.queue queue.id)
      let queue ← advanceQueue queue .active amb.utcNow
      Telemetry.reconcileScope amb (.queue queue.id)
      pure queue

/-- The decimal text of an identifier stands for its hexadecimal form in the internal name. -/
def internalName (queue : Queue) : String := queue.name ++ "-deleted#" ++ toString queue.id.value

/-- The checks of `delete_queue_impl`; the value is the queue and the number of its jobs. -/
def findDeletableQueue (selector : QueueSelector) : Txn (Queue × Nat) := do
  let found ← findQueue env selector true
  let queue ← demand found queueNotFound
  require (queue.state ≠ .deleted) queueStateConflict
  require (queue.state = .suspended) queueNotSuspended
  let running ← Runs.countRunningForQueue queue.id
  require (running = 0) queueHasRunningAttempt
  let jobCount ← Queues.countNonDeletedJobs queue.id
  let exhausted ← Jobs.hasExhaustedRevisionInQueue queue.id maximumRevision
  require (exhausted = false) jobRevisionExhausted
  require (queue.revision < maximumRevision) queueRevisionExhausted
  pure (queue, jobCount)

/-- The writes of `delete_queue_impl`: its jobs are deleted and what waits is cancelled. -/
def eraseQueue (queue : Queue) (jobCount : Nat) : Txn Unit := do
  Secrets.eraseReferencesForQueue queue.id
  let deletedJobs ← Jobs.markAllInQueueDeleted queue.id amb.utcNow
  require (deletedJobs = jobCount) (crossTableInvariant "queue_delete_job_count")
  let _ ← Runs.cancelPendingForQueue queue.id amb.utcNow "queue_deleted"
  let deleted ← Queues.markDeleted queue.id (internalName queue) queue.name queue.revision
    (queue.revision + 1) amb.utcNow
  require (deleted = true) queueStateConflict

/-- `delete_queue_impl`. -/
def deleteQueue (selector : QueueSelector) : Txn Unit :=
  transaction amb.fault do
    requireInitialized env
    validateSelector env selector
    let (queue, jobCount) ← findDeletableQueue env selector
    Telemetry.settleScope amb (.queue queue.id)
    eraseQueue amb queue jobCount
    Telemetry.reconcileScope amb (.queue queue.id)

end Management

end Jobu
