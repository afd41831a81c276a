import Mathlib.Data.String.Basic
import Jobu.RetryPolicy
import Jobu.Lib.Table

/-!
# The database and its collaborators

The durable state is one table per entity, each with its primary key.  `Environment` gathers what
the core calls but does not contain: the attribute registry, payload templates, the cron engine,
identifier and document codecs.  What the core relies on is stated as fields of those structures.

Reading a row checks it (`domain_storage_priv.cpp`); `decodeRun_ok` and its siblings say that a
decoded row is the stored row together with those checks.
-/

namespace Jobu

open Lib

/-! ## Tables -/

instance : Keyed Queue Uuid := ⟨Queue.id⟩
instance : Keyed JobDefinition Uuid := ⟨JobDefinition.id⟩
instance : Keyed JobRun Uuid := ⟨JobRun.id⟩
instance : Keyed RunTiming Uuid := ⟨RunTiming.runId⟩
instance : Keyed JobAttempt AttemptKey := ⟨fun a => ⟨a.runId, a.attemptNumber⟩⟩
instance : Keyed AttemptOutput AttemptKey := ⟨fun o => ⟨o.runId, o.attemptNumber⟩⟩

/-- A stored reply to a keyed request. -/
structure IdempotencyRecord where
  method : String
  scopeId : Uuid
  key : String
  requestJson : String
  resultJson : String
  resourceId : Uuid
  createdAt : Int
  expiresAt : Option Int := none

/-- A payload position that names a secret. -/
structure SecretReference where
  secretName : String
  fieldPath : String
deriving DecidableEq, Repr

/-- The durable state.  Secret values are not held: no operation of the core reads them. -/
structure Database where
  queues : Table Queue := Table.empty
  jobs : Table JobDefinition := Table.empty
  runs : Table JobRun := Table.empty
  attempts : Table JobAttempt := Table.empty
  outputs : Table AttemptOutput := Table.empty
  timings : Table RunTiming := Table.empty
  secrets : List String := []
  secretReferences : List (Uuid × SecretReference) := []
  idempotency : List IdempotencyRecord := []

/-- A procedure over the database. -/
abbrev Txn := Proc Database Error

/-! ## Collaborators -/

/-- The attribute registry (`attribute_registry.cpp`, `attribute_codec_priv.cpp`).  A complete
attribute set of a job type carries a readable retry policy. -/
structure AttributeRegistry where
  /-- The values form a document of queue defaults. -/
  validateQueueDefaults : AttributeSet → Except Error Unit
  /-- The values may be set on a job of the type. -/
  validateJobValues : JobType → AttributeSet → Except Error Unit
  /-- Built-in, daemon, queue and job values, from the least to the most specific. -/
  materialize : JobType → AttributeSet → AttributeSet → Except Error AttributeSet
  /-- The values form a complete document of the job type. -/
  serializeMaterialized : JobType → AttributeSet → Except Error Unit
  /-- Drops what does not apply to the job type and assigns the changed values. -/
  applyChanges : JobType → AttributeSet → AttributeSet → AttributeSet
  complete_retry : ∀ type attributes, serializeMaterialized type attributes = .ok () →
    ∃ policy, Retry.policyFromAttributes attributes = .ok policy

namespace AttributeRegistry

/-- Reading a queue accepts what writing it accepted. -/
def areQueueDefaults (registry : AttributeRegistry) (values : AttributeSet) : Bool :=
  (registry.validateQueueDefaults values).isOk

/-- Reading a job or a run accepts what writing it accepted. -/
def isComplete (registry : AttributeRegistry) (type : JobType) (values : AttributeSet) : Bool :=
  (registry.serializeMaterialized type values).isOk

variable {registry : AttributeRegistry} {values : AttributeSet}

theorem areQueueDefaults_iff :
    registry.areQueueDefaults values = true ↔ registry.validateQueueDefaults values = .ok () := by
  unfold areQueueDefaults
  cases h : registry.validateQueueDefaults values with
  | error | ok => simp [Except.isOk, Except.toBool]

theorem isComplete_iff {type : JobType} : registry.isComplete type values = true ↔
      registry.serializeMaterialized type values = .ok () := by
  unfold isComplete
  cases h : registry.serializeMaterialized type values with
  | error | ok => simp [Except.isOk, Except.toBool]

end AttributeRegistry

/-- Payload templates (`payload_template_priv.cpp`, `job_payload_admission_priv.cpp`): what
admission accepts, the decoders accept. -/
structure PayloadTemplates where
  /-- `job_payload_structure_issue`, as its text. -/
  issue : JobType → Json → Option String
  normalizeSubmitted : JobType → Json → Except Error Json
  references : JobType → Json → Except Error (List SecretReference)
  normalized_ok : ∀ type payload normalized,
    normalizeSubmitted type payload = .ok normalized → issue type normalized = none

/-- A cron engine (`cron.hpp`). -/
structure CronEngine where
  validate : String → String → Except Error Unit
  nextAfter : String → String → Int → Except Error Int

structure Environment where
  registry : AttributeRegistry
  payloads : PayloadTemplates
  cron : CronEngine
  defaultTimezone : String
  /-- Set when the daemon's own options were rejected; every management operation then fails. -/
  initializationError : Option Error
  isValidQueueName : String → Bool
  isValidJobName : String → Bool
  isValidIdempotencyKey : String → Bool
  isValidSecretName : String → Bool
  isValidFieldPath : String → Bool

/-- What one operation reads from outside: the wall clock, the telemetry sample if the daemon
measures, the job types that have an executor, the identifier generator, by the position of the
call within the operation, and the storage failure its commit reports, if any.  A generated
identifier carries its version bits, so it is not nil. -/
structure Ambient where
  utcNow : Int
  sample : Option TimingSample
  available : JobType → Bool
  generate : Nat → Database → Except Error Uuid
  generate_ne_nil : ∀ position db id, generate position db = .ok id → id ≠ Uuid.nil
  fault : Option Error := none

/-! ## Decoding rows -/

def storageInvariant (message reason : String) : Error where
  category := .internal
  code := "jobu.storage.invariant"
  message := message
  detail := "reason=" ++ reason

def invalidRun (reason : String) : Error :=
  storageInvariant "Persisted run data violates a JobU invariant" reason

def invalidInteger (field : String) : Error where
  category := .internal
  code := "jobu.storage.invalid_integer"
  message := "Persisted JobU integer is invalid"
  detail := "field=" ++ field ++ " reason=out_of_range"

def invalidAttributes : Error where
  category := .internal
  code := "jobu.storage.invalid_attributes"
  message := "Persisted JobU attributes are invalid"

/-- `valid_started_at`. -/
def validStartedAt (state : RunState) (hasStartedAt : Bool) : Bool :=
  match state with
  | .scheduled => !hasStartedAt
  | .running | .retryWait | .succeeded | .failed | .interrupted => hasStartedAt
  | .cancelled => true

/-- `read_job_run`. -/
def decodeRun (env : Environment) (run : JobRun) : Except Error JobRun := do
  ensure (1 ≤ run.jobRevision ∧ run.jobRevision ≤ maximumRevision)
    (invalidInteger "run_job_revision")
  ensure (env.registry.isComplete run.type run.attributes = true) invalidAttributes
  ensure (env.payloads.issue run.type run.payload = none)
    (invalidRun ((env.payloads.issue run.type run.payload).getD "none"))
  ensure (run.scheduleOwned = true → run.origin = .scheduled) (invalidRun "schedule_owned_origin")
  ensure (run.state.isTerminal = run.completedAt.isSome) (invalidRun "completion_state_mismatch")
  ensure (run.state.isTerminal = false → run.result.isSome = false)
    (invalidRun "non_terminal_result")
  ensure (validStartedAt run.state run.startedAt.isSome = true) (invalidRun "started_state_mismatch")
  pure run

/-- The checks of `read_job_run`. -/
structure RunShape (env : Environment) (run : JobRun) : Prop where
  revision : 1 ≤ run.jobRevision ∧ run.jobRevision ≤ maximumRevision
  attributes : env.registry.isComplete run.type run.attributes = true
  payload : env.payloads.issue run.type run.payload = none
  owned : run.scheduleOwned = true → run.origin = .scheduled
  completed : run.state.isTerminal = run.completedAt.isSome
  result : run.state.isTerminal = false → run.result.isSome = false
  started : validStartedAt run.state run.startedAt.isSome = true

variable {env : Environment}

@[simp] theorem decodeRun_ok {run run' : JobRun} : decodeRun env run = .ok run' ↔ run' = run ∧ RunShape env run := by
  simp only [decodeRun, except_steps]
  constructor
  · rintro ⟨_, h₁, _, h₂, _, h₃, _, h₄, _, h5, _, h6, _, h7, rfl⟩
    exact ⟨rfl, h₁, h₂, h₃, h₄, h5, h6, h7⟩
  · rintro ⟨rfl, h₁, h₂, h₃, h₄, h5, h6, h7⟩
    exact ⟨(), h₁, (), h₂, (), h₃, (), h₄, (), h5, (), h6, (), h7, rfl⟩

def invalidAttempt (reason : String) : Error :=
  storageInvariant "Persisted attempt data violates a JobU invariant" reason

/-- `valid_attempt_state`. -/
def validAttemptState (a : JobAttempt) : Bool :=
  match a.state with
  | .pending => a.startedAt.isNone && a.completedAt.isNone && a.outcome.isNone && a.result.isNone
  | .running => a.startedAt.isSome && a.completedAt.isNone && a.outcome.isNone && a.result.isNone
  | .completed => a.completedAt.isSome && a.outcome.isSome && (a.startedAt.isSome || a.outcome = some .cancelled)

def decodeAttempt (a : JobAttempt) : Except Error JobAttempt := do
  ensure (1 ≤ a.attemptNumber ∧ a.attemptNumber ≤ maximumAttemptNumber)
    (invalidInteger "attempt_number")
  ensure (validAttemptState a = true) (invalidAttempt "state_fields_mismatch")
  pure a

@[simp] theorem decodeAttempt_ok {a a' : JobAttempt} : decodeAttempt a = .ok a' ↔
      a' = a ∧ (1 ≤ a.attemptNumber ∧ a.attemptNumber ≤ maximumAttemptNumber) ∧ validAttemptState a = true := by
  simp only [decodeAttempt, except_steps]
  constructor
  · rintro ⟨_, h₁, _, h₂, rfl⟩
    exact ⟨rfl, h₁, h₂⟩
  · rintro ⟨rfl, h₁, h₂⟩
    exact ⟨(), h₁, (), h₂, rfl⟩

def invalidJob (reason : String) : Error :=
  storageInvariant "Persisted job data violates a JobU invariant" reason

/-- `decode_job`. -/
def decodeJob (env : Environment) (job : JobDefinition) : Except Error JobDefinition := do
  ensure (1 ≤ job.revision ∧ job.revision ≤ maximumRevision) (invalidInteger "job_revision")
  ensure (env.registry.isComplete job.type job.attributes = true) invalidAttributes
  ensure (env.payloads.issue job.type job.payload = none)
    (invalidJob ((env.payloads.issue job.type job.payload).getD "none"))
  ensure ((job.name.all fun name => env.isValidJobName name) = true) (invalidJob "invalid_name")
  ensure (job.state = .deleted ↔ job.deletedAt.isSome = true) (invalidJob "deleted_state_mismatch")
  ensure (job.state.isTerminal = true → job.schedule.isOnce = true)
    (invalidJob "terminal_state_mismatch")
  pure job

/-- The checks of `decode_job`. -/
structure JobShape (env : Environment) (job : JobDefinition) : Prop where
  revision : 1 ≤ job.revision ∧ job.revision ≤ maximumRevision
  attributes : env.registry.isComplete job.type job.attributes = true
  payload : env.payloads.issue job.type job.payload = none
  name : (job.name.all fun name => env.isValidJobName name) = true
  deleted : job.state = .deleted ↔ job.deletedAt.isSome = true
  terminal : job.state.isTerminal = true → job.schedule.isOnce = true

@[simp] theorem decodeJob_ok {job job' : JobDefinition} :
    decodeJob env job = .ok job' ↔ job' = job ∧ JobShape env job := by
  simp only [decodeJob, except_steps]
  constructor
  · rintro ⟨_, h₁, _, h₂, _, h₃, _, h₄, _, h5, _, h6, rfl⟩
    exact ⟨rfl, h₁, h₂, h₃, h₄, h5, h6⟩
  · rintro ⟨rfl, h₁, h₂, h₃, h₄, h5, h6⟩
    exact ⟨(), h₁, (), h₂, (), h₃, (), h₄, (), h5, (), h6, rfl⟩

def invalidQueueRow (reason : String) : Error where
  category := .internal
  code := "jobu.storage.invalid_queue"
  message := "Persisted queue data is invalid"
  detail := "reason=" ++ reason

/-- The name a queue is shown under: a deleted queue keeps its old name in its own column. -/
def Queue.shownName (queue : Queue) : String :=
  if queue.state = .deleted then queue.deletedName.getD "" else queue.name

/-- `decode_queue`. -/
def decodeQueue (env : Environment) (queue : Queue) : Except Error Queue := do
  ensure (1 ≤ queue.revision ∧ queue.revision ≤ maximumRevision) (invalidInteger "queue_revision")
  ensure (env.isValidQueueName queue.shownName = true) (invalidQueueRow "invalid_name")
  ensure (1 ≤ queue.weight) (invalidInteger "queue_weight")
  ensure (1 ≤ queue.concurrencyLimit) (invalidInteger "queue_concurrency_limit")
  ensure (env.registry.areQueueDefaults queue.defaults = true) invalidAttributes
  ensure ((queue.historyRetention.all fun seconds => 0 ≤ seconds) = true)
    (invalidInteger "queue_retention_seconds")
  ensure (0 ≤ queue.runnableWaitWarning) (invalidInteger "queue_runnable_wait_warning_ms")
  ensure (queue.state = .deleted ↔ queue.deletedAt.isSome = true)
    (invalidQueueRow "deleted_state_mismatch")
  pure queue

/-- The checks of `decode_queue`. -/
structure QueueShape (env : Environment) (queue : Queue) : Prop where
  revision : 1 ≤ queue.revision ∧ queue.revision ≤ maximumRevision
  name : env.isValidQueueName queue.shownName = true
  weight : 1 ≤ queue.weight
  limit : 1 ≤ queue.concurrencyLimit
  defaults : env.registry.areQueueDefaults queue.defaults = true
  retention : (queue.historyRetention.all fun seconds => 0 ≤ seconds) = true
  warning : 0 ≤ queue.runnableWaitWarning
  deleted : queue.state = .deleted ↔ queue.deletedAt.isSome = true

@[simp] theorem decodeQueue_ok {queue queue' : Queue} :
    decodeQueue env queue = .ok queue' ↔ queue' = queue ∧ QueueShape env queue := by
  simp only [decodeQueue, except_steps]
  constructor
  · rintro ⟨_, h₁, _, h₂, _, h₃, _, h₄, _, h5, _, h6, _, h7, _, h8, rfl⟩
    exact ⟨rfl, h₁, h₂, h₃, h₄, h5, h6, h7, h8⟩
  · rintro ⟨rfl, h₁, h₂, h₃, h₄, h5, h6, h7, h8⟩
    exact ⟨(), h₁, (), h₂, (), h₃, (), h₄, (), h5, (), h6, (), h7, (), h8, rfl⟩

/-- Decodes the row a lookup found, if any. -/
def decodeFound {α : Type} (decode : α → Except Error α) : Option α → Except Error (Option α)
  | none => .ok none
  | some row => do
    let decoded ← decode row
    pure (some decoded)

theorem decodeFound_some {α : Type} {decode : α → Except Error α} {row? : Option α} {row : α} :
    decodeFound decode row? = .ok (some row) ↔ ∃ r, row? = some r ∧ decode r = .ok row := by
  cases row? with
  | none => simp [decodeFound]
  | some => simp only [decodeFound, except_steps, Option.some.injEq, exists_eq_right', exists_eq_left']

@[simp] theorem decodeFound_none {α : Type} {decode : α → Except Error α} {row? : Option α} :
    decodeFound decode row? = .ok none ↔ row? = none := by
  cases row? with
  | none => simp [decodeFound]
  | some => simp only [decodeFound, except_steps, reduceCtorEq, and_false, exists_false]

end Jobu
