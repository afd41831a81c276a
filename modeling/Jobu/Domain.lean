import Mathlib.Algebra.Group.Nat.Defs
import Mathlib.Data.Prod.Lex
import Mathlib.Data.Rat.Defs
import Mathlib.Algebra.Order.Ring.Unbundled.Rat
import Mathlib.Order.RelClasses

/-!
# Domain types

The values of the JobU domain as the headers declare them: identifiers, instants, queues, job
definitions, runs and attempts, with the state enumerations.  Identifiers are 128-bit words
ordered as SQLite orders their bytes, which is the order of every keyset scan.  An instant is a
count of nanoseconds since the Unix epoch; a stored instant is its floor to microseconds (`storedTime`).  JSON values
are represented by their serialised text, which is what the database holds.
-/

namespace Jobu

/-! ## Errors -/

inductive ErrorCategory where
  | invalidArgument | notFound | conflict | permissionDenied | unavailable | resourceExhausted
  | cancelled | timeout | io | unsupported | internal
deriving DecidableEq, Repr

/-- A failure as the callers of the core see it: program decisions use `code`. -/
structure Error where
  category : ErrorCategory
  code : String
  message : String := ""
  detail : String := ""
deriving DecidableEq, Repr

/-! ## Identifiers and instants -/

structure Uuid where
  value : Nat
  bound : value < 2 ^ 128
deriving DecidableEq, Repr

namespace Uuid

theorem value_injective : Function.Injective Uuid.value := by
  rintro ⟨a, _⟩ ⟨b, _⟩ rfl
  rfl

instance : LinearOrder Uuid where
  toPartialOrder := PartialOrder.lift Uuid.value value_injective
  le_total a b := Nat.le_total a.value b.value
  toDecidableLE a b := inferInstanceAs (Decidable (a.value ≤ b.value))
  toDecidableEq := inferInstance

/-- The nil identifier, which a run timing never carries as its epoch. -/
def nil : Uuid := ⟨0, by decide⟩

end Uuid

/-- `UtcTimePoint::min` and `max`: a signed 64-bit count of nanoseconds. -/
def minTime : Int := -(2 ^ 63)

def maxTime : Int := 2 ^ 63 - 1

/-- `timestamp_to_storage` followed by `read_timestamp`: columns hold whole microseconds. -/
def storedTime (t : Int) : Int := t / 1000 * 1000

@[simp] theorem storedTime_storedTime (t : Int) : storedTime (storedTime t) = storedTime t := by
  unfold storedTime
  omega

/-- Revisions are stored as positive signed 64-bit integers. -/
def maximumRevision : Nat := 2 ^ 63 - 1

def maximumAttemptNumber : Nat := 2 ^ 63 - 1

/-! ## Documents and attributes -/

/-- A JSON value, by its serialised text. -/
structure Json where
  text : String
deriving DecidableEq, Repr

inductive AttributeValue where
  | boolean (value : Bool)
  | integer (value : Int)
  | number (value : Rat)
  | text (value : String)
  | duration (value : Int)
  | bytes (value : List UInt8)
  | list (items : List AttributeValue)
  | map (entries : List (String × AttributeValue))

/-- Attribute names with their values. -/
structure AttributeSet where
  entries : List (String × AttributeValue) := []

def AttributeSet.find (attributes : AttributeSet) (name : String) : Option AttributeValue :=
  attributes.entries.lookup name

/-! ## Queues -/

inductive QueueState where
  | active | suspending | suspended | deleted
deriving DecidableEq, Repr

inductive RecoveryPolicy where
  | failInterrupted | retryInterrupted
deriving DecidableEq, Repr

/-- A queue row.  `deletedName` is the name a deleted queue was known by; its `name` column then
holds an internal text that frees the old name. -/
structure Queue where
  id : Uuid
  revision : Nat := 1
  name : String
  deletedName : Option String := none
  state : QueueState := .active
  weight : Nat := 1
  concurrencyLimit : Nat := 1
  recoveryPolicy : RecoveryPolicy := .failInterrupted
  defaults : AttributeSet := {}
  historyRetention : Option Int := none
  runnableWaitWarning : Int := 10000
  createdAt : Int
  updatedAt : Int
  deletedAt : Option Int := none

/-! ## Job definitions -/

inductive JobState where
  | active | suspending | suspended | deleted | succeeded | failed | cancelled
deriving DecidableEq, Repr

/-- `is_terminal_job_state`. -/
def JobState.isTerminal : JobState → Bool
  | .succeeded | .failed | .cancelled => true
  | .active | .suspending | .suspended | .deleted => false

inductive JobType where
  | cli | http
deriving DecidableEq, Repr

inductive JobSchedule where
  | once (plannedAt : Int)
  | cron (expression timezone : String)
deriving DecidableEq, Repr

/-- The schedule is one-time. -/
def JobSchedule.isOnce : JobSchedule → Bool
  | .once _ => true
  | .cron .. => false

structure JobDefinition where
  id : Uuid
  queueId : Uuid
  revision : Nat := 1
  name : Option String := none
  state : JobState := .active
  type : JobType := .cli
  schedule : JobSchedule
  priority : Int := 0
  attributes : AttributeSet := {}
  payload : Json
  createdAt : Int
  updatedAt : Int
  deletedAt : Option Int := none

/-! ## Runs -/

inductive RunOrigin where
  | scheduled | manual | submitted
deriving DecidableEq, Repr

inductive RunState where
  | scheduled | running | retryWait | succeeded | failed | interrupted | cancelled
deriving DecidableEq, Repr

/-- `is_terminal`. -/
def RunState.isTerminal : RunState → Bool
  | .succeeded | .failed | .interrupted | .cancelled => true
  | .scheduled | .running | .retryWait => false

/-- Waiting for an attempt: `scheduled` or `retry_wait`. -/
def RunState.isPending : RunState → Bool
  | .scheduled | .retryWait => true
  | .running | .succeeded | .failed | .interrupted | .cancelled => false

theorem RunState.not_isPending_of_isTerminal {state : RunState} (h : state.isTerminal = true) :
    state.isPending = false := by
  cases state <;> first | rfl | cases h

structure JobRun where
  id : Uuid
  jobId : Uuid
  jobRevision : Nat := 1
  queueId : Uuid
  origin : RunOrigin := .scheduled
  scheduleOwned : Bool := true
  plannedAt : Int
  runnableAt : Int
  startedAt : Option Int := none
  completedAt : Option Int := none
  type : JobType := .cli
  priority : Int := 0
  attributes : AttributeSet := {}
  payload : Json
  state : RunState := .scheduled
  result : Option Json := none

namespace JobRun

/-- The run is in state `scheduled`, `running` or `retry_wait`. -/
def isLive (run : JobRun) : Bool := !run.state.isTerminal

/-- A live run that the schedule of its job owns. -/
def isLiveOwned (run : JobRun) : Bool := run.isLive && run.scheduleOwned

/-- A live run created by Run Now. -/
def isLiveManual (run : JobRun) : Bool := run.isLive && run.origin = .manual

end JobRun

/-! ## Attempts -/

inductive AttemptState where
  | pending | running | completed
deriving DecidableEq, Repr

inductive AttemptOutcome where
  | succeeded | failed | interrupted | cancelled
deriving DecidableEq, Repr

/-- The key of an attempt, ordered by run and then by number. -/
structure AttemptKey where
  runId : Uuid
  attemptNumber : Nat
deriving DecidableEq, Repr

namespace AttemptKey

theorem toLex_injective : Function.Injective fun k : AttemptKey => toLex (k.runId, k.attemptNumber) := by
  rintro ⟨a, m⟩ ⟨b, n⟩ h
  cases h
  rfl

instance : LinearOrder AttemptKey where
  toPartialOrder := PartialOrder.lift _ toLex_injective
  le_total a b := le_total (toLex (a.runId, a.attemptNumber)) (toLex (b.runId, b.attemptNumber))
  toDecidableLE a b := inferInstanceAs
    (Decidable (toLex (a.runId, a.attemptNumber) ≤ toLex (b.runId, b.attemptNumber)))
  toDecidableEq := inferInstance

theorem lt_iff {a b : AttemptKey} : a < b ↔ a.runId < b.runId ∨ a.runId = b.runId ∧ a.attemptNumber < b.attemptNumber :=
  Prod.Lex.toLex_lt_toLex

end AttemptKey

structure JobAttempt where
  runId : Uuid
  attemptNumber : Nat := 1
  dueAt : Int
  startedAt : Option Int := none
  completedAt : Option Int := none
  state : AttemptState := .pending
  outcome : Option AttemptOutcome := none
  result : Option Json := none

/-- The captured output of a completed attempt. -/
structure AttemptOutput where
  runId : Uuid
  attemptNumber : Nat
  stdout : Option (List UInt8) := none
  stderr : Option (List UInt8) := none
  stdoutTruncated : Bool := false
  stderrTruncated : Bool := false
  captureLost : Bool := false
deriving DecidableEq, Repr

/-! ## Runnable-wait timing -/

inductive MeasurementStatus where
  | complete | partly | unmeasured
deriving DecidableEq, Repr

/-- A reading of the monotonic clock of one daemon lifetime. -/
structure TimingSample where
  epoch : Uuid
  tick : Int
deriving DecidableEq, Repr

/-- The wait of one run.  An open interval is an epoch with the tick it started at, so the two
columns are both set or both null. -/
structure RunTiming where
  runId : Uuid
  runnableWait : Nat := 0
  status : MeasurementStatus
  openInterval : Option TimingSample := none
  delayWarned : Bool := false
deriving DecidableEq, Repr

end Jobu
