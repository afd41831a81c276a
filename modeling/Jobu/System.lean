import Mathlib.Logic.Relation
import Jobu.Management.Job
import Jobu.Recovery.Startup
import Jobu.Scheduler.Core

/-!
# The daemon as a transition system

One step is one committed (or failed) transaction with the change of memory that goes with it, one
call to the executor, or a crash.  Management operations, completions and cancellations may come at
any moment, also between the dispatches of one cycle, where observers call back into the daemon.
Only between the commit of a dispatch and the call to the executor nothing intervenes but a crash.

`starts` and `completions` are history: the executor calls made and the completions accepted so far,
over all lifetimes of the daemon.
-/

namespace Jobu

open Lib Scheduler

/-! ## What is deployed -/

/-- The stored forms of the three keyed requests. -/
structure Codecs where
  createQueue : Management.ReplayCodec Management.CreateQueueRequest Queue
  createJob : Management.ReplayCodec (Management.CreateJobRequest × Uuid) JobDefinition
  runNow : Management.ReplayCodec Management.RunNowRequest JobRun

/-- One installation: its collaborators, its options, and which errors count as storage failures. -/
structure Deployment where
  env : Environment
  codecs : Codecs
  options : Options
  isFatal : Error → Bool

/-- The management operations. -/
inductive Operation where
  | createQueue (request : Management.CreateQueueRequest)
  | updateQueue (request : Management.UpdateQueueRequest)
  | suspendQueue (selector : Management.QueueSelector)
  | resumeQueue (selector : Management.QueueSelector)
  | deleteQueue (selector : Management.QueueSelector)
  | createJob (request : Management.CreateJobRequest)
  | runNow (request : Management.RunNowRequest)
  | updateJob (request : Management.UpdateJobRequest)
  | suspendJob (id : Uuid)
  | resumeJob (id : Uuid)
  | moveJob (request : Management.MoveJobRequest)
  | deleteJob (request : Management.DeleteJobRequest)

/-- The transaction of a management operation. -/
def Operation.run (d : Deployment) (amb : Ambient) : Operation → Txn Unit
  | .createQueue request => do let _ ← Management.createQueue d.env d.codecs.createQueue amb request
  | .updateQueue request => do let _ ← Management.updateQueue d.env amb request
  | .suspendQueue selector => do let _ ← Management.suspendQueue d.env amb selector
  | .resumeQueue selector => do let _ ← Management.resumeQueue d.env amb selector
  | .deleteQueue selector => Management.deleteQueue d.env amb selector
  | .createJob request => do let _ ← Management.createJob d.env d.codecs.createJob amb request
  | .runNow request => do let _ ← Management.runNow d.env d.codecs.runNow amb request
  | .updateJob request => do let _ ← Management.updateJob d.env amb request
  | .suspendJob id => do let _ ← Management.suspendJob d.env amb id
  | .resumeJob id => do let _ ← Management.resumeJob d.env amb id
  | .moveJob request => do let _ ← Management.moveJob d.env amb request
  | .deleteJob request => Management.deleteJob d.env amb request

/-! ## States -/

/-- Where the daemon is: not running, between transactions, between the commit of a dispatch and the
executor, or before the completion of a start that failed. -/
inductive Phase where
  | down
  | idle
  | claimed (claim : Claim) (slotOccupied : Bool)
  | rejected (claim : Claim) (error : Error)

/-- Callers may enter. -/
def Phase.isOpen : Phase → Bool
  | .idle | .rejected .. => true
  | .down | .claimed .. => false

structure System where
  node : Node
  phase : Phase
  starts : List AttemptKey := []
  completions : List AttemptKey := []

namespace System

/-- The state before the first start: an empty database. -/
def initial : System where
  node := { db := {}, memory := {} }
  phase := .down

def withDatabase (s : System) (db : Database) : System := { s with node := { s.node with db } }

def withNode (s : System) (node : Node) : System := { s with node }

def withMemory (s : System) (memory : Memory) : System :=
  { s with node := { s.node with memory } }

end System

/-! ## Steps -/

/-- `terminal_start_failure`. -/
def terminalStartFailure (key : AttemptKey) (error : Error) : AttemptCompletion where
  key := key
  outcome := .failed
  failureDisposition := some .terminal
  result := ⟨"\x7b\"error_code\":\"" ++ error.code ++ "\",\"message\":\"" ++ error.message ++ "\"\x7d"⟩

/-- The memory after a start: the attempt is owned and counted.  An attempt of the run that is
already owned would be corruption and closes the core. -/
def recordedStart (memory : Memory) (claim : Claim) (slotOccupied : Bool) : Memory :=
  if (memory.active claim.key.runId).isSome then memory.shutdown
  else updateCapacity (fun capacity => capacity.recordStart claim.type claim.queueId slotOccupied)
    (memory.own claim.key)

/-- The memory after the completion of a failed start. -/
def recordedCompletion (memory : Memory) (claim : Claim) (effect : CompletionEffect) : Memory :=
  match memory.cycle with
  | none => memory
  | some cycle =>
    match cycle.capacity.recordCompletion claim.type claim.queueId effect.queueSlotRetained with
    | .ok capacity => { memory with cycle := some { cycle with capacity } }
    | .error _ => memory.shutdown

variable (d : Deployment)

/-- A dispatch of a cycle commits. -/
structure Dispatches (s : System) (claim : Claim) (slotOccupied : Bool) (s' : System) : Prop where
  intro ::
  idle : s.phase = .idle
  running : s.node.memory.terminal = false
  /-- The visit that led here: the type has capacity and the cycle offers the run. -/
  offered : ∃ cycle queueId, s.node.memory.cycle = some cycle ∧
    cycle.capacity.runningFor claim.type < d.options.limitFor claim.type ∧
    cycle.offers claim.type queueId claim.key.runId slotOccupied = true
  commits : ∃ amb prepare db', Yields (claimSelected d.env amb prepare claim.key.runId) s.node.db
    (some claim) db' ∧ s' = { s.withDatabase db' with phase := .claimed claim slotOccupied }

/-- `cancel_run` returns. -/
structure Cancels (s : System) (runId : Uuid) (disposition : CancelDisposition) (s' : System) : Prop where
  intro ::
  enabled : s.phase.isOpen = true
  returns : ∃ amb executorCancel node', Yields
    (cancelRun d.env amb d.isFatal runId executorCancel) s.node disposition node' ∧ s' = s.withNode node'

/-- A completion is accepted. -/
structure Completes (s : System) (runId : Uuid) (completion : AttemptCompletion) (s' : System) : Prop where
  intro ::
  enabled : s.phase.isOpen = true
  returns : ∃ amb effect node', Yields
    (deliverCompletion d.env amb runId completion) s.node (some effect) node' ∧
    s' = { s.withNode node' with completions := s.completions ++ [completion.key] }

/-- One step of the daemon and of those who call it. -/
inductive Step : System → System → Prop
  /-- A management operation, committed or not. -/
  | manage (s : System) (amb : Ambient) (op : Operation)
    (enabled : ∀ claim slot, s.phase ≠ .claimed claim slot) :
    Step s (s.withDatabase (after (op.run d amb) s.node.db))
  /-- One page of the backlog observation; a failure closes the core. -/
  | observe (s : System) (amb : Ambient) (position : Option Uuid) (enabled : s.phase.isOpen = true) :
    Step s (s.withNode (after
      (latching (durable (transaction amb.fault (Telemetry.observePage amb position)))) s.node))
  /-- One page of a telemetry checkpoint or stop. -/
  | account (s : System) (sample : TimingSample) (batchSize : Nat) (position : Option Uuid)
    (close : Bool) (fault : Option Error) (enabled : s.phase.isOpen = true) :
    Step s (s.withDatabase (after (transaction fault
      (Telemetry.accountingPage sample batchSize position close)) s.node.db))
  /-- The daemon starts, or its stopped scheduler starts again: nothing durable may be running. -/
  | boot (s : System) (enabled : s.phase = .down ∨ s.phase = .idle)
    (running : s.node.memory.terminal = false)
    (clean : Yields hasAnyRunningState s.node.db false s.node.db) :
    Step s { s.withMemory {} with phase := .idle }
  /-- An owner shuts the scheduler down for good. -/
  | shutdown (s : System) (enabled : s.phase.isOpen = true) :
    Step s (s.withMemory s.node.memory.shutdown)
  /-- The process dies; only the database is left. -/
  | crash (s : System) : Step s { s.withMemory {} with phase := .down }
  /-- A startup recovery, whole or cut off after some of its units. -/
  | recover (s : System) (inputs : Recovery.Inputs) (enabled : s.phase = .down) :
    Step s (s.withDatabase
      (after (Recovery.recoverStartup d.env inputs) { db := s.node.db }).db)
  /-- A cycle reads its queues, barriers and capacity. -/
  | beginCycle (s : System) (now : Int) (enabled : s.phase = .idle)
    (running : s.node.memory.terminal = false) :
    Step s (s.withNode (after (beginCycle d.env d.options now) s.node))
  /-- A cycle reads the candidates of a queue. -/
  | loadCandidates (s : System) (queueId : Uuid) (type : JobType) (enabled : s.phase = .idle)
    (running : s.node.memory.terminal = false) :
    Step s (s.withNode (after (loadCandidates d.env d.options queueId type) s.node))
  | endCycle (s : System) (enabled : s.phase = .idle) :
    Step s (s.withMemory { s.node.memory with cycle := none })
  | dispatch (s s' : System) (claim : Claim) (slotOccupied : Bool)
    (dispatches : Dispatches d s claim slotOccupied s') : Step s s'
  /-- A dispatch fails, which closes the core. -/
  | dispatchFails (s : System) (enabled : s.phase = .idle) :
    Step s (s.withMemory s.node.memory.shutdown)
  /-- The payload could not be prepared, so the executor is not called. -/
  | unprepared (s : System) (claim : Claim) (slotOccupied : Bool) (error : Error)
    (enabled : s.phase = .claimed claim slotOccupied)
    (failure : claim.preparationFailure = some error) :
    Step s { s.withMemory (recordedStart s.node.memory claim slotOccupied) with
      phase := .rejected claim error }
  /-- The executor is called and takes the attempt. -/
  | startAccepted (s : System) (claim : Claim) (slotOccupied : Bool)
    (enabled : s.phase = .claimed claim slotOccupied) (ready : claim.preparationFailure = none) :
    Step s { s.withMemory (recordedStart s.node.memory claim slotOccupied) with
      phase := .idle, starts := s.starts ++ [claim.key] }
  /-- The executor is called and refuses the attempt. -/
  | startRefused (s : System) (claim : Claim) (slotOccupied : Bool) (error : Error)
    (enabled : s.phase = .claimed claim slotOccupied) (ready : claim.preparationFailure = none) :
    Step s { s.withMemory (recordedStart s.node.memory claim slotOccupied) with
      phase := .rejected claim error, starts := s.starts ++ [claim.key] }
  /-- The executor is called and breaks: the committed attempt stays as it is. -/
  | startBroken (s : System) (claim : Claim) (slotOccupied : Bool)
    (enabled : s.phase = .claimed claim slotOccupied) (ready : claim.preparationFailure = none) :
    Step s { s.withMemory s.node.memory.shutdown with
      phase := .idle, starts := s.starts ++ [claim.key] }
  /-- The completion of a failed start is accepted. -/
  | settleStart (s : System) (claim : Claim) (error : Error) (amb : Ambient)
    (effect : CompletionEffect) (node' : Node) (enabled : s.phase = .rejected claim error)
    (accepted : Yields (deliverCompletion d.env amb claim.key.runId
      (terminalStartFailure claim.key error)) s.node (some effect) node') :
    Step s
      { s.withNode { node' with memory := recordedCompletion node'.memory claim effect } with
        phase := .idle, completions := s.completions ++ [claim.key] }
  /-- The completion of a failed start is not accepted, or the core has closed. -/
  | settleStartFails (s : System) (claim : Claim) (error : Error) (amb : Ambient)
    (enabled : s.phase = .rejected claim error)
    (refused : ∀ effect node', ¬ Yields (deliverCompletion d.env amb claim.key.runId
      (terminalStartFailure claim.key error)) s.node (some effect) node') :
    Step s { s.withNode (after (deliverCompletion d.env amb claim.key.runId
      (terminalStartFailure claim.key error)) s.node) with phase := .idle }
  | complete (s s' : System) (runId : Uuid) (completion : AttemptCompletion)
    (completes : Completes d s runId completion s') : Step s s'
  /-- A completion is rejected, fails, or comes after the core has closed. -/
  | completeFails (s : System) (amb : Ambient) (runId : Uuid) (completion : AttemptCompletion)
    (enabled : s.phase.isOpen = true)
    (refused : ∀ effect node', ¬ Yields (deliverCompletion d.env amb runId completion) s.node
      (some effect) node') :
    Step s (s.withNode (after (deliverCompletion d.env amb runId completion) s.node))
  | cancel (s s' : System) (runId : Uuid) (disposition : CancelDisposition)
    (cancels : Cancels d s runId disposition s') : Step s s'
  /-- `cancel_run` returns an error. -/
  | cancelFails (s : System) (amb : Ambient) (runId : Uuid) (executorCancel : Except Error Unit)
    (enabled : s.phase.isOpen = true)
    (refused : ∀ disposition node', ¬ Yields
      (cancelRun d.env amb d.isFatal runId executorCancel) s.node disposition node') :
    Step s (s.withNode (after (cancelRun d.env amb d.isFatal runId executorCancel) s.node))

/-- Any finite run of the daemon. -/
def Steps : System → System → Prop := Relation.ReflTransGen (Step d)

/-- The states of every run that starts with an empty database. -/
def Reachable (s : System) : Prop := Steps d System.initial s

end Jobu
