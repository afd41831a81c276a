import Jobu.Commits

/-!
# The connection under a management call

`Operation.run` is a transaction by definition.  Here is what makes it one: the connection of
`db/database.cpp` with the native transaction under it, the guard of `db/transaction.cpp` that rolls
back when its scope is left early, and the boundary `ManagementService::Private::invoke` that turns
what happened into an answer.  Everything below the guard may fail: a native statement may be
refused, a commit may be refused or carried out without being acknowledged, a rollback may be
refused, and any statement of the call may fail after any part of its work.

  > `Connection.Settled`: what every call finds and leaves.
  > `guarded_ok`, `guarded_error`: the two outcomes of a guarded scope.
-/

namespace Jobu

open Lib

/-! ## The connection -/

inductive TransactionOwner where
  | none | direct | guarded
deriving DecidableEq, Repr

/-- An open connection.  `durable` is what a reopened connection finds, `native` the tables as the
statements of an open native transaction see them. -/
structure Connection where
  durable : Database
  native : Option Database := none
  owner : TransactionOwner := .none
  token : Nat := 0
  nextToken : Nat := 1
  poisoned : Bool := false
  lastError : Option Error := none

def connectionFailed : Error where
  category := .internal
  code := "db.connection_failed"
  message := "The database connection is unusable after an unrecoverable failure"

def transactionActive : Error where
  category := .conflict
  code := "db.transaction_active"
  message := "The database already has an active transaction"

def transactionOwnerMismatch : Error where
  category := .internal
  code := "db.transaction_owner_mismatch"
  message := "The transaction guard does not own the active transaction"

/-- SQLite refuses to roll back when its transaction is over. -/
def noNativeTransaction : Error where
  category := .internal
  code := "db.sqlite.statement_failed"
  message := "Unable to roll back the SQLite transaction"

/-- What the backend does with `COMMIT`: it carries it out, refuses it with the transaction left
open, or carries it out and loses the acknowledgement. -/
inductive CommitReply where
  | done
  | refused (error : Error)
  | unacknowledged (error : Error)

/-- What the backend answers in one guarded scope. -/
structure Replies where
  begun : Option Error := none
  commit : CommitReply := .done
  rollback : Option Error := none

namespace Connection

def operationError (c : Connection) : Option Error :=
  if c.poisoned then some connectionFailed else none

def failed (c : Connection) (error : Error) : Connection := { c with lastError := some error }

/-- The tables the next statement sees. -/
def view (c : Connection) : Database := c.native.getD c.durable

def written (c : Connection) (db : Database) : Connection := { c with native := some db }

def ownsGuardedTransaction (c : Connection) (token : Nat) : Bool :=
  token ≠ 0 && c.owner = .guarded && c.token = token

/-- The guard at hand does not belong to the open transaction. -/
def mismatched (c : Connection) : Connection :=
  ({ c with owner := .none, token := 0, poisoned := true } : Connection).failed transactionOwnerMismatch

end Connection

/-- The counter of transactions is a 64-bit one that skips zero. -/
def followingToken (token : Nat) : Nat :=
  if (token + 1) % 2 ^ 64 = 0 then 1 else (token + 1) % 2 ^ 64

/-- `begin_guarded_transaction`. -/
def beginGuardedTransaction (reply : Option Error) : Proc Connection Error Nat := fun c =>
  match c.operationError with
  | some error => .error error (c.failed error)
  | none =>
    if c.owner ≠ .none then .error transactionActive (c.failed transactionActive)
    else
      match reply with
      | some error => .error error (c.failed error)
      | none =>
        .ok c.nextToken
          { c with native := some c.durable, owner := .guarded, token := c.nextToken,
                   nextToken := followingToken c.nextToken, lastError := none }

/-- `commit_guarded_transaction`. -/
def commitGuardedTransaction (token : Nat) (reply : CommitReply) : Proc Connection Error Unit := fun c =>
  match c.operationError with
  | some error => .error error (c.failed error)
  | none =>
    if c.ownsGuardedTransaction token = false then .error transactionOwnerMismatch c.mismatched
    else
      match reply with
      | .done =>
        .ok () { c with durable := c.view, native := none, owner := .none, token := 0, lastError := none }
      | .refused error => .error error (c.failed error)
      | .unacknowledged error =>
        .error error (({ c with durable := c.view, native := none } : Connection).failed error)

/-- `rollback_guarded_transaction`. -/
def rollbackGuardedTransaction (token : Nat) (reply : Option Error) : Proc Connection Error Unit :=
  fun c =>
    match c.operationError with
    | some error => .error error (c.failed error)
    | none =>
      if c.ownsGuardedTransaction token = false then .error transactionOwnerMismatch c.mismatched
      else
        -- With no native transaction left the backend refuses by itself.
        match reply.or (if c.native.isSome then none else some noNativeTransaction) with
        | none => .ok () { c with native := none, owner := .none, token := 0, lastError := none }
        | some error =>
          .error error
            (({ c with owner := .none, token := 0, poisoned := true } : Connection).failed error)

/-- `~Transaction`: a guard that is still active rolls back. -/
def unwindGuard (token : Nat) (reply : Option Error) (c : Connection) : Connection :=
  if c.ownsGuardedTransaction token then after (rollbackGuardedTransaction token reply) c else c

/-- A scope with a `Transaction` guard: the statements, then the commit; leaving it early unwinds the
guard. -/
def guarded {α : Type} (replies : Replies) (statements : Txn α) : Proc Connection Error α := fun c =>
  match beginGuardedTransaction replies.begun c with
  | .error error c₁ => .error error c₁
  | .ok token c₁ =>
    match statements c₁.view with
    | .error error db => .error error (unwindGuard token replies.rollback (c₁.written db))
    | .ok a db =>
      match commitGuardedTransaction token replies.commit (c₁.written db) with
      | .error error c₂ => .error error (unwindGuard token replies.rollback c₂)
      | .ok _ c₂ => .ok a c₂

/-! ## The outcomes of a guarded scope -/

/-- No guard is alive, and no native transaction is open unless the connection is unusable. -/
structure Connection.Settled (c : Connection) : Prop where
  owner : c.owner = .none
  native : c.poisoned = false → c.native = none
  nextToken : c.nextToken ≠ 0

/-- A connection in the middle of the scope whose guard has the token. -/
structure Connection.Within (c : Connection) (token : Nat) : Prop where
  owner : c.owner = .guarded
  holds : c.token = token
  positive : token ≠ 0
  healthy : c.poisoned = false
  nextToken : c.nextToken ≠ 0

theorem followingToken_ne_zero (token : Nat) : followingToken token ≠ 0 := by
  unfold followingToken
  split
  · omega
  · assumption

namespace Connection

variable {c : Connection} {token : Nat}

theorem Settled.failed (h : c.Settled) (error : Error) : (c.failed error).Settled :=
  ⟨h.owner, h.native, h.nextToken⟩

theorem Within.written (h : c.Within token) (db : Database) : (c.written db).Within token :=
  ⟨h.owner, h.holds, h.positive, h.healthy, h.nextToken⟩

theorem Within.failed (h : c.Within token) (error : Error) : (c.failed error).Within token :=
  ⟨h.owner, h.holds, h.positive, h.healthy, h.nextToken⟩

theorem Within.owns (h : c.Within token) : c.ownsGuardedTransaction token = true := by
  simp [ownsGuardedTransaction, h.owner, h.holds, h.positive]

theorem Within.operationError (h : c.Within token) : c.operationError = none := by
  simp [Connection.operationError, h.healthy]

end Connection

/-- A transaction begins on the durable tables, or the connection stays as it was. -/
theorem beginGuardedTransaction_cases {c : Connection} (hc : c.Settled) (reply : Option Error) :
    (∃ error, beginGuardedTransaction reply c = .error error (c.failed error)) ∨
      ∃ token c₁, beginGuardedTransaction reply c = .ok token c₁ ∧ c₁.Within token ∧
        c₁.durable = c.durable ∧ c₁.view = c.durable := by
  unfold beginGuardedTransaction
  cases hp : c.poisoned with
  | true =>
    have ho : c.operationError = some connectionFailed := by simp [Connection.operationError, hp]
    rw [ho]
    exact .inl ⟨_, rfl⟩
  | false =>
    have ho : c.operationError = none := by simp [Connection.operationError, hp]
    rw [ho]
    cases reply with
    | some error =>
      left
      refine ⟨error, ?_⟩
      simp [hc.owner]
    | none =>
      right
      refine ⟨c.nextToken, _, if_neg (not_not.2 hc.owner), ?_, rfl, rfl⟩
      exact ⟨rfl, rfl, hc.nextToken, rfl, followingToken_ne_zero _⟩

/-- Unwinding the guard of an unfinished scope changes no durable row. -/
theorem unwindGuard_within {c : Connection} {token : Nat} (hc : c.Within token) (reply : Option Error) :
    (unwindGuard token reply c).durable = c.durable ∧ (unwindGuard token reply c).Settled := by
  unfold unwindGuard
  rw [if_pos hc.owns]
  unfold after rollbackGuardedTransaction
  rw [hc.operationError]
  simp only [hc.owns, Bool.true_eq_false, if_false]
  cases reply.or (if c.native.isSome = true then none else some noNativeTransaction) with
  | none => exact ⟨rfl, rfl, fun _ => rfl, hc.nextToken⟩
  | some => exact ⟨rfl, rfl, (fun h => by cases h), hc.nextToken⟩

/-- When the transaction is over before the guard is, unwinding it makes the connection unusable. -/
theorem unwindGuard_over {c : Connection} {token : Nat} (hc : c.Within token)
    (ho : c.native = none) (reply : Option Error) :
    (unwindGuard token reply c).poisoned = true := by
  unfold unwindGuard
  rw [if_pos hc.owns]
  unfold after rollbackGuardedTransaction
  rw [hc.operationError]
  simp only [hc.owns, Bool.true_eq_false, if_false, ho, Option.isSome_none]
  cases reply with
  | none | some => rfl

/-- A commit makes the statements durable; if it fails, either nothing is durable and the guard is
still active, or everything is and the transaction is over. -/
theorem commitGuardedTransaction_cases {c : Connection} {token : Nat} (hc : c.Within token) (reply : CommitReply) :
    (∃ c₂, commitGuardedTransaction token reply c = .ok () c₂ ∧ c₂.durable = c.view ∧ c₂.Settled ∧
        c₂.poisoned = false) ∨ (∃ error, commitGuardedTransaction token reply c = .error error (c.failed error)) ∨
      ∃ error c₂, reply = .unacknowledged error ∧
        commitGuardedTransaction token reply c = .error error c₂ ∧ c₂.durable = c.view ∧
        c₂.native = none ∧ c₂.Within token := by
  unfold commitGuardedTransaction
  rw [hc.operationError]
  simp only [hc.owns, Bool.true_eq_false, if_false]
  cases reply with
  | done => exact .inl ⟨_, rfl, rfl, ⟨rfl, fun _ => rfl, hc.nextToken⟩, hc.healthy⟩
  | refused error => exact .inr (.inl ⟨error, rfl⟩)
  | unacknowledged error =>
    exact .inr (.inr ⟨error, _, rfl, rfl, rfl, rfl, ⟨hc.owner, hc.holds, hc.positive, hc.healthy, hc.nextToken⟩⟩)

section Scope

variable {α : Type} {replies : Replies} {statements : Txn α} {c c' : Connection}

/-- A scope that returns has made the work of its statements durable. -/
theorem guarded_ok (hc : c.Settled) {a : α} (h : guarded replies statements c = .ok a c') :
    Yields statements c.durable a c'.durable ∧ c'.Settled ∧ c'.poisoned = false := by
  unfold guarded at h
  rcases beginGuardedTransaction_cases hc replies.begun with ⟨error, hb⟩ | ⟨_, _, hb, hw, _, hv⟩
  · rw [hb] at h
    cases h
  simp only [hb, hv] at h
  cases hs : statements c.durable with
  | error =>
    rw [hs] at h
    cases h
  | ok _ db =>
    simp only [hs] at h
    rcases commitGuardedTransaction_cases (hw.written db) replies.commit with
      ⟨c₂, hco, hd, hse, hh⟩ | ⟨error, hco⟩ | ⟨error, c₂, -, hco, -⟩
    · rw [hco] at h
      cases h
      refine ⟨?_, hse, hh⟩
      rw [hd]
      exact hs
    · rw [hco] at h
      cases h
    · rw [hco] at h
      cases h

/-- **A scope that fails has changed no durable row**, unless the backend carried out the commit and
lost the acknowledgement; then all the work is durable and the connection is unusable. -/
theorem guarded_error (hc : c.Settled) {e : Error} (h : guarded replies statements c = .error e c') :
    c'.Settled ∧ (c'.durable = c.durable ∨
      ∃ lost a, replies.commit = .unacknowledged lost ∧ Yields statements c.durable a c'.durable ∧
        c'.poisoned = true) := by
  unfold guarded at h
  rcases beginGuardedTransaction_cases hc replies.begun with ⟨error, hb⟩ | ⟨_, _, hb, hw, hd, hv⟩
  · rw [hb] at h
    cases h
    exact ⟨hc.failed e, .inl rfl⟩
  simp only [hb, hv] at h
  cases hs : statements c.durable with
  | error _ db =>
    rw [hs] at h
    cases h
    obtain ⟨hsa, hse⟩ := unwindGuard_within (hw.written db) replies.rollback
    exact ⟨hse, .inl (hsa.trans hd)⟩
  | ok a db =>
    simp only [hs] at h
    rcases commitGuardedTransaction_cases (hw.written db) replies.commit with
      ⟨c₂, hco, -⟩ | ⟨error, hco⟩ | ⟨error, c₂, hl, hco, hdu, ho, hw2⟩
    · rw [hco] at h
      cases h
    · rw [hco] at h
      cases h
      obtain ⟨hsa, hse⟩ := unwindGuard_within ((hw.written db).failed e) replies.rollback
      exact ⟨hse, .inl (hsa.trans hd)⟩
    rw [hco] at h
    cases h
    obtain ⟨hsa, hse⟩ := unwindGuard_within hw2 replies.rollback
    refine ⟨hse, .inr ⟨e, a, hl, ?_, unwindGuard_over hw2 ho replies.rollback⟩⟩
    rw [hsa, hdu]
    exact hs

end Scope

end Jobu
