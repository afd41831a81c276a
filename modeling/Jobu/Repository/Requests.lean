import Jobu.Database

/-!
# Stored replies and secret references

`idempotency_repository_priv.cpp` and the reference index of `secret_repository_priv.cpp`: the two
tables a request touches beside its own entity.
-/

namespace Jobu

open Lib

namespace Idempotency

def invalidRecord (reason : String) : Error where
  category := .internal
  code := "jobu.idempotency.invalid_record"
  message := "Stored idempotency data is invalid"
  detail := "reason=" ++ reason

def conflict : Error where
  category := .conflict
  code := "jobu.idempotency.conflict"
  message := "The idempotency key was already used for a different request"

/-- The primary key of a record. -/
def matchesKey (method : String) (scopeId : Uuid) (key : String) (record : IdempotencyRecord) : Bool :=
  record.method = method && record.scopeId = scopeId && record.key = key

/-- `decode_record`. -/
def decodeRecord (env : Environment) (record : IdempotencyRecord) : Except Error IdempotencyRecord := do
  ensure (record.method ≠ "" ∧ env.isValidIdempotencyKey record.key = true ∧
    record.requestJson ≠ "" ∧ record.resultJson ≠ "") (invalidRecord "invalid_text_field")
  pure record

/-- `IdempotencyRepository::find`. -/
def find (env : Environment) (method : String) (scopeId : Uuid) (key : String) : Txn (Option IdempotencyRecord) :=
  query fun db => decodeFound (decodeRecord env) (db.idempotency.find? (matchesKey method scopeId key))

/-- `IdempotencyRepository::insert`. -/
def insert (record : IdempotencyRecord) : Txn Unit := do
  let existing ← look fun db =>
    db.idempotency.find? (matchesKey record.method record.scopeId record.key)
  require (existing.isNone = true) conflict
  write fun db =>
    { db with
      idempotency := { record with createdAt := storedTime record.createdAt } :: db.idempotency }

end Idempotency

namespace Secrets

def invalidLimit : Error where
  category := .invalidArgument
  code := "jobu.storage.invalid_limit"
  message := "Repository limit is outside its supported range"

def invalidName : Error where
  category := .invalidArgument
  code := "jobu.secret.invalid_name"
  message := "Secret name must be a canonical identifier of at most 128 bytes"

def notFound : Error where
  category := .notFound
  code := "jobu.secret.not_found"
  message := "Secret was not found"

def invalidReference : Error where
  category := .internal
  code := "jobu.storage.invariant"
  message := "Persisted secret data violates a JobU invariant"
  detail := "reason=invalid_secret_reference"

def maximumReferences : Nat := 256

/-- `require_existing_references`. -/
def requireExistingReferences (env : Environment) (references : List SecretReference) : Txn Unit := do
  require (references.length ≤ maximumReferences) invalidLimit
  let stored ← look fun db => db.secrets
  forM references fun reference => do
    require (env.isValidSecretName reference.secretName = true) invalidName
    require (reference.secretName ∈ stored) notFound

/-- `replace_references_for_job`. -/
def replaceReferencesForJob (env : Environment) (jobId : Uuid) (references : List SecretReference) : Txn Unit := do
  require (references.length ≤ maximumReferences) invalidLimit
  require (references.Nodup ∧ (references.all fun reference =>
    env.isValidSecretName reference.secretName && env.isValidFieldPath reference.fieldPath) = true)
    invalidReference
  write fun db =>
    { db with
      secretReferences := db.secretReferences.filter (fun entry => entry.1 ≠ jobId) ++
        references.map fun reference => (jobId, reference) }

/-- `erase_references_for_queue`. -/
def eraseReferencesForQueue (queueId : Uuid) : Txn Unit :=
  write fun db =>
    { db with
      secretReferences := db.secretReferences.filter fun entry =>
        !((db.jobs.find? entry.1).any fun job => job.queueId = queueId && job.state ≠ .deleted) }

end Secrets

end Jobu
