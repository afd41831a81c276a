import Jobu.Database
import Jobu.Lib.Statement

/-!
# Queue and job repositories

`queue_repository_priv.cpp` and `job_repository_priv.cpp`: lookups decode what they find, and every
write is one guarded statement whose predicates fence stale writers.  A statement returns whether
it affected its row; the specification of each says which row that was.
-/

namespace Jobu

open Lib

variable {env : Environment} {includeDeleted b : Bool} {queue : Queue} {db db' : Database}
  {expectedRevision nextRevision : Nat} {updatedAt deletedAt : Int}

def uniqueViolation : Error where
  category := .conflict
  code := "db.constraint.unique"

def foreignKeyViolation : Error where
  category := .conflict
  code := "db.constraint.foreign_key"

def queueTable : Component Database (Table Queue) where
  get db := db.queues
  set db t := { db with queues := t }

def jobTable : Component Database (Table JobDefinition) where
  get db := db.jobs
  set db t := { db with jobs := t }

namespace Queues

def nameConflict : Error where
  category := .conflict
  code := "jobu.queue.name_conflict"
  message := "A queue with that name already exists"

def ambiguousDeletedName : Error where
  category := .conflict
  code := "jobu.queue.ambiguous_deleted_name"
  message := "The deleted queue name is ambiguous; select the queue by ID"

/-- `find_by_id`. -/
def findById (env : Environment) (id : Uuid) (includeDeleted : Bool) : Txn (Option Queue) :=
  query fun db => decodeFound (decodeQueue env)
    ((db.queues.find? id).filter fun queue => includeDeleted || queue.state ≠ .deleted)

variable {id : Uuid}

theorem yields_findById_some :
    Yields (findById env id includeDeleted) db (some queue) db' ↔ db' = db ∧ queue ∈ db.queues ∧
      queue.id = id ∧ (includeDeleted = true ∨ queue.state ≠ .deleted) ∧ QueueShape env queue := by
  simp only [findById, yields_query, decodeFound_some, decodeQueue_ok, Option.filter_eq_some_iff, Table.find?_eq_some, bool_steps]
  constructor
  · rintro ⟨⟨_, ⟨⟨hq, hi⟩, hd⟩, rfl, hs⟩, rfl⟩
    exact ⟨rfl, hq, hi, hd, hs⟩
  · rintro ⟨rfl, hq, hi, hd, hs⟩
    exact ⟨⟨queue, ⟨⟨hq, hi⟩, hd⟩, rfl, hs⟩, rfl⟩

/-- `find_by_name`: a live queue first, and one deleted queue only when it is the only one. -/
def findByName (env : Environment) (name : String) (includeDeleted : Bool) : Txn (Option Queue) :=
  query fun db =>
    match db.queues.select fun queue => queue.state ≠ .deleted && queue.name = name with
    | queue :: _ => decodeFound (decodeQueue env) (some queue)
    | [] =>
      if includeDeleted then
        match db.queues.select fun queue =>
            queue.state = .deleted && queue.deletedName = some name with
        | [] => .ok none
        | [queue] => decodeFound (decodeQueue env) (some queue)
        | _ :: _ :: _ => .error ambiguousDeletedName
      else .ok none

variable {name : String}

theorem yields_findByName_some (h : Yields (findByName env name includeDeleted) db (some queue) db') : db' = db ∧
      queue ∈ db.queues ∧ (includeDeleted = true ∨ queue.state ≠ .deleted) ∧ QueueShape env queue := by
  obtain ⟨h, rfl⟩ := (yields_query _ _ _ _).1 h
  split at h
  next row _ hse =>
    obtain ⟨_, hr, hd⟩ := decodeFound_some.1 h
    cases hr
    obtain ⟨rfl, hs⟩ := decodeQueue_ok.1 hd
    obtain ⟨hq, hp⟩ := Table.mem_select.1 (hse ▸ List.mem_cons_self : queue ∈ db'.queues.select _)
    simp only [bool_steps] at hp
    exact ⟨rfl, hq, .inr hp.1, hs⟩
  · split at h
    next hi =>
      split at h
      · cases h
      next _ hse =>
        obtain ⟨_, hr, hd⟩ := decodeFound_some.1 h
        cases hr
        obtain ⟨rfl, hs⟩ := decodeQueue_ok.1 hd
        obtain ⟨hq, -⟩ := Table.mem_select.1 (hse ▸ List.mem_cons_self : queue ∈ db'.queues.select _)
        exact ⟨rfl, hq, .inl hi, hs⟩
      · cases h
    · cases h

theorem yields_findByName {found : Option Queue}
    (h : Yields (findByName env name includeDeleted) db found db') : db' = db :=
  ((yields_query _ _ _ _).1 h).2

/-- The stored form of a new queue. -/
def stored (queue : Queue) : Queue :=
  { queue with createdAt := storedTime queue.createdAt, updatedAt := storedTime queue.updatedAt }

/-- `insert`; the name column is unique. -/
def insert (queue : Queue) : Txn Unit := do
  let named ← look fun db => db.queues.count fun other => other.name = queue.name
  require (named = 0) nameConflict
  insertRow queueTable (stored queue) nameConflict

theorem yields_insert {u : Unit} (h : Yields (insert queue) db u db') : db.queues.find? queue.id = none ∧
      db' = { db with queues := db.queues.insert (stored queue) } := by
  simp only [insert, yields_steps, yields_insertRow] at h
  obtain ⟨_, _, ⟨-, rfl⟩, _, _, ⟨-, rfl⟩, hn, rfl⟩ := h
  exact ⟨hn, rfl⟩

/-- The columns `replace_mutable_fields` sets. -/
def replaced (queue row : Queue) : Queue :=
  { row with
    name := queue.name
    weight := queue.weight
    concurrencyLimit := queue.concurrencyLimit
    recoveryPolicy := queue.recoveryPolicy
    defaults := queue.defaults
    historyRetention := queue.historyRetention
    runnableWaitWarning := queue.runnableWaitWarning
    updatedAt := storedTime queue.updatedAt
    revision := queue.revision }

theorem key_replaced (queue row : Queue) : Keyed.key (replaced queue row) = Keyed.key row := rfl

/-- `replace_mutable_fields`. -/
def replaceMutableFields (queue : Queue) (expectedRevision : Nat) : Txn Bool := do
  require (queue.revision = expectedRevision + 1) (invalidQueueRow "invalid_revision_increment")
  let updated ← updateRow queueTable queue.id
    (fun row => row.revision = expectedRevision && row.state ≠ .deleted)
    (replaced queue) (key_replaced queue)
  let named ← look fun db =>
    db.queues.count fun other => other.name = queue.name && other.id ≠ queue.id
  require (updated = true → named = 0) nameConflict
  pure updated

theorem yields_replaceMutableFields (h : Yields (replaceMutableFields queue expectedRevision) db b db') :
    (b = true ∧ (∃ row ∈ db.queues, row.id = queue.id ∧ row.revision = expectedRevision ∧
        row.state ≠ .deleted) ∧ queue.revision = expectedRevision + 1 ∧
      db' = { db with queues := db.queues.modify queue.id (replaced queue) fun _ => rfl }) ∨
    (b = false ∧ db' = db) := by
  simp only [replaceMutableFields, yields_steps, yields_updateRow, bool_steps] at h
  obtain ⟨_, _, ⟨hre, rfl⟩, _, _, hu, _, _, ⟨-, rfl⟩, _, _, ⟨-, rfl⟩, rfl, rfl⟩ := h
  rcases hu with ⟨rfl, ⟨row, hro, hi, hr, hs⟩, rfl⟩ | ⟨rfl, -, rfl⟩
  · exact .inl ⟨rfl, ⟨row, hro, hi, hr, hs⟩, hre, rfl⟩
  · exact .inr ⟨rfl, rfl⟩

/-- The columns `set_state` sets. -/
def entered (next : QueueState) (revision : Nat) (updatedAt : Int) (row : Queue) : Queue :=
  { row with state := next, updatedAt := storedTime updatedAt, revision }

theorem key_entered (next : QueueState) (revision : Nat) (updatedAt : Int) (row : Queue) :
    Keyed.key (entered next revision updatedAt row) = Keyed.key row := rfl

/-- `set_state`. -/
def setState (id : Uuid) (expected next : QueueState) (expectedRevision nextRevision : Nat)
    (updatedAt : Int) : Txn Bool := do
  require (expected ≠ .deleted ∧ next ≠ .deleted ∧ expected ≠ next)
    (invalidQueueRow "invalid_state_transition")
  require (nextRevision = expectedRevision + 1) (invalidQueueRow "invalid_revision_increment")
  updateRow queueTable id
    (fun row => row.state = expected && row.revision = expectedRevision && row.deletedAt.isNone)
    (entered next nextRevision updatedAt)
    (key_entered next nextRevision updatedAt)

theorem yields_setState_true {expected next : QueueState} :
    Yields (setState id expected next expectedRevision nextRevision updatedAt) db true db' ↔
      (expected ≠ .deleted ∧ next ≠ .deleted ∧ expected ≠ next) ∧ nextRevision = expectedRevision + 1 ∧
      (∃ row ∈ db.queues, row.id = id ∧ row.state = expected ∧ row.revision = expectedRevision ∧ row.deletedAt = none) ∧
      db' = { db with
        queues := db.queues.modify id (entered next nextRevision updatedAt)
          fun _ => rfl } := by
  simp only [setState, yields_steps, yields_updateRow, bool_steps, Option.isNone_iff_eq_none, and_assoc]
  constructor
  · rintro ⟨_, _, h₁, h₂, h₃, rfl, _, _, hr, rfl, ⟨-, hro, rfl⟩ | ⟨hb, -⟩⟩
    · exact ⟨h₁, h₂, h₃, hr, hro, rfl⟩
    · cases hb
  · rintro ⟨h₁, h₂, h₃, hr, hro, rfl⟩
    exact ⟨(), db, h₁, h₂, h₃, rfl, (), db, hr, rfl, .inl ⟨trivial, hro, rfl⟩⟩

/-- `count_non_deleted_jobs`. -/
def countNonDeletedJobs (queueId : Uuid) : Txn Nat :=
  look fun db => db.jobs.count fun job => job.queueId = queueId && job.state ≠ .deleted

/-- The columns `mark_deleted` sets. -/
def deleted (internalName originalName : String) (revision : Nat) (deletedAt : Int) (row : Queue) : Queue :=
  { row with
    name := internalName
    deletedName := some originalName
    state := .deleted
    updatedAt := storedTime deletedAt
    deletedAt := some (storedTime deletedAt)
    revision }

theorem key_deleted (internalName originalName : String) (revision : Nat) (deletedAt : Int) (row : Queue) :
    Keyed.key (deleted internalName originalName revision deletedAt row) = Keyed.key row := rfl

/-- `mark_deleted`. -/
def markDeleted (id : Uuid) (internalName originalName : String)
    (expectedRevision nextRevision : Nat) (deletedAt : Int) : Txn Bool := do
  require (nextRevision = expectedRevision + 1) (invalidQueueRow "invalid_revision_increment")
  updateRow queueTable id
    (fun row => row.state = .suspended && row.revision = expectedRevision && row.deletedAt.isNone)
    (deleted internalName originalName nextRevision deletedAt)
    (key_deleted internalName originalName nextRevision deletedAt)

theorem yields_markDeleted_true {internalName originalName : String}
    (h : Yields (markDeleted id internalName originalName expectedRevision nextRevision deletedAt) db true db') :
    nextRevision = expectedRevision + 1 ∧
      (∃ row ∈ db.queues, row.id = id ∧ row.state = .suspended ∧ row.revision = expectedRevision) ∧
      db' = { db with
        queues := db.queues.modify id (deleted internalName originalName nextRevision deletedAt)
          fun _ => rfl } := by
  simp only [markDeleted, yields_steps, yields_updateRow, bool_steps, and_assoc] at h
  obtain ⟨_, _, hre, rfl, ⟨-, ⟨row, hro, hi, hs, hr, -⟩, rfl⟩ | ⟨hb, -⟩⟩ := h
  · exact ⟨hre, ⟨row, hro, hi, hs, hr⟩, rfl⟩
  · cases hb

end Queues

namespace Jobs

/-- `find_by_id`. -/
def findById (env : Environment) (id : Uuid) (includeDeleted : Bool) : Txn (Option JobDefinition) :=
  query fun db => decodeFound (decodeJob env)
    ((db.jobs.find? id).filter fun job => includeDeleted || job.state ≠ .deleted)

variable {job : JobDefinition}

theorem yields_findById_some {id : Uuid} :
    Yields (findById env id includeDeleted) db (some job) db' ↔ db' = db ∧ job ∈ db.jobs ∧
      job.id = id ∧ (includeDeleted = true ∨ job.state ≠ .deleted) ∧ JobShape env job := by
  simp only [findById, yields_query, decodeFound_some, decodeJob_ok, Option.filter_eq_some_iff, Table.find?_eq_some, bool_steps]
  constructor
  · rintro ⟨⟨_, ⟨⟨hj, hi⟩, hd⟩, rfl, hs⟩, rfl⟩
    exact ⟨rfl, hj, hi, hd, hs⟩
  · rintro ⟨rfl, hj, hi, hd, hs⟩
    exact ⟨⟨job, ⟨⟨hj, hi⟩, hd⟩, rfl, hs⟩, rfl⟩

/-- The stored form of a schedule. -/
def storedSchedule : JobSchedule → JobSchedule
  | .once plannedAt => .once (storedTime plannedAt)
  | .cron expression timezone => .cron expression timezone

/-- The stored form of a definition. -/
def stored (job : JobDefinition) : JobDefinition :=
  { job with
    schedule := storedSchedule job.schedule
    createdAt := storedTime job.createdAt
    updatedAt := storedTime job.updatedAt
    deletedAt := job.deletedAt.map storedTime }

/-- `insert`. -/
def insert (env : Environment) (job : JobDefinition) : Txn Unit := do
  require ((job.name.all fun name => env.isValidJobName name) = true) (invalidJob "invalid_name")
  require (job.state = .deleted ↔ job.deletedAt.isSome = true) (invalidJob "deleted_state_mismatch")
  require (job.state.isTerminal = true → job.schedule.isOnce = true)
    (invalidJob "terminal_state_mismatch")
  let owner ← look fun db => db.queues.find? job.queueId
  require (owner.isSome = true) foreignKeyViolation
  insertRow jobTable (stored job) uniqueViolation

theorem yields_insert {u : Unit} (h : Yields (insert env job) db u db') :
    (job.name.all fun name => env.isValidJobName name) = true ∧
      db.jobs.find? job.id = none ∧ db' = { db with jobs := db.jobs.insert (stored job) } := by
  simp only [insert, yields_steps, yields_insertRow] at h
  obtain ⟨_, _, ⟨hna, rfl⟩, _, _, ⟨-, rfl⟩, _, _, ⟨-, rfl⟩, _, _, ⟨-, rfl⟩, _, _, ⟨-, rfl⟩, hn, rfl⟩ := h
  exact ⟨hna, hn, rfl⟩

/-- The columns `update_definition` sets. -/
def redefined (replacement row : JobDefinition) : JobDefinition :=
  { row with
    revision := replacement.revision
    name := replacement.name
    schedule := storedSchedule replacement.schedule
    priority := replacement.priority
    attributes := replacement.attributes
    payload := replacement.payload
    updatedAt := storedTime replacement.updatedAt }

theorem key_redefined (replacement row : JobDefinition) : Keyed.key (redefined replacement row) = Keyed.key row := rfl

/-- `update_definition`. -/
def updateDefinition (env : Environment) (replacement : JobDefinition) (expectedRevision : Nat) : Txn Bool := do
  require ((replacement.name.all fun name => env.isValidJobName name) = true ∧
    (replacement.state = .active ∨ replacement.state = .suspended) ∧ replacement.deletedAt = none)
    (invalidJob "invalid_update")
  updateRow jobTable replacement.id
    (fun row => row.revision = expectedRevision && row.type = replacement.type &&
      (row.state = .active || row.state = .suspended))
    (redefined replacement) (key_redefined replacement)

theorem yields_updateDefinition {replacement : JobDefinition}
    (h : Yields (updateDefinition env replacement expectedRevision) db b db') :
    (b = true ∧ (replacement.name.all fun name => env.isValidJobName name) = true ∧
      (∃ row ∈ db.jobs, row.id = replacement.id ∧ row.revision = expectedRevision ∧
        row.type = replacement.type ∧ (row.state = .active ∨ row.state = .suspended)) ∧
      db' = { db with
        jobs := db.jobs.modify replacement.id (redefined replacement)
          fun _ => rfl }) ∨ (b = false ∧ db' = db) := by
  simp only [updateDefinition, yields_steps, yields_updateRow, bool_steps, and_assoc] at h
  obtain ⟨_, _, hn, -, -, rfl, ⟨rfl, ⟨row, hro, hi, hr, ht, hs⟩, rfl⟩ | ⟨rfl, -, rfl⟩⟩ := h
  · exact .inl ⟨rfl, hn, ⟨row, hro, hi, hr, ht, hs⟩, rfl⟩
  · exact .inr ⟨rfl, rfl⟩

/-- The columns `set_state` sets. -/
def entered (next : JobState) (revision : Nat) (updatedAt : Int) (row : JobDefinition) : JobDefinition :=
  { row with state := next, revision, updatedAt := storedTime updatedAt }

theorem key_entered (next : JobState) (revision : Nat) (updatedAt : Int) (row : JobDefinition) :
    Keyed.key (entered next revision updatedAt row) = Keyed.key row := rfl

/-- `set_state`. -/
def setState (id : Uuid) (expected next : JobState) (expectedRevision nextRevision : Nat)
    (updatedAt : Int) : Txn Bool := do
  require (expected ≠ .deleted ∧ next ≠ .deleted ∧ expected ≠ next ∧
    nextRevision = expectedRevision + 1) (invalidJob "invalid_state_transition")
  updateRow jobTable id
    (fun row => row.state = expected && row.revision = expectedRevision && row.deletedAt.isNone)
    (entered next nextRevision updatedAt) (key_entered next nextRevision updatedAt)

theorem yields_setState_true {id : Uuid} {expected next : JobState} :
    Yields (setState id expected next expectedRevision nextRevision updatedAt) db true db' ↔
      (expected ≠ .deleted ∧ next ≠ .deleted ∧ expected ≠ next) ∧ nextRevision = expectedRevision + 1 ∧
      (∃ row ∈ db.jobs, row.id = id ∧ row.state = expected ∧ row.revision = expectedRevision ∧ row.deletedAt = none) ∧
      db' = { db with
        jobs := db.jobs.modify id (entered next nextRevision updatedAt)
          fun _ => rfl } := by
  simp only [setState, yields_steps, yields_updateRow, bool_steps, Option.isNone_iff_eq_none, and_assoc]
  constructor
  · rintro ⟨_, _, h₁, h₂, h₃, hr, rfl, ⟨-, hro, rfl⟩ | ⟨hb, -⟩⟩
    · exact ⟨h₁, h₂, h₃, hr, hro, rfl⟩
    · cases hb
  · rintro ⟨h₁, h₂, h₃, hr, hro, rfl⟩
    exact ⟨(), db, h₁, h₂, h₃, hr, rfl, .inl ⟨trivial, hro, rfl⟩⟩

/-- The columns `move` sets. -/
def moved (targetQueueId : Uuid) (revision : Nat) (updatedAt : Int) (row : JobDefinition) : JobDefinition :=
  { row with queueId := targetQueueId, revision, updatedAt := storedTime updatedAt }

theorem key_moved (targetQueueId : Uuid) (revision : Nat) (updatedAt : Int) (row : JobDefinition) :
    Keyed.key (moved targetQueueId revision updatedAt row) = Keyed.key row := rfl

/-- `move`. -/
def move (id : Uuid) (expectedRevision : Nat) (targetQueueId : Uuid) (nextRevision : Nat)
    (updatedAt : Int) : Txn Bool := do
  require (nextRevision = expectedRevision + 1) (invalidJob "invalid_move_revision")
  updateRow jobTable id
    (fun row => row.queueId ≠ targetQueueId && row.state = .suspended &&
      row.revision = expectedRevision && row.deletedAt.isNone)
    (moved targetQueueId nextRevision updatedAt) (key_moved targetQueueId nextRevision updatedAt)

theorem yields_move {id targetQueueId : Uuid}
    (h : Yields (move id expectedRevision targetQueueId nextRevision updatedAt) db b db') :
    (b = true ∧ nextRevision = expectedRevision + 1 ∧
      (∃ row ∈ db.jobs, row.id = id ∧ row.queueId ≠ targetQueueId ∧ row.state = .suspended ∧
        row.revision = expectedRevision) ∧
      db' = { db with
        jobs := db.jobs.modify id (moved targetQueueId nextRevision updatedAt)
          fun _ => rfl }) ∨ (b = false ∧ db' = db) := by
  simp only [move, yields_steps, yields_updateRow, bool_steps, and_assoc] at h
  obtain ⟨_, _, hre, rfl, ⟨rfl, ⟨row, hro, hi, hq, hs, hr, -⟩, rfl⟩ | ⟨rfl, -, rfl⟩⟩ := h
  · exact .inl ⟨rfl, hre, ⟨row, hro, hi, hq, hs, hr⟩, rfl⟩
  · exact .inr ⟨rfl, rfl⟩

/-- The columns a deletion sets. -/
def deleted (revision : Nat) (deletedAt : Int) (row : JobDefinition) : JobDefinition :=
  { row with
    state := .deleted
    revision
    updatedAt := storedTime deletedAt
    deletedAt := some (storedTime deletedAt) }

theorem key_deleted (revision : Nat) (deletedAt : Int) (row : JobDefinition) :
    Keyed.key (deleted revision deletedAt row) = Keyed.key row := rfl

/-- `mark_deleted`: a suspended job, or a finished one without live work. -/
def markDeleted (id : Uuid) (expectedRevision nextRevision : Nat) (deletedAt : Int) : Txn Bool := do
  require (nextRevision = expectedRevision + 1) (invalidJob "invalid_delete_revision")
  let liveRuns ← look fun db => db.runs.count fun run => run.jobId = id && run.isLive
  updateRow jobTable id
    (fun row => row.revision = expectedRevision && row.deletedAt.isNone &&
      (row.state = .suspended || (row.state.isTerminal && liveRuns = 0)))
    (deleted nextRevision deletedAt) (key_deleted nextRevision deletedAt)

theorem yields_markDeleted {id : Uuid} (h : Yields (markDeleted id expectedRevision nextRevision deletedAt) db b db') :
    (b = true ∧ nextRevision = expectedRevision + 1 ∧ (∃ row ∈ db.jobs, row.id = id ∧ row.revision = expectedRevision) ∧
      db' = { db with
        jobs := db.jobs.modify id (deleted nextRevision deletedAt)
          fun _ => rfl }) ∨ (b = false ∧ db' = db) := by
  simp only [markDeleted, yields_steps, yields_updateRow, bool_steps, and_assoc] at h
  obtain ⟨_, _, hre, rfl, _, _, -, rfl, ⟨rfl, ⟨row, hro, hi, hr, -⟩, rfl⟩ | ⟨rfl, -, rfl⟩⟩ := h
  · exact .inl ⟨rfl, hre, ⟨row, hro, hi, hr⟩, rfl⟩
  · exact .inr ⟨rfl, rfl⟩

/-- `has_exhausted_revision_in_queue`. -/
def hasExhaustedRevisionInQueue (queueId : Uuid) (maximum : Nat) : Txn Bool :=
  look fun db => db.jobs.rows.any fun job =>
    job.queueId = queueId && job.state ≠ .deleted && maximum ≤ job.revision

/-- The rows `mark_all_in_queue_deleted` affects. -/
def inQueue (queueId : Uuid) (job : JobDefinition) : Bool :=
  job.queueId = queueId && job.state ≠ .deleted && job.deletedAt.isNone

/-- `mark_all_in_queue_deleted`; the value is the number of affected rows. -/
def markAllInQueueDeleted (queueId : Uuid) (deletedAt : Int) : Txn Nat := do
  let affected ← look fun db => db.jobs.count (inQueue queueId)
  write fun db =>
    { db with
      jobs := db.jobs.update (inQueue queueId)
        (fun row => deleted (row.revision + 1) deletedAt row) (fun _ => rfl) }
  pure affected

theorem yields_markAllInQueueDeleted {queueId : Uuid} {count : Nat}
    (h : Yields (markAllInQueueDeleted queueId deletedAt) db count db') :
    db' = { db with
      jobs := db.jobs.update (inQueue queueId)
        (fun row => deleted (row.revision + 1) deletedAt row) (fun _ => rfl) } := by
  simp only [markAllInQueueDeleted, yields_steps] at h
  obtain ⟨_, _, ⟨-, rfl⟩, _, _, rfl, -, rfl⟩ := h
  rfl

end Jobs

end Jobu
