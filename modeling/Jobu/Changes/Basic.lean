import Mathlib.Logic.Relation
import Jobu.Repository.Requests
import Jobu.Scheduler.Repository

/-!
# What a transaction can do to the rows

Every transaction of the daemon, of a client or of recovery, is a sequence of the changes listed
here.  A change is the smallest unit after which the rows agree again about who owns what: the
definition of a job changes together with its secret references, a run ends together with its
attempt and gets its successor in the same breath.

The measurements (`timings`, `outputs`) may change at any time and nothing else depends on them, so
one constructor covers all of them.

  > `QueueWrite`, `JobWrite`: the statements on one owner row, each to the next revision.
  > `Change env caller now`: one change at a clock reading; `Changes` are those of a transaction.
-/

namespace Jobu

open Lib

open Keyed (key)

/-! ## Owners -/

/-- The statements that write one queue row. -/
inductive QueueWrite (row : Queue) : Queue → Prop
  | replaced (queue : Queue) (next : queue.revision = row.revision + 1)
    (live : row.state ≠ .deleted) : QueueWrite row (Queues.replaced queue row)
  | entered (next : QueueState) (now : Int) (live : row.state ≠ .deleted) (moves : row.state ≠ next) :
    QueueWrite row (Queues.entered next (row.revision + 1) now row)
  | deleted (internalName originalName : String) (now : Int) (suspended : row.state = .suspended) :
    QueueWrite row (Queues.deleted internalName originalName (row.revision + 1) now row)

/-- The statements that write one job row. -/
inductive JobWrite (row : JobDefinition) : JobDefinition → Prop
  | redefined (replacement : JobDefinition) (next : replacement.revision = row.revision + 1)
    (live : row.state ≠ .deleted) : JobWrite row (Jobs.redefined replacement row)
  | entered (next : JobState) (now : Int) (live : row.state ≠ .deleted) (moves : row.state ≠ next) :
    JobWrite row (Jobs.entered next (row.revision + 1) now row)
  | moved (target : Uuid) (now : Int) (elsewhere : row.queueId ≠ target)
    (suspended : row.state = .suspended) :
    JobWrite row (Jobs.moved target (row.revision + 1) now row)
  | deleted (now : Int) (live : row.state ≠ .deleted) :
    JobWrite row (Jobs.deleted (row.revision + 1) now row)

theorem QueueWrite.revision {row row' : Queue} (h : QueueWrite row row') :
    row'.id = row.id ∧ row'.revision = row.revision + 1 := by
  cases h with
  | replaced _ next => exact ⟨rfl, next⟩
  | entered | deleted => exact ⟨rfl, rfl⟩

theorem JobWrite.revision {row row' : JobDefinition} (h : JobWrite row row') :
    row'.id = row.id ∧ row'.type = row.type ∧ row'.revision = row.revision + 1 := by
  cases h with
  | redefined _ next => exact ⟨rfl, rfl, next⟩
  | entered | moved | deleted => exact ⟨rfl, rfl, rfl⟩

theorem QueueWrite.live {row row' : Queue} (h : QueueWrite row row') : row.state ≠ .deleted := by
  cases h with
  | replaced _ _ live | entered _ _ live => exact live
  | deleted _ _ _ suspended => exact suspended ▸ QueueState.noConfusion

theorem JobWrite.live {row row' : JobDefinition} (h : JobWrite row row') : row.state ≠ .deleted := by
  cases h with
  | redefined _ _ live | entered _ _ live | deleted _ live => exact live
  | moved _ _ _ suspended => exact suspended ▸ JobState.noConfusion

/-! ## References and replies -/

/-- The reference rows after those of one job were replaced. -/
def Database.referencing (db : Database) (jobId : Uuid) (references : List SecretReference) :
    List (Uuid × SecretReference) :=
  db.secretReferences.filter (fun entry => entry.1 ≠ jobId) ++ references.map fun reference => (jobId, reference)

/-- The references of a payload are known, and every secret they name is stored. -/
structure NamesSecrets (env : Environment) (db : Database) (type : JobType) (payload : Json)
    (references : List SecretReference) : Prop where
  named : env.payloads.references type payload = .ok references
  stored : ∀ reference ∈ references, reference.secretName ∈ db.secrets

/-- A reply refers to rows that are there: the scope it was asked in and the resource it made. -/
inductive Answers (db : Database) (record : IdempotencyRecord) : Prop
  | queue (method : record.method = "queue.create") (scope : record.scopeId = Uuid.nil)
    (queue : Queue) (mem : queue ∈ db.queues) (id : queue.id = record.resourceId)
  | job (method : record.method = "job.create") (queue : Queue) (scope : queue ∈ db.queues)
    (scopeId : queue.id = record.scopeId) (job : JobDefinition) (mem : job ∈ db.jobs)
    (id : job.id = record.resourceId)
  | run (method : record.method = "job.run_now") (job : JobDefinition) (scope : job ∈ db.jobs)
    (scopeId : job.id = record.scopeId) (run : JobRun) (mem : run ∈ db.runs)
    (id : run.id = record.resourceId) (owner : run.jobId = record.scopeId)
    (manual : run.origin = .manual ∧ run.scheduleOwned = false)

/-! ## Runs -/

/-- The definition fields a run copies, due at an instant. -/
def snapshotOf (job : JobDefinition) (plannedAt : Int) : Runs.Snapshot where
  jobRevision := job.revision
  queueId := job.queueId
  plannedAt := plannedAt
  runnableAt := plannedAt
  type := job.type
  priority := job.priority
  attributes := job.attributes
  payload := job.payload

/-- The runs of a table with the successor of one that ended. -/
def withSuccessor (runs : Table JobRun) : Option JobRun → Table JobRun
  | none => runs
  | some next => runs.insert (Runs.stored next)

/-- The attempts after a run has ended: a running run ends with its attempt, a waiting one has
none to end. -/
inductive Closing (db : Database) (run : JobRun) (now : Int) : Table JobAttempt → Prop
  | waiting (pending : run.state.isPending = true) : Closing db run now db.attempts
  | running (running : run.state = .running) (attempt : JobAttempt) (mem : attempt ∈ db.attempts)
    (of : attempt.runId = run.id) (unreported : attempt.state = .running)
    (outcome : AttemptOutcome) (result : Json) :
    Closing db run now (db.attempts.modify (key attempt) (Scheduler.reported now outcome result)
      (Scheduler.key_reported now outcome result))

/-- The next run of a recurring job, after one that ended at `now`: it copies the definition, and
its instant lies beyond the lower bound given to the schedule. -/
structure Continues (env : Environment) (db : Database) (now : Int) (run next : JobRun) : Prop where
  owned : run.scheduleOwned = true
  free : db.runs.find? next.id = none
  copies : ∃ job ∈ db.jobs, ∃ lower planned, job.id = run.jobId ∧
    Lifecycle.NextOccurrence env job lower planned ∧ now ≤ lower ∧
    (run.plannedAt ≤ lower ∨ run.state = .running) ∧ next = Lifecycle.scheduledRun job next.id planned

/-! ## Changes -/

/-- What the caller of a transaction accounts for: the jobs that get a new definition, and the replies
that are stored. -/
structure Caller where
  edits : Uuid → Prop
  replies : IdempotencyRecord → Prop

/-- A caller that accounts for every edit and every reply. -/
def Anyone : Caller where
  edits _ := True
  replies _ := True

/-- One change of the rows at a clock reading. -/
inductive Change (env : Environment) (caller : Caller) (now : Int) (db : Database) :
    Database → Prop
  | measured (timings : Table RunTiming) (outputs : Table AttemptOutput) :
    Change env caller now db { db with timings, outputs }
  | replied (record : IdempotencyRecord)
    (free : db.idempotency.find?
      (Idempotency.matchesKey record.method record.scopeId record.key) = none)
    (asked : caller.replies record) (answers : Answers db record) :
    Change env caller now db
      { db with
        idempotency :=
          { record with createdAt := storedTime record.createdAt } :: db.idempotency }
  | queueInserted (queue : Queue) (free : db.queues.find? queue.id = none)
    (first : queue.revision = 1) (active : queue.state = .active) :
    Change env caller now db { db with queues := db.queues.insert (Queues.stored queue) }
  | queueWritten (row : Queue) (mem : row ∈ db.queues) (f : Queue → Queue)
    (hf : ∀ queue, key (f queue) = key queue) (write : QueueWrite row (f row))
    (live : (f row).state ≠ .deleted) :
    Change env caller now db { db with queues := db.queues.modify row.id f hf }
  | queueErased (row : Queue) (mem : row ∈ db.queues) (suspended : row.state = .suspended)
    (follow : ∀ run ∈ db.runs, run.queueId = row.id → run.isLive = true →
      ∀ job ∈ db.jobs, job.id = run.jobId → Jobs.inQueue row.id job = true)
    (internalName originalName reason : String) :
    Change env caller now db
      { db with
        secretReferences := db.secretReferences.filter fun entry =>
          !((db.jobs.find? entry.1).any fun job => job.queueId = row.id && job.state ≠ .deleted)
        jobs := db.jobs.update (Jobs.inQueue row.id)
          (fun job => Jobs.deleted (job.revision + 1) now job) (fun _ => rfl)
        runs := db.runs.update (fun run => run.queueId = row.id && run.state.isPending)
          (Runs.cancelled now reason) (Runs.key_cancelled now reason)
        queues := db.queues.modify row.id
          (Queues.deleted internalName originalName (row.revision + 1) now)
          (Queues.key_deleted internalName originalName (row.revision + 1) now) }
  | jobInserted (job : JobDefinition) (references : List SecretReference)
    (free : db.jobs.find? job.id = none) (first : job.revision = 1) (active : job.state = .active)
    (queue : ∃ queue ∈ db.queues, queue.id = job.queueId ∧ queue.state ≠ .deleted)
    (names : NamesSecrets env db job.type job.payload references) :
    Change env caller now db
      { db with
        jobs := db.jobs.insert (Jobs.stored job)
        secretReferences := db.referencing job.id references }
  | jobRedefined (row replacement : JobDefinition) (references : List SecretReference)
    (mem : row ∈ db.jobs) (edits : caller.edits row.id) (next : replacement.revision = row.revision + 1)
    (type : replacement.type = row.type) (live : row.state ≠ .deleted)
    (names : NamesSecrets env db replacement.type replacement.payload references) :
    Change env caller now db
      { db with
        jobs := db.jobs.modify row.id (Jobs.redefined replacement) (Jobs.key_redefined replacement)
        secretReferences := db.referencing row.id references }
  | jobEntered (row : JobDefinition) (mem : row ∈ db.jobs) (next : JobState) (time : Int)
    (live : row.state ≠ .deleted) (stays : next ≠ .deleted) (moves : row.state ≠ next)
    (once : next.isTerminal = true → row.schedule.isOnce = true) :
    Change env caller now db
      { db with
        jobs := db.jobs.modify row.id (Jobs.entered next (row.revision + 1) time)
          (Jobs.key_entered next (row.revision + 1) time) }
  | jobMoved (row : JobDefinition) (mem : row ∈ db.jobs) (suspended : row.state = .suspended)
    (target : Queue) (there : target ∈ db.queues) (live : target.state ≠ .deleted)
    (elsewhere : row.queueId ≠ target.id) :
    Change env caller now db
      { db with
        jobs := db.jobs.modify row.id (Jobs.moved target.id (row.revision + 1) now)
          (Jobs.key_moved target.id (row.revision + 1) now)
        runs := db.runs.update (fun run => run.jobId = row.id && run.isLive)
          (Runs.moved target.id (row.revision + 1)) (Runs.key_moved target.id (row.revision + 1)) }
  | jobDeleted (row : JobDefinition) (mem : row ∈ db.jobs) (live : row.state ≠ .deleted)
    (idle : ∀ run ∈ db.runs, run.jobId = row.id → run.state ≠ .running) (reason : String) :
    Change env caller now db
      { db with
        jobs := db.jobs.modify row.id (Jobs.deleted (row.revision + 1) now)
          (Jobs.key_deleted (row.revision + 1) now)
        runs := db.runs.update (fun run => run.jobId = row.id && run.state.isPending)
          (Runs.cancelled now reason) (Runs.key_cancelled now reason)
        secretReferences := db.referencing row.id [] }
  | runScheduled (job : JobDefinition) (mem : job ∈ db.jobs) (live : job.state ≠ .deleted)
    (id : Uuid) (planned : Int) (free : db.runs.find? id = none)
    (alone : ∀ run ∈ db.runs, run.jobId = job.id → run.isLiveOwned = false) :
    Change env caller now db
      { db with
        runs := db.runs.insert (Runs.stored (Lifecycle.scheduledRun job id planned)) }
  | runManual (job : JobDefinition) (mem : job ∈ db.jobs) (live : job.state ≠ .deleted)
    (run : JobRun) (free : db.runs.find? run.id = none) (manual : run.scheduleOwned = false)
    (new : run.state = .scheduled)
    (copies : run.jobId = job.id ∧ run.queueId = job.queueId ∧ run.type = job.type ∧
      run.attributes = job.attributes ∧ run.payload = job.payload) :
    Change env caller now db { db with runs := db.runs.insert (Runs.stored run) }
  | runRefreshed (job : JobDefinition) (mem : job ∈ db.jobs) (edits : caller.edits job.id)
    (live : job.state ≠ .deleted) (planned : Int) :
    Change env caller now db
      { db with
        runs := db.runs.update (Runs.unstarted db job.id) (Runs.refreshed (snapshotOf job planned))
          (Runs.key_refreshed (snapshotOf job planned)) }
  | runStarted (run : JobRun) (mem : run ∈ db.runs) (pending : run.state.isPending = true)
    (due : run.runnableAt ≤ now) (attempt : JobAttempt) (of : attempt.runId = run.id)
    (next : attempt.attemptNumber = (((db.attemptsOf run.id).getLast?).elim 0 JobAttempt.attemptNumber) + 1)
    (free : db.attempts.find? (key attempt) = none) (running : attempt.state = .running) :
    Change env caller now db
      { db with
        attempts := db.attempts.insert attempt
        runs := db.runs.modify run.id (Scheduler.started now) (Scheduler.key_started now) }
  | runRetries (run : JobRun) (mem : run ∈ db.runs) (running : run.state = .running)
    (attempt : JobAttempt) (there : attempt ∈ db.attempts) (of : attempt.runId = run.id)
    (unreported : attempt.state = .running)
    (last : ∀ a ∈ db.attempts, a.runId = run.id → a.attemptNumber ≤ attempt.attemptNumber)
    (outcome : AttemptOutcome) (result : Json) (dueAt : Int) (later : now ≤ dueAt)
    (policy : RetryPolicy) (of_run : Retry.policyFromAttributes run.attributes = .ok policy)
    (allowed : attempt.attemptNumber < policy.maxAttempts) :
    Change env caller now db
      { db with
        attempts := db.attempts.modify (key attempt) (Scheduler.reported now outcome result)
          (Scheduler.key_reported now outcome result)
        runs := db.runs.modify run.id (Scheduler.retrying dueAt) (Scheduler.key_retrying dueAt) }
  | runEnded (run : JobRun) (mem : run ∈ db.runs) (attempts : Table JobAttempt)
    (closing : Closing db run now attempts) (state : RunState) (terminal : state.isTerminal = true)
    (result : Json) (successor : Option JobRun)
    (follows : ∀ next ∈ successor, Continues env db now run next)
    (owed : ∀ job ∈ db.jobs, job.id = run.jobId → run.scheduleOwned = true →
      job.state ≠ .deleted → job.schedule.isOnce = false → successor.isSome = true) :
    Change env caller now db
      { db with
        attempts
        runs := withSuccessor (db.runs.modify run.id (Scheduler.ended state now result)
          (Scheduler.key_ended state now result)) successor }

section Sequences

variable {env : Environment} {caller : Caller} {now : Int} {db db₁ db' : Database}

/-- A sequence of changes that leave the runs alone. -/
def Quiet (env : Environment) (caller : Caller) (now : Int) : Database → Database → Prop :=
  Relation.ReflTransGen fun db db' => Change env caller now db db' ∧ db'.runs = db.runs

/-- The changes of one transaction, at one clock reading: at most one of them is a change of runs. -/
def Changes (env : Environment) (caller : Caller) (now : Int) (db db' : Database) : Prop :=
  ∃ db₁ db₂, Quiet env caller now db db₁ ∧ (db₂ = db₁ ∨ Change env caller now db₁ db₂) ∧ Quiet env caller now db₂ db'

theorem Quiet.refl (db : Database) : Quiet env caller now db db := Relation.ReflTransGen.refl

theorem Quiet.single (h : Change env caller now db db') (hr : db'.runs = db.runs) : Quiet env caller now db db' :=
  Relation.ReflTransGen.single ⟨h, hr⟩

theorem Quiet.trans (h₁ : Quiet env caller now db db₁) (h₂ : Quiet env caller now db₁ db') : Quiet env caller now db db' :=
  Relation.ReflTransGen.trans h₁ h₂

theorem Quiet.runs (h : Quiet env caller now db db') : db'.runs = db.runs := by
  unfold Quiet at h
  induction h with
  | refl => rfl
  | tail _ last ih => exact last.2.trans ih

theorem Quiet.preserve {P : Database → Prop} (hstep : ∀ db db', Change env caller now db db' → P db → P db')
    (h : Quiet env caller now db db') (hd : P db) : P db' := by
  unfold Quiet at h
  induction h with
  | refl => exact hd
  | tail _ last ih => exact hstep _ _ last.1 ih

theorem Quiet.changes (h : Quiet env caller now db db') : Changes env caller now db db' :=
  ⟨db', db', h, .inl rfl, .refl db'⟩

theorem Changes.refl (db : Database) : Changes env caller now db db := (Quiet.refl db).changes

theorem Changes.single (h : Change env caller now db db') : Changes env caller now db db' :=
  ⟨db, db', .refl db, .inr h, .refl db'⟩

theorem Quiet.then (h₁ : Quiet env caller now db db₁) (h₂ : Changes env caller now db₁ db') :
    Changes env caller now db db' := by
  obtain ⟨db₂, db3, hbe, hc, hafter⟩ := h₂
  exact ⟨db₂, db3, h₁.trans hbe, hc, hafter⟩

theorem Changes.then (h₁ : Changes env caller now db db₁) (h₂ : Quiet env caller now db₁ db') :
    Changes env caller now db db' := by
  obtain ⟨db₂, db3, hbe, hc, hafter⟩ := h₁
  exact ⟨db₂, db3, hbe, hc, hafter.trans h₂⟩

/-- What every change keeps, a transaction keeps. -/
theorem Changes.preserve {P : Database → Prop}
    (hstep : ∀ db db', Change env caller now db db' → P db → P db') (h : Changes env caller now db db')
    (hd : P db) : P db' := by
  obtain ⟨_, _, hbe, hc, hafter⟩ := h
  refine hafter.preserve hstep ?_
  rcases hc with rfl | hc
  · exact hbe.preserve hstep hd
  · exact hstep _ _ hc (hbe.preserve hstep hd)

end Sequences

/-! ## Measurements -/

/-- Nothing but measurements changed. -/
def Measured (db db' : Database) : Prop := ∃ timings outputs, db' = { db with timings, outputs }

theorem Measured.refl (db : Database) : Measured db db := ⟨db.timings, db.outputs, rfl⟩

variable {db db' db₁ : Database}

theorem Measured.trans (h₁ : Measured db db₁) (h₂ : Measured db₁ db') : Measured db db' := by
  obtain ⟨_, _, rfl⟩ := h₁
  obtain ⟨timings, outputs, rfl⟩ := h₂
  exact ⟨timings, outputs, rfl⟩

variable {env : Environment} {caller : Caller}

theorem Measured.quiet {now : Int} (h : Measured db db') : Quiet env caller now db db' := by
  obtain ⟨timings, outputs, rfl⟩ := h
  exact .single (.measured timings outputs) rfl

/-- A transaction settles its scope, changes rows and opens the scope again. -/
theorem Changes.between {now : Int} {db₂ : Database}
    (hse : Measured db db₁) (h : Changes env caller now db₁ db₂) (hr : Measured db₂ db') :
    Changes env caller now db db' :=
  (hse.quiet.then h).then hr.quiet

namespace Telemetry

variable {db : Database}

/-- A procedure that only measures. -/
abbrev Measures {α : Type} (x : Txn α) : Prop := ∀ db, Preserves (Measured db) x

theorem store_measures (timing : RunTiming) : Measures (store timing) := fun _ =>
  preserves_bind (preserves_updateRow fun _ h => h.trans ⟨_, _, rfl⟩) fun _ => preserves_require _ _ _

theorem openInterval_measures (runId : Uuid) (sample : TimingSample) : Measures (openInterval runId sample) := fun db =>
  preserves_bind (preserves_query _ _) fun _ => preserves_bind (preserves_query _ _) fun _ =>
    preserves_bind (preserves_bind (preserves_look _ _) fun _ =>
      preserves_bind (preserves_demand _ _ _) fun _ => preserves_pure _ _) fun _ =>
    preserves_bind (preserves_require _ _ _) fun _ =>
    preserves_ite (preserves_pure _ _)
      (preserves_bind (store_measures _ db) fun _ => preserves_pure _ _)

theorem accumulate_measures (runId : Uuid) (sample : TimingSample) (close : Bool) :
    Measures (accumulate runId sample close) := fun db =>
  preserves_bind (preserves_query _ _) fun timing => preserves_bind (preserves_query _ _) fun _ => by
    cases timing.openInterval with
    | none => exact preserves_pure _ _
    | some =>
      exact preserves_bind (preserves_require _ _ _) fun _ =>
        preserves_bind (store_measures _ db) fun _ => preserves_pure _ _

theorem repairAbandoned_measures (runId : Uuid) : Measures (repairAbandoned runId) := fun db =>
  preserves_bind (preserves_query _ _) fun _ =>
    preserves_ite (preserves_pure _ _)
      (preserves_bind (store_measures _ db) fun _ => preserves_pure _ _)

theorem claimWarning_measures (runId : Uuid) (sample : TimingSample) (threshold : Int) :
    Measures (claimWarning runId sample threshold) := fun _ =>
  preserves_bind (preserves_query _ _) fun _ => preserves_bind (preserves_query _ _) fun _ =>
    preserves_bind (preserves_require _ _ _) fun _ =>
    preserves_bind (preserves_bind (preserves_look _ _) fun _ =>
      preserves_bind (preserves_demand _ _ _) fun _ => preserves_pure _ _) fun _ =>
    preserves_bind (preserves_require _ _ _) fun _ =>
    preserves_ite (preserves_pure _ _)
      (preserves_updateRow fun _ h => h.trans ⟨_, _, rfl⟩)

theorem requireClosed_measures (runId : Uuid) : Measures (requireClosed runId) := fun _ =>
  preserves_bind (preserves_query _ _) fun _ => preserves_require _ _ _

theorem accountRow_measures (amb : Ambient) (sample : TimingSample) (reopen : Bool)
    (row : RunEligibility) : Measures (accountRow amb sample reopen row) := fun db =>
  preserves_ite
    (preserves_bind (openInterval_measures _ _ db) fun _ => preserves_pure _ _)
    (preserves_bind (accumulate_measures _ _ _ db) fun _ => preserves_pure _ _)

theorem visitScope_measures (amb : Ambient) (scope : Scope) (reopen : Bool) :
    Measures (visitScope amb scope reopen) := fun db =>
  preserves_bind (preserves_look _ _) fun _ => by
    cases amb.sample with
    | none =>
      exact preserves_visitPages_all (fun _ => preserves_look _ _)
        (fun run : JobRun => requireClosed_measures run.id db) _ _
    | some sample =>
      exact preserves_visitPages_all (fun _ => preserves_query _ _)
        (fun row => accountRow_measures amb sample reopen row db) _ _

theorem claimRun_measures (amb : Ambient) (run : JobRun) (threshold : Int) :
    Measures (claimRun amb run threshold) := fun db => by
  unfold claimRun
  cases amb.sample with
  | none => exact preserves_bind (requireClosed_measures _ db) fun _ => preserves_pure _ _
  | some =>
    exact preserves_bind (openInterval_measures _ _ db) fun _ =>
      preserves_bind (accumulate_measures _ _ _ db) fun _ => claimWarning_measures _ _ _ db

theorem observePage_measures (amb : Ambient) (pos : Option Uuid) : Measures (observePage amb pos) := fun db => by
  unfold observePage
  cases amb.sample with
  | none => exact preserves_pure _ _
  | some =>
    refine preserves_bind (preserves_query _ _) fun rows =>
      preserves_bind (preserves_forM fun row _ => ?_) fun _ => preserves_pure _ _
    exact preserves_ite
      (preserves_bind (openInterval_measures _ _ db) fun _ =>
        preserves_bind (claimWarning_measures _ _ _ db) fun _ => preserves_pure _ _)
      (preserves_bind (accumulate_measures _ _ _ db) fun _ => preserves_pure _ _)

theorem accountingPage_measures (sample : TimingSample) (batchSize : Nat) (pos : Option Uuid)
    (close : Bool) : Measures (accountingPage sample batchSize pos close) := fun db =>
  preserves_bind (preserves_bind (preserves_require _ _ _) fun _ =>
    preserves_bind (preserves_look _ _) fun _ => preserves_bind (preserves_require _ _ _) fun _ =>
    preserves_pure _ _) fun _ =>
    preserves_bind (preserves_forM fun _ _ =>
      preserves_bind (accumulate_measures _ _ _ db) fun _ => preserves_pure _ _) fun _ =>
    preserves_pure _ _

end Telemetry

/-- What a measuring procedure leaves when it returns. -/
theorem Telemetry.Measures.yields {α : Type} {x : Txn α} (h : Telemetry.Measures x)
    {a : α} (hy : Yields x db a db') : Measured db db' :=
  hy.after_eq ▸ h db db (.refl db)

end Jobu
