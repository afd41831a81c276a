import Jobu.Repository.Owners

/-!
# Run and attempt repositories

`run_repository_priv.cpp` and `attempt_repository_priv.cpp`.  A run is inserted together with its
timing row.  The statements that change many rows (`moveNonTerminal`, `cancelPending…`,
`refreshUnstartedScheduleOwned`) are table updates with the predicate of their `WHERE` clause.
-/

namespace Jobu

open Lib Table Option

variable {env : Environment} {db db' : Database} {run : JobRun} {jobId : Uuid}
  {measurement : InitialMeasurement} {u : Unit}

def runTable : Component Database (Table JobRun) where
  get db := db.runs
  set db t := { db with runs := t }

def attemptTable : Component Database (Table JobAttempt) where
  get db := db.attempts
  set db t := { db with attempts := t }

def outputTable : Component Database (Table AttemptOutput) where
  get db := db.outputs
  set db t := { db with outputs := t }

def timingTable : Component Database (Table RunTiming) where
  get db := db.timings
  set db t := { db with timings := t }

/-- The attempts of a run, in number order. -/
def Database.attemptsOf (db : Database) (runId : Uuid) : List JobAttempt :=
  db.attempts.select fun attempt => attempt.runId = runId

/-- The live runs of a job. -/
def Database.liveRuns (db : Database) (jobId : Uuid) : List JobRun :=
  db.runs.select fun run => run.jobId = jobId && run.isLive

namespace Runs

def scheduleConflict : Error where
  category := .conflict
  code := "jobu.run.schedule_conflict"
  message := "The job already has a schedule-owned non-terminal run"

def manualConflict : Error where
  category := .conflict
  code := "jobu.run.manual_conflict"
  message := "The job already has a non-terminal manual run"

/-- The JSON object with one text member. -/
def reasonObject (reason : String) : Json := ⟨"\x7b\"reason\":\"" ++ reason ++ "\"\x7d"⟩

/-- `find_by_id`. -/
def findById (env : Environment) (id : Uuid) : Txn (Option JobRun) :=
  query fun db => decodeFound (decodeRun env) (db.runs.find? id)

variable {id : Uuid} {found : Option JobRun}

theorem yields_findById (h : Yields (findById env id) db found db') : db' = db :=
  ((yields_query _ _ _ _).1 h).2

theorem yields_findById_some : Yields (findById env id) db (some run) db' ↔
    db' = db ∧ run ∈ db.runs ∧ run.id = id ∧ RunShape env run := by
  simp only [findById, yields_query, decodeFound_some, decodeRun_ok, find?_eq_some]
  constructor
  · rintro ⟨⟨_, ⟨hr, hi⟩, rfl, hs⟩, rfl⟩
    exact ⟨rfl, hr, hi, hs⟩
  · rintro ⟨rfl, hr, hi, hs⟩
    exact ⟨⟨run, ⟨hr, hi⟩, rfl, hs⟩, rfl⟩

/-- `find_schedule_owned`. -/
def findScheduleOwned (env : Environment) (jobId : Uuid) : Txn (Option JobRun) :=
  query fun db =>
    match db.runs.select fun run => run.jobId = jobId && run.isLiveOwned with
    | [] => .ok none
    | [run] => decodeFound (decodeRun env) (some run)
    | run :: _ :: _ => do
      let _ ← decodeRun env run
      .error (invalidRun "multiple_schedule_owned_runs")

/-- The run that is found is the only one. -/
theorem yields_findScheduleOwned (h : Yields (findScheduleOwned env jobId) db found db') : db' = db ∧
    db.runs.IsOnly (fun run => run.jobId = jobId && run.isLiveOwned) found := by
  obtain ⟨h, rfl⟩ := (yields_query _ _ _ _).1 h
  refine ⟨rfl, ?_⟩
  split at h
  next hse =>
    obtain rfl : none = found := Except.ok.inj h
    exact isOnly_of_select hse
  next _ hse =>
    cases found with
    | none => simp at h
    | some =>
      obtain ⟨_, hr, hd⟩ := decodeFound_some.1 h
      cases hr
      obtain ⟨rfl, -⟩ := decodeRun_ok.1 hd
      exact isOnly_of_select hse
  · simp only [except_bind_eq_ok] at h
    obtain ⟨_, -, h⟩ := h
    cases h

theorem yields_findScheduleOwned_none (h : db.runs.IsOnly (fun run => run.jobId = jobId && run.isLiveOwned) none) :
    Yields (findScheduleOwned env jobId) db none db := by
  refine (yields_query _ _ _ _).2 ⟨?_, rfl⟩
  rw [h.select]
  rfl

/-- `has_non_terminal_manual_run`. -/
def hasNonTerminalManualRun (jobId : Uuid) : Txn Bool := do
  let manual ← look fun db => db.runs.select fun run => run.jobId = jobId && run.isLiveManual
  require (manual.length ≤ 1 ∧ (manual.all fun run => !run.scheduleOwned) = true)
    (invalidRun "manual_run_relationship")
  pure (manual.length = 1)

variable {b : Bool}

theorem yields_hasNonTerminalManualRun (h : Yields (hasNonTerminalManualRun jobId) db b db') : db' = db ∧
    (b = false → db.runs.IsOnly (fun run => run.jobId = jobId && run.isLiveManual) none) := by
  simp only [hasNonTerminalManualRun, yields_steps] at h
  obtain ⟨_, _, ⟨rfl, rfl⟩, _, _, ⟨⟨_, -⟩, rfl⟩, rfl, rfl⟩ := h
  refine ⟨rfl, fun hb => isOnly_of_select ?_⟩
  rw [decide_eq_false_iff_not] at hb
  exact List.length_eq_zero_iff.1 (by omega)

/-- `has_running_or_retrying_run`. -/
def hasRunningOrRetryingRun (jobId : Uuid) : Txn Bool :=
  look fun db => db.runs.rows.any fun run =>
    run.jobId = jobId && (run.state = .running || run.state = .retryWait)

/-- How a new run is measured. -/
inductive InitialMeasurement where
  | complete | unmeasured
deriving DecidableEq

def InitialMeasurement.status : InitialMeasurement → MeasurementStatus
  | .complete => .complete
  | .unmeasured => .unmeasured

/-- The stored form of a run that starts waiting. -/
def stored (run : JobRun) : JobRun :=
  { run with plannedAt := storedTime run.plannedAt, runnableAt := storedTime run.runnableAt }

/-- Inserts a run row and its timing row; its owners have to exist. -/
def insertWithTiming (run : JobRun) (measurement : InitialMeasurement) : Txn Unit := do
  require (1 ≤ run.jobRevision ∧ run.jobRevision ≤ maximumRevision) (invalidInteger "run_job_revision")
  let owners ← look fun db =>
    (db.jobs.find? run.jobId).isSome && (db.queues.find? run.queueId).isSome
  require (owners = true) foreignKeyViolation
  insertRow runTable run uniqueViolation
  insertRow timingTable { runId := run.id, status := measurement.status } uniqueViolation

theorem yields_insertWithTiming : Yields (insertWithTiming run measurement) db u db' ↔
    (1 ≤ run.jobRevision ∧ run.jobRevision ≤ maximumRevision) ∧
    ((∃ job ∈ db.jobs, job.id = run.jobId) ∧ ∃ queue ∈ db.queues, queue.id = run.queueId) ∧
    db.runs.find? run.id = none ∧ db.timings.find? run.id = none ∧
    db' = { db with
      runs := db.runs.insert run
      timings := db.timings.insert { runId := run.id, status := measurement.status } } := by
  have how : (db.jobs.find? run.jobId).isSome = true ∧
    (db.queues.find? run.queueId).isSome = true ↔ (∃ job ∈ db.jobs, job.id = run.jobId) ∧
      ∃ queue ∈ db.queues, queue.id = run.queueId := by
    simp only [isSome_iff_exists, find?_eq_some]
    rfl
  simp only [insertWithTiming, yields_steps, yields_insertRow]
  constructor
  · rintro ⟨_, _, ⟨hre, rfl⟩, _, _, ⟨rfl, rfl⟩, _, _, ⟨ho, rfl⟩, _, _, ⟨hr, rfl⟩, ht, rfl⟩
    rw [Bool.and_eq_true] at ho
    exact ⟨hre, how.1 ho, hr, ht, rfl⟩
  · rintro ⟨hre, ho, hr, ht, rfl⟩
    exact ⟨(), db, ⟨hre, rfl⟩, _, db, ⟨rfl, rfl⟩, (), db,
      ⟨(Bool.and_eq_true _ _).trans (eq_true (how.2 ho)) |>.mpr trivial, rfl⟩, (), _, ⟨hr, rfl⟩, ht, rfl⟩

/-- `insert_schedule_owned` for a run in state `scheduled`, the only state callers insert. -/
def insertScheduleOwned (env : Environment) (run : JobRun) (measurement : InitialMeasurement) : Txn Unit := do
  require (run.scheduleOwned = true ∧ run.origin = .scheduled)
    (invalidRun "insert_not_schedule_owned")
  require (run.state = .scheduled ∧ run.completedAt = none ∧ run.result = none ∧
    run.startedAt = none) (invalidRun "insert_state_mismatch")
  require (env.registry.isComplete run.type run.attributes = true) invalidAttributes
  let existing ← findScheduleOwned env run.jobId
  require (existing.isNone = true) scheduleConflict
  insertWithTiming (stored run) measurement

/-- A run in the state every run is inserted in. -/
structure IsNew (env : Environment) (run : JobRun) : Prop where
  state : run.state = .scheduled
  startedAt : run.startedAt = none
  completedAt : run.completedAt = none
  result : run.result = none
  attributes : env.registry.isComplete run.type run.attributes = true
  revision : 1 ≤ run.jobRevision ∧ run.jobRevision ≤ maximumRevision

/-- What inserting a run does. -/
structure Inserts (env : Environment) (run : JobRun) (measurement : InitialMeasurement) (db db' : Database) : Prop where
  new : IsNew env run
  job : ∃ job ∈ db.jobs, job.id = run.jobId
  queue : ∃ queue ∈ db.queues, queue.id = run.queueId
  free : db.runs.find? run.id = none
  untimed : db.timings.find? run.id = none
  eq : db' = { db with
    runs := db.runs.insert (stored run)
    timings := db.timings.insert { runId := run.id, status := measurement.status } }

theorem yields_insertScheduleOwned : Yields (insertScheduleOwned env run measurement) db u db' ↔
    (run.scheduleOwned = true ∧ run.origin = .scheduled) ∧
    db.runs.IsOnly (fun other => other.jobId = run.jobId && other.isLiveOwned) none ∧
    Inserts env run measurement db db' := by
  simp only [insertScheduleOwned, yields_steps]
  constructor
  · rintro ⟨_, _, ⟨ho, rfl⟩, _, _, ⟨⟨hs, hc, hr, hst⟩, rfl⟩, _, _, ⟨ha, rfl⟩, _, _, hfo, _, _, ⟨hn, rfl⟩, h⟩
    obtain ⟨rfl, hon⟩ := yields_findScheduleOwned hfo
    obtain ⟨hre, ⟨hj, hq⟩, hfr, hti, rfl⟩ := yields_insertWithTiming.1 h
    rw [isNone_iff_eq_none] at hn
    exact ⟨ho, hn ▸ hon, ⟨hs, hst, hc, hr, ha, hre⟩, hj, hq, hfr, hti, rfl⟩
  · rintro ⟨ho, hon, ⟨hs, hst, hc, hr, ha, hre⟩, hj, hq, hfr, hti, rfl⟩
    exact ⟨(), db, ⟨ho, rfl⟩, (), db, ⟨⟨hs, hc, hr, hst⟩, rfl⟩, (), db, ⟨ha, rfl⟩, none, db,
      yields_findScheduleOwned_none hon, (), db, ⟨rfl, rfl⟩,
      yields_insertWithTiming.2 ⟨hre, ⟨hj, hq⟩, hfr, hti, rfl⟩⟩

/-- `insert_manual`. -/
def insertManual (env : Environment) (run : JobRun) (measurement : InitialMeasurement) : Txn Unit := do
  require (run.origin = .manual ∧ run.scheduleOwned = false) (invalidRun "insert_not_manual")
  require (run.state = .scheduled ∧ run.plannedAt = run.runnableAt ∧ run.startedAt = none ∧
    run.completedAt = none ∧ run.result = none) (invalidRun "insert_state_mismatch")
  require (env.registry.isComplete run.type run.attributes = true) invalidAttributes
  let existing ← hasNonTerminalManualRun run.jobId
  require (existing = false) manualConflict
  insertWithTiming (stored run) measurement

theorem yields_insertManual (h : Yields (insertManual env run measurement) db u db') :
    (run.origin = .manual ∧ run.scheduleOwned = false) ∧
      db.runs.IsOnly (fun other => other.jobId = run.jobId && other.isLiveManual) none ∧
      Inserts env run measurement db db' := by
  simp only [insertManual, yields_steps] at h
  obtain ⟨_, _, ⟨ho, rfl⟩, _, _, ⟨⟨hs, -, hst, hc, hr⟩, rfl⟩, _, _, ⟨ha, rfl⟩, _, _, hfo, _, _,
    ⟨hn, rfl⟩, h⟩ := h
  obtain ⟨rfl, hon⟩ := yields_hasNonTerminalManualRun hfo
  obtain ⟨hre, ⟨hj, hq⟩, hfr, hti, rfl⟩ := yields_insertWithTiming.1 h
  exact ⟨ho, hon hn, ⟨hs, hst, hc, hr, ha, hre⟩, hj, hq, hfr, hti, rfl⟩

/-- The definition fields a run copies. -/
structure Snapshot where
  jobRevision : Nat
  queueId : Uuid
  plannedAt : Int
  runnableAt : Int
  type : JobType
  priority : Int
  attributes : AttributeSet
  payload : Json

/-- The rows `refresh_unstarted_schedule_owned` affects. -/
def unstarted (db : Database) (jobId : Uuid) (run : JobRun) : Bool :=
  run.jobId = jobId && run.scheduleOwned && run.state = .scheduled && (db.attemptsOf run.id).isEmpty

/-- The columns a refresh sets. -/
def refreshed (snapshot : Snapshot) (row : JobRun) : JobRun :=
  { row with
    jobRevision := snapshot.jobRevision
    queueId := snapshot.queueId
    plannedAt := storedTime snapshot.plannedAt
    runnableAt := storedTime snapshot.runnableAt
    type := snapshot.type
    priority := snapshot.priority
    attributes := snapshot.attributes
    payload := snapshot.payload }

theorem key_refreshed (snapshot : Snapshot) (row : JobRun) : Keyed.key (refreshed snapshot row) = Keyed.key row := rfl

/-- `refresh_unstarted_schedule_owned`. -/
def refreshUnstartedScheduleOwned (env : Environment) (jobId : Uuid) (snapshot : Snapshot) : Txn Bool := do
  require (env.registry.isComplete snapshot.type snapshot.attributes = true) invalidAttributes
  require (1 ≤ snapshot.jobRevision ∧ snapshot.jobRevision ≤ maximumRevision)
    (invalidInteger "run_job_revision")
  let affected ← look fun db => db.runs.count (unstarted db jobId)
  write fun db =>
    { db with
      runs := db.runs.update (unstarted db jobId) (refreshed snapshot) (key_refreshed snapshot) }
  pure (affected = 1)

theorem yields_refreshUnstartedScheduleOwned {snapshot : Snapshot}
    (h : Yields (refreshUnstartedScheduleOwned env jobId snapshot) db b db') :
    env.registry.isComplete snapshot.type snapshot.attributes = true ∧
      (1 ≤ snapshot.jobRevision ∧ snapshot.jobRevision ≤ maximumRevision) ∧
      db' = { db with
        runs := db.runs.update (unstarted db jobId) (refreshed snapshot)
          fun _ => rfl } := by
  simp only [refreshUnstartedScheduleOwned, yields_steps] at h
  obtain ⟨_, _, ⟨ha, rfl⟩, _, _, ⟨hr, rfl⟩, _, _, ⟨-, rfl⟩, _, _, rfl, -, rfl⟩ := h
  exact ⟨ha, hr, rfl⟩

/-- The columns a move sets. -/
def moved (targetQueueId : Uuid) (nextRevision : Nat) (row : JobRun) : JobRun :=
  { row with queueId := targetQueueId, jobRevision := nextRevision }

theorem key_moved (targetQueueId : Uuid) (nextRevision : Nat) (row : JobRun) :
    Keyed.key (moved targetQueueId nextRevision row) = Keyed.key row := rfl

/-- `move_non_terminal`: the live runs of a job follow it, a running one included. -/
def moveNonTerminal (jobId targetQueueId : Uuid) (nextRevision : Nat) : Txn Nat := do
  let affected ← look fun db => db.runs.count fun run => run.jobId = jobId && run.isLive
  write fun db =>
    { db with
      runs := db.runs.update (fun run => run.jobId = jobId && run.isLive)
        (moved targetQueueId nextRevision) (key_moved targetQueueId nextRevision) }
  pure affected

/-- The columns a cancellation sets. -/
def cancelled (completedAt : Int) (reason : String) (row : JobRun) : JobRun :=
  { row with
    state := .cancelled
    completedAt := some (storedTime completedAt)
    result := some (reasonObject reason) }

theorem key_cancelled (completedAt : Int) (reason : String) (row : JobRun) :
    Keyed.key (cancelled completedAt reason row) = Keyed.key row := rfl

/-- `cancel_pending`, over the runs a selector names. -/
def cancelPending (selected : JobRun → Bool) (completedAt : Int) (reason : String) : Txn Nat := do
  let affected ← look fun db => db.runs.count fun run => selected run && run.state.isPending
  write fun db =>
    { db with
      runs := db.runs.update (fun run => selected run && run.state.isPending)
        (cancelled completedAt reason) (key_cancelled completedAt reason) }
  pure affected

/-- `cancel_pending_for_job`. -/
def cancelPendingForJob (jobId : Uuid) (completedAt : Int) (reason : String) : Txn Nat :=
  cancelPending (fun run => run.jobId = jobId) completedAt reason

/-- `cancel_pending_for_queue`. -/
def cancelPendingForQueue (queueId : Uuid) (completedAt : Int) (reason : String) : Txn Nat :=
  cancelPending (fun run => run.queueId = queueId) completedAt reason

/-- `count_running`, over the runs a selector names. -/
def countRunning (selected : JobRun → Bool) : Txn Nat :=
  look fun db => db.runs.count fun run => selected run && run.state = .running

theorem yields_countRunning {selected : JobRun → Bool} {count : Nat}
    (h : Yields (countRunning selected) db count db') : db' = db ∧
      (count = 0 ↔ ∀ run ∈ db.runs, selected run = true → run.state ≠ .running) := by
  obtain ⟨rfl, rfl⟩ := (yields_look _ _ _ _).1 h
  refine ⟨rfl, count_eq_zero.trans (forall_congr' fun run => imp_congr_right fun _ => ?_)⟩
  simp

/-- `count_running_for_job`. -/
def countRunningForJob (jobId : Uuid) : Txn Nat := countRunning fun run => run.jobId = jobId

/-- `count_running_for_queue`. -/
def countRunningForQueue (queueId : Uuid) : Txn Nat := countRunning fun run => run.queueId = queueId

end Runs

namespace Attempts

/-- The row of a new attempt. -/
def stored (attempt : JobAttempt) : JobAttempt :=
  { attempt with
    dueAt := storedTime attempt.dueAt
    startedAt := attempt.startedAt.map storedTime
    completedAt := attempt.completedAt.map storedTime }

/-- `insert_attempt`; the run has to exist. -/
def insertAttempt (attempt : JobAttempt) : Txn Unit := do
  require (validAttemptState attempt = true) (invalidAttempt "insert_state_fields_mismatch")
  require (1 ≤ attempt.attemptNumber ∧ attempt.attemptNumber ≤ maximumAttemptNumber)
    (invalidInteger "attempt_number")
  let run ← look fun db => db.runs.find? attempt.runId
  require (run.isSome = true) foreignKeyViolation
  insertRow attemptTable (stored attempt) uniqueViolation

theorem yields_insertAttempt {attempt : JobAttempt} (h : Yields (insertAttempt attempt) db u db') :
    (1 ≤ attempt.attemptNumber ∧ attempt.attemptNumber ≤ maximumAttemptNumber) ∧
      (∃ run ∈ db.runs, run.id = attempt.runId) ∧ db.attempts.find? (Keyed.key (stored attempt)) = none ∧
      db' = { db with attempts := db.attempts.insert (stored attempt) } := by
  simp only [insertAttempt, yields_steps, yields_insertRow, exists_and_left, exists_eq_left, exists_const, and_assoc] at h
  obtain ⟨-, hl, hh, hr, hn, rfl⟩ := h
  obtain ⟨run, hfi⟩ := isSome_iff_exists.1 hr
  exact ⟨⟨hl, hh⟩, ⟨run, find?_eq_some.1 hfi⟩, hn, rfl⟩

/-- `find`. -/
def find (key : AttemptKey) : Txn (Option JobAttempt) :=
  query fun db => decodeFound decodeAttempt (db.attempts.find? key)

/-- The output row after a later report. -/
def replaced (output row : AttemptOutput) : AttemptOutput :=
  { row with
    stdout := output.stdout
    stderr := output.stderr
    stdoutTruncated := output.stdoutTruncated
    stderrTruncated := output.stderrTruncated
    captureLost := output.captureLost }

theorem key_replaced (output row : AttemptOutput) : Keyed.key (replaced output row) = Keyed.key row := rfl

/-- `insert_or_replace_output`; the attempt has to exist. -/
def insertOrReplaceOutput (output : AttemptOutput) : Txn Unit := do
  let existing ← look fun db => db.outputs.find? ⟨output.runId, output.attemptNumber⟩
  if existing.isSome then
    write fun db =>
      { db with
        outputs := db.outputs.modify ⟨output.runId, output.attemptNumber⟩ (replaced output)
          (key_replaced output) }
  else do
    let attempt ← look fun db => db.attempts.find? ⟨output.runId, output.attemptNumber⟩
    require (attempt.isSome = true) foreignKeyViolation
    insertRow outputTable output uniqueViolation

/-- Every output row is an old one, or that of the given attempt. -/
theorem yields_insertOrReplaceOutput {output : AttemptOutput}
    (h : Yields (insertOrReplaceOutput output) db u db') : ∃ outputs : Table AttemptOutput,
      db' = { db with outputs } ∧ ∀ o ∈ outputs, (∃ o' ∈ db.outputs, (Keyed.key o' : AttemptKey) = Keyed.key o) ∨
          (Keyed.key o : AttemptKey) = ⟨output.runId, output.attemptNumber⟩ := by
  simp only [insertOrReplaceOutput, yields_steps, yields_ite, yields_insertRow, exists_and_left, exists_eq_left, exists_const, and_assoc] at h
  split at h
  · subst h
    refine ⟨_, rfl, fun o ho => .inl ?_⟩
    rcases (mem_modify (key_replaced output)).1 ho with ⟨o', ho', -, rfl⟩ | ⟨ho', -⟩
    · exact ⟨o', ho', rfl⟩
    · exact ⟨o, ho', rfl⟩
  obtain ⟨-, hn, rfl⟩ := h
  refine ⟨_, rfl, fun o ho => ?_⟩
  rcases (mem_insert hn).1 ho with rfl | ho
  · exact .inr rfl
  · exact .inl ⟨o, ho, rfl⟩

/-- `has_any_for_run`. -/
def hasAnyForRun (runId : Uuid) : Txn Bool :=
  look fun db => !(db.attemptsOf runId).isEmpty

/-- `has_started_for_job`. -/
def hasStartedForJob (jobId : Uuid) : Txn Bool :=
  look fun db => db.attempts.rows.any fun attempt =>
    attempt.startedAt.isSome && ((db.runs.find? attempt.runId).any fun run => run.jobId = jobId)

end Attempts

end Jobu
