import Jobu.Repository.Runs

/-!
# Job lifecycle and recurrence

`job_lifecycle_priv.cpp` and `recurrence_priv.cpp`.  When a run ends, a one-time job with no live
run left takes its final state, and a recurring job gets the next run of its schedule.

  > `yields_readNonterminalRuns`: a count that is returned is the count of the live rows, and every
  > one of them follows its job.
-/

namespace Jobu

open Lib List

namespace Lifecycle

variable {job : JobDefinition} {counts : NonterminalRunCounts} {db db' : Database} {env : Environment}
  {lowerBound : Int} {measurement : Runs.InitialMeasurement} {inserted : Bool}

def lifecycleInvariant (reason : String) : Error :=
  storageInvariant "Persisted job lifecycle violates a JobU invariant" reason

def revisionExhausted : Error where
  category := .resourceExhausted
  code := "jobu.job.revision_exhausted"
  message := "Job revision cannot be incremented"

structure NonterminalRunCounts where
  scheduled : Nat := 0
  manual : Nat := 0
deriving DecidableEq

/-- `valid_nonterminal_run_relationship`. -/
def validRelationship (state : JobState) (oneTime : Bool) (counts : NonterminalRunCounts) : Bool :=
  if 1 < counts.scheduled ∨ 1 < counts.manual then false
  else if state.isTerminal then oneTime && counts.scheduled = 0 && counts.manual = 0
  else if state = .deleted then true
  else if counts.manual = 1 ∧ counts.scheduled = 0 then oneTime
  else true

/-- The count a live run belongs to. -/
def countRun (counts : NonterminalRunCounts) (run : JobRun) : Except Error NonterminalRunCounts :=
  match run.origin, run.scheduleOwned with
  | .scheduled, true => .ok { counts with scheduled := counts.scheduled + 1 }
  | .manual, false => .ok { counts with manual := counts.manual + 1 }
  | _, _ => .error (lifecycleInvariant "nonterminal_run_origin")

/-- One row of `read_nonterminal_runs`. -/
def tallyRun (job : JobDefinition) (counts : NonterminalRunCounts) (run : JobRun) :
    Except Error NonterminalRunCounts := do
  ensure (run.queueId = job.queueId ∧ run.jobRevision ≤ job.revision)
    (lifecycleInvariant "nonterminal_run_ownership")
  let counts ← countRun counts run
  ensure (counts.scheduled + counts.manual ≤ 2) (lifecycleInvariant "nonterminal_run_count")
  pure counts

/-- The rows of `read_nonterminal_runs`, one after another. -/
def tallyRuns (job : JobDefinition) : NonterminalRunCounts → List JobRun → Except Error NonterminalRunCounts
  | counts, [] => .ok counts
  | counts, run :: rest => do
    let counts ← tallyRun job counts run
    tallyRuns job counts rest

/-- `read_nonterminal_runs`: at most three rows are read, and a third one is an error. -/
def readNonterminalRuns (job : JobDefinition) : Txn NonterminalRunCounts :=
  query fun db => tallyRuns job {} ((db.liveRuns job.id).take 3)

/-- A live run the tally accepts: it follows its job, and its origin says who owns it. -/
structure Tallied (job : JobDefinition) (run : JobRun) : Prop where
  follows : run.queueId = job.queueId ∧ run.jobRevision ≤ job.revision
  origin : (run.origin = .scheduled ∧ run.scheduleOwned = true) ∨ (run.origin = .manual ∧ run.scheduleOwned = false)

/-- The counts of some live runs. -/
def countsOf (runs : List JobRun) : NonterminalRunCounts where
  scheduled := runs.countP fun run => run.scheduleOwned
  manual := runs.countP fun run => !run.scheduleOwned

theorem countsOf_sum (runs : List JobRun) : (countsOf runs).scheduled + (countsOf runs).manual = runs.length := by
  simpa [countsOf] using (length_eq_countP_add_countP (fun run : JobRun => run.scheduleOwned)
    (l := runs)).symm

variable {counts' : NonterminalRunCounts}

theorem tallyRun_ok {run : JobRun} : tallyRun job counts run = .ok counts' ↔ Tallied job run ∧
    counts' = ⟨counts.scheduled + (countsOf [run]).scheduled,
      counts.manual + (countsOf [run]).manual⟩ ∧ counts'.scheduled + counts'.manual ≤ 2 := by
  simp only [tallyRun, except_steps]
  constructor
  · rintro ⟨_, hf, _, hc, _, hle, rfl⟩
    unfold countRun at hc
    split at hc
    next ho hs =>
      cases hc
      exact ⟨⟨hf, .inl ⟨ho, hs⟩⟩, by simp [countsOf, hs], hle⟩
    next ho hs =>
      cases hc
      exact ⟨⟨hf, .inr ⟨ho, hs⟩⟩, by simp [countsOf, hs], hle⟩
    · cases hc
  · rintro ⟨⟨hf, how⟩, rfl, hle⟩
    refine ⟨(), hf, _, ?_, (), hle, rfl⟩
    rcases how with ⟨ho, hs⟩ | ⟨ho, hs⟩ <;> simp [countRun, countsOf, ho, hs]

theorem tallyRuns_ok {runs : List JobRun} : tallyRuns job counts runs = .ok counts' ↔ (∀ run ∈ runs, Tallied job run) ∧
    counts' = ⟨counts.scheduled + (countsOf runs).scheduled, counts.manual + (countsOf runs).manual⟩ ∧
    (runs ≠ [] → counts'.scheduled + counts'.manual ≤ 2) := by
  induction runs generalizing counts with
  | nil => simp [tallyRuns, countsOf, eq_comm]
  | cons run rest ih =>
    have hsp : countsOf (run :: rest) = ⟨(countsOf [run]).scheduled + (countsOf rest).scheduled,
      (countsOf [run]).manual + (countsOf rest).manual⟩ := by
      simp only [countsOf, countP_cons, countP_nil, Nat.zero_add, Nat.add_comm]
    simp only [tallyRuns, except_bind_eq_ok, tallyRun_ok, ih, hsp, forall_mem_cons]
    constructor
    · rintro ⟨_, ⟨hr, rfl, hle⟩, hre, rfl, hl'⟩
      refine ⟨⟨hr, hre⟩, by simp only [Nat.add_assoc], fun _ => ?_⟩
      cases rest with
      | nil => simpa [countsOf] using hle
      | cons => exact hl' (cons_ne_nil _ _)
    · rintro ⟨⟨hr, hre⟩, rfl, hle⟩
      have hsu := hle (cons_ne_nil _ _)
      exact ⟨_, ⟨hr, rfl, by simp only at hsu ⊢; omega⟩, hre, by simp only [Nat.add_assoc], fun _ => hsu⟩

/-- **The count that is returned is the count of all live rows.** -/
theorem yields_readNonterminalRuns : Yields (readNonterminalRuns job) db counts db' ↔
    db' = db ∧ (∀ run ∈ db.liveRuns job.id, Tallied job run) ∧
      counts = countsOf (db.liveRuns job.id) ∧ (db.liveRuns job.id).length ≤ 2 := by
  simp only [readNonterminalRuns, yields_query, tallyRuns_ok, Nat.zero_add]
  constructor
  · rintro ⟨⟨hta, rfl, hle⟩, rfl⟩
    -- a third row would have been counted
    have hl : (db'.liveRuns job.id).length ≤ 2 := by
      by_contra hlt
      have htak : ((db'.liveRuns job.id).take 3).length = 3 := by
        rw [length_take]
        omega
      have hsu := countsOf_sum ((db'.liveRuns job.id).take 3)
      have hl' := hle fun hn => by rw [hn] at htak; cases htak
      simp only at hl'
      omega
    rw [take_of_length_le (by omega)] at hta ⊢
    exact ⟨rfl, hta, rfl, hl⟩
  · rintro ⟨rfl, hta, rfl, hl⟩
    rw [take_of_length_le (by omega)]
    exact ⟨⟨hta, rfl, fun _ => by rw [countsOf_sum]; exact hl⟩, rfl⟩

/-- `terminal_job_state`. -/
def terminalJobState : RunState → Option JobState
  | .succeeded => some .succeeded
  | .failed | .interrupted => some .failed
  | .cancelled => some .cancelled
  | .scheduled | .running | .retryWait => none

/-- `finish_after_terminal_run`; the value says whether the job ended. -/
def finishAfterTerminalRun (env : Environment) (runId : Uuid) (transitionTime : Int) : Txn Bool := do
  let found ← Runs.findById env runId
  let run ← demand found (lifecycleInvariant "missing_terminal_run")
  let nextState ← demand (terminalJobState run.state) (lifecycleInvariant "invalid_terminal_run")
  require (run.completedAt.isSome = true ∧ run.result.isSome = true ∧ run.origin ≠ .submitted ∧
    (run.scheduleOwned = true ↔ run.origin = .scheduled)) (lifecycleInvariant "invalid_terminal_run")
  let owner ← Jobs.findById env run.jobId true
  let job ← demand owner (lifecycleInvariant "invalid_terminal_owner")
  require (run.jobRevision ≤ job.revision) (lifecycleInvariant "invalid_terminal_owner")
  if job.state = .deleted ∨ job.schedule.isOnce = false then
    pure false
  else do
    let counts ← readNonterminalRuns job
    require (validRelationship job.state true counts = true)
      (lifecycleInvariant "nonterminal_run_relationship")
    if job.state.isTerminal ∨ counts.scheduled ≠ 0 ∨ counts.manual ≠ 0 then
      pure false
    else do
      require (job.revision < maximumRevision) revisionExhausted
      let transitioned ←
        Jobs.setState job.id job.state nextState job.revision (job.revision + 1) transitionTime
      require (transitioned = true) (lifecycleInvariant "terminal_job_state_changed")
      pure true

/-- A run that has ended, the state it would leave its job in, and the job. -/
structure EndedRun (env : Environment) (db : Database) (runId : Uuid) (run : JobRun)
    (next : JobState) (job : JobDefinition) : Prop where
  mem : run ∈ db.runs
  id : run.id = runId
  shape : RunShape env run
  next : terminalJobState run.state = some next
  ended : run.completedAt.isSome = true ∧ run.result.isSome = true ∧ run.origin ≠ .submitted ∧
    (run.scheduleOwned = true ↔ run.origin = .scheduled)
  owner : job ∈ db.jobs ∧ job.id = run.jobId ∧ JobShape env job
  revision : run.jobRevision ≤ job.revision

/-- The live runs of a one-time job are as its state allows. -/
structure Countable (db : Database) (job : JobDefinition) : Prop where
  tallied : ∀ run ∈ db.liveRuns job.id, Tallied job run
  few : (db.liveRuns job.id).length ≤ 2
  valid : validRelationship job.state true (countsOf (db.liveRuns job.id)) = true

variable {runId : Uuid} {transitionTime : Int} {finished : Bool}

/-- **A one-time job ends with its last run; any other job goes on.** -/
theorem yields_finishAfterTerminalRun : Yields (finishAfterTerminalRun env runId transitionTime) db finished db' ↔
      ∃ run next job, EndedRun env db runId run next job ∧
        ((finished = false ∧ db' = db ∧ (job.state = .deleted ∨ job.schedule.isOnce = false)) ∨
          (job.state ≠ .deleted ∧ job.schedule.isOnce = true ∧ Countable db job ∧
            ((finished = false ∧ db' = db ∧ (job.state.isTerminal = true ∨ db.liveRuns job.id ≠ [])) ∨
              (finished = true ∧ job.state.isTerminal = false ∧ db.liveRuns job.id = [] ∧
                job.revision < maximumRevision ∧
                Yields (Jobs.setState job.id job.state next job.revision (job.revision + 1)
                  transitionTime) db true db')))) := by
  have hco : ∀ runs : List JobRun, (countsOf runs).scheduled ≠ 0 ∨ (countsOf runs).manual ≠ 0 ↔ runs ≠ [] := by
    intro runs
    have hsu := countsOf_sum runs
    rw [Ne, Ne, Ne, ← length_eq_zero_iff]
    omega
  simp only [finishAfterTerminalRun, yields_steps, yields_ite]
  constructor
  · rintro ⟨_, _, hfo, run, _, ⟨rfl, rfl⟩, next, _, ⟨hn, rfl⟩, _, _, ⟨he, rfl⟩, _, _, ho,
      job, _, ⟨rfl, rfl⟩, _, _, ⟨hre, rfl⟩, h⟩
    obtain ⟨rfl, hj, hi', -, hjs⟩ := Jobs.yields_findById_some.1 ho
    obtain ⟨rfl, hr, hi, hsh⟩ := Runs.yields_findById_some.1 hfo
    refine ⟨run, next, job, ⟨hr, hi, hsh, hn, he, ⟨hj, hi', hjs⟩, hre⟩, ?_⟩
    split at h
    next hg => exact .inl ⟨h.1, h.2, hg⟩
    rename_i hon
    rw [not_or, Bool.not_eq_false] at hon
    obtain ⟨_, _, hrea, _, _, ⟨hv, rfl⟩, h⟩ := h
    obtain ⟨rfl, hta, rfl, hfe⟩ := yields_readNonterminalRuns.1 hrea
    refine .inr ⟨hon.1, hon.2, ⟨hta, hfe, hv⟩, ?_⟩
    split at h
    next hl => exact .inl ⟨h.1, h.2, hl.imp_right (hco _).1⟩
    rename_i hno
    rw [hco, not_or, Bool.not_eq_true, not_not] at hno
    obtain ⟨_, _, ⟨hmax, rfl⟩, _, _, hse, _, _, ⟨rfl, rfl⟩, rfl, rfl⟩ := h
    exact .inr ⟨rfl, hno.1, hno.2, hmax, hse⟩
  · rintro ⟨run, next, job, ⟨hr, hi, hsh, hn, he, ⟨hj, hi', hjs⟩, hre⟩, h⟩
    refine ⟨some run, db, Runs.yields_findById_some.2 ⟨rfl, hr, hi, hsh⟩, run, db, ⟨rfl, rfl⟩,
      next, db, ⟨hn, rfl⟩, (), db, ⟨he, rfl⟩, some job, db,
      Jobs.yields_findById_some.2 ⟨rfl, hj, hi', .inl rfl, hjs⟩, job, db, ⟨rfl, rfl⟩, (), db, ⟨hre, rfl⟩, ?_⟩
    rcases h with ⟨rfl, rfl, hg⟩ | ⟨hd, hon, hc, h⟩
    · rw [if_pos hg]
      exact ⟨rfl, rfl⟩
    rw [if_neg (by rw [not_or, Bool.not_eq_false]; exact ⟨hd, hon⟩)]
    refine ⟨_, db, yields_readNonterminalRuns.2 ⟨rfl, hc.tallied, rfl, hc.few⟩, (), db,
      ⟨hc.valid, rfl⟩, ?_⟩
    rcases h with ⟨rfl, rfl, hl⟩ | ⟨rfl, hop, hno, hmax, hse⟩
    · rw [if_pos (hl.imp_right (hco _).2)]
      exact ⟨rfl, rfl⟩
    · rw [if_neg (by rw [hco, not_or, Bool.not_eq_true, not_not]; exact ⟨hop, hno⟩)]
      exact ⟨(), db, ⟨hmax, rfl⟩, true, db', hse, (), db', ⟨rfl, rfl⟩, rfl, rfl⟩

/-- The end of a job touches nothing but the job. -/
theorem finishAfterTerminalRun_jobs (h : Yields (finishAfterTerminalRun env runId transitionTime) db finished db') :
    ∃ jobs, db' = { db with jobs } := by
  obtain ⟨_, _, _, -, ⟨-, rfl, -⟩ | ⟨-, -, -, ⟨-, rfl, -⟩ | ⟨-, -, -, -, hse⟩⟩⟩ :=
    yields_finishAfterTerminalRun.1 h
  · exact ⟨_, rfl⟩
  · exact ⟨_, rfl⟩
  · exact ⟨_, (Jobs.yields_setState_true.1 hse).2.2.2⟩

/-- `validate_job_lifecycle`. -/
def validateJobLifecycle (job : JobDefinition) : Txn Unit := do
  let counts ← readNonterminalRuns job
  require (validRelationship job.state job.schedule.isOnce counts = true)
    (lifecycleInvariant "nonterminal_run_relationship")
  require (¬ (job.state ≠ .deleted ∧ job.schedule.isOnce = true ∧ job.state.isTerminal = false ∧
    counts.scheduled = 0 ∧ counts.manual = 0)) (lifecycleInvariant "unfinished_once_without_work")

/-! ## Recurrence -/

def recurrenceInvariant (reason : String) : Error :=
  storageInvariant "Persisted recurring scheduler state is inconsistent" reason

/-- The run a definition is due at an instant. -/
def scheduledRun (definition : JobDefinition) (id : Uuid) (plannedAt : Int) : JobRun where
  id := id
  jobId := definition.id
  jobRevision := definition.revision
  queueId := definition.queueId
  origin := .scheduled
  scheduleOwned := true
  plannedAt := plannedAt
  runnableAt := plannedAt
  type := definition.type
  priority := definition.priority
  attributes := definition.attributes
  payload := definition.payload

/-- `insert_recurring_run`. -/
def insertRecurringRun (env : Environment) (generate : Database → Except Error Uuid)
    (definition : JobDefinition) (lowerBound : Int) (measurement : Runs.InitialMeasurement) :
    Txn Bool :=
  if definition.state = .deleted then pure false
  else match definition.schedule with
    | .once _ => pure false
    | .cron expression timezone => do
      lift (env.cron.validate expression timezone)
      let next ← lift (env.cron.nextAfter expression timezone lowerBound)
      require (lowerBound < next) (recurrenceInvariant "non_future_successor")
      let runId ← query generate
      Runs.insertScheduleOwned env (scheduledRun definition runId next) measurement
      pure true

/-- The next occurrence of a recurring job after an instant. -/
structure NextOccurrence (env : Environment) (definition : JobDefinition) (lowerBound next : Int) : Prop where
  live : definition.state ≠ .deleted
  cron : ∃ expression timezone, definition.schedule = .cron expression timezone ∧
    env.cron.validate expression timezone = .ok () ∧ env.cron.nextAfter expression timezone lowerBound = .ok next
  later : lowerBound < next

variable {generate : Database → Except Error Uuid} {definition : JobDefinition}

theorem yields_insertRecurringRun :
    Yields (insertRecurringRun env generate definition lowerBound measurement) db inserted db' ↔
      (inserted = false ∧ db' = db ∧ (definition.state = .deleted ∨ definition.schedule.isOnce = true)) ∨
      (inserted = true ∧ ∃ next id, NextOccurrence env definition lowerBound next ∧
        generate db = .ok id ∧ Yields (Runs.insertScheduleOwned env (scheduledRun definition id next)
          measurement) db () db') := by
  unfold insertRecurringRun
  by_cases hd : definition.state = .deleted
  · rw [if_pos hd, yields_pure]
    constructor
    · rintro ⟨rfl, rfl⟩
      exact .inl ⟨rfl, rfl, .inl hd⟩
    · rintro (⟨rfl, rfl, -⟩ | ⟨-, _, _, hn, -⟩)
      · exact ⟨rfl, rfl⟩
      · exact absurd hd hn.live
  rw [if_neg hd]
  cases hs : definition.schedule with
  | once =>
    simp only [yields_pure]
    constructor
    · rintro ⟨rfl, rfl⟩
      exact .inl ⟨rfl, rfl, .inr rfl⟩
    rintro (⟨rfl, rfl, -⟩ | ⟨-, _, _, hn, -⟩)
    · exact ⟨rfl, rfl⟩
    · obtain ⟨e, _, hc, -⟩ := hn.cron
      rw [hs] at hc
      cases hc
  | cron =>
    simp only [yields_steps]
    constructor
    · rintro ⟨_, _, ⟨hv, rfl⟩, next, _, ⟨hn, rfl⟩, _, _, ⟨hl, rfl⟩, id, _, ⟨hid, rfl⟩, _, _,
        hi, rfl, rfl⟩
      exact .inr ⟨rfl, next, id, ⟨hd, ⟨_, _, hs, hv, hn⟩, hl⟩, hid, hi⟩
    rintro (⟨-, -, hd' | ho⟩ | ⟨rfl, next, id, hoc, hid, hi⟩)
    · exact absurd hd' hd
    · cases ho
    obtain ⟨_, _, hc, hv, hn⟩ := hoc.cron
    rw [hs] at hc
    cases hc
    exact ⟨(), db, ⟨hv, rfl⟩, next, db, ⟨hn, rfl⟩, (), db, ⟨hoc.later, rfl⟩, id, db,
      ⟨hid, rfl⟩, (), db', hi, rfl, rfl⟩

/-- Recurrence adds at most one run with its timing. -/
theorem insertRecurringRun_inserts
    (h : Yields (insertRecurringRun env generate definition lowerBound measurement) db inserted db') :
    (inserted = false ∧ db' = db) ∨ (inserted = true ∧ ∃ next id,
      NextOccurrence env definition lowerBound next ∧ generate db = .ok id ∧
      Runs.Inserts env (scheduledRun definition id next) measurement db db') := by
  rcases yields_insertRecurringRun.1 h with ⟨rfl, rfl, -⟩ | ⟨rfl, next, id, hn, hid, hi⟩
  · exact .inl ⟨rfl, rfl⟩
  · exact .inr ⟨rfl, next, id, hn, hid, (Runs.yields_insertScheduleOwned.1 hi).2.2⟩

/-- `insert_recurring_successor`. -/
def insertRecurringSuccessor (env : Environment) (generate : Database → Except Error Uuid)
    (completedRun : JobRun) (lowerBound : Int) (measurement : Runs.InitialMeasurement) :
    Txn Bool :=
  if completedRun.scheduleOwned = false then pure false
  else do
    require (completedRun.origin = .scheduled) (recurrenceInvariant "schedule_owned_origin")
    let found ← Jobs.findById env completedRun.jobId true
    let definition ← demand found (recurrenceInvariant "missing_live_definition")
    insertRecurringRun env generate definition lowerBound measurement

theorem yields_insertRecurringSuccessor {completedRun : JobRun}
    (h : Yields (insertRecurringSuccessor env generate completedRun lowerBound measurement) db inserted db') :
    (completedRun.scheduleOwned = false ∧ db' = db) ∨ (completedRun.scheduleOwned = true ∧
      ∃ job ∈ db.jobs, job.id = completedRun.jobId ∧
        Yields (insertRecurringRun env generate job lowerBound measurement) db inserted db') := by
  simp only [insertRecurringSuccessor, yields_ite, yields_steps] at h
  split at h
  · exact .inl ⟨‹_›, h.2⟩
  obtain ⟨_, _, ⟨-, rfl⟩, _, _, hfo, job, _, ⟨rfl, rfl⟩, h⟩ := h
  obtain ⟨rfl, hj, hi, -⟩ := Jobs.yields_findById_some.1 hfo
  exact .inr ⟨by simpa using ‹¬ completedRun.scheduleOwned = false›, job, hj, hi, h⟩

end Lifecycle

end Jobu
