import Jobu.Recovery.Repository

/-!
# What a consistent database is

The rows of one run, and the rows of one job, have to agree with each other; everything else is
that references resolve.  The agreement of a run is about its attempts (`HistoryOk`), the agreement
of a job about its live runs (`Settled`): at most one that its schedule owns and one that Run Now
made, and which ones the state of the job asks for.

Inside a transaction the agreement is broken for a while, but only for the rows the transaction is
about.  `Consistent env E F` leaves out the jobs in `E` and the runs in `F`; a transaction starts
and ends with both empty.
-/

namespace Jobu

open Lib Table

/-! ## The rows of a run -/

/-- The last attempt, if any, against the state of its run. -/
def LastOk (run : JobRun) : Option JobAttempt → Prop
  | none => run.state = .scheduled ∨ (run.state = .cancelled ∧ run.startedAt = none)
  | some last =>
    match run.state with
    | .scheduled => False
    | .running => last.state = .running ∧ last.dueAt = run.runnableAt
    | .retryWait => Telemetry.isRetryHistory last = true
    | .succeeded | .failed | .interrupted | .cancelled =>
      (last.state = .completed ∧ last.outcome = some (Recovery.expectedOutcome run.state) ∧
        last.completedAt = run.completedAt ∧ last.dueAt = run.runnableAt) ∨
      (run.state = .cancelled ∧ Telemetry.isRetryHistory last = true)

/-- An attempt row by itself: it has started, and its columns fit its state. -/
structure AttemptSound (a : JobAttempt) : Prop where
  number : a.attemptNumber ≤ maximumAttemptNumber
  state : validAttemptState a = true
  started : a.startedAt.isSome = true

/-- The attempts of a run, in number order: numbered from one without a hole, all but the last
one failed or interrupted, and the last one as the state of the run says. -/
structure HistoryOk (run : JobRun) (attempts : List JobAttempt) : Prop where
  numbered : attempts.map JobAttempt.attemptNumber = List.range' 1 attempts.length
  sound : ∀ a ∈ attempts, AttemptSound a
  prior : ∀ a ∈ attempts.dropLast, Telemetry.isRetryHistory a = true
  first : ∀ a ∈ attempts.head?, run.startedAt = a.startedAt
  last : LastOk run attempts.getLast?

variable {run run' : JobRun} {attempts : List JobAttempt}

/-- The history looks at four columns of the run. -/
theorem HistoryOk.congr (h : HistoryOk run attempts)
    (hs : run'.state = run.state) (hst : run'.startedAt = run.startedAt)
    (hc : run'.completedAt = run.completedAt) (hr : run'.runnableAt = run.runnableAt ∨
      attempts = []) : HistoryOk run' attempts := by
  refine ⟨h.numbered, h.sound, h.prior, hst ▸ h.first, ?_⟩
  have hl := h.last
  rcases hr with hr | rfl
  · unfold LastOk at hl ⊢
    rwa [hs, hst, hc, hr]
  · simpa [LastOk, hs, hst] using hl

theorem HistoryOk.cancel (h : HistoryOk run attempts)
    (hp : run.state.isPending = true) (hn : run.state = .scheduled → run.startedAt = none)
    (hs : run'.state = .cancelled) (hst : run'.startedAt = run.startedAt) :
    HistoryOk run' attempts := by
  refine ⟨h.numbered, h.sound, h.prior, hst ▸ h.first, ?_⟩
  have hl := h.last
  unfold LastOk at hl ⊢
  split at hl
  · exact .inr ⟨hs, hst.trans (hn (hl.resolve_right fun hc => by rw [hc.1] at hp; cases hp))⟩
  rw [hs]
  split at hl
  · exact hl.elim
  next hr =>
    rw [hr] at hp
    cases hp
  · exact .inr ⟨rfl, hl⟩
  all_goals
    rename_i hr
    rw [hr] at hp
    cases hp

/-- A run row by itself and with the rows it refers to. -/
structure RunSound (env : Environment) (jobs : Table JobDefinition) (queues : Table Queue)
    (timings : Table RunTiming) (run : JobRun) : Prop where
  id : run.id ≠ Uuid.nil
  shape : RunShape env run
  /-- A stored instant has whole microseconds. -/
  aligned : storedTime run.runnableAt = run.runnableAt
  origin : run.origin ≠ .submitted ∧ (run.scheduleOwned = true ↔ run.origin = .scheduled)
  result : run.state.isTerminal = true → run.result.isSome = true
  job : ∃ job ∈ jobs, job.id = run.jobId ∧ run.jobRevision ≤ job.revision ∧ run.type = job.type
  queue : ∃ queue ∈ queues, queue.id = run.queueId
  timing : ∃ timing ∈ timings, timing.runId = run.id ∧ Telemetry.TimingShape run.state timing

/-! ## The rows of a job -/

/-- A job row by itself and with its queue. -/
structure JobSound (env : Environment) (queues : Table Queue) (job : JobDefinition) : Prop where
  shape : JobShape env job
  cron : ∀ expression timezone, job.schedule = .cron expression timezone →
    env.cron.validate expression timezone = .ok ()
  queue : ∃ queue ∈ queues, queue.id = job.queueId ∧ (job.state ≠ .deleted → queue.state ≠ .deleted)

/-- A live run of the job that its schedule owns. -/
def ownedBy (jobId : Uuid) (run : JobRun) : Bool := run.jobId = jobId && run.isLiveOwned

/-- A live manual run of the job. -/
def manualOf (jobId : Uuid) (run : JobRun) : Bool := run.jobId = jobId && run.isLiveManual

/-- The live runs of a job. -/
structure Work (runs : Table JobRun) (jobId : Uuid) (owned manual : Option JobRun) : Prop where
  owned : runs.IsOnly (ownedBy jobId) owned
  manual : runs.IsOnly (manualOf jobId) manual

/-- A live run follows its job. -/
structure Fits (job : JobDefinition) (run : JobRun) : Prop where
  queue : run.queueId = job.queueId
  revision : run.jobRevision ≤ job.revision

/-- The state of a job against its live runs. -/
structure JobOk (job : JobDefinition) (owned manual : Option JobRun) : Prop where
  ownedFits : ∀ run ∈ owned, Fits job run
  manualFits : ∀ run ∈ manual, Fits job run
  /-- A manual run holds the scheduled one back. -/
  barrier : manual.isSome = true → ∀ run ∈ owned, run.state = .scheduled
  ended : job.state = .deleted ∨ job.state.isTerminal = true → owned = none ∧ manual = none
  recurring : job.state ≠ .deleted → job.schedule.isOnce = false → owned.isSome = true
  unfinished : job.state ≠ .deleted → job.state.isTerminal = false → owned.isSome = true ∨ manual.isSome = true
  suspended : job.state = .suspended → ∀ run ∈ owned, run.state ≠ .running

/-- A job and its live runs agree. -/
def Settled (runs : Table JobRun) (job : JobDefinition) : Prop :=
  ∃ owned manual, Work runs job.id owned manual ∧ JobOk job owned manual

variable {job : JobDefinition}

theorem JobOk.of_deleted (h : job.state = .deleted) : JobOk job none none where
  ownedFits run hr := by cases hr
  manualFits run hr := by cases hr
  barrier hm := by cases hm
  ended _ := ⟨rfl, rfl⟩
  recurring hn := absurd h hn
  unfinished hn := absurd h hn
  suspended _ run hr := by cases hr

/-- A job that has just been created with its first run. -/
theorem JobOk.of_created (hs : job.state = .active) (hfi : Fits job run) : JobOk job (some run) none where
  ownedFits r hr := by
    cases hr
    exact hfi
  manualFits r hr := by cases hr
  barrier hm := by cases hm
  ended he := by simp [hs, JobState.isTerminal] at he
  recurring _ _ := rfl
  unfinished _ _ := .inl rfl
  suspended h := by rw [hs] at h; cases h

/-- What Run Now adds to the live runs of its job. -/
theorem JobOk.addManual {owned : JobRun}
    (h : JobOk job (some owned) none) (hs : owned.state = .scheduled) (hfi : Fits job run) :
    JobOk job (some owned) (some run) where
  ownedFits := h.ownedFits
  manualFits r hr := by
    cases hr
    exact hfi
  barrier _ r hr := by
    cases hr
    exact hs
  ended he := by cases (h.ended he).1
  recurring := h.recurring
  unfinished _ _ := .inl rfl
  suspended := h.suspended

/-! ## The database -/

/-- Every row is sound, and all jobs but those in `E` and all runs but those in `F` agree with
theirs. -/
structure Consistent (env : Environment) (E F : Uuid → Prop) (db : Database) : Prop where
  queues : ∀ queue ∈ db.queues, QueueShape env queue
  jobs : ∀ job ∈ db.jobs, JobSound env db.queues job
  runs : ∀ run ∈ db.runs, RunSound env db.jobs db.queues db.timings run
  settled : ∀ job ∈ db.jobs, ¬ E job.id → Settled db.runs job
  history : ∀ run ∈ db.runs, ¬ F run.id → HistoryOk run (db.attemptsOf run.id)
  attempts : ∀ a ∈ db.attempts, ∃ run ∈ db.runs, run.id = a.runId
  outputs : ∀ o ∈ db.outputs, ∃ a ∈ db.attempts, (Keyed.key a : AttemptKey) = Keyed.key o ∧ a.state = .completed
  timings : ∀ t ∈ db.timings, ∃ run ∈ db.runs, run.id = t.runId

/-- Nothing is left out. -/
def Nobody : Uuid → Prop := fun _ => False

/-- A database in which nothing is left out. -/
abbrev Intact (env : Environment) (db : Database) : Prop := Consistent env Nobody Nobody db

/-- Only one. -/
def Only (id : Uuid) : Uuid → Prop := fun other => other = id

theorem Only.self (id : Uuid) : Only id id := rfl

theorem consistent_empty (env : Environment) : Intact env {} where
  queues queue h := absurd h (not_mem_empty queue)
  jobs job h := absurd h (not_mem_empty job)
  runs run h := absurd h (not_mem_empty run)
  settled job h := absurd h (not_mem_empty job)
  history run h := absurd h (not_mem_empty run)
  attempts a h := absurd h (not_mem_empty a)
  outputs o h := absurd h (not_mem_empty o)
  timings t h := absurd h (not_mem_empty t)

namespace Consistent

variable {env : Environment} {E E' F F' : Uuid → Prop} {db : Database}

/-- More may be left out. -/
theorem weaken (h : Consistent env E F db) (hE : ∀ id, E id → E' id) (hF : ∀ id, F id → F' id) :
    Consistent env E' F' db :=
  { h with
    settled := fun job hj hn => h.settled job hj fun he => hn (hE _ he)
    history := fun run hr hn => h.history run hr fun hf => hn (hF _ hf) }

/-- What was left out has been brought back in order. -/
theorem close (h : Consistent env E F db) (hE : ∀ job ∈ db.jobs, E job.id → Settled db.runs job)
    (hF : ∀ run ∈ db.runs, F run.id → HistoryOk run (db.attemptsOf run.id)) :
    Intact env db :=
  { h with
    settled := fun job hj _ => by
      by_cases he : E job.id
      · exact hE job hj he
      · exact h.settled job hj he
    history := fun run hr _ => by
      by_cases hf : F run.id
      · exact hF run hr hf
      · exact h.history run hr hf }

/-- Only the six tables of jobs, runs and their rows matter. -/
theorem congr (h : Consistent env E F db) {db' : Database} (hq : db'.queues = db.queues)
    (hj : db'.jobs = db.jobs) (hr : db'.runs = db.runs) (ha : db'.attempts = db.attempts)
    (ho : db'.outputs = db.outputs) (ht : db'.timings = db.timings) : Consistent env E F db' := by
  have hat : ∀ id, db'.attemptsOf id = db.attemptsOf id := by
    intro _
    unfold Database.attemptsOf
    rw [ha]
  constructor
  · rw [hq]
    exact h.queues
  · rw [hj, hq]
    exact h.jobs
  · rw [hr, hj, hq, ht]
    exact h.runs
  · rw [hj, hr]
    exact h.settled
  · rw [hr]
    intro run hru hF
    rw [hat]
    exact h.history run hru hF
  · rw [ha, hr]
    exact h.attempts
  · rw [ho, ha]
    exact h.outputs
  · rw [ht, hr]
    exact h.timings

end Consistent

end Jobu
