import Jobu.Recovery.Passes

/-!
# What one unit of recovery does

Each step of a repair re-reads what it writes, so the specifications here are equivalences: what a
step needs to succeed, and the rows it leaves.

  > `yields_interruptRun`: one running attempt is closed, its run waits or ends, and the owners
  > that were waiting for it drain.
-/

namespace Jobu

open Lib Scheduler Table Lifecycle Runs Queues Jobs

namespace Recovery

variable {u : Unit} {run : JobRun} {k : AttemptKey} {runId jobId queueId : Uuid}
  {recoveryTime updatedAt : Int} {retry : Option Retry.Schedule} {drained : Bool} {report : Report}
  {s : State}

variable {env : Environment} {db db' : Database}
  {inputs : Inputs} {generate : Database → Except Error Uuid} {lower : Int}

theorem yields_validateTimestamp {t : Int} :
    Yields (validateTimestamp t) db u db' ↔ representable t ∧ db' = db := by
  simp only [validateTimestamp, yields_require]

variable {id : Uuid}

theorem yields_findRun : Yields (findRun env id) db run db' ↔
    db' = db ∧ db.runs.find? id = some run ∧ RunChecked env db run := by
  simp only [findRun, yields_query, checkRun_ok]
  exact and_comm

theorem yields_findQueue {queue : Queue} : Yields (findQueue env id) db queue db' ↔
    db' = db ∧ queue ∈ db.queues ∧ queue.id = id ∧ QueueShape env queue := by
  simp only [findQueue, yields_steps, yields_rewording]
  constructor
  · rintro ⟨_, _, hfo, rfl, rfl⟩
    obtain ⟨rfl, hq, hi, -, hsh⟩ := yields_findById_some.1 hfo
    exact ⟨rfl, hq, hi, hsh⟩
  · rintro ⟨rfl, hq, hi, hsh⟩
    exact ⟨some queue, db', yields_findById_some.2 ⟨rfl, hq, hi, .inl rfl, hsh⟩, rfl, rfl⟩

/-- A job with the queue it is in. -/
structure Owned (env : Environment) (db : Database) (job : JobDefinition) : Prop where
  mem : job ∈ db.jobs
  shape : JobShape env job
  queue : ∃ queue ∈ db.queues, queue.id = job.queueId ∧ QueueShape env queue ∧
    (queue.state = .deleted → job.state = .deleted)

theorem yields_findOwnedJob {job : JobDefinition} :
    Yields (findOwnedJob env id) db job db' ↔ db' = db ∧ job.id = id ∧ Owned env db job := by
  simp only [findOwnedJob, yields_steps, yields_rewording, yields_findQueue]
  constructor
  · rintro ⟨_, _, hfo, _, _, ⟨rfl, rfl⟩, queue, _, ⟨rfl, hq, hqi, hsh⟩, _, _, ⟨hd, rfl⟩, rfl, rfl⟩
    obtain ⟨rfl, hj, hi, -, hjs⟩ := yields_findById_some.1 hfo
    exact ⟨rfl, hi, hj, hjs, queue, hq, hqi, hsh, hd⟩
  · rintro ⟨rfl, hi, hj, hjs, queue, hq, hqi, hsh, hd⟩
    exact ⟨some job, db', yields_findById_some.2 ⟨rfl, hj, hi, .inl rfl, hjs⟩, job, db',
      ⟨rfl, rfl⟩, queue, db', ⟨rfl, hq, hqi, hsh⟩, (), db', ⟨hd, rfl⟩, rfl, rfl⟩

/-- A run that is in progress, and the attempt that is. -/
structure Current (env : Environment) (db : Database) (k : AttemptKey) (run : JobRun) : Prop where
  found : db.runs.find? k.runId = some run
  checked : RunChecked env db run
  running : run.state = .running
  attempt : ∃ a, db.attempts.find? k = some a ∧ a.state = .running ∧
    (1 ≤ a.attemptNumber ∧ a.attemptNumber ≤ maximumAttemptNumber) ∧ validAttemptState a = true

theorem yields_currentAttempt : Yields (currentAttempt env k) db run db' ↔ db' = db ∧ Current env db k run := by
  simp only [currentAttempt, Attempts.find, yields_steps, yields_findRun, yields_rewording]
  constructor
  · rintro ⟨_, _, ⟨rfl, hfo, hc⟩, _, _, ⟨hs, rfl⟩, _, _, ⟨ha, rfl⟩, _, _, ⟨hr, rfl⟩, rfl, rfl⟩
    obtain ⟨a, rfl, ha'⟩ := Option.any_eq_true _ _ |>.1 hr
    obtain ⟨_, hst, hd⟩ := decodeFound_some.1 ha
    obtain ⟨rfl, ho⟩ := decodeAttempt_ok.1 hd
    exact ⟨rfl, hfo, hc, hs, _, hst, of_decide_eq_true ha', ho⟩
  · rintro ⟨rfl, hfo, hc, hs, a, hst, ha, ho⟩
    exact ⟨run, db', ⟨rfl, hfo, hc⟩, (), db', ⟨hs, rfl⟩, some a, db',
      ⟨decodeFound_some.2 ⟨a, hst, decodeAttempt_ok.2 ⟨rfl, ho⟩⟩, rfl⟩, (), db',
      ⟨by simp [ha], rfl⟩, rfl, rfl⟩

theorem yields_findActiveAttempt {number : Nat} :
    Yields (findActiveAttempt runId) db (some number) db' ↔
      db' = db ∧ (1 ≤ number ∧ number ≤ maximumAttemptNumber) ∧ ∃ a, a.attemptNumber = number ∧
        db.attempts.IsOnly (fun a => a.runId = runId && a.state = .running) (some a) := by
  simp only [findActiveAttempt, yields_query]
  constructor
  · rintro ⟨h, rfl⟩
    split at h
    · cases h
    next a hse =>
      simp only [except_steps] at h
      obtain ⟨_, hn, he⟩ := h
      cases he
      exact ⟨rfl, hn, a, rfl, isOnly_of_select hse⟩
    · cases h
  · rintro ⟨rfl, hn, _, rfl, ho⟩
    refine ⟨?_, rfl⟩
    rw [ho.select]
    simp only [Option.toList_some, except_steps]
    exact ⟨(), hn, trivial⟩

/-! ## The retry decision -/

/-- The policy of the queue and the states of the owners decide about an interrupted run. -/
structure Decided (env : Environment) (db : Database) (k : AttemptKey) (recoveryTime : Int)
    (run : JobRun) (retry : Option Retry.Schedule) : Prop where
  current : Current env db k run
  decision : ∃ job ∈ db.jobs, ∃ queue ∈ db.queues, job.id = run.jobId ∧ queue.id = run.queueId ∧
    JobShape env job ∧ QueueShape env queue ∧ Retry.recoveryDecision run.attributes
      { runId := run.id
        attemptNumber := k.attemptNumber
        policy := queue.recoveryPolicy
        jobState := job.state
        queueState := queue.state
        recoveryTime } = .ok retry
  time : representable recoveryTime
  due : ∀ schedule ∈ retry, representable schedule.dueAt

theorem yields_findRetryDecision : Yields (findRetryDecision env k recoveryTime) db retry db' ↔
    db' = db ∧ ∃ run, Decided env db k recoveryTime run retry := by
  simp only [findRetryDecision, yields_steps, yields_currentAttempt, yields_rewording, yields_validateTimestamp]
  constructor
  · rintro ⟨run, _, ⟨rfl, hc⟩, _, _, hjo, _, _, hqu, job, _, ⟨rfl, rfl⟩, queue, _, ⟨rfl, rfl⟩,
      _, _, ⟨hd, rfl⟩, _, _, ⟨hti, rfl⟩, _, _, ⟨hdu, rfl⟩, rfl, rfl⟩
    obtain ⟨rfl, hq, hqi, -, hqs⟩ := yields_findById_some.1 hqu
    obtain ⟨rfl, hj, hji, -, hjs⟩ := yields_findById_some.1 hjo
    exact ⟨rfl, run, hc, ⟨job, hj, queue, hq, hji, hqi, hjs, hqs, hd⟩, hti, hdu⟩
  rintro ⟨rfl, run, hc, ⟨job, hj, queue, hq, hji, hqi, hjs, hqs, hd⟩, hti, hdu⟩
  exact ⟨run, db', ⟨rfl, hc⟩, some job, db',
    yields_findById_some.2 ⟨rfl, hj, hji, .inl rfl, hjs⟩, some queue, db',
    yields_findById_some.2 ⟨rfl, hq, hqi, .inl rfl, hqs⟩, job, db', ⟨rfl, rfl⟩, queue,
    db', ⟨rfl, rfl⟩, retry, db', ⟨hd, rfl⟩, (), db', ⟨hti, rfl⟩, (), db', ⟨hdu, rfl⟩, rfl, rfl⟩

/-! ## The interruption -/

/-- The database with an attempt closed as interrupted and its capture lost. -/
def interrupting (k : AttemptKey) (recoveryTime : Int) (db : Database) : Database :=
  { db with
    attempts := db.attempts.modify k (Scheduler.reported recoveryTime .interrupted interruptionResult)
      (Scheduler.key_reported recoveryTime .interrupted interruptionResult)
    outputs := db.outputs.insert (lostOutput k) }

theorem yields_interruptAttempt : Yields (interruptAttempt env k recoveryTime) db u db' ↔
    (∃ run, Current env db k run) ∧
    (∃ a ∈ db.attempts, (Keyed.key a : AttemptKey) = k ∧ isUnreported a = true) ∧
    db.outputs.find? k = none ∧ db' = interrupting k recoveryTime db := by
  simp only [interruptAttempt, yields_bind, yields_currentAttempt, yields_completeAttempt,
    yields_insertRow]
  constructor
  · rintro ⟨run, _, ⟨rfl, hc⟩, _, _, ⟨ha, rfl⟩, hfr, rfl⟩
    exact ⟨⟨run, hc⟩, ha, hfr, rfl⟩
  · rintro ⟨⟨run, hc⟩, ha, hfr, rfl⟩
    exact ⟨run, db, ⟨rfl, hc⟩, (), _, ⟨ha, rfl⟩, hfr, rfl⟩

theorem yields_setRunInterrupted : Yields (setRunInterrupted k recoveryTime) db u db' ↔
    (∃ run ∈ db.runs, run.id = k.runId ∧ isInterrupted db k recoveryTime run = true) ∧
    db' = { db with
      runs := db.runs.modify k.runId (ended .interrupted recoveryTime interruptionResult)
        fun _ => rfl } := by
  simp only [setRunInterrupted, yields_steps, yields_updateRow]
  constructor
  · rintro ⟨_, _, ⟨rfl, rfl⟩, _, _, ⟨-, hr, rfl⟩ | ⟨rfl, -⟩, hb, rfl⟩
    · exact ⟨hr, rfl⟩
    · cases hb
  · rintro ⟨hr, rfl⟩
    exact ⟨_, db, ⟨rfl, rfl⟩, true, _, .inl ⟨rfl, hr, rfl⟩, rfl, rfl⟩

theorem yields_setRunRetryWait {dueAt : Int} : Yields (setRunRetryWait k recoveryTime dueAt) db u db' ↔
    recoveryTime ≤ dueAt ∧
    (∃ run ∈ db.runs, run.id = k.runId ∧ (isInterrupted db k recoveryTime run && allowsRetry db run) = true) ∧
    db' = { db with
      runs := db.runs.modify k.runId (retrying dueAt) fun _ => rfl } := by
  simp only [setRunRetryWait, yields_steps, yields_updateRow]
  constructor
  · rintro ⟨_, _, ⟨hle, rfl⟩, _, _, ⟨rfl, rfl⟩, _, _, ⟨-, hr, rfl⟩ | ⟨rfl, -⟩, hb, rfl⟩
    · exact ⟨hle, hr, rfl⟩
    · cases hb
  · rintro ⟨hle, hr, rfl⟩
    exact ⟨(), db, ⟨hle, rfl⟩, _, db, ⟨rfl, rfl⟩, true, _, .inl ⟨rfl, hr, rfl⟩, rfl, rfl⟩

/-! ## Successors and drains -/

section Successor

variable {measurement : Runs.InitialMeasurement}

variable {inserted : Bool}

theorem yields_insertInterruptedSuccessor :
    Yields (insertInterruptedSuccessor env generate runId lower measurement) db inserted db' ↔
      representable lower ∧ ∃ run, db.runs.find? runId = some run ∧ RunChecked env db run ∧
        run.state = .interrupted ∧ ((run.scheduleOwned = false ∧ inserted = false ∧ db' = db) ∨
          (run.scheduleOwned = true ∧ ∃ job, job.id = run.jobId ∧ Owned env db job ∧
            Yields (insertRecurringRun env generate job lower measurement) db inserted
              db')) := by
  simp only [insertInterruptedSuccessor, yields_steps, yields_validateTimestamp, yields_findRun, yields_ite, yields_findOwnedJob, yields_rewording]
  constructor
  · rintro ⟨_, _, ⟨hl, rfl⟩, run, _, ⟨rfl, hfo, hc⟩, _, _, ⟨hs, rfl⟩, h⟩
    refine ⟨hl, run, hfo, hc, hs, ?_⟩
    split at h
    next hm => exact .inl ⟨hm, h⟩
    next ho =>
      obtain ⟨job, _, ⟨rfl, hi, hj⟩, h⟩ := h
      exact .inr ⟨Bool.not_eq_false _ ▸ ho, job, hi, hj, h⟩
  · rintro ⟨hl, run, hfo, hc, hs, h⟩
    refine ⟨(), db, ⟨hl, rfl⟩, run, db, ⟨rfl, hfo, hc⟩, (), db, ⟨hs, rfl⟩, ?_⟩
    rcases h with ⟨hm, h⟩ | ⟨ho, job, hi, hj, h⟩
    · rw [if_pos hm]
      exact h
    · rw [if_neg (by rw [ho]; exact Bool.noConfusion)]
      exact ⟨job, db, ⟨rfl, hi, hj⟩, h⟩

theorem yields_repairMissingSuccessor :
    Yields (repairMissingSuccessor env generate jobId lower measurement) db inserted db' ↔
      representable lower ∧ ∃ job, job.id = jobId ∧ Owned env db job ∧
        (((job.state = .deleted ∨ job.schedule.isOnce = true) ∧ inserted = false ∧ db' = db) ∨
          (¬ (job.state = .deleted ∨ job.schedule.isOnce = true) ∧
            ((∃ run, Yields (findScheduleOwned env jobId) db (some run) db ∧
              checkRun env db run.id = .ok run ∧ inserted = false ∧ db' = db) ∨
              (Yields (findScheduleOwned env jobId) db none db ∧ validateBarriers db job = .ok () ∧
                Yields (insertRecurringRun env generate job lower measurement) db inserted
                  db')))) := by
  simp only [repairMissingSuccessor, yields_steps, yields_validateTimestamp, yields_findOwnedJob, yields_ite, yields_rewording]
  constructor
  · rintro ⟨_, _, ⟨hl, rfl⟩, job, _, ⟨rfl, hi, hj⟩, h⟩
    refine ⟨hl, job, hi, hj, ?_⟩
    split at h
    next hen => exact .inl ⟨hen, h⟩
    rename_i ho
    obtain ⟨existing, _, he, h⟩ := h
    obtain ⟨rfl, -⟩ := yields_findScheduleOwned he
    refine .inr ⟨ho, ?_⟩
    cases existing with
    | some =>
      simp only [yields_steps, findRun] at h
      obtain ⟨r, _, ⟨hc, rfl⟩, rfl, rfl⟩ := h
      obtain ⟨hfo, -⟩ := checkRun_ok.1 hc
      have hm := (yields_findScheduleOwned he).2.mem.1
      obtain rfl := Option.some.inj (hfo.symm.trans (find?_of_mem hm))
      exact .inl ⟨r, he, hc, rfl, rfl⟩
    | none =>
      simp only [yields_steps, yields_rewording] at h
      obtain ⟨_, _, ⟨hba, rfl⟩, h⟩ := h
      exact .inr ⟨he, hba, h⟩
  · rintro ⟨hl, job, hi, hj, h⟩
    refine ⟨(), db, ⟨hl, rfl⟩, job, db, ⟨rfl, hi, hj⟩, ?_⟩
    rcases h with ⟨hen, h⟩ | ⟨ho, ⟨run, he, hc, rfl, rfl⟩ | ⟨he, hba, h⟩⟩
    · rw [if_pos hen]
      exact h
    · rw [if_neg ho]
      refine ⟨some run, db', he, ?_⟩
      simp only [yields_steps, findRun]
      exact ⟨run, db', ⟨hc, rfl⟩, trivial, rfl⟩
    · rw [if_neg ho]
      refine ⟨none, db, he, ?_⟩
      simp only [yields_steps, yields_rewording]
      exact ⟨(), db, ⟨hba, rfl⟩, h⟩

end Successor

theorem yields_drainedQueue :
    Yields (completeDrainedQueueSuspension env queueId updatedAt) db drained db' ↔ representable updatedAt ∧
      Yields (Scheduler.completeDrainedQueueSuspension env queueId updatedAt) db drained db' := by
  simp only [completeDrainedQueueSuspension, yields_bind, yields_validateTimestamp, yields_findQueue,
    yields_rewording]
  constructor
  · rintro ⟨_, _, ⟨hti, rfl⟩, _, _, ⟨rfl, -⟩, h⟩
    exact ⟨hti, h⟩
  · rintro ⟨hti, h⟩
    obtain ⟨queue, hq, hi, hsh, -⟩ := Scheduler.yields_drainedQueue.1 h
    exact ⟨(), db, ⟨hti, rfl⟩, queue, db, ⟨rfl, hq, hi, hsh⟩, h⟩

theorem yields_drainedJob :
    Yields (completeDrainedJobSuspension env jobId updatedAt) db drained db' ↔
      representable updatedAt ∧ ∃ job, job.id = jobId ∧ Owned env db job ∧
        Yields (Scheduler.completeDrainedJobSuspension env job.queueId jobId updatedAt) db drained
          db' := by
  simp only [completeDrainedJobSuspension, yields_bind, yields_validateTimestamp,
    yields_findOwnedJob, yields_rewording]
  constructor
  · rintro ⟨_, _, ⟨hti, rfl⟩, job, _, ⟨rfl, hi, hj⟩, h⟩
    exact ⟨hti, job, hi, hj, h⟩
  · rintro ⟨hti, job, hi, hj, h⟩
    exact ⟨(), db, ⟨hti, rfl⟩, job, db, ⟨rfl, hi, hj⟩, h⟩

/-! ## The unit of a run -/

/-- The unit of an interrupted run, step by step: the attempt `a` that is closed, the decision about
the run, and the databases after the transition and after the drain of the queue. -/
structure Interruption (env : Environment) (inputs : Inputs)
    (generate : Database → Except Error Uuid) (run : JobRun) (lower : Int) (a : JobAttempt)
    (row : JobRun) (retry : Option Retry.Schedule) (delta : Report) (db db₁ db₂ db' : Database) :
    Prop where
  only : db.attempts.IsOnly (fun a => a.runId = run.id && a.state = .running) (some a)
  number : 1 ≤ a.attemptNumber ∧ a.attemptNumber ≤ maximumAttemptNumber
  unreported : Scheduler.isUnreported a = true
  decided : Decided env db ⟨run.id, a.attemptNumber⟩ inputs.recoveryTime row retry
  free : db.outputs.find? ⟨run.id, a.attemptNumber⟩ = none
  transition : Yields (transitionInterrupted env inputs generate ⟨run.id, a.attemptNumber⟩ lower retry)
    (interrupting ⟨run.id, a.attemptNumber⟩ inputs.recoveryTime db) delta db₁
  queue : ∃ drained, Yields (Scheduler.completeDrainedQueueSuspension env run.queueId
    inputs.recoveryTime) db₁ drained db₂
  job : ∃ job drained, job.id = run.jobId ∧ Owned env db₂ job ∧
    Yields (Scheduler.completeDrainedJobSuspension env job.queueId run.jobId inputs.recoveryTime) db₂
      drained db'

theorem yields_interruptRun (h : Yields (interruptRun env inputs generate run lower) db report db') :
    ∃ a row retry delta db₁ db₂, Interruption env inputs generate run lower a row retry delta db db₁
      db₂ db' ∧ ∃ queue job,
        report = { delta with suspendedQueues := tally queue, suspendedJobs := tally job } := by
  simp only [interruptRun, yields_steps, yields_findRetryDecision, yields_interruptAttempt, yields_drainedQueue, yields_drainedJob] at h
  obtain ⟨_, _, hac, _, _, ⟨rfl, rfl⟩, retry, _, ⟨rfl, row, hd⟩, _, _,
    ⟨-, hu, hfr, rfl⟩, delta, db₁, htr, queue, db₂, ⟨-, hq⟩, job, _,
    ⟨-, owner, hi, how, hj⟩, rfl, rfl⟩ := h
  obtain ⟨rfl, hn, a, rfl, ho⟩ := yields_findActiveAttempt.1 hac
  obtain ⟨hm, hse⟩ := ho.mem
  simp only [bool_steps] at hse
  obtain ⟨a', ha', hk, hu⟩ := hu
  have hke : (Keyed.key a : AttemptKey) = ⟨run.id, a.attemptNumber⟩ := by
    rw [← hse.1]
    rfl
  obtain rfl : a' = a := Table.eq_of_key ha' hm (hk.trans hke.symm)
  exact ⟨a', row, retry, delta, db₁, db₂, ⟨ho, hn, hu, hd, hfr, htr,
    ⟨queue, hq⟩, owner, job, hi, how, hj⟩, queue, job, rfl⟩

theorem yields_followInterruption : Yields (followInterruption env inputs generate runId lower) db report db' ↔
      ∃ finished inserted db₁,
        Yields (finishAfterTerminalRun env runId inputs.recoveryTime) db finished db₁ ∧
        Yields (insertInterruptedSuccessor env generate runId lower inputs.measurement) db₁ inserted
          db' ∧
        report = { interruptedAttempts := 1, terminalRuns := 1, finishedJobs := tally finished,
                   insertedSuccessors := tally inserted } := by
  simp only [followInterruption, yields_steps]
  constructor
  · rintro ⟨finished, db₁, hfi, inserted, _, hi, rfl, rfl⟩
    exact ⟨finished, inserted, db₁, hfi, hi, rfl⟩
  · rintro ⟨finished, inserted, db₁, hfi, hi, rfl⟩
    exact ⟨finished, db₁, hfi, inserted, db', hi, rfl, rfl⟩

/-- What a step may do to the rows of runs: one run changes, others may be new. -/
structure OneRun (runId : Uuid) (db db' : Database) : Prop where
  runs : ∀ run ∈ db.runs, run.id ≠ runId → run ∈ db'.runs
  attempts : db'.attempts = db.attempts

variable {db₁ : Database}

theorem OneRun.trans (h₁ : OneRun runId db db₁) (h₂ : OneRun runId db₁ db') : OneRun runId db db' :=
  ⟨fun run hr hn => h₂.runs run (h₁.runs run hr hn) hn, h₂.attempts.trans h₁.attempts⟩

theorem OneRun.of_eq (hr : db'.runs = db.runs) (ha : db'.attempts = db.attempts) :
    OneRun runId db db' := ⟨fun _ h _ => hr ▸ h, ha⟩

theorem OneRun.modify {f : JobRun → JobRun} (hf : ∀ r : JobRun, Keyed.key (f r) = Keyed.key r) :
    OneRun runId db { db with runs := db.runs.modify runId f hf } :=
  ⟨fun _ h hn => modify_mem_other h hn f hf, rfl⟩

theorem followInterruption_oneRun
    (h : Yields (followInterruption env inputs generate runId lower) db report db') :
    OneRun runId db db' := by
  obtain ⟨_, _, _, hfi, hin, -⟩ := yields_followInterruption.1 h
  obtain ⟨_, rfl⟩ := finishAfterTerminalRun_jobs hfi
  obtain ⟨-, run, -, -, -, ⟨-, -, rfl⟩ | ⟨-, job, -, -, hre⟩⟩ := yields_insertInterruptedSuccessor.1 hin
  · exact .of_eq rfl rfl
  rcases insertRecurringRun_inserts hre with ⟨-, rfl⟩ | ⟨-, next, id, -, -, hi⟩
  · exact .of_eq rfl rfl
  · obtain rfl := hi.eq
    exact ⟨fun run hr _ => (mem_insert (r := stored (scheduledRun job id next))
      hi.free).2 (.inr hr), rfl⟩

theorem transitionInterrupted_oneRun
    (h : Yields (transitionInterrupted env inputs generate k lower retry) db report db') :
    OneRun k.runId db db' ∧ report.interruptedAttempts = 1 := by
  cases retry with
  | some =>
    simp only [transitionInterrupted, yields_steps, yields_setRunRetryWait] at h
    obtain ⟨_, _, ⟨-, -, rfl⟩, rfl, rfl⟩ := h
    exact ⟨.modify _, rfl⟩
  | none =>
    simp only [transitionInterrupted, yields_bind, yields_setRunInterrupted] at h
    obtain ⟨_, _, ⟨-, rfl⟩, h⟩ := h
    refine ⟨(OneRun.modify _).trans (followInterruption_oneRun h), ?_⟩
    obtain ⟨_, _, _, -, -, rfl⟩ := yields_followInterruption.1 h
    rfl

theorem drainQueue_rows
    (h : Yields (Scheduler.completeDrainedQueueSuspension env queueId updatedAt) db drained db') :
    ∃ queues, db' = { db with queues } := by
  obtain ⟨_, -, -, -, ⟨-, -, -, -, rfl⟩ | ⟨-, -, rfl⟩⟩ := Scheduler.yields_drainedQueue.1 h
  · exact ⟨_, rfl⟩
  · exact ⟨_, rfl⟩

theorem drainJob_rows
    (h : Yields (Scheduler.completeDrainedJobSuspension env queueId jobId updatedAt) db drained db') :
    ∃ jobs, db' = { db with jobs } := by
  obtain ⟨_, -, -, -, -, ⟨-, -, -, -, rfl⟩ | ⟨-, -, rfl⟩⟩ := Scheduler.yields_drainedJob.1 h
  · exact ⟨_, rfl⟩
  · exact ⟨_, rfl⟩

/-- An interruption changes one run and closes its attempt. -/
theorem Interruption.oneRun {row : JobRun} {a : JobAttempt} {delta : Report} {db₂ : Database}
    (h : Interruption env inputs generate run lower a row retry delta db db₁ db₂ db') :
    OneRun run.id (interrupting ⟨run.id, a.attemptNumber⟩ inputs.recoveryTime db) db' ∧
      delta.interruptedAttempts = 1 := by
  obtain ⟨htr, hc⟩ := transitionInterrupted_oneRun h.transition
  obtain ⟨_, hq⟩ := h.queue
  obtain ⟨_, _, -, -, hj⟩ := h.job
  obtain ⟨_, rfl⟩ := drainQueue_rows hq
  obtain ⟨_, rfl⟩ := drainJob_rows hj
  exact ⟨htr.trans (.of_eq rfl rfl), hc⟩

/-! ## A recovery, unit by unit -/

/-- One committed unit with its report.  A clock reading is at least the recovery time. -/
inductive Repair (env : Environment) (inputs : Inputs) (db : Database) : Report → Database → Prop
  | timing (id : Uuid) (repaired : Bool) (db' : Database)
    (yields : Yields (Telemetry.repairAbandoned id) db repaired db') :
    Repair env inputs db { repairedTimingRows := tally repaired } db'
  | run (n : Nat) (row : JobRun) (mem : row ∈ db.runs) (running : row.state = .running)
    (delta : Report) (db' : Database)
    (yields : Yields (interruptRun env inputs (inputs.generate n) row
      (max inputs.recoveryTime (inputs.now n))) db delta db') : Repair env inputs db delta db'
  | job (n : Nat) (job : JobDefinition) (delta : Report) (db' : Database)
    (yields : Yields (repairJob env inputs (inputs.generate n) job
      (max inputs.recoveryTime (inputs.now n))) db delta db') : Repair env inputs db delta db'
  | queue (id : Uuid) (drained : Bool) (db' : Database)
    (yields : Yields (completeDrainedQueueSuspension env id inputs.recoveryTime) db drained db') :
    Repair env inputs db { suspendedQueues := tally drained } db'

/-- The database and the report after some committed units. -/
inductive Repairs (env : Environment) (inputs : Inputs) (db : Database) (report : Report) :
    Database → Report → Prop
  | none : Repairs env inputs db report db report
  | step {db₁ db₂ : Database} {report₁ delta : Report} (before : Repairs env inputs db report db₁ report₁)
    (unit : Repair env inputs db₁ delta db₂) :
    Repairs env inputs db report db₂ (report₁.add delta)

/-! ## Cut off anywhere -/

/-- A page is read without touching the database. -/
theorem after_listRows {T R K : Type} [Keyed T K] [LinearOrder K] (table : Database → Table T)
    (selected : T → Bool) (check : Database → T → Except Error R) (limit : Nat) (pos : Option K)
    (db : Database) : after (listRows table selected check limit pos) db = db :=
  preserves_bind (I := fun db' => db' = db) (preserves_require _ _ _)
    (fun _ => preserves_query _ _) db rfl

theorem after_listOpen (limit : Nat) (pos : Option Uuid) (db : Database) :
    after (Telemetry.listOpen limit pos) db = db :=
  preserves_bind (I := fun db' => db' = db) (preserves_require _ _ _)
    (fun _ => preserves_bind (preserves_look _ _)
      fun _ => preserves_bind (preserves_require _ _ _) fun _ => preserves_pure _ _) db rfl

theorem after_validateJobLifecycle (job : JobDefinition) (db : Database) :
    after (validateJobLifecycle job) db = db :=
  preserves_bind (I := fun db' => db' = db) (preserves_query _ _)
    (fun _ => preserves_bind (preserves_require _ _ _) fun _ => preserves_require _ _ _) db rfl

section Passes

variable {T R K : Type} [Keyed T K] [LinearOrder K] {table : Database → Table T}
  {selected : T → Bool} {check : Database → T → Except Error R} {limit : Nat} {keyOf : R → K}
  {rows : Database → Nat} {each : R → Startup PUnit}
  {I : Database → Report → Prop}

theorem preserves_visitRows (Ready : R → Database → Prop)
    (hke : ∀ db t r, check db t = .ok r → keyOf r = Keyed.key t)
    (hre : ∀ db, ∀ t ∈ table db, selected t = true → ∀ r, check db t = .ok r → Ready r db)
    (hv : ∀ s r, I s.db s.report → Ready r s.db → I (after (each r) s).db (after (each r) s).report)
    (hk : ∀ s r s' u, I s.db s.report → Ready r s.db → Yields (each r) s u s' →
      ∀ r', keyOf r' ≠ keyOf r → Ready r' s.db → Ready r' s'.db) :
    Preserves (fun s => I s.db s.report)
      (visit inputs rows (listRows table selected check limit) keyOf each) := by
  refine preserves_visit Ready (after_listRows table selected check limit) (fun db pos page hy => ?_)
    hv hk
  obtain ⟨-, hp, hro⟩ := yields_listRows hke hy
  refine ⟨hp.sorted.imp fun hl => ne_of_lt hl, fun r hr => ?_⟩
  obtain ⟨t, ht, hs, hc⟩ := hro r hr
  exact hre db t ht hs r hc

/-- A pass whose visits keep everything, whatever the row. -/
theorem preserves_visitRows_all (hk : ∀ db t r, check db t = .ok r → keyOf r = Keyed.key t)
    (hv : ∀ r, Preserves (fun s => I s.db s.report) (each r)) :
    Preserves (fun s => I s.db s.report)
      (visit inputs rows (listRows table selected check limit) keyOf each) :=
  preserves_visitRows (fun _ _ => True) hk (fun _ _ _ _ _ _ => trivial)
    (fun s r hI _ => hv r s hI) fun _ _ _ _ _ _ _ _ _ _ => trivial

end Passes

section Whole

variable {I : Database → Report → Prop}

theorem preserves_validate (env : Environment) (inputs : Inputs) (final : Bool) :
    Preserves (fun s => I s.db s.report) (validate env inputs final) := by
  have hj : ∀ job, Preserves (fun s => I s.db s.report) (checkFinalJob env final job) := by
    intro job
    refine preserves_bind (preserves_onDatabase (after_validateJobLifecycle job)) fun _ =>
      preserves_ite (preserves_bind (preserves_require _ _ _) fun _ => preserves_ite ?_ ?_) ?_
    · refine preserves_bind (preserves_onDatabase fun db => ?_) fun _ => preserves_require _ _ _
      exact preserves_query (fun db' => db' = db) _ db rfl
    · exact preserves_pure _ _
    · exact preserves_pure _ _
  have hc : Preserves (fun s => I s.db s.report) (checkClosed final) :=
    preserves_ite (preserves_bind (preserves_onDatabase (after_listOpen 1 none))
      fun _ => preserves_require _ _ _) (preserves_pure _ _)
  refine preserves_bind hc fun _ => preserves_bind ?_ fun _ => preserves_bind ?_ fun _ =>
    preserves_bind ?_ fun _ => preserves_bind ?_ fun _ => ?_
  · exact preserves_visitRows_all
      (fun db run r hr => (find?_eq_some.1 (checkRun_ok.1 hr).1).2)
      fun _ => preserves_require _ _ _
  · exact preserves_visitRows_all
      (fun db a r hr => (find?_eq_some.1 (checkAttempt_ok.1 hr).1).2)
      fun _ => preserves_require _ _ _
  · exact preserves_visitRows_all (fun db o k hk => checkOutput_found hk) fun _ => preserves_pure _ _
  · exact preserves_visitRows_all
      (fun db job r hr => (find?_eq_some.1 (checkJob_ok.1 hr).1).2) hj
  · exact preserves_visitRows_all
      (fun db queue r hr => (find?_eq_some.1 (checkQueue_ok.1 hr).1).2)
      fun _ => preserves_require _ _ _

/-- The unit of a run starts with the clock reading and the identifiers of its moment. -/
theorem recoverRun_eq (env : Environment) (inputs : Inputs) (run : JobRun) (s : State) :
    recoverRun env inputs run s = commitUnit inputs (interruptRun env inputs (inputs.generate s.polls)
      run (max inputs.recoveryTime (inputs.now s.polls))) s := rfl

variable {s' : State}

theorem yields_recoverRun {u : PUnit} :
    Yields (recoverRun env inputs run) s u s' ↔ Yields (commitUnit inputs (interruptRun env inputs
      (inputs.generate s.polls) run (max inputs.recoveryTime (inputs.now s.polls)))) s u s' := by
  unfold Yields
  rw [recoverRun_eq]

theorem after_recoverRun (env : Environment) (inputs : Inputs) (run : JobRun) (s : State) :
    after (recoverRun env inputs run) s = after (commitUnit inputs (interruptRun env inputs
      (inputs.generate s.polls) run (max inputs.recoveryTime (inputs.now s.polls)))) s := by
  unfold after
  rw [recoverRun_eq]

theorem recoverJob_eq (env : Environment) (inputs : Inputs) (job : JobDefinition) (s : State)
    (h : ¬ (job.state = .deleted ∨ (job.schedule.isOnce = true ∧ job.state ≠ .suspending))) :
    recoverJob env inputs job s = commitUnit inputs (repairJob env inputs (inputs.generate s.polls)
      job (max inputs.recoveryTime (inputs.now s.polls))) s := by
  unfold recoverJob
  rw [if_neg h]
  rfl

theorem after_recoverJob (env : Environment) (inputs : Inputs) (job : JobDefinition) (s : State)
    (h : ¬ (job.state = .deleted ∨ (job.schedule.isOnce = true ∧ job.state ≠ .suspending))) :
    after (recoverJob env inputs job) s = after (commitUnit inputs (repairJob env inputs
      (inputs.generate s.polls) job (max inputs.recoveryTime (inputs.now s.polls)))) s := by
  unfold after
  rw [recoverJob_eq env inputs job s h]

/-- A unit keeps what every committed repair keeps. -/
theorem preserves_commitUnit {repair : Txn Report}
    (hI : I s.db s.report) (hu : ∀ delta db', Yields repair s.db delta db' → I db' (s.report.add delta)) :
    I (after (commitUnit inputs repair) s).db (after (commitUnit inputs repair) s).report := by
  rcases after_commitUnit inputs repair s with hsa | ⟨delta, hy, hr⟩
  · rw [hsa.db, hsa.report]
    exact hI
  · rw [hr]
    exact hu delta _ hy

/-- A run that is still as it was read. -/
def StillRunning (run : JobRun) (db : Database) : Prop := run ∈ db.runs ∧ run.state = .running

theorem recoverRun_keeps {u : PUnit}
    (h : Yields (recoverRun env inputs run) s u s') {other : JobRun} (hn : other.id ≠ run.id)
    (ho : StillRunning other s.db) : StillRunning other s'.db := by
  obtain ⟨_, hy, -⟩ := yields_commitUnit (yields_recoverRun.1 h)
  obtain ⟨_, _, _, _, _, _, hi, -⟩ := yields_interruptRun hy
  exact ⟨hi.oneRun.1.runs other ho.1 hn, ho.2⟩

/-- **However far a recovery gets, what it leaves is the work of committed units.** -/
theorem recoverStartup_repairs (env : Environment) (inputs : Inputs) (db : Database) :
    Repairs env inputs db {} (after (recoverStartup env inputs) { db }).db
      (after (recoverStartup env inputs) { db }).report := by
  let I := Repairs env inputs db {}
  have hti : Preserves (fun s => I s.db s.report) (repairTiming inputs) := by
    refine preserves_visit (fun _ _ => True) (after_listOpen inputs.batchSize)
      (fun db pos page hy => ⟨?_, fun _ _ => trivial⟩) (fun s timing hI _ => ?_)
      fun _ _ _ _ _ _ _ _ _ _ => trivial
    · simp only [Telemetry.listOpen, yields_steps] at hy
      obtain ⟨_, _, ⟨-, rfl⟩, _, db, ⟨rfl, rfl⟩, _, _, ⟨-, rfl⟩, rfl, -⟩ := hy
      exact List.pairwise_map.2 ((page_sorted _ _ _ _).imp fun hl => ne_of_lt hl)
    · refine preserves_commitUnit hI fun delta db' hy => ?_
      simp only [yields_steps] at hy
      obtain ⟨repaired, _, hy, rfl, rfl⟩ := hy
      exact .step hI (.timing _ repaired _ hy)
  have hrun : Preserves (fun s => I s.db s.report) (visit inputs (fun db => db.runs.rows.length)
    (listRuns env (fun run => run.state = .running) inputs.batchSize) JobRun.id
    (recoverRun env inputs)) := by
    refine preserves_visitRows StillRunning
      (fun db run r hr => (find?_eq_some.1 (checkRun_ok.1 hr).1).2)
      (fun db run hru hs r hr => ?_) (fun s run hI hre => ?_)
      fun s run s' u _ _ hy other hn ho => recoverRun_keeps hy hn ho
    · obtain ⟨hfo, -⟩ := checkRun_ok.1 hr
      obtain rfl := Option.some.inj ((find?_of_mem hru).symm.trans hfo)
      exact ⟨hru, of_decide_eq_true hs⟩
    · rw [after_recoverRun]
      exact preserves_commitUnit hI fun delta db' hy => .step hI (.run _ run hre.1 hre.2 _ _ hy)
  have hj : Preserves (fun s => I s.db s.report) (visit inputs (fun db => db.jobs.rows.length)
    (listJobs env inputs.batchSize) JobDefinition.id (recoverJob env inputs)) := by
    refine preserves_visitRows_all
      (fun db job r hr => (find?_eq_some.1 (checkJob_ok.1 hr).1).2) fun job s hI => ?_
    by_cases hsk : job.state = .deleted ∨ (job.schedule.isOnce = true ∧ job.state ≠ .suspending)
    · unfold recoverJob
      rw [if_pos hsk]
      exact hI
    · rw [after_recoverJob env inputs job s hsk]
      exact preserves_commitUnit hI fun delta db' hy => .step hI (.job _ job _ _ hy)
  have hq : Preserves (fun s => I s.db s.report) (visit inputs
    (fun db => db.queues.rows.length) (listQueues env inputs.batchSize) Queue.id
    (recoverQueue env inputs)) := by
    refine preserves_visitRows_all
      (fun db queue r hr => (find?_eq_some.1 (checkQueue_ok.1 hr).1).2) fun queue s hI => ?_
    unfold recoverQueue
    split
    · exact hI
    refine preserves_commitUnit hI fun delta db' hy => ?_
    simp only [yields_steps] at hy
    obtain ⟨drained, _, hy, rfl, rfl⟩ := hy
    exact .step hI (.queue _ drained _ hy)
  have hal : Preserves (fun s => I s.db s.report) (recoverStartup env inputs) :=
    preserves_bind (preserves_require _ _ _) fun _ =>
      preserves_bind (preserves_validate env inputs false) fun _ => preserves_bind hti fun _ =>
      preserves_bind hrun fun _ => preserves_bind hj fun _ => preserves_bind hq fun _ =>
      preserves_bind (preserves_validate env inputs true) fun _ => preserves_look _ _
  exact hal { db } .none

end Whole

end Recovery

end Jobu
