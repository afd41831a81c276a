import Jobu.Changes.Management
import Jobu.Consistency.Reachable

/-!
# The changes of the daemon's own transactions

A dispatch starts a run, a completion or a cancellation retries or ends it, and a unit of recovery
does the same for a run a dead daemon left behind.  Two things make the end of a run one change: the
successor is inserted in the transaction that ends the run, and reading the owed successor back
from the schedule says when there is none.

  > `Commit.changes`: every committed transaction is a sequence of changes.
-/

namespace Jobu

open Lib Scheduler Table Management Lifecycle

open Keyed (key)

variable {queueId runId : Uuid} {time : Int} {u : Unit} {run : JobRun} {d : Deployment}

variable {env : Environment} {caller : Caller} {amb : Ambient} {now : Int} {db db' : Database}

/-! ## Owners after a run -/

variable {drained : Bool}

theorem drainQueue_quiet (h : Yields (completeDrainedQueueSuspension env queueId time) db drained db') :
    Quiet env caller now db db' := by
  obtain ⟨queue, hq, rfl, -, ⟨-, hs, -, -, rfl⟩ | ⟨-, -, rfl⟩⟩ := yields_drainedQueue.1 h
  · have hl : queue.state ≠ .deleted := by
      rw [hs]
      exact QueueState.noConfusion
    have hm : queue.state ≠ .suspended := by
      rw [hs]
      exact QueueState.noConfusion
    exact .single (.queueWritten queue hq _ _ (.entered .suspended time hl hm) QueueState.noConfusion) rfl
  · exact .refl _

variable {jobId : Uuid}

theorem drainJob_quiet (h : Yields (completeDrainedJobSuspension env queueId jobId time) db drained db') :
    Quiet env caller now db db' := by
  obtain ⟨job, hj, rfl, -, -, ⟨-, hs, -, -, rfl⟩ | ⟨-, -, rfl⟩⟩ := yields_drainedJob.1 h
  · have hl : job.state ≠ .deleted := by
      rw [hs]
      exact JobState.noConfusion
    have hm : job.state ≠ .suspended := by
      rw [hs]
      exact JobState.noConfusion
    exact .single (.jobEntered job hj .suspended time hl JobState.noConfusion hm fun ht => by cases ht) rfl
  · exact .refl _

theorem drains_quiet (h : Yields (completeDrainedSuspensions env queueId jobId time) db u db') :
    Quiet env caller now db db' := by
  simp only [completeDrainedSuspensions, yields_steps] at h
  obtain ⟨_, _, hq, _, _, hj, -, rfl⟩ := h
  exact (drainQueue_quiet hq).trans (drainJob_quiet hj)

/-- What the end of a job may do to the job rows: a recurring job is not touched. -/
structure JobsFinish (env : Environment) (caller : Caller) (now : Int) (jobs jobs' : Table JobDefinition) : Prop where
  recurring : ∀ job, job.schedule.isOnce = false → (job ∈ jobs ↔ job ∈ jobs')
  quiet : ∀ db : Database, db.jobs = jobs → Quiet env caller now db { db with jobs := jobs' }

theorem JobsFinish.refl (jobs : Table JobDefinition) : JobsFinish env caller now jobs jobs where
  recurring _ _ := Iff.rfl
  quiet db he := by
    rw [← he]
    exact .refl _

theorem finish_changes {finished : Bool} (h : Yields (finishAfterTerminalRun env runId time) db finished db') :
    ∃ jobs, db' = { db with jobs } ∧ JobsFinish env caller now db.jobs jobs := by
  obtain ⟨_, next, job, he, ⟨-, rfl, -⟩ | ⟨-, hon, -, ⟨-, rfl, -⟩ | ⟨-, -, -, -, hse⟩⟩⟩ :=
    yields_finishAfterTerminalRun.1 h
  · exact ⟨db'.jobs, rfl, .refl _⟩
  · exact ⟨db'.jobs, rfl, .refl _⟩
  obtain ⟨⟨hl, hn, hm⟩, -, -, rfl⟩ := Jobs.yields_setState_true.1 hse
  have hj := he.owner.1
  refine ⟨_, rfl, fun other hc => ?_, fun db₁ heq => ?_⟩
  · have hne : other ∈ db.jobs → other.id ≠ job.id := fun ho hi => by
      rw [eq_of_key ho hj hi, hon] at hc
      cases hc
    rw [mem_modify (Jobs.key_entered _ _ _)]
    constructor
    · exact fun ho => .inr ⟨ho, hne ho⟩
    · rintro (⟨row, hr, hi, rfl⟩ | ⟨ho, -⟩)
      · obtain rfl : row = job := eq_of_key hr hj hi
        exact absurd (hon.symm.trans hc) Bool.noConfusion
      · exact ho
  · rw [← heq] at hj ⊢
    exact .single (.jobEntered job hj next time hl hn hm fun _ => hon) rfl

/-! ## The successor -/

/-- The successor of a run that has ended, as the schedule of its job gives it. -/
structure SuccessorOf (env : Environment) (db : Database) (now : Int) (run : JobRun)
    (successor : Option JobRun) : Prop where
  follows : ∀ next ∈ successor, Continues env db now run next
  owed : ∀ job ∈ db.jobs, job.id = run.jobId → run.scheduleOwned = true →
    job.state ≠ .deleted → job.schedule.isOnce = false → successor.isSome = true

theorem SuccessorOf.of_manual (h : run.scheduleOwned = false) : SuccessorOf env db now run none where
  follows _ hn := by cases hn
  owed _ _ _ hs := by
    rw [h] at hs
    cases hs

variable {job : JobDefinition} {db₁ : Database}

/-- Recurrence on the database in which the run has ended: `db₁` holds the runs of `db` with the
one row changed, and the recurring jobs of `db`. -/
theorem recurrence_successor (db : Database) {generate : Database → Except Error Uuid}
    {lower : Int} {measurement : Runs.InitialMeasurement} {inserted : Bool}
    {f : JobRun → JobRun} (hf : ∀ r : JobRun, key (f r) = key r)
    (how : run.scheduleOwned = true) (hr : db₁.runs = db.runs.modify run.id f hf)
    (hjo : job ∈ db₁.jobs) (hid : job.id = run.jobId)
    (hjob : ∀ j : JobDefinition, j.schedule.isOnce = false → (j ∈ db.jobs ↔ j ∈ db₁.jobs))
    (hnow : now ≤ lower) (hp : run.plannedAt ≤ lower ∨ run.state = .running)
    (h : Yields (insertRecurringRun env generate job lower measurement) db₁ inserted db') :
    ∃ successor timings, SuccessorOf env db now run successor ∧
      db' = { db₁ with runs := withSuccessor db₁.runs successor, timings } := by
  rcases yields_insertRecurringRun.1 h with
    ⟨rfl, rfl, hno⟩ | ⟨rfl, next, id, hne, -, hin⟩
  · refine ⟨none, db'.timings, ⟨fun _ hn => (by cases hn), fun j hj hji _ hl hc => ?_⟩, rfl⟩
    -- a job that was owed a successor would have got one
    obtain rfl : j = job := eq_of_key ((hjob j hc).1 hj) hjo (hji.trans hid.symm)
    rcases hno with hd | ho
    · exact absurd hd hl
    · rw [hc] at ho
      cases ho
  · obtain ⟨-, -, hi⟩ := Runs.yields_insertScheduleOwned.1 hin
    obtain ⟨_, _, hsc, -⟩ := hne.cron
    have hc : job.schedule.isOnce = false := by rw [hsc]; rfl
    have hfr : db.runs.find? id = none := by
      have := hi.free
      rw [hr, Table.find?_modify, Option.map_eq_none_iff] at this
      exact this
    refine ⟨some (scheduledRun job id next), _, ⟨?_, fun _ _ _ _ _ _ => rfl⟩, hi.eq⟩
    intro _ hn
    cases hn
    exact ⟨how, hfr, job, (hjob job hc).2 hjo, lower, next, hid, hne, hnow, hp, rfl⟩

variable {attempts : Table JobAttempt} {outputs : Table AttemptOutput} {state : RunState} {result : Json}

/-- What follows the end of a run: its successor, and perhaps the end of its job. -/
theorem yields_followTerminalRun (h : Yields (followTerminalRun env amb run) { db with
    attempts
    outputs
    runs := db.runs.modify run.id (ended state amb.utcNow result)
      fun _ => rfl } u db') :
    ∃ successor timings jobs, SuccessorOf env db amb.utcNow run successor ∧
      JobsFinish env caller amb.utcNow db.jobs jobs ∧ db' =
      { db with
        attempts
        outputs
        timings
        jobs
        runs := withSuccessor (db.runs.modify run.id (ended state amb.utcNow result) fun _ => rfl) successor } := by
  simp only [followTerminalRun, yields_steps] at h
  obtain ⟨_, db₁, hi, _, _, hfi, -, rfl⟩ := h
  have hsu : ∃ successor timings, SuccessorOf env db amb.utcNow run successor ∧ db₁ =
    { db with
      attempts
      outputs
      timings
      runs := withSuccessor (db.runs.modify run.id (ended state amb.utcNow result) fun _ => rfl) successor } := by
    rcases yields_insertRecurringSuccessor hi with
      ⟨hm, rfl⟩ | ⟨ho, job, hjo, hid, hr⟩
    · exact ⟨none, db.timings, .of_manual hm, rfl⟩
    · obtain ⟨successor, timings, hs, rfl⟩ := recurrence_successor db
        (key_ended state amb.utcNow result) ho rfl hjo hid
        (fun _ _ => Iff.rfl) (le_max_left _ _) (.inl (le_max_right _ _)) hr
      exact ⟨successor, timings, hs, rfl⟩
  obtain ⟨successor, timings, hs, rfl⟩ := hsu
  obtain ⟨jobs, rfl, hj⟩ : ∃ jobs, _ ∧ JobsFinish env caller amb.utcNow _ jobs := finish_changes hfi
  exact ⟨successor, timings, jobs, hs, hj, rfl⟩

/-- The end of a run with its successor, at the instant the transaction reads. -/
theorem followTerminalRun_changes (hr : run ∈ db.runs) (hc : Closing db run amb.utcNow attempts)
    (hst : state.isTerminal = true) (h : Yields (followTerminalRun env amb run) { db with
      attempts
      outputs
      runs := db.runs.modify run.id (ended state amb.utcNow result)
        fun _ => rfl } u db') :
    Changes env caller amb.utcNow db db' := by
  obtain ⟨successor, timings, jobs, hs, hj, rfl⟩ :
    ∃ successor timings jobs, _ ∧ JobsFinish env caller amb.utcNow _ jobs ∧ _ :=
    yields_followTerminalRun h
  have he : Changes env caller amb.utcNow db _ :=
    .single (.runEnded run hr attempts hc state hst result successor hs.follows hs.owed)
  exact (he.then (Measured.quiet ⟨timings, outputs, rfl⟩)).then (hj.quiet _ rfl)

/-! ## Dispatches -/

theorem claim_changes {prepare : JobType → Json → Preparation} {claim : Claim}
    (hy : Yields (claimSelected env amb prepare runId) db (some claim) db') :
    Changes env caller amb.utcNow db db' := by
  obtain ⟨-, context, row, _, _, hs⟩ := yields_claimSelected hy
  obtain ⟨_, hc⟩ := hs.claims
  obtain ⟨timings, outputs, rfl⟩ := (Telemetry.claimRun_measures amb _ _).yields hc
  have he := hs.dispatchable.eligible
  have hi : context.run.id = row.run.id := by rw [hs.dispatchable.run]
  obtain rfl := hs.eq
  refine (Measured.quiet ⟨timings, outputs, rfl⟩).then (.single ?_)
  refine .runStarted row.run ?_ he.pending he.due _ hi ?_ ?_ rfl
  · exact he.mem.1
  · exact hs.dispatchable.number
  have hk : (key (Attempts.stored (startedAttempt context amb.utcNow)) : AttemptKey) = claim.key := by
    rw [hs.columns.1, ← hi]
    rfl
  rw [hk]
  exact hs.free

/-! ## Completions and cancellations -/

/-- The running attempt of a running run is its last. -/
theorem Consistent.last_attempt (h : Intact env db)
    (hru : run ∈ db.runs) (hs : run.state = .running) {attempt : JobAttempt}
    (ha : attempt ∈ db.attempts) (ho : attempt.runId = run.id) (hr : attempt.state = .running) :
    ∀ a ∈ db.attempts, a.runId = run.id → a.attemptNumber ≤ attempt.attemptNumber := by
  intro a ha' ho'
  have hok := h.history run hru id
  obtain ⟨_, last, hsp, -, -, hn, hfr⟩ := hok.running hs
  have hm : ∀ a ∈ db.attempts, a.runId = run.id → a ∈ db.attemptsOf run.id := fun a ha ho =>
    mem_select.2 ⟨ha, decide_eq_true ho⟩
  have hl : attempt = last := by
    have := hm attempt ha ho
    rw [hsp, List.mem_append, List.mem_singleton] at this
    refine this.resolve_left fun hi => ?_
    have := hfr attempt hi
    simp [Telemetry.isRetryHistory, hr] at this
  rw [hl, hn]
  exact (hok.number_le (hm a ha' ho')).2

/-- The transaction of a completion: the run and the attempt it found running, the decision about a
retry, and the database in which the run then changes. -/
structure CompletionSteps (env : Environment) (amb : Ambient) (completion : AttemptCompletion)
    (effect : CompletionEffect) (context : CompletionContext) (attempt : JobAttempt)
    (db db₁ db₂ db' : Database) : Prop where
  run : context.run ∈ db.runs ∧ context.run.id = completion.key.runId ∧ context.run.state = .running
  attempt : attempt ∈ db.attempts ∧ (key attempt : AttemptKey) = completion.key ∧ attempt.state = .running
  retry : retryOf context completion amb.utcNow = .ok effect.retry
  reported : ∃ timings outputs, db₁ =
    { db with
      timings
      outputs
      attempts := db.attempts.modify completion.key
        (reported amb.utcNow completion.outcome completion.result)
        (key_reported amb.utcNow completion.outcome completion.result) }
  transition : Yields (transitionRun env amb context completion effect.retry) db₁ () db₂
  drains : ∃ db₃, Yields (completeDrainedSuspensions env context.run.queueId context.run.jobId
    amb.utcNow) db₂ () db₃ ∧ Measured db₃ db'

variable {completion : AttemptCompletion} {effect : CompletionEffect}

theorem yields_completeDurably (hy : Yields (completeDurably env amb completion) db effect db') :
    ∃ context attempt db₁ db₂, CompletionSteps env amb completion effect context attempt db db₁ db₂
      db' := by
  simp only [completeDurably, Telemetry.validateClosedRun, yields_steps] at hy
  obtain ⟨-, context, _, hco, _, _, ⟨-, rfl⟩, _, _, ⟨hre, rfl⟩, _, _, hc, _, _,
    hse, _, _, hrep, _, _, ho, _, db4, htr, _, db5, hd, _, _, hr, rfl, rfl⟩ := hy
  obtain ⟨rfl, -⟩ := yields_requireClosed hc
  obtain ⟨rfl, hru, hi, hs, a, ha, hk, har⟩ := yields_findCompletionContext hco
  obtain ⟨timings, _, rfl⟩ := visitScope_measured hse
  obtain ⟨-, rfl⟩ := yields_completeAttempt.1 hrep
  obtain ⟨outputs', rfl, -⟩ := yields_persistOutput ho
  exact ⟨context, a, _, db4, ⟨hru, hi, hs⟩, ⟨ha, hk, har⟩, hre, ⟨timings, outputs', rfl⟩,
    htr, db5, hd, visitScope_measured hr⟩

theorem completeDurably_changes (h : Intact env db)
    (hy : Yields (completeDurably env amb completion) db effect db') :
    Changes env caller amb.utcNow db db' := by
  obtain ⟨context, a, _, _, hc⟩ := yields_completeDurably hy
  obtain ⟨hru, hi, hs⟩ := hc.run
  obtain ⟨ha, hk, har⟩ := hc.attempt
  obtain ⟨timings, outputs, rfl⟩ := hc.reported
  obtain ⟨_, hd, hm⟩ := hc.drains
  have ho : a.runId = context.run.id := by
    rw [hi, ← hk]
    rfl
  refine .between (.refl db) (Changes.then ?_ (drains_quiet hd)) hm
  have htr := hc.transition
  cases hr : effect.retry with
  | some schedule =>
    rw [hr] at htr
    obtain rfl := yields_setRunRetryWait htr
    obtain ⟨⟨policy, hp, hal⟩, hl, -⟩ := Retry.decision_due (hr ▸ hc.retry)
    have hn : a.attemptNumber = completion.key.attemptNumber := by
      rw [← hk]
      rfl
    have hla := h.last_attempt hru hs ha ho har
    rw [← hi, ← hk]
    exact Changes.then (.single (.runRetries context.run hru hs a ha ho har hla
      completion.outcome completion.result schedule.dueAt hl policy hp (hn ▸ hal)))
      (Measured.quiet ⟨timings, outputs, rfl⟩)
  | none =>
    rw [hr] at htr
    simp only [transitionRun, yields_steps] at htr
    obtain ⟨_, _, ⟨hst, rfl⟩, _, _, hse, hfo⟩ := htr
    obtain rfl := yields_setRunTerminal hse
    rw [← hi, ← hk] at hfo
    refine (Measured.quiet ⟨timings, outputs, rfl⟩).then
      (followTerminalRun_changes ?_ ?_ (terminalRunState_ok hst).1 hfo)
    · exact hru
    · refine .running hs a ?_ ho har _ _
      exact ha

theorem cancelPending_changes {expected : RunState} (hy : Yields (cancelPending env amb runId expected) db u db') :
    Changes env caller amb.utcNow db db' := by
  simp only [cancelPending, yields_steps] at hy
  obtain ⟨-, _, _, hfou, run, _, ⟨rfl, rfl⟩, _, _, ⟨-, rfl⟩, _, _, hse, _, _, hc,
    _, _, ⟨rfl, rfl⟩, _, _, hfo, _, _, hd, hr⟩ := hy
  obtain ⟨rfl, hre⟩ := yields_findRunForCancel hfou
  obtain ⟨hru, rfl⟩ := hre run rfl
  obtain ⟨timings, outputs, rfl⟩ := visitScope_measured hse
  obtain ⟨hp, -, rfl⟩ := yields_cancelPendingRun_true hc
  refine .between ⟨timings, outputs, rfl⟩ (Changes.then ?_ (drains_quiet hd))
    (visitScope_measured hr)
  refine followTerminalRun_changes ?_ (.waiting hp) rfl hfo
  exact hru

/-! ## Recovery -/

namespace Recovery

variable {inputs : Inputs} {generate : Database → Except Error Uuid} {lower : Int}

variable {report : Report}

/-- An interrupted run that is not retried: its job may end first, and then its successor is due. -/
theorem followInterruption_changes (hr : run ∈ db.runs)
    (hs : run.state = .running) (hc : Closing db run inputs.recoveryTime attempts)
    (hl : inputs.recoveryTime ≤ lower) (h : Yields (followInterruption env inputs generate run.id lower) { db with
        attempts
        outputs
        runs := db.runs.modify run.id (ended .interrupted inputs.recoveryTime interruptionResult)
          fun _ => rfl } report db') :
    Changes env caller inputs.recoveryTime db db' := by
  obtain ⟨_, _, _, hfi, hi, -⟩ := yields_followInterruption.1 h
  obtain ⟨jobs, rfl, hj⟩ : ∃ jobs, _ ∧ JobsFinish env caller inputs.recoveryTime _ jobs :=
    finish_changes hfi
  have hsu : ∃ successor timings, SuccessorOf env db inputs.recoveryTime run successor ∧ db' =
    { db with
      attempts
      outputs
      timings
      jobs
      runs := withSuccessor (db.runs.modify run.id (ended .interrupted inputs.recoveryTime interruptionResult)
        fun _ => rfl) successor } := by
    obtain ⟨-, row, hfo, -, -, h⟩ := yields_insertInterruptedSuccessor.1 hi
    -- the row that is read back is the run with its end
    have hro : row = ended .interrupted inputs.recoveryTime interruptionResult run := by
      have hm := modify_mem hr
        (ended .interrupted inputs.recoveryTime interruptionResult)
        (key_ended .interrupted inputs.recoveryTime interruptionResult)
      exact Option.some.inj (hfo.symm.trans (Table.find?_of_mem hm))
    subst hro
    rcases h with ⟨hma, -, rfl⟩ | ⟨how, _, hid, hjo, hre⟩
    · exact ⟨none, db.timings, .of_manual hma, rfl⟩
    have how : run.scheduleOwned = true := how
    obtain ⟨successor, timings, ho, rfl⟩ := recurrence_successor db
      (key_ended .interrupted inputs.recoveryTime interruptionResult) how rfl hjo.mem hid
      hj.recurring hl (.inr hs) hre
    exact ⟨successor, timings, ho, rfl⟩
  obtain ⟨successor, timings, ho, rfl⟩ := hsu
  have he : Changes env caller inputs.recoveryTime db _ :=
    .single (.runEnded run hr attempts hc .interrupted rfl interruptionResult successor ho.follows ho.owed)
  exact (he.then (Measured.quiet ⟨timings, outputs, rfl⟩)).then (hj.quiet _ rfl)

variable {delta : Report}

theorem Interruption.changes {row : JobRun} {a : JobAttempt} {retry : Option Retry.Schedule}
    {db₂ : Database} (hc : Intact env db) (hlo : inputs.recoveryTime ≤ lower)
    (h : Interruption env inputs generate run lower a row retry delta db db₁ db₂ db') :
    Changes env caller inputs.recoveryTime db db' := by
  obtain ⟨_, hq⟩ := h.queue
  obtain ⟨_, _, -, -, hj⟩ := h.job
  refine Changes.then ?_ ((drainQueue_quiet hq).trans (drainJob_quiet hj))
  obtain ⟨ha, hse⟩ := h.only.mem
  simp only [bool_steps] at hse
  obtain ⟨hru, hi⟩ := Table.find?_eq_some.1 h.decided.current.found
  have hs := h.decided.current.running
  have ho : a.runId = row.id := hse.1.trans hi.symm
  have hk : (⟨run.id, a.attemptNumber⟩ : AttemptKey) = key a := by
    rw [← hse.1]
    rfl
  have htr := h.transition
  rw [hk] at htr
  obtain ⟨_, -, _, -, -, -, -, -, hd⟩ := h.decided.decision
  cases retry with
  | some schedule =>
    simp only [transitionInterrupted, yields_steps, yields_setRunRetryWait] at htr
    obtain ⟨_, _, ⟨hl, -, rfl⟩, -, rfl⟩ := htr
    obtain ⟨policy, hp, hal⟩ := Retry.recoveryDecision_allowed hd
    have hr : Changes env caller inputs.recoveryTime db _ :=
      .single (.runRetries row hru hs a ha ho hse.2 (hc.last_attempt hru hs ha ho hse.2)
        .interrupted interruptionResult schedule.dueAt hl policy hp hal)
    rw [← ho] at hr
    exact hr.then (Measured.quiet ⟨db.timings, _, rfl⟩)
  | none =>
    simp only [transitionInterrupted, yields_bind, yields_setRunInterrupted] at htr
    obtain ⟨_, _, ⟨-, rfl⟩, hfo⟩ := htr
    have hrun : (key a : AttemptKey).runId = row.id := ho
    rw [hrun] at hfo
    exact followInterruption_changes hru hs (.running hs a ha ho hse.2 _ _) hlo hfo

theorem repairJob_changes (h : Yields (repairJob env inputs generate job lower) db report db') :
    Changes env caller now db db' := by
  simp only [repairJob, yields_steps, yields_repairMissingSuccessor, yields_drainedJob] at h
  obtain ⟨_, _, ⟨-, row, hid, ho, hr⟩, _, _, ⟨-, _, -, -, hd⟩, -, rfl⟩ := h
  refine Changes.then ?_ (drainJob_quiet hd)
  rcases hr with ⟨-, -, rfl⟩ | ⟨_, ⟨_, -, -, -, rfl⟩ | ⟨hno, -, hre⟩⟩
  · exact .refl _
  · exact .refl _
  rcases insertRecurringRun_inserts hre with ⟨-, rfl⟩ | ⟨-, next, id, hn, -, hi⟩
  · exact .refl _
  · have hal := no_owned (Runs.yields_findScheduleOwned hno).2
    rw [← hid] at hal
    exact hi.changes (.runScheduled row ho.mem hn.live id next hi.free hal)

theorem Repair.changes (hc : Intact env db)
    (h : Repair env inputs db delta db') : Changes env caller inputs.recoveryTime db db' := by
  cases h with
  | timing id _ _ hy => exact ((Telemetry.repairAbandoned_measures id).yields hy).quiet.changes
  | run _ _ _ _ _ _ hy =>
    obtain ⟨_, _, _, _, _, _, hi, -⟩ := yields_interruptRun hy
    exact hi.changes hc (le_max_left _ _)
  | job _ _ _ _ hy => exact repairJob_changes hy
  | queue _ _ _ hy => exact (drainQueue_quiet (yields_drainedQueue.1 hy).2).changes

end Recovery

/-! ## Every transaction -/

/-- The job whose definition a call rewrites. -/
def EditedBy (call : Option Operation) (jobId : Uuid) : Prop :=
  ∃ request, call = some (.updateJob request) ∧ request.jobId = jobId

/-- The record a keyed operation stores with its reply. -/
inductive Replied (d : Deployment) : Operation → IdempotencyRecord → Prop
  | createQueue {request : Management.CreateQueueRequest} {record : IdempotencyRecord}
    (reply : Management.QueueReply d.env d.codecs.createQueue request record) :
    Replied d (.createQueue request) record
  | createJob {request : Management.CreateJobRequest} {record : IdempotencyRecord}
    (reply : Management.JobReply d.env d.codecs.createJob request record) :
    Replied d (.createJob request) record
  | runNow {request : Management.RunNowRequest} {record : IdempotencyRecord}
    (reply : Management.RunReply d.env d.codecs.runNow request record) :
    Replied d (.runNow request) record

/-- What a call accounts for; the daemon itself accounts for nothing. -/
def CallerOf (d : Deployment) (call : Option Operation) : Caller where
  edits := EditedBy call
  replies record := ∃ op, call = some op ∧ Replied d op record

section

variable (hc : Intact d.env db)

include hc

theorem Operation.changes {op : Operation} (hy : Yields (op.run d amb) db u db') :
    Changes d.env (CallerOf d (some op)) amb.utcNow db db' := by
  cases op with
  | createQueue =>
    obtain ⟨_, hy⟩ := yields_ignoring hy
    exact createQueue_changes (fun _ reply => ⟨_, rfl, .createQueue reply⟩) hy
  | updateQueue =>
    obtain ⟨_, hy⟩ := yields_ignoring hy
    exact (updateQueue_changes hy).1
  | suspendQueue =>
    obtain ⟨_, hy⟩ := yields_ignoring hy
    exact suspendQueue_changes hy
  | resumeQueue =>
    obtain ⟨_, hy⟩ := yields_ignoring hy
    exact resumeQueue_changes hy
  | deleteQueue => exact deleteQueue_changes hc hy
  | createJob =>
    obtain ⟨_, hy⟩ := yields_ignoring hy
    exact createJob_changes (fun _ reply => ⟨_, rfl, .createJob reply⟩) hy
  | runNow =>
    obtain ⟨_, hy⟩ := yields_ignoring hy
    exact runNow_changes (fun _ reply => ⟨_, rfl, .runNow reply⟩) hy
  | updateJob request =>
    obtain ⟨_, hy⟩ := yields_ignoring hy
    have he : (CallerOf d (some (.updateJob request))).edits request.jobId := ⟨request, rfl, rfl⟩
    exact (updateJob_changes he hy).1
  | suspendJob =>
    obtain ⟨_, hy⟩ := yields_ignoring hy
    exact suspendJob_changes hy
  | resumeJob =>
    obtain ⟨_, hy⟩ := yields_ignoring hy
    exact resumeJob_changes hy
  | moveJob =>
    obtain ⟨_, hy⟩ := yields_ignoring hy
    exact (moveJob_changes hy).1
  | deleteJob => exact (deleteJob_changes hy).1

/-- **A transaction on a consistent database is a sequence of changes at its clock reading.** -/
theorem CommitAt.changes {call : Option Operation} (h : CommitAt d now call db db') :
    Changes d.env (CallerOf d call) now db db' := by
  cases h with
  | manage _ clock _ _ _ hy =>
    rw [← clock]
    exact Operation.changes hc hy
  | observe amb _ position _ _ _ hy =>
    exact ((Telemetry.observePage_measures amb position).yields hy).quiet.changes
  | account sample batchSize position _ close _ _ hy =>
    exact ((Telemetry.accountingPage_measures sample batchSize position close).yields hy).quiet.changes
  | recover _ clock _ _ _ unit =>
    rw [← clock]
    exact unit.changes hc
  | dispatch _ clock _ _ _ _ _ hy =>
    rw [← clock]
    exact claim_changes hy
  | complete _ clock _ _ _ _ hy =>
    rw [← clock]
    exact completeDurably_changes hc hy
  | cancel _ clock _ _ _ _ hy =>
    rw [← clock]
    exact cancelPending_changes hy

theorem Commit.changes (h : Commit d db db') : ∃ caller now, Changes d.env caller now db db' := by
  obtain ⟨now, _, hat⟩ := h.reading
  exact ⟨_, now, hat.changes hc⟩

end

/-- **What survives every change survives every history.** -/
theorem Commits.preserve {P : Database → Prop} (hs : Stored d db)
    (hstep : ∀ caller now db db', Change d.env caller now db db' → P db → P db') (h : Commits d db db')
    (hd : P db) : P db' := by
  unfold Commits at h
  induction h with
  | refl => exact hd
  | tail hbe hl ih =>
    have hm : Stored d _ := Relation.ReflTransGen.trans hs hbe
    obtain ⟨caller, now, hc⟩ := hl.changes hm.consistent
    exact hc.preserve (hstep caller now) ih

/-- What holds of the empty database and survives every change holds of every stored one. -/
theorem Stored.preserve {P : Database → Prop} (he : P {})
    (hstep : ∀ caller now db db', Change d.env caller now db db' → P db → P db') (h : Stored d db) : P db :=
  Commits.preserve .refl hstep h he

end Jobu
