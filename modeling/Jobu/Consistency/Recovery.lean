import Jobu.Consistency.Scheduler
import Jobu.Recovery.Units

/-!
# Recovery keeps a consistent database consistent

Every committed unit of recovery is a transaction like those of the scheduler: it leaves a
consistent database, touches at most the one run it interrupts, and drains the owners that waited for
it.  So a recovery may be cut off anywhere.

  > `Repair.moves`: one unit is a move that leaves its run not running.
-/

namespace Jobu

open Lib Keyed Table Scheduler Lifecycle RunState

namespace Recovery

variable {env : Environment} {inputs : Inputs} {db db' : Database}
  {generate : Database → Except Error Uuid} {lower : Int}

/-! ## The end of an interrupted run -/

variable {job : JobDefinition} {measurement : Runs.InitialMeasurement} {inserted : Bool}

/-- A job that has not ended has no successor to give if it is due once. -/
theorem insertRecurringRun_once (ho : job.schedule.isOnce = true)
    (h : Yields (insertRecurringRun env generate job lower measurement) db inserted db') :
    db' = db := by
  rcases yields_insertRecurringRun.1 h with ⟨-, rfl, -⟩ | ⟨-, _, _, hn, -⟩
  · rfl
  obtain ⟨_, _, hc, -⟩ := hn.cron
  rw [hc] at ho
  cases ho

theorem finishAfterTerminalRun_schedule {runId : Uuid} {transitionTime : Int} {finished : Bool}
    (h : Yields (finishAfterTerminalRun env runId transitionTime) db finished db') :
    ∀ job' ∈ db'.jobs, ∃ job ∈ db.jobs, job.id = job'.id ∧ job.schedule = job'.schedule := by
  intro job' hj'
  obtain ⟨_, _, _, -, ⟨-, rfl, -⟩ | ⟨-, -, -, ⟨-, rfl, -⟩ | ⟨-, -, -, -, hse⟩⟩⟩ :=
    yields_finishAfterTerminalRun.1 h
  · exact ⟨job', hj', rfl, rfl⟩
  · exact ⟨job', hj', rfl, rfl⟩
  · obtain rfl := (Jobs.yields_setState_true.1 hse).2.2.2
    rcases (mem_modify (Jobs.key_entered _ _ _)).1 hj' with ⟨j, hj, -, rfl⟩ | ⟨hj, -⟩
    · exact ⟨j, hj, rfl, rfl⟩
    · exact ⟨job', hj, rfl, rfl⟩

variable {report : Report}

/-- Recovery finishes the job before it asks for a successor; the order makes no difference, since
only a job that is due once ends and only a recurring one has a successor. -/
theorem followInterruption_follows {F : Uuid → Prop} (run : JobRun) {owned manual : Option JobRun}
    (he : Ending job run.scheduleOwned owned manual)
    (h : Consistent env (Only job.id) F db) (hjo : job ∈ db.jobs) (hru : run ∈ db.runs)
    (how : run.jobId = job.id) (hw : Work db.runs job.id owned manual)
    (hg : ∀ db id, generate db = .ok id → id ≠ Uuid.nil)
    (hy : Yields (followInterruption env inputs generate run.id lower) db report db') :
    Follows env F job db db' := by
  obtain ⟨_, _, db1, hfi, hi, -⟩ := yields_followInterruption.1 hy
  obtain ⟨-, run', hfo, -, -, hi⟩ := yields_insertInterruptedSuccessor.1 hi
  obtain ⟨_, hjob⟩ := finishAfterTerminalRun_jobs hfi
  have hrun : db1.runs = db.runs := by rw [hjob]
  rw [hrun] at hfo
  obtain rfl : run = run' := Option.some.inj ((Table.find?_of_mem hru).symm.trans hfo)
  by_cases hon : job.schedule.isOnce = true
  · -- the job may have ended, and no successor follows
    have hf : Follows env F job db db1 := by
      refine he.finish h hjo hru how hw (fun ho => by rw [hon] at ho; cases ho) (fun hm r hr => ?_)
        hfi
      rcases he.vacated with ⟨-, rfl⟩ | ⟨-, rfl⟩
      · cases hr
      · cases hm
    obtain rfl : db' = db1 := by
      rcases hi with ⟨-, -, rfl⟩ | ⟨-, job', hid, hown, hi⟩
      · rfl
      obtain ⟨j, hj, hji, hsc⟩ := finishAfterTerminalRun_schedule hfi job' hown.mem
      obtain rfl : j = job := eq_of_key hj hjo (hji.trans (hid.trans how))
      exact insertRecurringRun_once (hsc ▸ hon) hi
    exact hf
  -- a recurring job goes on, and its successor is asked for
  rcases finishAfterTerminalRun_consistent h hjo hru how hw he.isOpen hfi with
    ⟨-, rfl, -⟩ | ⟨-, -, -, ho, -⟩
  swap
  · exact absurd ho hon
  rcases hi with ⟨hma, -, rfl⟩ | ⟨howne, job', hid, hown, hi⟩
  · obtain rfl : manual = none := (he.vacated.resolve_left fun hv => by rw [hma] at hv; cases hv.1).2
    refine ⟨h, fun job' hj' hi' => ?_, fun _ _ => .refl _ _ _, rfl, rfl, fun _ hj => .inl hj⟩
    obtain rfl := eq_of_key hj' hjo hi'
    exact ⟨owned, none, hw, he.go_on (he.recurring hma) (fun hm => by cases hm)
      fun ho => absurd ho hon⟩
  obtain rfl : owned = none := (he.vacated.resolve_right fun hv => by rw [howne] at hv; cases hv.1).2
  obtain rfl : job' = job := eq_of_key hown.mem hjo (hid.trans how)
  rcases insertRecurringRun_consistent h hjo hw hg hi with
    ⟨-, -, hd | ho⟩ | ⟨-, h₁, hfr, hq, hjob, hat, next, hs, hfit, hw1⟩
  · exact absurd hd he.isOpen.1
  · exact absurd ho hon
  refine ⟨h₁, fun j hj hji => ?_, hfr, hq, hat, fun j hj => .inl (hjob ▸ hj)⟩
  rw [hjob] at hj
  obtain rfl := eq_of_key hj hjo hji
  refine ⟨some next, manual, hw1, Remaining.go_on ⟨he.isOpen, fun r hr => ?_, he.manualFits,
    fun _ r hr => ?_⟩ (fun _ => rfl) (fun _ r hr => ?_) fun ho => absurd ho hon⟩
  all_goals cases hr
  · exact hfit
  · rw [hs]
    exact noConfusion
  · exact hs

/-! ## Interruptions -/

variable {run : JobRun}

/-- The time of a running run is not being measured. -/
theorem closed_of_running (h : Intact env db) (hr : run ∈ db.runs)
    (hs : run.state = .running) : Closed db.timings run.id := by
  obtain ⟨_, ht, hid, hsh⟩ := (h.runs run hr).timing
  intro _ ht' hi'
  obtain rfl := eq_of_key ht' ht (hi'.trans hid.symm)
  by_contra ho
  obtain ⟨interval, hi⟩ := Option.ne_none_iff_exists'.1 ho
  have := (hsh.interval interval hi).2.2
  rw [hs] at this
  cases this

/-- A run has been interrupted, and its job has followed. -/
structure Interrupted (env : Environment) (run : JobRun) (job : JobDefinition) (db db' : Database) : Prop where
  consistent : Consistent env (Only job.id) Nobody db'
  frame : Frame (Only run.id) Nobody db db'
  queues : db'.queues = db.queues
  settled : ∀ job' ∈ db'.jobs, job'.id = job.id → Settled db'.runs job'
  jobs : ∀ job' ∈ db'.jobs, job'.state = .suspending → job' ∈ db.jobs
  run : ∃ run' ∈ db'.runs, run'.id = run.id ∧ run'.state ≠ .running

variable {retry : Option Retry.Schedule}

theorem transitionInterrupted_interrupted {k : AttemptKey}
    (h : Intact env db) (hr : run ∈ db.runs) (hs : run.state = .running) (hi : run.id = k.runId)
    (hk : ∃ a ∈ db.attempts, (key a : AttemptKey) = k ∧ a.state = .running)
    (hfre : db.outputs.find? k = none) (hjo : job ∈ db.jobs) (how : run.jobId = job.id)
    (hg : ∀ db id, generate db = .ok id → id ≠ Uuid.nil)
    (hy : Yields (transitionInterrupted env inputs generate k lower retry)
      (interrupting k inputs.recoveryTime db) report db') :
    Interrupted env run job db db' := by
  have hso := h.runs run hr
  have hc := closed_of_running h hr hs
  have hou : ∀ o ∈ db.outputs.insert (lostOutput k), (∃ o' ∈ db.outputs,
      (key o' : AttemptKey) = key o) ∨ (key o : AttemptKey) = k := by
    intro o ho
    rcases (mem_insert hfre).1 ho with rfl | ho
    · exact .inr rfl
    · exact .inl ⟨o, ho, rfl⟩
  cases retry with
  | some schedule =>
    simp only [transitionInterrupted, yields_steps, yields_setRunRetryWait] at hy
    obtain ⟨_, _, ⟨-, -, rfl⟩, -, rfl⟩ := hy
    rw [← hi]
    have hl : ∀ last : JobAttempt, last.dueAt = run.runnableAt → LastOk (retrying schedule.dueAt run)
          (some (reported inputs.recoveryTime .interrupted interruptionResult last)) :=
      fun _ _ => rfl
    obtain ⟨h₁, hfr⟩ := report_consistent (key_retrying schedule.dueAt) h hr hs hi hk
      hou ⟨rfl, rfl, rfl, rfl, rfl⟩ (retrying_sound hso hs hc schedule.dueAt) rfl
      hl rfl
    rw [how] at h₁
    exact ⟨h₁, hfr, rfl, fun job' hj' _ => retrying_settled h hr hs hj' _,
      fun _ hj _ => hj, _, modify_mem hr _ (key_retrying schedule.dueAt), rfl, noConfusion⟩
  | none =>
    simp only [transitionInterrupted, yields_bind, yields_setRunInterrupted] at hy
    obtain ⟨_, _, ⟨-, rfl⟩, hy⟩ := hy
    rw [← hi] at hy
    have hst : validStartedAt .interrupted run.startedAt.isSome = true := by
      have := hso.shape.started
      rwa [hs] at this
    obtain ⟨h₁, hfr⟩ := report_consistent
      (key_ended .interrupted inputs.recoveryTime interruptionResult) h hr hs hi hk hou
      ⟨rfl, rfl, rfl, rfl, rfl⟩ (ended_sound hso rfl hst hc inputs.recoveryTime
        interruptionResult) rfl (fun _ hd => lastOk_ended rfl hd) rfl
    obtain ⟨_, _, hw, he⟩ := (h.settled job hjo id).ending
      (key_ended .interrupted inputs.recoveryTime interruptionResult) hr how
      (by rw [hs]; rfl) hso.origin rfl
    have hm := modify_mem hr
      (ended .interrupted inputs.recoveryTime interruptionResult)
      (key_ended .interrupted inputs.recoveryTime interruptionResult)
    rw [how] at h₁
    have hf := followInterruption_follows (ended .interrupted inputs.recoveryTime
      interruptionResult run) he h₁ hjo hm how hw hg hy
    obtain ⟨run', hr', hsa, hfro, -⟩ := (hf.frame Nobody Nobody).runs _ hm
    refine ⟨hf.consistent, hfr.trans (hf.frame _ _), hf.queues, hf.settled,
      fun job' hj' hsu => ?_, run', hr', hsa.id, ?_⟩
    · refine (hf.jobs job' hj').resolve_right fun ht => ?_
      rw [hsu] at ht
      cases ht.2
    · rw [hfro rfl]
      exact noConfusion

variable {delta : Report}

/-- **A unit that interrupts a run is a move of that run.** -/
theorem Interruption.moves {row : JobRun} {a : JobAttempt} {db1 db2 : Database}
    (hi : Interruption env inputs generate run lower a row retry delta db db1 db2 db')
    (h : Intact env db) (hr : run ∈ db.runs) (hs : run.state = .running)
    (hg : ∀ db id, generate db = .ok id → id ≠ Uuid.nil) :
    Moves env (Only run.id) Nobody db db' ∧ ∃ run' ∈ db'.runs, run'.id = run.id ∧ run'.state ≠ .running := by
  obtain ⟨job, hjo, ho, -⟩ := (h.runs run hr).job
  obtain ⟨hm, hse⟩ := hi.only.mem
  simp only [bool_steps] at hse
  have hk : ∃ a' ∈ db.attempts, (key a' : AttemptKey) = ⟨run.id, a.attemptNumber⟩ ∧
      a'.state = .running := ⟨a, hm, by rw [← hse.1]; rfl, hse.2⟩
  have ht := transitionInterrupted_interrupted h hr hs rfl hk hi.free hjo ho.symm hg
    hi.transition
  obtain ⟨_, hq⟩ := hi.queue
  obtain ⟨_, _, -, -, hd⟩ := hi.job
  refine ⟨drains_move hr ho.symm (fun _ hid => hid) ht.frame ht.queues ht.consistent ht.settled
    (fun job' hj hsu => .inl (ht.jobs job' hj hsu)) hq hd, ?_⟩
  obtain ⟨_, rfl⟩ := drainQueue_rows hq
  obtain ⟨_, rfl⟩ := drainJob_rows hd
  exact ht.run

/-! ## Owners -/

variable {jobId : Uuid}

/-- A consistent recurring job has its work. -/
theorem repairMissingSuccessor_consistent (h : Intact env db)
    (hy : Yields (repairMissingSuccessor env generate jobId lower measurement) db inserted db') :
    inserted = false ∧ db' = db := by
  obtain ⟨-, job, rfl, ho, ⟨-, h'⟩ | ⟨hop, ⟨run, -, -, h'⟩ | ⟨hno, -⟩⟩⟩ :=
    yields_repairMissingSuccessor.1 hy
  · exact h'
  · exact h'
  obtain ⟨_, _, hw, hok⟩ := h.settled job ho.mem id
  rw [not_or, Bool.not_eq_true] at hop
  obtain ⟨run, rfl⟩ := Option.isSome_iff_exists.1 (hok.recurring hop.1 hop.2)
  obtain ⟨hm, hse⟩ := hw.owned.mem
  have hn := isOnly_none.1 (Runs.yields_findScheduleOwned hno).2 run hm
  exact absurd hse (by rw [ownedBy, hn]; exact Bool.noConfusion)

variable {queueId : Uuid} {updatedAt : Int} {drained : Bool}

theorem drainJob_moves (h : Intact env db)
    (hy : Yields (Scheduler.completeDrainedJobSuspension env queueId jobId updatedAt) db drained
      db') : Keeps env db db' := by
  obtain ⟨h₁, hd⟩ := drainJob_consistent (h.openJob jobId) (fun job hj _ => h.settled job hj id) hy
  exact ⟨h₁.closeJob hd.settled, .of_eq hd.runs hd.attempts, .of_eq hd.queues,
    .of_states fun job' hj' hs => ⟨job', (hd.jobs job' hj' hs).1, rfl, hs⟩⟩

theorem drainQueue_moves (h : Intact env db)
    (hy : Yields (Scheduler.completeDrainedQueueSuspension env queueId updatedAt) db drained db') :
    Keeps env db db' := by
  obtain ⟨h₁, hd⟩ := drainQueue_consistent h hy
  refine ⟨h₁, .of_eq hd.runs hd.attempts, fun queue' hq' => ?_, .of_eq hd.jobs⟩
  rcases hd.queues queue' hq' with ⟨ho, -⟩ | ⟨-, hdr⟩
  · exact .inl ⟨queue', ho, rfl, rfl, fun _ _ _ => False.elim⟩
  · exact .inr (hd.runs ▸ hdr)

/-- **One unit of recovery is a move that leaves its run not running.** -/
theorem Repair.moves (hr : Repair env inputs db delta db')
    (h : Intact env db) : ∃ touched, Moves env touched Nobody db db' ∧
      ∀ run' ∈ db'.runs, touched run'.id → run'.state ≠ .running := by
  cases hr with
  | timing _ _ _ hy =>
    exact ⟨Nobody, h.moves_retimed (repairAbandoned_retimed hy).1.retimed, fun _ _ => False.elim⟩
  | run n row mem running _ _ hy =>
    obtain ⟨_, _, _, _, _, _, hi, -⟩ := yields_interruptRun hy
    obtain ⟨hm, _, hr1, hid, hs⟩ := hi.moves h mem running fun db id => inputs.generate_ne_nil n db id
    refine ⟨Only row.id, hm, fun run' hr' ht => ?_⟩
    obtain rfl := eq_of_key hr' hr1 (Eq.trans ht hid.symm)
    exact hs
  | job _ _ _ _ hy =>
    simp only [repairJob, yields_steps, yields_drainedJob] at hy
    obtain ⟨_, _, hre, _, _, ⟨-, _, -, -, hd⟩, -, rfl⟩ := hy
    obtain ⟨-, rfl⟩ := repairMissingSuccessor_consistent h hre
    exact ⟨Nobody, drainJob_moves h hd, fun _ _ => False.elim⟩
  | queue _ _ _ hy =>
    exact ⟨Nobody, drainQueue_moves h (yields_drainedQueue.1 hy).2, fun _ _ => False.elim⟩

end Recovery

end Jobu
