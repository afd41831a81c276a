import Jobu.Changes.Basic

/-!
# What a change does to one run and to one attempt

The same changes, read from the side of a row: a run row of the next database is a row of this one
after one of seven statements, or it is new.  Facts about single runs follow from these two lists
without looking at the tables again.

  > `Change.runs`: where a run row comes from and where it goes.
  > `Change.attempts`: the same for attempts.
-/

namespace Jobu

open Lib Table Scheduler

open Keyed (key)

variable {env : Environment} {caller : Caller} {now : Int} {db db' : Database}

/-! ## Runs -/

/-- The statements on one run row. -/
inductive RunWrite (caller : Caller) (now : Int) (db : Database) (run : JobRun) : JobRun → Prop
  | kept : RunWrite caller now db run run
  | moved (target : Queue) (there : target ∈ db.queues) (revision : Nat) (live : run.isLive = true) :
    RunWrite caller now db run (Runs.moved target.id revision run)
  | cancelled (reason : String) (pending : run.state.isPending = true) :
    RunWrite caller now db run (Runs.cancelled now reason run)
  | refreshed (job : JobDefinition) (mem : job ∈ db.jobs) (edits : caller.edits job.id)
    (live : job.state ≠ .deleted) (planned : Int) (unstarted : Runs.unstarted db job.id run = true) :
    RunWrite caller now db run (Runs.refreshed (snapshotOf job planned) run)
  | started (pending : run.state.isPending = true) (due : run.runnableAt ≤ now) :
    RunWrite caller now db run (Scheduler.started now run)
  | retrying (running : run.state = .running) (dueAt : Int) (later : now ≤ dueAt)
    (policy : RetryPolicy) (of_run : Retry.policyFromAttributes run.attributes = .ok policy)
    (allowed : ∀ a ∈ db.attempts, a.runId = run.id → a.attemptNumber < policy.maxAttempts) :
    RunWrite caller now db run (Scheduler.retrying dueAt run)
  | ended (live : run.isLive = true) (state : RunState) (terminal : state.isTerminal = true)
    (result : Json) : RunWrite caller now db run (Scheduler.ended state now result run)

/-- The runs that are inserted. -/
inductive RunInsert (env : Environment) (now : Int) (db : Database) (run : JobRun) : Prop
  | scheduled (job : JobDefinition) (mem : job ∈ db.jobs) (live : job.state ≠ .deleted)
    (planned : Int) (alone : ∀ other ∈ db.runs, other.jobId = job.id → other.isLiveOwned = false)
    (eq : run = Runs.stored (Lifecycle.scheduledRun job run.id planned))
  | manual (job : JobDefinition) (mem : job ∈ db.jobs) (live : job.state ≠ .deleted)
    (manual : run.scheduleOwned = false) (new : run.state = .scheduled)
    (copies : run.jobId = job.id ∧ run.queueId = job.queueId ∧ run.type = job.type ∧
      run.attributes = job.attributes ∧ run.payload = job.payload)
  | successor (ended : JobRun) (mem : ended ∈ db.runs) (next : JobRun)
    (continues : Continues env db now ended next) (eq : run = Runs.stored next)

variable {run : JobRun}

theorem RunWrite.id_eq {run' : JobRun} (h : RunWrite caller now db run run') :
    run'.id = run.id ∧ run'.jobId = run.jobId ∧ run'.scheduleOwned = run.scheduleOwned := by
  cases h <;> exact ⟨rfl, rfl, rfl⟩

/-- A pending run is live. -/
theorem isLive_of_isPending (h : run.state.isPending = true) : run.isLive = true := by
  unfold JobRun.isLive
  cases hs : run.state <;> rw [hs] at h <;> first | rfl | cases h

theorem Closing.live {run : JobRun} {attempts : Table JobAttempt} (h : Closing db run now attempts) :
    run.isLive = true := by
  cases h with
  | waiting pending => exact isLive_of_isPending pending
  | running running =>
    unfold JobRun.isLive
    rw [running]
    rfl

variable {f : JobRun → JobRun}

theorem runWrite_update {p : JobRun → Bool} (hf : ∀ run : JobRun, key (f run) = key run)
    (h : ∀ run ∈ db.runs, p run = true → RunWrite caller now db run (f run)) :
    (∀ run' ∈ db.runs.update p f hf, ∃ run ∈ db.runs, RunWrite caller now db run run') ∧
      ∀ run ∈ db.runs, ∃ run' ∈ db.runs.update p f hf, RunWrite caller now db run run' := by
  have hstep : ∀ run ∈ db.runs, RunWrite caller now db run (if p run then f run else run) := by
    intro run hr
    by_cases hp : p run = true
    · rw [if_pos hp]
      exact h run hr hp
    · rw [if_neg hp]
      exact .kept
  refine ⟨fun run' hr' => ?_, fun run hr => ?_⟩
  · obtain ⟨run, hr, rfl⟩ := (mem_update hf).1 hr'
    exact ⟨run, hr, hstep run hr⟩
  · exact ⟨_, mem_update_of_mem hr p f hf, hstep run hr⟩

theorem runWrite_modify (hf : ∀ run : JobRun, key (f run) = key run) (hr : run ∈ db.runs)
    (h : RunWrite caller now db run (f run)) :
    (∀ run' ∈ db.runs.modify run.id f hf, ∃ run ∈ db.runs, RunWrite caller now db run run') ∧
      ∀ other ∈ db.runs, ∃ run' ∈ db.runs.modify run.id f hf, RunWrite caller now db other run' := by
  refine runWrite_update hf fun other ho hk => ?_
  rw [eq_of_key ho hr (of_decide_eq_true hk)]
  exact h

/-- What a change does to the run rows: the old rows one by one, and those it inserts. -/
structure RunsChange (env : Environment) (caller : Caller) (now : Int) (db db' : Database) : Prop where
  cases : ∀ run' ∈ db'.runs, (∃ run ∈ db.runs, RunWrite caller now db run run') ∨
    db.runs.find? run'.id = none ∧ RunInsert env now db run'
  next : ∀ run ∈ db.runs, ∃ run' ∈ db'.runs, RunWrite caller now db run run'

namespace RunsChange

theorem of_same (h : db'.runs = db.runs) : RunsChange env caller now db db' := by
  refine ⟨?_, ?_⟩
  · rw [h]
    exact fun run hr => .inl ⟨run, hr, .kept⟩
  · rw [h]
    exact fun run hr => ⟨run, hr, .kept⟩

theorem of_writes (h : (∀ run' ∈ db'.runs, ∃ run ∈ db.runs, RunWrite caller now db run run') ∧
    ∀ run ∈ db.runs, ∃ run' ∈ db'.runs, RunWrite caller now db run run') : RunsChange env caller now db db' :=
  ⟨fun run' hr' => .inl (h.1 run' hr'), h.2⟩

theorem of_insert (h : db'.runs = db.runs.insert run)
    (hfr : db.runs.find? run.id = none) (hn : RunInsert env now db run) :
    RunsChange env caller now db db' := by
  refine ⟨?_, ?_⟩
  · rw [h]
    intro run' hr'
    rcases (mem_insert hfr).1 hr' with rfl | ho
    · exact .inr ⟨hfr, hn⟩
    · exact .inl ⟨run', ho, .kept⟩
  · rw [h]
    exact fun run hr => ⟨run, (mem_insert hfr).2 (.inr hr), .kept⟩

/-- One row ends, and its successor is inserted beside it. -/
theorem of_ended {run : JobRun} {f : JobRun → JobRun} {hf : ∀ run : JobRun, key (f run) = key run}
    {successor : Option JobRun} (hr : run ∈ db.runs) (h : RunWrite caller now db run (f run))
    (hd : db'.runs = withSuccessor (db.runs.modify run.id f hf) successor)
    (hn : ∀ next ∈ successor, Continues env db now run next) : RunsChange env caller now db db' := by
  have hwr := runWrite_modify hf hr h
  cases successor with
  | none =>
    refine of_writes ?_
    rw [hd]
    exact hwr
  | some next =>
    have hc := hn next rfl
    have hfr : (db.runs.modify run.id f hf).find? (key (Runs.stored next)) = none := by
      rw [Table.find?_modify, Option.map_eq_none_iff]
      exact hc.free
    refine ⟨?_, ?_⟩
    · rw [hd]
      intro run' hr'
      rcases (mem_insert hfr).1 hr' with rfl | ho
      · exact .inr ⟨hc.free, .successor run hr next hc rfl⟩
      · exact .inl (hwr.1 run' ho)
    · rw [hd]
      intro other hot
      obtain ⟨run', hr', hw⟩ := hwr.2 other hot
      exact ⟨run', (mem_insert hfr).2 (.inr hr'), hw⟩

end RunsChange

/-- **The runs after a change, row by row.** -/
theorem Change.runs (h : Change env caller now db db') : RunsChange env caller now db db' := by
  cases h with
  | queueErased _ _ _ _ _ _ reason
  | jobDeleted _ _ _ _ reason =>
    refine .of_writes (runWrite_update (Runs.key_cancelled now reason) fun run _ hse => .cancelled reason ?_)
    simp only [Bool.and_eq_true] at hse
    exact hse.2
  | jobMoved _ _ _ target there =>
    refine .of_writes (runWrite_update (Runs.key_moved _ _) fun run _ hse => .moved target there _ ?_)
    simp only [Bool.and_eq_true] at hse
    exact hse.2
  | runScheduled job mem live _ planned free alone =>
    exact .of_insert rfl free (.scheduled job mem live planned alone rfl)
  | runManual job mem live _ free manual new copies =>
    exact .of_insert rfl free (.manual job mem live manual new copies)
  | runRefreshed job mem edits live planned =>
    exact .of_writes (runWrite_update (Runs.key_refreshed _) fun run _ hse => .refreshed job mem edits live planned hse)
  | runStarted _ mem pending due =>
    exact .of_writes (runWrite_modify (key_started now) mem (.started pending due))
  | runRetries run mem running attempt there of unreported last outcome result dueAt later policy
    of_run allowed =>
    exact .of_writes (runWrite_modify (key_retrying dueAt) mem
      (.retrying running dueAt later policy of_run fun a ha ho => lt_of_le_of_lt (last a ha ho) allowed))
  | runEnded _ mem _ closing state terminal result _ follows =>
    exact .of_ended mem (.ended closing.live state terminal result) rfl follows
  | _ => exact .of_same rfl

/-! ## Attempts -/

/-- The statements on one attempt row. -/
inductive AttemptWrite (now : Int) (attempt : JobAttempt) : JobAttempt → Prop
  | kept : AttemptWrite now attempt attempt
  | reported (unreported : attempt.state = .running) (outcome : AttemptOutcome) (result : Json) :
    AttemptWrite now attempt (Scheduler.reported now outcome result attempt)

/-- The attempt a dispatch inserts: it carries the next number of a run that was waiting. -/
structure AttemptInsert (now : Int) (db db' : Database) (attempt : JobAttempt) : Prop where
  free : db.attempts.find? (key attempt) = none
  running : attempt.state = .running
  number : attempt.attemptNumber = (((db.attemptsOf attempt.runId).getLast?).elim 0 JobAttempt.attemptNumber) + 1
  run : ∃ run ∈ db.runs, run.id = attempt.runId ∧ run.state.isPending = true ∧
    run.runnableAt ≤ now ∧ Scheduler.started now run ∈ db'.runs

variable {attempt : JobAttempt}

theorem AttemptWrite.key_eq {attempt' : JobAttempt} (h : AttemptWrite now attempt attempt') :
    (key attempt' : AttemptKey) = key attempt := by
  cases h <;> rfl

structure AttemptsChange (now : Int) (db db' : Database) : Prop where
  cases : ∀ attempt' ∈ db'.attempts, (∃ attempt ∈ db.attempts, AttemptWrite now attempt attempt') ∨
    AttemptInsert now db db' attempt'
  next : ∀ attempt ∈ db.attempts, ∃ attempt' ∈ db'.attempts, AttemptWrite now attempt attempt'

namespace AttemptsChange

theorem of_same (h : db'.attempts = db.attempts) : AttemptsChange now db db' := by
  refine ⟨?_, ?_⟩
  · rw [h]
    exact fun attempt ha => .inl ⟨attempt, ha, .kept⟩
  · rw [h]
    exact fun attempt ha => ⟨attempt, ha, .kept⟩

theorem of_reported {outcome : AttemptOutcome} {result : Json}
    (ha : attempt ∈ db.attempts) (hr : attempt.state = .running)
    (h : db'.attempts = db.attempts.modify (key attempt) (reported now outcome result)
      fun _ => rfl) : AttemptsChange now db db' := by
  have hot : ∀ other ∈ db.attempts, key other = (key attempt : AttemptKey) → other = attempt :=
    fun other ho hk => eq_of_key ho ha hk
  refine ⟨?_, ?_⟩
  · rw [h]
    intro a' ha'
    rcases (mem_modify _).1 ha' with ⟨a, hm, hk, rfl⟩ | ⟨hm, -⟩
    · obtain rfl := hot a hm hk
      exact .inl ⟨a, hm, .reported hr outcome result⟩
    · exact .inl ⟨a', hm, .kept⟩
  rw [h]
  intro a hm
  by_cases hk : key a = (key attempt : AttemptKey)
  · obtain rfl := hot a hm hk
    exact ⟨_, modify_mem hm _ (key_reported now outcome result), .reported hr outcome result⟩
  · exact ⟨a, modify_mem_other hm hk _ (key_reported now outcome result), .kept⟩

end AttemptsChange

theorem Closing.attempts {run : JobRun} {attempts : Table JobAttempt}
    (h : Closing db run now attempts) (hd : db'.attempts = attempts) : AttemptsChange now db db' := by
  cases h with
  | waiting => exact .of_same hd
  | running _ _ mem _ unreported => exact .of_reported mem unreported hd

/-- **The attempts after a change, row by row.** -/
theorem Change.attempts (h : Change env caller now db db') : AttemptsChange now db db' := by
  cases h with
  | runStarted run mem pending due _ of next free running =>
    refine ⟨fun a' ha' => ?_, fun a ha => ⟨a, (mem_insert free).2 (.inr ha), .kept⟩⟩
    rcases (mem_insert free).1 ha' with rfl | ho
    · rw [← of] at next
      exact .inr ⟨free, running, next, run, mem, of.symm, pending, due, modify_mem mem _ (key_started now)⟩
    · exact .inl ⟨a', ho, .kept⟩
  | runRetries run mem running attempt there of unreported last outcome result dueAt later policy
    of_run allowed => exact .of_reported there unreported rfl
  | runEnded _ _ _ closing => exact closing.attempts rfl
  | _ => exact .of_same rfl

end Jobu
