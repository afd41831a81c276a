import Jobu.Scheduler.Actions
import Jobu.Consistency.Ending

/-!
# The transactions of the scheduler keep the database consistent

A claim starts one waiting run, a completion ends the attempt of one running run, and a
cancellation ends one waiting run.

  > `claim_moves`, `completeDurably_moves`, `cancelPending_moves`: each touches its run only.
-/

namespace Jobu

open Lib Table RunState Telemetry

open Keyed (key)

namespace Scheduler

variable {env : Environment} {amb : Ambient} {db db' : Database}

/-! ## Rows -/

variable {run : JobRun}

theorem started_sound {jobs : Table JobDefinition} {queues : Table Queue}
    {timings : Table RunTiming} (h : RunSound env jobs queues timings run)
    (hp : run.state.isPending = true) (hc : Closed timings run.id) (startedAt : Int) :
    RunSound env jobs queues timings (started startedAt run) where
  id := h.id
  shape := by
    have hl := not_isTerminal_of_isPending hp
    refine ⟨h.shape.revision, h.shape.attributes, h.shape.payload, h.shape.owned, ?_, fun _ => ?_, rfl⟩
    · have := h.shape.completed
      rw [hl] at this
      exact this
    · exact h.shape.result hl
  aligned := h.aligned
  origin := h.origin
  result ht := by cases ht
  job := h.job
  queue := h.queue
  timing := (timing_of_closed h.timing hc : ∃ t ∈ timings, t.runId = run.id ∧ TimingShape .running t)

/-! ## Claims -/

/-- What a claim does. -/
structure Claims (env : Environment) (claim : Claim) (db db' : Database) : Prop where
  moves : Moves env (Only claim.key.runId) Nobody db db'
  number : claim.key.attemptNumber = (db.attemptsOf claim.key.runId).length + 1
  run : ∃ run ∈ db'.runs, run.id = claim.key.runId ∧ run.state = .running
  attempt : ∃ a ∈ db'.attempts, (key a : AttemptKey) = claim.key ∧ a.state = .running
  fresh : db.attempts.find? claim.key = none
  active : ∀ run ∈ db'.runs, run.id = claim.key.runId → ∀ queue ∈ db'.queues,
    queue.id = run.queueId → queue.state = .active

variable {context : DispatchContext}

theorem startedAttempt_sound {startedAt : Int} (h : context.nextAttempt ≤ maximumAttemptNumber) :
    AttemptSound (Attempts.stored (startedAttempt context startedAt)) :=
  ⟨h, rfl, rfl⟩

variable {runId : Uuid} {row : SchedulerRun} {job : JobDefinition}

theorem Eligible.settled {now : Int} {queue : Queue} (h : Intact env db)
    (he : Eligible db runId now row job queue) (startedAt : Int) :
    Settled (db.runs.modify row.run.id (started startedAt) fun _ => rfl) job := by
  obtain ⟨hj, hji⟩ := he.joined.ofJob
  obtain ⟨owned, manual, hw, hok⟩ := h.settled job hj id
  have hse : ∀ {r : JobRun}, r ∈ db.runs → decide (key r = row.run.id) = true → r = row.run :=
    fun hr hp => eq_of_key hr he.mem.1 (@of_decide_eq_true _ _ hp)
  have hw' := hw.update (q := fun r => decide (key r = row.run.id)) (key_started startedAt)
    fun r hr hp => ⟨⟨rfl, rfl, rfl, rfl, rfl⟩, by
      obtain rfl := hse hr hp
      rw [not_isTerminal_of_isPending he.pending]
      rfl⟩
  refine ⟨_, _, hw', hok.change rfl hok.recurring (fun r hr => ?_) (fun hm r hr => ?_) fun hsu r hr => ?_⟩
  · have hfi : Fits job r := hr.elim (hok.ownedFits r) (hok.manualFits r)
    split <;> exact ⟨hfi.queue, hfi.revision⟩
  · split
    · -- an owned run is not eligible beside a manual one
      rename_i hp
      obtain ⟨hru, -, -, how⟩ := hw.isLive_owned hr
      obtain rfl := hse hru hp
      have ho := he.owners
      rw [(h.runs _ hru).origin.2.1 how, h.siblingCounts_eq (hji ▸ hw)] at ho
      cases manual with
      | none => cases hm
      | some => simp [eligibleOwners] at ho
    · exact hok.barrier hm r hr
  · split
    next hp =>
      obtain ⟨hru, -, -, how⟩ := hw.isLive_owned hr
      obtain rfl := hse hru hp
      have ho := he.owners
      rw [(h.runs _ hru).origin.2.1 how, hsu] at ho
      simp [eligibleOwners] at ho
    · exact hok.suspended hsu r hr

variable {claim : Claim} {db1 : Database}

theorem Started.attemptsOf (h : Intact env db1)
    (hs : Started env amb claim context row job db db1 db') (hr : row.run ∈ db1.runs)
    (hsa : db1.attempts = db.attempts) :
    context.nextAttempt = (db1.attemptsOf row.run.id).length + 1 ∧ db'.attemptsOf row.run.id =
      db1.attemptsOf row.run.id ++ [Attempts.stored (startedAttempt context amb.utcNow)] := by
  have hh := h.history row.run hr id
  have hn : context.nextAttempt = (db1.attemptsOf row.run.id).length + 1 := by
    rw [← hh.lastNumber, hs.dispatchable.number]
    unfold Database.attemptsOf
    rw [hsa]
  refine ⟨hn, ?_⟩
  rw [hs.eq]
  have hi : context.run.id = row.run.id := by rw [hs.dispatchable.run]
  have hk : key (Attempts.stored (startedAttempt context amb.utcNow)) = claim.key := by
    rw [hs.columns.1]
    show AttemptKey.mk context.run.id context.nextAttempt = _
    rw [hi]
  refine select_insert_last (decide_eq_true hi)
    (fun x hx hp => ?_) (hk ▸ hs.free)
  have hxi : x.runId = row.run.id := of_decide_eq_true hp
  have hle := (hh.number_le (mem_select.2 ⟨hx, hp⟩)).2
  rw [hk, hs.columns.1, AttemptKey.lt_iff]
  exact .inr ⟨hxi, by show x.attemptNumber < context.nextAttempt; omega⟩

theorem claim_moves {prepare : JobType → Json → Preparation} (h : Intact env db)
    (hy : Yields (claimSelected env amb prepare runId) db (some claim) db') :
    Claims env claim db db' := by
  obtain ⟨rfl, context, row, job, db1, hs⟩ := yields_claimSelected hy
  have he := hs.dispatchable.eligible
  obtain ⟨hjo, hji⟩ := he.joined.ofJob
  obtain ⟨_, hc⟩ := hs.claims
  obtain ⟨hr, hcl⟩ := claimRun_retimed hc
  have h₁ := h.retimed hr
  have hru : row.run ∈ db1.runs := hr.runs ▸ he.mem.1
  have hri : row.run.id = claim.key.runId := he.mem.2
  obtain ⟨hn, hat⟩ := hs.attemptsOf h₁ hru hr.attempts
  set a := Attempts.stored (startedAttempt context amb.utcNow) with ha
  have hk : (key a : AttemptKey) = claim.key := by
    rw [hs.columns.1, ← hs.dispatchable.run]
    rfl
  have hne : db1.attempts.find? (key a) = none := hk ▸ hs.free
  have hai : a.runId = row.run.id := (congrArg AttemptKey.runId hk).trans hri.symm
  have hso := h₁.runs row.run hru
  -- the two writes, with the run and its job left out
  have h₂ : Consistent env (Only row.run.jobId) (Only row.run.id)
    { db1 with attempts := db1.attempts.insert a } :=
    (h₁.weaken (fun _ => False.elim) fun _ => False.elim).insertAttempt hai ⟨row.run, hru, hai.symm⟩
      hne
  have h₃ : Consistent env (Only row.run.jobId) (Only row.run.id) db' := by
    rw [hs.eq]
    refine h₂.modifyRun fun r hr' hid => ?_
    obtain rfl : r = row.run := eq_of_key hr' hru hid
    exact ⟨rfl, started_sound hso he.pending hcl _, rfl, fun hF => absurd rfl hF⟩
  have hm : started amb.utcNow row.run ∈ db'.runs := by
    rw [hs.eq]
    exact modify_mem hru _ (key_started amb.utcNow)
  have hfr : Frame (Only claim.key.runId) Nobody db1 db' := by
    have hi : Frame (Only claim.key.runId) Nobody db1
      { db1 with attempts := db1.attempts.insert a } :=
      .insertAttempt rfl rfl hne (hai.trans hri)
    refine hi.trans (.modifyRun (key_started amb.utcNow) (congrArg Database.runs hs.eq)
      (by rw [hs.eq]) fun r hr' hid => ?_)
    obtain rfl : r = row.run := eq_of_key hr' hru hid
    exact ⟨⟨rfl, rfl, rfl, rfl, rfl⟩, not_isTerminal_of_isPending he.pending, fun hno => absurd hri hno⟩
  have hqu : db'.queues = db.queues := by rw [hs.eq]; exact hr.queues
  have hj : db'.jobs = db.jobs := by rw [hs.eq]; exact hr.jobs
  have hse : ∀ r ∈ db.runs, r.id = claim.key.runId → r = row.run := fun r hr' hid =>
    eq_of_key hr' he.mem.1 (hid.trans hri.symm)
  have hac : ∀ queue ∈ db.queues, queue.id = row.run.queueId → queue.state = .active := by
    intro queue hq hid
    obtain ⟨hque, hqi⟩ := he.joined.ofQueue
    obtain rfl := eq_of_key hq hque (hid.trans hqi.symm)
    have ho := he.owners
    unfold eligibleOwners at ho
    by_contra hno
    rw [if_pos hno] at ho
    cases ho
  refine ⟨⟨h₃.close (fun job' hj' hid => ?_) fun r hr' hid => ?_,
    hfr.after_eq hr.runs hr.attempts, fun queue' hq' => ?_, fun job' hj' hsu => ?_⟩, ?_,
    ⟨_, hm, hri, rfl⟩, ⟨a, ?_, hk, rfl⟩, ?_, fun r hr' hid queue hq' hqi => ?_⟩
  · rw [hj] at hj'
    obtain rfl : job' = job := eq_of_key hj' hjo (hid.trans hji.symm)
    rw [hs.eq]
    show Settled (db1.runs.modify row.run.id (started amb.utcNow) fun _ => rfl) job'
    rw [hr.runs]
    exact he.settled h amb.utcNow
  · obtain rfl : r = started amb.utcNow row.run := eq_of_key hr' hm hid
    show HistoryOk _ (db'.attemptsOf row.run.id)
    rw [hat]
    refine (h₁.history row.run hru id).start he.pending (fun hsc => ?_)
      (startedAttempt_sound hs.number) rfl hn ?_ rfl rfl rfl
    · have := hso.shape.started
      rw [hsc] at this
      simpa [validStartedAt] using this
    · show storedTime context.run.runnableAt = row.run.runnableAt
      rw [hs.dispatchable.run, hso.aligned]
  · rw [hqu] at hq'
    refine .inl ⟨queue', hq', rfl, rfl, fun hsu r hr' ht heq => ?_⟩
    obtain rfl := hse r hr' ht
    rw [hac queue' hq' heq.symm] at hsu
    cases hsu
  · rw [hj] at hj'
    by_cases hid : job'.id = row.run.jobId
    · exact .inr ⟨_, hm, hid.symm, rfl⟩
    refine .inl ⟨job', hj', rfl, hsu, fun r hr' ht heq => ?_⟩
    obtain rfl := hse r hr' ht
    exact hid heq.symm
  · rw [hs.columns.1, hn, hr.attemptsOf]
  · rw [hs.eq]
    exact (mem_insert hne).2 (.inl rfl)
  · rw [← hr.attempts]
    exact hs.free
  · rw [hqu] at hq'
    obtain rfl : r = started amb.utcNow row.run := eq_of_key hr' hm (hid.trans hri.symm)
    exact hac queue hq' hqi

/-! ## The end of a run -/

theorem same_ended (state : RunState) (completedAt : Int) (result : Json) (run : JobRun) :
    Same run (ended state completedAt result run) := ⟨rfl, rfl, rfl, rfl, rfl⟩

theorem followTerminalRun_follows {F : Uuid → Prop} {run' : JobRun}
    {owned manual : Option JobRun} {u : Unit} (hsa : Same run run')
    (he : Ending job run.scheduleOwned owned manual) (h : Consistent env (Only job.id) F db)
    (hj : job ∈ db.jobs) (hr' : run' ∈ db.runs) (ho : run.jobId = job.id) (hw : Work db.runs job.id owned manual)
    (hy : Yields (followTerminalRun env amb run) db u db') : Follows env F job db db' := by
  simp only [followTerminalRun, yields_steps] at hy
  obtain ⟨inserted, _, hi, _, _, hfi, -, rfl⟩ := hy
  have hsu := Lifecycle.yields_insertRecurringSuccessor hi
  rw [← hsa.id] at hfi
  rw [← hsa.owned] at he hsu
  refine he.follow h hj hr' (hsa.jobId.trans ho) hw (fun db id => amb.generate_ne_nil 0 db id)
    (hsu.imp id ?_) hfi
  rintro ⟨hso, job', hj', hid, hy⟩
  obtain rfl : job' = job := eq_of_key hj' hj (hid.trans ho)
  exact ⟨hso, _, _, inserted, hy⟩

/-! ## Completions -/

theorem yields_persistOutput {k : AttemptKey} {output : Option CapturedOutput} {u : Unit}
    (h : Yields (persistOutput k output) db u db') : ∃ outputs : Table AttemptOutput,
      db' = { db with outputs } ∧ ∀ o ∈ outputs, (∃ o' ∈ db.outputs,
        (key o' : AttemptKey) = key o) ∨ (key o : AttemptKey) = k := by
  cases output with
  | none =>
    obtain ⟨-, rfl⟩ := (yields_pure _ _ _ _).1 h
    exact ⟨_, rfl, fun o ho => .inl ⟨o, ho, rfl⟩⟩
  | some => exact Attempts.yields_insertOrReplaceOutput h

variable {state : RunState}

theorem terminalRunState_ok {outcome : AttemptOutcome} (h : terminalRunState outcome = .ok state) :
    state.isTerminal = true ∧ Recovery.expectedOutcome state = outcome := by
  cases outcome <;> cases h <;> exact ⟨rfl, rfl⟩

/-- What an accepted completion does. -/
structure Completed (env : Environment) (completion : AttemptCompletion) (db db' : Database) : Prop where
  moves : Moves env (Only completion.key.runId) Nobody db db'
  was : ∃ run ∈ db.runs, run.id = completion.key.runId ∧ run.state = .running
  running : ∃ a ∈ db.attempts, (key a : AttemptKey) = completion.key ∧ a.state = .running
  completed : ∃ a ∈ db'.attempts, (key a : AttemptKey) = completion.key ∧ a.state = .completed ∧
    a.outcome = some completion.outcome
  run : ∃ run ∈ db'.runs, run.id = completion.key.runId ∧ (run.state.isTerminal = true ∨
    (run.state = .retryWait ∧ completion.outcome = .failed))

/-- The run waits for a retry, and its job still agrees with it. -/
theorem retrying_settled (h : Intact env db)
    (hru : run ∈ db.runs) (hs : run.state = .running) (hj : job ∈ db.jobs) (dueAt : Int) :
    Settled (db.runs.modify run.id (retrying dueAt) fun _ => rfl) job := by
  obtain ⟨_, _, hw, ho⟩ := h.settled job hj id
  have hse : ∀ {r : JobRun}, r ∈ db.runs → decide (key r = run.id) = true → r = run :=
    fun hr hp => eq_of_key hr hru (@of_decide_eq_true _ _ hp)
  have hw' := hw.update (q := fun r => decide (key r = run.id)) (key_retrying dueAt)
    fun r hr hp => ⟨⟨rfl, rfl, rfl, rfl, rfl⟩, by rw [hse hr hp, hs]; rfl⟩
  refine ⟨_, _, hw', ho.change rfl ho.recurring (fun r hr => ?_) (fun hm r hr => ?_) fun hsu r hr => ?_⟩
  · have hfi : Fits job r := hr.elim (ho.ownedFits r) (ho.manualFits r)
    split <;> exact ⟨hfi.queue, hfi.revision⟩
  · have hsc := ho.barrier hm r hr
    split
    next hp =>
      rw [hse (hw.isLive_owned hr).1 hp, hs] at hsc
      cases hsc
    · exact hsc
  · split
    · exact noConfusion
    · exact ho.suspended hsu r hr

/-- An attempt has been reported, and its run and job have followed. -/
structure Transitioned (env : Environment) (completion : AttemptCompletion) (job : JobDefinition)
    (db db' : Database) : Prop where
  consistent : Consistent env (Only job.id) Nobody db'
  frame : Frame (Only completion.key.runId) Nobody db db'
  queues : db'.queues = db.queues
  settled : ∀ job' ∈ db'.jobs, job'.id = job.id → Settled db'.runs job'
  jobs : ∀ job' ∈ db'.jobs, job'.state = .suspending → job' ∈ db.jobs
  completed : ∃ a ∈ db'.attempts, (key a : AttemptKey) = completion.key ∧ a.state = .completed ∧
    a.outcome = some completion.outcome
  run : ∃ run ∈ db'.runs, run.id = completion.key.runId ∧ (run.state.isTerminal = true ∨
    (run.state = .retryWait ∧ completion.outcome = .failed))

section Transition

variable {context : CompletionContext} {completion : AttemptCompletion} {job : JobDefinition}
  {outputs : Table AttemptOutput} {u : Unit}

/-- A running run whose attempt completes, and the rows beside it. -/
structure Completing (context : CompletionContext) (completion : AttemptCompletion)
    (job : JobDefinition) (outputs : Table AttemptOutput) (db : Database) : Prop where
  mem : context.run ∈ db.runs
  state : context.run.state = .running
  id : context.run.id = completion.key.runId
  attempt : ∃ a ∈ db.attempts, (key a : AttemptKey) = completion.key ∧ a.state = .running
  closed : Closed db.timings context.run.id
  own : job ∈ db.jobs ∧ context.run.jobId = job.id
  written : ∀ o ∈ outputs, (∃ o' ∈ db.outputs, (key o' : AttemptKey) = key o) ∨ (key o : AttemptKey) = completion.key

/-- The database with the attempt completed and its output stored. -/
def completing (amb : Ambient) (completion : AttemptCompletion) (outputs : Table AttemptOutput)
    (db : Database) : Database :=
  { db with
    attempts := db.attempts.modify completion.key
      (reported amb.utcNow completion.outcome completion.result)
      (key_reported amb.utcNow completion.outcome completion.result)
    outputs }

theorem completing_attempt (hc : Completing context completion job outputs db) :
    ∃ a ∈ (completing amb completion outputs db).attempts,
      (key a : AttemptKey) = completion.key ∧ a.state = .completed ∧ a.outcome = some completion.outcome := by
  obtain ⟨_, ha, hk, -⟩ := hc.attempt
  have hm := modify_mem ha (reported amb.utcNow completion.outcome completion.result)
    (key_reported amb.utcNow completion.outcome completion.result)
  rw [hk] at hm
  exact ⟨_, hm, hk, rfl, rfl⟩

theorem retry_transitioned {schedule : Retry.Schedule} (h : Intact env db)
    (hc : Completing context completion job outputs db) (hfa : completion.outcome = .failed)
    (hy : Yields (setRunRetryWait completion.key.runId schedule.dueAt) (completing amb completion outputs db) u db') :
    Transitioned env completion job db db' := by
  obtain rfl := yields_setRunRetryWait hy
  have hr : ∀ last, last.dueAt = context.run.runnableAt → LastOk
    (retrying schedule.dueAt context.run)
    (some (reported amb.utcNow completion.outcome completion.result last)) := by
    intro last _
    show isRetryHistory (reported amb.utcNow completion.outcome completion.result last) = true
    rw [hfa]
    rfl
  have hso := retrying_sound (h.runs _ hc.mem) hc.state hc.closed schedule.dueAt
  rw [← hc.id]
  obtain ⟨h₁, hfr⟩ := report_consistent (key_retrying schedule.dueAt) h hc.mem hc.state hc.id
    hc.attempt hc.written ⟨rfl, rfl, rfl, rfl, rfl⟩ hso rfl hr rfl
  rw [hc.own.2] at h₁
  refine ⟨h₁, hc.id ▸ hfr, rfl, fun job' hj' _ => retrying_settled h hc.mem hc.state hj' _,
    fun _ hj _ => hj, completing_attempt hc, retrying schedule.dueAt context.run,
    modify_mem hc.mem _ (key_retrying schedule.dueAt), hc.id, .inr ⟨rfl, hfa⟩⟩

theorem terminal_transitioned {u' : Unit}
    (h : Intact env db) (hc : Completing context completion job outputs db)
    (hst : terminalRunState completion.outcome = .ok state)
    (hse : Yields (setRunTerminal completion.key.runId state amb.utcNow completion.result)
      (completing amb completion outputs db) u db1)
    (hfo : Yields (followTerminalRun env amb context.run) db1 u' db') :
    Transitioned env completion job db db' := by
  obtain rfl := yields_setRunTerminal hse
  obtain ⟨hte, hex⟩ := terminalRunState_ok hst
  have hso := h.runs _ hc.mem
  have hsta : validStartedAt state context.run.startedAt.isSome = true := by
    have := hso.shape.started
    rw [hc.state] at this
    cases state <;> first | exact this | rfl | cases hte
  have hl : ∀ last : JobAttempt, last.dueAt = context.run.runnableAt →
    LastOk (ended state amb.utcNow completion.result context.run)
      (some (reported amb.utcNow completion.outcome completion.result last)) := by
    intro _ hd
    rw [← hex]
    exact lastOk_ended hte hd
  rw [← hc.id] at hfo
  obtain ⟨h₁, hfr⟩ := report_consistent (key_ended state amb.utcNow completion.result) h hc.mem
    hc.state hc.id hc.attempt hc.written ⟨rfl, rfl, rfl, rfl, rfl⟩
    (ended_sound hso hte hsta hc.closed amb.utcNow completion.result) rfl hl rfl
  obtain ⟨_, _, hw, he⟩ := (h.settled job hc.own.1 id).ending
    (key_ended state amb.utcNow completion.result) hc.mem hc.own.2 (by rw [hc.state]; rfl) hso.origin
    hte
  have hm := modify_mem hc.mem (ended state amb.utcNow completion.result)
    (key_ended state amb.utcNow completion.result)
  rw [hc.own.2] at h₁
  have hf := followTerminalRun_follows (same_ended state amb.utcNow completion.result context.run)
    he h₁ hc.own.1 hm hc.own.2 hw hfo
  have hwh := hfr.trans (hf.frame _ _)
  rw [hc.id] at hwh
  obtain ⟨run', hr', hsa, hfro, -⟩ := (hf.frame Nobody Nobody).runs _ hm
  refine ⟨hf.consistent, hwh, hf.queues, hf.settled, fun job' hj' hsu => ?_,
    ?_, run', hr', hsa.id.trans hc.id, .inl ?_⟩
  · refine (hf.jobs job' hj').resolve_right fun ht => ?_
    rw [hsu] at ht
    cases ht.2
  · rw [hf.attempts]
    exact completing_attempt hc
  · rw [hfro hte]
    exact hte

end Transition

theorem completeDurably_moves {completion : AttemptCompletion} {effect : CompletionEffect}
    (h : Intact env db) (hy : Yields (completeDurably env amb completion) db effect db') :
    Completed env completion db db' := by
  simp only [completeDurably, yields_steps] at hy
  obtain ⟨-, context, _, hco, _, _, ⟨-, rfl⟩, retry, _, ⟨hre, rfl⟩, _, _, hcl, _, db1, hse,
    _, _, hcom, _, _, hp, _, db4, htr, _, db5, hd, _, _, hrec, -, rfl⟩ := hy
  obtain ⟨rfl, hru, hi, hs, hatt⟩ := yields_findCompletionContext hco
  obtain ⟨rfl, -⟩ := yields_requireClosed hcl
  have hr := visitScope_retimed hse
  have h₁ := h.retimed hr
  obtain ⟨job, hj, ho, -⟩ := (h₁.runs _ (hr.runs ▸ hru)).job
  obtain ⟨-, rfl⟩ := yields_completeAttempt.1 hcom
  obtain ⟨outputs, rfl, hou⟩ := yields_persistOutput hp
  have hc : Completing context completion job outputs db1 :=
    ⟨hr.runs ▸ hru, hs, hi, hr.attempts ▸ hatt,
      (settleScope_closes hse).2 _ hru (decide_eq_true rfl), ⟨hj, ho.symm⟩, hou⟩
  have ht : Transitioned env completion job db1 db4 := by
    cases retry with
    | some => exact retry_transitioned h₁ hc (Retry.decision_some hre) htr
    | none =>
      simp only [transitionRun, yields_steps] at htr
      obtain ⟨_, _, ⟨hst, rfl⟩, _, _, hset, hfo⟩ := htr
      exact terminal_transitioned h₁ hc hst hset hfo
  have hm : Moves env (Only completion.key.runId) Nobody db1 db5 :=
    drain_moves hc.mem ho.symm (fun id hi' => hi'.trans hi.symm) ht.frame ht.queues ht.consistent
      ht.settled (fun job' hj' hsu => .inl (ht.jobs job' hj' hsu)) hd
  have hr6 := visitScope_retimed hrec
  obtain ⟨hrun, hat⟩ := yields_completeDrainedSuspensions hd
  refine ⟨(hm.after_retimed hr).retimed hr6, ⟨_, hru, hi, hs⟩, hatt, ?_, ?_⟩
  · rw [hr6.attempts, hat]
    exact ht.completed
  · rw [hr6.runs, hrun]
    exact ht.run

/-! ## Cancellation -/

/-- What the cancellation of a waiting run does. -/
structure CancelsPending (env : Environment) (runId : Uuid) (db db' : Database) : Prop where
  moves : Moves env Nobody Nobody db db'
  was : ∃ run ∈ db.runs, run.id = runId ∧ run.state.isPending = true
  cancelled : ∃ run ∈ db'.runs, run.id = runId ∧ run.state = .cancelled

theorem cancelPending_moves {expected : RunState} {u : Unit} (h : Intact env db)
    (hy : Yields (cancelPending env amb runId expected) db u db') :
    CancelsPending env runId db db' := by
  simp only [cancelPending, yields_steps] at hy
  obtain ⟨-, _, _, hfou, run, _, ⟨rfl, rfl⟩, _, _, ⟨-, rfl⟩, _, db1, hse, _, _, hc, _, _,
    ⟨rfl, rfl⟩, _, _, hfo, _, db4, hd, hre⟩ := hy
  obtain ⟨rfl, hrea⟩ := yields_findRunForCancel hfou
  obtain ⟨hru, rfl⟩ := hrea run rfl
  have hr := visitScope_retimed hse
  have h₁ := h.retimed hr
  have hr1 : run ∈ db1.runs := hr.runs ▸ hru
  obtain ⟨hp, -, rfl⟩ := yields_cancelPendingRun_true hc
  have hso := h₁.runs run hr1
  obtain ⟨job, hj, ho, -⟩ := hso.job
  have hcl := (settleScope_closes hse).2 run hru (decide_eq_true rfl)
  have hl := not_isTerminal_of_isPending hp
  have h₂ : Consistent env (Only job.id) Nobody
    { db1 with
      runs := db1.runs.modify run.id (ended .cancelled amb.utcNow cancellationResult)
        fun _ => rfl } := by
    refine (h₁.openJob job.id).modifyRun fun r hr' hi => ?_
    obtain rfl : r = run := eq_of_key hr' hr1 hi
    refine ⟨ho.symm, ended_sound hso rfl rfl hcl _ _, rfl, fun hF => ?_⟩
    refine (h₁.history r hr1 hF).cancel hp (fun hsc => ?_) rfl rfl
    have := hso.shape.started
    rw [hsc] at this
    simpa [validStartedAt] using this
  have hfr : Frame Nobody Nobody db1
    { db1 with
      runs := db1.runs.modify run.id (ended .cancelled amb.utcNow cancellationResult)
        fun _ => rfl } := by
    refine .modifyRun (key_ended .cancelled amb.utcNow cancellationResult) rfl rfl fun r hr' hi => ?_
    obtain rfl : r = run := eq_of_key hr' hr1 hi
    exact ⟨⟨rfl, rfl, rfl, rfl, rfl⟩, hl, fun _ => ⟨.inr ⟨hp, rfl⟩, fun hr => by rw [hr] at hp; cases hp⟩⟩
  obtain ⟨_, _, hw, he⟩ := (h₁.settled job hj id).ending
    (key_ended .cancelled amb.utcNow cancellationResult) hr1 ho.symm hl hso.origin rfl
  have hme := modify_mem hr1 (ended .cancelled amb.utcNow cancellationResult)
    (key_ended .cancelled amb.utcNow cancellationResult)
  have hf := followTerminalRun_follows (same_ended .cancelled amb.utcNow cancellationResult run)
    he h₂ hj hme ho.symm hw hfo
  have hm : Keeps env db1 db4 :=
    drain_moves hr1 ho.symm (fun _ => False.elim) (hfr.trans (hf.frame _ _)) hf.queues
      hf.consistent hf.settled (fun job' hj' hsu => .inl ?_) hd
  · have hr5 := visitScope_retimed hre
    obtain ⟨hrun, -⟩ := yields_completeDrainedSuspensions hd
    obtain ⟨run', hru', hsa, hfro, -⟩ := (hf.frame Nobody Nobody).runs _ hme
    refine ⟨(hm.after_retimed hr).retimed hr5, ⟨run, hru, rfl, hp⟩, run', ?_, hsa.id, ?_⟩
    · rw [hr5.runs, hrun]
      exact hru'
    · rw [hfro rfl]
      rfl
  · refine (hf.jobs job' hj').resolve_right fun ht => ?_
    rw [hsu] at ht
    cases ht.2

end Scheduler

end Jobu
