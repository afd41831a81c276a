import Jobu.Consistency.QueueOperations
import Jobu.Management.Job

/-!
# Job operations keep the database consistent

The job of the operation is left out while its rows change, and agrees with its live runs again at
the end.  Moving a job is the one operation that takes a running run to another queue.

  > `moveJob_moves`: a move keeps the database consistent, and only the runs of its job move.
-/

namespace Jobu

open Lib Table Jobs Lifecycle Runs Bool JobRun

open Keyed (key)

namespace Management

variable {job job' : JobDefinition} {u : Unit} {now plannedAt : Int} {request : CreateJobRequest}
  {payload : Json} {db1 : Database} {run : JobRun} {jobId : Uuid} {update : JobUpdate}

variable {env : Environment} {amb : Ambient} {db db' : Database}

variable {id : Uuid}

theorem yields_findLiveJob (h : Yields (findLiveJob env id) db job db') :
    db' = db ∧ job ∈ db.jobs ∧ job.id = id ∧ job.state ≠ .deleted := by
  simp only [findLiveJob, yields_steps] at h
  obtain ⟨_, _, hfo, _, _, ⟨rfl, rfl⟩, _, _, ⟨hd, rfl⟩, rfl, rfl⟩ := h
  obtain ⟨rfl, hj, hi, -, -⟩ := yields_findById_some.1 hfo
  exact ⟨rfl, hj, hi, hd⟩

theorem not_yields_diagnoseJobWrite {revision : Nat} {accepts : JobState → Bool}
    : ¬ Yields (diagnoseJobWrite env id revision accepts) db u db' := by
  simp [diagnoseJobWrite]

/-! ## Creation -/

theorem resolveCreation_ok {schedule : JobCreationSchedule} {resolved : JobSchedule}
    (h : resolveCreation env schedule now = .ok (resolved, plannedAt)) :
    ∀ expression timezone, resolved = .cron expression timezone → env.cron.validate expression timezone = .ok () := by
  intro _ _ hc
  cases schedule with
  | immediate | once =>
    simp only [resolveCreation, Except.ok.injEq, Prod.mk.injEq] at h
    rw [← h.1] at hc
    cases hc
  | cron =>
    simp only [resolveCreation, except_steps, Prod.mk.injEq] at h
    obtain ⟨_, -, _, hv, _, -, rfl, -⟩ := h
    subst hc
    exact hv

variable {queue : Queue}

theorem newJob_sound {queues : Table Queue} {schedule : JobSchedule} {attributes : AttributeSet}
    (hq : queue ∈ queues) (hl : queue.state ≠ .deleted)
    (hn : (request.name.all fun name => env.isValidJobName name) = true)
    (hco : env.registry.serializeMaterialized request.type attributes = .ok ())
    (hp : env.payloads.issue request.type payload = none)
    (hsc : resolveCreation env request.schedule now = .ok (schedule, plannedAt)) (id : Uuid) (at_ : Int) :
    JobSound env queues (stored (newJob request id queue schedule attributes payload at_)) where
  shape := ⟨⟨le_refl 1, show 1 ≤ maximumRevision by decide⟩,
    AttributeRegistry.isComplete_iff.2 hco, hp, hn, by simp [Jobs.stored, newJob], fun ht => by cases ht⟩
  cron expression timezone hc := by
    refine resolveCreation_ok hsc expression timezone ?_
    cases schedule with
    | once => cases hc
    | cron => exact hc
  queue := ⟨queue, hq, rfl, fun _ => hl⟩

variable {db2 : Database}

theorem insertJob_moves {runId : Uuid} {references : List SecretReference} {measurement : InitialMeasurement}
    {u1 u2 u3 : Unit} (h : Intact env db)
    (hso : JobSound env db.queues (stored job)) (hst : job.state = .active)
    (hrun : runId ≠ Uuid.nil) (hin : Yields (Jobs.insert env job) db u1 db1)
    (hre : Yields (Secrets.replaceReferencesForJob env job.id references) db1 u2 db2)
    (hru : Yields (insertScheduleOwned env (scheduledRun job runId plannedAt)
      measurement) db2 u3 db') : Keeps env db db' := by
  obtain ⟨-, hn, rfl⟩ := yields_insert hin
  replace hn : db.jobs.find? (stored job).id = none := hn
  obtain ⟨ho, -, hi⟩ := yields_insertScheduleOwned.1 hru
  have hr := retimed_replaceReferences hre
  have hm : stored job ∈ db2.jobs := hr.jobs ▸ (mem_insert hn).2 (.inl rfl)
  have h₁ : Consistent env (Only job.id) Nobody { db with jobs := db.jobs.insert (stored job) } :=
    (h.openJob job.id).insertJob rfl hso hn
  have h₃ := inserts_consistent (h₁.retimed hr) hi rfl hrun hso.shape.payload
    ⟨RunOrigin.noConfusion, iff_of_true rfl rfl⟩ ⟨_, hm, rfl, le_refl _, rfl⟩
  have hfr : Frame Nobody Nobody db2 db' := hi.frame
  obtain ⟨-, -, -, hfre, -, rfl⟩ := hi
  have hw := h.work_of_new hn
  rw [← show db2.runs = db.runs from hr.runs] at hw
  refine ⟨h₃.closeJob fun job' hj' hid => ?_, hfr.after_eq hr.runs hr.attempts,
    .of_eq hr.queues, .of_states fun job' hj' hs => ?_⟩
  · obtain rfl := eq_of_key hj' hm hid
    exact ⟨_, _, hw.insertOwned hfre rfl rfl ho, .of_created hst ⟨rfl, le_refl _⟩⟩
  replace hj' : job' ∈ db2.jobs := hj'
  rw [hr.jobs] at hj'
  rcases (mem_insert hn).1 hj' with rfl | hj'
  · rw [show (stored job).state = .active from hst] at hs
    cases hs
  · exact ⟨job', hj', rfl, hs⟩

theorem createFreshJob_moves (h : Intact env db) (hq : queue ∈ db.queues)
    (hl : queue.state ≠ .deleted) (hp : env.payloads.issue request.type payload = none)
    (hy : Yields (createFreshJob env amb request payload queue) db job db') :
    Keeps env db db' := by
  simp only [createFreshJob, yields_steps] at hy
  obtain ⟨jobId, _, ⟨-, rfl⟩, _, _, ⟨hr, rfl⟩, _, _, ⟨-, rfl⟩, _, _, he,
    ⟨_, _⟩, _, ⟨hsc, rfl⟩, _, _, ⟨-, rfl⟩, _, _, ⟨hc, rfl⟩, _, _, hi,
    _, _, hre, _, _, hru, rfl, rfl⟩ := hy
  obtain rfl := yields_requireExistingReferences he
  obtain ⟨hn, -⟩ := yields_insert hi
  exact insertJob_moves h
    (newJob_sound hq hl hn hc hp hsc jobId amb.utcNow) rfl
    (amb.generate_ne_nil _ _ _ hr) hi hre hru

theorem yields_validateJobCreation (h : Yields (validateJobCreation env request) db payload db') :
    db' = db ∧ env.payloads.issue request.type payload = none ∧
      (request.idempotencyKey.all fun key => env.isValidIdempotencyKey key) = true := by
  simp only [validateJobCreation, validateJobName, validateJobPayload, validateIdempotencyKey, yields_steps] at h
  obtain ⟨_, _, hse, _, _, ⟨-, rfl⟩, _, _, ⟨-, rfl⟩, _, _, ⟨hi, rfl⟩, _, _, ⟨-, rfl⟩, _, _,
    ⟨hk, rfl⟩, _, _, ⟨-, rfl⟩, rfl, rfl⟩ := h
  exact ⟨yields_validateSelector hse, hi, hk⟩

theorem createJob_moves {codec : ReplayCodec (CreateJobRequest × Uuid) JobDefinition} (h : Intact env db)
    (hy : Yields (createJob env codec amb request) db job db') : Keeps env db db' := by
  simp only [createJob, yields_steps] at hy
  obtain ⟨-, _, _, hin, _, _, hv, _, _, hfo, queue, _, ⟨rfl, rfl⟩, _, _, ⟨-, rfl⟩, hy⟩ := hy
  obtain rfl := yields_initialized hin
  obtain ⟨rfl, his, -⟩ := yields_validateJobCreation hv
  obtain ⟨rfl, hq, hl, -⟩ := yields_findQueue_some hfo
  have hl' : queue.state ≠ .deleted := hl.resolve_left false_ne_true
  split at hy
  · simp only [yields_steps] at hy
    obtain ⟨_, _, hc, _, _, hr, -, rfl⟩ := hy
    exact (createFreshJob_moves h hq hl' his hc).retimed (visitScope_retimed hr)
  simp only [yields_steps] at hy
  obtain ⟨_, _, ⟨-, rfl⟩, _, _, hre, hy⟩ := hy
  obtain rfl := yields_findReply hre
  split at hy
  · rw [yields_replayStored hy]
    exact h.moves_retimed (.refl _)
  simp only [yields_steps] at hy
  obtain ⟨_, _, hc, _, _, ⟨-, rfl⟩, _, _, hi, _, _, hr, -, rfl⟩ := hy
  exact (createFreshJob_moves h hq hl' his hc).retimed
    ((retimed_insertReply hi).trans (visitScope_retimed hr))

/-! ## Run Now -/

/-- What Run Now does: the manual run is new, and every other run is as it was. -/
structure RunsNow (env : Environment) (run : JobRun) (db db' : Database) : Prop where
  moves : Moves env Nobody Nobody db db'
  manual : run.origin = .manual
  inserted : ∀ r, r ∈ db'.runs ↔ r = Runs.stored run ∨ r ∈ db.runs
  attempts : db'.attempts = db.attempts
  waiting : ∃ owned ∈ db.runs, ownedBy run.jobId owned = true ∧ owned.state = .scheduled

theorem RunsNow.retimed (h : RunsNow env run db db1) (hr : Retimed db1 db') : RunsNow env run db db' :=
  ⟨h.moves.retimed hr, h.manual, hr.runs ▸ h.inserted, hr.attempts.trans h.attempts, h.waiting⟩

theorem yields_admitRunNow (h : Yields (admitRunNow env amb jobId) db job db') : db' = db ∧ job ∈ db.jobs ∧
    db.runs.IsOnly (manualOf job.id) none ∧ ∃ scheduled, db.runs.IsOnly (ownedBy job.id) (some scheduled) ∧
      scheduled.state = .scheduled := by
  simp only [admitRunNow, yields_steps, hasRunningOrRetryingRun] at h
  obtain ⟨_, _, hjo, _, _, ⟨-, rfl⟩, _, _, hq, _, _, ⟨rfl, rfl⟩, _, _, ⟨-, rfl⟩, _, _, ho,
    scheduled, _, ⟨rfl, rfl⟩, _, _, ⟨-, rfl⟩, _, _, ⟨⟨hw, -⟩, rfl⟩, _, _, ⟨-, rfl⟩, _, _, ⟨-, rfl⟩,
    _, _, hm, _, _, ⟨hno, rfl⟩, rfl, rfl⟩ := h
  obtain ⟨rfl, hj, -, -⟩ := yields_findLiveJob hjo
  obtain ⟨rfl, -⟩ := Queues.yields_findById_some.1 hq
  obtain ⟨rfl, hon⟩ := yields_findScheduleOwned ho
  obtain ⟨rfl, hn⟩ := yields_hasNonTerminalManualRun hm
  exact ⟨rfl, hj, hn hno, scheduled, hon, hw⟩

theorem insertManualRun_moves (h : Intact env db)
    (hy : Yields (insertManualRun env amb jobId) db run db') : RunsNow env run db db' := by
  simp only [insertManualRun, yields_steps] at hy
  obtain ⟨job, _, had, _, _, hse, _, _, ⟨hru, rfl⟩, _, _, hin, rfl, rfl⟩ := hy
  obtain ⟨rfl, hj, hn, scheduled, hon, hwa⟩ := yields_admitRunNow had
  obtain ⟨ho, -, hi⟩ := yields_insertManual hin
  have hr := visitScope_retimed hse
  -- the job had the scheduled run alone
  obtain ⟨owned, manual, hw, hok⟩ := h.settled job hj id
  obtain rfl : owned = some scheduled := hw.owned.eq_some hon.mem.1 hon.mem.2
  obtain rfl : manual = none := by
    cases manual with
    | none => rfl
    | some r => cases (hn r).1 hw.manual.mem
  rw [← hr.jobs] at hj
  rw [← hr.runs] at hw
  have h₁ := inserts_consistent ((h.openJob job.id).retimed hr) hi rfl
    (amb.generate_ne_nil _ _ _ hru) (h.jobs job (hr.jobs ▸ hj)).shape.payload
    ⟨RunOrigin.noConfusion, iff_of_false false_ne_true RunOrigin.noConfusion⟩
    ⟨job, hj, rfl, le_refl _, rfl⟩
  have hfr : Frame Nobody Nobody _ db' := hi.frame
  obtain ⟨-, -, -, hfre, -, rfl⟩ := hi
  refine ⟨⟨h₁.closeJob fun job' hj' hid => ?_, hfr.after_eq hr.runs hr.attempts,
    .of_eq hr.queues, .of_eq hr.jobs⟩, rfl, fun r => ?_, hr.attempts, scheduled, hon.mem.1, hon.mem.2, hwa⟩
  · obtain rfl := eq_of_key hj' hj hid
    exact ⟨_, _, hw.insertManual hfre rfl rfl ho, hok.addManual hwa ⟨rfl, le_refl _⟩⟩
  · rw [← hr.runs]
    exact mem_insert (r := Runs.stored _) hfre

theorem runNow_moves {codec : ReplayCodec RunNowRequest JobRun} {request : RunNowRequest}
    (h : Intact env db) (hy : Yields (runNow env codec amb request) db run db') :
    db' = db ∨ RunsNow env run db db' := by
  simp only [runNow, yields_steps, validateIdempotencyKey] at hy
  obtain ⟨-, _, _, hin, _, _, ⟨-, rfl⟩, hy⟩ := hy
  obtain rfl := yields_initialized hin
  split at hy
  · simp only [yields_steps] at hy
    obtain ⟨_, _, hi, _, _, hr, rfl, rfl⟩ := hy
    exact .inr ((insertManualRun_moves h hi).retimed (visitScope_retimed hr))
  simp only [yields_steps] at hy
  obtain ⟨_, _, ⟨-, rfl⟩, _, _, hre, hy⟩ := hy
  obtain rfl := yields_findReply hre
  split at hy
  · exact .inl (yields_replayStored hy)
  simp only [yields_steps] at hy
  obtain ⟨_, _, hi, _, _, ⟨-, rfl⟩, _, _, hst, _, _, hr, rfl, rfl⟩ := hy
  exact .inr ((insertManualRun_moves h hi).retimed
    ((retimed_insertReply hst).trans (visitScope_retimed hr)))

/-! ## Suspension -/

variable {next : JobState}

theorem advanceJob_consistent (h : Consistent env (Only job.id) Nobody db) (hn : next.isTerminal = false)
    (hy : Yields (advanceJob job next now) db job' db') :
    Consistent env (Only job.id) Nobody db' ∧ Enters job.id job.state next db db' ∧
      job'.id = job.id ∧ job'.state = next := by
  simp only [advanceJob, yields_steps] at hy
  obtain ⟨_, _, ⟨hr, rfl⟩, _, _, hse, _, _, ⟨rfl, rfl⟩, rfl, rfl⟩ := hy
  obtain ⟨h₁, he⟩ := setState_consistent h rfl
    (fun row _ _ ht => by rw [hn] at ht; cases ht) hr hse
  exact ⟨h₁, he, rfl, rfl⟩

/-- The job has entered a state that fits its live runs. -/
theorem moves_of_enters (h : Intact env db) (h' : Consistent env (Only job.id) Nobody db')
    (hjo : job ∈ db.jobs) (ho : job.state ≠ .deleted ∧ job.state.isTerminal = false)
    (hn : next ≠ .deleted ∧ next.isTerminal = false) (hqu : db'.queues = db.queues)
    (hrun : db'.runs = db.runs) (hat : db'.attempts = db.attempts)
    (hro : ∃ row' ∈ db'.jobs, row'.id = job.id ∧ row'.state = next ∧
      row'.queueId = job.queueId ∧ job.revision ≤ row'.revision ∧ row'.schedule = job.schedule)
    (hot : ∀ job' ∈ db'.jobs, job' ∈ db.jobs ∨ job'.id = job.id)
    (hsus : next = .suspended → ∀ run ∈ db.runs, run.jobId = job.id → run.state ≠ .running)
    (hd : next = .suspending → ∃ run ∈ db.runs, run.jobId = job.id ∧ run.state = .running) :
    Keeps env db db' := by
  obtain ⟨_, hro, hri, hs, hq, hre, hsc⟩ := hro
  refine ⟨h'.closeJob fun job' hj' hi => ?_, .of_eq hrun hat, .of_eq hqu, fun job' hj' hsu => ?_⟩
  · obtain rfl := eq_of_key hj' hro (hi.trans hri.symm)
    obtain ⟨owned, manual, hw, hok⟩ := h.settled job hjo id
    refine ⟨owned, manual, by rwa [hi, hrun], hok.enter ho hq hre (by rw [hsc])
      (hs ▸ hn) fun hsu run hr => ?_⟩
    obtain ⟨hm, hj, -⟩ := hw.isLive_owned hr
    exact hsus (hs ▸ hsu) run hm hj
  rcases hot job' hj' with hol | hi
  · exact .inl ⟨job', hol, rfl, hsu, fun _ _ => False.elim⟩
  · obtain rfl := eq_of_key hj' hro (hi.trans hri.symm)
    obtain ⟨run, hru, hj, hrunn⟩ := hd (hs ▸ hsu)
    exact .inr ⟨run, hrun ▸ hru, hj.trans hri.symm, hrunn⟩

theorem resumeJob_moves (h : Intact env db)
    (hy : Yields (resumeJob env amb id) db job' db') : Keeps env db db' := by
  simp only [resumeJob, yields_steps, yields_ite] at hy
  obtain ⟨-, _, _, hi, job, _, hfo, _, _, ⟨ho, rfl⟩, hy⟩ := hy
  obtain rfl := yields_initialized hi
  obtain ⟨rfl, hj, -, hl⟩ := yields_findLiveJob hfo
  split at hy
  · obtain ⟨-, rfl⟩ := hy
    exact h.moves_retimed (.refl _)
  obtain ⟨_, _, hse, _, _, hres, _, _, hrec, -, rfl⟩ := hy
  have hr := visitScope_retimed hse
  have h₁ := h.retimed hr
  rw [← hr.jobs] at hj
  obtain ⟨h₂, ⟨hq, hru, hat, -, ⟨row, hro, _, _, hid, -, hre, hm⟩,
    hot⟩, -⟩ := advanceJob_consistent (h₁.openJob job.id) rfl hres
  obtain rfl : row = job := eq_of_key hro hj hid
  refine (Moves.after_retimed ?_ hr).retimed (visitScope_retimed hrec)
  exact moves_of_enters h₁ h₂ hj ⟨hl, ho⟩ ⟨JobState.noConfusion, rfl⟩ hq hru hat
    ⟨_, hm, rfl, rfl, rfl, le_of_lt hre, rfl⟩ hot (fun hn => by cases hn) fun hn => by cases hn

/-- The job row some transitions have led to. -/
structure Advanced (job : JobDefinition) (next : JobState) (db db' : Database) : Prop where
  queues : db'.queues = db.queues
  runs : db'.runs = db.runs
  attempts : db'.attempts = db.attempts
  row : ∃ row' ∈ db'.jobs, row'.id = job.id ∧ row'.state = next ∧ row'.queueId = job.queueId ∧
    job.revision ≤ row'.revision ∧ row'.schedule = job.schedule
  others : ∀ job' ∈ db'.jobs, job' ∈ db.jobs ∨ job'.id = job.id

theorem Advanced.enters {state : JobState} (h : Advanced job state db db1) (he : Enters job.id state next db1 db') :
    Advanced job next db db' := by
  obtain ⟨row, hr, hi, -, hq, hre, hsc⟩ := h.row
  obtain ⟨row1, hr1, _, _, hi1, -, hre1, hm⟩ := he.row
  obtain rfl : row1 = row := eq_of_key hr1 hr (hi1.trans hi.symm)
  exact ⟨he.queues.trans h.queues, he.runs.trans h.runs, he.attempts.trans h.attempts,
    ⟨_, hm, hi, rfl, hq, hre.trans (le_of_lt hre1), hsc⟩,
    fun job' hj' => (he.others job' hj').elim (h.others job') .inr⟩

theorem advanceJobIf_consistent {condition : Bool} {job0 : JobDefinition}
    {db0 : Database} (h : Consistent env (Only job0.id) Nobody db)
    (hi : job.id = job0.id) (had : Advanced job0 job.state db0 db) (hn : next.isTerminal = false)
    (hy : Yields (advanceJobIf condition job next now) db job' db') :
    Consistent env (Only job0.id) Nobody db' ∧ job'.id = job0.id ∧
      Advanced job0 job'.state db0 db' ∧ job'.state = if condition then next else job.state := by
  unfold advanceJobIf at hy
  cases condition with
  | true =>
    rw [← hi] at h ⊢
    obtain ⟨h₁, he, hi1, hs⟩ := advanceJob_consistent h hn hy
    rw [hs]
    exact ⟨h₁, hi1, had.enters (hi ▸ he), rfl⟩
  | false =>
    obtain ⟨rfl, rfl⟩ := (yields_pure _ _ _ _).1 hy
    exact ⟨h, hi, had, rfl⟩

theorem suspendJob_moves (h : Intact env db)
    (hy : Yields (suspendJob env amb id) db job' db') : Keeps env db db' := by
  simp only [suspendJob, yields_steps, yields_ite] at hy
  obtain ⟨-, _, _, hi, job, _, hfo, _, _, ⟨ho, rfl⟩, hy⟩ := hy
  obtain rfl := yields_initialized hi
  obtain ⟨rfl, hj, -, hl⟩ := yields_findLiveJob hfo
  split at hy
  · obtain ⟨-, rfl⟩ := hy
    exact h.moves_retimed (.refl _)
  rename_i hsu
  obtain ⟨_, _, hse, job1, _, hg, running, _, hc, _, _, hp, _, _, hre, -, rfl⟩ := hy
  have hr := visitScope_retimed hse
  have h₁ := h.retimed hr
  rw [← hr.jobs] at hj
  obtain ⟨h₂, hi1, ha1, hs1⟩ := advanceJobIf_consistent (h₁.openJob job.id) rfl
    ⟨rfl, rfl, rfl, ⟨job, hj, rfl, rfl, rfl, le_refl _, rfl⟩, fun _ hj => .inl hj⟩ rfl hg
  -- after the gate the job is suspending, whichever state it came from
  replace hs1 : job1.state = .suspending := by
    cases hs : job.state with
    | active | suspending => simpa [hs] using hs1
    | suspended | deleted => contradiction
    | succeeded | failed | cancelled => rw [hs] at ho; cases ho
  obtain ⟨rfl, hz⟩ := yields_countRunning hc
  simp only [decide_eq_true_eq, hi1, ha1.runs] at hz
  obtain ⟨h₃, -, ⟨hq, hru, hat, hro, hot⟩, hs2⟩ := advanceJobIf_consistent h₂ hi1 ha1 rfl hp
  simp only [decide_eq_true_eq, hs1] at hs2
  refine (Moves.after_retimed ?_ hr).retimed (visitScope_retimed hre)
  refine moves_of_enters h₁ h₃ hj ⟨hl, ho⟩ ?_ hq hru hat hro hot ?_ ?_
  · rw [hs2]
    split <;> exact ⟨JobState.noConfusion, rfl⟩
  · intro hn
    refine hz.1 ?_
    by_contra hne
    rw [hs2, if_neg hne] at hn
    cases hn
  intro hn
  have hne : ¬ running = 0 := fun h0 => by
    rw [hs2, if_pos h0] at hn
    cases hn
  rw [hz] at hne
  push Not at hne
  exact hne

/-! ## Definition updates -/

variable {schedule : Option JobSchedule}

theorem resolveReplacement_ok {input : Option JobScheduleInput} (h : resolveReplacement env input = .ok schedule) :
    ∀ expression timezone, schedule = some (.cron expression timezone) →
      env.cron.validate expression timezone = .ok () := by
  intro _ _ hc
  unfold resolveReplacement at h
  split at h
  · rw [← Except.ok.inj h] at hc
    cases hc
  · rw [← Except.ok.inj h] at hc
    cases hc
  · simp only [except_steps] at h
    obtain ⟨_, -, _, hv, rfl⟩ := h
    cases hc
    exact hv

/-- The run a refresh applies to, and the live runs it leaves. -/
theorem yields_refreshesSnapshot {request : UpdateJobRequest} {refresh : Bool}
    (h : Yields (refreshesSnapshot env job request) db refresh db') : db' = db ∧
      ∃ scheduled, db.runs.IsOnly (ownedBy job.id) (some scheduled) := by
  simp only [refreshesSnapshot, yields_steps, yields_ite, Attempts.hasAnyForRun] at h
  obtain ⟨_, _, hfo, scheduled, _, ⟨rfl, rfl⟩, h⟩ := h
  obtain ⟨rfl, ho⟩ := yields_findScheduleOwned hfo
  refine ⟨?_, scheduled, ho⟩
  split at h
  · obtain ⟨_, _, ⟨-, rfl⟩, _, _, ⟨-, rfl⟩, -, rfl⟩ := h
    rfl
  · obtain ⟨_, _, ⟨-, rfl⟩, -, rfl⟩ := h
    rfl

/-- What an update has established before its first write. -/
structure Resolved (env : Environment) (db : Database) (update : JobUpdate) : Prop where
  mem : update.job ∈ db.jobs
  state : update.job.state = .active ∨ update.job.state = .suspended
  revision : update.job.revision < maximumRevision
  owned : ∃ scheduled, db.runs.IsOnly (ownedBy update.job.id) (some scheduled)
  same : update.replacement.id = update.job.id ∧ update.replacement.queueId = update.job.queueId ∧
    update.replacement.type = update.job.type ∧ update.replacement.revision = update.job.revision + 1
  attributes : env.registry.isComplete update.job.type update.replacement.attributes = true
  payload : env.payloads.issue update.job.type update.replacement.payload = none
  cron : ∀ expression timezone, update.replacement.schedule = .cron expression timezone →
    env.cron.validate expression timezone = .ok ()

theorem yields_resolveJobUpdate {request : UpdateJobRequest}
    (h : Intact env db) (hsc : resolveReplacement env request.schedule = .ok schedule)
    (hy : Yields (resolveJobUpdate env amb request schedule) db update db') :
    db' = db ∧ Resolved env db update := by
  simp only [resolveJobUpdate, yields_steps, Attempts.hasStartedForJob, validateJobPayload] at hy
  obtain ⟨job, _, hjo, _, _, ⟨-, rfl⟩, _, _, ⟨hst, rfl⟩, _, _, ⟨-, rfl⟩, _, _, ⟨-, rfl⟩, _, _,
    hr, _, _, ⟨-, rfl⟩, _, _, ⟨_, rfl⟩, _, _, ⟨hi, rfl⟩, _, _, ⟨-, rfl⟩, _, _,
    he, _, _, ⟨hco, rfl⟩, _, _, ⟨hre, rfl⟩, rfl, rfl⟩ := hy
  obtain ⟨rfl, hj, -, -⟩ := yields_findLiveJob hjo
  obtain ⟨rfl, ho⟩ := yields_refreshesSnapshot hr
  obtain rfl := yields_requireExistingReferences he
  refine ⟨rfl, hj, hst, hre, ho, ⟨rfl, rfl, rfl, rfl⟩,
    AttributeRegistry.isComplete_iff.2 hco, hi, fun expression timezone hc => ?_⟩
  cases schedule with
  | none => exact (h.jobs job hj).cron expression timezone hc
  | some => exact resolveReplacement_ok hsc expression timezone (congrArg some hc)

section

variable (h : Resolved env db update)

include h

theorem Resolved.redefine (hc : Intact env db)
    (hn : (update.replacement.name.all fun name => env.isValidJobName name) = true) :
    Consistent env (Only update.job.id) Nobody
      { db with
        jobs := db.jobs.modify update.replacement.id (redefined update.replacement)
          fun _ => rfl } := by
  refine (hc.openJob update.job.id).modifyJob fun j hj hi => ?_
  obtain rfl : j = update.job := eq_of_key hj h.mem (hi.trans h.same.1)
  obtain ⟨hsh, -, hq⟩ := hc.jobs update.job hj
  have ho : update.job.state.isTerminal = false := by rcases h.state with hs | hs <;> rw [hs] <;> rfl
  refine ⟨rfl, ⟨⟨?_, h.attributes, h.payload, hn, hsh.deleted, fun ht => ?_⟩,
    fun expression timezone hcr => h.cron expression timezone ?_, hq⟩, ?_, rfl⟩
  · show 1 ≤ update.replacement.revision ∧ update.replacement.revision ≤ maximumRevision
    rw [h.same.2.2.2]
    exact ⟨Nat.le_add_left 1 _, h.revision⟩
  · rw [show (redefined update.replacement update.job).state = update.job.state from rfl, ho] at ht
    cases ht
  · cases hs : update.replacement.schedule with
    | once =>
      rw [show (redefined update.replacement update.job).schedule =
        storedSchedule update.replacement.schedule from rfl, hs] at hcr
      cases hcr
    | cron =>
      rw [show (redefined update.replacement update.job).schedule =
        storedSchedule update.replacement.schedule from rfl, hs] at hcr
      exact hcr
  · show update.job.revision ≤ update.replacement.revision
    rw [h.same.2.2.2]
    exact Nat.le_succ _

theorem Resolved.redefined_mem : redefined update.replacement update.job ∈
    db.jobs.modify update.replacement.id (redefined update.replacement)
      (fun _ => rfl) := by
  rw [h.same.1]
  exact modify_mem h.mem _ (key_redefined update.replacement)

/-- The live runs of a job that has been redefined. -/
theorem Resolved.settled (hc : Intact env db) {runs' : Table JobRun} {f : JobRun → JobRun}
    (hwo : ∀ owned manual, Work db.runs update.job.id owned manual →
      Work runs' update.job.id (owned.map f) (manual.map f))
    (hf : ∀ run ∈ db.runs, run.jobId = update.job.id →
      ((f run).queueId = run.queueId ∧ (f run).jobRevision = run.jobRevision ∨ (f run).queueId = update.job.queueId ∧
          (f run).jobRevision = update.replacement.revision) ∧ (f run).state = run.state) :
    Settled runs' (redefined update.replacement update.job) := by
  obtain ⟨owned, _, hw, ho⟩ := hc.settled update.job h.mem id
  obtain ⟨scheduled, hon⟩ := h.owned
  obtain rfl : owned = some scheduled := hw.owned.eq_some hon.mem.1 hon.mem.2
  refine ⟨_, _, hwo _ _ hw, ho.map rfl (fun _ _ => rfl) fun run hr => ?_⟩
  have hru : (run ∈ db.runs ∧ run.jobId = update.job.id) ∧ Fits update.job run := by
    rcases hr with hr | hr
    · exact ⟨⟨(hw.isLive_owned hr).1, (hw.isLive_owned hr).2.1⟩, ho.ownedFits run hr⟩
    · exact ⟨⟨(hw.isLive_manual hr).1, (hw.isLive_manual hr).2.1⟩, ho.manualFits run hr⟩
  obtain ⟨hco, hs⟩ := hf run hru.1.1 hru.1.2
  refine ⟨?_, hs⟩
  have hre : (redefined update.replacement update.job).revision = update.job.revision + 1 := h.same.2.2.2
  rcases hco with ⟨hq, hr'⟩ | ⟨hq, hr'⟩
  · exact ⟨hq.trans hru.2.queue, by rw [hr', hre]; exact hru.2.revision.trans (Nat.le_succ _)⟩
  · exact ⟨hq, by rw [hr', h.same.2.2.2, hre]⟩

/-- A redefined job whose run absorbs the new definition. -/
theorem Resolved.refresh (hc : Intact env db)
    (h₁ : Consistent env (Only update.job.id) Nobody db1) (hqu : db1.queues = db.queues)
    (hjob : db1.jobs = db.jobs.modify update.replacement.id (redefined update.replacement) fun _ => rfl)
    (hrun : db1.runs = db.runs) (hat : db1.attempts = db.attempts)
    (hy : Yields (refreshSnapshot env update.replacement now) db1 u db') :
    Keeps env db db' := by
  simp only [refreshSnapshot, yields_steps] at hy
  obtain ⟨_, db1, ⟨-, rfl⟩, _, _, href, rfl, rfl⟩ := hy
  obtain ⟨hco, hre, rfl⟩ := yields_refreshUnstartedScheduleOwned href
  have hm : redefined update.replacement update.job ∈ db1.jobs := hjob ▸ h.redefined_mem
  obtain ⟨hi, hque, hty, -⟩ := h.same
  have hse : ∀ {r}, unstarted db1 update.replacement.id r = true → r.jobId = update.job.id ∧
    r.state = .scheduled ∧ db1.attemptsOf r.id = [] := fun {r} hp => by
    simp only [unstarted, hi, bool_steps, List.isEmpty_iff] at hp
    exact ⟨hp.1.1.1, hp.1.2, hp.2⟩
  have htyp : ∀ r ∈ db1.runs, r.jobId = update.job.id → r.type = update.job.type := by
    intro r hr hj
    obtain ⟨job, hjo, hji, -, ht⟩ := (h₁.runs r hr).job
    obtain rfl := eq_of_key hjo hm (hji.trans hj)
    exact ht
  refine ⟨Consistent.closeJob (h₁.updateRuns fun r hr hp => ?_) fun job' hj' hji => ?_,
    Frame.after_eq (.updateRuns (key_refreshed _) rfl rfl fun r hr hp => ?_) hrun hat,
    .of_eq hqu, .of_modify (key_redefined _) hjob fun _ _ _ => id⟩
  · obtain ⟨hj, hs, hn⟩ := hse hp
    have hso := h₁.runs r hr
    refine ⟨hj, { hso with
      shape := ⟨hre, hco, ?_, hso.shape.owned, hso.shape.completed,
        hso.shape.result, hso.shape.started⟩
      aligned := storedTime_storedTime _
      job := ⟨_, hm, hj.symm, le_refl _, hty⟩
      queue := ?_ }, rfl, fun hF => ?_⟩
    · show env.payloads.issue update.replacement.type update.replacement.payload = none
      rw [hty]
      exact h.payload
    · obtain ⟨queue, hq, hqi, -⟩ := (h₁.jobs _ hm).queue
      exact ⟨queue, hq, hqi.trans hque.symm⟩
    · exact (h₁.history r hr hF).congr rfl rfl rfl (.inr hn)
  · obtain rfl := eq_of_key hj' hm hji
    refine h.settled hc (fun owned manual hw => Work.update (key_refreshed _) (hrun ▸ hw)
      fun r hr hp => ⟨⟨rfl, rfl, ?_, rfl, rfl⟩, rfl⟩) fun run hru hj => ?_
    · replace hr : r ∈ db1.runs := hrun ▸ hr
      exact hty.trans (htyp r hr (hse hp).1).symm
    · split
      · exact ⟨.inr ⟨hque, rfl⟩, rfl⟩
      · exact ⟨.inl ⟨rfl, rfl⟩, rfl⟩
  · obtain ⟨hj, hs, -⟩ := hse hp
    refine ⟨⟨rfl, rfl, hty.trans (htyp r hr hj).symm, rfl, rfl⟩, by rw [hs]; rfl,
      fun _ => ⟨.inl rfl, fun hru => by rw [hs] at hru; cases hru⟩⟩

end

theorem updateJob_moves {request : UpdateJobRequest}
    (h : Intact env db) (hy : Yields (updateJob env amb request) db job' db') :
    Keeps env db db' := by
  simp only [updateJob, yields_steps, validateJobName, yields_ite] at hy
  obtain ⟨-, _, _, hi, _, _, ⟨-, rfl⟩, _, _, ⟨-, rfl⟩, _, _, ⟨-, rfl⟩, _, _, ⟨hsc, rfl⟩, update,
    _, hres, _, db1, hse, _, _, hu, hy⟩ := hy
  obtain rfl := yields_initialized hi
  obtain ⟨rfl, hre⟩ := yields_resolveJobUpdate h hsc hres
  have hr := visitScope_retimed hse
  have h₁ := h.retimed hr
  replace hre : Resolved env db1 update :=
    { hre with mem := hr.jobs ▸ hre.mem, owned := hr.runs ▸ hre.owned }
  rcases yields_updateDefinition hu with ⟨rfl, hn, -, rfl⟩ | ⟨rfl, -⟩
  · obtain ⟨_, db3, hrefs, hy⟩ := hy
    have hr2 := retimed_replaceReferences hrefs
    have h₃ := (hre.redefine h₁ hn).retimed hr2
    have hme : redefined update.replacement update.job ∈ db3.jobs := hr2.jobs ▸ hre.redefined_mem
    split at hy
    · obtain ⟨_, _, href, _, _, hrec, hp⟩ := hy
      obtain ⟨-, rfl⟩ := hp
      have hm := hre.refresh h₁ h₃ hr2.queues hr2.jobs hr2.runs hr2.attempts href
      exact (hm.after_retimed hr).retimed (visitScope_retimed hrec)
    obtain ⟨_, _, hrec, hp⟩ := hy
    obtain ⟨-, rfl⟩ := hp
    refine (Moves.after_retimed ?_ hr).retimed (visitScope_retimed hrec)
    refine ⟨h₃.closeJob fun job' hj' hj => ?_, .of_eq hr2.runs hr2.attempts, .of_eq hr2.queues,
      .of_modify (key_redefined _) hr2.jobs fun _ _ _ => id⟩
    obtain rfl := eq_of_key hj' hme hj
    refine hre.settled (f := id) h₁ (fun owned manual hw => ?_) fun run _ _ => ⟨.inl ⟨rfl, rfl⟩, rfl⟩
    rw [Option.map_id_apply, Option.map_id_apply, hr2.runs]
    exact hw
  · obtain ⟨_, _, hd, -⟩ := hy
    exact absurd hd not_yields_diagnoseJobWrite

/-! ## Moves and deletion -/

variable {target : Queue}

theorem yields_admitMove {request : MoveJobRequest}
    (h : Yields (admitMove env request) db (job, target) db') : db' = db ∧ job ∈ db.jobs ∧
      job.id = request.jobId ∧ job.state = .suspended ∧ job.revision < maximumRevision ∧
      Yields (findQueue env request.targetQueue false) db (some target) db ∧
      target ∈ db.queues ∧ target.id ≠ job.queueId ∧ (target.state = .active ∨ target.state = .suspended) := by
  simp only [admitMove, yields_steps, Prod.mk.injEq] at h
  obtain ⟨_, _, hjo, _, _, ⟨-, rfl⟩, _, _, ⟨hs, rfl⟩, _, _, hfo, _, _, ⟨rfl, rfl⟩, _, _,
    ⟨⟨hn, hts⟩, rfl⟩, _, _, ⟨hr, rfl⟩, ⟨rfl, rfl⟩, rfl⟩ := h
  obtain ⟨rfl, hj, hi, -⟩ := yields_findLiveJob hjo
  obtain ⟨rfl, hq, -⟩ := yields_findQueue_some hfo
  exact ⟨rfl, hj, hi, hs, hr, hfo, hq, hn, hts⟩

/-- What a move does. -/
structure MovesJob (env : Environment) (jobId targetId : Uuid) (db db' : Database) : Prop where
  intro ::
  moves : Moves env Nobody (Only jobId) db db'
  queues : db'.queues = db.queues
  target : ∃ job ∈ db.jobs, ∃ target ∈ db.queues, job.id = jobId ∧ target.id = targetId ∧
    targetId ≠ job.queueId ∧ (target.state = .active ∨ target.state = .suspended) ∧
    ∀ run' ∈ db'.runs, run'.jobId = jobId → run'.state.isTerminal = false → run'.queueId = targetId

theorem MovesJob.retimed {targetId : Uuid}
    (h : MovesJob env jobId targetId db1 db2) (hr : Retimed db db1) (hr' : Retimed db2 db') :
    MovesJob env jobId targetId db db' := by
  obtain ⟨hm, hqu, job, hj, target, hq, hi, hti, hn, hts, hru⟩ := h
  rw [hr.jobs] at hj
  rw [hr.queues] at hq hqu
  rw [← hr'.runs] at hru
  exact ⟨(hm.after_retimed hr).retimed hr', hr'.queues.trans hqu, job, hj, target, hq, hi, hti,
    hn, hts, hru⟩

theorem moveRows_moves (now : Int)
    (h : Intact env db) (hj : job ∈ db.jobs) (hs : job.state = .suspended)
    (hre : job.revision < maximumRevision) (hq : target ∈ db.queues)
    (hn : target.id ≠ job.queueId) (hts : target.state = .active ∨ target.state = .suspended) :
    MovesJob env job.id target.id db
      { db with
        jobs := db.jobs.modify job.id (moved target.id (job.revision + 1) now)
          (fun _ => rfl)
        runs := db.runs.update (fun run => run.jobId = job.id && run.isLive)
          (moved target.id (job.revision + 1)) fun _ => rfl } := by
  have hm := modify_mem hj (moved target.id (job.revision + 1) now)
    (key_moved target.id (job.revision + 1) now)
  have hli : target.state ≠ .deleted := by
    rcases hts with ht | ht <;> rw [ht] <;> exact QueueState.noConfusion
  have h₁ : Consistent env (Only job.id) Nobody
    { db with
      jobs := db.jobs.modify job.id (moved target.id (job.revision + 1) now)
        fun _ => rfl } := by
    refine (h.openJob job.id).modifyJob fun j hj' hi => ?_
    obtain rfl := eq_of_key hj' hj hi
    have hso := h.jobs j hj
    exact ⟨rfl, ⟨⟨⟨Nat.le_add_left 1 _, hre⟩, hso.shape.attributes, hso.shape.payload,
      hso.shape.name, hso.shape.deleted, hso.shape.terminal⟩, hso.cron, target, hq, rfl,
      fun _ => hli⟩, Nat.le_succ _, rfl⟩
  have hp : ∀ {r : JobRun}, (decide (r.jobId = job.id) && r.isLive) = true →
    r.jobId = job.id ∧ r.state.isTerminal = false := fun hp => by
    simpa [isLive] using hp
  refine ⟨⟨Consistent.closeJob (h₁.updateRuns fun r hr hse => ?_) fun job' hjo' hi => ?_,
    .updateRuns (key_moved target.id (job.revision + 1)) rfl rfl fun r hr hse => ?_, .of_eq rfl,
    .of_modify (key_moved _ _ _) rfl fun _ _ _ => id⟩, rfl, job, hj, target,
    hq, rfl, rfl, hn, hts, fun run' hr' hjo hl => ?_⟩
  · obtain ⟨hjo, -⟩ := hp hse
    have hso := h₁.runs r hr
    obtain ⟨_, hj', hi', -, hty⟩ := hso.job
    obtain rfl := eq_of_key hj' hm (hi'.trans hjo)
    refine ⟨hjo, { hso with
      shape := ⟨⟨Nat.le_add_left 1 _, hre⟩, hso.shape.attributes, hso.shape.payload,
        hso.shape.owned, hso.shape.completed, hso.shape.result, hso.shape.started⟩
      job := ⟨_, hm, hjo.symm, le_refl _, hty⟩
      queue := ⟨target, hq, rfl⟩ }, rfl, fun hF => ?_⟩
    exact (h₁.history r hr hF).congr rfl rfl rfl (.inl rfl)
  · obtain rfl := eq_of_key hjo' hm hi
    obtain ⟨_, _, hw, ho⟩ := h.settled job hj id
    refine ⟨_, _, hw.update (key_moved _ _) fun r hr hse => ⟨⟨rfl, rfl, rfl, rfl, rfl⟩, rfl⟩,
      ho.map rfl ho.recurring fun r hr => ?_⟩
    have hse : r.jobId = job.id ∧ r.state.isTerminal = false := by
      rcases hr with hr | hr
      · exact ⟨(hw.isLive_owned hr).2.1, (hw.isLive_owned hr).2.2.1⟩
      · exact ⟨(hw.isLive_manual hr).2.1, (hw.isLive_manual hr).2.2.1⟩
    rw [if_pos (by simp [isLive, hse])]
    exact ⟨⟨rfl, le_refl _⟩, rfl⟩
  · obtain ⟨hjo, hl⟩ := hp hse
    exact ⟨⟨rfl, rfl, rfl, rfl, rfl⟩, hl, fun _ => ⟨.inl rfl, fun _ hno => absurd hjo hno⟩⟩
  · obtain ⟨r, _, rfl⟩ := (mem_update (key_moved _ _)).1 hr'
    by_cases hse : (decide (r.jobId = job.id) && r.isLive) = true
    · rw [if_pos hse]
      rfl
    · rw [if_neg hse] at hjo hl
      exact absurd (by simp [isLive, hjo, hl]) hse

theorem moveJob_moves {request : MoveJobRequest}
    (h : Intact env db) (hy : Yields (moveJob env amb request) db job' db') :
    ∃ target, Yields (findQueue env request.targetQueue false) db (some target) db ∧
      MovesJob env request.jobId target.id db db' := by
  simp only [moveJob, moveNonTerminal, yields_steps, yields_ite] at hy
  obtain ⟨-, _, _, hi, _, _, ⟨-, rfl⟩, _, _, hse, ⟨_, target⟩, _, had, _, _, hset, _, _,
    hmo, hy⟩ := hy
  obtain rfl := yields_initialized hi
  obtain rfl := yields_validateSelector hse
  obtain ⟨rfl, hj, hid, hs, hre, hfo, hq, hn, hts⟩ := yields_admitMove had
  have hr := visitScope_retimed hset
  rcases yields_move hmo with ⟨rfl, -, -, rfl⟩ | ⟨rfl, -⟩
  · obtain ⟨_, _, ⟨_, _, ⟨-, rfl⟩, _, _, rfl, -, rfl⟩, _, _, hrec, -, rfl⟩ := hy
    have hm := moveRows_moves amb.utcNow (h.retimed hr) (hr.jobs ▸ hj) hs hre (hr.queues ▸ hq) hn hts
    rw [← hid]
    exact ⟨target, hfo, hm.retimed hr (visitScope_retimed hrec)⟩
  · obtain ⟨_, _, hd, -⟩ := hy
    exact absurd hd not_yields_diagnoseJobWrite

theorem yields_validateFinished (h : Yields (validateFinished job) db u db') : db' = db := by
  simp only [validateFinished, validateJobLifecycle, readNonterminalRuns, yields_ite, yields_steps] at h
  split at h
  · obtain ⟨_, _, ⟨-, rfl⟩, _, _, ⟨-, rfl⟩, -, rfl⟩ := h
    rfl
  · exact h.2

theorem yields_admitJobDeletion {request : DeleteJobRequest}
    (h : Yields (admitJobDeletion env request) db job db') : db' = db ∧ job ∈ db.jobs ∧
      job.revision < maximumRevision ∧ ∀ run ∈ db.runs, run.jobId = job.id → run.state ≠ .running := by
  simp only [admitJobDeletion, yields_steps] at h
  obtain ⟨_, _, hjo, _, _, ⟨-, rfl⟩, _, _, ⟨-, rfl⟩, _, _, hfi, _, _, hc, _, _,
    ⟨hz, rfl⟩, _, _, ⟨hr, rfl⟩, rfl, rfl⟩ := h
  obtain ⟨rfl, hj, -, -⟩ := yields_findLiveJob hjo
  obtain rfl := yields_validateFinished hfi
  obtain ⟨rfl, hi⟩ := yields_countRunning hc
  exact ⟨rfl, hj, hr, fun run hru hk => hi.1 hz run hru (decide_eq_true hk)⟩

theorem deleteJob_moves {request : DeleteJobRequest}
    (h : Intact env db) (hy : Yields (deleteJob env amb request) db u db') :
    Keeps env db db' := by
  simp only [deleteJob, yields_steps, yields_ite] at hy
  obtain ⟨-, _, _, hin, _, _, ⟨-, rfl⟩, job, _, had, _, db1, hse, deleted, _, hm, hy⟩ := hy
  obtain rfl := yields_initialized hin
  obtain ⟨rfl, hj, hre, hi⟩ := yields_admitJobDeletion had
  have hr := visitScope_retimed hse
  have h₁ := h.retimed hr
  rw [← hr.jobs] at hj
  rw [← hr.runs] at hi
  rcases yields_markDeleted hm with ⟨rfl, -, -, rfl⟩ | ⟨rfl, -⟩
  · obtain ⟨_, _, hca, _, _, href, hrec⟩ := hy
    have hme := modify_mem hj (deleted (job.revision + 1) amb.utcNow)
      (key_deleted (job.revision + 1) amb.utcNow)
    have h₂ : Consistent env (Only job.id) Nobody
      { db1 with
        jobs := db1.jobs.modify job.id (deleted (job.revision + 1) amb.utcNow)
          fun _ => rfl } := by
      refine (h₁.openJob job.id).modifyJob fun j hj' hid => ?_
      obtain rfl := eq_of_key hj' hj hid
      exact deleted_change (Only.self j.id) (h₁.jobs j hj) (Nat.lt_succ_self _) hre amb.utcNow
    obtain ⟨h₃, hfr, hq, hjo, hrun⟩ := cancelPending_consistent h₂ (fun run hru hp _ => by
      rw [decide_eq_true_eq] at hp
      exact ⟨hp, (settleScope_closes hse).2 run (hr.runs ▸ hru) (decide_eq_true hp)⟩) hca
    have hr' := (retimed_replaceReferences href).trans (visitScope_retimed hrec)
    refine (Moves.after_retimed ?_ hr).retimed hr'
    refine ⟨h₃.closeJob fun job' hjo' hid => ?_, hfr.after_eq rfl rfl, .of_eq hq,
      .of_modify (key_deleted _ _) hjo fun _ _ _ hd => by cases hd⟩
    rw [hjo] at hjo'
    obtain rfl := eq_of_key hjo' hme hid
    refine ⟨none, none, .of_ended fun run hru hri => ?_, .of_deleted rfl⟩
    rcases hrun run hru with ⟨ho, hn⟩ | hc
    · by_contra hl
      rw [not_eq_true] at hl
      simp only [show run.jobId = job.id from hri, decide_true, Bool.true_and] at hn
      exact hi run ho hri (RunState.running_of_live hl hn)
    · rw [hc]
      rfl
  · obtain ⟨_, _, hdi, -⟩ := hy
    exact absurd hdi not_yields_diagnoseJobWrite

end Management

end Jobu
