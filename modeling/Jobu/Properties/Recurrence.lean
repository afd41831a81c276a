import Jobu.Changes.Runs
import Jobu.Properties.Attempts
import Jobu.Properties.Revisions

/-!
# Recurrence

A recurring job always has one live run of its schedule.  When that run ends, its successor is
inserted by the same change, later than the run was planned and later than the instant it ended.
Recovery does not look at the instant the run was planned: it need not, because a run that was
running had come due, and the clock does not go back.

  > `OnSchedule`: whoever has begun was planned at or before the clock.
  > `Change.recurs`: what one change does to the runs of one schedule.
  > `recurrence_without_backlog`: the same along every history.
-/

namespace Jobu

open Lib Scheduler Table Sample Runs

open Keyed (key)

variable {d : Deployment} {env : Environment} {caller : Caller} {now : Int} {jobId : Uuid}
  {db db1 db' : Database}

/-! ## Runs against the clock -/

/-- The runs of a schedule against the clock: who waits for the first time waits for the planned
instant, and who has begun was planned at or before the clock. -/
structure OnSchedule (clock : Int) (run : JobRun) : Prop where
  waiting : run.state = .scheduled → run.runnableAt = run.plannedAt
  begun : run.state = .running ∨ run.state = .retryWait → run.plannedAt ≤ clock

variable {run : JobRun}

theorem OnSchedule.mono {clock clock' : Int} (h : OnSchedule clock run)
    (hle : clock ≤ clock') : OnSchedule clock' run :=
  ⟨h.waiting, fun hb => (h.begun hb).trans hle⟩

variable {run' : JobRun}

theorem RunWrite.onSchedule (h : RunWrite caller now db run run')
    (hr : OnSchedule now run) : OnSchedule now run' := by
  cases h with
  | kept => exact hr
  | moved => exact ⟨hr.waiting, hr.begun⟩
  | cancelled =>
    refine ⟨fun hs => (by cases hs), fun hs => ?_⟩
    rcases hs with hs | hs
    · cases hs
    · cases hs
  | refreshed _ _ _ _ _ unstarted =>
    simp only [Runs.unstarted, bool_steps] at unstarted
    refine ⟨fun _ => rfl, fun hs => ?_⟩
    have hsc := unstarted.1.2
    rcases hs with hs | hs
    · exact absurd (hsc.symm.trans hs) RunState.noConfusion
    · exact absurd (hsc.symm.trans hs) RunState.noConfusion
  | started pending due =>
    refine ⟨fun hs => (by cases hs), fun _ => ?_⟩
    show run.plannedAt ≤ now
    cases hs : run.state with
    | scheduled =>
      rw [← hr.waiting hs]
      exact due
    | retryWait => exact hr.begun (.inr hs)
    | running | succeeded | failed | interrupted | cancelled =>
      rw [hs] at pending
      cases pending
  | retrying running =>
    exact ⟨fun hs => (by cases hs), fun _ => hr.begun (.inl running)⟩
  | ended _ state terminal =>
    refine ⟨fun hs => ?_, fun hs => ?_⟩
    · rw [show state = .scheduled from hs] at terminal
      cases terminal
    rcases hs with hs | hs
    · rw [show state = .running from hs] at terminal
      cases terminal
    · rw [show state = .retryWait from hs] at terminal
      cases terminal

theorem onSchedule_scheduledRun (job : JobDefinition) (id : Uuid) (planned : Int) :
    OnSchedule now (stored (Lifecycle.scheduledRun job id planned)) := by
  refine ⟨fun _ => rfl, fun hs => ?_⟩
  rcases hs with hs | hs
  · cases hs
  · cases hs

theorem Change.onSchedule (h : Change env caller now db db')
    (hd : ∀ run ∈ db.runs, run.scheduleOwned = true → OnSchedule now run) :
    ∀ run ∈ db'.runs, run.scheduleOwned = true → OnSchedule now run := by
  intro run' hr' ho
  rcases h.runs.cases run' hr' with ⟨run, hr, hw⟩ | ⟨-, hn⟩
  · exact hw.onSchedule (hd run hr (hw.id_eq.2.2.symm.trans ho))
  cases hn with
  | scheduled job _ _ planned _ eq =>
    rw [eq]
    exact onSchedule_scheduledRun job _ planned
  | manual _ _ _ manual =>
    rw [manual] at ho
    cases ho
  | successor _ _ _ continues eq =>
    obtain ⟨job, -, _, planned, -, -, -, -, hne⟩ := continues.copies
    rw [eq, hne]
    exact onSchedule_scheduledRun job _ planned

/-! ## The job -/

/-- The job is there with this schedule. -/
def HasSchedule (jobId : Uuid) (schedule : JobSchedule) (db : Database) : Prop :=
  ∃ job ∈ db.jobs, job.id = jobId ∧ job.schedule = schedule

variable {schedule : JobSchedule} {p : JobDefinition → Bool}

theorem hasSchedule_update {f : JobDefinition → JobDefinition} (hf : ∀ job : JobDefinition, key (f job) = key job)
    (hj : db'.jobs = db.jobs.update p f hf)
    (hk : ∀ job ∈ db.jobs, job.id = jobId → p job = true → (f job).schedule = job.schedule)
    (h : HasSchedule jobId schedule db) : HasSchedule jobId schedule db' := by
  obtain ⟨job, hjo, hi, hs⟩ := h
  have hm := mem_update_of_mem hjo p f hf
  rw [← hj] at hm
  refine ⟨_, hm, ?_⟩
  by_cases hp : p job = true
  · rw [if_pos hp]
    exact ⟨(hf job).trans hi, (hk job hjo hi hp).trans hs⟩
  · rw [if_neg hp]
    exact ⟨hi, hs⟩

/-- Only an edit gives a job another schedule. -/
theorem Change.hasSchedule (h : Change env caller now db db')
    (hn : ¬ caller.edits jobId) (hs : HasSchedule jobId schedule db) : HasSchedule jobId schedule db' := by
  cases h with
  | queueErased =>
    exact hasSchedule_update (fun job => Jobs.key_deleted (job.revision + 1) now job) rfl
      (fun _ _ _ _ => rfl) hs
  | jobInserted job _ free =>
    obtain ⟨row, hr, hi, hs⟩ := hs
    have hfr : db.jobs.find? (key (Jobs.stored job)) = none := free
    exact ⟨row, (mem_insert hfr).2 (.inr hr), hi, hs⟩
  | jobRedefined row replacement _ _ edits =>
    refine hasSchedule_update (Jobs.key_redefined replacement) rfl (fun job _ hi hk => ?_) hs
    rw [← hi, show job.id = row.id from of_decide_eq_true hk] at hn
    exact absurd edits hn
  | jobEntered row _ next time =>
    exact hasSchedule_update (Jobs.key_entered next (row.revision + 1) time) rfl
      (fun _ _ _ _ => rfl) hs
  | jobMoved row _ _ target =>
    exact hasSchedule_update (Jobs.key_moved target.id (row.revision + 1) now) rfl
      (fun _ _ _ _ => rfl) hs
  | jobDeleted row =>
    exact hasSchedule_update (Jobs.key_deleted (row.revision + 1) now) rfl (fun _ _ _ _ => rfl) hs
  | _ => exact hs

/-- The job is deleted. -/
def IsDeleted (jobId : Uuid) (db : Database) : Prop :=
  ∃ job ∈ db.jobs, job.id = jobId ∧ job.state = .deleted

theorem OwnersEvolve.isDeleted (h : OwnersEvolve db db') (hd : IsDeleted jobId db) : IsDeleted jobId db' := by
  obtain ⟨job, hj, hi, hs⟩ := hd
  obtain ⟨_, job', hj', hw, -⟩ := h.jobs.kept job hj
  obtain rfl := hw.eq_of_final fun _ hwr => hwr.live hs
  exact ⟨job', hj', hi, hs⟩

/-! ## One change -/

/-- Owned by the schedule of the job, live or not. -/
def OfSchedule (jobId : Uuid) (run : JobRun) : Prop := run.jobId = jobId ∧ run.scheduleOwned = true

/-- What happens to the runs of one schedule: nothing begins and nothing ends but with the job, or
the live run ends at `now` and exactly one later run takes its place. -/
inductive Recurs (jobId : Uuid) (now : Int) (db db' : Database) : Prop
  | stays
    (nobody : ∀ run' ∈ db'.runs, OfSchedule jobId run' → ∃ run ∈ db.runs, run.id = run'.id)
    (lives : ∀ run ∈ db.runs, OfSchedule jobId run → run.isLive = true →
      (∃ run' ∈ db'.runs, run'.id = run.id ∧ run'.isLive = true) ∨ IsDeleted jobId db')
  | succeeds (run : JobRun) (mem : run ∈ db.runs) (of : OfSchedule jobId run)
    (live : run.isLive = true)
    (ended : ∃ run' ∈ db'.runs, run'.id = run.id ∧ run'.state.isTerminal = true ∧
      run'.completedAt = some (storedTime now))
    (next : JobRun) (there : next ∈ db'.runs) (new : db.runs.find? next.id = none)
    (of_next : OfSchedule jobId next) (scheduled : next.state = .scheduled)
    (afterPlanned : run.plannedAt < next.plannedAt) (afterEnd : now < next.plannedAt)
    (only : ∀ other ∈ db'.runs, OfSchedule jobId other → db.runs.find? other.id = none → other = next)

/-- The engine gives instants the database can hold; its contract asks for whole minutes. -/
def CronEngine.WholeMicroseconds (cron : CronEngine) : Prop :=
  ∀ expression timezone lower next, cron.nextAfter expression timezone lower = .ok next → storedTime next = next

/-- Rows are written, and no run of the schedule ends but with the job. -/
theorem Recurs.of_writes (hba : ∀ run' ∈ db'.runs, OfSchedule jobId run' → ∃ run ∈ db.runs, run.id = run'.id)
    (h : ∀ run ∈ db.runs, OfSchedule jobId run → run.isLive = true → ∃ run' ∈ db'.runs,
      run'.id = run.id ∧ (run'.isLive = true ∨ IsDeleted jobId db')) : Recurs jobId now db db' := by
  refine .stays hba fun run hr ho hl => ?_
  obtain ⟨run', hr', hi, he⟩ := h run hr ho hl
  exact he.imp_left fun hl' => ⟨run', hr', hi, hl'⟩

theorem Recurs.of_runs (h : db'.runs = db.runs) : Recurs jobId now db db' := by
  refine .of_writes ?_ ?_
  · rw [h]
    exact fun run hr _ => ⟨run, hr, rfl⟩
  · rw [h]
    exact fun run hr _ hl => ⟨run, hr, rfl, .inl hl⟩

variable {f : JobRun → JobRun}

theorem Recurs.of_update {p : JobRun → Bool}
    (hf : ∀ run : JobRun, key (f run) = key run) (hru : db'.runs = db.runs.update p f hf)
    (h : ∀ run ∈ db.runs, p run = true → OfSchedule jobId run → run.isLive = true →
      (f run).isLive = true ∨ IsDeleted jobId db') : Recurs jobId now db db' := by
  refine .of_writes ?_ ?_
  · rw [hru]
    intro _ hr' _
    obtain ⟨run, hr, rfl⟩ := (mem_update hf).1 hr'
    refine ⟨run, hr, ?_⟩
    split
    · exact (hf run).symm
    · rfl
  · intro run hr ho hl
    have hm := mem_update_of_mem hr p f hf
    rw [← hru] at hm
    refine ⟨_, hm, ?_⟩
    by_cases hp : p run = true
    · rw [if_pos hp]
      exact ⟨hf run, h run hr hp ho hl⟩
    · rw [if_neg hp]
      exact ⟨rfl, .inl hl⟩

theorem Recurs.of_insert (hru : db'.runs = db.runs.insert run)
    (hfr : db.runs.find? run.id = none) (ho : ¬ OfSchedule jobId run) :
    Recurs jobId now db db' := by
  refine .of_writes ?_ ?_
  · rw [hru]
    intro run' hr' hof
    rcases (mem_insert hfr).1 hr' with rfl | hol
    · exact absurd hof ho
    · exact ⟨run', hol, rfl⟩
  · rw [hru]
    exact fun run hr _ hl => ⟨run, (mem_insert hfr).2 (.inr hr), rfl, .inl hl⟩

theorem isLive_eq_true : run.isLive = true ↔ run.state.isTerminal = false := by
  unfold JobRun.isLive
  cases run.state.isTerminal <;> simp

theorem isDeleted_update {f : JobDefinition → JobDefinition}
    (hf : ∀ job : JobDefinition, key (f job) = key job) (hj : db'.jobs = db.jobs.update p f hf)
    {job : JobDefinition} (hjo : job ∈ db.jobs) (hp : p job = true)
    (hd : (f job).state = .deleted) : IsDeleted job.id db' := by
  have hm := mem_update_of_mem hjo p f hf
  rw [if_pos hp, ← hj] at hm
  exact ⟨f job, hm, hf job, hd⟩

/-- What the change of one run needs to know of the job: its schedule recurs, it has its live run,
and every run is on its schedule. -/
structure Recurring (jobId : Uuid) (now : Int) (db : Database) : Prop where
  job : ∃ job ∈ db.jobs, job.id = jobId ∧ job.schedule.isOnce = false ∧
    (job.state ≠ .deleted → ∃ run ∈ db.runs, OfSchedule jobId run ∧ run.isLive = true)
  onSchedule : ∀ run ∈ db.runs, run.scheduleOwned = true → OnSchedule now run

variable {successor : Option JobRun}

theorem recurs_ended (hal : env.cron.WholeMicroseconds) {state : RunState}
    {result : Json} (h : Recurring jobId now db) (hr : run ∈ db.runs)
    (hof : OfSchedule jobId run) (hli : run.isLive = true) (hst : state.isTerminal = true)
    (hfo : ∀ next ∈ successor, Continues env db now run next)
    (how : ∀ job ∈ db.jobs, job.id = run.jobId → run.scheduleOwned = true →
      job.state ≠ .deleted → job.schedule.isOnce = false → successor.isSome = true)
    (hj : db'.jobs = db.jobs)
    (hru : db'.runs = withSuccessor (db.runs.modify run.id (ended state now result)
      (key_ended state now result)) successor) : Recurs jobId now db db' := by
  obtain ⟨job, hjo, hid, hcr, -⟩ := h.job
  have hi : job.id = run.jobId := hid.trans hof.1.symm
  cases successor with
  | none =>
    -- nothing follows, so the job is deleted
    have hd : job.state = .deleted := by
      by_contra hop
      cases how job hjo hi hof.2 hop hcr
    refine .of_update (key_ended state now result) hru fun _ _ _ _ _ => .inr ?_
    exact ⟨job, hj ▸ hjo, hid, hd⟩
  | some next =>
    have hc := hfo next rfl
    obtain ⟨job', hj', lower, planned, hi', hn, hno, hp, he⟩ := hc.copies
    obtain rfl : job' = job := eq_of_key hj' hjo (hi'.trans hi.symm)
    have hfr : (db.runs.modify run.id (ended state now result)
      (key_ended state now result)).find? (key (stored next)) = none := by
      rw [find?_modify, Option.map_eq_none_iff]
      exact hc.free
    obtain ⟨_, _, -, -, hafter⟩ := hn.cron
    have hat : (stored next).plannedAt = planned := by
      rw [he]
      exact hal _ _ _ _ hafter
    have hl := hn.later
    have hbe : run.plannedAt ≤ lower := by
      rcases hp with hle | hrun
      · exact hle
      · exact ((h.onSchedule run hr hof.2).begun (.inl hrun)).trans hno
    have hm : ∀ other, other ∈ db'.runs ↔ other = stored next ∨ other ∈ db.runs.modify run.id
      (ended state now result) (key_ended state now result) := by
      intro other
      rw [hru]
      exact mem_insert hfr
    refine .succeeds run hr hof hli ⟨_, (hm _).2 (.inr (modify_mem hr
      (ended state now result) (key_ended state now result))), rfl, hst, rfl⟩ (stored next)
      ((hm _).2 (.inl rfl)) hc.free ?_ ?_ ?_ ?_ fun other ho _ hne => ?_
    · rw [he]
      exact ⟨hid, rfl⟩
    · rw [he]
      rfl
    · omega
    · omega
    refine ((hm other).1 ho).resolve_right fun hol => ?_
    have hnon : (db.runs.modify run.id (ended state now result)
      (key_ended state now result)).find? other.id = none := by
      rw [find?_modify, Option.map_eq_none_iff]
      exact hne
    exact find?_eq_none.1 hnon other hol rfl

/-- The end of a run that is not of the schedule: its successor, if any, is not either. -/
theorem recurs_ended_other (hf : ∀ run : JobRun, key (f run) = key run) (hr : run ∈ db.runs)
    (hof : ¬ OfSchedule jobId run) (hfo : ∀ next ∈ successor, Continues env db now run next)
    (hru : db'.runs = withSuccessor (db.runs.modify run.id f hf) successor) :
    Recurs jobId now db db' := by
  have hke : ∀ other ∈ db.runs, OfSchedule jobId other → other ∈ db.runs.modify run.id f hf := by
    intro other ho hofo
    refine modify_mem_other ho (fun hk => hof ?_) f hf
    rw [← eq_of_key ho hr hk]
    exact hofo
  have hba : ∀ run' ∈ db.runs.modify run.id f hf, ∃ run ∈ db.runs, run.id = run'.id := by
    intro run' hr'
    rcases (mem_modify hf).1 hr' with ⟨row, hro, -, rfl⟩ | ⟨hol, -⟩
    · exact ⟨row, hro, (hf row).symm⟩
    · exact ⟨run', hol, rfl⟩
  cases successor with
  | none =>
    have hru : db'.runs = db.runs.modify run.id f hf := hru
    refine .of_writes (fun run' hr' _ => ?_) fun other ho hofo hl => ?_
    · exact hba run' (hru ▸ hr')
    · exact ⟨other, hru ▸ hke other ho hofo, rfl, .inl hl⟩
  | some next =>
    have hc := hfo next rfl
    obtain ⟨_, -, _, _, hi, -, -, -, he⟩ := hc.copies
    have hne : ¬ OfSchedule jobId (stored next) := by
      intro hn
      rw [he] at hn
      exact hof ⟨hi.symm.trans hn.1, hc.owned⟩
    have hfr : (db.runs.modify run.id f hf).find? (key (stored next)) = none := by
      rw [find?_modify, Option.map_eq_none_iff]
      exact hc.free
    have hm : ∀ other, other ∈ db'.runs ↔ other = stored next ∨ other ∈ db.runs.modify run.id f hf := by
      intro other
      rw [hru]
      exact mem_insert hfr
    refine .of_writes (fun run' hr' ho' => ?_) fun other ho hofo hl => ?_
    · rcases (hm run').1 hr' with rfl | hol
      · exact absurd ho' hne
      · exact hba run' hol
    · exact ⟨other, (hm other).2 (.inr (hke other ho hofo)), rfl, .inl hl⟩

theorem Change.recurs (hal : env.cron.WholeMicroseconds) (h : Recurring jobId now db)
    (hc : Change env caller now db db') : Recurs jobId now db db' := by
  have hj := h.job
  obtain ⟨job, hj, hi, -, hl⟩ := hj
  have ho : ∀ run, OfSchedule jobId run → job.id = run.jobId := fun run hof => hi.trans hof.1.symm
  cases hc with
  | queueErased _ _ _ follow _ _ reason =>
    refine .of_update (key_cancelled now reason) rfl fun run hr hse hof hli => .inr ?_
    simp only [bool_steps] at hse
    rw [← hi]
    exact isDeleted_update (fun job => Jobs.key_deleted (job.revision + 1) now job) rfl hj
      (follow run hr hse.1 hli job hj (ho run hof)) rfl
  | jobMoved row _ _ target =>
    exact .of_update (key_moved target.id (row.revision + 1)) rfl fun run _ _ _ hli => .inl hli
  | jobDeleted row mem _ _ reason =>
    refine .of_update (key_cancelled now reason) rfl fun run hr hse hof hli => .inr ?_
    simp only [bool_steps] at hse
    have hro : row.id = jobId := hse.1.symm.trans hof.1
    rw [← hro]
    exact isDeleted_update (Jobs.key_deleted (row.revision + 1) now) rfl mem (decide_eq_true rfl) rfl
  | runScheduled other mem live _ _ free alone =>
    refine .of_insert rfl free fun hof => ?_
    -- the job has its run already
    obtain rfl : other = job := eq_of_key mem hj ((hof.1 : other.id = jobId).trans hi.symm)
    obtain ⟨run, hr, hofr, hli⟩ := hl live
    have hn := alone run hr (ho run hofr).symm
    simp [JobRun.isLiveOwned, hli, hofr.2] at hn
  | runManual _ _ _ run free manual =>
    refine .of_insert rfl free fun hof => ?_
    have how : run.scheduleOwned = true := hof.2
    rw [manual] at how
    cases how
  | runRefreshed other _ _ _ planned =>
    exact .of_update (key_refreshed (snapshotOf other planned)) rfl fun run _ _ _ hli => .inl hli
  | runStarted =>
    exact .of_update (key_started now) rfl fun _ _ _ _ _ => .inl rfl
  | runRetries run mem running attempt there of unreported last outcome result dueAt later policy
    of_run allowed =>
    exact .of_update (key_retrying dueAt) rfl fun _ _ _ _ _ => .inl rfl
  | runEnded run mem _ closing state terminal result _ follows owed =>
    by_cases hof : OfSchedule jobId run
    · exact recurs_ended hal h mem hof closing.live terminal follows owed rfl rfl
    · exact recurs_ended_other (key_ended state now result) mem hof follows rfl
  | _ => exact .of_runs rfl

/-! ## One transaction -/

theorem Quiet.evolves (h : Quiet env caller now db db') : OwnersEvolve db db' :=
  h.preserve (fun _ _ hc hbe => hbe.trans hc.evolves) (.refl db)

/-- Before the runs change, the job is as it was. -/
theorem Recurring.quiet (h : Recurring jobId now db) (hn : ¬ caller.edits jobId)
    (hq : Quiet env caller now db db') : Recurring jobId now db' := by
  obtain ⟨job, hj, hi, hc, hl⟩ := h.job
  obtain ⟨job', hj', hi', hsc⟩ :=
    hq.preserve (P := HasSchedule jobId job.schedule) (fun _ _ hch => hch.hasSchedule hn)
      ⟨job, hj, hi, rfl⟩
  refine ⟨⟨job', hj', hi', hsc ▸ hc, fun ho => ?_⟩, hq.runs ▸ h.onSchedule⟩
  rw [hq.runs]
  refine hl fun hd => ho ?_
  obtain ⟨_, hj'', hi'', hs⟩ := hq.evolves.isDeleted ⟨job, hj, hi, hd⟩
  rw [eq_of_key hj' hj'' (hi'.trans hi''.symm)]
  exact hs

/-- The runs are those of the change in the middle. -/
theorem Recurs.between {db2 : Database} (h : Recurs jobId now db1 db2) (hbe : db1.runs = db.runs)
    (hafter : db'.runs = db2.runs) (he : OwnersEvolve db2 db') : Recurs jobId now db db' := by
  cases h with
  | stays nobody lives =>
    rw [hbe] at nobody lives
    rw [← hafter] at nobody lives
    exact .stays nobody fun run hr ho hl => (lives run hr ho hl).imp_right he.isDeleted
  | succeeds run mem of live ended next there new of_next scheduled afterPlanned afterEnd only =>
    rw [hbe] at mem new only
    rw [← hafter] at ended there only
    exact .succeeds run mem of live ended next there new of_next scheduled afterPlanned afterEnd only

theorem Changes.recurs (hal : env.cron.WholeMicroseconds) (h : Recurring jobId now db)
    (hn : ¬ caller.edits jobId) (hc : Changes env caller now db db') : Recurs jobId now db db' := by
  obtain ⟨_, _, hbe, hch, hafter⟩ := hc
  refine Recurs.between ?_ hbe.runs hafter.runs hafter.evolves
  rcases hch with rfl | hch
  · exact .of_runs rfl
  · exact hch.recurs hal (h.quiet hn hbe)

/-- A run of a job that is not edited keeps the instant it was planned at. -/
theorem Changes.planned (hn : ¬ caller.edits jobId) (h : Changes env caller now db db')
    (hr : run ∈ db.runs) (ho : run.jobId = jobId) : ∃ run' ∈ db'.runs, run'.id = run.id ∧
      run'.plannedAt = run.plannedAt ∧ run'.jobId = run.jobId ∧ run'.scheduleOwned = run.scheduleOwned := by
  refine h.preserve (P := fun db' => ∃ run' ∈ db'.runs, run'.id = run.id ∧
    run'.plannedAt = run.plannedAt ∧ run'.jobId = run.jobId ∧
    run'.scheduleOwned = run.scheduleOwned) ?_ ⟨run, hr, rfl, rfl, rfl, rfl⟩
  rintro _ _ hc ⟨run1, hr1, hi, hp, hj, how⟩
  obtain ⟨run2, hr2, hw⟩ := hc.runs.next run1 hr1
  obtain ⟨hi2, hj2, ho2⟩ := hw.id_eq
  refine ⟨run2, hr2, hi2.trans hi, Eq.trans ?_ hp, hj2.trans hj, ho2.trans how⟩
  cases hw with
  | refreshed _ _ edits _ _ unstarted =>
    simp only [Runs.unstarted, bool_steps] at unstarted
    rw [← unstarted.1.1.1, hj, ho] at edits
    exact absurd edits hn
  | _ => rfl

/-! ## Histories -/

/-- A transaction that some calls may ask for, at a clock that does not go back. -/
structure ClockStep (d : Deployment) (Allowed : Option Operation → Prop) (s s' : Int × Database) : Prop where
  forward : s.1 ≤ s'.1
  commit : ∃ call, Allowed call ∧ CommitAt d s'.1 call s.2 s'.2

/-- A history on the clock. -/
def History (d : Deployment) (Allowed : Option Operation → Prop) :
    Int × Database → Int × Database → Prop := Relation.ReflTransGen (ClockStep d Allowed)

/-- Every call is allowed. -/
def AnyCall : Option Operation → Prop := fun _ => True

/-- Every call but an update of the job. -/
def Leaves (jobId : Uuid) (call : Option Operation) : Prop := ¬ EditedBy call jobId

/-- The databases that histories on the clock lead to, with the last reading. -/
def OnClock (d : Deployment) (s : Int × Database) : Prop := ∃ start, History d AnyCall (start, {}) s

variable {s₀ mid s s' : Int × Database}

variable {Allowed : Option Operation → Prop}

theorem ClockStep.commits (h : ClockStep d Allowed s s') : Commit d s.2 s'.2 := by
  obtain ⟨_, -, hc⟩ := h.commit
  exact hc.commit

theorem OnClock.step (h : OnClock d s) (hstep : ClockStep d Allowed s s') : OnClock d s' := by
  obtain ⟨start, hs⟩ := h
  obtain ⟨call, -, hc⟩ := hstep.commit
  exact ⟨start, hs.tail ⟨hstep.forward, call, trivial, hc⟩⟩

theorem OnClock.stored (h : OnClock d s) : Stored d s.2 := by
  obtain ⟨_, hs⟩ := h
  unfold History at hs
  induction hs with
  | refl => exact .refl
  | tail _ last ih => exact ih.tail last.commits

/-- Every run of a schedule is on it. -/
theorem OnClock.onSchedule (h : OnClock d s) : ∀ run ∈ s.2.runs, run.scheduleOwned = true → OnSchedule s.1 run := by
  obtain ⟨start, hs⟩ := h
  unfold History at hs
  induction hs with
  | refl => exact fun run hr => absurd hr (not_mem_empty run)
  | tail hbe last ih =>
    obtain ⟨_, -, hc⟩ := last.commit
    have hst := OnClock.stored ⟨start, hbe⟩
    exact (hc.changes hst.consistent).preserve (fun _ _ hch => hch.onSchedule)
      fun run hr ho => (ih run hr ho).mono last.forward

/-- The job recurs: it is there, with a schedule that is not one-time. -/
def IsRecurring (jobId : Uuid) (db : Database) : Prop :=
  ∃ job ∈ db.jobs, job.id = jobId ∧ job.schedule.isOnce = false

theorem OnClock.recurring (h : OnClock d s) (hj : IsRecurring jobId s.2) {now : Int}
    (hn : s.1 ≤ now) : Recurring jobId now s.2 := by
  obtain ⟨job, hm, hi, hcr⟩ := hj
  have hc := h.stored.consistent
  refine ⟨⟨job, hm, hi, hcr, fun hop => ?_⟩, fun run hr ho => (h.onSchedule run hr ho).mono hn⟩
  obtain ⟨_, _, hw, hok⟩ := hc.settled job hm id
  obtain ⟨run, rfl⟩ := Option.isSome_iff_exists.1 (hok.recurring hop hcr)
  obtain ⟨hr, hof, hl, ho⟩ := hw.isLive_owned rfl
  exact ⟨run, hr, ⟨hof.trans hi, ho⟩, isLive_eq_true.2 hl⟩

theorem ClockStep.changes (h : OnClock d s) (hstep : ClockStep d (Leaves jobId) s s') :
    ∃ caller : Caller, ¬ caller.edits jobId ∧ Changes d.env caller s'.1 s.2 s'.2 := by
  obtain ⟨call, hl, hc⟩ := hstep.commit
  exact ⟨CallerOf d call, hl, hc.changes h.stored.consistent⟩

theorem ClockStep.recurs (hal : d.env.cron.WholeMicroseconds) (h : OnClock d s)
    (hj : IsRecurring jobId s.2) (hstep : ClockStep d (Leaves jobId) s s') :
    Recurs jobId s'.1 s.2 s'.2 := by
  obtain ⟨_, hl, hc⟩ := hstep.changes h
  exact hc.recurs hal (h.recurring hj hstep.forward) hl

theorem ClockStep.isRecurring (h : OnClock d s) (hj : IsRecurring jobId s.2)
    (hstep : ClockStep d (Leaves jobId) s s') : IsRecurring jobId s'.2 := by
  obtain ⟨_, hl, hc⟩ := hstep.changes h
  obtain ⟨job, hm, hi, hcr⟩ := hj
  obtain ⟨job', hm', hi', hsc⟩ := hc.preserve
    (P := HasSchedule jobId job.schedule) (fun _ _ hch => hch.hasSchedule hl)
    ⟨job, hm, hi, rfl⟩
  exact ⟨job', hm', hi', hsc ▸ hcr⟩

theorem ClockStep.planned (h : OnClock d s) (hstep : ClockStep d (Leaves jobId) s s')
    (hr : run ∈ s.2.runs) (ho : OfSchedule jobId run) : ∃ run' ∈ s'.2.runs,
      run'.id = run.id ∧ run'.plannedAt = run.plannedAt ∧ OfSchedule jobId run' := by
  obtain ⟨_, hl, hc⟩ := hstep.changes h
  obtain ⟨run', hr', hi, hp, hj, how⟩ := hc.planned hl hr ho.1
  exact ⟨run', hr', hi, hp, hj.trans ho.1, how.trans ho.2⟩

/-- A job has one live run of its schedule at most. -/
theorem OnClock.live_unique (h : OnClock d s) (hj : IsRecurring jobId s.2) {a b : JobRun}
    (ha : a ∈ s.2.runs) (hb : b ∈ s.2.runs) (ho : OfSchedule jobId a) (hofb : OfSchedule jobId b)
    (hl : a.isLive = true) (hlb : b.isLive = true) : a = b := by
  obtain ⟨job, hm, hi, -⟩ := hj
  obtain ⟨_, _, hw, -⟩ := h.stored.consistent.settled job hm id
  have hse : ∀ run, OfSchedule jobId run → run.isLive = true → ownedBy job.id run = true := by
    intro _ hof hli
    simp [ownedBy, JobRun.isLiveOwned, hof.1, hof.2, hi, hli]
  have hso := (hw.owned.eq_some ha (hse a ho hl)).symm.trans
    (hw.owned.eq_some hb (hse b hofb hlb))
  exact Option.some.inj hso

/-! ## The order of the runs -/

/-- Live when the observation begins, or made since. -/
def Recent (s₀ : Int × Database) (run : JobRun) : Prop :=
  ∀ old ∈ s₀.2.runs, old.id = run.id → old.isLive = true

/-- The live run of the schedule is planned after all the others. -/
def LiveIsLast (jobId : Uuid) (s₀ s : Int × Database) : Prop :=
  ∀ live ∈ s.2.runs, OfSchedule jobId live → live.isLive = true →
    ∀ run ∈ s.2.runs, OfSchedule jobId run → Recent s₀ run → run.id ≠ live.id → run.plannedAt < live.plannedAt

/-- The row a run of the schedule had before: the same planned instant, and live if it is now. -/
structure WasRun (jobId : Uuid) (run run' : JobRun) : Prop where
  of : OfSchedule jobId run
  planned : run.plannedAt = run'.plannedAt
  live : run'.isLive = true → run.isLive = true

theorem ClockStep.wasRun (h : OnClock d s) (hstep : ClockStep d (Leaves jobId) s s')
    (hr : run ∈ s.2.runs) (hr' : run' ∈ s'.2.runs) (hi : run.id = run'.id)
    (hof : OfSchedule jobId run') : WasRun jobId run run' := by
  obtain ⟨hsa, hfi, -⟩ := (h.stored.frame (.single hstep.commits)).run_eq hr hr' hi.symm
  have ho : OfSchedule jobId run := ⟨hsa.jobId.symm.trans hof.1, hsa.owned.symm.trans hof.2⟩
  refine ⟨ho, ?_, fun hl => ?_⟩
  · obtain ⟨_, hr1, hi1, hp, -⟩ := hstep.planned h hr ho
    rw [eq_of_key hr' hr1 (hi.symm.trans hi1.symm)]
    exact hp.symm
  · by_contra hn
    rw [isLive_eq_true, Bool.not_eq_false] at hn
    rw [hfi hn, isLive_eq_true, hn] at hl
    cases hl

theorem LiveIsLast.step (hal : d.env.cron.WholeMicroseconds) (h : OnClock d s)
    (hj : IsRecurring jobId s.2) (hla : LiveIsLast jobId s₀ s)
    (hstep : ClockStep d (Leaves jobId) s s') : LiveIsLast jobId s₀ s' := by
  intro live hli ho hl run hr hof hre hne
  cases hstep.recurs hal h hj with
  | stays nobody =>
    obtain ⟨live0, hl0, hidl⟩ := nobody live hli ho
    obtain ⟨run0, hr0, hi⟩ := nobody run hr hof
    have hw := hstep.wasRun h hl0 hli hidl ho
    have hwr := hstep.wasRun h hr0 hr hi hof
    rw [← hw.planned, ← hwr.planned]
    refine hla live0 hl0 hw.of (hw.live hl) run0 hr0 hwr.of ?_ ?_
    · exact fun old hol hid => hre old hol (hid.trans hi)
    · rw [hidl, hi]
      exact hne
  | succeeds ended mem of endedLive gone next there _ _ _ afterPlanned _ only =>
    -- whoever is live and was there before is the run that has ended
    have hn : live = next := by
      refine only live hli ho (find?_eq_none.2 fun live0 hl0 hidl => ?_)
      have hw := hstep.wasRun h hl0 hli hidl ho
      obtain rfl := h.live_unique hj hl0 mem hw.of of (hw.live hl) endedLive
      obtain ⟨_, hr', hid, hte, -⟩ := gone
      rw [eq_of_key hli hr' (Eq.trans hidl.symm hid.symm), isLive_eq_true, hte] at hl
      cases hl
    have hol : ∃ run0 ∈ s.2.runs, run0.id = run.id := by
      by_contra hno
      refine hne ?_
      rw [hn, only run hr hof (find?_eq_none.2 fun run0 hr0 hid => hno
        ⟨run0, hr0, hid⟩)]
    obtain ⟨run0, hr0, hi⟩ := hol
    have hwr := hstep.wasRun h hr0 hr hi hof
    rw [hn, ← hwr.planned]
    by_cases hsa : run0.id = ended.id
    · rw [eq_of_key hr0 mem hsa]
      exact afterPlanned
    have hbe := hla ended mem of endedLive run0 hr0 hwr.of
      (fun old hol hid => hre old hol (hid.trans hi)) hsa
    omega

theorem liveIsLast_refl (h : OnClock d s₀) (hj : IsRecurring jobId s₀.2) : LiveIsLast jobId s₀ s₀ := by
  intro _ hli ho hl run hr hof hre hn
  have he := h.live_unique hj hr hli hof ho (hre run hr rfl) hl
  exact absurd (congrArg JobRun.id he) hn

theorem History.liveIsLast (hal : d.env.cron.WholeMicroseconds) (h : OnClock d s₀)
    (hj : IsRecurring jobId s₀.2) (hs : History d (Leaves jobId) s₀ s) :
    OnClock d s ∧ IsRecurring jobId s.2 ∧ LiveIsLast jobId s₀ s := by
  unfold History at hs
  induction hs with
  | refl => exact ⟨h, hj, liveIsLast_refl h hj⟩
  | tail _ last ih =>
    obtain ⟨hc, hr, hl⟩ := ih
    exact ⟨hc.step last, last.isRecurring hc hr, hl.step hal hc hr last⟩

/-- Who is made later is planned later. -/
structure PlannedInOrder (jobId : Uuid) (mid s : Int × Database) (run : JobRun) : Prop where
  kept : ∃ run' ∈ s.2.runs, run'.id = run.id ∧ run'.plannedAt = run.plannedAt ∧ OfSchedule jobId run'
  later : ∀ other ∈ s.2.runs, OfSchedule jobId other → mid.2.runs.find? other.id = none →
    run.plannedAt < other.plannedAt

theorem PlannedInOrder.step (hal : d.env.cron.WholeMicroseconds) (h : OnClock d s)
    (hj : IsRecurring jobId s.2) (hl : LiveIsLast jobId s₀ s)
    (hr : Recent s₀ run) (hor : PlannedInOrder jobId mid s run)
    (hstep : ClockStep d (Leaves jobId) s s') : PlannedInOrder jobId mid s' run := by
  obtain ⟨run1, hr1, hi1, hp1, ho1⟩ := hor.kept
  obtain ⟨run', hr', hi', hp', ho'⟩ := hstep.planned h hr1 ho1
  refine ⟨⟨run', hr', hi'.trans hi1, hp'.trans hp1, ho'⟩, ?_⟩
  intro other ho hof hn
  by_cases hol : ∃ other0 ∈ s.2.runs, other0.id = other.id
  · obtain ⟨other0, ho0, hi⟩ := hol
    have hw := hstep.wasRun h ho0 ho hi hof
    rw [← hw.planned]
    exact hor.later other0 ho0 hw.of (hi ▸ hn)
  have hfr : s.2.runs.find? other.id = none := find?_eq_none.2 fun row hro hi => hol ⟨row, hro, hi⟩
  cases hstep.recurs hal h hj with
  | stays nobody =>
    obtain ⟨row, hro, hi⟩ := nobody other ho hof
    exact absurd ⟨row, hro, hi⟩ hol
  | succeeds ended mem of endedLive gone next there new of_next scheduled afterPlanned afterEnd
    only =>
    rw [only other ho hof hfr, ← hp1]
    by_cases hsa : run1.id = ended.id
    · rw [eq_of_key hr1 mem hsa]
      exact afterPlanned
    have hbe := hl ended mem of endedLive run1 hr1 ho1
      (fun old hol hi => hr old hol (hi.trans hi1)) hsa
    omega

/-- The runs of one schedule over a history in which the job is not updated. -/
structure RecursInOrder (d : Deployment) (jobId : Uuid) (s₀ s : Int × Database) : Prop where
  increasing : ∀ mid, History d (Leaves jobId) s₀ mid → History d (Leaves jobId) mid s →
    ∀ run ∈ mid.2.runs, OfSchedule jobId run → Recent s₀ run → PlannedInOrder jobId mid s run
  transaction : ∀ s', ClockStep d (Leaves jobId) s s' → Recurs jobId s'.1 s.2 s'.2

/-- **While a recurring job is not updated and the clock does not go back, the planned instants of its
runs increase, and every run that ends while the job is there gets exactly one successor, planned after
it and after its end.** -/
theorem recurrence_without_backlog (haligned : d.env.cron.WholeMicroseconds) (h : OnClock d s₀)
    (hjob : IsRecurring jobId s₀.2) (hs : History d (Leaves jobId) s₀ s) :
    RecursInOrder d jobId s₀ s := by
  obtain ⟨hcl, hre, -⟩ := hs.liveIsLast haligned h hjob
  refine ⟨fun mid hbe hafter run hr hof hrece => ?_, fun s' hstep => hstep.recurs haligned hcl hre⟩
  clear hs hcl hre
  unfold History at hafter
  induction hafter with
  | refl =>
    refine ⟨⟨run, hr, rfl, rfl, hof⟩, fun other ho _ hn => ?_⟩
    exact absurd rfl (find?_eq_none.1 hn other ho)
  | tail hmi last ih =>
    have hfr : History d (Leaves jobId) s₀ _ := Relation.ReflTransGen.trans hbe hmi
    obtain ⟨hcl, hre, hl⟩ := hfr.liveIsLast haligned h hjob
    exact ih.step haligned hcl hre hl hrece last

/-! ## A history -/

/-- The reading and the call of a command that is one transaction. -/
def Command.reading : Command → Option (Int × Option Operation)
  | .manage amb op => some (amb.utcNow, some op)
  | .dispatch amb _ | .complete amb _ | .cancel amb _ _ => some (amb.utcNow, none)
  | .recover _ => none

theorem Command.commitAt {command : Command} {now : Int} {call : Option Operation}
    (hr : command.reading = some (now, call)) (h : command.apply d db = some db') :
    CommitAt d now call db db' := by
  cases command with
  | manage amb op =>
    cases hr
    obtain ⟨_, hy⟩ := committed_eq_some.1 h
    exact .manage amb rfl op db db' hy
  | dispatch amb runId =>
    cases hr
    obtain ⟨claim, hy⟩ := yields_of_committedClaim h
    exact .dispatch amb rfl _ runId claim db db' hy
  | complete amb completion =>
    cases hr
    obtain ⟨effect, hy⟩ := committed_eq_some.1 h
    exact .complete amb rfl completion effect db db' hy
  | cancel amb runId expected =>
    cases hr
    obtain ⟨_, hy⟩ := committed_eq_some.1 h
    exact .cancel amb rfl runId expected db db' hy
  | recover => cases hr

/-- Runs commands at a clock that does not go back. -/
def runClock (d : Deployment) (s : Int × Database) : List Command → Option (Int × Database)
  | [] => some s
  | command :: rest =>
    match command.reading, command.apply d s.2 with
    | some (now, _), some db' => if s.1 ≤ now then runClock d (now, db') rest else none
    | _, _ => none

theorem History.of_commands (commands : List Command)
    (hal : ∀ command ∈ commands, ∀ now call, command.reading = some (now, call) → Allowed call)
    (h : runClock d s commands = some s') : History d Allowed s s' := by
  induction commands generalizing s with
  | nil =>
    cases h
    exact .refl
  | cons command _ ih =>
    simp only [runClock] at h
    split at h
    next now call _ hr hap =>
      split at h
      next hle =>
        refine .head ⟨hle, call, hal command List.mem_cons_self now call hr, ?_⟩
          (ih (fun command' hm => hal command' (List.mem_cons_of_mem _ hm)) h)
        exact Command.commitAt hr hap
      · cases h
    · cases h

namespace Sample

/-- Every expression fires at the next whole minute. -/
def everyMinute : Deployment :=
  { deployment "blocking" with
    env :=
      { environment "blocking" with
        cron :=
          { validate := fun _ _ => .ok ()
            nextAfter := fun _ _ t => .ok ((t / 60000000000 + 1) * 60000000000) } } }

theorem everyMinute_aligned : everyMinute.env.cron.WholeMicroseconds := by
  intro _ _ _ _ h
  cases h
  unfold storedTime
  omega

/-- The run of a minute is started late and succeeds, and its successor is cancelled. -/
def minutePasses : List Command :=
  [.dispatch (ambient 90000000000 400) (uuid 302), .complete (ambient 95000000000 600)
    { key := ⟨uuid 302, 1⟩, outcome := .succeeded, result := ⟨"\x7b\x7d"⟩ },
    .cancel (ambient 96000000000 700) (uuid 601) .scheduled]

end Sample

theorem Leaves.background (jobId : Uuid) : Leaves jobId none := by
  rintro ⟨_, hc, -⟩
  cases hc

set_option maxRecDepth 100000 in
/-- Three runs of one schedule, each planned after the one before; no minute is made up for. -/
theorem recurrence_without_backlog_minutes : let d := everyMinute
    let s₀ := (runClock d (0, {}) jobCreated).getD (0, {})
    let s := (runClock d s₀ minutePasses).getD (0, {})
    s.2.runs.rows.map (fun run => (run.id, run.state, run.plannedAt)) =
      [(uuid 302, .succeeded, 60000000000), (uuid 601, .cancelled, 120000000000),
        (uuid 701, .scheduled, 180000000000)] ∧ RecursInOrder d (uuid 301) s₀ s := by
  intro d s₀ s
  have hst : History d AnyCall (0, {}) s₀ :=
    .of_commands jobCreated (fun _ _ _ _ _ => trivial)
      (eq_some_getD (by decide +kernel))
  have hj : IsRecurring (uuid 301) s₀.2 := by
    have hr : (s₀.2.jobs.rows.any fun job =>
      decide (job.id = uuid 301) && !job.schedule.isOnce) = true := by decide +kernel
    simp only [List.any_eq_true, Bool.and_eq_true, decide_eq_true_eq, Bool.not_eq_true'] at hr
    exact hr
  refine ⟨by decide +kernel, recurrence_without_backlog everyMinute_aligned ⟨0, hst⟩ hj
    (.of_commands minutePasses (fun command hc now call hre => ?_)
      (eq_some_getD (by decide +kernel)))⟩
  simp only [minutePasses, List.mem_cons, List.not_mem_nil, or_false] at hc
  rcases hc with rfl | rfl | rfl
  all_goals
    cases hre
    exact Leaves.background _

end Jobu
