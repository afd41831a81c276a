import Jobu.Consistency.Reachable
import Jobu.Trace

/-!
# The live runs of every job

What a job may have waiting or running, in every database the daemon can leave behind.

  > `live_runs_per_job`: at most one owned and one manual run, and which ones its state asks for.
  > `manual_run_holds_schedule`: while a manual run is live, the schedule waits.
-/

namespace Jobu

open Lib Scheduler JobRun Management Option Sample Bool

variable {d : Deployment} {db : Database}

/-- A live run of the job. -/
def liveOf (jobId : Uuid) (run : JobRun) : Bool := run.jobId = jobId && run.isLive

/-! ## How many -/

/-- The live runs of a job, counted. -/
structure LiveRuns (db : Database) (job : JobDefinition) : Prop where
  owned : db.runs.count (ownedBy job.id) ≤ 1
  manual : db.runs.count (manualOf job.id) ≤ 1
  cron : job.state ≠ .deleted → job.schedule.isOnce = false → db.runs.count (ownedBy job.id) = 1
  once : job.schedule.isOnce = true → job.state = .active ∨ job.state = .suspending ∨ job.state = .suspended →
    1 ≤ db.runs.count (liveOf job.id)
  ended : job.state = .succeeded ∨ job.state = .failed ∨ job.state = .cancelled ∨
    job.state = .deleted → db.runs.count (liveOf job.id) = 0

theorem Settled.liveRuns {job : JobDefinition} (h : Intact d.env db)
    (hs : Settled db.runs job) : LiveRuns db job := by
  obtain ⟨owned, manual, hw, hok⟩ := hs
  have hli : ∀ run, run ∈ owned ∨ run ∈ manual → run ∈ db.runs ∧ liveOf job.id run = true := by
    rintro run (hr | hr)
    · obtain ⟨hru, hi, hl, -⟩ := hw.isLive_owned hr
      exact ⟨hru, by simp [liveOf, isLive, hi, hl]⟩
    · obtain ⟨hru, hi, hl, -⟩ := hw.isLive_manual hr
      exact ⟨hru, by simp [liveOf, isLive, hi, hl]⟩
  refine ⟨?_, ?_, fun hn hc => ?_, fun _ hst => ?_, fun hst => ?_⟩
  · rw [hw.owned.count]
    cases owned <;> simp
  · rw [hw.manual.count]
    cases manual <;> simp
  · obtain ⟨run, rfl⟩ := isSome_iff_exists.1 (hok.recurring hn hc)
    rw [hw.owned.count]
    rfl
  · have hop : job.state ≠ .deleted ∧ job.state.isTerminal = false := by
      rcases hst with hst | hst | hst <;> rw [hst] <;> exact ⟨JobState.noConfusion, rfl⟩
    have hso : ∃ run, run ∈ owned ∨ run ∈ manual := by
      rcases hok.unfinished hop.1 hop.2 with ho | hm
      · obtain ⟨run, hr⟩ := isSome_iff_exists.1 ho
        exact ⟨run, .inl hr⟩
      · obtain ⟨run, hr⟩ := isSome_iff_exists.1 hm
        exact ⟨run, .inr hr⟩
    obtain ⟨run, hr⟩ := hso
    exact Table.count_pos.2 ⟨run, hli run hr⟩
  · have he : job.state = .deleted ∨ job.state.isTerminal = true := by
      rcases hst with hst | hst | hst | hst
      · exact .inr (by rw [hst]; rfl)
      · exact .inr (by rw [hst]; rfl)
      · exact .inr (by rw [hst]; rfl)
      · exact .inl hst
    obtain ⟨rfl, rfl⟩ := hok.ended he
    refine Table.count_eq_zero.2 fun run hru => eq_false_iff.2 fun hl => ?_
    simp only [liveOf, isLive, bool_steps] at hl
    rcases h.live_mem hw hru hl.1 hl.2 with ho | hm
    · cases ho
    · cases hm

/-- **In every stored database every job has the live runs its state asks for, and every live run
follows its job.** -/
theorem live_runs_per_job (h : Stored d db) : (∀ job ∈ db.jobs, LiveRuns db job) ∧
    ∀ run ∈ db.runs, run.isLive = true → ∃ job ∈ db.jobs, job.id = run.jobId ∧
      run.queueId = job.queueId ∧ run.jobRevision ≤ job.revision := by
  have hc := h.consistent
  refine ⟨fun job hjo => (hc.settled job hjo id).liveRuns hc, fun run hru hli => ?_⟩
  obtain ⟨job, hjo, hid, -⟩ := (hc.runs run hru).job
  have hl : run.state.isTerminal = false := by simpa [isLive] using hli
  have hfi := hc.live_fits hjo hru hid.symm hl
  exact ⟨job, hjo, hid, hfi.queue, hfi.revision⟩

namespace Sample

/-- A job is suspended, and its run made by Run Now has been started. -/
def manualRunning : List Command :=
  [.manage (ambient 0 100) (.createQueue { name := "a" }), .manage (ambient 0 300)
      (.createJob { queue := .id (uuid 101), schedule := .cron "* * * * *" none, payload := ⟨"\x7b\x7d"⟩ }),
    .manage (ambient 0 300) (.suspendJob (uuid 301)), .manage (ambient 0 400) (.runNow { jobId := uuid 301 }),
    .dispatch (ambient 0 500) (uuid 401)]

end Sample

set_option maxRecDepth 100000 in
/-- One job has both its live runs, the manual one running. -/
theorem live_runs_while_manual_runs :
    let db := (runTrace (Sample.deployment "blocking") {} Sample.manualRunning).getD {}
    db.jobs.rows.map JobDefinition.id = [uuid 301] ∧ db.runs.rows.map (fun run => (run.id, run.state)) =
      [(uuid 302, .scheduled), (uuid 401, .running)] ∧ (∀ job ∈ db.jobs, LiveRuns db job) ∧
    ∀ run ∈ db.runs, run.isLive = true → ∃ job ∈ db.jobs, job.id = run.jobId ∧
      run.queueId = job.queueId ∧ run.jobRevision ≤ job.revision :=
  ⟨by decide +kernel, by decide +kernel, live_runs_per_job (.of_trace (by decide +kernel))⟩

/-! ## The manual barrier -/

/-- A live manual run leaves the owned one waiting for its first attempt. -/
theorem Consistent.barrier {owned manual : JobRun} (h : Intact d.env db)
    (ho : owned ∈ db.runs) (how : owned.scheduleOwned = true) (hl : owned.state.isTerminal = false)
    (hm : manual ∈ db.runs) (hi : manual.jobId = owned.jobId) (hor : manual.origin = .manual)
    (hml : manual.state.isTerminal = false) : owned.state = .scheduled := by
  obtain ⟨job, hjo, hj, -⟩ := (h.runs owned ho).job
  obtain ⟨o, m, hw, hok⟩ := h.settled job hjo id
  obtain rfl : o = some owned := hw.owned.eq_some ho
    (by simp [ownedBy, isLiveOwned, isLive, hj, hl, how])
  obtain rfl : m = some manual := hw.manual.eq_some hm
    (by simp [manualOf, isLiveManual, isLive, hj, hi, hml, hor])
  exact hok.barrier rfl owned rfl

/-- A schedule-owned run that a claim starts has no live manual run beside it. -/
theorem claim_without_manual {amb : Ambient} {prepare : JobType → Json → Preparation} {runId : Uuid}
    {claim : Claim} {db' : Database} {run manual : JobRun} (h : Intact d.env db)
    (hy : Yields (claimSelected d.env amb prepare runId) db (some claim) db') (hr : run ∈ db.runs)
    (hi : run.id = runId) (how : run.scheduleOwned = true) (hm : manual ∈ db.runs)
    (hjo : manual.jobId = run.jobId) (hor : manual.origin = .manual) :
    manual.state.isTerminal = true := by
  obtain ⟨hk, _, row, job, _, hs⟩ := yields_claimSelected hy
  have he := hs.dispatchable.eligible
  obtain rfl : run = row.run := Table.eq_of_key hr he.mem.1 (hi.trans (hk.symm.trans he.mem.2.symm))
  obtain ⟨hj, hji⟩ := he.joined.ofJob
  obtain ⟨_, m, hw, -⟩ := h.settled job hj id
  have ho := he.owners
  rw [(h.runs _ hr).origin.2.1 how, h.siblingCounts_eq (hji ▸ hw)] at ho
  by_contra hl
  rw [not_eq_true] at hl
  obtain rfl : m = some manual := hw.manual.eq_some hm
    (by simp [manualOf, isLiveManual, isLive, hjo, hji, hl, hor])
  simp [Telemetry.eligibleOwners] at ho

/-- **A live manual run holds the schedule of its job: nothing owned runs beside it, nothing owned
starts beside it, and making it changes no owned run.** -/
theorem manual_run_holds_schedule (h : Stored d db) :
    (∀ owned ∈ db.runs, owned.scheduleOwned = true → owned.state = .running → ∀ manual ∈ db.runs,
      manual.jobId = owned.jobId → manual.origin = .manual →
      manual.state ≠ .scheduled ∧ manual.state ≠ .running ∧ manual.state ≠ .retryWait) ∧
    (∀ amb prepare runId claim db', Yields (claimSelected d.env amb prepare runId) db (some claim) db' →
      ∀ run ∈ db.runs, run.id = runId → run.scheduleOwned = true → ∀ manual ∈ db.runs,
        manual.jobId = run.jobId → manual.origin = .manual → manual.state.isTerminal = true) ∧
    (∀ amb request run db', Yields (runNow d.env d.codecs.runNow amb request) db run db' →
      ∀ owned ∈ db.runs, owned ∈ db'.runs ∧ db'.attemptsOf owned.id = db.attemptsOf owned.id) := by
  have hc := h.consistent
  refine ⟨fun owned ho how hrun manual hm hid hor => ?_,
    fun amb prepare runId claim db' hy run hru hid how manual hm hjo hor =>
      claim_without_manual hc hy hru hid how hm hjo hor, fun amb request run db' hy owned ho => ?_⟩
  · have hno : manual.state.isTerminal ≠ false := fun hli => by
      have := hc.barrier ho how (by rw [hrun]; rfl) hm hid hor hli
      rw [hrun] at this
      cases this
    refine ⟨fun hs => hno ?_, fun hs => hno ?_, fun hs => hno ?_⟩ <;> rw [hs] <;> rfl
  rcases runNow_moves hc hy with rfl | hr
  · exact ⟨ho, rfl⟩
  · refine ⟨(hr.inserted owned).2 (.inr ho), ?_⟩
    unfold Database.attemptsOf
    rw [hr.attempts]

set_option maxRecDepth 100000 in
/-- The schedule of a job whose manual run is running waits. -/
theorem schedule_waits_while_manual_runs : let d := Sample.deployment "blocking"
    let db := (runTrace d {} manualRunning).getD {}
    db.runs.rows.map (fun run => (run.id, run.scheduleOwned, run.state)) =
      [(uuid 302, true, .scheduled), (uuid 401, false, .running)] ∧
    (∀ owned ∈ db.runs, owned.scheduleOwned = true → owned.state = .running → ∀ manual ∈ db.runs,
      manual.jobId = owned.jobId → manual.origin = .manual →
      manual.state ≠ .scheduled ∧ manual.state ≠ .running ∧ manual.state ≠ .retryWait) ∧
    (∀ amb prepare runId claim db', Yields (claimSelected d.env amb prepare runId) db (some claim) db' →
      ∀ run ∈ db.runs, run.id = runId → run.scheduleOwned = true → ∀ manual ∈ db.runs,
        manual.jobId = run.jobId → manual.origin = .manual → manual.state.isTerminal = true) ∧
    (∀ amb request run db', Yields (runNow d.env d.codecs.runNow amb request) db run db' →
      ∀ owned ∈ db.runs, owned ∈ db'.runs ∧ db'.attemptsOf owned.id = db.attemptsOf owned.id) :=
  ⟨by decide +kernel, manual_run_holds_schedule (.of_trace (by decide +kernel))⟩

end Jobu
