import Jobu.Properties.Jobs

/-!
# Suspended means drained

A queue or job becomes suspended when the last of its running runs ends; until then it is
suspending.  Moving a job takes its running manual run along, and `move_job_impl` looks neither at
the run nor at what it leaves behind: the target may be suspended already, and the source may wait
for just this run.

  > `careful_histories_drain`: suspension means drained as long as no move takes such a run along.
-/

namespace Jobu

open Lib Scheduler Table Management Sample

variable {d : Deployment} {db db' : Database}

/-- Suspension against the running runs. -/
structure DrainedOwners (db : Database) : Prop where
  queueIdle : ∀ queue ∈ db.queues, queue.state = .suspended ∨ queue.state = .deleted →
    ∀ run ∈ db.runs, run.queueId = queue.id → run.state ≠ .running
  queueBusy : ∀ queue ∈ db.queues, queue.state = .suspending →
    ∃ run ∈ db.runs, run.queueId = queue.id ∧ run.state = .running
  jobIdle : ∀ job ∈ db.jobs, job.state = .suspended → ∀ run ∈ db.runs, run.jobId = job.id →
    run.scheduleOwned = true → run.state ≠ .running
  jobBusy : ∀ job ∈ db.jobs, job.state = .suspending → ∃ run ∈ db.runs, run.jobId = job.id ∧ run.state = .running

/-- The part that histories have to keep; the rest is in the agreement of a job with its runs. -/
structure Waiting (db : Database) : Prop where
  queues : ∀ queue ∈ db.queues, Drained db.runs queue
  jobs : ∀ job ∈ db.jobs, job.state = .suspending → ∃ run ∈ db.runs, run.jobId = job.id ∧ run.state = .running

theorem DrainedOwners.waiting (h : DrainedOwners db) : Waiting db :=
  ⟨fun queue hq => ⟨h.queueIdle queue hq, h.queueBusy queue hq⟩, h.jobBusy⟩

section

variable (h : Waiting db)

include h

theorem Waiting.drainedOwners (hc : Intact d.env db) : DrainedOwners db where
  queueIdle queue hq := (h.queues queue hq).idle
  queueBusy queue hq := (h.queues queue hq).busy
  jobIdle job hj hs run hru hi ho hr := by
    obtain ⟨owned, _, hw, hok⟩ := hc.settled job hj id
    obtain rfl : owned = some run := hw.owned.eq_some hru
      (by simp [ownedBy, JobRun.isLiveOwned, JobRun.isLive, hi, ho, hr, RunState.isTerminal])
    exact hok.suspended hs run rfl hr
  jobBusy := h.jobs

/-! ## One transaction -/

variable {touched : Uuid → Prop}

/-- The jobs of a transaction that touches some runs, as long as what it touches runs afterwards only
in its own job. -/
theorem Waiting.jobs_of_moves {moved : Uuid → Prop}
    (hm : Moves d.env touched moved db db') (job' : JobDefinition) (hj' : job' ∈ db'.jobs)
    (hs : job'.state = .suspending) : ∃ run ∈ db'.runs, run.jobId = job'.id ∧ run.state = .running := by
  rcases hm.jobs job' hj' hs with ⟨job, hj, hi, hsu, hfr⟩ | hbu
  · obtain ⟨run, hru, ho, hr⟩ := h.jobs job hj hsu
    have hn : ¬ touched run.id := fun ht => hfr run hru ht (ho.trans hi)
    obtain ⟨run', hr', hsa, hs', -⟩ := hm.frame.running hru hn hr
    exact ⟨run', hr', hsa.jobId.trans (ho.trans hi), hs'⟩
  · exact hbu

/-- The queues of a transaction that moves nothing. -/
theorem Waiting.queues_of_moves (hm : Moves d.env touched Nobody db db')
    (hto : ∀ run' ∈ db'.runs, touched run'.id → run'.state = .running → ∀ queue ∈ db'.queues,
      queue.id = run'.queueId → queue.state = .active) (queue' : Queue) (hq' : queue' ∈ db'.queues) :
    Drained db'.runs queue' := by
  rcases hm.queues queue' hq' with ⟨queue, hq, hid, hst, hfr⟩ | hd
  · have hbe := h.queues queue hq
    constructor
    · intro hs run' hru' hi hrun
      by_cases ht : touched run'.id
      · rw [hto run' hru' ht hrun queue' hq' hi.symm] at hs
        rcases hs with hs | hs <;> cases hs
      obtain ⟨run, hru, -, hr, hqu⟩ := hm.frame.was_running hru' ht hrun
      refine hbe.idle (hst ▸ hs) run hru ?_ hr
      rw [← hqu id, hi, hid]
    · intro hs
      obtain ⟨run, hru, hi, hr⟩ := hbe.busy (hst.trans hs)
      have hn : ¬ touched run.id := fun ht => hfr hs run hru ht (hi.trans hid)
      obtain ⟨run', hru', -, hr', hqu⟩ := hm.frame.running hru hn hr
      exact ⟨run', hru', (hqu id).trans (hi.trans hid), hr'⟩
  · exact hd

/-- A transaction that starts nothing and moves nothing. -/
theorem Waiting.stops (hst : Stops d.env touched db db') : Waiting db' :=
  ⟨h.queues_of_moves hst.moves fun run' hr' ht hr => absurd hr (hst.stopped run' hr' ht),
    h.jobs_of_moves hst.moves⟩

/-- A start: the queue of the run is active. -/
theorem Waiting.claims {claim : Claim} (hc : Claims d.env claim db db') : Waiting db' :=
  ⟨h.queues_of_moves hc.moves fun run' hr' ht _ => hc.active run' hr' ht, h.jobs_of_moves hc.moves⟩

/-- Every transaction of the daemon itself keeps it. -/
theorem Waiting.background (hc : Intact d.env db) (hb : Background d db db') : Waiting db' := by
  rcases hb.effect hc with ⟨_, hst⟩ | ⟨_, hcl⟩
  · exact h.stops hst
  · exact h.claims hcl

end

/-! ## Moves -/

/-- A move that is safe: no run of the job is running, or the queue it goes to is active and the one
it leaves does not wait for this job alone. -/
def MoveOk (env : Environment) (db : Database) (request : Management.MoveJobRequest) : Prop :=
  ∀ job ∈ db.jobs, job.id = request.jobId → ∀ target,
    Yields (Management.findQueue env request.targetQueue false) db (some target) db →
    (∀ run ∈ db.runs, run.jobId = job.id → run.state ≠ .running) ∨
    (target.state = .active ∧ ∀ source ∈ db.queues, source.id = job.queueId → source.state = .suspending →
      ∃ run ∈ db.runs, run.queueId = source.id ∧ run.jobId ≠ job.id ∧ run.state = .running)

/-- **A committed move keeps suspension drained exactly when it is safe.** -/
theorem Waiting.move_iff {amb : Ambient} {request : MoveJobRequest} (h : Waiting db)
    (hc : Intact d.env db) (hy : Yields ((Operation.moveJob request).run d amb) db () db') :
    Waiting db' ↔ MoveOk d.env db request := by
  obtain ⟨_, hy⟩ := yields_ignoring hy
  obtain ⟨_, hfo, hm⟩ := moveJob_moves hc hy
  obtain ⟨job, hj, target', hta, hid, hti, hne, hts, hmo⟩ := hm.target
  obtain ⟨-, htm, -⟩ := yields_findQueue_some hfo
  obtain rfl := eq_of_key hta htm hti
  have hfr := hm.moves.frame
  have hl : ∀ {run : JobRun}, run.state = .running → run.state.isTerminal = false := fun hr => by
    rw [hr]
    rfl
  constructor
  · intro h' job1 hj1 hi1 target1 hf1
    obtain rfl := eq_of_key hj1 hj (hi1.trans hid.symm)
    obtain rfl := Option.some.inj (Yields.unique hf1 hfo).1
    by_cases hbu : ∃ run ∈ db.runs, run.jobId = job1.id ∧ run.state = .running
    · right
      obtain ⟨run, hru, how, hr⟩ := hbu
      obtain ⟨run', hru', hsa, hr', -⟩ := hfr.running hru id hr
      have hin := hmo run' hru' (hsa.jobId.trans (how.trans hid)) (hl hr')
      refine ⟨hts.resolve_right fun hs => ?_, fun source hso hsi hs => ?_⟩
      · exact (h'.queues target1 (hm.queues ▸ htm)).idle (.inl hs) run' hru' hin hr'
      obtain ⟨other', ho', hoi, hor'⟩ := (h'.queues source (hm.queues ▸ hso)).busy hs
      obtain ⟨other, hot, hos, hor, hoq⟩ := hfr.was_running ho' id hor'
      have hn : other.jobId ≠ request.jobId := fun ho => by
        refine hne ?_
        rw [← hsi, ← hoi, hmo other' ho' (hos.jobId.trans ho) (hl hor')]
      exact ⟨other, hot, (hoq hn).symm.trans hoi, fun ho => hn (ho.trans hid), hor⟩
    · left
      exact fun run hru how hr => hbu ⟨run, hru, how, hr⟩
  · intro hok
    have hok := hok job hj hid target' hfo
    refine ⟨fun queue' hq' => ⟨fun hs run' hru' hin hr' => ?_, fun hs => ?_⟩, h.jobs_of_moves hm.moves⟩
    · obtain ⟨run, hru, hsa, hr, hq⟩ := hfr.was_running hru' id hr'
      rw [hm.queues] at hq'
      by_cases how : run.jobId = request.jobId
      · rcases hok with hi | ⟨hac, -⟩
        · exact hi run hru (how.trans hid.symm) hr
        have hqi : queue'.id = target'.id :=
          hin.symm.trans (hmo run' hru' (hsa.jobId.trans how) (hl hr'))
        obtain rfl := eq_of_key hq' htm hqi
        rw [hac] at hs
        rcases hs with hs | hs <;> cases hs
      · exact (h.queues queue' hq').idle hs run hru ((hq how).symm.trans hin) hr
    · rw [hm.queues] at hq'
      obtain ⟨run, hru, hin, hr⟩ := (h.queues queue' hq').busy hs
      have hst : ∀ r ∈ db.runs, r.queueId = queue'.id → r.jobId ≠ request.jobId →
          r.state = .running → ∃ run' ∈ db'.runs, run'.queueId = queue'.id ∧ run'.state = .running := by
        intro r hr' hri hn hrs
        obtain ⟨run', hru', -, hs', hq⟩ := hfr.running hr' id hrs
        exact ⟨run', hru', (hq hn).trans hri, hs'⟩
      by_cases how : run.jobId = request.jobId
      · rcases hok with hi | ⟨-, hoth⟩
        · exact absurd hr (hi run hru (how.trans hid.symm))
        · have hfi := hc.live_fits hj hru (how.trans hid.symm) (hl hr)
          obtain ⟨other, hot, hoi, hon, hor⟩ := hoth queue' hq' (hin.symm.trans hfi.queue) hs
          exact hst other hot hoi (fun ho => hon (ho.trans hid.symm)) hor
      · exact hst run hru hin how hr

/-! ## Histories -/

/-- A committed transaction whose moves are safe. -/
inductive CarefulCommit (d : Deployment) (db : Database) : Database → Prop
  | manage (amb : Ambient) (op : Operation) (db' : Database)
      (yields : Yields (op.run d amb) db () db')
      (careful : ∀ request, op = .moveJob request → MoveOk d.env db request) : CarefulCommit d db db'
  | background (db' : Database) (transaction : Background d db db') : CarefulCommit d db db'

/-- The databases that such transactions lead to from the empty one. -/
def CarefullyStored (d : Deployment) (db : Database) : Prop :=
  Relation.ReflTransGen (CarefulCommit d) {} db

theorem CarefulCommit.commit (h : CarefulCommit d db db') : Commit d db db' := by
  cases h with
  | manage amb op _ hy => exact .manage amb op _ hy
  | background _ hb => exact .background _ hb

theorem CarefullyStored.stored (h : CarefullyStored d db) : Stored d db :=
  Relation.ReflTransGen.mono (fun _ _ => CarefulCommit.commit) _ _ h

theorem Waiting.careful (h : Waiting db) (hc : Intact d.env db)
    (hco : CarefulCommit d db db') : Waiting db' := by
  cases hco with
  | manage _ _ _ hy careful =>
    rcases Operation.moves hc hy with hm | ⟨request, _, rfl, -, -⟩
    · exact h.stops hm.stops
    · exact (h.move_iff hc hy).2 (careful request rfl)
  | background _ hb => exact h.background hc hb

theorem waiting_empty : Waiting {} :=
  ⟨fun queue hq => absurd hq (not_mem_empty queue), fun job hj => absurd hj (not_mem_empty job)⟩

theorem CarefullyStored.waiting (h : CarefullyStored d db) : Waiting db := by
  unfold CarefullyStored at h
  induction h with
  | refl => exact waiting_empty
  | tail hbe hl ih => exact ih.careful (CarefullyStored.stored hbe).consistent hl

/-- **As long as no move takes a running run into a suspended queue or away from a queue that waits
for it alone, suspension means drained; and a move that does breaks it at once.** -/
theorem careful_histories_drain (d : Deployment) : (∀ db, CarefullyStored d db → DrainedOwners db) ∧
    ∀ db db' amb request, Stored d db → DrainedOwners db → Yields ((Operation.moveJob request).run d amb) db () db' →
      (DrainedOwners db' ↔ MoveOk d.env db request) := by
  refine ⟨fun db h => h.waiting.drainedOwners h.stored.consistent, fun db db' amb request hs h hy => ?_⟩
  have hc' : Consistent d.env Nobody Nobody db' :=
    Stored.consistent (hs.tail (.manage amb (.moveJob request) db' hy))
  rw [← h.waiting.move_iff hs.consistent hy]
  exact ⟨DrainedOwners.waiting, fun hw => hw.drainedOwners hc'⟩

namespace Sample

/-- The suspended job with its running manual run is moved into a suspended queue. -/
def moveIntoSuspended : List Command :=
  [.manage (ambient 0 200) (.createQueue { name := "b" }),
    .manage (ambient 0 600) (.suspendQueue (.id (uuid 201))), .manage (ambient 0 700)
      (.moveJob { jobId := uuid 301, expectedRevision := 3, targetQueue := .id (uuid 201) })]

end Sample

set_option maxRecDepth 100000 in
/-- A suspended queue with a running run. -/
theorem suspended_queue_with_running_run : let d := Sample.deployment "blocking"
    let db := (runTrace d {} (manualRunning ++ moveIntoSuspended)).getD {}
    Stored d db ∧ (∃ queue ∈ db.queues, queue.state = .suspended ∧
      ∃ run ∈ db.runs, run.queueId = queue.id ∧ run.state = .running) ∧ ¬ DrainedOwners db := by
  intro d db
  have hba : ∃ queue ∈ db.queues.rows, queue.state = .suspended ∧
      ∃ run ∈ db.runs.rows, run.queueId = queue.id ∧ run.state = .running := by decide +kernel
  refine ⟨.of_trace (by decide +kernel), hba, fun h => ?_⟩
  obtain ⟨queue, hq, hs, run, hru, hin, hr⟩ := hba
  exact h.queueIdle queue hq (.inl hs) run hru hin hr

/-- The command moves no job. -/
def Command.movesNothing : Command → Bool
  | .manage _ (.moveJob _) => false
  | _ => true

theorem CarefullyStored.of_trace {commands : List Command} (hn : commands.all Command.movesNothing = true)
    (h : (runTrace d {} commands).isSome = true) :
    CarefullyStored d ((runTrace d {} commands).getD {}) := by
  refine runTrace_steps (eq_some_getD h) fun command hm db db' hc => ?_
  rcases Command.effect hc with ⟨amb, op, rfl, hy⟩ | hb
  · refine .single (.manage amb op db' hy fun request ho => ?_)
    subst ho
    cases List.all_eq_true.1 hn _ hm
  · exact Relation.ReflTransGen.mono (fun _ db' => .background db') _ _ hb

set_option maxRecDepth 100000 in
/-- Two queues, one of them suspended, and a suspended job whose manual run is running in the other:
all is drained until the job is moved, and not any more then. -/
theorem drained_until_the_move : let d := Sample.deployment "blocking"
    let before := manualRunning ++ moveIntoSuspended.dropLast
    let db := (runTrace d {} before).getD {}
    db.runs.rows.map (fun run => (run.id, run.state)) =
      [(uuid 302, .scheduled), (uuid 401, .running)] ∧ DrainedOwners db ∧
    ∀ amb request db', Yields ((Operation.moveJob request).run d amb) db () db' →
      (DrainedOwners db' ↔ MoveOk d.env db request) := by
  intro d before db
  have hso : (runTrace d {} before).isSome = true := by decide +kernel
  have hd := (careful_histories_drain d).1 db (.of_trace (by decide) hso)
  exact ⟨by decide +kernel, hd, fun amb request db' hy =>
    (careful_histories_drain d).2 db db' amb request (.of_trace hso) hd hy⟩

end Jobu
