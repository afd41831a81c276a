import Jobu.Changes.Background
import Jobu.Lib.Versioned
import Jobu.Trace

/-!
# Revisions

The revision of a queue or a job counts the statements that wrote its row.  A client that sends the
revision it read therefore sends the whole row: if the update is applied, the row is the one the
client read, and nothing wrote it in between, whoever was at work.

  > `Change.evolves`: one change, over all its kinds.
  > `expected_revision_guards`: the same along every history.
-/

namespace Jobu

open Lib Scheduler Management Jobs

open Keyed (key)

/-- The queue and job rows, as rows with versions. -/
structure OwnersEvolve (db db' : Database) : Prop where
  queues : Evolves QueueWrite Queue.revision db.queues db'.queues
  jobs : Evolves JobWrite JobDefinition.revision db.jobs db'.jobs

theorem queueWrite_raises : RaisesVersion QueueWrite Queue.revision where
  key h := h.revision.1
  next h := h.revision.2

theorem jobWrite_raises : RaisesVersion JobWrite JobDefinition.revision where
  key h := h.revision.1
  next h := h.revision.2.2

namespace OwnersEvolve

variable {db db1 db' : Database}

theorem refl (db : Database) : OwnersEvolve db db := ⟨.refl _, .refl _⟩

theorem trans (h₁ : OwnersEvolve db db1) (h₂ : OwnersEvolve db1 db') : OwnersEvolve db db' :=
  ⟨h₁.queues.trans queueWrite_raises h₂.queues, h₁.jobs.trans jobWrite_raises h₂.jobs⟩

theorem of_queues (h : Evolves QueueWrite Queue.revision db.queues db'.queues)
    (hj : db'.jobs = db.jobs) : OwnersEvolve db db' := by
  refine ⟨h, ?_⟩
  rw [hj]
  exact .refl _

theorem of_jobs (h : Evolves JobWrite JobDefinition.revision db.jobs db'.jobs)
    (hq : db'.queues = db.queues) : OwnersEvolve db db' := by
  refine ⟨?_, h⟩
  rw [hq]
  exact .refl _

end OwnersEvolve

variable {d : Deployment} {env : Environment} {caller : Caller} {now : Int} {db db' : Database}

/-! ## Along changes -/

theorem Change.evolves (h : Change env caller now db db') : OwnersEvolve db db' := by
  cases h with
  | queueInserted _ free first => exact .of_queues (.insert free first) rfl
  | queueWritten _ mem _ hf write => exact .of_queues (.modify queueWrite_raises hf mem write) rfl
  | queueErased _ mem suspended _ internalName originalName =>
    refine ⟨.modify queueWrite_raises (Queues.key_deleted _ _ _ _) mem
      (.deleted internalName originalName now suspended), ?_⟩
    refine .update jobWrite_raises (fun job => key_deleted _ now job) fun job _ hi => ?_
    simp only [inQueue, bool_steps] at hi
    exact .deleted now hi.1.2
  | jobInserted _ _ free first => exact .of_jobs (.insert free first) rfl
  | jobRedefined _ replacement _ mem _ next _ live =>
    exact .of_jobs (.modify jobWrite_raises (key_redefined replacement) mem (.redefined replacement next live)) rfl
  | jobEntered _ mem next time live _ moves =>
    exact .of_jobs (.modify jobWrite_raises (key_entered _ _ _) mem (.entered next time live moves)) rfl
  | jobMoved _ mem suspended target _ _ elsewhere =>
    exact .of_jobs (.modify jobWrite_raises (key_moved _ _ _) mem (.moved target.id now elsewhere suspended)) rfl
  | jobDeleted _ mem live =>
    exact .of_jobs (.modify jobWrite_raises (key_deleted _ _) mem (.deleted now live)) rfl
  | _ => exact .of_jobs (.refl _) rfl

/-! ## Along histories -/

theorem Commits.evolves (hs : Stored d db) (h : Commits d db db') : OwnersEvolve db db' :=
  h.preserve hs (fun _ _ _ _ hc hbe => hbe.trans hc.evolves) (.refl db)

/-- The row is in every database between the two. -/
def Untouched {R K : Type} [Keyed R K] [LinearOrder K] (d : Deployment) (table : Database → Table R)
    (row : R) (db db' : Database) : Prop :=
  ∀ mid, Commits d db mid → Commits d mid db' → row ∈ table mid

theorem queue_untouched {row row' : Queue} (hs : Stored d db) (hr : row ∈ db.queues)
    (hr' : row' ∈ db'.queues) (hi : row'.id = row.id) (hre : row'.revision = row.revision) :
    Untouched d Database.queues row db db' := by
  intro mid hbe hafter
  have hm : Stored d mid := Relation.ReflTransGen.trans hs hbe
  exact (hbe.evolves hs).queues.mem_between queueWrite_raises (hafter.evolves hm).queues hr
    hr' hi hre

theorem job_untouched {row row' : JobDefinition} (hs : Stored d db) (hr : row ∈ db.jobs)
    (hr' : row' ∈ db'.jobs) (hi : row'.id = row.id) (hre : row'.revision = row.revision) :
    Untouched d Database.jobs row db db' := by
  intro mid hbe hafter
  have hm : Stored d mid := Relation.ReflTransGen.trans hs hbe
  exact (hbe.evolves hs).jobs.mem_between jobWrite_raises (hafter.evolves hm).jobs hr
    hr' hi hre

/-- A revision a client read belongs to one row only, then and later. -/
structure RevisionsIdentify (db db' : Database) : Prop where
  queues : ∀ row ∈ db.queues, ∀ row' ∈ db'.queues, row'.id = row.id →
    row.revision ≤ row'.revision ∧ (row'.revision = row.revision → row' = row)
  jobs : ∀ row ∈ db.jobs, ∀ row' ∈ db'.jobs, row'.id = row.id →
    row.revision ≤ row'.revision ∧ (row'.revision = row.revision → row' = row)

theorem OwnersEvolve.identify (h : OwnersEvolve db db') : RevisionsIdentify db db' := by
  refine ⟨fun row hr row' hr' hi => ?_, fun row hr row' hr' hi => ?_⟩
  · obtain ⟨n, -, _⟩ := h.queues.writes queueWrite_raises hr hr' hi
    exact ⟨by omega, h.queues.eq_of_version queueWrite_raises hr hr' hi⟩
  · obtain ⟨_, -, _⟩ := h.jobs.writes jobWrite_raises hr hr' hi
    exact ⟨by omega, h.jobs.eq_of_version jobWrite_raises hr hr' hi⟩

/-- The operations that carry a revision are applied only to the row the client read. -/
structure RevisionsGuard (d : Deployment) (db db' : Database) : Prop where
  updateQueue : ∀ amb request queue db'', Yields (Management.updateQueue d.env amb request) db' queue db'' →
    ∀ row ∈ db.queues, row.id = queue.id → row.revision = request.expectedRevision →
      Untouched d Database.queues row db db'
  updateJob : ∀ amb request job db'', Yields (Management.updateJob d.env amb request) db' job db'' →
    ∀ row ∈ db.jobs, row.id = request.jobId → row.revision = request.expectedRevision →
      Untouched d Database.jobs row db db'
  moveJob : ∀ amb request job db'', Yields (Management.moveJob d.env amb request) db' job db'' →
    ∀ row ∈ db.jobs, row.id = request.jobId → row.revision = request.expectedRevision →
      Untouched d Database.jobs row db db'
  deleteJob : ∀ amb request db'', Yields (Management.deleteJob d.env amb request) db' () db'' →
    ∀ row ∈ db.jobs, row.id = request.jobId → row.revision = request.expectedRevision →
      Untouched d Database.jobs row db db'

/-- **Revisions count the writes of a row from 1 on, so a request that carries the revision a client
read is applied only if nothing wrote the row since.** -/
theorem expected_revision_guards (hs : Stored d db) (h : Commits d db db') :
    OwnersEvolve db db' ∧ RevisionsIdentify db db' ∧ RevisionsGuard d db db' := by
  have hev := h.evolves hs
  refine ⟨hev, hev.identify, ⟨?_, ?_, ?_, ?_⟩⟩
  · intro amb request queue' db'' hy row hr hid hre
    obtain ⟨-, queue, hqu, he, -, rfl⟩ :
        Changes d.env Anyone amb.utcNow db' db'' ∧ _ := updateQueue_changes hy
    exact queue_untouched hs hr hqu hid.symm (he.trans hre.symm)
  · intro amb request job' db'' hy row hr hid hre
    obtain ⟨-, job, hj, hji, he⟩ : Changes d.env Anyone amb.utcNow db' db'' ∧ _ :=
      updateJob_changes trivial hy
    exact job_untouched hs hr hj (hji.trans hid.symm) (he.trans hre.symm)
  · intro amb request job' db'' hy row hr hid hre
    obtain ⟨-, job, hj, hji, he⟩ : Changes d.env Anyone amb.utcNow db' db'' ∧ _ :=
      moveJob_changes hy
    exact job_untouched hs hr hj (hji.trans hid.symm) (he.trans hre.symm)
  · intro amb request db'' hy row hr hid hre
    obtain ⟨-, job, hj, hji, he⟩ : Changes d.env Anyone amb.utcNow db' db'' ∧ _ :=
      deleteJob_changes hy
    exact job_untouched hs hr hj (hji.trans hid.symm) (he.trans hre.symm)

namespace Sample

/-- A job that a client reads. -/
def jobCreated : List Command :=
  [.manage (ambient 0 100) (.createQueue { name := "a" }), .manage (ambient 0 300)
      (.createJob { queue := .id (uuid 101), schedule := .cron "* * * * *" none, payload := ⟨"\x7b\x7d"⟩ })]

/-- Its run is started, the job is suspended meanwhile, and the completion drains it. -/
def jobDrained : List Command :=
  [.dispatch (ambient 90000000000 400) (uuid 302), .manage (ambient 90000000000 500) (.suspendJob (uuid 301)),
    .complete (ambient 95000000000 600)
      { key := ⟨uuid 302, 1⟩, outcome := .succeeded, result := ⟨"\x7b\x7d"⟩ }]

end Sample

set_option maxRecDepth 100000 in
/-- Between the two readings the scheduler wrote the row too, so the old revision is refused. -/
theorem expected_revision_guards_drained_job : let d := Sample.deployment "blocking"
    let db := (runTrace d {} Sample.jobCreated).getD {}
    let db' := (runTrace d db Sample.jobDrained).getD {}
    db.jobs.rows.map (fun job => (job.revision, job.state)) = [(1, .active)] ∧
    db'.jobs.rows.map (fun job => (job.revision, job.state)) = [(3, .suspended)] ∧
    OwnersEvolve db db' ∧ RevisionsIdentify db db' ∧ RevisionsGuard d db db' :=
  ⟨by decide +kernel, by decide +kernel, expected_revision_guards (.of_trace (by decide +kernel))
    (runTrace_steps (eq_some_getD (by decide +kernel)) fun _ _ _ _ => Command.commits)⟩

end Jobu
