import Jobu.Changes.Runs
import Jobu.Properties.Revisions

/-!
# What histories leave as it is

A run that has been started executes what it was started with, a deleted owner is never written again,
and a stored reply stays and keeps the rows it answers with.
-/

namespace Jobu

open Lib Table

variable {d : Deployment} {env : Environment} {caller : Caller} {now : Int} {db db' : Database}

/-! ## Started runs -/

/-- What a run executes, for whom and since when. -/
def JobRun.work (run : JobRun) :=
  (run.id, run.jobId, run.type, run.payload, run.attributes, run.priority, run.plannedAt, run.origin,
    run.scheduleOwned)

/-- A started run still has its work. -/
structure Executes (run run' : JobRun) : Prop where
  begun : run'.state ≠ .scheduled
  work : run'.work = run.work
  started : ∀ t ∈ run.startedAt, t ∈ run'.startedAt

theorem RunWrite.executes {run run' : JobRun} (hs : run.state ≠ .scheduled)
    (h : RunWrite caller now db run run') : Executes run run' := by
  cases h with
  | kept | moved => exact ⟨hs, rfl, fun _ ht => ht⟩
  | cancelled => exact ⟨RunState.noConfusion, rfl, fun _ ht => ht⟩
  | refreshed job _ _ _ _ unstarted =>
    -- only a run that waits for its first attempt follows an edit of its job
    simp only [Runs.unstarted, bool_steps] at unstarted
    exact absurd unstarted.1.2 hs
  | started =>
    refine ⟨RunState.noConfusion, rfl, fun t ht => ?_⟩
    rw [Option.mem_def] at ht
    simp [Scheduler.started, ht]
  | retrying => exact ⟨RunState.noConfusion, rfl, fun _ ht => ht⟩
  | ended _ _ terminal =>
    refine ⟨?_, rfl, fun _ ht => ht⟩
    rintro rfl
    cases terminal

theorem Executes.change {run : JobRun} (hc : Change env caller now db db')
    (h : ∃ row ∈ db.runs, Executes run row) : ∃ row ∈ db'.runs, Executes run row := by
  obtain ⟨row, hro, he⟩ := h
  obtain ⟨row', hr', hw⟩ := hc.runs.next row hro
  have hn := hw.executes he.begun
  exact ⟨row', hr', hn.begun, hn.work.trans he.work, fun t ht => hn.started t (he.started t ht)⟩

/-- **What has been started or deleted is final.** -/
theorem begun_and_deleted_rows_stay (d : Deployment) :
    (∀ db db', Stored d db → Commits d db db' → ∀ run ∈ db.runs, run.state ≠ .scheduled →
      ∃ run' ∈ db'.runs, Executes run run') ∧
    ∀ db db', Stored d db → Commits d db db' →
      (∀ queue ∈ db.queues, queue.state = .deleted → queue ∈ db'.queues) ∧
      ∀ job ∈ db.jobs, job.state = .deleted → job ∈ db'.jobs := by
  refine ⟨fun db db' hs h run hru hn => ?_, fun db db' hs h => ⟨fun queue hq hd => ?_, fun job hj hd => ?_⟩⟩
  · exact h.preserve hs (fun _ _ _ _ hc => Executes.change hc) ⟨run, hru, hn, rfl, fun _ ht => ht⟩
  · obtain ⟨_, _, hr, hw, -⟩ := (h.evolves hs).queues.kept queue hq
    exact hw.eq_of_final (fun _ hw => hw.live hd) ▸ hr
  · obtain ⟨_, _, hr, hw, -⟩ := (h.evolves hs).jobs.kept job hj
    exact hw.eq_of_final (fun _ hw => hw.live hd) ▸ hr

/-! ## Stored replies -/

theorem Answers.change {record record' : IdempotencyRecord} (h : Answers db record)
    (hm : record'.method = record.method) (hs : record'.scopeId = record.scopeId)
    (hr : record'.resourceId = record.resourceId) (hc : Change env caller now db db') :
    Answers db' record' := by
  have hqueue : ∀ queue ∈ db.queues, ∃ queue' ∈ db'.queues, queue'.id = queue.id := fun queue hq => by
    obtain ⟨_, queue', hq', hw, -⟩ := hc.evolves.queues.kept queue hq
    exact ⟨queue', hq', hw.key_eq queueWrite_raises⟩
  have hjob : ∀ job ∈ db.jobs, ∃ job' ∈ db'.jobs, job'.id = job.id := fun job hj => by
    obtain ⟨_, job', hj', hw, -⟩ := hc.evolves.jobs.kept job hj
    exact ⟨job', hj', hw.key_eq jobWrite_raises⟩
  cases h with
  | queue method scope queue mem id =>
    obtain ⟨queue', hq', hid⟩ := hqueue queue mem
    exact .queue (hm.trans method) (hs.trans scope) queue' hq' (hid.trans (id.trans hr.symm))
  | job method queue scope scopeId job mem id =>
    obtain ⟨queue', hq', hqi⟩ := hqueue queue scope
    obtain ⟨job', hj', hji⟩ := hjob job mem
    exact .job (hm.trans method) queue' hq' (hqi.trans (scopeId.trans hs.symm)) job' hj' (hji.trans (id.trans hr.symm))
  | run method job scope scopeId run mem id owner manual =>
    obtain ⟨job', hj', hji⟩ := hjob job scope
    obtain ⟨run', hr', hw⟩ := hc.runs.next run mem
    have hwork : run'.jobId = run.jobId ∧ run'.origin = run.origin := by cases hw <;> exact ⟨rfl, rfl⟩
    exact .run (hm.trans method) job' hj' (hji.trans (scopeId.trans hs.symm)) run' hr'
      (hw.id_eq.1.trans (id.trans hr.symm)) (hwork.1.trans (owner.trans hs.symm))
      ⟨hwork.2.trans manual.1, hw.id_eq.2.2.trans manual.2⟩

/-- The stored replies: one per key, and each about rows that are there. -/
structure RepliesOk (db : Database) : Prop where
  answers : ∀ record ∈ db.idempotency, Answers db record
  unique : db.idempotency.Pairwise fun a b => Idempotency.matchesKey a.method a.scopeId a.key b = false

theorem RepliesOk.change (hc : Change env caller now db db') (h : RepliesOk db) : RepliesOk db' := by
  have hold := fun record hr => (h.answers record hr).change rfl rfl rfl hc
  have hch := hc
  cases hc with
  | replied _ free _ answers =>
    refine ⟨List.forall_mem_cons.2 ⟨answers.change rfl rfl rfl hch, hold⟩,
      List.pairwise_cons.2 ⟨fun r hr => ?_, h.unique⟩⟩
    simpa using List.find?_eq_none.1 free r hr
  | _ => exact ⟨hold, h.unique⟩

theorem idempotency_of_change (hc : Change env caller now db db') : db.idempotency <:+ db'.idempotency := by
  cases hc with
  | replied => exact List.suffix_cons _ _
  | _ => exact List.suffix_refl _

/-- **Stored replies stay, one per key, and what they answer with exists.** -/
theorem stored_replies_resolve (d : Deployment) : (∀ db, Stored d db → RepliesOk db) ∧
    ∀ db db', Stored d db → Commits d db db' → db.idempotency <:+ db'.idempotency := by
  refine ⟨fun db hs => ?_, fun db db' hs h => ?_⟩
  · exact hs.preserve ⟨fun _ hr => absurd hr List.not_mem_nil, .nil⟩ fun _ _ _ _ => RepliesOk.change
  · exact h.preserve hs (fun _ _ _ _ hc hb => List.IsSuffix.trans hb (idempotency_of_change hc)) (List.suffix_refl _)

end Jobu
