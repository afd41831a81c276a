import Jobu.Recovery.Startup

/-!
# What a pass of recovery does

A pass visits one table page by page and commits a unit for each row that needs one.  The scan
rules of `visitPages` carry over to `visit`, because between two reads only the count of readings
moves.
-/

namespace Jobu

open Lib

namespace Recovery

variable {inputs : Inputs}

/-- The data are the same; readings may have been counted. -/
structure SameData (s s' : State) : Prop where
  db : s'.db = s.db
  report : s'.report = s.report

theorem SameData.refl (s : State) : SameData s s := ⟨rfl, rfl⟩

/-! ## Units -/

variable {u : Unit} {s s' : State}

theorem yields_checkStop : Yields (checkStop inputs) s u s' ↔
      inputs.shouldStop s.polls = false ∧ s' = { s with polls := s.polls + 1 } := by
  simp only [checkStop, yields_steps]
  constructor
  · rintro ⟨_, _, ⟨rfl, rfl⟩, _, _, rfl, hst, rfl⟩
    exact ⟨hst, rfl⟩
  · rintro ⟨hst, rfl⟩
    exact ⟨_, _, ⟨rfl, rfl⟩, (), _, rfl, hst, rfl⟩

theorem yields_onDatabase {α : Type} {x : Txn α} {a : α} :
    Yields (onDatabase x) s a s' ↔ ∃ db', Yields x s.db a db' ∧ s' = { s with db := db' } :=
  yields_zoom _ _ _ _ _ _

theorem accumulate_ok {report delta next : Report} : accumulate report delta = .ok next ↔
      (∀ counter ∈ (report.add delta).counters, counter < 2 ^ 64) ∧ next = report.add delta := by
  simp only [accumulate, except_steps]
  constructor
  · rintro ⟨_, hfi, h⟩
    exact ⟨hfi, h⟩
  · rintro ⟨hfi, h⟩
    exact ⟨(), hfi, h⟩

/-- A committed unit: the repair, and the report that describes it. -/
theorem yields_commitUnit {repair : Txn Report} (h : Yields (commitUnit inputs repair) s u s') :
    ∃ delta, Yields repair s.db delta s'.db ∧ s'.report = s.report.add delta := by
  simp only [commitUnit, yields_steps, yields_checkStop, yields_onDatabase, accumulate_ok] at h
  obtain ⟨_, _, ⟨-, rfl⟩, _, _, ⟨-, rfl⟩, -, delta, _, ⟨_, hr, rfl⟩, _, _, ⟨rfl, rfl⟩, _, _,
    ⟨⟨-, rfl⟩, rfl⟩, _, _, ⟨-, rfl⟩, rfl⟩ := h
  exact ⟨delta, hr, rfl⟩

theorem after_checkStop (inputs : Inputs) (s : State) : SameData s (after (checkStop inputs) s) := by
  unfold checkStop
  rcases after_bind (look State.polls) _ s with ⟨n, s1, hl, he⟩ | he
  · obtain ⟨rfl, rfl⟩ := (yields_look _ _ _ _).1 hl
    rw [he]
    rcases after_bind (write fun state : State => { state with polls := state.polls + 1 })
      (fun _ => require (inputs.shouldStop s1.polls = false) cancelled) s1 with ⟨u, s2, hw, he2⟩ | he2
    · obtain rfl := (yields_write _ _ _ _).1 hw
      rw [he2]
      exact preserves_require (SameData s1) _ _ _ ⟨rfl, rfl⟩
    · rw [he2]
      exact ⟨rfl, rfl⟩
  · rw [he]
    exact .refl s

variable {I : Database → Report → Prop}

theorem preserves_checkStop (inputs : Inputs) : Preserves (fun s => I s.db s.report) (checkStop inputs) := by
  intro s hI
  have hsa := after_checkStop inputs s
  rwa [hsa.db, hsa.report]

theorem preserves_onDatabase {α : Type} {x : Txn α}
    (hp : ∀ db, after x db = db) : Preserves (fun s => I s.db s.report) (onDatabase x) := by
  intro s hI
  have hd := hp s.db
  unfold after at hd ⊢
  unfold onDatabase zoom
  cases hx : x s.db with
  | ok | error =>
    rw [hx] at hd
    simp only at hd
    simpa only [hd] using hI

/-- A unit that is not committed leaves the data as they were. -/
theorem after_commitUnit (inputs : Inputs) (repair : Txn Report) (s : State) :
    SameData s (after (commitUnit inputs repair) s) ∨
      ∃ delta, Yields repair s.db delta (after (commitUnit inputs repair) s).db ∧
        (after (commitUnit inputs repair) s).report = s.report.add delta := by
  have hst := after_checkStop inputs s
  unfold commitUnit
  rcases after_bind (checkStop inputs) _ s with ⟨u, s1, hy, heq⟩ | heq
  · rw [heq]
    rw [hy.after_eq] at hst
    rcases after_bind (look State.polls) _ s1 with ⟨n, s2, hl, he2⟩ | he2
    · rw [he2]
      obtain ⟨rfl, rfl⟩ := (yields_look _ _ _ _).1 hl
      rcases after_transaction (inputs.commitFault s2.polls) _ s2 with he3 | ⟨a, hbo⟩
      · rw [he3]
        exact .inl hst
      refine .inr ?_
      simp only [yields_steps, yields_checkStop, yields_onDatabase, accumulate_ok] at hbo
      obtain ⟨delta, _, ⟨_, hr, rfl⟩, _, _, ⟨rfl, rfl⟩, _, _, ⟨⟨-, rfl⟩, rfl⟩, _, _, ⟨-, rfl⟩, he⟩ := hbo
      rw [he, ← hst.db, ← hst.report]
      exact ⟨delta, hr, rfl⟩
    · rw [he2]
      exact .inl hst
  · rw [heq]
    exact .inl hst

/-! ## Passes -/

section Visit

variable {R K : Type} [LinearOrder K] {rows : Database → Nat} {read : Option K → Txn (List R)}
  {keyOf : R → K} {each : R → Startup PUnit}

omit [LinearOrder K] in
/-- What reads keep and units of ready rows keep, a pass keeps, also one that is cut off. -/
theorem preserves_visit (Ready : R → Database → Prop) (hp : ∀ pos db, after (read pos) db = db)
    (hpa : ∀ db pos page, Yields (read pos) db page db → (page.map keyOf).Nodup ∧ ∀ r ∈ page, Ready r db)
    (hv : ∀ s r, I s.db s.report → Ready r s.db → I (after (each r) s).db (after (each r) s).report)
    (hk : ∀ s r s' u, I s.db s.report → Ready r s.db → Yields (each r) s u s' →
      ∀ r', keyOf r' ≠ keyOf r → Ready r' s.db → Ready r' s'.db) :
    Preserves (fun s => I s.db s.report) (visit inputs rows read keyOf each) := by
  unfold visit
  refine preserves_bind (preserves_look _ _) fun fuel =>
    preserves_bind ?_ fun _ => preserves_checkStop inputs
  refine preserves_visitPages (fun r s => Ready r s.db)
    (fun pos => preserves_bind (preserves_checkStop inputs) fun _ => preserves_onDatabase (hp pos))
    (fun s pos page s' _ hy => ?_) hv hk fuel none
  simp only [yields_bind, yields_checkStop, yields_onDatabase] at hy
  obtain ⟨_, _, ⟨-, rfl⟩, _, hy, rfl⟩ := hy
  have hsa := hp pos s.db
  rw [hy.after_eq] at hsa
  rw [hsa] at hy
  have := hpa _ _ _ hy
  simpa only [hsa] using this

end Visit

/-! ## Pages -/

section Pages

variable {T R K : Type} [Keyed T K] [LinearOrder K] {table : Database → Table T}
  {selected : T → Bool} {check : Database → T → Except Error R} {limit : Nat} {after : Option K}
  {keyOf : R → K}

theorem yields_listRows (hk : ∀ db t r, check db t = .ok r → keyOf r = Keyed.key t)
    {db db' : Database} {page : List R} (h : Yields (listRows table selected check limit after) db page db') :
    db' = db ∧ PageOf ((table db).keys selected) after (page.map keyOf) ∧
      ∀ r ∈ page, ∃ t ∈ table db, selected t = true ∧ check db t = .ok r := by
  simp only [listRows, yields_steps] at h
  obtain ⟨_, _, ⟨hl, rfl⟩, hp, rfl⟩ := h
  refine ⟨rfl, ?_, fun r hr => ?_⟩
  · rw [map_of_except_mapM (fun row _ => hk db' row) hp]
    exact Table.pageOf _ _ _ hl.1
  obtain ⟨t, ht, hc⟩ := mem_of_except_mapM hp hr
  obtain ⟨hm, hs, -⟩ := Table.mem_of_mem_page ht
  exact ⟨t, hm, hs, hc⟩

end Pages

/-! ## Validation -/

section Found

variable {env : Environment} {db : Database} {id : Uuid}

/-- What `checkRun` finds about a run. -/
structure RunChecked (env : Environment) (db : Database) (run : JobRun) : Prop where
  shape : RunShape env run
  timing : validateRunTiming db run = .ok ()
  owners : ∃ job queue, db.jobs.find? run.jobId = some job ∧ JobShape env job ∧
    db.queues.find? run.queueId = some queue ∧ QueueShape env queue ∧
    (run.isLive = true → validateLiveOwners db run job queue = .ok ())
  origin : run.origin ≠ .submitted ∧ (run.scheduleOwned = true ↔ run.origin = .scheduled)
  history : validateHistory db run = .ok ()

theorem checkRun_ok {run : JobRun} :
    checkRun env db id = .ok run ↔ db.runs.find? id = some run ∧ RunChecked env db run := by
  unfold checkRun
  simp only [except_steps]
  constructor
  · intro h
    obtain ⟨_, hfo, r, rfl, _, hti, _, hjo, _, hqu, job, rfl, queue, rfl, _, ho, h⟩ := h
    have hla : (r.isLive = true → validateLiveOwners db r job queue = .ok ()) ∧
        validateHistory db r = .ok () ∧ r = run := by
      split at h
      · simp only [except_steps] at h
        obtain ⟨_, hli, _, hh, rfl⟩ := h
        exact ⟨fun _ => hli, hh, rfl⟩
      next hl =>
        simp only [except_steps] at h
        obtain ⟨_, -, _, hh, rfl⟩ := h
        exact ⟨fun hl' => absurd hl' hl, hh, rfl⟩
    obtain ⟨hli, hh, rfl⟩ := hla
    obtain ⟨_, hr, hd⟩ := decodeFound_some.1 hfo
    obtain ⟨rfl, hsh⟩ := decodeRun_ok.1 hd
    obtain ⟨_, hj, hd⟩ := decodeFound_some.1 hjo
    obtain ⟨rfl, hjs⟩ := decodeJob_ok.1 hd
    obtain ⟨_, hq, hd⟩ := decodeFound_some.1 hqu
    obtain ⟨rfl, hqs⟩ := decodeQueue_ok.1 hd
    exact ⟨hr, hsh, hti, ⟨_, _, hj, hjs, hq, hqs, hli⟩, ho, hh⟩
  · rintro ⟨hr, hsh, hti, ⟨job, queue, hj, hjs, hq, hqs, hli⟩, ho, hh⟩
    refine ⟨some run, decodeFound_some.2 ⟨run, hr, decodeRun_ok.2 ⟨rfl, hsh⟩⟩, run, rfl, (),
      hti, some job, decodeFound_some.2 ⟨job, hj, decodeJob_ok.2 ⟨rfl, hjs⟩⟩, some queue,
      decodeFound_some.2 ⟨queue, hq, decodeQueue_ok.2 ⟨rfl, hqs⟩⟩, job, rfl, queue, rfl, (), ho, ?_⟩
    split
    next hl =>
      simp only [except_steps]
      exact ⟨(), hli hl, (), hh, trivial⟩
    · simp only [except_steps]
      exact ⟨(), trivial, (), hh, trivial⟩

/-- What `checkAttempt` finds about an attempt. -/
structure AttemptChecked (env : Environment) (db : Database) (a : JobAttempt) : Prop where
  number : 1 ≤ a.attemptNumber ∧ a.attemptNumber ≤ maximumAttemptNumber
  state : validAttemptState a = true
  run : ∃ run, db.runs.find? a.runId = some run ∧ RunShape env run ∧ a.state ≠ .pending ∧
    a.startedAt.isSome = true ∧ (a.state = .running → run.state = .running)
  output : validateOutput db (Keyed.key a) = .ok ()

variable {k : AttemptKey}

theorem checkAttempt_ok {a : JobAttempt} :
    checkAttempt env db k = .ok a ↔ db.attempts.find? k = some a ∧ AttemptChecked env db a := by
  simp only [checkAttempt, except_steps]
  constructor
  · rintro ⟨_, hfo, _, hru, _, rfl, run, rfl, _, hfi, _, ho, rfl⟩
    obtain ⟨_, ha, hd⟩ := decodeFound_some.1 hfo
    obtain ⟨rfl, hn, hst⟩ := decodeAttempt_ok.1 hd
    obtain ⟨_, hr, hd⟩ := decodeFound_some.1 hru
    obtain ⟨rfl, hsh⟩ := decodeRun_ok.1 hd
    obtain rfl := (Table.find?_eq_some.1 ha).2
    exact ⟨ha, hn, hst, ⟨_, hr, hsh, hfi⟩, ho⟩
  · rintro ⟨ha, hn, hst, ⟨run, hr, hsh, hfi⟩, ho⟩
    obtain rfl := (Table.find?_eq_some.1 ha).2
    exact ⟨some a, decodeFound_some.2 ⟨a, ha, decodeAttempt_ok.2 ⟨rfl, hn, hst⟩⟩, some run,
      decodeFound_some.2 ⟨run, hr, decodeRun_ok.2 ⟨rfl, hsh⟩⟩, a, rfl, run, rfl, (), hfi, (), ho, rfl⟩

/-- What `checkJob` finds about a job. -/
structure JobChecked (env : Environment) (db : Database) (job : JobDefinition) : Prop where
  shape : JobShape env job
  queue : ∃ queue, db.queues.find? job.queueId = some queue ∧ QueueShape env queue ∧
    (queue.state = .deleted → job.state = .deleted)
  barriers : validateBarriers db job = .ok ()

theorem checkJob_ok {job : JobDefinition} :
    checkJob env db id = .ok job ↔ db.jobs.find? id = some job ∧ JobChecked env db job := by
  simp only [checkJob, except_steps]
  constructor
  · rintro ⟨_, hfo, _, rfl, _, hqu, queue, rfl, _, hde, _, hba, rfl⟩
    obtain ⟨_, hj, hd⟩ := decodeFound_some.1 hfo
    obtain ⟨rfl, hsh⟩ := decodeJob_ok.1 hd
    obtain ⟨_, hq, hd⟩ := decodeFound_some.1 hqu
    obtain ⟨rfl, hqs⟩ := decodeQueue_ok.1 hd
    exact ⟨hj, hsh, ⟨_, hq, hqs, hde⟩, hba⟩
  · rintro ⟨hj, hsh, ⟨queue, hq, hqs, hde⟩, hba⟩
    exact ⟨some job, decodeFound_some.2 ⟨job, hj, decodeJob_ok.2 ⟨rfl, hsh⟩⟩, job, rfl, some queue,
      decodeFound_some.2 ⟨queue, hq, decodeQueue_ok.2 ⟨rfl, hqs⟩⟩, queue, rfl, (), hde, (), hba, rfl⟩

theorem checkQueue_ok {queue : Queue} :
    checkQueue env db id = .ok queue ↔ db.queues.find? id = some queue ∧ QueueShape env queue := by
  simp only [checkQueue, except_steps]
  constructor
  · rintro ⟨_, hfo, rfl⟩
    obtain ⟨_, hq, hd⟩ := decodeFound_some.1 hfo
    obtain ⟨rfl, hsh⟩ := decodeQueue_ok.1 hd
    exact ⟨hq, hsh⟩
  · rintro ⟨hq, hsh⟩
    exact ⟨some queue, decodeFound_some.2 ⟨queue, hq, decodeQueue_ok.2 ⟨rfl, hsh⟩⟩, rfl⟩

theorem checkOutput_found {k' : AttemptKey} (h : checkOutput db k = .ok k') : k' = k := by
  simp only [checkOutput, except_steps] at h
  obtain ⟨_, -, rfl⟩ := h
  rfl

end Found

end Recovery

end Jobu
