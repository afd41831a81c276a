import Jobu.Consistency.Writes
import Jobu.Repository.Requests

/-!
# What the accounting of waits changes

Every accounting procedure writes the timing table and nothing else, and keeps every timing row
fit for the state of its run (`Retimed`, which also covers the writes no other row depends on).  A transaction that changes the state of runs first
settles its scope, which closes every interval of it:

  > `settleScope_closes`: after `settleScope` no run of the scope has an open interval.
-/

namespace Jobu

open Lib Telemetry Table Secrets

open Keyed (key)

variable {env : Environment} {u : Unit} {runId : Uuid} {timing : RunTiming} {run : JobRun}
  {db db' : Database} {sample : TimingSample} {amb : Ambient} {scope : Scope}

/-- The run has a timing row that fits its state. -/
def Timed (timings : Table RunTiming) (run : JobRun) : Prop :=
  ∃ t ∈ timings, t.runId = run.id ∧ TimingShape run.state t

/-- No interval of the run is open. -/
def Closed (timings : Table RunTiming) (runId : Uuid) : Prop :=
  ∀ t ∈ timings, t.runId = runId → t.openInterval = none

/-- The rows of queues, jobs, runs, attempts and outputs are the same, and the timings are still
those of the runs and fit them.  Stored replies and secret references are beside the point. -/
structure Retimed (db db' : Database) : Prop where
  queues : db'.queues = db.queues
  jobs : db'.jobs = db.jobs
  runs : db'.runs = db.runs
  attempts : db'.attempts = db.attempts
  outputs : db'.outputs = db.outputs
  ids : ∀ id, (∃ t ∈ db'.timings, t.runId = id) ↔ ∃ t ∈ db.timings, t.runId = id
  timed : ∀ run ∈ db.runs, Timed db.timings run → Timed db'.timings run

namespace Retimed

variable {db1 : Database}

theorem refl (db : Database) : Retimed db db := ⟨rfl, rfl, rfl, rfl, rfl, fun _ => Iff.rfl, fun _ _ h => h⟩

theorem trans (h₁ : Retimed db db1) (h₂ : Retimed db1 db') : Retimed db db' where
  queues := h₂.queues.trans h₁.queues
  jobs := h₂.jobs.trans h₁.jobs
  runs := h₂.runs.trans h₁.runs
  attempts := h₂.attempts.trans h₁.attempts
  outputs := h₂.outputs.trans h₁.outputs
  ids id := (h₂.ids id).trans (h₁.ids id)
  timed run hr ht := h₂.timed run (h₁.runs ▸ hr) (h₁.timed run hr ht)

theorem attemptsOf (h : Retimed db db') (runId : Uuid) : db'.attemptsOf runId = db.attemptsOf runId := by
  unfold Database.attemptsOf
  rw [h.attempts]

end Retimed

theorem Consistent.retimed {E F : Uuid → Prop}
    (h : Consistent env E F db) (hr : Retimed db db') : Consistent env E F db' := by
  have ht : Consistent env E F { db with timings := db'.timings } :=
    h.setTimings (fun t ht => ?_) fun run hru => hr.timed run hru (h.runs run hru).timing
  · exact ht.congr hr.queues hr.jobs hr.runs hr.attempts hr.outputs rfl
  obtain ⟨t', ht', hi⟩ := (hr.ids t.runId).1 ⟨t, ht, rfl⟩
  obtain ⟨run, hru, hri⟩ := h.timings t' ht'
  exact ⟨run, hru, hri.trans hi⟩

/-! ## Stored replies and secret references -/

theorem retimed_insertReply {record : IdempotencyRecord}
    (h : Yields (Idempotency.insert record) db u db') : Retimed db db' := by
  simp only [Idempotency.insert, yields_steps] at h
  obtain ⟨_, _, ⟨-, rfl⟩, _, _, ⟨-, rfl⟩, rfl⟩ := h
  exact ⟨rfl, rfl, rfl, rfl, rfl, fun _ => Iff.rfl, fun _ _ ht => ht⟩

variable {references : List SecretReference}

theorem retimed_replaceReferences {jobId : Uuid} (h : Yields (replaceReferencesForJob env jobId references) db u db') :
    Retimed db db' := by
  simp only [replaceReferencesForJob, yields_steps] at h
  obtain ⟨_, _, ⟨-, rfl⟩, _, _, ⟨-, rfl⟩, rfl⟩ := h
  exact ⟨rfl, rfl, rfl, rfl, rfl, fun _ => Iff.rfl, fun _ _ ht => ht⟩

theorem retimed_eraseReferences {queueId : Uuid} (h : Yields (eraseReferencesForQueue queueId) db u db') :
    Retimed db db' ∧ db'.timings = db.timings := by
  simp only [eraseReferencesForQueue, yields_write] at h
  subst h
  exact ⟨⟨rfl, rfl, rfl, rfl, rfl, fun _ => Iff.rfl, fun _ _ ht => ht⟩, rfl⟩

theorem yields_requireExistingReferences
    (h : Yields (requireExistingReferences env references) db u db') : db' = db := by
  simp only [requireExistingReferences, yields_steps] at h
  obtain ⟨_, _, ⟨-, rfl⟩, _, _, ⟨-, rfl⟩, h⟩ := h
  refine forM_rel (P := fun db db' => db' = db) (fun _ => rfl)
    (fun _ _ _ h₁ h₂ => h₂.trans h₁) (fun reference _ db1 db2 hstep => ?_) h
  simp only [yields_steps] at hstep
  obtain ⟨_, _, ⟨-, rfl⟩, -, rfl⟩ := hstep
  rfl

/-! ## One row -/

theorem yields_read : Yields (Telemetry.read runId) db timing db' ↔ db' = db ∧ ∃ run ∈ db.runs, run.id = runId ∧
    timing ∈ db.timings ∧ timing.runId = runId ∧ TimingShape run.state timing := by
  unfold Telemetry.read
  rw [yields_query, and_comm]
  refine and_congr_right fun _ => ?_
  constructor
  · intro h
    split at h
    next run t hr ht =>
      obtain ⟨rfl, hs⟩ := decodeTiming_ok.1 h
      obtain ⟨hru, rfl⟩ := find?_eq_some.1 hr
      obtain ⟨htm, hi⟩ := find?_eq_some.1 ht
      exact ⟨run, hru, rfl, htm, hi, hs⟩
    · cases h
  · rintro ⟨run, hru, rfl, ht, hi, hs⟩
    have hr : db.runs.find? run.id = some run := find?_of_mem hru
    have ht' : db.timings.find? run.id = some timing := find?_eq_some.2 ⟨ht, hi⟩
    rw [hr, ht']
    exact decodeTiming_ok.2 ⟨rfl, hs⟩

/-- A write of one timing row that fits the state of its run. -/
theorem retimed_modify {f : RunTiming → RunTiming} {hf : ∀ t : RunTiming, key (f t) = key t}
    (hfi : ∀ run ∈ db.runs, run.id = runId → ∀ t ∈ db.timings, t.runId = runId →
      TimingShape run.state t → TimingShape run.state (f t)) :
    Retimed db { db with timings := db.timings.modify runId f hf } := by
  refine ⟨rfl, rfl, rfl, rfl, rfl, fun id => ?_, fun run hr ht => ?_⟩
  · constructor
    · rintro ⟨t', ht', rfl⟩
      rcases (mem_modify hf).1 ht' with ⟨t, ht, -, rfl⟩ | ⟨ht, -⟩
      · exact ⟨t, ht, (hf t).symm⟩
      · exact ⟨t', ht, rfl⟩
    rintro ⟨t, ht, rfl⟩
    by_cases hk : t.runId = runId
    · subst hk
      exact ⟨f t, modify_mem ht f hf, hf t⟩
    · exact ⟨t, modify_mem_other ht hk f hf, rfl⟩
  · obtain ⟨t, ht, hti, hs⟩ := ht
    by_cases hk : t.runId = runId
    · subst hk
      exact ⟨f t, modify_mem ht f hf, (hf t).trans hti, hfi run hr hti.symm t ht rfl hs⟩
    · exact ⟨t, modify_mem_other ht hk f hf, hti, hs⟩

theorem yields_store : Yields (store timing) db u db' ↔ (∃ t ∈ db.timings, t.runId = timing.runId) ∧ db' = { db with
      timings := db.timings.modify timing.runId
        (fun row =>
          { row with
            runnableWait := timing.runnableWait
            status := timing.status
            openInterval := timing.openInterval })
        (fun _ => rfl) } := by
  simp only [store, yields_steps, yields_updateRow]
  constructor
  · rintro ⟨_, _, ⟨rfl, ⟨t, ht, hi, -⟩, rfl⟩ | ⟨rfl, -, rfl⟩, hb, rfl⟩
    · exact ⟨⟨t, ht, hi⟩, rfl⟩
    · exact Bool.noConfusion hb
  · rintro ⟨⟨t, ht, hi⟩, rfl⟩
    exact ⟨true, _, .inl ⟨rfl, ⟨t, ht, hi, trivial⟩, rfl⟩, rfl, rfl⟩

/-- Storing a row that was read and still fits. -/
theorem retimed_store {timing' : RunTiming}
    (h : Yields (store timing') db u db') (hru : run ∈ db.runs) (hre : timing ∈ db.timings) (hi : timing.runId = run.id)
    (hi' : timing'.runId = timing.runId) (hwa : timing'.delayWarned = timing.delayWarned)
    (hs : TimingShape run.state timing') :
    Retimed db db' ∧ (timing'.openInterval = none → Closed db'.timings run.id) ∧
      ∀ id, id ≠ run.id → Closed db.timings id → Closed db'.timings id := by
  obtain ⟨-, rfl⟩ := yields_store.1 h
  have hro : ∀ t ∈ db.timings, t.runId = timing'.runId → t = timing := fun t ht hk =>
    eq_of_key ht hre (hk.trans hi')
  have hrun : timing'.runId = run.id := hi'.trans hi
  refine ⟨retimed_modify fun r hr hri t ht hk _ => ?_, fun hop t' ht' hk => ?_, fun id hn hc t' ht' hk => ?_⟩
  · have hrr : r = run := eq_of_key hr hru (hri.trans hrun)
    subst hrr
    obtain rfl := hro t ht hk
    refine ⟨hs.interval, fun hst => ?_⟩
    obtain ⟨hw, ho, hd⟩ := hs.unmeasured hst
    exact ⟨hw, ho, hwa ▸ hd⟩
  · rcases (mem_modify (by intro; rfl)).1 ht' with ⟨t, -, -, rfl⟩ | ⟨-, hot⟩
    · exact hop
    · exact absurd (hk.trans hrun.symm) hot
  · rcases (mem_modify (by intro; rfl)).1 ht' with ⟨t, -, hke, rfl⟩ | ⟨ht, -⟩
    · exact absurd (hk.symm.trans (hke.trans hrun)) hn
    · exact hc t' ht hk

/-- One row was retimed: no other row was opened. -/
structure RowRetimed (runId : Uuid) (db db' : Database) : Prop where
  retimed : Retimed db db'
  others : ∀ id, id ≠ runId → Closed db.timings id → Closed db'.timings id

theorem RowRetimed.refl (runId : Uuid) (db : Database) : RowRetimed runId db db := ⟨.refl db, fun _ _ h => h⟩

theorem validateSample_ok (h : validateSample timing sample = .ok u) : sample.epoch ≠ Uuid.nil ∧ 0 ≤ sample.tick := by
  simp only [validateSample, except_steps] at h
  obtain ⟨_, he, _, ht, -⟩ := h
  exact ⟨he, ht⟩

theorem yields_runState {state : RunState} : Yields (runState runId) db state db' ↔
    db' = db ∧ ∃ run ∈ db.runs, run.id = runId ∧ run.state = state := by
  simp only [runState, yields_steps]
  constructor
  · rintro ⟨_, _, ⟨rfl, rfl⟩, run, _, ⟨hr, rfl⟩, rfl, rfl⟩
    obtain ⟨hru, hi⟩ := find?_eq_some.1 hr
    exact ⟨rfl, run, hru, hi, rfl⟩
  · rintro ⟨rfl, run, hru, rfl, rfl⟩
    exact ⟨_, _, ⟨rfl, rfl⟩, run, _, ⟨find?_of_mem hru, rfl⟩, rfl, rfl⟩

theorem openInterval_retimed (h : Yields (openInterval runId sample) db timing db') : RowRetimed runId db db' := by
  simp only [openInterval, yields_steps, yields_ite] at h
  obtain ⟨t, _, hre, _, _, ⟨hsa, rfl⟩, _, _, hsta, _, _, ⟨hp, rfl⟩, h⟩ := h
  obtain ⟨rfl, run, hru, rfl, htm, hti, _⟩ := yields_read.1 hre
  obtain ⟨rfl, run', hr', hid, rfl⟩ := yields_runState.1 hsta
  obtain rfl : run' = run := eq_of_key hr' hru hid
  split at h
  · obtain ⟨-, rfl⟩ := h
    exact .refl _ _
  obtain ⟨_, _, hsto, -, rfl⟩ := h
  have hsh : TimingShape run'.state
    { t with
      status := if t.status = .unmeasured then .partly else t.status
      openInterval := some sample } := by
    refine ⟨fun interval hi => ?_, fun hst => ?_⟩
    · obtain rfl : sample = interval := by simpa using hi
      exact ⟨(validateSample_ok hsa).1, (validateSample_ok hsa).2, hp⟩
    · dsimp only at hst
      split at hst
      · cases hst
      · exact absurd hst ‹_›
  obtain ⟨hr, -, ho⟩ := retimed_store hsto hru htm hti rfl rfl hsh
  exact ⟨hr, ho⟩

variable {close : Bool}

theorem accumulate_retimed (h : Yields (accumulate runId sample close) db timing db') :
    RowRetimed runId db db' ∧ (close = true → Closed db'.timings runId) := by
  simp only [accumulate, yields_steps] at h
  obtain ⟨t, _, hre, _, _, ⟨hsa, rfl⟩, h⟩ := h
  obtain ⟨rfl, run, hru, rfl, htm, hti, hs⟩ := yields_read.1 hre
  cases ho : t.openInterval with
  | none =>
    simp only [ho, yields_pure] at h
    obtain ⟨-, rfl⟩ := h
    refine ⟨.refl _ _, fun _ t' ht' hid => ?_⟩
    rw [eq_of_key ht' htm (hid.trans hti.symm)]
    exact ho
  | some interval =>
    simp only [ho, yields_steps] at h
    obtain ⟨_, _, ⟨-, rfl⟩, _, _, hsto, -, rfl⟩ := h
    obtain ⟨he, -, hp⟩ := hs.interval interval ho
    have hsh : TimingShape run.state
      { t with
        runnableWait := t.runnableWait + (sample.tick - interval.tick).toNat
        openInterval := if close then none else some { interval with tick := sample.tick } } := by
      refine ⟨fun i hi => ?_, fun hst => ?_⟩
      · dsimp only at hi
        split at hi
        · cases hi
        · cases hi
          exact ⟨he, (validateSample_ok hsa).2, hp⟩
      · have hn := (hs.unmeasured hst).2.1
        rw [ho] at hn
        cases hn
    obtain ⟨hr, hcl, hot⟩ := retimed_store hsto hru htm hti rfl rfl hsh
    exact ⟨⟨hr, hot⟩, fun hc => hcl (if_pos hc)⟩

variable {threshold : Int}

theorem claimWarning_retimed {claimed : Bool} (h : Yields (claimWarning runId sample threshold) db claimed db') :
    Retimed db db' ∧ ∀ id, Closed db.timings id → Closed db'.timings id := by
  simp only [claimWarning, yields_steps, yields_ite, yields_updateRow] at h
  obtain ⟨t, _, hre, _, _, ⟨-, rfl⟩, _, _, ⟨-, rfl⟩, _, _, hsta, _, _, ⟨⟨-, hm, -⟩, rfl⟩, h⟩ := h
  obtain ⟨rfl, _, _, rfl, htm, hti, _⟩ := yields_read.1 hre
  obtain ⟨rfl, -⟩ := yields_runState.1 hsta
  split at h
  · obtain ⟨-, rfl⟩ := h
    exact ⟨.refl _, fun _ hc => hc⟩
  rcases h with ⟨-, -, rfl⟩ | ⟨-, -, rfl⟩
  · refine ⟨retimed_modify fun r hr hri t' ht' hi hs' => ⟨hs'.interval, fun hst => ?_⟩, fun id hc t' ht' hi => ?_⟩
    · obtain rfl : t' = t := eq_of_key ht' htm (hi.trans hti.symm)
      exact absurd hst hm
    · rcases (mem_modify (by intro; rfl)).1 ht' with ⟨t0, ht0, -, rfl⟩ | ⟨ht0, -⟩
      · exact hc t0 ht0 hi
      · exact hc t' ht0 hi
  · exact ⟨.refl _, fun _ hc => hc⟩

theorem repairAbandoned_retimed {repaired : Bool} (h : Yields (repairAbandoned runId) db repaired db') :
    RowRetimed runId db db' ∧ Closed db'.timings runId := by
  simp only [repairAbandoned, yields_steps, yields_ite] at h
  obtain ⟨t, _, hre, h⟩ := h
  obtain ⟨rfl, run, hru, rfl, htm, hti, _⟩ := yields_read.1 hre
  split at h
  next ho =>
    obtain ⟨-, rfl⟩ := h
    refine ⟨.refl _ _, fun t' ht' hid => ?_⟩
    rw [eq_of_key ht' htm (hid.trans hti.symm)]
    simpa using ho
  · obtain ⟨_, _, hsto, -, rfl⟩ := h
    have hsh : TimingShape run.state { t with status := .partly, openInterval := none } :=
      ⟨fun _ hi => (by cases hi), fun hst => (by cases hst)⟩
    obtain ⟨hr, hc, hot⟩ := retimed_store hsto hru htm hti rfl rfl hsh
    exact ⟨⟨hr, hot⟩, hc rfl⟩

theorem yields_requireClosed (h : Yields (requireClosed runId) db u db') : db' = db ∧ Closed db.timings runId := by
  simp only [requireClosed, yields_steps] at h
  obtain ⟨_, _, hr, ho, rfl⟩ := h
  obtain ⟨rfl, _, _, rfl, htm, hti, _⟩ := yields_read.1 hr
  refine ⟨rfl, fun t' ht' hi => ?_⟩
  rw [eq_of_key ht' htm (hi.trans hti.symm)]
  simpa using ho

/-- Claiming a run ends its wait. -/
theorem claimRun_retimed {delayed : Bool} (h : Yields (claimRun amb run threshold) db delayed db') :
    Retimed db db' ∧ Closed db'.timings run.id := by
  unfold claimRun at h
  cases hs : amb.sample with
  | none =>
    simp only [hs, yields_steps, validateClosedRun] at h
    obtain ⟨_, _, hcl, -, rfl⟩ := h
    obtain ⟨rfl, hc⟩ := yields_requireClosed hcl
    exact ⟨.refl _, hc⟩
  | some =>
    simp only [hs, yields_bind, settle] at h
    obtain ⟨_, _, ho, _, _, hse, hwa⟩ := h
    obtain ⟨hr, hc⟩ := accumulate_retimed hse
    obtain ⟨hw, hk⟩ := claimWarning_retimed hwa
    exact ⟨(openInterval_retimed ho).retimed.trans (hr.retimed.trans hw), hk _ (hc rfl)⟩

/-! ## A scope -/

variable {row : RunEligibility}

theorem decodeEligibility_ok (h : decodeEligibility db run = .ok row) : row.run = run := by
  simp only [decodeEligibility, except_steps] at h
  obtain ⟨_, -, _, -, _, -, _, -, rfl⟩ := h
  rfl

variable {after : Option Uuid}

theorem yields_listEligibility {rows : List RunEligibility} (h : Yields (listEligibility scope after) db rows db') :
    db' = db ∧ rows.map (fun row => row.run.id) = (scopePage db scope after).map JobRun.id := by
  obtain ⟨hr, rfl⟩ := (yields_query _ _ _ _).1 h
  exact ⟨rfl, map_of_except_mapM (fun run _ row hro => by rw [decodeEligibility_ok hro]) hr⟩

variable {reopen : Bool}

theorem accountRow_retimed (h : Yields (accountRow amb sample reopen row) db u db') :
    RowRetimed row.run.id db db' ∧ (reopen = false → Closed db'.timings row.run.id) := by
  simp only [accountRow, yields_ite, yields_steps, settle] at h
  split at h
  next hr =>
    obtain ⟨_, _, ho, -, rfl⟩ := h
    refine ⟨openInterval_retimed ho, fun hn => ?_⟩
    simp [hn] at hr
  · obtain ⟨_, _, hse, -, rfl⟩ := h
    exact ⟨(accumulate_retimed hse).1, fun _ => (accumulate_retimed hse).2 rfl⟩

theorem visitScope_retimed (h : Yields (visitScope amb scope reopen) db u db') : Retimed db db' := by
  simp only [visitScope, yields_steps] at h
  obtain ⟨_, _, ⟨-, rfl⟩, h⟩ := h
  cases hs : amb.sample with
  | none =>
    simp only [hs] at h
    refine visitPages_rel Retimed.refl (fun _ _ _ => Retimed.trans) ?_ ?_ h
    · intro db1 _ _ db2 hr
      rw [((yields_look _ _ _ _).1 hr).2]
      exact .refl _
    · intro db1 _ db2 hv
      rw [(yields_requireClosed hv).1]
      exact .refl _
  | some =>
    simp only [hs] at h
    refine visitPages_rel Retimed.refl (fun _ _ _ => Retimed.trans) ?_ ?_ h
    · intro _ _ _ _ hr
      rw [(yields_listEligibility hr).1]
      exact .refl _
    · intro _ _ _ hv
      exact (accountRow_retimed hv).1.retimed

/-- The runs a scope visits. -/
def accounted (scope : Scope) (db : Database) : Finset Uuid :=
  db.runs.keys (isAccounted db scope)

theorem mem_accounted {id : Uuid} : id ∈ accounted scope db ↔
    ∃ run ∈ db.runs, isAccounted db scope run = true ∧ run.id = id :=
  mem_keys

theorem closed_of_not_accounted (hsc : scope.contains run = true) (h : isAccounted db scope run = false) :
    Closed db.timings run.id := by
  intro t ht hi
  have hfi : db.timings.find? run.id = some t := find?_eq_some.2 ⟨ht, hi⟩
  simp only [isAccounted, hsc, hfi, Bool.and_true, Bool.or_eq_false_iff, Option.any_some] at h
  simpa using h.2

theorem isAccounted_of_closing (hk : Closed db.timings run.id → Closed db'.timings run.id)
    (h : isAccounted db' scope run = true) : isAccounted db scope run = true := by
  have hsc : scope.contains run = true := (Bool.and_eq_true _ _ ▸ h).2
  by_contra hn
  rw [Bool.not_eq_true] at hn
  have hc := hk (closed_of_not_accounted hsc hn)
  simp only [isAccounted, hsc, Bool.and_true, Bool.or_eq_true] at h hn
  rcases h with hp | ho
  · simp [hp] at hn
  obtain ⟨t, hfi, hop⟩ := (Option.any_eq_true _ _).1 ho
  obtain ⟨ht, hi⟩ := find?_eq_some.1 hfi
  simp [hc t ht hi] at hop

theorem visitPages_closes {R : Type} {read : Option Uuid → Txn (List R)}
    {idOf : R → Uuid} {visit : R → Txn Unit} {fuel : Nat}
    (hre : ∀ db after page db', Yields (read after) db page db' →
      db' = db ∧ page.map idOf = (scopePage db scope after).map JobRun.id)
    (hv : ∀ db row db', Yields (visit row) db () db' → RowRetimed (idOf row) db db' ∧ Closed db'.timings (idOf row))
    (h : Yields (visitPages read idOf visit exhausted fuel none) db u db') :
    (∀ id, Closed db.timings id → Closed db'.timings id) ∧
      ∀ run ∈ db.runs, scope.contains run = true → Closed db'.timings run.id := by
  obtain ⟨hr, hke, -, hal⟩ := visitPages_complete (accounted scope) (Retimed db)
    (fun _ _ => True) (fun id db => Closed db.timings id)
    (fun db1 after page db2 hr hy => by
      obtain ⟨rfl, hp⟩ := hre _ _ _ _ hy
      refine ⟨hr, fun _ hk => hk, rfl, fun _ _ => trivial, ?_⟩
      rw [hp]
      exact pageOf db2.runs (isAccounted db2 scope) after (show 0 < 200 by decide))
    (fun db1 row db2 hr _ hy => by
      obtain ⟨hro, hcl⟩ := hv _ _ _ hy
      have hke : ∀ id, Closed db1.timings id → Closed db2.timings id := fun id hc => by
        by_cases hi : id = idOf row
        · exact hi ▸ hcl
        · exact hro.others id hi hc
      refine ⟨hr.trans hro.retimed, hcl, hke, fun _ _ _ => trivial, fun id hi => ?_⟩
      obtain ⟨run, hru, hac, rfl⟩ := mem_accounted.1 hi
      rw [hro.retimed.runs] at hru
      exact mem_accounted.2 ⟨run, hru, isAccounted_of_closing (hke _) hac, rfl⟩)
    fuel (Retimed.refl db) (fun _ _ hb => by simp [beyond] at hb) h
  refine ⟨hke, fun run hru hsc => ?_⟩
  by_cases hac : isAccounted db' scope run = true
  · exact hal run.id (mem_accounted.2 ⟨run, hr.runs ▸ hru, hac, rfl⟩)
  · exact closed_of_not_accounted hsc (Bool.eq_false_of_not_eq_true hac)

/-- **Settling a scope closes every interval of it.** -/
theorem settleScope_closes (h : Yields (settleScope amb scope) db u db') :
    (∀ id, Closed db.timings id → Closed db'.timings id) ∧
      ∀ run ∈ db.runs, scope.contains run = true → Closed db'.timings run.id := by
  simp only [settleScope, visitScope, yields_steps] at h
  obtain ⟨_, _, ⟨-, rfl⟩, h⟩ := h
  cases hs : amb.sample with
  | none =>
    simp only [hs] at h
    refine visitPages_closes (fun db1 after page db2 hr => ?_) (fun db1 run db2 hv => ?_) h
    · obtain ⟨rfl, rfl⟩ := (yields_look _ _ _ _).1 hr
      exact ⟨rfl, rfl⟩
    · obtain ⟨rfl, hc⟩ := yields_requireClosed hv
      exact ⟨.refl _ _, hc⟩
  | some =>
    simp only [hs] at h
    refine visitPages_closes (fun db1 after page db2 hr => yields_listEligibility hr)
      (fun db1 row db2 hv => ?_) h
    exact ⟨(accountRow_retimed hv).1, (accountRow_retimed hv).2 rfl⟩

/-! ## Pages of the telemetry owner -/

variable {next : Option Uuid}

theorem observePage_retimed (h : Yields (observePage amb after) db next db') : Retimed db db' := by
  unfold observePage at h
  cases hs : amb.sample with
  | none =>
    simp only [hs, yields_pure] at h
    rw [h.2]
    exact .refl _
  | some =>
    simp only [hs, yields_steps] at h
    obtain ⟨_, _, hr, _, _, hru, -, rfl⟩ := h
    rw [(yields_listEligibility hr).1] at hru
    refine forM_rel Retimed.refl (fun _ _ _ => Retimed.trans) (fun row _ db1 db2 hro => ?_) hru
    simp only [observeRow, yields_ite, yields_steps, settle] at hro
    split at hro
    · obtain ⟨_, _, ho, _, _, hw, -, rfl⟩ := hro
      exact (openInterval_retimed ho).retimed.trans (claimWarning_retimed hw).1
    · obtain ⟨_, _, hse, -, rfl⟩ := hro
      exact (accumulate_retimed hse).1.retimed

theorem accountingPage_retimed {batchSize : Nat}
    (h : Yields (accountingPage sample batchSize after close) db next db') : Retimed db db' := by
  simp only [accountingPage, listOpen, yields_steps] at h
  obtain ⟨_, _, ⟨_, _, ⟨-, rfl⟩, _, _, ⟨-, rfl⟩, _, _, ⟨-, rfl⟩, -, rfl⟩, _, _, hru, -, rfl⟩ := h
  refine forM_rel Retimed.refl (fun _ _ _ => Retimed.trans) (fun timing _ db1 db2 hr => ?_) hru
  simp only [yields_steps] at hr
  obtain ⟨_, _, hac, -, rfl⟩ := hr
  exact (accumulate_retimed hac).1.retimed

/-- **Accounting changes nothing but timings, which still fit their runs**, and settling a scope leaves
none of it open. -/
theorem accounting_keeps_rows :
    (∀ amb scope reopen db u db', Yields (visitScope amb scope reopen) db u db' → Retimed db db' ∧
      (reopen = false → ∀ run ∈ db.runs, scope.contains run = true → Closed db'.timings run.id)) ∧
    (∀ amb after db next db', Yields (observePage amb after) db next db' → Retimed db db') ∧
    ∀ sample batchSize after close db next db', Yields (accountingPage sample batchSize after close) db next db' →
      Retimed db db' := by
  refine ⟨fun _ _ _ _ _ _ h => ⟨visitScope_retimed h, ?_⟩, fun _ _ _ _ _ => observePage_retimed,
    fun _ _ _ _ _ _ _ => accountingPage_retimed⟩
  rintro rfl
  exact (settleScope_closes h).2

end Jobu
