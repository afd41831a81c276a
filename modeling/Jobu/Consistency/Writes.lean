import Jobu.Consistency.Basic

/-!
# What one statement keeps

One lemma for each kind of statement: the database stays consistent, with the job and the run the
statement is about left out.  The side conditions are about the changed rows only.
-/

namespace Jobu

open Lib Table

open Keyed (key)

namespace Consistent

variable {env : Environment} {E F : Uuid → Prop} {db : Database}

/-! ## Queues -/

variable {f : Queue → Queue} {hf : ∀ q : Queue, key (f q) = key q}

theorem updateQueues (h : Consistent env E F db) {p : Queue → Bool}
    (hsh : ∀ q ∈ db.queues, p q = true → QueueShape env (f q))
    (hde : ∀ q ∈ db.queues, p q = true → q.state ≠ .deleted → (f q).state = .deleted →
      ∀ job ∈ db.jobs, job.queueId = q.id → job.state = .deleted) :
    Consistent env E F { db with queues := db.queues.update p f hf } := by
  have hi : ∀ q : Queue, (if p q then f q else q).id = q.id := by
    intro q
    split
    · exact hf q
    · rfl
  refine { h with queues := ?_, jobs := ?_, runs := ?_ }
  · intro _ hq'
    obtain ⟨q, hq, rfl⟩ := (mem_update hf).1 hq'
    split
    · exact hsh q hq ‹_›
    · exact h.queues q hq
  · intro job hjo
    obtain ⟨hs, hc, q, hq, hqi, hl⟩ := h.jobs job hjo
    refine ⟨hs, hc, _, mem_update_of_mem hq p f hf, (hi q).trans hqi, fun hj => ?_⟩
    split
    next hp =>
      exact fun hd => hj (hde q hq hp (hl hj) hd job hjo hqi.symm)
    · exact hl hj
  · intro run hr
    have hs := h.runs run hr
    obtain ⟨q, hq, hqi⟩ := hs.queue
    exact { hs with queue := ⟨_, mem_update_of_mem hq p f hf, (hi q).trans hqi⟩ }

variable {id : Uuid}

theorem modifyQueue (h : Consistent env E F db) (hsh : ∀ q ∈ db.queues, q.id = id → QueueShape env (f q))
    (hd : ∀ q ∈ db.queues, q.id = id → q.state ≠ .deleted → (f q).state = .deleted →
      ∀ job ∈ db.jobs, job.queueId = q.id → job.state = .deleted) :
    Consistent env E F { db with queues := db.queues.modify id f hf } :=
  h.updateQueues (fun q hq hp => hsh q hq (@of_decide_eq_true _ _ hp))
    fun q hq hp => hd q hq (@of_decide_eq_true _ _ hp)

theorem insertQueue (h : Consistent env E F db) {queue : Queue} (hsh : QueueShape env queue)
    (hn : db.queues.find? queue.id = none) :
    Consistent env E F { db with queues := db.queues.insert queue } := by
  refine { h with queues := ?_, jobs := ?_, runs := ?_ }
  · intro q hq
    rcases (mem_insert hn).1 hq with rfl | hq
    · exact hsh
    · exact h.queues q hq
  · intro job hj
    obtain ⟨hs, hc, q, hq, ho⟩ := h.jobs job hj
    exact ⟨hs, hc, q, (mem_insert hn).2 (.inr hq), ho⟩
  · intro run hr
    have hs := h.runs run hr
    obtain ⟨q, hq, hqi⟩ := hs.queue
    exact { hs with queue := ⟨q, (mem_insert hn).2 (.inr hq), hqi⟩ }

/-! ## Jobs -/

/-- What a statement on a job row may do: it keeps the row sound and its type, and its revision
does not fall. -/
structure JobChange (env : Environment) (E : Uuid → Prop) (db : Database) (job job' : JobDefinition) : Prop where
  left : E job.id
  sound : JobSound env db.queues job'
  revision : job.revision ≤ job'.revision
  type : job'.type = job.type

theorem updateJobs (h : Consistent env E F db) {p : JobDefinition → Bool}
    {f : JobDefinition → JobDefinition} {hf : ∀ j : JobDefinition, key (f j) = key j}
    (hch : ∀ j ∈ db.jobs, p j = true → JobChange env E db j (f j)) :
    Consistent env E F { db with jobs := db.jobs.update p f hf } := by
  have hi : ∀ j : JobDefinition, (if p j then f j else j).id = j.id := by
    intro j
    split
    · exact hf j
    · rfl
  refine { h with jobs := ?_, runs := ?_, settled := ?_ }
  · intro _ hj'
    obtain ⟨job, hj, rfl⟩ := (mem_update hf).1 hj'
    split
    · exact (hch job hj ‹_›).sound
    · exact h.jobs job hj
  · intro run hru
    have hs := h.runs run hru
    obtain ⟨job, hj, hji, hr, hty⟩ := hs.job
    refine { hs with job := ?_ }
    refine ⟨_, mem_update_of_mem hj p f hf, (hi job).trans hji, ?_⟩
    show run.jobRevision ≤ (if p job then f job else job).revision ∧
      run.type = (if p job then f job else job).type
    split
    · have hc := hch job hj ‹_›
      exact ⟨hr.trans hc.revision, hty.trans hc.type.symm⟩
    · exact ⟨hr, hty⟩
  · intro _ hj' hE
    obtain ⟨job, hj, rfl⟩ := (mem_update hf).1 hj'
    by_cases hp : p job = true
    · rw [hi] at hE
      exact absurd (hch job hj hp).left hE
    · rw [if_neg hp] at hE ⊢
      exact h.settled job hj hE

theorem modifyJob (h : Consistent env E F db) {f : JobDefinition → JobDefinition}
    {hf : ∀ j : JobDefinition, key (f j) = key j} (hc : ∀ j ∈ db.jobs, j.id = id → JobChange env E db j (f j)) :
    Consistent env E F { db with jobs := db.jobs.modify id f hf } :=
  h.updateJobs fun j hj hp => hc j hj (@of_decide_eq_true _ _ hp)

theorem insertJob (h : Consistent env E F db) {job : JobDefinition} (hl : E job.id)
    (hso : JobSound env db.queues job) (hn : db.jobs.find? job.id = none) :
    Consistent env E F { db with jobs := db.jobs.insert job } := by
  refine { h with jobs := ?_, runs := ?_, settled := ?_ }
  · intro j hj
    rcases (mem_insert hn).1 hj with rfl | hj
    · exact hso
    · exact h.jobs j hj
  · intro run hr
    have hs := h.runs run hr
    obtain ⟨j, hj, ho⟩ := hs.job
    exact { hs with job := ⟨j, (mem_insert hn).2 (.inr hj), ho⟩ }
  · intro j hj hE
    rcases (mem_insert hn).1 hj with rfl | hj
    · exact absurd hl hE
    · exact h.settled j hj hE

/-! ## Runs -/

/-- What a statement on a run row may do: it keeps the row sound and its job, and brings no finished
run back to life. -/
structure RunChange (env : Environment) (E F : Uuid → Prop) (db : Database) (run run' : JobRun) : Prop where
  left : E run.jobId
  sound : RunSound env db.jobs db.queues db.timings run'
  job : run'.jobId = run.jobId
  history : ¬ F run.id → HistoryOk run' (db.attemptsOf run.id)

section

variable (h : Consistent env E F db)

include h

theorem updateRuns {p : JobRun → Bool} {f : JobRun → JobRun} {hf : ∀ r : JobRun, key (f r) = key r}
    (hch : ∀ r ∈ db.runs, p r = true → RunChange env E F db r (f r)) :
    Consistent env E F { db with runs := db.runs.update p f hf } := by
  have hi : ∀ r : JobRun, (if p r then f r else r).id = r.id := by
    intro r
    split
    · exact hf r
    · rfl
  have hm : ∀ {P : Uuid → Prop}, (∃ r ∈ db.runs, P r.id) → ∃ r ∈ db.runs.update p f hf, P r.id := by
    rintro P ⟨r, hr, _⟩
    exact ⟨_, mem_update_of_mem hr p f hf, by rwa [hi]⟩
  refine { h with runs := ?_, settled := ?_, history := ?_, attempts := ?_, timings := ?_ }
  · intro _ hr'
    obtain ⟨run, hru, rfl⟩ := (mem_update hf).1 hr'
    split
    · exact (hch run hru ‹_›).sound
    · exact h.runs run hru
  · intro job hj hE
    obtain ⟨owned, manual, hw, hok⟩ := h.settled job hj hE
    -- the changed rows belong to jobs that are left out
    have ho : ∀ r ∈ db.runs, p r = true → r.jobId ≠ job.id ∧ (f r).jobId ≠ job.id := by
      intro r hr hp
      have hc := hch r hr hp
      have hn : r.jobId ≠ job.id := fun he => hE (he ▸ hc.left)
      exact ⟨hn, hc.job ▸ hn⟩
    refine ⟨owned, manual, ⟨hw.owned.update_other hf ?_, hw.manual.update_other hf ?_⟩, hok⟩
    · intro r hr hp
      simp [ownedBy, ho r hr hp]
    · intro r hr hp
      simp [manualOf, ho r hr hp]
  · intro _ hr' hF
    obtain ⟨run, hru, rfl⟩ := (mem_update hf).1 hr'
    rw [hi] at hF ⊢
    split
    · exact (hch run hru ‹_›).history hF
    · exact h.history run hru hF
  · intro a ha
    exact hm (P := fun id => id = a.runId) (h.attempts a ha)
  · intro t ht
    exact hm (P := fun id => id = t.runId) (h.timings t ht)

theorem modifyRun {f : JobRun → JobRun} {hf : ∀ r : JobRun, key (f r) = key r}
    (hc : ∀ r ∈ db.runs, r.id = id → RunChange env E F db r (f r)) :
    Consistent env E F { db with runs := db.runs.modify id f hf } :=
  h.updateRuns fun r hr hp => hc r hr (@of_decide_eq_true _ _ hp)

theorem attemptsOf_new (hn : db.runs.find? id = none) : db.attemptsOf id = [] := by
  refine select_eq_nil.2 fun a ha => ?_
  obtain ⟨run, hr, hi⟩ := h.attempts a ha
  have hne : run.id ≠ id := Table.find?_eq_none.1 hn run hr
  rw [hi] at hne
  simpa using hne

/-- A new run waits for its first attempt, and its timing starts closed. -/
theorem insertRun {run : JobRun} {timing : RunTiming}
    (hl : E run.jobId) (hi : run.id ≠ Uuid.nil) (hsh : RunShape env run)
    (hal : storedTime run.runnableAt = run.runnableAt)
    (hor : run.origin ≠ .submitted ∧ (run.scheduleOwned = true ↔ run.origin = .scheduled))
    (hst : run.state = .scheduled)
    (hj : ∃ job ∈ db.jobs, job.id = run.jobId ∧ run.jobRevision ≤ job.revision ∧ run.type = job.type)
    (hq : ∃ queue ∈ db.queues, queue.id = run.queueId)
    (hti : timing.runId = run.id ∧ Telemetry.TimingShape .scheduled timing)
    (hn : db.runs.find? run.id = none) (hnew : db.timings.find? timing.runId = none) :
    Consistent env E F
      { db with runs := db.runs.insert run, timings := db.timings.insert timing } := by
  have hsu : ∀ {P : Uuid → Prop}, (∃ r ∈ db.runs, P r.id) → ∃ r ∈ db.runs.insert run, P r.id :=
    fun ⟨r, hr, hP⟩ => ⟨r, (mem_insert hn).2 (.inr hr), hP⟩
  have hat := h.attemptsOf_new hn
  refine { h with runs := ?_, settled := ?_, history := ?_, attempts := ?_, timings := ?_ }
  · intro r hr
    rcases (mem_insert hn).1 hr with rfl | hr
    · refine ⟨hi, hsh, hal, hor, ?_, hj, hq, timing, ?_, hti.1, ?_⟩
      · simp [hst, RunState.isTerminal]
      · exact (mem_insert hnew).2 (.inl rfl)
      · rw [hst]
        exact hti.2
    have hs := h.runs r hr
    obtain ⟨t, ht, how⟩ := hs.timing
    exact { hs with timing := ⟨t, (mem_insert hnew).2 (.inr ht), how⟩ }
  · intro job hj hE
    obtain ⟨owned, manual, hw, hok⟩ := h.settled job hj hE
    have hne : run.jobId ≠ job.id := fun he => hE (he ▸ hl)
    have ho := hw.owned.insert hn (r := run) (by simp [ownedBy, hne])
    have hm := hw.manual.insert hn (r := run) (by simp [manualOf, hne])
    simp only [ownedBy, manualOf, hne, decide_false, Bool.false_and, Bool.false_eq_true, if_false]
      at ho hm
    exact ⟨owned, manual, ⟨ho, hm⟩, hok⟩
  · intro r hr hF
    rcases (mem_insert hn).1 hr with rfl | hr
    · show HistoryOk _ (db.attemptsOf _)
      rw [hat]
      exact ⟨by simp, by simp, by simp, by simp, .inl hst⟩
    · exact h.history r hr hF
  · intro a ha
    exact hsu (P := fun id => id = a.runId) (h.attempts a ha)
  · intro t ht
    rcases (mem_insert hnew).1 ht with rfl | ht
    · exact ⟨run, (mem_insert hn).2 (.inl rfl), hti.1.symm⟩
    · exact hsu (P := fun id => id = t.runId) (h.timings t ht)

/-! ## Attempts, outputs and timings -/

theorem insertAttempt {a : JobAttempt} (hl : F a.runId)
    (hru : ∃ run ∈ db.runs, run.id = a.runId) (hn : db.attempts.find? (key a) = none) :
    Consistent env E F { db with attempts := db.attempts.insert a } := by
  refine { h with history := ?_, attempts := ?_, outputs := ?_ }
  · intro run hr hF
    have hne : a.runId ≠ run.id := fun he => hF (he ▸ hl)
    show HistoryOk run ((db.attempts.insert a).select fun x => x.runId = run.id)
    rw [select_insert_other hn (by simpa using hne)]
    exact h.history run hr hF
  · intro x hx
    rcases (mem_insert hn).1 hx with rfl | hx
    · exact hru
    · exact h.attempts x hx
  · intro o ho
    obtain ⟨x, hx, how⟩ := h.outputs o ho
    exact ⟨x, (mem_insert hn).2 (.inr hx), how⟩

theorem updateAttempts {p : JobAttempt → Bool} {f : JobAttempt → JobAttempt} {hf : ∀ a : JobAttempt, key (f a) = key a}
    (hl : ∀ a ∈ db.attempts, p a = true → F a.runId)
    (hc : ∀ a ∈ db.attempts, p a = true → a.state = .completed → (f a).state = .completed) :
    Consistent env E F { db with attempts := db.attempts.update p f hf } := by
  have hke : ∀ a : JobAttempt, key (if p a then f a else a) = key a := by
    intro a
    split
    · exact hf a
    · rfl
  have hru : ∀ a : JobAttempt, (if p a then f a else a).runId = a.runId :=
    fun a => congrArg AttemptKey.runId (hke a)
  refine { h with history := ?_, attempts := ?_, outputs := ?_ }
  · intro run hr hF
    show HistoryOk run ((db.attempts.update p f hf).select fun x => x.runId = run.id)
    rw [select_update hf fun a _ => by rw [hru]]
    rw [List.map_congr_left (g := id) (fun a ha => ?_), List.map_id]
    · exact h.history run hr hF
    · rw [mem_select] at ha
      refine if_neg fun hp => hF ?_
      have := hl a ha.1 hp
      rwa [of_decide_eq_true ha.2] at this
  · intro x hx
    obtain ⟨a, ha, rfl⟩ := (mem_update hf).1 hx
    rw [hru]
    exact h.attempts a ha
  · intro o ho
    obtain ⟨a, ha, hk, hs⟩ := h.outputs o ho
    refine ⟨_, mem_update_of_mem ha p f hf, (hke a).trans hk, ?_⟩
    split
    · exact hc a ha ‹_› hs
    · exact hs

theorem modifyAttempt {k : AttemptKey} {f : JobAttempt → JobAttempt}
    {hf : ∀ a : JobAttempt, key (f a) = key a} (hl : F k.runId)
    (hc : ∀ a ∈ db.attempts, key a = k → a.state = .completed → (f a).state = .completed) :
    Consistent env E F { db with attempts := db.attempts.modify k f hf } := by
  refine h.updateAttempts (fun a _ hp => ?_) fun a ha hp => hc a ha (@of_decide_eq_true _ _ hp)
  have hk : key a = k := @of_decide_eq_true _ _ hp
  rwa [← hk] at hl

/-- Outputs only have to belong to completed attempts. -/
theorem setOutputs {outputs : Table AttemptOutput}
    (ho : ∀ o ∈ outputs, ∃ a ∈ db.attempts, (key a : AttemptKey) = key o ∧ a.state = .completed) :
    Consistent env E F { db with outputs } :=
  { h with outputs := ho }

/-- Timings only have to fit the states of their runs. -/
theorem setTimings {timings : Table RunTiming} (ho : ∀ t ∈ timings, ∃ run ∈ db.runs, run.id = t.runId)
    (hfi : ∀ run ∈ db.runs, ∃ t ∈ timings, t.runId = run.id ∧ Telemetry.TimingShape run.state t) :
    Consistent env E F { db with timings } :=
  { h with
    runs := fun run hr => { h.runs run hr with timing := hfi run hr }
    timings := ho }

end

end Consistent

end Jobu
