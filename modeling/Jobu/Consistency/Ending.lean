import Jobu.Consistency.History
import Jobu.Consistency.Live
import Jobu.Scheduler.Core

/-!
# The end of a run

When a run ends, its job gets a successor, ends with it, or lives on with its other run; then the
suspensions that were waiting for it are drained.  Completions, cancellations and recovery share
these steps, with the job of the run left out until they are done.

  > `Ending.follow`: after the successor and the end of the job, the job agrees with its live runs.
  > `drain_moves`: the drain of both owners ends a transaction on one run.
-/

namespace Jobu

open Lib Table Scheduler JobRun Lifecycle

open Keyed (key)

variable {owned manual : Option JobRun} {run : JobRun} {transitionTime : Int} {finished : Bool}

/-! ## Counting the live runs -/

variable {env : Environment} {F E : Uuid → Prop} {db : Database} {jobId : Uuid}

theorem Consistent.countsOf_live (h : Consistent env E F db) (hw : Work db.runs jobId owned manual) :
    countsOf (db.liveRuns jobId) = ⟨owned.toList.length, manual.toList.length⟩ := by
  have hc : ∀ p q : JobRun → Bool, (db.runs.select q).countP p =
    db.runs.count fun run => p run && q run := fun p q => List.countP_filter
  unfold countsOf Database.liveRuns
  rw [hc, hc, ← hw.owned.count, ← hw.manual.count]
  congr 1
  · refine count_congr fun run _ => ?_
    simp only [ownedBy, isLiveOwned, Bool.and_comm, Bool.and_left_comm]
  refine count_congr fun run hr => ?_
  obtain ⟨hn, how⟩ := (h.runs run hr).origin
  have hor : (!run.scheduleOwned) = decide (run.origin = .manual) := by
    cases ho : run.origin with
    | scheduled => simp [how.2 ho]
    | manual => simp [Bool.eq_false_iff.2 fun hs => by rw [how.1 hs] at ho; cases ho]
    | submitted => exact absurd ho hn
  simp only [manualOf, isLiveManual, hor, Bool.and_comm, Bool.and_left_comm]

theorem Consistent.siblingCounts_eq (h : Consistent env E F db) (hw : Work db.runs jobId owned manual) :
    Telemetry.siblingCounts db jobId = ⟨owned.toList.length, manual.toList.length⟩ := by
  unfold Telemetry.siblingCounts
  rw [← hw.owned.count, ← hw.manual.count]
  congr 1
  · refine count_congr fun run hr => ?_
    obtain ⟨_, how⟩ := (h.runs run hr).origin
    cases ho : run.scheduleOwned with
    | true => simp [ownedBy, isLiveOwned, ho, how.1 ho]
    | false => simp [ownedBy, isLiveOwned, ho]
  refine count_congr fun run hr => ?_
  obtain ⟨_, how⟩ := (h.runs run hr).origin
  cases ho : run.scheduleOwned with
  | true => simp [manualOf, isLiveManual, how.1 ho]
  | false => simp [manualOf, isLiveManual, Bool.and_comm, Bool.and_left_comm, Bool.and_assoc]

/-! ## The report of an attempt -/

variable {db' : Database}

section Report

variable {env : Environment} {jobs : Table JobDefinition} {queues : Table Queue}
  {timings : Table RunTiming} {run : JobRun}

theorem retrying_sound (h : RunSound env jobs queues timings run) (hs : run.state = .running)
    (hc : Closed timings run.id) (dueAt : Int) :
    RunSound env jobs queues timings (retrying dueAt run) where
  id := h.id
  shape := by
    have hsh := h.shape
    have hst := hsh.started
    rw [hs] at hst
    refine ⟨hsh.revision, hsh.attributes, hsh.payload, hsh.owned, ?_, fun _ => ?_, hst⟩
    · have := hsh.completed
      rw [hs] at this
      exact this
    · exact hsh.result (by rw [hs]; rfl)
  aligned := storedTime_storedTime _
  origin := h.origin
  result ht := by cases ht
  job := h.job
  queue := h.queue
  timing := (timing_of_closed h.timing hc : ∃ t ∈ timings, t.runId = run.id ∧ Telemetry.TimingShape .retryWait t)

variable {state : RunState}

theorem ended_sound (h : RunSound env jobs queues timings run) (hte : state.isTerminal = true)
    (hst : validStartedAt state run.startedAt.isSome = true)
    (hc : Closed timings run.id) (completedAt : Int) (result : Json) :
    RunSound env jobs queues timings (ended state completedAt result run) where
  id := h.id
  shape := ⟨h.shape.revision, h.shape.attributes, h.shape.payload, h.shape.owned, hte, fun ht => (by
    rw [show (ended state completedAt result run).state = state from rfl, hte] at ht
    cases ht), hst⟩
  aligned := h.aligned
  origin := h.origin
  result _ := rfl
  job := h.job
  queue := h.queue
  timing := (timing_of_closed h.timing hc : ∃ t ∈ timings, t.runId = run.id ∧ Telemetry.TimingShape state t)

variable {completedAt : Int} {result : Json}

/-- The last attempt of a run that has just ended. -/
theorem lastOk_ended {result' : Json}
    {last : JobAttempt} (hte : state.isTerminal = true) (hd : last.dueAt = run.runnableAt) :
    LastOk (ended state completedAt result run)
      (some (reported completedAt (Recovery.expectedOutcome state) result' last)) := by
  cases state <;> first | exact .inl ⟨rfl, rfl, rfl, hd⟩ | cases hte

/-- The attempt of a running run is reported, and the run changes with it. -/
theorem report_consistent {k : AttemptKey}
    {outcome : AttemptOutcome} {outputs : Table AttemptOutput} {f : JobRun → JobRun}
    (hf : ∀ r : JobRun, key (f r) = key r) (h : Intact env db)
    (hru : run ∈ db.runs) (hs : run.state = .running) (hi : run.id = k.runId)
    (hk : ∃ a ∈ db.attempts, (key a : AttemptKey) = k ∧ a.state = .running)
    (hou : ∀ o ∈ outputs, (∃ o' ∈ db.outputs, (key o' : AttemptKey) = key o) ∨ (key o : AttemptKey) = k)
    (hsa : Same run (f run)) (hso : RunSound env db.jobs db.queues db.timings (f run))
    (hst : (f run).startedAt = run.startedAt) (hl : ∀ last, last.dueAt = run.runnableAt →
      LastOk (f run) (some (reported completedAt outcome result last)))
    (hd : db' = { db with
      attempts := db.attempts.modify k (reported completedAt outcome result)
        (fun _ => rfl)
      outputs
      runs := db.runs.modify run.id f hf }) :
    Consistent env (Only run.jobId) Nobody db' ∧ Frame (Only run.id) Nobody db db' := by
  obtain ⟨a, ha, hke, hrun⟩ := hk
  have hm := modify_mem ha (reported completedAt outcome result)
    (key_reported completedAt outcome result)
  rw [hke] at hm
  have h₁ : Consistent env (Only run.jobId) (Only run.id)
    { db with
      attempts := db.attempts.modify k (reported completedAt outcome result)
        fun _ => rfl } :=
    (h.weaken (fun _ => False.elim) fun _ => False.elim).modifyAttempt hi.symm fun _ _ _ _ => rfl
  have how : ∀ o ∈ outputs, ∃ b ∈ db.attempts.modify k
    (reported completedAt outcome result)
    fun _ => rfl,
    (key b : AttemptKey) = key o ∧ b.state = .completed := fun o ho => by
    rcases hou o ho with ⟨o', ho', hko⟩ | hko
    · obtain ⟨b, hb, hkb, hsb⟩ := h₁.outputs o' ho'
      exact ⟨b, hb, hkb.trans hko, hsb⟩
    · exact ⟨_, hm, hke.trans hko.symm, rfl⟩
  have h₂ := h₁.setOutputs how
  have h₃ : Consistent env (Only run.jobId) (Only run.id) db' := by
    rw [hd]
    refine h₂.modifyRun fun r hr hri => ?_
    obtain rfl : r = run := eq_of_key hr hru hri
    exact ⟨rfl, hso, hsa.jobId, fun hF => absurd rfl hF⟩
  have hme : f run ∈ db'.runs := by
    rw [hd]
    exact modify_mem hru f hf
  refine ⟨{ h₃ with history := fun r hr _ => ?_ }, ?_⟩
  · by_cases hri : r.id = run.id
    · obtain rfl : r = f run := eq_of_key hr hme (hri.trans hsa.id.symm)
      have hof : db'.attemptsOf run.id = (db.attemptsOf run.id).map fun b =>
        if (key b : AttemptKey) = k then reported completedAt outcome result b else b := by
        rw [hd]
        simp only [Database.attemptsOf, Table.modify]
        rw [select_update (key_reported completedAt outcome result)]
        · simp only [decide_eq_true_eq]
        · intro b _
          split <;> rfl
      rw [hsa.id, hof]
      refine (h.history run hru id).report hs ⟨a, mem_select.2 ⟨ha, ?_⟩, hke, hrun⟩ hst hl
      rw [decide_eq_true_eq, hi, ← hke]
      rfl
    · exact h₃.history r hr hri
  · have hat : Frame (Only run.id) Nobody db
      { db with
        attempts := db.attempts.modify k (reported completedAt outcome result)
          fun _ => rfl } :=
      .modifyAttempt (key_reported completedAt outcome result) rfl rfl hi.symm
        fun b hb hkb hc => by
          obtain rfl := eq_of_key hb ha (hkb.trans hke.symm)
          rw [hrun] at hc
          cases hc
    refine hat.trans (.modifyRun hf (by rw [hd]) (by rw [hd]) fun r hr hri => ?_)
    obtain rfl : r = run := eq_of_key hr hru hri
    exact ⟨hsa, by rw [hs]; rfl, fun hn => absurd rfl hn⟩

end Report

/-! ## Successors -/

variable {generate : Database → Except Error Uuid} {job : JobDefinition}

/-- A successor is the owned run of its job. -/
theorem insertRecurringRun_consistent {lowerBound : Int} {measurement : Runs.InitialMeasurement} {inserted : Bool}
    (h : Consistent env (Only job.id) F db) (hj : job ∈ db.jobs) (hw : Work db.runs job.id none manual)
    (hg : ∀ db id, generate db = .ok id → id ≠ Uuid.nil)
    (hy : Yields (insertRecurringRun env generate job lowerBound measurement) db inserted db') :
    (inserted = false ∧ db' = db ∧ (job.state = .deleted ∨ job.schedule.isOnce = true)) ∨
      (inserted = true ∧ Consistent env (Only job.id) F db' ∧
        (∀ touched moved, Frame touched moved db db') ∧ db'.queues = db.queues ∧
        db'.jobs = db.jobs ∧ db'.attempts = db.attempts ∧
        ∃ run, run.state = .scheduled ∧ Fits job run ∧ Work db'.runs job.id (some run) manual) := by
  unfold insertRecurringRun at hy
  split at hy
  next hd => exact .inl ⟨((yields_pure _ _ _ _).1 hy).1, ((yields_pure _ _ _ _).1 hy).2, .inl hd⟩
  split at hy
  next hs => exact .inl ⟨((yields_pure _ _ _ _).1 hy).1, ((yields_pure _ _ _ _).1 hy).2, .inr (by rw [hs]; rfl)⟩
  simp only [yields_steps] at hy
  obtain ⟨_, _, ⟨-, rfl⟩, _, _, ⟨-, rfl⟩, _, _, ⟨-, rfl⟩, _, db, ⟨hid, rfl⟩, _, _, hin, rfl, rfl⟩ := hy
  obtain ⟨ho, -, hi⟩ := Runs.yields_insertScheduleOwned.1 hin
  have h₁ := inserts_consistent h hi rfl (hg _ _ hid) (h.jobs job hj).shape.payload
    ⟨RunOrigin.noConfusion, iff_of_true rfl rfl⟩ ⟨job, hj, rfl, le_refl _, rfl⟩
  have hfr : ∀ touched moved, Frame touched moved db db' := fun _ _ => hi.frame
  obtain ⟨-, -, -, hfre, -, rfl⟩ := hi
  exact .inr ⟨rfl, h₁, hfr, rfl, rfl, rfl, _, rfl, ⟨rfl, le_refl _⟩, hw.insertOwned hfre rfl rfl ho⟩

/-! ## The end of a job -/

/-- A one-time job ends with its last run. -/
theorem finishAfterTerminalRun_consistent (h : Consistent env (Only job.id) F db)
    (hj : job ∈ db.jobs) (hr : run ∈ db.runs) (how : run.jobId = job.id)
    (hw : Work db.runs job.id owned manual) (hop : job.state ≠ .deleted ∧ job.state.isTerminal = false)
    (hy : Yields (finishAfterTerminalRun env run.id transitionTime) db finished db') :
    (finished = false ∧ db' = db ∧ (job.schedule.isOnce = true → owned.isSome = true ∨ manual.isSome = true)) ∨
      (finished = true ∧ owned = none ∧ manual = none ∧ job.schedule.isOnce = true ∧
        Consistent env (Only job.id) F db' ∧ ∃ next, next.isTerminal = true ∧ Enters job.id job.state next db db') := by
  simp only [finishAfterTerminalRun, yields_steps, yields_ite] at hy
  obtain ⟨_, _, hfo, run', _, ⟨rfl, rfl⟩, next, _, ⟨hn, rfl⟩, _, _, ⟨-, rfl⟩, _, _, hown, job',
    _, ⟨rfl, rfl⟩, _, _, ⟨-, rfl⟩, hy⟩ := hy
  obtain ⟨rfl, hr', hi, -⟩ := Runs.yields_findById_some.1 hfo
  obtain rfl : run' = run := eq_of_key hr' hr hi
  obtain ⟨rfl, hj', hi', -⟩ := Jobs.yields_findById_some.1 hown
  obtain rfl : job' = job := eq_of_key hj' hj (hi'.trans how)
  split at hy
  next hno =>
    refine .inl ⟨hy.1, hy.2, fun ho => ?_⟩
    rcases hno with hd | ho'
    · exact absurd hd hop.1
    · rw [ho] at ho'
      cases ho'
  rename_i hon
  rw [not_or, Bool.not_eq_false] at hon
  obtain ⟨_, _, hc, _, _, ⟨-, rfl⟩, hy⟩ := hy
  obtain ⟨rfl, -, rfl, -⟩ := yields_readNonterminalRuns.1 hc
  rw [h.countsOf_live hw] at hy
  split at hy
  next hl =>
    refine .inl ⟨hy.1, hy.2, fun _ => ?_⟩
    rcases hl with ht | ho | hm
    · rw [hop.2] at ht
      cases ht
    · exact .inl (by cases owned <;> simp at ho ⊢)
    · exact .inr (by cases manual <;> simp at hm ⊢)
  next hnon =>
    simp only [not_or, not_not] at hnon
    obtain ⟨_, _, ⟨hre, rfl⟩, _, _, hse, _, _, ⟨rfl, rfl⟩, rfl, rfl⟩ := hy
    have hte : next.isTerminal = true := by
      cases hs : run'.state <;> rw [hs] at hn <;> cases hn <;> rfl
    obtain ⟨h₁, he⟩ := setState_consistent h rfl (fun row hro hri _ => by
      obtain rfl : row = job' := eq_of_key hro hj hri
      exact hon.2) hre hse
    exact .inr ⟨rfl, by cases owned <;> simp_all, by cases manual <;> simp_all, hon.2, h₁, next,
      hte, he⟩

/-- An open job and the live runs it has left. -/
structure Remaining (job : JobDefinition) (owned manual : Option JobRun) : Prop where
  isOpen : job.state ≠ .deleted ∧ job.state.isTerminal = false
  ownedFits : ∀ run ∈ owned, Fits job run
  manualFits : ∀ run ∈ manual, Fits job run
  suspended : job.state = .suspended → ∀ run ∈ owned, run.state ≠ .running

/-- A job that has just lost one of its live runs. -/
structure Ending (job : JobDefinition) (wasOwned : Bool) (owned manual : Option JobRun) : Prop
    extends Remaining job owned manual where
  vacated : (wasOwned = true ∧ owned = none) ∨ (wasOwned = false ∧ manual = none)
  recurring : wasOwned = false → job.schedule.isOnce = false → owned.isSome = true

/-- What follows the end of a run. -/
structure Follows (env : Environment) (F : Uuid → Prop) (job : JobDefinition) (db db' : Database) : Prop where
  consistent : Consistent env (Only job.id) F db'
  settled : ∀ job' ∈ db'.jobs, job'.id = job.id → Settled db'.runs job'
  frame : ∀ touched moved, Frame touched moved db db'
  queues : db'.queues = db.queues
  attempts : db'.attempts = db.attempts
  jobs : ∀ job' ∈ db'.jobs, job' ∈ db.jobs ∨ (job'.id = job.id ∧ job'.state.isTerminal = true)

theorem JobOk.isOpen (h : JobOk job owned manual)
    (hl : owned ≠ none ∨ manual ≠ none) : job.state ≠ .deleted ∧ job.state.isTerminal = false := by
  constructor
  · intro hd
    obtain ⟨ho, hm⟩ := h.ended (.inl hd)
    exact hl.elim (fun hn => hn ho) fun hn => hn hm
  · by_contra ht
    obtain ⟨ho, hm⟩ := h.ended (.inr (by simpa using ht))
    exact hl.elim (fun hn => hn ho) fun hn => hn hm

theorem Settled.ending {runs : Table JobRun} {job : JobDefinition}
    {f : JobRun → JobRun} (hf : ∀ r : JobRun, key (f r) = key r) (h : Settled runs job)
    (hru : run ∈ runs) (how : run.jobId = job.id) (hl : run.state.isTerminal = false)
    (hor : run.origin ≠ .submitted ∧ (run.scheduleOwned = true ↔ run.origin = .scheduled))
    (he : (f run).state.isTerminal = true) :
    ∃ owned manual, Work (runs.modify run.id f hf) job.id owned manual ∧ Ending job run.scheduleOwned owned manual := by
  obtain ⟨owned, manual, hw, hok⟩ := h
  have hse : ∀ r ∈ runs, decide (key r = run.id) = true → r = run := fun r hr hp =>
    eq_of_key hr hru (@of_decide_eq_true _ _ hp)
  -- the ended run is neither of the two any more
  have hou : ownedBy job.id (f run) = false ∧ manualOf job.id (f run) = false := by
    simp [ownedBy, manualOf, isLiveOwned, isLiveManual, isLive, he]
  have hg : ∀ {p : JobRun → Bool}, p (f run) = false → runs.IsOnly p (some run) →
    (runs.modify run.id f hf).IsOnly p none := fun {p} hp ho => by
    have := ho.update (q := fun r => decide (key r = run.id)) hf fun r hr hq hpr => by
      rw [hse r hr hq, hp] at hpr
      cases hpr
    simp only [Option.map_some, show key run = run.id from rfl, decide_true, if_true, Option.filter,
      hp, Bool.false_eq_true, if_false] at this
    exact this
  have hk : ∀ {p : JobRun → Bool} {o : Option JobRun}, p run = false → p (f run) = false →
    runs.IsOnly p o → (runs.modify run.id f hf).IsOnly p o := fun hp hp' ho =>
    ho.update_other hf fun r hr hq => by rw [hse r hr hq]; exact ⟨hp, hp'⟩
  cases hso : run.scheduleOwned with
  | true =>
    have hno : manualOf job.id run = false := by simp [manualOf, isLiveManual, hor.2.1 hso]
    obtain rfl : owned = some run := hw.owned.eq_some hru (by
      simp [ownedBy, isLiveOwned, isLive, how, hl, hso])
    exact ⟨none, manual, ⟨hg hou.1 hw.owned, hk hno hou.2 hw.manual⟩,
      ⟨hok.isOpen (.inl (Option.some_ne_none _)), fun _ hr => (by cases hr), hok.manualFits,
        fun _ _ hr => by cases hr⟩, .inl ⟨rfl, rfl⟩, fun hn => by cases hn⟩
  | false =>
    have hm : run.origin = .manual := by
      cases ho : run.origin with
      | scheduled => rw [hor.2.2 ho] at hso; cases hso
      | manual => rfl
      | submitted => exact absurd ho hor.1
    obtain rfl : manual = some run := hw.manual.eq_some hru (by
      simp [manualOf, isLiveManual, isLive, how, hl, hm])
    have hop := hok.isOpen (.inr (Option.some_ne_none _))
    exact ⟨owned, none, ⟨hk (by simp [ownedBy, isLiveOwned, hso]) hou.1 hw.owned,
      hg hou.2 hw.manual⟩, ⟨hop, hok.ownedFits, fun _ hr => (by cases hr), hok.suspended⟩,
      .inr ⟨rfl, rfl⟩, fun _ => hok.recurring hop.1⟩

section Follow

variable {env : Environment} {F : Uuid → Prop} {db db1 db' : Database} {job : JobDefinition}
  {owned manual : Option JobRun}

/-- A job that is not one-time, or has a live run left, goes on. -/
theorem Remaining.go_on (he : Remaining job owned manual)
    (hr : job.schedule.isOnce = false → owned.isSome = true)
    (hba : manual.isSome = true → ∀ run ∈ owned, run.state = .scheduled)
    (hl : job.schedule.isOnce = true → owned.isSome = true ∨ manual.isSome = true) :
    JobOk job owned manual where
  ownedFits := he.ownedFits
  manualFits := he.manualFits
  barrier := hba
  ended hen := by
    rcases hen with hd | ht
    · exact absurd hd he.isOpen.1
    · rw [he.isOpen.2] at ht
      cases ht
  recurring _ := hr
  unfinished _ _ := by
    cases ho : job.schedule.isOnce with
    | false => exact .inl (hr ho)
    | true => exact hl ho
  suspended := he.suspended

theorem JobOk.of_finished (hte : job.state.isTerminal = true)
    (hon : job.schedule.isOnce = true) : JobOk job none none where
  ownedFits run hr := by cases hr
  manualFits run hr := by cases hr
  barrier hm := by cases hm
  ended _ := ⟨rfl, rfl⟩
  recurring _ ho := by rw [hon] at ho; cases ho
  unfinished _ ht := by rw [hte] at ht; cases ht
  suspended _ run hr := by cases hr

/-- The last step: the job goes on, or ends. -/
theorem Remaining.finish (he : Remaining job owned manual) (h : Consistent env (Only job.id) F db)
    (hjo : job ∈ db.jobs) (hru : run ∈ db.runs) (ho : run.jobId = job.id)
    (hw : Work db.runs job.id owned manual) (hre : job.schedule.isOnce = false → owned.isSome = true)
    (hba : manual.isSome = true → ∀ run ∈ owned, run.state = .scheduled)
    (hy : Yields (finishAfterTerminalRun env run.id transitionTime) db finished db') :
    Follows env F job db db' := by
  rcases finishAfterTerminalRun_consistent h hjo hru ho hw he.isOpen hy with
    ⟨-, rfl, hl⟩ | ⟨-, rfl, rfl, hon, h', next, hte, hen⟩
  · refine ⟨h, fun job' hj' hi => ?_, fun _ _ => .refl _ _ _, rfl, rfl, fun _ hj => .inl hj⟩
    obtain rfl := eq_of_key hj' hjo hi
    exact ⟨owned, manual, hw, he.go_on hre hba hl⟩
  obtain ⟨hq, hr, hat, -, ⟨row, hro, _, _, hi, -, -, hm⟩, hot⟩ := hen
  obtain rfl : row = job := eq_of_key hro hjo hi
  refine ⟨h', fun job' hj' hi' => ?_, fun _ _ => .of_eq hr hat, hq, hat, fun job' hj' => ?_⟩
  · obtain rfl := eq_of_key hj' hm hi'
    exact ⟨none, none, hr ▸ hw, .of_finished hte hon⟩
  · refine (hot job' hj').imp_right fun hi' => ⟨hi', ?_⟩
    obtain rfl := eq_of_key hj' hm hi'
    exact hte

/-- **After its successor and the end of its job, a run has left everything in order.** -/
theorem Ending.follow (he : Ending job run.scheduleOwned owned manual) (h : Consistent env (Only job.id) F db)
    (hj : job ∈ db.jobs) (hru : run ∈ db.runs) (how : run.jobId = job.id)
    (hw : Work db.runs job.id owned manual) (hg : ∀ db id, generate db = .ok id → id ≠ Uuid.nil)
    (hsu : (run.scheduleOwned = false ∧ db1 = db) ∨ (run.scheduleOwned = true ∧
      ∃ lowerBound measurement inserted, Yields (insertRecurringRun env generate job
        lowerBound measurement) db inserted db1))
    (hy : Yields (finishAfterTerminalRun env run.id transitionTime) db1 finished db') :
    Follows env F job db db' := by
  rcases hsu with ⟨hma, rfl⟩ | ⟨hown, _, _, _, hi⟩
  · obtain rfl : manual = none := (he.vacated.resolve_left fun hv => by rw [hma] at hv; cases hv.1).2
    exact he.finish h hj hru how hw (he.recurring hma) (fun hm => by cases hm) hy
  obtain rfl : owned = none := (he.vacated.resolve_right fun hv => by rw [hown] at hv; cases hv.1).2
  rcases insertRecurringRun_consistent h hj hw hg hi with
    ⟨-, rfl, hen⟩ | ⟨-, h₁, hf1, hq1, hj1, ha1, next, hs, hfi, hw1⟩
  · have hon := hen.resolve_left he.isOpen.1
    exact he.finish h hj hru how hw (fun ho => by rw [hon] at ho; cases ho)
      (fun _ _ hr => by cases hr) hy
  -- the successor is in place, so the job goes on
  obtain ⟨_, hr1, hsa, -⟩ := (hf1 Nobody Nobody).runs run hru
  have he1 : Remaining job (some next) manual := by
    refine ⟨he.isOpen, fun r hr => ?_, he.manualFits, fun _ r hr => ?_⟩
    · cases hr
      exact hfi
    · cases hr
      rw [hs]
      exact RunState.noConfusion
  rw [← hsa.id] at hy
  have hf := he1.finish h₁ (hj1 ▸ hj) hr1 (hsa.jobId.trans how) hw1 (fun _ => rfl)
    (fun _ r hr => by cases hr; exact hs) hy
  exact ⟨hf.consistent, hf.settled, fun _ _ => (hf1 _ _).trans (hf.frame _ _),
    hf.queues.trans hq1, hf.attempts.trans ha1, hj1 ▸ hf.jobs⟩

end Follow

/-! ## Drained suspensions -/

section Drain

variable {env : Environment} {E F : Uuid → Prop} {db db' : Database} {queueId jobId : Uuid}
  {updatedAt : Int} {drained : Bool}

/-- What draining a queue leaves. -/
structure DrainsQueue (queueId : Uuid) (db db' : Database) : Prop where
  jobs : db'.jobs = db.jobs
  runs : db'.runs = db.runs
  attempts : db'.attempts = db.attempts
  queues : ∀ queue' ∈ db'.queues, (queue' ∈ db.queues ∧ (queue'.id = queueId → queue'.state ≠ .suspending)) ∨
    (queue'.id = queueId ∧ Drained db.runs queue')

theorem drainQueue_consistent (h : Consistent env E F db)
    (hy : Yields (completeDrainedQueueSuspension env queueId updatedAt) db drained db') :
    Consistent env E F db' ∧ DrainsQueue queueId db db' := by
  obtain ⟨queue, hqu, hid, hsh, ⟨-, hs, hi, hr, rfl⟩ | ⟨-, hbu, rfl⟩⟩ :=
    yields_drainedQueue.1 hy
  · refine ⟨h.modifyQueue (fun q hq hqi => ?_) (fun q _ _ _ hd => by cases hd), rfl, rfl, rfl,
      fun queue' hq' => ?_⟩
    · obtain rfl : q = queue := eq_of_key hq hqu (hqi.trans hid.symm)
      refine ⟨⟨Nat.le_add_left 1 _, hr⟩, ?_, hsh.weight, hsh.limit, hsh.defaults,
        hsh.retention, hsh.warning, ?_⟩
      · have hna := hsh.name
        rw [Queue.shownName, if_neg (by rw [hs]; exact QueueState.noConfusion)] at hna
        exact hna
      · refine iff_of_false QueueState.noConfusion fun hd => ?_
        rw [hsh.deleted.2 hd] at hs
        cases hs
    · rcases (mem_modify (Queues.key_entered _ _ _)).1 hq' with ⟨q, hq, hqi, rfl⟩ | ⟨hq, hne⟩
      · refine .inr ⟨hqi, fun _ run hru hk => hi run hru ?_, fun hn => by cases hn⟩
        rw [hk]
        exact hqi
      · exact .inl ⟨hq, fun he => absurd he hne⟩
  · refine ⟨h, rfl, rfl, rfl, fun queue' hq' => ?_⟩
    by_cases hse : queue'.id = queueId ∧ queue'.state = .suspending
    · obtain rfl : queue' = queue := eq_of_key hq' hqu (hse.1.trans hid.symm)
      refine .inr ⟨hid, fun hn => ?_, fun _ => ?_⟩
      · rw [hse.2] at hn
        rcases hn with hn | hn <;> cases hn
      · rw [hid]
        exact hbu hse.2
    · exact .inl ⟨hq', fun he hs => hse ⟨he, hs⟩⟩

/-- What draining a job leaves. -/
structure DrainsJob (jobId : Uuid) (db db' : Database) : Prop where
  queues : db'.queues = db.queues
  runs : db'.runs = db.runs
  attempts : db'.attempts = db.attempts
  settled : ∀ job' ∈ db'.jobs, job'.id = jobId → Settled db'.runs job'
  jobs : ∀ job' ∈ db'.jobs, job'.state = .suspending → job' ∈ db.jobs ∧ (job'.id = jobId →
    ∃ run ∈ db.runs, run.jobId = jobId ∧ run.state = .running)

theorem drainJob_consistent (h : Consistent env (Only jobId) F db)
    (hse : ∀ job ∈ db.jobs, job.id = jobId → Settled db.runs job)
    (hy : Yields (completeDrainedJobSuspension env queueId jobId updatedAt) db drained
      db') : Consistent env (Only jobId) F db' ∧ DrainsJob jobId db db' := by
  obtain ⟨job, hjo, rfl, hsh, -, ⟨-, hs, hi, hre, rfl⟩ | ⟨-, hbu, rfl⟩⟩ :=
    yields_drainedJob.1 hy
  · have hn : job.deletedAt = none := by
      rw [← Option.not_isSome_iff_eq_none, ← hsh.deleted, hs]
      exact JobState.noConfusion
    have hset : Yields (Jobs.setState job.id .suspending .suspended job.revision (job.revision + 1)
      updatedAt) db true _ := Jobs.yields_setState_true.2 ⟨⟨JobState.noConfusion,
      JobState.noConfusion, JobState.noConfusion⟩, rfl, ⟨job, hjo, rfl, hs, rfl, hn⟩, rfl⟩
    obtain ⟨h₁, -⟩ := setState_consistent h rfl (fun _ _ _ ht => by cases ht) hre hset
    refine ⟨h₁, rfl, rfl, rfl, fun job' hjo' hid => ?_, fun job' hjo' hsu => ?_⟩
    · rcases (mem_modify (Jobs.key_entered _ _ _)).1 hjo' with ⟨j, hj, hji, rfl⟩ | ⟨-, hne⟩
      · obtain rfl : j = job := eq_of_key hj hjo hji
        obtain ⟨owned, manual, hw, ho⟩ := hse j hjo rfl
        refine ⟨owned, manual, hw, ho.enter ⟨?_, ?_⟩ rfl (Nat.le_succ _) rfl
          ⟨JobState.noConfusion, rfl⟩ fun _ run hr => ?_⟩
        · rw [hs]
          exact JobState.noConfusion
        · rw [hs]
          rfl
        · obtain ⟨hm, hj', -⟩ := hw.isLive_owned hr
          exact hi run hm hj'
      · exact absurd hid hne
    · rcases (mem_modify (Jobs.key_entered _ _ _)).1 hjo' with ⟨j, hj, _, rfl⟩ | ⟨hj, hne⟩
      · cases hsu
      · exact ⟨hj, fun he => absurd he hne⟩
  · refine ⟨h, rfl, rfl, rfl, hse, fun job' hjo' hsu => ⟨hjo', fun hid => ?_⟩⟩
    obtain rfl : job' = job := eq_of_key hjo' hjo hid
    exact hbu hsu

variable {touched : Uuid → Prop} {db1 : Database}

/-- **The transaction of one run ends with the drain of its owners.** -/
theorem drains_move {db2 : Database} {drained' : Bool} (hru : run ∈ db.runs) (how : run.jobId = job.id)
    (hto : ∀ id, touched id → id = run.id) (hfr : Frame touched Nobody db db1)
    (hqu : db1.queues = db.queues) (h : Consistent env (Only job.id) Nobody db1)
    (hset : ∀ job' ∈ db1.jobs, job'.id = job.id → Settled db1.runs job')
    (hj : ∀ job' ∈ db1.jobs, job'.state = .suspending → job' ∈ db.jobs ∨ job'.id = job.id)
    (hq : Yields (completeDrainedQueueSuspension env run.queueId updatedAt) db1 drained db2)
    (hjo : Yields (completeDrainedJobSuspension env queueId run.jobId updatedAt) db2
      drained' db') : Moves env touched Nobody db db' := by
  obtain ⟨h₂, hd2⟩ := drainQueue_consistent h hq
  rw [how] at hjo
  obtain ⟨h₃, hd3⟩ := drainJob_consistent h₂ (by rw [hd2.jobs, hd2.runs]; exact hset) hjo
  have hrun := hd3.runs.trans hd2.runs
  have hse : ∀ r ∈ db.runs, touched r.id → r = run := fun r hr ht => eq_of_key hr hru (hto r.id ht)
  refine ⟨h₃.closeJob hd3.settled, (hfr.then_eq hd2.runs hd2.attempts).then_eq hd3.runs
    hd3.attempts, fun queue' hq' => ?_, fun job' hj' hsu => ?_⟩
  · rw [hd3.queues] at hq'
    rcases hd2.queues queue' hq' with ⟨ho, hn⟩ | ⟨-, hd⟩
    · refine .inl ⟨queue', hqu ▸ ho, rfl, rfl, fun hsu r hr ht he => ?_⟩
      obtain rfl := hse r hr ht
      exact hn he.symm hsu
    · exact .inr (hrun ▸ hd)
  obtain ⟨ho, hbu⟩ := hd3.jobs job' hj' hsu
  by_cases hi : job'.id = job.id
  · rw [hi, hrun]
    rw [hd2.runs] at hbu
    exact .inr (hbu hi)
  rw [hd2.jobs] at ho
  refine .inl ⟨job', (hj job' ho hsu).resolve_right hi, rfl, hsu, fun r hr ht he => ?_⟩
  obtain rfl := hse r hr ht
  exact hi (he.symm.trans how)

theorem drain_moves {u : Unit} (hr : run ∈ db.runs) (ho : run.jobId = job.id)
    (hto : ∀ id, touched id → id = run.id) (hfr : Frame touched Nobody db db1)
    (hqu : db1.queues = db.queues) (h : Consistent env (Only job.id) Nobody db1)
    (hse : ∀ job' ∈ db1.jobs, job'.id = job.id → Settled db1.runs job')
    (hj : ∀ job' ∈ db1.jobs, job'.state = .suspending → job' ∈ db.jobs ∨ job'.id = job.id)
    (hy : Yields (completeDrainedSuspensions env run.queueId run.jobId updatedAt) db1 u
      db') : Moves env touched Nobody db db' := by
  simp only [completeDrainedSuspensions, yields_steps] at hy
  obtain ⟨_, _, hq, _, _, hjo, -, rfl⟩ := hy
  exact drains_move hr ho hto hfr hqu h hse hj hq hjo

end Drain

end Jobu
