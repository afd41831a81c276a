import Jobu.Consistency.Timing

/-!
# What a transaction leaves alone

`Frame touched moved db db'` says what happened to the runs and attempts between two databases,
for every run that is not `touched`: its attempts are the same rows, and it kept its state unless
it was waiting and is now cancelled.  Also a touched run keeps its identity, a terminal run never
changes, and neither does a completed attempt.  Only the running runs of `moved` jobs change their
queue.

  > `Frame.running`: an untouched running run is still running, and of an unmoved job in its queue.
-/

namespace Jobu

open Lib Table

open Keyed (key)

/-- Everything may be touched. -/
def Everybody : Uuid → Prop := fun _ => True

/-- What no transaction changes in a run. -/
structure Same (run run' : JobRun) : Prop where
  id : run'.id = run.id
  jobId : run'.jobId = run.jobId
  type : run'.type = run.type
  origin : run'.origin = run.origin
  owned : run'.scheduleOwned = run.scheduleOwned

/-- What happens to a run by the way. -/
structure Kept (moved : Uuid → Prop) (run run' : JobRun) : Prop where
  state : run'.state = run.state ∨ (run.state.isPending = true ∧ run'.state = .cancelled)
  queue : run.state = .running → ¬ moved run.jobId → run'.queueId = run.queueId

theorem Same.refl (run : JobRun) : Same run run := ⟨rfl, rfl, rfl, rfl, rfl⟩

variable {run run' : JobRun}

theorem Same.trans {run1 : JobRun} (h₁ : Same run run1) (h₂ : Same run1 run') : Same run run' :=
  ⟨h₂.id.trans h₁.id, h₂.jobId.trans h₁.jobId, h₂.type.trans h₁.type, h₂.origin.trans h₁.origin,
    h₂.owned.trans h₁.owned⟩

theorem Kept.refl (moved : Uuid → Prop) (run : JobRun) : Kept moved run run := ⟨.inl rfl, fun _ _ => rfl⟩

theorem RunState.not_isTerminal_of_isPending {state : RunState} (h : state.isPending = true) :
    state.isTerminal = false := by
  cases state <;> first | rfl | cases h

/-- The frame of a transaction. -/
structure Frame (touched moved : Uuid → Prop) (db db' : Database) : Prop where
  runs : ∀ run ∈ db.runs, ∃ run' ∈ db'.runs, Same run run' ∧
    (run.state.isTerminal = true → run' = run) ∧ (¬ touched run.id → Kept moved run run')
  back : ∀ run' ∈ db'.runs, (∃ run ∈ db.runs, run.id = run'.id) ∨ touched run'.id ∨ run'.state ≠ .running
  attempts : ∀ a ∈ db.attempts, ∃ a' ∈ db'.attempts, (key a' : AttemptKey) = key a ∧
    (a.state = .completed ∨ ¬ touched a.runId → a' = a)
  newAttempts : ∀ a' ∈ db'.attempts, (∃ a ∈ db.attempts, (key a : AttemptKey) = key a') ∨ touched a'.runId

namespace Frame

variable {touched moved : Uuid → Prop} {db db1 db' : Database}

/-- Only other tables changed. -/
theorem of_eq (hr : db'.runs = db.runs) (ha : db'.attempts = db.attempts) : Frame touched moved db db' where
  runs run hru := ⟨run, hr ▸ hru, .refl run, fun _ => rfl, fun _ => .refl moved run⟩
  back run' hr' := .inl ⟨run', hr ▸ hr', rfl⟩
  attempts a h := ⟨a, ha ▸ h, rfl, fun _ => rfl⟩
  newAttempts a' h := .inl ⟨a', ha ▸ h, rfl⟩

theorem refl (touched moved : Uuid → Prop) (db : Database) : Frame touched moved db db := of_eq rfl rfl

theorem retimed (h : Retimed db db') : Frame touched moved db db' := of_eq h.runs h.attempts

theorem run_eq (h : Frame touched moved db db') (hr : run ∈ db.runs)
    (hr' : run' ∈ db'.runs) (hi : run'.id = run.id) : Same run run' ∧
      (run.state.isTerminal = true → run' = run) ∧ (¬ touched run.id → Kept moved run run') := by
  obtain ⟨run1, hr1, hsa, hre⟩ := h.runs run hr
  obtain rfl : run1 = run' := eq_of_key hr1 hr' (hsa.id.trans hi.symm)
  exact ⟨hsa, hre⟩

theorem trans (h₁ : Frame touched moved db db1) (h₂ : Frame touched moved db1 db') : Frame touched moved db db' where
  runs run hru := by
    obtain ⟨run1, hr1, hs1, hen1, hke1⟩ := h₁.runs run hru
    obtain ⟨run', hr', hs2, hen2, hke2⟩ := h₂.runs run1 hr1
    refine ⟨run', hr', hs1.trans hs2, fun ht => ?_, fun hn => ?_⟩
    · obtain rfl := hen1 ht
      exact hen2 ht
    have hk1 := hke1 hn
    have hk2 := hke2 (by rwa [hs1.id])
    rcases hk1.state with hs | ⟨hp, hc⟩
    · refine ⟨hs ▸ hk2.state, fun hr hm => ?_⟩
      rw [hk2.queue (hs.trans hr) (by rwa [hs1.jobId]), hk1.queue hr hm]
    · obtain rfl := hen2 (by rw [hc]; rfl)
      exact ⟨.inr ⟨hp, hc⟩, fun hr => by rw [hr] at hp; cases hp⟩
  back run' hr' := by
    rcases h₂.back run' hr' with ⟨run1, hr1, hi⟩ | hre
    · rcases h₁.back run1 hr1 with ⟨run, hru, hi1⟩ | ht | _
      · exact .inl ⟨run, hru, hi1.trans hi⟩
      · exact .inr (.inl (hi ▸ ht))
      by_cases ht : touched run1.id
      · exact .inr (.inl (hi ▸ ht))
      refine .inr (.inr ?_)
      rcases ((h₂.run_eq hr1 hr' hi.symm).2.2 ht).state with he | ⟨-, hc⟩
      · rwa [he]
      · rw [hc]
        exact RunState.noConfusion
    · exact .inr hre
  attempts a ha := by
    obtain ⟨a1, ha1, hk1, he1⟩ := h₁.attempts a ha
    obtain ⟨a', ha', hk2, he2⟩ := h₂.attempts a1 ha1
    refine ⟨a', ha', hk2.trans hk1, fun hc => ?_⟩
    obtain rfl := he1 hc
    exact he2 hc
  newAttempts a' ha' := by
    rcases h₂.newAttempts a' ha' with ⟨a1, ha1, hk1⟩ | ht
    · rcases h₁.newAttempts a1 ha1 with ⟨a, ha, hk⟩ | ht
      · exact .inl ⟨a, ha, hk.trans hk1⟩
      · have hi : a1.runId = a'.runId := congrArg AttemptKey.runId hk1
        exact .inr (hi ▸ ht)
    · exact .inr ht

/-- Other tables changed first. -/
theorem after_eq (h : Frame touched moved db1 db') (hr : db1.runs = db.runs)
    (ha : db1.attempts = db.attempts) : Frame touched moved db db' :=
  (of_eq hr ha).trans h

/-- Other tables changed last. -/
theorem then_eq (h : Frame touched moved db db1) (hr : db'.runs = db1.runs)
    (ha : db'.attempts = db1.attempts) : Frame touched moved db db' :=
  h.trans (of_eq hr ha)

theorem weaken {touched' moved' : Uuid → Prop} (h : Frame touched moved db db')
    (ht : ∀ id, touched id → touched' id) (hm : ∀ id, moved id → moved' id) :
    Frame touched' moved' db db' where
  runs run hru := by
    obtain ⟨run', hr', hsa, hen, hke⟩ := h.runs run hru
    refine ⟨run', hr', hsa, hen, fun hno => ?_⟩
    have hk := hke fun hi => hno (ht _ hi)
    exact ⟨hk.state, fun hr hn => hk.queue hr fun hi => hn (hm _ hi)⟩
  back run' hr' := (h.back run' hr').imp_right (Or.imp_left (ht _))
  attempts a ha := by
    obtain ⟨a', ha', hk, he⟩ := h.attempts a ha
    exact ⟨a', ha', hk, fun hc => he (hc.imp_right fun hno hi => hno (ht _ hi))⟩
  newAttempts a' ha' := (h.newAttempts a' ha').imp_right (ht _)

/-! ## What the statements leave alone -/

variable {f : JobRun → JobRun}

theorem updateRuns {p : JobRun → Bool} (hf : ∀ r : JobRun, key (f r) = key r)
    (hr : db'.runs = db.runs.update p f hf) (ha : db'.attempts = db.attempts)
    (hc : ∀ r ∈ db.runs, p r = true → Same r (f r) ∧ r.state.isTerminal = false ∧
      (¬ touched r.id → Kept moved r (f r))) : Frame touched moved db db' where
  runs run hru := by
    refine ⟨_, hr ▸ mem_update_of_mem hru p f hf, ?_⟩
    split
    next hp =>
      obtain ⟨hsa, hl, hk⟩ := hc run hru hp
      exact ⟨hsa, fun ht => (by rw [hl] at ht; cases ht), hk⟩
    · exact ⟨.refl run, fun _ => rfl, fun _ => .refl moved run⟩
  back run' hr' := by
    rw [hr] at hr'
    obtain ⟨run, hru, rfl⟩ := (mem_update hf).1 hr'
    refine .inl ⟨run, hru, ?_⟩
    split
    · exact (hf run).symm
    · rfl
  attempts a h := ⟨a, ha ▸ h, rfl, fun _ => rfl⟩
  newAttempts a' h := .inl ⟨a', ha ▸ h, rfl⟩

theorem modifyRun {id : Uuid} (hf : ∀ r : JobRun, key (f r) = key r)
    (hr : db'.runs = db.runs.modify id f hf) (ha : db'.attempts = db.attempts)
    (hc : ∀ r ∈ db.runs, r.id = id → Same r (f r) ∧ r.state.isTerminal = false ∧
      (¬ touched r.id → Kept moved r (f r))) : Frame touched moved db db' :=
  updateRuns hf hr ha fun r hr hp => hc r hr (@of_decide_eq_true _ _ hp)

theorem insertRun (hr : db'.runs = db.runs.insert run)
    (ha : db'.attempts = db.attempts) (hn : db.runs.find? run.id = none)
    (hst : run.state = .scheduled) : Frame touched moved db db' where
  runs r hru := ⟨r, hr ▸ (Table.mem_insert hn).2 (.inr hru), .refl r, fun _ => rfl, fun _ => .refl moved r⟩
  back r hru := by
    rw [hr] at hru
    rcases (mem_insert hn).1 hru with rfl | hru
    · refine .inr (.inr ?_)
      rw [hst]
      exact RunState.noConfusion
    · exact .inl ⟨r, hru, rfl⟩
  attempts a h := ⟨a, ha ▸ h, rfl, fun _ => rfl⟩
  newAttempts a' h := .inl ⟨a', ha ▸ h, rfl⟩

theorem insertAttempt {a : JobAttempt} (hr : db'.runs = db.runs)
    (ha : db'.attempts = db.attempts.insert a) (hn : db.attempts.find? (key a) = none)
    (ht : touched a.runId) : Frame touched moved db db' where
  runs r hru := ⟨r, hr ▸ hru, .refl r, fun _ => rfl, fun _ => .refl moved r⟩
  back r hru := .inl ⟨r, hr ▸ hru, rfl⟩
  attempts x hx := ⟨x, ha ▸ (Table.mem_insert hn).2 (.inr hx), rfl, fun _ => rfl⟩
  newAttempts x hx := by
    rw [ha] at hx
    rcases (mem_insert hn).1 hx with rfl | hx
    · exact .inr ht
    · exact .inl ⟨x, hx, rfl⟩

theorem modifyAttempt {k : AttemptKey} {f : JobAttempt → JobAttempt}
    (hf : ∀ a : JobAttempt, key (f a) = key a) (hr : db'.runs = db.runs)
    (ha : db'.attempts = db.attempts.modify k f hf) (ht : touched k.runId)
    (hc : ∀ a ∈ db.attempts, key a = k → a.state ≠ .completed) : Frame touched moved db db' where
  runs r hru := ⟨r, hr ▸ hru, .refl r, fun _ => rfl, fun _ => .refl moved r⟩
  back r hru := .inl ⟨r, hr ▸ hru, rfl⟩
  attempts a hm := by
    rw [ha]
    by_cases hk : key a = k
    · subst hk
      exact ⟨f a, modify_mem hm f hf, hf a, fun h => (h.elim (hc a hm rfl) fun hn => hn ht).elim⟩
    · exact ⟨a, modify_mem_other hm hk f hf, rfl, fun _ => rfl⟩
  newAttempts a' hm := by
    rw [ha] at hm
    rcases (mem_modify hf).1 hm with ⟨a, ho, -, rfl⟩ | ⟨hm, -⟩
    · exact .inl ⟨a, ho, (hf a).symm⟩
    · exact .inl ⟨a', hm, rfl⟩

/-! ## Consequences -/

theorem running (h : Frame touched moved db db') (hr : run ∈ db.runs)
    (hn : ¬ touched run.id) (hs : run.state = .running) : ∃ run' ∈ db'.runs, Same run run' ∧
      run'.state = .running ∧ (¬ moved run.jobId → run'.queueId = run.queueId) := by
  obtain ⟨run', hr', hsa, -, hk⟩ := h.runs run hr
  refine ⟨run', hr', hsa, ?_, (hk hn).queue hs⟩
  rcases (hk hn).state with he | ⟨hp, -⟩
  · rw [he, hs]
  · rw [hs] at hp
    cases hp

/-- A running run that was not touched was running before. -/
theorem was_running (h : Frame touched moved db db') (hr' : run' ∈ db'.runs)
    (hno : ¬ touched run'.id) (hs : run'.state = .running) : ∃ run ∈ db.runs, Same run run' ∧
      run.state = .running ∧ (¬ moved run.jobId → run'.queueId = run.queueId) := by
  rcases h.back run' hr' with ⟨run, hru, hi⟩ | ht | hn
  · obtain ⟨hsa, -, hke⟩ := h.run_eq hru hr' hi.symm
    have hk := hke (by rwa [hi])
    have hr : run.state = .running := by
      rcases hk.state with he | ⟨-, hc⟩
      · rw [← he, hs]
      · rw [hs] at hc
        cases hc
    exact ⟨run, hru, hsa, hr, hk.queue hr⟩
  · exact absurd ht hno
  · exact absurd hs hn

end Frame

/-! ## Queues -/

/-- A suspended or deleted queue has nothing running, and a suspending one has. -/
structure Drained (runs : Table JobRun) (queue : Queue) : Prop where
  idle : queue.state = .suspended ∨ queue.state = .deleted → ∀ run ∈ runs, run.queueId = queue.id → run.state ≠ .running
  busy : queue.state = .suspending → ∃ run ∈ runs, run.queueId = queue.id ∧ run.state = .running

/-- Every queue whose state a transaction sets, or that a touched run was in, is drained as its
state says. -/
def QueueFrame (touched : Uuid → Prop) (db db' : Database) : Prop :=
  ∀ queue' ∈ db'.queues, (∃ queue ∈ db.queues, queue.id = queue'.id ∧
    queue.state = queue'.state ∧ (queue'.state = .suspending →
      ∀ run ∈ db.runs, touched run.id → run.queueId ≠ queue'.id)) ∨ Drained db'.runs queue'

/-- Every job that a transaction makes suspending, or that a touched run belongs to, has a running
run if it is suspending. -/
def JobFrame (touched : Uuid → Prop) (db db' : Database) : Prop :=
  ∀ job' ∈ db'.jobs, job'.state = .suspending → (∃ job ∈ db.jobs, job.id = job'.id ∧
    job.state = .suspending ∧ ∀ run ∈ db.runs, touched run.id → run.jobId ≠ job'.id) ∨
      ∃ run ∈ db'.runs, run.jobId = job'.id ∧ run.state = .running

variable {db db' : Database}

theorem QueueFrame.of_eq (h : db'.queues = db.queues) : QueueFrame Nobody db db' :=
  fun queue' hq => .inl ⟨queue', h ▸ hq, rfl, rfl, fun _ _ _ => False.elim⟩

theorem JobFrame.of_states (h : ∀ job' ∈ db'.jobs, job'.state = .suspending →
    ∃ job ∈ db.jobs, job.id = job'.id ∧ job.state = .suspending) : JobFrame Nobody db db' := by
  intro job' hj' hs
  obtain ⟨job, hj, hi, hs⟩ := h job' hj' hs
  exact .inl ⟨job, hj, hi, hs, fun _ _ => False.elim⟩

theorem JobFrame.of_eq (h : db'.jobs = db.jobs) : JobFrame Nobody db db' :=
  .of_states fun job' hj' hs => ⟨job', h ▸ hj', rfl, hs⟩

/-- A job row that changes keeps its state or leaves the suspension. -/
theorem JobFrame.of_modify {id : Uuid} {f : JobDefinition → JobDefinition}
    (hf : ∀ j : JobDefinition, key (f j) = key j) (h : db'.jobs = db.jobs.modify id f hf)
    (hs : ∀ job ∈ db.jobs, job.id = id → (f job).state = .suspending → job.state = .suspending) :
    JobFrame Nobody db db' := by
  refine .of_states fun job' hj' hs' => ?_
  rw [h] at hj'
  rcases (mem_modify hf).1 hj' with ⟨job, hj, hi, rfl⟩ | ⟨hj, -⟩
  · exact ⟨job, hj, (hf job).symm, hs job hj hi hs'⟩
  · exact ⟨job', hj, rfl, hs'⟩

/-- What one transaction of the daemon does to a consistent database. -/
structure Moves (env : Environment) (touched moved : Uuid → Prop) (db db' : Database) : Prop where
  consistent : Consistent env Nobody Nobody db'
  frame : Frame touched moved db db'
  queues : QueueFrame touched db db'
  jobs : JobFrame touched db db'

/-- A transaction that moves no job and touches no other owner. -/
abbrev Keeps (env : Environment) := Moves env Nobody Nobody

variable {env : Environment} {moved : Uuid → Prop}

theorem Consistent.moves_retimed (h : Intact env db) (hr : Retimed db db') :
    Moves env Nobody moved db db' :=
  ⟨h.retimed hr, .retimed hr, .of_eq hr.queues, .of_eq hr.jobs⟩

variable {touched : Uuid → Prop} {db1 : Database}

/-- Accounting after the last write. -/
theorem Moves.retimed (h : Moves env touched moved db db1) (hr : Retimed db1 db') : Moves env touched moved db db' where
  consistent := h.consistent.retimed hr
  frame := h.frame.trans (.retimed hr)
  queues queue' hq := by
    rw [hr.queues] at hq
    refine (h.queues queue' hq).imp_right fun hd => ?_
    rw [hr.runs]
    exact hd
  jobs job' hj' hs := by
    rw [hr.jobs] at hj'
    rw [hr.runs]
    exact h.jobs job' hj' hs

/-- Accounting before the first write. -/
theorem Moves.after_retimed (h : Moves env touched moved db1 db') (hr : Retimed db db1) :
    Moves env touched moved db db' where
  consistent := h.consistent
  frame := (Frame.retimed hr).trans h.frame
  queues queue' hq := by
    have := h.queues queue' hq
    rwa [hr.queues, hr.runs] at this
  jobs job' hj' hs := by
    have := h.jobs job' hj' hs
    rwa [hr.jobs, hr.runs] at this

end Jobu
