import Jobu.Properties.Recovery

/-!
# What was stored passes the next startup

A recovery refuses a database whose rows do not pass its checks.  The rows of a stored database do: they
agree as `Consistent` says, and each check asks for a part of that.
-/

namespace Jobu

open Lib Table

/-! ## The attempts of a run -/

section

variable {run : JobRun} {a : JobAttempt} {attempts : List JobAttempt}

theorem LastOk.state (h : LastOk run (some a)) :
    a.state = if run.state = .running then .running else .completed := by
  unfold LastOk Telemetry.isRetryHistory at h
  cases hs : run.state <;> simp only [hs] at h <;> grind

theorem LastOk.accepted (h : LastOk run (some a)) : Recovery.validateLast run a = .ok () := by
  unfold LastOk Telemetry.isRetryHistory at h
  unfold Recovery.validateLast
  cases hs : run.state <;> simp only [hs] at h <;> simp [RunState.isTerminal, Recovery.isRetryOutcome] <;>
    grind [Recovery.expectedOutcome]

variable (h : HistoryOk run attempts)

include h

theorem HistoryOk.prior_state (ha : a ∈ attempts.dropLast) : a.state = .completed := by
  have hr := h.prior a ha
  simp only [Telemetry.isRetryHistory, bool_steps] at hr
  exact hr.1

theorem HistoryOk.state (ha : a ∈ attempts) : a.state = .completed ∨ a.state = .running ∧ run.state = .running := by
  rcases List.eq_nil_or_concat attempts with rfl | ⟨front, last, rfl⟩
  · cases ha
  have hl := h.last
  rw [List.concat_eq_append] at h ha hl
  rw [List.getLast?_concat] at hl
  rcases List.mem_append.1 ha with ha | ha
  · exact .inl (h.prior_state (by simpa using ha))
  · obtain rfl := List.mem_singleton.1 ha
    by_cases hr : run.state = .running <;> simp [hl.state, hr]

theorem HistoryOk.first_number (ha : attempts.head? = some a) : a.attemptNumber = 1 := by
  have hn := h.numbered
  cases attempts with
  | nil => cases ha
  | cons =>
    cases ha
    exact (List.cons.inj hn).1

end

namespace Recovery

section

variable {env : Environment} {db : Database} {run : JobRun} {a : JobAttempt} {job : JobDefinition}

variable (h : Intact env db)

include h

theorem barriers_accepted (hj : job ∈ db.jobs) : validateBarriers db job = .ok () := by
  obtain ⟨owned, manual, hw, hok⟩ := h.settled job hj id
  have hl := Lifecycle.countsOf_sum (db.liveRuns job.id)
  rw [h.countsOf_live hw] at hl
  have hc : (db.runs.count fun run => run.jobId = job.id && run.isLive) =
      manual.toList.length + owned.toList.length := by
    rw [count_eq_length, Nat.add_comm]
    exact hl.symm
  have he := hok.ended
  have hr := hok.recurring
  simp only [validateBarriers, ensure_eq_ok, Scheduler.manualBarrierSummary, Scheduler.ManualBarrierSummary.valid,
    h.siblingCounts_eq hw, hc, Lifecycle.validRelationship]
  cases hs : job.state <;> cases ho : job.schedule.isOnce <;> cases owned <;> cases manual <;>
    simp [hs, ho, JobState.isTerminal] at he hr ⊢

theorem attempt_decodes (hru : run ∈ db.runs) (ha : a ∈ db.attemptsOf run.id) :
    decodeFound decodeAttempt (db.attempts.find? ⟨run.id, a.attemptNumber⟩) = .ok (some a) := by
  have hh := h.history run hru id
  obtain ⟨hm, hr⟩ := mem_select.1 ha
  have hs := hh.sound a ha
  exact decodeFound_some.2 ⟨a, of_decide_eq_true hr ▸ find?_of_mem hm,
    decodeAttempt_ok.2 ⟨rfl, ⟨(hh.number_le ha).1, hs.number⟩, hs.state⟩⟩

theorem output_accepted (k : AttemptKey) : validateOutput db k = .ok () := by
  unfold validateOutput
  split
  · rfl
  next o ho =>
    obtain ⟨hm, rfl⟩ := find?_eq_some.1 ho
    obtain ⟨a, ha, hk, hc⟩ := h.outputs o hm
    obtain ⟨run, hru, hid⟩ := h.attempts a ha
    have hf := attempt_decodes h hru (mem_select.2 ⟨ha, decide_eq_true hid.symm⟩)
    rw [hid, show (⟨a.runId, a.attemptNumber⟩ : AttemptKey) = Keyed.key a from rfl, hk] at hf
    simp only [except_steps]
    exact ⟨_, hf, by simp [hc]⟩

theorem history_accepted (hru : run ∈ db.runs) : validateHistory db run = .ok () := by
  have hh := h.history run hru id
  have hd := fun a => attempt_decodes (a := a) h hru
  generalize hat : db.attemptsOf run.id = attempts at hh hd
  simp only [validateHistory, hat, output_accepted h, except_steps, history]
  have hn := hh.lastNumber
  have hl := hh.last
  have hpr := hh.prior
  rcases List.eq_nil_or_concat attempts with rfl | ⟨front, last, rfl⟩
  · refine ⟨(), ?_, by simpa [LastOk] using hl⟩
    rcases hl with hs | ⟨hs, -⟩ <;> simp [hs]
  rw [List.concat_eq_append] at *
  simp only [List.getLast?_concat, List.dropLast_concat] at hn hl hpr ⊢
  have hf : ∀ a ∈ front, a.state = .completed := fun a ha => hh.prior_state (by simpa using ha)
  obtain ⟨first, hfi⟩ : ∃ a, (front ++ [last]).head? = some a := by cases front <;> simp
  have hm := List.mem_of_head? hfi
  have hone := hd first hm
  rw [hh.first_number hfi] at hone
  refine ⟨(), ⟨hn.symm, ?_⟩, ?_⟩
  · -- only the last attempt may run, and it does if the run does
    have hsc : run.state ≠ .scheduled := fun hs => by
      unfold LastOk at hl
      rw [hs] at hl
      exact hl
    have hz : (front.countP fun a => a.state = .running) = 0 ∧ (front.countP fun a => a.state ≠ .completed) = 0 ∧
        (front.countP fun a => !Telemetry.isRetryHistory a) = 0 := by
      simp +contextual [List.countP_eq_zero, hf, hpr]
    rw [List.countP_append, List.countP_append, hz.1, hz.2.1, hz.2.2]
    by_cases hr : run.state = .running <;> simp [hl.state, hr, hsc]
  · rw [if_neg (by simp)]
    simp only [except_steps]
    exact ⟨_, hone, _, hd last (by simp), _, rfl, _, rfl, (), ⟨(hh.sound first hm).started, hh.first first hfi⟩, (),
      hl.accepted, trivial⟩

theorem job_accepted (hj : job ∈ db.jobs) : checkJob env db job.id = .ok job := by
  have hs := h.jobs job hj
  obtain ⟨queue, hq, hid, hd⟩ := hs.queue
  exact checkJob_ok.2 ⟨find?_of_mem hj, hs.shape, ⟨queue, hid ▸ find?_of_mem hq, h.queues queue hq,
    fun hde => Decidable.by_contra fun hn => hd hn hde⟩, barriers_accepted h hj⟩

theorem attempt_accepted (ha : a ∈ db.attempts) : checkAttempt env db (Keyed.key a) = .ok a := by
  obtain ⟨run, hru, hid⟩ := h.attempts a ha
  have hh := h.history run hru id
  have hm : a ∈ db.attemptsOf run.id := mem_select.2 ⟨ha, decide_eq_true hid.symm⟩
  have hs := hh.sound a hm
  refine checkAttempt_ok.2 ⟨find?_of_mem ha, ⟨(hh.number_le hm).1, hs.number⟩, hs.state,
    ⟨run, hid ▸ find?_of_mem hru, (h.runs run hru).shape, ?_, hs.started, ?_⟩, output_accepted h _⟩
  all_goals rcases hh.state hm with hst | ⟨hst, hr⟩ <;> simp [*]

theorem timing_accepted (hru : run ∈ db.runs) : validateRunTiming db run = .ok () := by
  obtain ⟨timing, ht, hid, hs⟩ := (h.runs run hru).timing
  have hf : db.timings.find? run.id = some timing := hid ▸ find?_of_mem ht
  simp only [validateRunTiming, hf, except_steps]
  refine ⟨timing, rfl, (), fun i hi => ⟨(hs.interval i hi).1, (hs.interval i hi).2.1⟩, (), hs.unmeasured, fun ho => ?_⟩
  obtain ⟨i, hi⟩ := Option.isSome_iff_exists.1 ho
  exact (hs.interval i hi).2.2

/-- The owners of a live run let it run, all but a suspended queue. -/
theorem owners_accepted {queue : Queue} (hru : run ∈ db.runs) (hj : job ∈ db.jobs) (hji : job.id = run.jobId)
    (hq : queue ∈ db.queues) (hqi : queue.id = run.queueId) (hl : run.isLive = true)
    (hr : run.state = .running → queue.state ≠ .suspended) : validateLiveOwners db run job queue = .ok () := by
  have hl : run.state.isTerminal = false := by simpa [JobRun.isLive] using hl
  obtain ⟨owned, manual, hw, hok⟩ := h.settled job hj id
  have hm := h.live_mem hw hru hji.symm hl
  have hfi := (h.live_fits hj hru hji.symm hl).queue
  have hde : job.state ≠ .deleted := fun hd => by
    obtain ⟨ho, hm'⟩ := hok.ended (.inl hd)
    simp [ho, hm'] at hm
  have hsu : run.state = .running → ¬ (run.scheduleOwned = true ∧ job.state = .suspended) := by
    rintro hs ⟨ho, hsu⟩
    rcases hm with hm | hm
    · exact hok.suspended hsu run hm hs
    · have hor := (hw.isLive_manual hm).2.2.2
      rw [(h.runs run hru).origin.2.1 ho] at hor
      cases hor
  obtain ⟨queue', hq', hid, hd⟩ := (h.jobs job hj).queue
  obtain rfl := eq_of_key hq' hq (hid.trans (hfi.symm.trans hqi.symm))
  simp only [validateLiveOwners, except_steps, barriers_accepted h hj]
  exact ⟨(), ⟨hfi, hde, hd hde, fun hs => ⟨hr hs, hsu hs⟩⟩, trivial⟩

theorem run_accepted (hru : run ∈ db.runs) : checkRun env db run.id = .ok run ↔
    (run.state = .running → ∀ queue ∈ db.queues, queue.id = run.queueId → queue.state ≠ .suspended) := by
  have hs := h.runs run hru
  obtain ⟨job, hj, hji, -⟩ := hs.job
  obtain ⟨queue, hq, hqi⟩ := hs.queue
  rw [checkRun_ok]
  constructor
  · rintro ⟨-, hc⟩ hr queue' hq' hid
    obtain ⟨_, _, -, -, hf, -, hl⟩ := hc.owners
    rw [← hid] at hf
    obtain rfl := Option.some.inj (hf.symm.trans (find?_of_mem hq'))
    have hl := hl (by simp [JobRun.isLive, hr, RunState.isTerminal])
    simp only [validateLiveOwners, except_steps] at hl
    obtain ⟨_, ⟨-, -, -, hl⟩, -⟩ := hl
    exact (hl hr).1
  · intro hr
    exact ⟨find?_of_mem hru, hs.shape, timing_accepted h hru, ⟨job, queue, hji ▸ find?_of_mem hj,
      (h.jobs job hj).shape, hqi ▸ find?_of_mem hq, h.queues queue hq,
      fun hl => owners_accepted h hru hj hji hq hqi hl fun hs => hr hs queue hq hqi⟩, hs.origin, history_accepted h hru⟩

end

end Recovery

end Jobu
