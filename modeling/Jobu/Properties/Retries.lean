import Jobu.Changes.Background
import Jobu.Changes.Runs
import Jobu.Properties.Attempts

/-!
# Retries within the policy

A run starts an attempt only while it waits, and it waits again only if the policy it carries allows
one more.  The two decisions that let it wait (after a completion and in recovery) look at the same
number, the one of the attempt that just ended, so any mix of them stays within the policy.

  > `WithinPolicy`: the invariant; `Change.withinPolicy` is its step.
  > `retries_within_policy`: along every history, with the instants retries are due at.
-/

namespace Jobu

open Lib Scheduler Table Sample Retry RunState List

open Keyed (key)

variable {d : Deployment} {env : Environment} {caller : Caller} {amb : Ambient} {now : Int}
  {db db' : Database}

/-! ## How many attempts -/

/-- Every attempt has its run, and is within the policy that run carries; whoever waits has one left. -/
structure WithinPolicy (db : Database) : Prop where
  owned : ∀ a ∈ db.attempts, ∃ run ∈ db.runs, run.id = a.runId
  bounded : ∀ run ∈ db.runs, ∀ policy, Retry.policyFromAttributes run.attributes = .ok policy →
    ∀ a ∈ db.attempts, a.runId = run.id → a.attemptNumber ≤ policy.maxAttempts ∧
      (run.state.isPending = true → a.attemptNumber < policy.maxAttempts)

theorem withinPolicy_empty : WithinPolicy {} where
  owned a ha := absurd ha (not_mem_empty a)
  bounded run hr := absurd hr (not_mem_empty run)

variable {run : JobRun} {policy : RetryPolicy}

/-- The next number of a waiting run is allowed. -/
theorem WithinPolicy.next_le (h : WithinPolicy db) (hr : run ∈ db.runs) (hp : run.state.isPending = true)
    (hpo : policyFromAttributes run.attributes = .ok policy) :
    ((db.attemptsOf run.id).getLast?).elim 0 JobAttempt.attemptNumber + 1 ≤ policy.maxAttempts := by
  cases hl : (db.attemptsOf run.id).getLast? with
  | none => exact (policyFromAttributes_valid hpo).attempts.1
  | some a =>
    obtain ⟨ha, ho⟩ := mem_select.1 (mem_of_getLast? hl)
    exact (h.bounded run hr policy hpo a ha (of_decide_eq_true ho)).2 hp

variable {run' : JobRun}

theorem RunWrite.within (h : RunWrite caller now db run run') (hw : WithinPolicy db) (hr : run ∈ db.runs)
    (hpo : Retry.policyFromAttributes run'.attributes = .ok policy) {a : JobAttempt}
    (ha : a ∈ db.attempts) (ho : a.runId = run.id) :
    a.attemptNumber ≤ policy.maxAttempts ∧ (run'.state.isPending = true → a.attemptNumber < policy.maxAttempts) := by
  cases h with
  | kept | moved => exact hw.bounded run hr policy hpo a ha ho
  | cancelled | started =>
    exact ⟨(hw.bounded run hr policy hpo a ha ho).1, fun hp => by cases hp⟩
  | refreshed _ _ _ _ _ unstarted =>
    -- a run that is refreshed has no attempt
    simp only [Runs.unstarted, Bool.and_eq_true, List.isEmpty_iff] at unstarted
    have hn := select_eq_nil.1 unstarted.2 a ha
    rw [ho] at hn
    simp at hn
  | retrying _ _ _ policy' of_run allowed =>
    obtain rfl : policy' = policy := Except.ok.inj (of_run.symm.trans hpo)
    exact ⟨le_of_lt (allowed a ha ho), fun _ => allowed a ha ho⟩
  | ended _ state terminal =>
    refine ⟨(hw.bounded run hr policy hpo a ha ho).1, fun hp => ?_⟩
    have hp : state.isPending = true := hp
    rw [RunState.not_isPending_of_isTerminal terminal] at hp
    cases hp

theorem Change.withinPolicy (h : Change env caller now db db') (hw : WithinPolicy db) : WithinPolicy db' := by
  have hru := h.runs
  have hat := h.attempts
  refine ⟨fun a' ha' => ?_, fun run' hr' policy hpo a' ha' ho => ?_⟩
  · have hbe : ∃ run ∈ db.runs, run.id = a'.runId := by
      rcases hat.cases a' ha' with ⟨a, ha, hwr⟩ | hn
      · obtain ⟨run, hr, hi⟩ := hw.owned a ha
        exact ⟨run, hr, hi.trans (congrArg AttemptKey.runId hwr.key_eq).symm⟩
      · obtain ⟨run, hr, hi, -⟩ := hn.run
        exact ⟨run, hr, hi⟩
    obtain ⟨run, hr, hi⟩ := hbe
    obtain ⟨run', hr', hwr⟩ := hru.next run hr
    exact ⟨run', hr', hwr.id_eq.1.trans hi⟩
  · rcases hat.cases a' ha' with ⟨a, ha, hwr⟩ | hn
    · have hk := hwr.key_eq
      have ho : a.runId = run'.id := (congrArg AttemptKey.runId hk).symm.trans ho
      have hnu : a'.attemptNumber = a.attemptNumber := congrArg AttemptKey.attemptNumber hk
      rw [hnu]
      rcases hru.cases run' hr' with ⟨run, hr, hrw⟩ | ⟨hfr, -⟩
      · exact hrw.within hw hr hpo ha (ho.trans hrw.id_eq.1)
      -- an old attempt has an old run
      obtain ⟨run, hr, hi⟩ := hw.owned a ha
      exact absurd (hi.trans ho) (find?_eq_none.1 hfr run hr)
    · -- the new attempt belongs to the run that started
      obtain ⟨run, hr, hi, hp, -, hst⟩ := hn.run
      obtain rfl : run' = started now run := eq_of_key hr' hst (ho.symm.trans hi.symm)
      refine ⟨?_, fun hpe => by cases hpe⟩
      have hle := hw.next_le hr hp hpo
      rw [hn.number, ← hi]
      exact hle

theorem Stored.withinPolicy (h : Stored d db) : WithinPolicy db :=
  h.preserve withinPolicy_empty fun _ _ _ _ => Change.withinPolicy

theorem Stored.attempts_le (h : Stored d db) (hr : run ∈ db.runs)
    (hp : policyFromAttributes run.attributes = .ok policy) :
    (db.attemptsOf run.id).length ≤ policy.maxAttempts := by
  rw [← (h.consistent.history run hr id).lastNumber]
  cases hl : (db.attemptsOf run.id).getLast? with
  | none => exact Nat.zero_le _
  | some a =>
    obtain ⟨ha, ho⟩ := mem_select.1 (mem_of_getLast? hl)
    exact (h.withinPolicy.bounded run hr policy hp a ha (of_decide_eq_true ho)).1

/-- The starts of a run are among its attempts. -/
theorem StartsOk.starts_le {s : System} (h : StartsOk s) (runId : Uuid) :
    (s.starts.filter fun k => k.runId = runId).length ≤ (s.node.db.attemptsOf runId).length := by
  have hsu : (s.starts.filter fun k => k.runId = runId) ⊆
    (s.node.db.attemptsOf runId).map fun a => (key a : AttemptKey) := by
    intro k hk
    rw [mem_filter, decide_eq_true_eq] at hk
    obtain ⟨_, ha, rfl⟩ := h.durable k hk.1
    exact mem_map_of_mem (mem_select.2 ⟨ha, decide_eq_true hk.2⟩)
  have hle := ((h.once.filter _).subperm hsu).length_le
  rwa [length_map] at hle

/-! ## When a retry is due -/

/-- A run that has left its attempt behind and waits, waits for an instant not before `now`. -/
def RetryDue (now : Int) (run : JobRun) : Prop :=
  ∃ dueAt, now ≤ dueAt ∧ run.runnableAt = storedTime dueAt

theorem RunWrite.retryDue (h : RunWrite caller now db run run')
    (hd : run.state ≠ .scheduled ∧ (run.state = .retryWait → RetryDue now run)) :
    run'.state ≠ .scheduled ∧ (run'.state = .retryWait → RetryDue now run') := by
  cases h with
  | kept | moved => exact hd
  | cancelled | started => exact ⟨noConfusion, fun hs => by cases hs⟩
  | refreshed _ _ _ _ _ unstarted =>
    simp only [Runs.unstarted, bool_steps] at unstarted
    exact absurd unstarted.1.2 hd.1
  | retrying _ dueAt later =>
    exact ⟨noConfusion, fun _ => ⟨dueAt, later, rfl⟩⟩
  | ended _ state terminal =>
    refine ⟨fun hs => ?_, fun hs => ?_⟩
    · have hs : state = .scheduled := hs
      rw [hs] at terminal
      cases terminal
    · have hs : state = .retryWait := hs
      rw [hs] at terminal
      cases terminal

/-- A running run that waits after a transaction is due not before its clock reading. -/
theorem Changes.retryDue (h : Changes env caller now db db') (hr : run ∈ db.runs) (hs : run.state = .running) :
    ∀ run' ∈ db'.runs, run'.id = run.id → run'.state = .retryWait → RetryDue now run' := by
  have hbe : run.state ≠ .scheduled ∧ (run.state = .retryWait → RetryDue now run) := by
    rw [hs]
    exact ⟨noConfusion, fun hw => by cases hw⟩
  obtain ⟨run1, hr1, hi, -, hd⟩ := h.preserve (P := fun db' => ∃ run' ∈ db'.runs,
    run'.id = run.id ∧ run'.state ≠ .scheduled ∧ (run'.state = .retryWait → RetryDue now run'))
    (fun _ _ hc ⟨run1, hr1, hi, hd⟩ => by
      obtain ⟨run', hr', hw⟩ := hc.runs.next run1 hr1
      exact ⟨run', hr', hw.id_eq.1.trans hi, hw.retryDue hd⟩)
    ⟨run, hr, rfl, hbe⟩
  intro _ hr' hi' hwa
  obtain rfl := eq_of_key hr' hr1 (hi'.trans hi.symm)
  exact hd hwa

variable {completion : AttemptCompletion}

/-- The retry a completion schedules is due neither before the completion nor before the instant the
executor named. -/
theorem completeDurably_retry {effect : CompletionEffect}
    (hy : Yields (completeDurably env amb completion) db effect db')
    (hr' : run' ∈ db'.runs) (hi' : run'.id = completion.key.runId) (hw : run'.state = .retryWait) :
    completion.outcome = .failed ∧ ∃ schedule, effect.retry = some schedule ∧
      run'.runnableAt = storedTime schedule.dueAt ∧ amb.utcNow ≤ schedule.dueAt ∧
      ∀ earliest ∈ completion.retryNotBefore, earliest ≤ schedule.dueAt := by
  obtain ⟨context, _, _, db2, hc⟩ := yields_completeDurably hy
  obtain ⟨hr, hi, _⟩ := hc.run
  obtain ⟨timings, _, rfl⟩ := hc.reported
  obtain ⟨_, hdr, _, _, rfl⟩ := hc.drains
  obtain ⟨hru, -⟩ := yields_completeDrainedSuspensions hdr
  have hm : run' ∈ db2.runs := hru ▸ hr'
  have htr := hc.transition
  cases hre : effect.retry with
  | some schedule =>
    rw [hre] at htr
    obtain rfl := yields_setRunRetryWait htr
    have hd := hre ▸ hc.retry
    obtain ⟨-, hl, he⟩ := decision_due hd
    rcases (mem_modify (key_retrying schedule.dueAt)).1 hm with ⟨row, -, -, rfl⟩ | ⟨-, hk⟩
    · exact ⟨decision_some hd, schedule, rfl, rfl, hl, he⟩
    · exact absurd hi' hk
  | none =>
    rw [hre] at htr
    simp only [transitionRun, yields_steps] at htr
    obtain ⟨state, _, ⟨hst, rfl⟩, _, _, hse, hfo⟩ := htr
    obtain rfl := yields_setRunTerminal hse
    -- the run has ended, and its successor is another run
    rw [← hi] at hfo
    obtain ⟨successor, _, _, hsu, -, rfl⟩ :
      ∃ successor timings jobs, _ ∧ JobsFinish env Anyone amb.utcNow _ jobs ∧ _ :=
      yields_followTerminalRun hfo
    have hen : run' ∈ db.runs.modify context.run.id (ended state amb.utcNow completion.result)
      (key_ended state amb.utcNow completion.result) := by
      cases successor with
      | none => exact hm
      | some next =>
        have hfr := (hsu.follows next rfl).free
        have hf' : (db.runs.modify context.run.id (ended state amb.utcNow completion.result)
          (key_ended state amb.utcNow completion.result)).find? (key (Runs.stored next)) = none := by
          rw [find?_modify, Option.map_eq_none_iff]
          exact hfr
        refine ((mem_insert hf').1 hm).resolve_left fun heq => ?_
        have hn : next.id = run'.id := by
          rw [heq]
          rfl
        exact find?_eq_none.1 hfr context.run hr (hi.trans (hi'.symm.trans hn.symm))
    rcases (mem_modify (key_ended state amb.utcNow completion.result)).1 hen with
      ⟨row, -, -, rfl⟩ | ⟨-, hk⟩
    · have hte := (terminalRunState_ok hst).1
      rw [show state = .retryWait from hw] at hte
      cases hte
    · exact absurd (hi'.trans hi.symm) hk

/-- A failure that no cancellation has overridden keeps the instant the executor named. -/
theorem effective_retryNotBefore {cancelled : Bool} (h : (effective completion cancelled).outcome = .failed) :
    (effective completion cancelled).retryNotBefore = completion.retryNotBefore := by
  cases cancelled with
  | true => cases h
  | false => rfl

/-! ## Both along every history -/

/-- The attempts of a run stay within its policy, and a retry is due neither before the transaction
that schedules it nor before the instant the executor named.  What is stored is the due instant in
whole microseconds. -/
structure RetriesOk (d : Deployment) (s : System) : Prop where
  attempts : ∀ run ∈ s.node.db.runs, ∀ policy, Retry.policyFromAttributes run.attributes = .ok policy →
    (s.node.db.attemptsOf run.id).length ≤ policy.maxAttempts ∧
    (s.starts.filter fun k => k.runId = run.id).length ≤ policy.maxAttempts
  due : ∀ now call db', CommitAt d now call s.node.db db' → ∀ run ∈ s.node.db.runs, run.state = .running →
    ∀ run' ∈ db'.runs, run'.id = run.id → run'.state = .retryWait → RetryDue now run'
  notBefore : ∀ amb runId completion effect node',
    Yields (deliverCompletion d.env amb runId completion) s.node (some effect) node' →
    ∀ run' ∈ node'.db.runs, run'.id = runId → run'.state = .retryWait →
      ∃ schedule, effect.retry = some schedule ∧ run'.runnableAt = storedTime schedule.dueAt ∧
        amb.utcNow ≤ schedule.dueAt ∧ ∀ earliest ∈ completion.retryNotBefore, earliest ≤ schedule.dueAt

/-- **No history starts more attempts of a run than its policy allows, and none schedules a retry
too early.** -/
theorem retries_within_policy {s : System} (h : Reachable d s) : RetriesOk d s := by
  refine ⟨fun run hr policy hpo => ?_, fun now call db' hc run hr hs => ?_,
    fun amb runId completion effect node' hy run' hr' hi' hwa => ?_⟩
  · have hle := h.stored.attempts_le hr hpo
    exact ⟨hle, (h.startsOk.starts_le run.id).trans hle⟩
  · exact (hc.changes h.stored.consistent).retryDue hr hs
  have hac := yields_deliverCompletion.1 hy
  have hke := effective_key completion (s.node.memory.cancellations runId)
  obtain ⟨hfa, schedule, hre, hru, hla, he⟩ := completeDurably_retry
    hac.db hr' (hi'.trans (hac.key.symm.trans (congrArg AttemptKey.runId hke).symm))
    hwa
  rw [effective_retryNotBefore hfa] at he
  exact ⟨schedule, hre, hru, hla, he⟩

namespace Sample

/-- The instant the executor names: a microsecond and a half. -/
def named : Int := 1500

/-- A started attempt fails and asks for a retry not before that instant. -/
def failsAndWaits : List Event :=
  [.boot, .manage (ambient 0 100) (.createQueue { name := "a" }), .manage (ambient 0 300)
    (.createJob
      { queue := .id (uuid 101), schedule := .cron "* * * * *" none, payload := ⟨"\x7b\x7d"⟩ }),
    .manage (ambient 0 400) (.runNow { jobId := uuid 301 }),
    .beginCycle 0, .loadCandidates (uuid 101) .cli, .dispatch (ambient 0 500) (uuid 101) (uuid 401) false,
    .startAccepted, .endCycle, .complete (ambient 0 600) (uuid 401)
      { key := ⟨uuid 401, 1⟩, outcome := .failed, failureDisposition := some .retryable,
        retryNotBefore := some named, result := ⟨"\x7b\x7d"⟩ }]

/-- The retry is started 300 ns before that instant. -/
def retriesEarly : List Event :=
  failsAndWaits ++ [.beginCycle (named - 300), .loadCandidates (uuid 101) .cli,
    .dispatch (ambient (named - 300) 700) (uuid 101) (uuid 401) false, .startAccepted]

end Sample

set_option maxRecDepth 100000 in
/-- One attempt of three, and the next one due in the microsecond the executor named. -/
theorem retries_within_policy_waiting : let d := Sample.deployment "reschedule"
    let s := (runEvents d System.initial failsAndWaits).getD System.initial
    s.node.db.runs.rows.map (fun run => (run.id, run.state, run.runnableAt)) =
      [(uuid 302, .scheduled, 60000000000), (uuid 401, .retryWait, 1000)] ∧
    s.starts = [⟨uuid 401, 1⟩] ∧ RetriesOk d s :=
  ⟨by decide +kernel, by decide +kernel, retries_within_policy (.of_events (by decide +kernel))⟩

set_option maxRecDepth 100000 in
/-- The stored instant lies before the one the executor named, and the retry starts before it. -/
theorem retry_starts_before_named_instant : let d := Sample.deployment "reschedule"
    let s := (runEvents d System.initial retriesEarly).getD System.initial
    Reachable d s ∧ s.node.db.runs.rows.map (fun run => (run.id, run.state, run.runnableAt - named)) =
      [(uuid 302, .scheduled, 59999998500), (uuid 401, .running, -500)] ∧
    s.starts = [⟨uuid 401, 1⟩, ⟨uuid 401, 2⟩] :=
  ⟨.of_events (by decide +kernel), by decide +kernel, by decide +kernel⟩

end Jobu
