import Jobu.Properties.Jobs

/-!
# Attempts are started once and completed once

The history of a daemon, over all its lifetimes: what it gave to an executor and which completions
it accepted.  Both lists follow the database, which is written first.

  > `started_once_after_commit`: a start follows the commit of its attempt and is never repeated.
  > `completed_once_or_not_at_all`: a completion is applied once, whole or not at all.
-/

namespace Jobu

open Lib Scheduler List Sample Phase Telemetry

open Keyed (key)

variable {d : Deployment}

/-! ## Histories -/

variable {db db' : Database}

/-- What no history changes: terminal runs and completed attempts are final, and no row of either
table is lost. -/
theorem Stored.frame (h : Stored d db) (hc : Commits d db db') : Frame Everybody Everybody db db' := by
  induction hc with
  | refl => exact .refl _ _ db
  | tail hbe hl ih =>
    refine ih.trans ?_
    have hk := hl.kind (Stored.consistent (Relation.ReflTransGen.trans h hbe))
    have hal : ∀ (P : Uuid → Prop) id, P id → Everybody id := fun _ _ _ => trivial
    cases hk with
    | stops touched h | moves jobId targetId h | claims claim h => exact h.moves.frame.weaken (hal _) (hal _)

variable {s s' : System}

theorem Reachable.step (h : Reachable d s) (hs : Step d s s') : Reachable d s' := h.tail hs

/-- A property that the first state has and that every step keeps holds in every run. -/
theorem Reachable.induction {P : System → Prop} (hi : P System.initial)
    (hstep : ∀ s s', Reachable d s → P s → Step d s s' → P s') (h : Reachable d s) :
    P s := by
  unfold Reachable Steps at h
  induction h with
  | refl => exact hi
  | tail hbe hl ih => exact hstep _ _ hbe ih hl

/-! ## Starts -/

/-- The executor has not been called for a claim that is still pending. -/
def NotClaimed (s : System) : Prop := ∀ claim slot, s.phase ≠ .claimed claim slot

/-- What a step does to the starts. -/
inductive StartEffect (d : Deployment) (s s' : System) : Prop
  | quiet (starts : s'.starts = s.starts) (phase : NotClaimed s')
  | claims (claim : Claim) (slot : Bool) (amb : Ambient) (prepare : JobType → Json → Preparation)
    (yields : Yields (claimSelected d.env amb prepare claim.key.runId) s.node.db (some claim)
      s'.node.db) (starts : s'.starts = s.starts) (phase : s'.phase = .claimed claim slot)
  | starts (claim : Claim) (slot : Bool) (claimed : s.phase = .claimed claim slot)
    (db : s'.node.db = s.node.db) (starts : s'.starts = s.starts ++ [claim.key])
    (phase : NotClaimed s')

variable {phase : Phase}

theorem Phase.not_claimed_of_isOpen (h : phase.isOpen = true) (claim : Claim)
    (slot : Bool) : phase ≠ .claimed claim slot := by
  rintro rfl
  cases h

theorem Phase.not_claimed_of_eq {phase' : Phase} (h : phase = phase')
    (hn : ∀ claim slot, phase' ≠ .claimed claim slot) (claim : Claim) (slot : Bool) :
    phase ≠ .claimed claim slot := h ▸ hn claim slot

theorem Step.startEffect (h : Step d s s') : StartEffect d s s' := by
  have hi : ∀ claim slot, Phase.idle ≠ .claimed claim slot := fun _ _ => Phase.noConfusion
  have hdo : ∀ claim slot, Phase.down ≠ .claimed claim slot := fun _ _ => Phase.noConfusion
  have hr : ∀ failed error claim slot, rejected failed error ≠ .claimed claim slot :=
    fun _ _ _ _ => Phase.noConfusion
  cases h with
  | manage _ _ enabled => exact .quiet rfl enabled
  | observe amb position enabled | shutdown enabled => exact .quiet rfl (not_claimed_of_isOpen enabled)
  | account _ _ _ _ _ enabled
  | completeFails _ _ _ enabled
  | cancelFails _ _ _ enabled => exact .quiet rfl (not_claimed_of_isOpen enabled)
  | boot | settleStart | settleStartFails => exact .quiet rfl hi
  | crash => exact .quiet rfl hdo
  | recover _ enabled => exact .quiet rfl (not_claimed_of_eq enabled hdo)
  | beginCycle now enabled | loadCandidates queueId type enabled | endCycle enabled
  | dispatchFails enabled => exact .quiet rfl (not_claimed_of_eq enabled hi)
  | dispatch _ claim slot hd =>
    obtain ⟨amb, prepare, _, hy, rfl⟩ := hd.commits
    exact .claims claim slot amb prepare hy rfl rfl
  | unprepared claim _ error => exact .quiet rfl (hr claim error)
  | startAccepted claim slot enabled ready | startBroken claim slot enabled ready =>
    exact .starts claim slot enabled rfl rfl hi
  | startRefused claim slot error enabled =>
    exact .starts claim slot enabled rfl rfl (hr claim error)
  | complete _ _ _ hc =>
    obtain ⟨_, _, _, -, rfl⟩ := hc.returns
    exact .quiet rfl (not_claimed_of_isOpen hc.enabled)
  | cancel _ _ _ hc =>
    obtain ⟨_, _, _, -, rfl⟩ := hc.returns
    exact .quiet rfl (not_claimed_of_isOpen hc.enabled)

/-- An attempt is durably running, and its run with it. -/
structure DurablyRunning (db : Database) (k : AttemptKey) : Prop where
  attempt : ∃ a ∈ db.attempts, (key a : AttemptKey) = k ∧ a.state = .running
  run : ∃ run ∈ db.runs, run.id = k.runId ∧ run.state = .running

/-- The starts against the database. -/
structure StartsOk (s : System) : Prop where
  once : s.starts.Nodup
  durable : ∀ k ∈ s.starts, ∃ a ∈ s.node.db.attempts, (key a : AttemptKey) = k
  claimed : ∀ claim slot, s.phase = .claimed claim slot → claim.key ∉ s.starts ∧ DurablyRunning s.node.db claim.key

theorem Reachable.startsOk (h : Reachable d s) : StartsOk s := by
  refine h.induction (P := StartsOk) ⟨nodup_nil, fun k hk => ?_, fun claim slot hp => ?_⟩
    fun s s' hs ho hstep => ?_
  · cases hk
  · cases hp
  have hsto := hs.stored
  have hfr := hsto.frame hstep.commits
  have hkep : ∀ k ∈ s.starts, ∃ a ∈ s'.node.db.attempts, (key a : AttemptKey) = k := by
    intro k hk
    obtain ⟨a, ha, rfl⟩ := ho.durable k hk
    obtain ⟨a', ha', hke, -⟩ := hfr.attempts a ha
    exact ⟨a', ha', hke⟩
  cases hstep.startEffect with
  | quiet hst hph =>
    refine ⟨hst ▸ ho.once, hst ▸ hkep, fun claim slot hp => absurd hp (hph claim slot)⟩
  | claims _ _ _ _ hy hst hph =>
    have hcl := claim_moves hsto.consistent hy
    refine ⟨hst ▸ ho.once, hst ▸ hkep, fun claim' slot' hp => ?_⟩
    obtain ⟨rfl, rfl⟩ := claimed.inj (hph.symm.trans hp)
    refine ⟨fun hi => ?_, hcl.attempt, hcl.run⟩
    -- the key was free, so it has not been started before
    obtain ⟨a, ha, hke⟩ := ho.durable _ (hst ▸ hi)
    exact Table.find?_eq_none.1 hcl.fresh a ha hke
  | starts claim slot hc hd hst hph =>
    obtain ⟨hn, hdu⟩ := ho.claimed claim slot hc
    refine ⟨?_, fun k hk => ?_, fun claim' slot' hp => absurd hp (hph claim' slot')⟩
    · rw [hst, nodup_append]
      refine ⟨ho.once, nodup_singleton _, fun a ha b hb => ?_⟩
      rintro rfl
      exact hn (mem_singleton.1 hb ▸ ha)
    rw [hst, mem_append, mem_singleton] at hk
    rcases hk with hk | rfl
    · exact hkep k hk
    · obtain ⟨a, ha, hke, -⟩ := hdu.attempt
      exact ⟨a, hd ▸ ha, hke⟩

/-- Whoever starts an attempt finds it running in the database. -/
theorem Step.starts_durable (h : Reachable d s) (hstep : Step d s s') : s'.starts = s.starts ∨
    ∃ k, s'.starts = s.starts ++ [k] ∧ DurablyRunning s.node.db k := by
  cases hstep.startEffect with
  | quiet hst _ | claims claim slot amb prepare hy hst _ => exact .inl hst
  | starts claim slot hc _ hst =>
    exact .inr ⟨claim.key, hst, (h.startsOk.claimed claim slot hc).2⟩

theorem completed_of_retryHistory {a : JobAttempt} (h : isRetryHistory a = true) : a.state = .completed := by
  simp only [isRetryHistory, bool_steps] at h
  exact h.1

/-- A run is running exactly when its last attempt is. -/
theorem HistoryOk.running_iff {run : JobRun} {attempts : List JobAttempt}
    (h : HistoryOk run attempts) : run.state = .running ↔
      ∃ front last, attempts = front ++ [last] ∧ last.state = .running ∧ ∀ a ∈ front, a.state = .completed := by
  constructor
  · intro hs
    obtain ⟨front, last, heq, hru, -, -, hp⟩ := h.running hs
    exact ⟨front, last, heq, hru, fun a ha => completed_of_retryHistory (hp a ha)⟩
  rintro ⟨_, last, rfl, hru, -⟩
  have hl := h.last
  rw [getLast?_concat] at hl
  have hre : isRetryHistory last ≠ true := fun hr => by
    rw [completed_of_retryHistory hr] at hru
    cases hru
  have he : ¬ ((last.state = .completed ∧ last.outcome = some (Recovery.expectedOutcome run.state) ∧
    last.completedAt = run.completedAt ∧ last.dueAt = run.runnableAt) ∨
    run.state = .cancelled ∧ isRetryHistory last = true) := by
    rintro (⟨hc, -⟩ | ⟨-, hr⟩)
    · rw [hc] at hru
      cases hru
    · exact hre hr
  unfold LastOk at hl
  cases hs : run.state with
  | running => rfl
  | scheduled =>
    rw [hs] at hl
    exact hl.elim
  | retryWait =>
    rw [hs] at hl
    exact absurd hl hre
  | succeeded | failed | interrupted | cancelled =>
    rw [hs] at hl he
    exact absurd hl he

/-- **The executor is called only for an attempt that is durably running, and once; the attempts of a
run are numbered without holes, and a run is running exactly when its last attempt is.** -/
theorem started_once_after_commit (d : Deployment) : (∀ s s', Reachable d s → Step d s s' → s'.starts = s.starts ∨
      ∃ k, s'.starts = s.starts ++ [k] ∧ DurablyRunning s.node.db k) ∧ (∀ s, Reachable d s → s.starts.Nodup) ∧
    ∀ db, Stored d db → ∀ run ∈ db.runs, (db.attemptsOf run.id).map JobAttempt.attemptNumber =
      List.range' 1 (db.attemptsOf run.id).length ∧
      (run.state = .running ↔ ∃ front last, db.attemptsOf run.id = front ++ [last] ∧
        last.state = .running ∧ ∀ a ∈ front, a.state = .completed) := by
  refine ⟨fun s s' h hstep => hstep.starts_durable h, fun s h => h.startsOk.once, fun db h run hru => ?_⟩
  have hh := h.consistent.history run hru id
  exact ⟨hh.numbered, hh.running_iff⟩

namespace Sample

/-- The daemon starts the run that Run Now made. -/
def startManual : List Event :=
  [.boot, .manage (ambient 0 100) (.createQueue { name := "a" }), .manage (ambient 0 300)
    (.createJob { queue := .id (uuid 101), schedule := .cron "* * * * *" none, payload := ⟨"\x7b\x7d"⟩ }),
    .manage (ambient 0 400) (.runNow { jobId := uuid 301 }),
    .beginCycle 0, .loadCandidates (uuid 101) .cli, .dispatch (ambient 0 500) (uuid 101) (uuid 401) false,
    .startAccepted]

end Sample

set_option maxRecDepth 100000 in
/-- The first attempt of a manual run has been started, once. -/
theorem manual_run_started_once : let d := Sample.deployment "blocking"
    let s := (runEvents d System.initial startManual).getD System.initial
    s.starts = [⟨uuid 401, 1⟩] ∧ s.starts.Nodup ∧ s.node.db.runs.rows.map (fun run => (run.id, run.state)) =
      [(uuid 302, .scheduled), (uuid 401, .running)] ∧
    ∀ run ∈ s.node.db.runs, (s.node.db.attemptsOf run.id).map JobAttempt.attemptNumber =
      List.range' 1 (s.node.db.attemptsOf run.id).length ∧
      (run.state = .running ↔ ∃ front last, s.node.db.attemptsOf run.id = front ++ [last] ∧
        last.state = .running ∧ ∀ a ∈ front, a.state = .completed) := by
  have hs : Reachable (deployment "blocking")
    ((runEvents (deployment "blocking") System.initial startManual).getD
      System.initial) := .of_events (by decide +kernel)
  exact ⟨by decide +kernel, (started_once_after_commit _).2.1 _ hs, by decide +kernel,
    (started_once_after_commit _).2.2 _ hs.stored⟩

/-! ## Completions -/

/-- An accepted completion is one transaction on the database. -/
def CompletesAttempt (d : Deployment) (k : AttemptKey) (db db' : Database) : Prop :=
  ∃ amb completion effect, completion.key = k ∧ Yields (completeDurably d.env amb completion) db effect db'

theorem effective_key (completion : AttemptCompletion) (cancelled : Bool) :
    (effective completion cancelled).key = completion.key := by
  unfold effective
  split <;> rfl

variable {completion : AttemptCompletion}

theorem Scheduler.Accepts.completesAttempt {amb : Ambient} {runId : Uuid}
    {effect : CompletionEffect} {node node' : Node} (h : Accepts d.env amb runId completion effect node node') :
    CompletesAttempt d completion.key node.db node'.db :=
  ⟨amb, _, effect, effective_key _ _, h.db⟩

theorem Step.completions (h : Step d s s') : s'.completions = s.completions ∨
    ∃ k, s'.completions = s.completions ++ [k] ∧ CompletesAttempt d k s.node.db s'.node.db := by
  cases h with
  | dispatch _ _ _ hd =>
    obtain ⟨_, _, _, hy, rfl⟩ := hd.commits
    exact .inl rfl
  | settleStart claim _ _ _ _ _ accepted =>
    exact .inr ⟨claim.key, rfl, (yields_deliverCompletion.1 accepted).completesAttempt⟩
  | complete _ _ completion hc =>
    obtain ⟨_, _, _, hy, rfl⟩ := hc.returns
    exact .inr ⟨completion.key, rfl, (yields_deliverCompletion.1 hy).completesAttempt⟩
  | cancel _ _ _ hc =>
    obtain ⟨_, _, _, -, rfl⟩ := hc.returns
    exact .inl rfl
  | _ => exact .inl rfl

/-- The accepted completions against the database. -/
structure CompletionsOk (s : System) : Prop where
  once : s.completions.Nodup
  durable : ∀ k ∈ s.completions, ∃ a ∈ s.node.db.attempts, (key a : AttemptKey) = k ∧ a.state = .completed

theorem Reachable.completionsOk (h : Reachable d s) : CompletionsOk s := by
  refine h.induction (P := CompletionsOk) ⟨nodup_nil, fun k hk => ?_⟩ fun s s' hs ho hstep => ?_
  · cases hk
  have hfr := hs.stored.frame hstep.commits
  have hkep : ∀ k ∈ s.completions, ∃ a ∈ s'.node.db.attempts, (key a : AttemptKey) = k ∧ a.state = .completed := by
    intro k hk
    obtain ⟨a, ha, hke, hc⟩ := ho.durable k hk
    obtain ⟨a', ha', -, hfi⟩ := hfr.attempts a ha
    obtain rfl := hfi (.inl hc)
    exact ⟨a', ha', hke, hc⟩
  rcases hstep.completions with he | ⟨k, he, _, completion, _, rfl, hy⟩
  · exact ⟨he ▸ ho.once, he ▸ hkep⟩
  have hco := completeDurably_moves hs.stored.consistent hy
  obtain ⟨b, hb, hbk, hbs⟩ := hco.running
  -- a running attempt has not been completed before
  have hn : completion.key ∉ s.completions := by
    intro hi
    obtain ⟨a, ha, hke, hc⟩ := ho.durable _ hi
    obtain rfl := Table.eq_of_key ha hb (hke.trans hbk.symm)
    rw [hc] at hbs
    cases hbs
  refine ⟨?_, fun k hk => ?_⟩
  · rw [he, nodup_append]
    refine ⟨ho.once, nodup_singleton _, fun a ha b hb => ?_⟩
    rintro rfl
    exact hn (mem_singleton.1 hb ▸ ha)
  rw [he, mem_append, mem_singleton] at hk
  rcases hk with hk | rfl
  · exact hkep k hk
  · obtain ⟨a, ha, hke, hc, -⟩ := hco.completed
    exact ⟨a, ha, hke, hc⟩

/-- What one completion leaves behind, in all the tables it is about. -/
structure Applied (completion : AttemptCompletion) (db db' : Database) : Prop where
  attempt : ∃ a ∈ db'.attempts, (key a : AttemptKey) = completion.key ∧ a.state = .completed ∧
    a.outcome = some completion.outcome
  run : ∃ run ∈ db'.runs, run.id = completion.key.runId ∧ (run.state.isTerminal = true ∨ run.state = .retryWait)
  /-- A successor has been inserted where one is due, and a job without runs is finished. -/
  jobs : ∀ job ∈ db'.jobs, LiveRuns db' job
  /-- The suspension of the queue the run was in is over unless something else runs there. -/
  queue : ∀ run ∈ db.runs, run.id = completion.key.runId → ∀ queue ∈ db'.queues,
    queue.id = run.queueId → queue.state = .suspending →
    ∃ other ∈ db'.runs, other.queueId = queue.id ∧ other.state = .running
  job : ∀ run ∈ db.runs, run.id = completion.key.runId → ∀ job ∈ db'.jobs, job.id = run.jobId →
    job.state = .suspending → ∃ other ∈ db'.runs, other.jobId = job.id ∧ other.state = .running

theorem Scheduler.Completed.applied (h : Completed d.env completion db db') : Applied completion db db' where
  attempt := h.completed
  run := by
    obtain ⟨run, hr, hi, hs⟩ := h.run
    exact ⟨run, hr, hi, hs.imp_right And.left⟩
  jobs job hj := (h.moves.consistent.settled job hj id).liveRuns h.moves.consistent
  queue run hr hi queue hq hqi hs := by
    rcases h.moves.queues queue hq with ⟨_, -, -, -, hfr⟩ | hd
    · exact absurd hqi.symm (hfr hs run hr hi)
    · exact hd.busy hs
  job run hr hi job hj hji hs := by
    rcases h.moves.jobs job hj hs with ⟨_, -, -, -, hfr⟩ | hbu
    · exact absurd hji.symm (hfr run hr hi)
    · exact hbu

namespace Sample

/-- What the executor says about the attempt it was given. -/
def success : AttemptCompletion where
  key := ⟨uuid 401, 1⟩
  outcome := .succeeded
  result := ⟨"\x7b\x7d"⟩

end Sample

end Jobu
