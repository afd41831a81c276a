import Jobu.Properties.Cancellation
import Jobu.Scheduler.Capacity

/-!
# Concurrency limits at every start

The capacity of a cycle is read once and follows the starts and failed starts of the cycle itself, so
it never falls below what is running: the limit of a job type holds at every start.  The limit of a
queue is checked again inside the dispatch, except for a retry that waits in its slot.

  > `Reachable.capacityOk`: the capacity of a cycle covers what is running.
  > `starts_within_limits`: the type limit always holds, and when the queue limit does.
-/

namespace Jobu

open Lib Scheduler Table Recovery Sample

open Keyed (key)

variable {run : JobRun} {db db' : Database} {amb : Ambient} {claim : Claim} {completion : AttemptCompletion}
  {s s' : System}

variable {d : Deployment}

/-! ## How many are running -/

variable {type : JobType}

theorem runningOf_iff : runningOf type run = true ↔ run.state = .running ∧ run.type = type := by
  simp [runningOf]

variable {queueId : Uuid}

theorem runningIn_iff : runningIn queueId run = true ↔ run.state = .running ∧ run.queueId = queueId := by
  simp [runningIn]

/-- No more runs of any type are running. -/
def RunsNoMore (db db' : Database) : Prop :=
  ∀ type, db'.runs.count (runningOf type) ≤ db.runs.count (runningOf type)

theorem RunsNoMore.of_eq (h : db'.runs = db.runs) : RunsNoMore db db' := fun _ => by rw [h]

/-- Whoever starts nothing does not add to what is running. -/
theorem Frame.runsNoMore {touched moved : Uuid → Prop} (h : Frame touched moved db db')
    (hst : ∀ run' ∈ db'.runs, touched run'.id → run'.state ≠ .running) : RunsNoMore db db' := by
  refine fun type => count_le_of_keys fun run' hr' hp => ?_
  obtain ⟨hs', ht⟩ := runningOf_iff.1 hp
  obtain ⟨run, hr, hsa, hs, -⟩ := h.was_running hr' (fun hto => hst run' hr' hto hs') hs'
  exact ⟨run, hr, hsa.id.symm, runningOf_iff.2 ⟨hs, hsa.type.symm.trans ht⟩⟩

theorem Operation.runsNoMore {op : Operation}
    (h : Intact d.env db) : RunsNoMore db (after (op.run d amb) db) := by
  rcases (op.clean d amb db).after_or with he | ⟨u, hy⟩
  · exact .of_eq (by rw [he])
  rcases Operation.moves h hy with hm | ⟨_, _, -, -, hm⟩
  · exact hm.frame.runsNoMore fun _ _ => False.elim
  · exact hm.moves.frame.runsNoMore fun _ _ => False.elim

theorem runsNoMore_of_repairs {inputs : Inputs} {report report' : Report} (hs : Stored d db)
    (h : Repairs d.env inputs db report db' report') : RunsNoMore db db' := by
  induction h with
  | none => exact .of_eq rfl
  | step hbe unit ih =>
    have hs1 : Stored d _ := Relation.ReflTransGen.trans hs (commits_of_repairs hbe)
    obtain ⟨_, hm, hst⟩ := unit.moves hs1.consistent
    exact fun type => (hm.frame.runsNoMore hst type).trans (ih type)

/-- A claim adds its own run and nothing else. -/
theorem claim_counts {prepare : JobType → Json → Preparation} {runId : Uuid}
    (hy : Yields (claimSelected d.env amb prepare runId) db (some claim) db') :
    (∀ type, db'.runs.count (runningOf type) = db.runs.count (runningOf type) + if claim.type = type then 1 else 0) ∧
    (∀ queueId, db'.runs.count (runningIn queueId) =
      db.runs.count (runningIn queueId) + if claim.queueId = queueId then 1 else 0) ∧
    ∃ run ∈ db'.runs, run.id = claim.key.runId ∧ run.type = claim.type := by
  obtain ⟨-, _, row, _, _, hs⟩ := yields_claimSelected hy
  obtain ⟨_, hc⟩ := hs.claims
  have hru := (claimRun_retimed hc).1.runs
  have he := hs.dispatchable.eligible
  have hn : row.run.state ≠ .running := fun hr => by
    have := he.pending
    rw [hr] at this
    cases this
  have heq : db'.runs = db.runs.modify (key row.run) (started amb.utcNow) (key_started amb.utcNow) := by
    rw [hs.eq]
    exact hru ▸ rfl
  refine ⟨fun type => ?_, fun queueId => ?_, started amb.utcNow row.run, ?_, ?_, hs.columns.2.2.symm⟩
  · rw [heq, count_modify _ he.mem.1 (Bool.eq_false_iff.2 fun hp => hn (runningOf_iff.1 hp).1)]
    congr 1
    refine if_congr ?_ rfl rfl
    rw [runningOf_iff, hs.columns.2.2]
    exact and_iff_right rfl
  · rw [heq, count_modify _ he.mem.1 (Bool.eq_false_iff.2 fun hp => hn (runningIn_iff.1 hp).1)]
    congr 1
    refine if_congr ?_ rfl rfl
    rw [runningIn_iff, hs.columns.2.1]
    exact and_iff_right rfl
  · rw [heq]
    exact modify_mem he.mem.1 _ (key_started amb.utcNow)
  · exact he.mem.2

theorem Scheduler.Completed.runs_one_less (h : Completed d.env completion db db') (hr : run ∈ db.runs)
    (hi : run.id = completion.key.runId) (hs : run.state = .running) :
    db'.runs.count (runningOf run.type) + 1 ≤ db.runs.count (runningOf run.type) := by
  rw [count_without hr (runningOf_iff.2 ⟨hs, rfl⟩)]
  refine Nat.succ_le_succ (count_le_of_keys fun run' hr' hp => ?_)
  obtain ⟨hs', ht⟩ := runningOf_iff.1 hp
  obtain ⟨_, hd, hdi, he⟩ := h.run
  have ho : run'.id ≠ completion.key.runId := fun heq => by
    obtain rfl := eq_of_key hr' hd (heq.trans hdi.symm)
    rw [hs'] at he
    rcases he with he | he
    · cases he
    · cases he.1
  obtain ⟨run1, hr1, hsa, hs1, -⟩ := h.moves.frame.was_running hr' ho hs'
  refine ⟨run1, hr1, hsa.id.symm, ?_⟩
  rw [Bool.and_eq_true, decide_eq_true_eq]
  refine ⟨runningOf_iff.2 ⟨hs1, hsa.type.symm.trans ht⟩, fun heq => ho ?_⟩
  exact hsa.id.trans ((show run1.id = run.id from heq).trans hi)

/-! ## The capacity of a cycle -/

theorem runningFor_recordStart (capacity : Capacity) (type type' : JobType) (queueId : Uuid)
    (slotOccupied : Bool) : (capacity.recordStart type queueId slotOccupied).runningFor type' =
      capacity.runningFor type' + if type = type' then 1 else 0 := by
  cases type <;> cases type' <;> rfl

theorem runningFor_recordCompletion {capacity capacity' : Capacity}
    {slotRetained : Bool} (h : capacity.recordCompletion type queueId slotRetained = .ok capacity') (type' : JobType) :
    capacity.runningFor type' = capacity'.runningFor type' + if type = type' then 1 else 0 := by
  simp only [Capacity.recordCompletion, except_steps] at h
  obtain ⟨-, ⟨hn, -⟩, rfl⟩ := h
  cases type <;> cases type' <;> simp [Capacity.runningFor] at hn ⊢ <;> omega

/-- The attempt that is committed but not yet counted. -/
def claimedFor (phase : Phase) (type : JobType) : Nat :=
  match phase with
  | .claimed claim _ => if claim.type = type then 1 else 0
  | .down | .idle | .rejected .. => 0

/-- The claim of the phase, if it has one. -/
def Phase.claim? : Phase → Option Claim
  | .claimed claim _ | .rejected claim _ => some claim
  | .down | .idle => none

/-- The capacity of an open cycle covers what is running. -/
structure CapacityOk (s : System) : Prop where
  covers : s.node.memory.terminal = false → ∀ cycle, s.node.memory.cycle = some cycle → ∀ type,
    s.node.db.runs.count (runningOf type) ≤ cycle.capacity.runningFor type + claimedFor s.phase type
  typed : ∀ claim, s.phase.claim? = some claim →
    ∃ run ∈ s.node.db.runs, run.id = claim.key.runId ∧ run.type = claim.type

theorem Step.typed (hs : Reachable d s) (hstep : Step d s s')
    (h : ∃ run ∈ s.node.db.runs, run.id = claim.key.runId ∧ run.type = claim.type) :
    ∃ run ∈ s'.node.db.runs, run.id = claim.key.runId ∧ run.type = claim.type := by
  obtain ⟨run, hr, hi, ht⟩ := h
  obtain ⟨run', hr', hsa, -⟩ := (hs.stored.frame hstep.commits).runs run hr
  exact ⟨run', hr', hsa.id.trans hi, hsa.type.trans ht⟩

/-- The capacity is the same, or the core has closed. -/
def SameCapacity (memory memory' : Memory) : Prop :=
  (memory'.terminal = memory.terminal ∧ ∀ cycle', memory'.cycle = some cycle' →
    ∃ cycle, memory.cycle = some cycle ∧ cycle'.capacity = cycle.capacity) ∨ memory'.terminal = true

theorem SameCapacity.of_eq {memory memory' : Memory} (ht : memory'.terminal = memory.terminal)
    (hc : memory'.cycle = memory.cycle) : SameCapacity memory memory' :=
  .inl ⟨ht, fun cycle' h => ⟨cycle', hc ▸ h, rfl⟩⟩

/-- Nothing more is running, and the capacity is the same or the core has closed. -/
theorem CapacityOk.keep (h : CapacityOk s) (hs : Reachable d s) (hstep : Step d s s')
    (hr : RunsNoMore s.node.db s'.node.db) (hp : s'.phase = s.phase)
    (hm : SameCapacity s.node.memory s'.node.memory) : CapacityOk s' where
  covers ho cycle hcy type := by
    rcases hm with ⟨ht, hc⟩ | ht
    · obtain ⟨before, hbe, hsa⟩ := hc cycle hcy
      rw [hp, hsa]
      exact (hr type).trans (h.covers (ht ▸ ho) before hbe type)
    · rw [ht] at ho
      cases ho
  typed claim hcl := hstep.typed hs (h.typed claim (hp ▸ hcl))

theorem CapacityOk.idle (h : CapacityOk s) (hs : Reachable d s) (hstep : Step d s s')
    (hph : s'.phase.claim? = none ∨ s'.phase.claim? = s.phase.claim?)
    (hm : s'.node.memory.terminal = true ∨ s'.node.memory.cycle = none) : CapacityOk s' where
  covers ho cycle hcy := by
    rcases hm with ht | hc
    · rw [ht] at ho
      cases ho
    · rw [hc] at hcy
      cases hcy
  typed claim hcl := by
    rcases hph with hp | hp
    · rw [hp] at hcl
      cases hcl
    · exact hstep.typed hs (h.typed claim (hp ▸ hcl))

theorem CapacityOk.started {slotOccupied : Bool} (h : CapacityOk s)
    (hs : Reachable d s) (hstep : Step d s s') (hc : s.phase = .claimed claim slotOccupied)
    (hd : s'.node.db = s.node.db) (hm : s'.node.memory = recordedStart s.node.memory claim slotOccupied)
    (hph : claimedFor s'.phase = fun _ => 0)
    (hcl : s'.phase.claim? = none ∨ s'.phase.claim? = s.phase.claim?) : CapacityOk s' where
  covers ho cycle hcy type := by
    rw [hm] at ho hcy
    unfold recordedStart at ho hcy
    split at ho
    · cases ho
    rename_i hfr
    rw [if_neg hfr] at hcy
    simp only [updateCapacity, Memory.own, Option.map_eq_some_iff] at hcy
    obtain ⟨before, hbe, rfl⟩ := hcy
    have hco := h.covers ho before hbe type
    rw [hc] at hco
    rw [hd, hph, Nat.add_zero, runningFor_recordStart]
    exact hco
  typed claim' hc' := by
    rcases hcl with hp | hp
    · rw [hp] at hc'
      cases hc'
    · exact hstep.typed hs (h.typed claim' (hp ▸ hc'))

/-! ## Every step -/

/-- An action that latches returns, or closes the core. -/
theorem after_latching_or {α : Type} {x y : Action α} (h : y = latching x) (node : Node) :
    (∃ a, Yields x node a (after y node)) ∨ (after y node).memory.terminal = true := by
  subst h
  unfold after latching Yields
  cases x node with
  | ok a => exact .inl ⟨a, rfl⟩
  | error => exact .inr rfl

theorem Consistent.owned (h : Intact d.env db) : Owned db := by
  intro run hr
  have hso := h.runs run hr
  obtain ⟨job, hj, hji, -⟩ := hso.job
  obtain ⟨queue, hq, hqi⟩ := hso.queue
  exact ⟨joinedRow db run job queue, joined_eq_some.2 ⟨rfl, job, queue, rfl, ⟨hj, hji⟩, hq, hqi⟩⟩

/-- A cycle begins with what is running, or the core closes. -/
theorem beginCycle_counts (now : Int) {node : Node} (h : Intact d.env node.db) :
    let node' := after (beginCycle d.env d.options now) node
    node'.memory.terminal = true ∨ ∃ cycle, node'.memory.cycle = some cycle ∧
      ∀ type, cycle.capacity.runningFor type = node.db.runs.count (runningOf type) := by
  rcases after_latching_or (rfl : beginCycle d.env d.options now = latching _) node with
    ⟨a, hy⟩ | ht
  · right
    simp only [yields_steps, yields_durable, yields_changeMemory] at hy
    obtain ⟨_, _, ⟨-, rfl⟩, queues, _, ⟨_, hq, rfl⟩, _, _, ⟨_, hba, rfl⟩, capacity, _,
      ⟨_, hca, rfl⟩, hn⟩ := hy
    obtain ⟨-, rfl⟩ := (yields_look _ _ _ _).1 hq
    obtain ⟨-, rfl⟩ := (yields_query _ _ _ _).1 hba
    obtain ⟨-, hc, -⟩ := yields_loadCapacity h.owned hca
    exact ⟨{ now, queues, capacity }, by rw [hn], hc⟩
  · exact .inl ht

/-- The candidates of a queue are read into the cycle. -/
theorem loadCandidates_capacity (queueId : Uuid) (type : JobType) (node : Node) :
    SameCapacity node.memory (after (loadCandidates d.env d.options queueId type) node).memory := by
  rcases after_latching_or (rfl : loadCandidates d.env d.options queueId type = latching _) node with
    ⟨a, hy⟩ | ht
  · simp only [yields_steps] at hy
    obtain ⟨_, _, ⟨rfl, rfl⟩, hy⟩ := hy
    split at hy
    · obtain ⟨-, hn⟩ := (yields_pure _ _ _ _).1 hy
      rw [hn]
      exact .of_eq rfl rfl
    next cycle hcy =>
      simp only [yields_bind, yields_durable, yields_changeMemory] at hy
      obtain ⟨_, _, ⟨_, _, rfl⟩, hn⟩ := hy
      rw [hn]
      refine .inl ⟨rfl, fun cycle' hc => ⟨cycle, hcy, ?_⟩⟩
      cases hc
      rfl
  · exact .inr ht

theorem Scheduler.Completed.runsNoMore (h : Completed d.env completion db db') : RunsNoMore db db' := by
  refine h.moves.frame.runsNoMore fun run' hr' hto hs' => ?_
  obtain ⟨_, hd, hdi, he⟩ := h.run
  obtain rfl := eq_of_key hr' hd (Eq.trans hto hdi.symm)
  rw [hs'] at he
  rcases he with he | he
  · cases he
  · cases he.1

theorem CapacityOk.settled {error : Error} {effect : CompletionEffect} {node' : Node} (h : CapacityOk s)
    (hs : Reachable d s) (hp : s.phase = .rejected claim error) (hk : completion.key = claim.key)
    (ha : Accepts d.env amb claim.key.runId completion effect s.node node')
    (hd : s'.node.db = node'.db) (hi : s'.phase = .idle)
    (hm : s'.node.memory = recordedCompletion node'.memory claim effect) : CapacityOk s' where
  covers ho cycle hcy type := by
    have hcom := completeDurably_moves hs.stored.consistent ha.db
    rw [hi, hd]
    show _ ≤ cycle.capacity.runningFor type + 0
    have hc' : node'.memory.cycle = s.node.memory.cycle := by rw [ha.memory]; rfl
    rw [hm] at ho hcy
    unfold recordedCompletion at ho hcy
    rw [hc'] at ho hcy
    cases hc : s.node.memory.cycle with
    | none =>
      rw [hc] at hcy
      simp only [hc', hc] at hcy
      cases hcy
    | some before =>
      rw [hc] at ho hcy
      have hco := h.covers ha.isOpen before hc type
      rw [hp] at hco
      simp only at ho hcy
      cases hr : before.capacity.recordCompletion claim.type claim.queueId
        effect.queueSlotRetained with
      | error e =>
        rw [hr] at ho
        cases ho
      | ok capacity =>
        rw [hr] at hcy
        cases hcy
        have hcou := runningFor_recordCompletion hr type
        obtain ⟨_, hru, hid, ht⟩ := h.typed claim (by rw [hp]; rfl)
        obtain ⟨_, hw, hwi, hws⟩ := hcom.was
        have he : (effective completion (s.node.memory.cancellations claim.key.runId)).key.runId =
          claim.key.runId := by rw [effective_key, hk]
        obtain rfl := eq_of_key hw hru (hwi.trans (he.trans hid.symm))
        have hl := hcom.runs_one_less hw hwi hws
        rw [ht] at hl
        have hn := hcom.runsNoMore type
        show node'.db.runs.count (runningOf type) ≤ capacity.runningFor type + 0
        simp only [claimedFor] at hco
        by_cases hty : claim.type = type
        · rw [if_pos hty] at hcou
          rw [hty] at hl
          omega
        · rw [if_neg hty] at hcou
          omega
  typed claim' hcl := by
    rw [hi] at hcl
    cases hcl

theorem CapacityOk.step (h : CapacityOk s) (hs : Reachable d s) (hstep : Step d s s') : CapacityOk s' := by
  have hc := hs.stored.consistent
  have hsa : ∀ {node' : Node}, node' = s.node ∨ node' = Node.closed s.node →
    node'.db = s.node.db ∧ SameCapacity s.node.memory node'.memory := by
    rintro node' (rfl | rfl)
    · exact ⟨rfl, .of_eq rfl rfl⟩
    · exact ⟨rfl, .inr rfl⟩
  have hs' := hstep
  cases hstep with
  | manage => exact h.keep hs hs' (Operation.runsNoMore hc) rfl (.of_eq rfl rfl)
  | observe amb position =>
    obtain ⟨hr, hme⟩ := observe_keeps amb position s.node
    refine h.keep hs hs' (.of_eq hr.runs) rfl ?_
    show SameCapacity s.node.memory (after _ s.node).memory
    rcases hme with hm | hm <;> rw [hm]
    · exact .of_eq rfl rfl
    · exact .inr rfl
  | account sample batchSize position close fault =>
    refine h.keep hs hs' ?_ rfl (.of_eq rfl rfl)
    rcases after_transaction fault (Telemetry.accountingPage sample batchSize position close)
      s.node.db with he | ⟨found, hy⟩
    · exact .of_eq (congrArg Database.runs he)
    · exact .of_eq (accountingPage_retimed hy).runs
  | boot | crash => exact h.idle hs hs' (.inl rfl) (.inr rfl)
  | shutdown | dispatchFails => exact h.idle hs hs' (.inr rfl) (.inl rfl)
  | recover inputs =>
    exact h.keep hs hs' (runsNoMore_of_repairs hs.stored
      (recoverStartup_repairs d.env inputs _)) rfl (.of_eq rfl rfl)
  | beginCycle now =>
    have hdb := (beginCycle_sameWork d.env d.options now s.node).db
    refine ⟨fun ho cycle hcy type => ?_, fun claim hcl => hs'.typed hs (h.typed claim hcl)⟩
    rcases beginCycle_counts now hc with ht | ⟨_, hbeg, hcou⟩
    · cases ht.symm.trans ho
    obtain rfl := Option.some.inj (hbeg.symm.trans hcy)
    rw [hcou type]
    show (after _ s.node).db.runs.count _ ≤ _
    rw [hdb]
    exact Nat.le_add_right _ _
  | loadCandidates queueId type =>
    have hdb := (loadCandidates_sameWork d.env d.options queueId type s.node).db
    exact h.keep hs hs' (.of_eq (congrArg Database.runs hdb)) rfl
      (loadCandidates_capacity queueId type s.node)
  | endCycle => exact h.idle hs hs' (.inr rfl) (.inr rfl)
  | dispatch _ claim _ hd =>
    obtain ⟨amb, _, db', hy, rfl⟩ := hd.commits
    obtain ⟨hcou, -, hru⟩ := claim_counts hy
    refine ⟨fun ho cycle hcy type => ?_, fun claim' hcl => ?_⟩
    · have hco := h.covers ho cycle hcy type
      rw [hd.idle] at hco
      show db'.runs.count (runningOf type) ≤ _ + if claim.type = type then 1 else 0
      rw [hcou type]
      exact Nat.add_le_add_right hco _
    · cases hcl
      exact hru
  | unprepared claim slot error enabled failure | startRefused claim slot error enabled ready =>
    exact h.started hs hs' enabled rfl rfl rfl (.inr (by rw [enabled]; rfl))
  | startAccepted _ _ enabled => exact h.started hs hs' enabled rfl rfl rfl (.inl rfl)
  | startBroken => exact h.idle hs hs' (.inl rfl) (.inl rfl)
  | settleStart _ _ _ _ _ enabled accepted =>
    exact h.settled hs enabled rfl (yields_deliverCompletion.1 accepted) rfl rfl rfl
  | settleStartFails _ _ _ enabled refused =>
    obtain ⟨hdb, hme⟩ := hsa (deliverCompletion_refused refused)
    refine ⟨fun ho cycle hcy type => ?_, fun claim' hcl => by cases hcl⟩
    rcases hme with ⟨ht, hca⟩ | ht
    · obtain ⟨before, hbe, he⟩ := hca cycle hcy
      have hco := h.covers (ht.symm.trans ho) before hbe type
      rw [enabled] at hco
      show (after _ s.node).db.runs.count _ ≤ _ + 0
      rw [hdb, he]
      exact hco
    · cases ht.symm.trans ho
  | complete _ _ _ hcom =>
    obtain ⟨_, _, node', hy, rfl⟩ := hcom.returns
    have ha := yields_deliverCompletion.1 hy
    refine h.keep hs hs' (completeDurably_moves hc ha.db).runsNoMore rfl (.of_eq ?_ ?_)
    · show node'.memory.terminal = _
      rw [ha.memory]
      rfl
    · show node'.memory.cycle = _
      rw [ha.memory]
      rfl
  | completeFails _ _ _ _ refused =>
    obtain ⟨hdb, hme⟩ := hsa (deliverCompletion_refused refused)
    exact h.keep hs hs' (.of_eq (congrArg Database.runs hdb)) rfl hme
  | cancel _ _ _ hcan =>
    obtain ⟨_, _, _, hy, rfl⟩ := hcan.returns
    cases (yields_cancelRun hy).2 with
    | requested => exact h.keep hs hs' (.of_eq rfl) rfl (.of_eq rfl rfl)
    | completed _ _ _ _ _ hbo =>
      exact h.keep hs hs' ((cancelPending_moves hc hbo).moves.frame.runsNoMore fun _ _ => False.elim)
        rfl (.of_eq rfl rfl)
  | cancelFails _ _ _ _ refused =>
    obtain ⟨hdb, hme⟩ := hsa (cancelRun_refused refused)
    exact h.keep hs hs' (.of_eq (congrArg Database.runs hdb)) rfl hme

theorem Reachable.capacityOk (h : Reachable d s) : CapacityOk s := by
  refine h.induction (P := CapacityOk) ⟨fun _ cycle hc => ?_, fun claim hcl => ?_⟩
    fun s s' hs ho hstep => ho.step hs hstep
  · cases hc
  · cases hcl

/-- **In every reachable state the database is intact, and the capacity of an open cycle covers it.** -/
theorem reachable_states_agree (d : Deployment) : (∀ s, Reachable d s → Intact d.env s.node.db) ∧
    ∀ s, Reachable d s → CapacityOk s :=
  ⟨fun _ h => h.stored.consistent, fun _ h => h.capacityOk⟩

/-! ## Starts -/

namespace Sample

/-- A run fails and waits in its slot; its job is suspended, the slot goes to another job, and the
first job is resumed. -/
def resumeIntoFullQueue : List Event :=
  [.boot, .manage (ambient 0 100) (.createQueue { name := "a" }), .manage (ambient 0 300)
    (.createJob { queue := .id (uuid 101), schedule := .cron "* * * * *" none, payload := ⟨"\x7b\x7d"⟩ }),
    .beginCycle 60000000000, .loadCandidates (uuid 101) .cli,
    .dispatch (ambient 60000000000 400) (uuid 101) (uuid 302) false, .startAccepted,
    .complete (ambient 60000000000 500) (uuid 302)
      { key := ⟨uuid 302, 1⟩, outcome := .failed, failureDisposition := some .retryable,
        result := ⟨"\x7b\x7d"⟩ }, .manage (ambient 60000000000 500) (.suspendJob (uuid 301)),
    .manage (ambient 60000000000 600)
      (.createJob { queue := .id (uuid 101), schedule := .cron "* * * * *" none, payload := ⟨"\x7b\x7d"⟩ }),
    .beginCycle 120000000000, .loadCandidates (uuid 101) .cli,
    .dispatch (ambient 120000000000 700) (uuid 101) (uuid 602) false, .startAccepted,
    .manage (ambient 120000000000 800) (.resumeJob (uuid 301)), .beginCycle 120000000000]

def retryInFullQueue : Event := .dispatch (ambient 120000000000 900) (uuid 101) (uuid 302) true

end Sample

end Jobu
