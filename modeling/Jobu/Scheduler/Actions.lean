import Jobu.Scheduler.Core

/-!
# What an action leaves of the node

A completion that is not accepted and a cancellation that is refused leave the database and the
attempts the core owns exactly as they were; at most the core closes.  The readings of a cycle never
touch the database.

  > `deliverCompletion_refused`: a completion that is not accepted changes nothing but the latch.
  > `cancelRun_refused`: nor does a cancellation that fails.
-/

namespace Jobu

open Lib

namespace Scheduler

variable {env : Environment} {amb : Ambient} {node node' : Node}

/-- The node, with the core closed. -/
def Node.closed (node : Node) : Node := { node with memory := node.memory.shutdown }

theorem yields_durable {α : Type} {x : Txn α} {a : α} : Yields (durable x) node a node' ↔
    ∃ db', Yields x node.db a db' ∧ node' = { node with db := db' } :=
  yields_zoom _ _ _ _ _ _

variable {u : Unit}

theorem yields_changeMemory {f : Memory → Memory} :
    Yields (changeMemory f) node u node' ↔ node' = { node with memory := f node.memory } :=
  yields_write _ _ _ _

theorem clean_durable {α : Type} {x : Txn α} (h : Clean x node.db) : Clean (durable x) node := clean_zoom rfl h

theorem yields_latching {α : Type} {x : Action α} {a : α} :
    Yields (latching x) node a node' ↔ Yields x node a node' := by
  unfold Yields latching
  cases x node with
  | ok => exact Iff.rfl
  | error =>
    constructor
    · intro h
      cases h
    · intro h
      cases h

/-- A clean action that fails closes the core and does no more. -/
theorem after_latching {α : Type} {x : Action α} (hx : Clean x node)
    (hn : ∀ a node', ¬ Yields x node a node') : after (latching x) node = Node.closed node := by
  unfold after latching Node.closed
  cases h : x node with
  | ok a node1 => exact absurd h (hn a node1)
  | error e node1 => rw [hx e node1 h]

/-! ## Completions -/

theorem clean_completeDurably (completion : AttemptCompletion) (db : Database) :
    Clean (completeDurably env amb completion) db := clean_atomically _ db

theorem clean_processCompletion (runId : Uuid) (completion : AttemptCompletion) (node : Node) :
    Clean (processCompletion env amb runId completion) node := by
  refine clean_bind (clean_look _ _) fun active node1 hac => ?_
  obtain ⟨rfl, rfl⟩ := (yields_look _ _ _ _).1 hac
  refine clean_bind (clean_demand _ _ _) fun number node2 hn => ?_
  obtain ⟨-, rfl⟩ := (yields_demand _ _ _ _ _).1 hn
  refine clean_bind (clean_require _ _ _) fun _ node3 hk => ?_
  obtain ⟨-, rfl⟩ := (yields_require _ _ _ _ _).1 hk
  refine clean_bind (clean_query _ _) fun _ node4 hv => ?_
  obtain ⟨-, rfl⟩ := (yields_lift _ _ _ _).1 hv
  refine clean_bind (clean_look _ _) fun cancelled node5 hc => ?_
  obtain ⟨rfl, rfl⟩ := (yields_look _ _ _ _).1 hc
  refine clean_bind (clean_durable (clean_completeDurably _ _)) fun effect node6 _ e node' h => ?_
  -- after the commit nothing can fail
  cases h

/-- What an accepted completion does to the node. -/
structure Accepts (env : Environment) (amb : Ambient) (runId : Uuid) (completion : AttemptCompletion)
    (effect : CompletionEffect) (node node' : Node) : Prop where
  isOpen : node.memory.terminal = false
  active : node.memory.active runId = some completion.key.attemptNumber
  key : completion.key.runId = runId
  valid : validateCompletion completion = .ok ()
  db : Yields (completeDurably env amb (effective completion (node.memory.cancellations runId)))
    node.db effect node'.db
  memory : node'.memory = node.memory.forget runId

variable {runId : Uuid} {completion : AttemptCompletion}

theorem yields_deliverCompletion {effect : CompletionEffect} :
    Yields (deliverCompletion env amb runId completion) node (some effect) node' ↔
      Accepts env amb runId completion effect node node' := by
  simp only [deliverCompletion, processCompletion, yields_steps, yields_ite, yields_latching, yields_durable, yields_changeMemory]
  constructor
  · rintro ⟨_, _, ⟨rfl, rfl⟩, h⟩
    split at h
    · cases h.1
    rename_i ho
    obtain ⟨_, _, ⟨_, _, ⟨rfl, rfl⟩, _, _, ⟨hac, rfl⟩, _, _, ⟨hk, rfl⟩, _, _, ⟨hv, rfl⟩, _,
      _, ⟨rfl, rfl⟩, _, _, ⟨_, hd, rfl⟩, _, _, rfl, rfl, rfl⟩, hso, rfl⟩ := h
    cases hso
    refine ⟨by simpa using ho, ?_, ?_, hv, hd, rfl⟩
    · rw [hk]
      exact hac
    · rw [hk]
  · rintro ⟨ho, hac, hk, hv, hd, hm⟩
    refine ⟨_, node, ⟨rfl, rfl⟩, ?_⟩
    rw [if_neg (by rw [ho]; exact Bool.noConfusion)]
    refine ⟨effect, node', ⟨_, node, ⟨rfl, rfl⟩, _, node, ⟨hac, rfl⟩, (), node, ⟨?_, rfl⟩, (), node,
      ⟨hv, rfl⟩, _, node, ⟨rfl, rfl⟩, effect, _, ⟨node'.db, hd, rfl⟩, (), node', ?_, rfl, rfl⟩, rfl, rfl⟩
    · rw [← hk]
    · rw [← hm]

/-- **A completion that is not accepted changes nothing but the latch.** -/
theorem deliverCompletion_refused
    (h : ∀ effect node', ¬ Yields (deliverCompletion env amb runId completion) node (some effect) node') :
    after (deliverCompletion env amb runId completion) node = node ∨
      after (deliverCompletion env amb runId completion) node = Node.closed node := by
  by_cases hte : node.memory.terminal = true
  · have he : deliverCompletion env amb runId completion node = .ok none node := by
      show (if node.memory.terminal = true then (pure none : Action (Option CompletionEffect))
        else _) node = _
      rw [if_pos hte]
      rfl
    left
    unfold after
    rw [he]
  have he : deliverCompletion env amb runId completion node =
      (do let effect ← latching (processCompletion env amb runId completion)
          pure (some effect) : Action (Option CompletionEffect)) node := by
    show (if node.memory.terminal = true then (pure none : Action (Option CompletionEffect))
      else _) node = _
    rw [if_neg hte]
  have hn : ∀ effect node', ¬ Yields (processCompletion env amb runId completion) node effect
      node' := by
    intro effect node' hy
    refine h effect node' ?_
    unfold Yields
    rw [he]
    exact (yields_bind _ _ _ _ _).2 ⟨_, _, yields_latching.2 hy, (yields_pure _ _ _ _).2 ⟨rfl, rfl⟩⟩
  right
  rw [← after_latching (clean_processCompletion runId completion node) hn]
  unfold after
  rw [he]
  rcases after_bind (latching (processCompletion env amb runId completion))
    (fun effect => (pure (some effect) : Action (Option CompletionEffect))) node with
    ⟨effect, node2, hy, -⟩ | he2
  · exact absurd (yields_latching.1 hy) (hn effect node2)
  · exact he2

/-! ## Cancellation -/

theorem yields_findRunForCancel {found : Option JobRun} {db db' : Database}
    (h : Yields (findRunForCancel env runId) db found db') :
    db' = db ∧ ∀ run ∈ found, run ∈ db.runs ∧ run.id = runId := by
  simp only [findRunForCancel, yields_bind] at h
  obtain ⟨existing, _, he, h⟩ := h
  cases existing with
  | none =>
    obtain ⟨rfl, rfl⟩ := (yields_pure _ _ _ _).1 h
    exact ⟨Runs.yields_findById he, fun run hr => by cases hr⟩
  | some =>
    obtain ⟨rfl, hru, hi, -⟩ := Runs.yields_findById_some.1 he
    simp only [yields_query, except_steps, joined_eq_some, decodeSchedulerRun_ok] at h
    obtain ⟨⟨_, ⟨hro, -⟩, _, ⟨rfl, -⟩, _, -, _, -, rfl⟩, rfl⟩ := h
    refine ⟨rfl, fun r hr => ?_⟩
    cases hr
    rw [hro]
    exact ⟨hru, hi⟩

/-- What a cancellation that returns has done. -/
inductive Cancelled (env : Environment) (amb : Ambient) (runId : Uuid) (node : Node) :
    CancelDisposition → Node → Prop
  /-- The attempt in progress is asked to stop. -/
  | requested (run : JobRun) (number : Nat) (mem : run ∈ node.db.runs) (id : run.id = runId)
    (running : run.state = .running) (active : node.memory.active runId = some number)
    (durable : Yields (findActiveAttempt runId) node.db (some number) node.db) :
    Cancelled env amb runId node .requested
      { node with memory := node.memory.requestCancel runId }
  /-- The waiting run is cancelled. -/
  | completed (run : JobRun) (mem : run ∈ node.db.runs) (id : run.id = runId)
    (pending : run.state.isPending = true) (db' : Database)
    (yields : Yields (cancelPending env amb runId run.state) node.db () db') :
    Cancelled env amb runId node .completed { node with db := db' }

theorem requestCancel_of_requested {memory : Memory}
    (h : memory.cancellations runId = true) : memory.requestCancel runId = memory := by
  have he : (fun id => if id = runId then true else memory.cancellations id) =
    memory.cancellations := by
    funext _
    split
    next hi => rw [hi, h]
    · rfl
  unfold Memory.requestCancel
  rw [he]

variable {executorCancel : Except Error Unit}

theorem yields_requestCancellation (h : Yields (requestCancellation runId executorCancel) node u node') :
    ∃ number, node.memory.active runId = some number ∧ Yields (findActiveAttempt runId) node.db (some number) node.db ∧
      node' = { node with memory := node.memory.requestCancel runId } := by
  simp only [requestCancellation, yields_steps, yields_durable, yields_ite, yields_changeMemory] at h
  obtain ⟨_, _, ⟨rfl, rfl⟩, number, node, ⟨hac, rfl⟩, _, _, ⟨db', hfo, rfl⟩, _, _, ⟨rfl, rfl⟩, _,
    _, ⟨rfl, rfl⟩, h⟩ := h
  obtain rfl : db' = node.db := ((yields_query _ _ _ _).1 hfo).2
  refine ⟨number, hac, hfo, ?_⟩
  split at h
  next hr =>
    obtain ⟨-, rfl⟩ := h
    rw [requestCancel_of_requested hr]
  · obtain ⟨_, _, ⟨-, rfl⟩, rfl⟩ := h
    rfl

variable {isFatal : Error → Bool}

theorem yields_cancelRun {disposition : CancelDisposition}
    (h : Yields (cancelRun env amb isFatal runId executorCancel) node disposition node') :
    node.memory.terminal = false ∧ Cancelled env amb runId node disposition node' := by
  unfold Yields cancelRun at h
  split at h
  · cases h
  rename_i ho
  refine ⟨by simpa using ho, ?_⟩
  have hy : Yields (cancelRunImpl env amb runId executorCancel) node disposition node' := by
    unfold Yields
    cases hx : cancelRunImpl env amb runId executorCancel node with
    | ok =>
      rw [hx] at h
      exact h
    | error =>
      rw [hx] at h
      cases h
  simp only [cancelRunImpl, yields_steps, yields_durable, yields_ite] at hy
  obtain ⟨_, _, ⟨_, hfo, rfl⟩, run, _, ⟨rfl, rfl⟩, hy⟩ := hy
  obtain ⟨rfl, hre⟩ := yields_findRunForCancel hfo
  obtain ⟨hm, hi⟩ := hre run rfl
  split at hy
  next hs =>
    obtain ⟨_, _, hr, rfl, rfl⟩ := hy
    obtain ⟨number, hac, hd, rfl⟩ := yields_requestCancellation hr
    exact .requested run number hm hi hs hac hd
  · obtain ⟨_, _, ⟨hp, rfl⟩, _, _, ⟨db', hc, rfl⟩, rfl, rfl⟩ := hy
    exact .completed run hm hi hp db' hc

theorem clean_findRunForCancel (runId : Uuid) (db : Database) : Clean (findRunForCancel env runId) db := by
  refine clean_bind (clean_query _ _) fun existing db1 he => ?_
  obtain rfl := Runs.yields_findById he
  cases existing with
  | none => exact clean_pure _ _
  | some => exact clean_query _ _

theorem clean_requestCancellation (runId : Uuid) (executorCancel : Except Error Unit) (node : Node) :
    Clean (requestCancellation runId executorCancel) node := by
  refine clean_bind (clean_look _ _) fun active node1 hac => ?_
  obtain ⟨rfl, rfl⟩ := (yields_look _ _ _ _).1 hac
  refine clean_bind (clean_demand _ _ _) fun number node2 hn => ?_
  obtain ⟨-, rfl⟩ := (yields_demand _ _ _ _ _).1 hn
  refine clean_bind (clean_durable (clean_query _ _)) fun attempt node3 hat => ?_
  obtain ⟨db', hfo, rfl⟩ := yields_durable.1 hat
  obtain rfl : db' = node2.db := ((yields_query _ _ _ _).1 hfo).2
  refine clean_bind (clean_require _ _ _) fun _ node4 hsa => ?_
  obtain ⟨-, rfl⟩ := (yields_require _ _ _ _ _).1 hsa
  refine clean_bind (clean_look _ _) fun requested node5 hr => ?_
  obtain ⟨rfl, rfl⟩ := (yields_look _ _ _ _).1 hr
  split
  · exact clean_pure _ _
  · refine clean_bind (clean_query _ _) fun _ node6 hc e node' h => ?_
    cases h

theorem clean_cancelRunImpl (runId : Uuid) (executorCancel : Except Error Unit) (node : Node) :
    Clean (cancelRunImpl env amb runId executorCancel) node := by
  refine clean_bind (clean_durable (clean_findRunForCancel runId _)) fun found node1 hy => ?_
  obtain ⟨_, hfo, rfl⟩ := yields_durable.1 hy
  obtain ⟨rfl, -⟩ := yields_findRunForCancel hfo
  refine clean_bind (clean_demand _ _ _) fun run node2 hr => ?_
  obtain ⟨-, rfl⟩ := (yields_demand _ _ _ _ _).1 hr
  split
  · refine clean_bind (clean_requestCancellation _ _ _) fun _ node3 _ e node' h => ?_
    cases h
  refine clean_bind (clean_require _ _ _) fun _ node3 hp => ?_
  obtain ⟨-, rfl⟩ := (yields_require _ _ _ _ _).1 hp
  refine clean_bind (clean_durable (clean_atomically _ _)) fun _ node4 _ e node' h => ?_
  cases h

/-- **A cancellation that fails changes nothing but the latch.** -/
theorem cancelRun_refused (h : ∀ disposition node', ¬ Yields (cancelRun env amb isFatal runId executorCancel) node
      disposition node') :
    after (cancelRun env amb isFatal runId executorCancel) node = node ∨
      after (cancelRun env amb isFatal runId executorCancel) node = Node.closed node := by
  have hc : Clean (cancelRunImpl env amb runId executorCancel) node :=
    clean_cancelRunImpl runId executorCancel node
  unfold Yields cancelRun at h
  unfold after cancelRun
  split at h
  next hte =>
    rw [if_pos hte]
    exact .inl rfl
  next ho =>
    rw [if_neg ho]
    cases hx : cancelRunImpl env amb runId executorCancel node with
    | ok disposition node1 =>
      rw [hx] at h
      exact absurd rfl (h disposition node1)
    | error e node1 =>
      obtain rfl := hc e node1 hx
      simp only
      split
      · exact .inr rfl
      · exact .inl rfl

/-! ## Readings -/

/-- The database and the attempts in progress are the same. -/
structure SameWork (node node' : Node) : Prop where
  db : node'.db = node.db
  active : node'.memory.active = node.memory.active
  cancellations : node'.memory.cancellations = node.memory.cancellations

theorem SameWork.refl (node : Node) : SameWork node node := ⟨rfl, rfl, rfl⟩

theorem SameWork.closed (node : Node) : SameWork node (Node.closed node) := ⟨rfl, rfl, rfl⟩

theorem preserves_durable {α : Type} {x : Txn α} (hp : ∀ db, after x db = db) :
    Preserves (SameWork node) (durable x) := by
  intro node1 h
  have hd := hp node1.db
  unfold after at hd ⊢
  unfold durable zoom
  cases hx : x node1.db with
  | ok | error =>
    rw [hx] at hd
    simp only at hd
    simpa only [hd] using h

theorem preserves_latching {α : Type} {x : Action α} (h : Preserves (SameWork node) x) :
    Preserves (SameWork node) (latching x) := by
  intro node1 h₁
  have h₂ := h node1 h₁
  unfold after at h₂ ⊢
  unfold latching
  cases hx : x node1 with
  | ok =>
    rw [hx] at h₂
    exact h₂
  | error =>
    rw [hx] at h₂
    exact ⟨h₂.db, h₂.active, h₂.cancellations⟩

theorem beginCycle_sameWork (env : Environment) (options : Options) (now : Int) (node : Node) :
    SameWork node (after (beginCycle env options now) node) := by
  refine preserves_latching (preserves_bind (preserves_require _ _ _) fun _ =>
    preserves_bind (preserves_durable fun db => ?_) fun _ =>
    preserves_bind (preserves_durable fun db => ?_) fun _ =>
    preserves_bind (preserves_durable fun db => ?_) fun _ node1 h => ?_) node (.refl node)
  · exact preserves_look (fun db' => db' = db) _ db rfl
  · exact preserves_query (fun db' => db' = db) _ db rfl
  · exact preserves_bind (I := fun db' => db' = db) (preserves_query _ _) (fun _ => preserves_pure _ _)
      db rfl
  · exact ⟨h.db, h.active, h.cancellations⟩

theorem loadCandidates_sameWork (env : Environment) (options : Options) (queueId : Uuid)
    (type : JobType) (node : Node) :
    SameWork node (after (loadCandidates env options queueId type) node) := by
  refine preserves_latching (preserves_bind (preserves_look _ _) fun cycle => ?_) node (.refl node)
  cases cycle with
  | none => exact preserves_pure _ _
  | some =>
    refine preserves_bind (preserves_durable fun db => ?_) fun _ node1 h => ?_
    · exact preserves_bind (I := fun db' => db' = db) (preserves_require _ _ _)
        (fun _ => preserves_query _ _) db rfl
    · exact ⟨h.db, h.active, h.cancellations⟩

end Scheduler

end Jobu
