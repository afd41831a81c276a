import Jobu.Recovery.Units
import Jobu.Scheduler.Actions
import Jobu.System

/-!
# The committed transactions of the daemon

Whatever the daemon does in memory, what is durable changes only by its committed transactions.
`Commit` lists them; a run of the daemon, with its crashes and cut-off recoveries, is a sequence of
them.

  > `Step.commits`: a step commits nothing or one transaction, or the units of a recovery.
-/

namespace Jobu

open Lib Scheduler

/-- One committed transaction of the daemon itself. -/
inductive Background (d : Deployment) (db : Database) : Database → Prop
  | observe (amb : Ambient) (position found : Option Uuid) (db' : Database)
    (yields : Yields (Telemetry.observePage amb position) db found db') : Background d db db'
  | account (sample : TimingSample) (batchSize : Nat) (position found : Option Uuid) (close : Bool)
    (db' : Database)
    (yields : Yields (Telemetry.accountingPage sample batchSize position close) db found db') :
    Background d db db'
  | recover (inputs : Recovery.Inputs) (delta : Recovery.Report) (db' : Database)
    (unit : Recovery.Repair d.env inputs db delta db') : Background d db db'
  | dispatch (amb : Ambient) (prepare : JobType → Json → Preparation) (runId : Uuid) (claim : Claim)
    (db' : Database) (yields : Yields (claimSelected d.env amb prepare runId) db (some claim) db') :
    Background d db db'
  | complete (amb : Ambient) (completion : AttemptCompletion) (effect : CompletionEffect)
    (db' : Database) (yields : Yields (completeDurably d.env amb completion) db effect db') :
    Background d db db'
  | cancel (amb : Ambient) (runId : Uuid) (expected : RunState) (db' : Database)
    (yields : Yields (cancelPending d.env amb runId expected) db () db') : Background d db db'

/-- One committed transaction. -/
inductive Commit (d : Deployment) (db : Database) : Database → Prop
  | manage (amb : Ambient) (op : Operation) (db' : Database)
    (yields : Yields (op.run d amb) db () db') : Commit d db db'
  | background (db' : Database) (transaction : Background d db db') : Commit d db db'

/-- Any finite sequence of committed transactions. -/
def Commits (d : Deployment) : Database → Database → Prop := Relation.ReflTransGen (Commit d)

/-- The databases that committed transactions lead to from the empty one. -/
def Stored (d : Deployment) (db : Database) : Prop := Commits d {} db

/-- A committed transaction with its clock reading, the instant it gives to what it starts, ends or
deletes, and the call of a client that asked for it, if any.  Recovery takes one reading at its start
for all its units. -/
inductive CommitAt (d : Deployment) (now : Int) : Option Operation → Database → Database → Prop
  | manage (amb : Ambient) (clock : amb.utcNow = now) (op : Operation) (db db' : Database)
    (yields : Yields (op.run d amb) db () db') : CommitAt d now (some op) db db'
  | observe (amb : Ambient) (clock : amb.utcNow = now) (position found : Option Uuid)
    (db db' : Database) (yields : Yields (Telemetry.observePage amb position) db found db') :
    CommitAt d now none db db'
  | account (sample : TimingSample) (batchSize : Nat) (position found : Option Uuid) (close : Bool)
    (db db' : Database)
    (yields : Yields (Telemetry.accountingPage sample batchSize position close) db found db') :
    CommitAt d now none db db'
  | recover (inputs : Recovery.Inputs) (clock : inputs.recoveryTime = now) (delta : Recovery.Report)
    (db db' : Database) (unit : Recovery.Repair d.env inputs db delta db') :
    CommitAt d now none db db'
  | dispatch (amb : Ambient) (clock : amb.utcNow = now) (prepare : JobType → Json → Preparation)
    (runId : Uuid) (claim : Claim) (db db' : Database)
    (yields : Yields (claimSelected d.env amb prepare runId) db (some claim) db') :
    CommitAt d now none db db'
  | complete (amb : Ambient) (clock : amb.utcNow = now) (completion : AttemptCompletion)
    (effect : CompletionEffect) (db db' : Database)
    (yields : Yields (completeDurably d.env amb completion) db effect db') :
    CommitAt d now none db db'
  | cancel (amb : Ambient) (clock : amb.utcNow = now) (runId : Uuid) (expected : RunState)
    (db db' : Database) (yields : Yields (cancelPending d.env amb runId expected) db () db') :
    CommitAt d now none db db'

variable {d : Deployment}

variable {db db' : Database}

theorem CommitAt.commit {now : Int} {call : Option Operation} (h : CommitAt d now call db db') : Commit d db db' := by
  cases h with
  | manage amb _ op _ _ hy => exact .manage amb op db' hy
  | observe amb _ position found _ _ hy => exact .background db' (.observe amb position found db' hy)
  | account sample batchSize position found close _ _ hy =>
    exact .background db' (.account sample batchSize position found close db' hy)
  | recover inputs _ delta _ _ unit => exact .background db' (.recover inputs delta db' unit)
  | dispatch amb _ prepare runId claim _ _ hy => exact .background db' (.dispatch amb prepare runId claim db' hy)
  | complete amb _ completion effect _ _ hy => exact .background db' (.complete amb completion effect db' hy)
  | cancel amb _ runId expected _ _ hy => exact .background db' (.cancel amb runId expected db' hy)

/-- Every transaction is made at some reading. -/
theorem Commit.reading (h : Commit d db db') : ∃ now call, CommitAt d now call db db' := by
  cases h with
  | manage amb op _ hy => exact ⟨amb.utcNow, _, .manage amb rfl op db db' hy⟩
  | background _ hb =>
    cases hb with
    | observe amb position found _ hy => exact ⟨amb.utcNow, _, .observe amb rfl position found db db' hy⟩
    | account sample batchSize position found close _ hy =>
      exact ⟨0, _, .account sample batchSize position found close db db' hy⟩
    | recover inputs delta _ unit => exact ⟨inputs.recoveryTime, _, .recover inputs rfl delta db db' unit⟩
    | dispatch amb prepare runId claim _ hy => exact ⟨amb.utcNow, _, .dispatch amb rfl prepare runId claim db db' hy⟩
    | complete amb completion effect _ hy => exact ⟨amb.utcNow, _, .complete amb rfl completion effect db db' hy⟩
    | cancel amb runId expected _ hy => exact ⟨amb.utcNow, _, .cancel amb rfl runId expected db db' hy⟩

/-- What holds of the empty database and survives every transaction holds of every stored one. -/
theorem Stored.induction {P : Database → Prop} (he : P {})
    (hc : ∀ db db', Stored d db → P db → Commit d db db' → P db') (h : Stored d db) : P db := by
  induction h with
  | refl => exact he
  | tail hbe hl ih => exact hc _ _ hbe ih hl

/-! ## Management -/

/-- A management operation that fails leaves the database. -/
theorem Operation.clean (op : Operation) (d : Deployment) (amb : Ambient) (db : Database) :
    Clean (op.run d amb) db := by
  cases op with
  | deleteQueue | deleteJob => exact clean_atomically _ db
  | _ =>
    refine clean_bind (clean_atomically _ db) fun _ _ _ e db' h => ?_
    cases h

/-! ## Steps -/

theorem commits_of_transaction {α : Type} {fault : Option Error} {x : Txn α}
    (h : ∀ a db', Yields x db a db' → Commit d db db') :
    Commits d db (after (transaction fault x) db) := by
  rcases after_transaction fault x db with he | ⟨a, hy⟩
  · rw [he]
    exact .refl
  · exact .single (h a _ hy)

variable {inputs : Recovery.Inputs} {report report' : Recovery.Report}

/-- The units of a recovery are committed one by one. -/
theorem background_of_repairs (h : Recovery.Repairs d.env inputs db report db' report') :
    Relation.ReflTransGen (Background d) db db' := by
  induction h with
  | none => exact .refl
  | step _ unit ih => exact ih.tail (.recover inputs _ _ unit)

theorem commits_of_repairs (h : Recovery.Repairs d.env inputs db report db' report') : Commits d db db' :=
  Relation.ReflTransGen.mono (fun _ db' => Commit.background db') _ _ (background_of_repairs h)

theorem commits_of_accepts {amb : Ambient} {runId : Uuid} {completion : AttemptCompletion}
    {effect : CompletionEffect} {node node' : Node}
    (h : Accepts d.env amb runId completion effect node node') : Commits d node.db node'.db :=
  .single (.background _ (.complete amb _ effect _ h.db))

variable {s : System}

/-- **A step commits nothing, one transaction, or the units of a recovery.** -/
theorem Step.commits {s' : System} (h : Step d s s') : Commits d s.node.db s'.node.db := by
  have hsa : ∀ {node node' : Node}, node' = node ∨ node' = Node.closed node → Commits d node.db node'.db := by
    rintro _ node' (rfl | rfl)
    · exact .refl
    · exact .refl
  cases h with
  | manage amb op =>
    show Commits d s.node.db (after (op.run d amb) s.node.db)
    rcases (op.clean d amb s.node.db).after_or with he | ⟨u, hy⟩
    · rw [he]
      exact .refl
    · exact .single (.manage amb op _ hy)
  | observe amb position =>
    show Commits d s.node.db (after (latching (durable (transaction amb.fault
      (Telemetry.observePage amb position)))) s.node).db
    by_cases hdo : ∃ found node', Yields (durable (transaction amb.fault
      (Telemetry.observePage amb position))) s.node found node'
    · obtain ⟨found, node', hy⟩ := hdo
      rw [(yields_latching.2 hy).after_eq]
      obtain ⟨db', hbo, rfl⟩ := yields_durable.1 hy
      exact .single (.background _ (.observe amb position found db' ((yields_transaction _ _ _ _ _).1 hbo).2))
    · rw [after_latching (clean_durable (clean_transaction _ _ _)) fun found node' hy => hdo ⟨found, node', hy⟩]
      exact .refl
  | account sample batchSize position close =>
    exact commits_of_transaction fun found db' hy =>
      .background db' (.account sample batchSize position found close db' hy)
  | boot | shutdown | crash | endCycle | dispatchFails | unprepared | startAccepted | startRefused
  | startBroken => exact .refl
  | recover inputs => exact commits_of_repairs (Recovery.recoverStartup_repairs d.env inputs _)
  | beginCycle now =>
    show Commits d s.node.db (after _ s.node).db
    rw [(beginCycle_sameWork d.env d.options now s.node).db]
    exact .refl
  | loadCandidates queueId type =>
    show Commits d s.node.db (after _ s.node).db
    rw [(loadCandidates_sameWork d.env d.options queueId type s.node).db]
    exact .refl
  | dispatch _ claim _ hd =>
    obtain ⟨amb, prepare, db', hy, rfl⟩ := hd.commits
    exact .single (.background _ (.dispatch amb prepare _ claim db' hy))
  | settleStart _ _ _ _ _ _ accepted =>
    have hco := commits_of_accepts (yields_deliverCompletion.1 accepted)
    exact hco
  | settleStartFails claim error amb _ refused | completeFails amb runId completion _ refused =>
    exact hsa (deliverCompletion_refused refused)
  | complete _ _ _ hc =>
    obtain ⟨amb, _, _, hy, rfl⟩ := hc.returns
    exact commits_of_accepts (yields_deliverCompletion.1 hy)
  | cancel _ runId _ hc =>
    obtain ⟨amb, _, _, hy, rfl⟩ := hc.returns
    obtain ⟨-, hca⟩ := yields_cancelRun hy
    cases hca with
    | requested => exact .refl
    | completed _ _ _ _ db' hbo => exact .single (.background _ (.cancel amb runId _ db' hbo))
  | cancelFails _ _ _ _ refused => exact hsa (cancelRun_refused refused)

/-- The database of a reachable state is a stored one. -/
theorem Reachable.stored (h : Reachable d s) : Stored d s.node.db := by
  unfold Reachable Steps at h
  induction h with
  | refl => exact .refl
  | tail _ hl ih => exact Relation.ReflTransGen.trans ih hl.commits

end Jobu
