import Jobu.Consistency.Live
import Jobu.Management.Queue

/-!
# Queue operations keep the database consistent

Each operation starts from a consistent database and, when it commits, ends in one.  The proofs
follow the transaction: what it read, the writes in the middle, and at the end that the state of the
queue fits the runs in it.

  > `eraseQueue_moves`: deleting a queue deletes its jobs and ends their waiting runs.
-/

namespace Jobu

open Lib Table Jobs Option Queues Bool

open Keyed (key)

variable {u : Unit} {selector : QueueSelector} {queue queue' : Queue} {request : UpdateQueueRequest}

/-! ## Lookups -/

namespace Management

variable {env : Environment} {amb : Ambient} {db db' : Database}

theorem yields_initialized (h : Yields (requireInitialized env) db u db') : db' = db := by
  unfold requireInitialized at h
  split at h
  · exact ((yields_pure _ _ _ _).1 h).2
  · exact absurd h (yields_fail _ _ _ _).1

theorem yields_validateSelector (h : Yields (validateSelector env selector) db u db') : db' = db := by
  cases selector with
  | id => exact ((yields_pure _ _ _ _).1 h).2
  | name => exact ((yields_require _ _ _ _ _).1 h).2

variable {includeDeleted : Bool}

theorem yields_findQueue {found : Option Queue}
    (h : Yields (findQueue env selector includeDeleted) db found db') : db' = db := by
  cases selector with
  | id => exact ((yields_query _ _ _ _).1 h).2
  | name => exact yields_findByName h

theorem yields_findQueue_some (h : Yields (findQueue env selector includeDeleted) db (some queue) db') : db' = db ∧
      queue ∈ db.queues ∧ (includeDeleted = true ∨ queue.state ≠ .deleted) ∧ QueueShape env queue := by
  cases selector with
  | id =>
    obtain ⟨rfl, hq, -, hd, hs⟩ := yields_findById_some.1 h
    exact ⟨rfl, hq, hd, hs⟩
  | name => exact yields_findByName_some h

variable {revision : Nat}

theorem not_yields_diagnoseQueueUpdate {id : Uuid} : ¬ Yields (diagnoseQueueUpdate env id revision) db u db' := by
  simp [diagnoseQueueUpdate]

/-! ## Queues -/

theorem createFreshQueue_moves {request : CreateQueueRequest}
    (h : Intact env db) (hna : env.isValidQueueName request.name = true)
    (hw : request.weight ≠ 0) (hl : request.concurrencyLimit ≠ 0)
    (hr : (request.historyRetention.all fun seconds => 0 ≤ seconds) = true)
    (hwa : 0 ≤ request.runnableWaitWarning)
    (hd : env.registry.validateQueueDefaults request.defaults = .ok ())
    (hy : Yields (createFreshQueue env amb request) db queue db') :
    Keeps env db db' := by
  simp only [createFreshQueue, yields_steps] at hy
  obtain ⟨_, _, ⟨-, rfl⟩, _, _, hfo, _, _, ⟨-, rfl⟩, _, _, hi, -, rfl⟩ := hy
  obtain rfl := yields_findByName hfo
  obtain ⟨hn, rfl⟩ := yields_insert hi
  refine ⟨h.insertQueue ?_ hn, .of_eq rfl rfl, fun queue' hq => ?_, .of_eq rfl⟩
  · exact ⟨⟨le_refl 1, show 1 ≤ maximumRevision by decide⟩, hna,
      Nat.one_le_iff_ne_zero.2 hw, Nat.one_le_iff_ne_zero.2 hl,
      AttributeRegistry.areQueueDefaults_iff.2 hd, hr, hwa, by simp [Queues.stored, newQueue]⟩
  · rcases (mem_insert (r := Queues.stored _) hn).1 hq with rfl | hq
    · exact .inr ⟨fun hs => by simp [Queues.stored, newQueue] at hs, fun hs => by simp [Queues.stored, newQueue] at hs⟩
    · exact .inl ⟨queue', hq, rfl, rfl, fun _ _ _ => False.elim⟩

theorem yields_replayStored {Request Result : Type} {codec : ReplayCodec Request Result}
    {record : IdempotencyRecord} {canonical : String} {mismatch : Error}
    {isResource : Result → Bool} {resourceMismatch : Error} {result : Result}
    (h : Yields (replayStored codec record canonical mismatch isResource resourceMismatch) db
      result db') : db' = db := by
  simp only [replayStored, yields_steps] at h
  obtain ⟨_, _, ⟨-, rfl⟩, _, _, ⟨-, rfl⟩, _, _, ⟨-, rfl⟩, _, _, ⟨-, rfl⟩, -, rfl⟩ := h
  rfl

theorem yields_findReply {method : String} {scopeId : Uuid} {key : String} {found : Option IdempotencyRecord}
    (h : Yields (Idempotency.find env method scopeId key) db found db') : db' = db :=
  ((yields_query _ _ _ _).1 h).2

theorem createQueue_moves {codec : ReplayCodec CreateQueueRequest Queue}
    {request : CreateQueueRequest} (h : Intact env db)
    (hy : Yields (createQueue env codec amb request) db queue db') :
    Keeps env db db' := by
  simp only [createQueue, yields_steps, validateConfiguration, validateIdempotencyKey] at hy
  obtain ⟨-, _, _, hi, _, _, ⟨hn, rfl⟩, _, _, ⟨_, _, ⟨hw, rfl⟩, _, _, ⟨hl, rfl⟩, _, _,
    ⟨hr, rfl⟩, hwa, rfl⟩, _, _, ⟨hd, rfl⟩, _, _, ⟨-, rfl⟩, hy⟩ := hy
  obtain rfl := yields_initialized hi
  have hfr : ∀ queue db', Yields (createFreshQueue env amb request) _ queue db' →
    Keeps env _ db' := fun queue db' hc =>
    createFreshQueue_moves h hn hw hl hr hwa hd hc
  split at hy
  · exact hfr _ _ hy
  simp only [yields_steps] at hy
  obtain ⟨_, _, ⟨-, rfl⟩, _, _, hfo, hy⟩ := hy
  obtain rfl := yields_findReply hfo
  split at hy
  · rw [yields_replayStored hy]
    exact h.moves_retimed (.refl _)
  simp only [yields_steps] at hy
  obtain ⟨_, _, hc, _, _, ⟨-, rfl⟩, _, _, hre, -, rfl⟩ := hy
  exact (hfr _ _ hc).retimed (retimed_insertReply hre)

theorem yields_validateQueueUpdate (h : Yields (validateQueueUpdate env request) db u db') : db' = db ∧
    (∀ name ∈ request.name, env.isValidQueueName name = true) ∧ request.weight ≠ some 0 ∧
    request.concurrencyLimit ≠ some 0 ∧
    (∀ defaults ∈ request.defaults, env.registry.validateQueueDefaults defaults = .ok ()) ∧
    (∀ retention ∈ request.historyRetention, (retention.all fun seconds => 0 ≤ seconds) = true) ∧
    ∀ warning ∈ request.runnableWaitWarning, 0 ≤ warning := by
  simp only [validateQueueUpdate, yields_steps] at h
  obtain ⟨_, _, ⟨-, rfl⟩, _, _, hse, _, _, ⟨-, rfl⟩, _, _, ⟨hn, rfl⟩, _, _, ⟨hwe, rfl⟩, _, _,
    ⟨hl, rfl⟩, _, _, ⟨hde, rfl⟩, _, _, ⟨hr, rfl⟩, hwa, rfl⟩ := h
  refine ⟨yields_validateSelector hse, ?_, hwe, hl, ?_, ?_, ?_⟩
  · exact (all_eq_true _ _).1 hn
  · intro _ hd
    rw [mem_def] at hd
    simpa [hd] using hde
  · exact (all_eq_true _ _).1 hr
  · intro warning hw
    exact of_decide_eq_true ((all_eq_true _ _).1 hwa warning hw)

theorem yields_requireNameFree {name : Option String}
    (h : Yields (requireNameFree env queue name) db u db') : db' = db := by
  unfold requireNameFree at h
  split at h
  · exact ((yields_pure _ _ _ _).1 h).2
  simp only [yields_ite, yields_steps] at h
  split at h
  · exact h.2
  · obtain ⟨_, _, hfo, -, rfl⟩ := h
    exact yields_findByName hfo

/-- Only the columns of one queue row change, and not its state. -/
theorem moves_modifyQueue (h : Intact env db)
    (hq : queue ∈ db.queues) (f : Queue → Queue) (hf : ∀ q : Queue, key (f q) = key q)
    (hsh : QueueShape env (f queue)) (hl : (f queue).state ≠ .deleted)
    (hst : (f queue).state = queue.state ∨ Drained db.runs (f queue)) :
    Keeps env db { db with queues := db.queues.modify queue.id f hf } := by
  have hr : ∀ q ∈ db.queues, q.id = queue.id → q = queue := fun q hq' hi => eq_of_key hq' hq hi
  refine ⟨h.modifyQueue (fun q hq' hi => ?_) (fun q hq' hi _ hd => ?_), .of_eq rfl rfl,
    fun queue' hq' => ?_, .of_eq rfl⟩
  · rwa [hr q hq' hi]
  · rw [hr q hq' hi] at hd
    exact absurd hd hl
  · rcases (mem_modify hf).1 hq' with ⟨q, hq1, hi, rfl⟩ | ⟨hq', -⟩
    · obtain rfl := hr q hq1 hi
      exact hst.imp (fun hs => ⟨q, hq, (hf q).symm, hs.symm, fun _ _ _ => False.elim⟩) id
    · exact .inl ⟨queue', hq', rfl, rfl, fun _ _ _ => False.elim⟩

/-- The request's fields were checked, and the others are those of the row. -/
theorem replacedQueue_shape (hsh : QueueShape env queue) (hli : queue.state ≠ .deleted)
    (hmax : queue.revision ≠ maximumRevision) (hna : ∀ name ∈ request.name, env.isValidQueueName name = true)
    (hwe : request.weight ≠ some 0) (hlim : request.concurrencyLimit ≠ some 0)
    (hde : ∀ defaults ∈ request.defaults, env.registry.validateQueueDefaults defaults = .ok ())
    (hr : ∀ retention ∈ request.historyRetention, (retention.all fun seconds => 0 ≤ seconds) = true)
    (hwa : ∀ warning ∈ request.runnableWaitWarning, 0 ≤ warning) (now : Int) :
    QueueShape env (replaced (replacedQueue queue request now) queue) := by
  have hsho : ∀ q : Queue, q.state = queue.state → q.shownName = q.name := fun q hs => by
    rw [Queue.shownName, if_neg (hs ▸ hli)]
  refine ⟨⟨Nat.le_add_left 1 _, ?_⟩, ?_, ?_, ?_, ?_, ?_, ?_, hsh.deleted⟩
  · have := hsh.revision.2
    show queue.revision + 1 ≤ maximumRevision
    omega
  · rw [hsho (replaced _ queue) rfl]
    show env.isValidQueueName (request.name.getD queue.name) = true
    cases hn : request.name with
    | none => exact hsho queue rfl ▸ hsh.name
    | some name => exact hna name hn
  · show 1 ≤ request.weight.getD queue.weight
    cases hw : request.weight with
    | none => exact hsh.weight
    | some => exact Nat.one_le_iff_ne_zero.2 fun h0 => hwe (h0 ▸ hw)
  · show 1 ≤ request.concurrencyLimit.getD queue.concurrencyLimit
    cases hl : request.concurrencyLimit with
    | none => exact hsh.limit
    | some => exact Nat.one_le_iff_ne_zero.2 fun h0 => hlim (h0 ▸ hl)
  · show env.registry.areQueueDefaults (request.defaults.getD queue.defaults) = true
    cases hd : request.defaults with
    | none => exact hsh.defaults
    | some defaults => exact AttributeRegistry.areQueueDefaults_iff.2 (hde defaults hd)
  · show ((request.historyRetention.getD queue.historyRetention).all fun seconds => 0 ≤ seconds) = true
    cases hh : request.historyRetention with
    | none => exact hsh.retention
    | some retention => exact hr retention hh
  · show 0 ≤ request.runnableWaitWarning.getD queue.runnableWaitWarning
    cases hw : request.runnableWaitWarning with
    | none => exact hsh.warning
    | some warning => exact hwa warning hw

theorem updateQueue_moves
    (h : Intact env db) (hy : Yields (updateQueue env amb request) db queue' db') :
    Keeps env db db' := by
  simp only [updateQueue, yields_steps, yields_ite] at hy
  obtain ⟨-, _, _, hi, _, _, hv, _, _, hfo, queue, _, ⟨rfl, rfl⟩, _, _, ⟨_, rfl⟩, _, _,
    ⟨hmax, rfl⟩, _, _, hfr, _, _, hse, _, _, hre, hy⟩ := hy
  obtain rfl := yields_initialized hi
  obtain ⟨rfl, hn, hw, hl, hd, hret, hwa⟩ := yields_validateQueueUpdate hv
  obtain ⟨rfl, hq, hli, hsh⟩ := yields_findQueue_some hfo
  obtain rfl := yields_requireNameFree hfr
  have hr := visitScope_retimed hse
  rcases yields_replaceMutableFields hre with ⟨rfl, -, -, rfl⟩ | ⟨rfl, -⟩
  · obtain ⟨_, _, hrec, -, rfl⟩ := hy
    rw [← hr.queues] at hq
    have hl' : queue.state ≠ .deleted := hli.resolve_left false_ne_true
    have hs' := replacedQueue_shape hsh hl' hmax hn hw hl
      hd hret hwa amb.utcNow
    have hm := moves_modifyQueue (h.retimed hr) hq _ (key_replaced _) hs' hl' (.inl rfl)
    exact (hm.after_retimed hr).retimed (visitScope_retimed hrec)
  · obtain ⟨_, _, hdi, -⟩ := hy
    exact absurd hdi not_yields_diagnoseQueueUpdate

variable {next : QueueState} {now : Int}

theorem yields_advanceQueue (h : Yields (advanceQueue queue next now) db queue' db') :
    queue.revision < maximumRevision ∧ next ≠ .deleted ∧
      (∃ row ∈ db.queues, row.id = queue.id ∧ row.state = queue.state ∧ row.revision = queue.revision) ∧
      queue' = { queue with state := next, revision := queue.revision + 1, updatedAt := now } ∧
      db' = { db with
        queues := db.queues.modify queue.id (entered next (queue.revision + 1) now)
          fun _ => rfl } := by
  simp only [advanceQueue, yields_steps] at h
  obtain ⟨_, _, ⟨hre, rfl⟩, _, _, hse, _, _, ⟨rfl, rfl⟩, rfl, rfl⟩ := h
  obtain ⟨⟨-, hn, -⟩, -, ⟨row, hro, hi, hs, hr, -⟩, rfl⟩ := yields_setState_true.1 hse
  exact ⟨hre, hn, ⟨row, hro, hi, hs, hr⟩, rfl, rfl⟩

theorem entered_shape (h : QueueShape env queue) (hl : queue.state ≠ .deleted) (hne : next ≠ .deleted)
    (hr : queue.revision < maximumRevision) (now : Int) :
    QueueShape env (entered next (queue.revision + 1) now queue) where
  revision := ⟨Nat.le_add_left 1 _, hr⟩
  name := by
    have hn := h.name
    rw [Queue.shownName, if_neg hl] at hn
    simpa [Queue.shownName, Queues.entered, hne] using hn
  weight := h.weight
  limit := h.limit
  defaults := h.defaults
  retention := h.retention
  warning := h.warning
  deleted := by
    have hno : ¬ queue.deletedAt.isSome = true := fun hs => hl (h.deleted.2 hs)
    exact iff_of_false hne hno

/-- The queue enters a state that fits its runs. -/
theorem advanceQueue_consistent (h : Intact env db) (hl : queue.state ≠ .deleted)
    (hy : Yields (advanceQueue queue next now) db queue' db') :
    Intact env db' ∧ db'.runs = db.runs ∧ db'.attempts = db.attempts ∧
      db'.jobs = db.jobs ∧ queue'.id = queue.id ∧ queue'.state = next ∧
      ∀ q ∈ db'.queues, (q ∈ db.queues ∧ q.id ≠ queue.id) ∨ (q.id = queue.id ∧ q.state = next) := by
  obtain ⟨hre, hn, ⟨row, hro, hi, hs, hr⟩, rfl, rfl⟩ := yields_advanceQueue hy
  have he : ∀ q ∈ db.queues, q.id = queue.id → q = row := fun q hq hk => eq_of_key hq hro (hk.trans hi.symm)
  refine ⟨h.modifyQueue (fun q hq hk => ?_) (fun q _ _ _ hd => absurd hd hn), rfl, rfl, rfl, rfl,
    rfl, fun q hq => ?_⟩
  · obtain rfl := he q hq hk
    rw [← hr]
    exact entered_shape (h.queues q hq) (hs ▸ hl) hn (hr ▸ hre) now
  · rcases (mem_modify (Queues.key_entered _ _ _)).1 hq with ⟨_, _, hk, rfl⟩ | ⟨hq, hk⟩
    · exact .inr ⟨hk, rfl⟩
    · exact .inl ⟨hq, hk⟩

/-- A chain of transitions of one queue ends in a state that fits its runs. -/
theorem moves_of_queueState (queue : Queue) (next : QueueState)
    (hc : Intact env db') (hr : db'.runs = db.runs)
    (hat : db'.attempts = db.attempts) (hj : db'.jobs = db.jobs)
    (hqu : ∀ q ∈ db'.queues, (q ∈ db.queues ∧ q.id ≠ queue.id) ∨ (q.id = queue.id ∧ q.state = next))
    (hi : next = .suspended ∨ next = .deleted → ∀ run ∈ db.runs, run.queueId = queue.id → run.state ≠ .running)
    (hbu : next = .suspending → ∃ run ∈ db.runs, run.queueId = queue.id ∧ run.state = .running) :
    Keeps env db db' := by
  refine ⟨hc, .of_eq hr hat, fun q hq => ?_, .of_eq hj⟩
  rcases hqu q hq with ⟨hq', -⟩ | ⟨hid, hs⟩
  · exact .inl ⟨q, hq', rfl, rfl, fun _ _ _ => False.elim⟩
  right
  rw [hr]
  exact ⟨fun h => hid ▸ hi (hs ▸ h), fun h => hid ▸ hbu (hs ▸ h)⟩

theorem suspendQueue_moves (h : Intact env db)
    (hy : Yields (suspendQueue env amb selector) db queue' db') : Keeps env db db' := by
  simp only [suspendQueue, yields_steps, yields_ite, advanceQueueIf, decide_eq_true_eq] at hy
  obtain ⟨-, _, _, hi, _, _, hsel, _, _, hfo, queue, _, ⟨rfl, rfl⟩, _, _, ⟨hl, rfl⟩, hy⟩ := hy
  obtain rfl := yields_initialized hi
  obtain rfl := yields_validateSelector hsel
  obtain ⟨rfl, hq, -, -⟩ := yields_findQueue_some hfo
  split at hy
  · obtain ⟨-, rfl⟩ := hy
    exact h.moves_retimed (.refl _)
  obtain ⟨_, db1, hse, hy⟩ := hy
  obtain ⟨queue1, db2, hg, _, _, hc, _, _, hp, _, _, hre, -, rfl⟩ := hy
  have hr := visitScope_retimed hse
  have h₁ := h.retimed hr
  rw [← hr.queues] at hq
  -- after the gate the queue is suspending, whichever state it came from
  have hsu : Intact env db2 ∧ db2.runs = db1.runs ∧
    db2.attempts = db1.attempts ∧ db2.jobs = db1.jobs ∧ queue1.id = queue.id ∧ queue1.state = .suspending ∧
    ∀ q ∈ db2.queues, (q ∈ db1.queues ∧ q.id ≠ queue.id) ∨ (q.id = queue.id ∧ q.state = .suspending) := by
    split at hg
    · exact advanceQueue_consistent h₁ hl hg
    have hs : queue.state = .suspending := by
      cases hs : queue.state with
      | suspending => rfl
      | active | suspended | deleted => contradiction
    obtain ⟨rfl, rfl⟩ := hg
    refine ⟨h₁, rfl, rfl, rfl, rfl, hs, fun q hq' => ?_⟩
    by_cases hid : q.id = queue1.id
    · obtain rfl : q = queue1 := eq_of_key hq' hq hid
      exact .inr ⟨rfl, hs⟩
    · exact .inl ⟨hq', hid⟩
  obtain ⟨h₂, hr2, ha2, hj2, hi1, hs1, hqu2⟩ := hsu
  obtain ⟨rfl, hz⟩ := Runs.yields_countRunning hc
  simp only [decide_eq_true_eq, hi1] at hz
  refine (Moves.after_retimed ?_ hr).retimed (visitScope_retimed hre)
  split at hp
  next hno =>
    obtain ⟨h₃, hr3, ha3, hj3, -, -, hq3⟩ := advanceQueue_consistent h₂ (by rw [hs1]; decide) hp
    refine moves_of_queueState queue .suspended h₃ (hr3.trans hr2) (ha3.trans ha2)
      (hj3.trans hj2) (fun q hq' => ?_) (fun _ => ?_) fun hn => by cases hn
    · rcases hq3 q hq' with ⟨hq2, hne⟩ | ⟨hid, hs⟩
      · exact .inl ((hqu2 q hq2).resolve_right fun hx => hne (hx.1.trans hi1.symm))
      · exact .inr ⟨hid.trans hi1, hs⟩
    · rw [← hr2]
      exact hz.1 hno
  next hso =>
    obtain ⟨rfl, rfl⟩ := hp
    refine moves_of_queueState queue .suspending h₂ hr2 ha2 hj2 hqu2 (fun hn => by simp at hn) fun _ => ?_
    rw [hz] at hso
    push Not at hso
    rw [← hr2]
    exact hso

theorem resumeQueue_moves (h : Intact env db)
    (hy : Yields (resumeQueue env amb selector) db queue' db') : Keeps env db db' := by
  simp only [resumeQueue, yields_steps, yields_ite] at hy
  obtain ⟨-, _, _, hi, _, _, hsel, _, _, hfo, queue, _, ⟨rfl, rfl⟩, _, _, ⟨hl, rfl⟩, hy⟩ := hy
  obtain rfl := yields_initialized hi
  obtain rfl := yields_validateSelector hsel
  obtain ⟨rfl, _, -, -⟩ := yields_findQueue_some hfo
  split at hy
  · obtain ⟨-, rfl⟩ := hy
    exact h.moves_retimed (.refl _)
  obtain ⟨_, _, hse, _, _, hre, _, _, hrec, -, rfl⟩ := hy
  have hr := visitScope_retimed hse
  obtain ⟨h₂, hru, hat, hj, -, -, hq⟩ := advanceQueue_consistent (h.retimed hr) hl hre
  refine (Moves.after_retimed ?_ hr).retimed (visitScope_retimed hrec)
  exact moves_of_queueState queue .active h₂ hru hat hj hq (fun hn => by simp at hn)
    fun hn => by cases hn

theorem deleted_change {E : Uuid → Prop} {job : JobDefinition} (hE : E job.id)
    (h : JobSound env db.queues job) (hl : job.revision < revision) (hh : revision ≤ maximumRevision) (now : Int) :
    Consistent.JobChange env E db job (Jobs.deleted revision now job) where
  left := hE
  sound := by
    obtain ⟨queue, hq, hi, -⟩ := h.queue
    refine ⟨⟨⟨?_, hh⟩, h.shape.attributes, h.shape.payload, h.shape.name, ?_, ?_⟩, h.cron,
      queue, hq, hi, fun hn => absurd rfl hn⟩
    · show 1 ≤ revision
      omega
    · exact iff_of_true rfl rfl
    · intro ht
      cases ht
  revision := le_of_lt hl
  type := rfl

variable {jobCount : Nat}

theorem yields_findDeletableQueue (h : Yields (findDeletableQueue env selector) db (queue, jobCount) db') : db' = db ∧
      queue ∈ db.queues ∧ queue.state = .suspended ∧ queue.revision < maximumRevision ∧
      (∀ run ∈ db.runs, run.queueId = queue.id → run.state ≠ .running) ∧
      ∀ job ∈ db.jobs, job.queueId = queue.id → job.state ≠ .deleted → job.revision < maximumRevision := by
  simp only [findDeletableQueue, yields_steps, countNonDeletedJobs, hasExhaustedRevisionInQueue, Prod.mk.injEq] at h
  obtain ⟨_, _, hfo, _, _, ⟨rfl, rfl⟩, _, _, ⟨-, rfl⟩, _, _, ⟨hs, rfl⟩, _, _, hc, _, _,
    ⟨hz, rfl⟩, _, _, ⟨-, rfl⟩, _, _, ⟨he, rfl⟩, _, _, ⟨hn, rfl⟩, _, _, ⟨hre, rfl⟩, ⟨rfl, -⟩, rfl⟩ := h
  obtain ⟨rfl, hq, -, -⟩ := yields_findQueue_some hfo
  obtain ⟨rfl, hru⟩ := Runs.yields_countRunning hc
  refine ⟨rfl, hq, hs, hre, fun run hr hk => hru.1 hz run hr (by simpa using hk), fun job hj hk hd => ?_⟩
  rw [hn] at he
  simpa [hk, hd] using List.any_eq_false.1 he.symm job hj

/-- The jobs of one queue. -/
def OfQueue (db : Database) (queueId : Uuid) : Uuid → Prop := fun jobId =>
  ∃ job ∈ db.jobs, job.id = jobId ∧ job.queueId = queueId

theorem eraseQueue_moves (h : Intact env db) (hq : queue ∈ db.queues)
    (hs : queue.state = .suspended) (hre : queue.revision < maximumRevision)
    (hi : ∀ run ∈ db.runs, run.queueId = queue.id → run.state ≠ .running)
    (hrev : ∀ job ∈ db.jobs, job.queueId = queue.id → job.state ≠ .deleted → job.revision < maximumRevision)
    (hcl : ∀ run ∈ db.runs, run.queueId = queue.id → Closed db.timings run.id)
    (hy : Yields (eraseQueue amb queue jobCount) db u db') : Keeps env db db' := by
  simp only [eraseQueue, yields_steps] at hy
  obtain ⟨_, db1, he, _, _, hm, _, _, ⟨-, rfl⟩, _, db3, hca, deleted, _, hdel, rfl, rfl⟩ := hy
  obtain ⟨hr, hti⟩ := retimed_eraseReferences he
  have hfi : ∀ run ∈ db.runs, ∀ job ∈ db.jobs, run.jobId = job.id →
    run.state.isTerminal = false → run.queueId = job.queueId :=
    fun run hru job hjo hid hl => (h.live_fits hjo hru hid hl).queue
  -- the jobs go first, with all jobs of the queue left out
  have hE : Consistent env (OfQueue db queue.id) Nobody db1 :=
    (h.weaken (fun _ => False.elim) fun _ hf => hf).retimed hr
  have hj : ∀ job ∈ db.jobs, job.queueId = queue.id → inQueue queue.id job = true ∨ job.state = .deleted := by
    intro job hjo hk
    by_cases hd : job.state = .deleted
    · exact .inr hd
    have hnon : job.deletedAt = none := by
      have := mt (h.jobs job hjo).shape.deleted.2 hd
      simpa using this
    exact .inl (by simp [inQueue, hk, hd, hnon])
  obtain rfl := yields_markAllInQueueDeleted hm
  have h₂ : Consistent env (OfQueue db queue.id) Nobody
    { db1 with
      jobs := db1.jobs.update (inQueue queue.id)
        (fun row => deleted (row.revision + 1) amb.utcNow row) (fun _ => rfl) } := by
    refine hE.updateJobs fun job hjo hp => ?_
    rw [hr.jobs] at hjo
    simp only [inQueue, bool_steps] at hp
    exact deleted_change ⟨job, hjo, rfl, hp.1.1⟩ (hr.queues ▸ h.jobs job hjo) (Nat.lt_succ_self _)
      (hrev job hjo hp.1.1 hp.1.2) amb.utcNow
  have hde : ∀ job' ∈ db1.jobs.update (inQueue queue.id)
    (fun row => deleted (row.revision + 1) amb.utcNow row) (fun _ => rfl),
    ∃ job ∈ db.jobs, job.id = job'.id ∧ job.queueId = job'.queueId ∧
      (job.queueId = queue.id → job'.state = .deleted) := by
    intro job' hj'
    obtain ⟨job, hjo, rfl⟩ := (mem_update (by intro; rfl)).1 hj'
    rw [hr.jobs] at hjo
    split
    · exact ⟨job, hjo, rfl, rfl, fun _ => rfl⟩
    next hno => exact ⟨job, hjo, rfl, rfl, fun hk => (hj job hjo hk).resolve_left hno⟩
  -- then what waits in the queue
  obtain ⟨h₃, hfr, hq3, hj3, hr3⟩ := cancelPending_consistent h₂ (fun run hru hp hw => by
    rw [decide_eq_true_eq] at hp
    replace hru : run ∈ db.runs := hr.runs ▸ hru
    obtain ⟨job, hjo, hid, -⟩ := (h.runs run hru).job
    have hk := hfi run hru job hjo hid.symm (RunState.not_isTerminal_of_isPending hw)
    exact ⟨⟨job, hjo, hid, hk ▸ hp⟩, hti ▸ hcl run hru hp⟩) hca
  have hen : ∀ run ∈ db3.runs, ∀ job ∈ db.jobs, run.jobId = job.id → job.queueId = queue.id →
    run.state.isTerminal = true := by
    intro run hru job hjo hid hk
    rcases hr3 run hru with ⟨hru, hno⟩ | hc
    · replace hru : run ∈ db.runs := hr.runs ▸ hru
      by_contra hl
      rw [not_eq_true] at hl
      have hkq := (hfi run hru job hjo hid hl).trans hk
      simp only [hkq, decide_true, Bool.true_and] at hno
      exact hi run hru hkq (RunState.running_of_live hl hno)
    · rw [hc]
      rfl
  have h₄ : Intact env db3 := by
    refine h₃.close (fun job' hj' hE => ?_) fun _ _ hf => hf.elim
    rw [hj3] at hj'
    obtain ⟨job, hjo, hid, hk, hd⟩ := hde job' hj'
    obtain ⟨job0, hj0, hi0, hk0⟩ := hE
    obtain rfl : job0 = job := eq_of_key hj0 hjo (hi0.trans hid.symm)
    refine ⟨none, none, .of_ended fun run hru hri => ?_, .of_deleted (hd hk0)⟩
    exact hen run hru job0 hj0 (hri.trans hid.symm) hk0
  -- and last the queue itself
  obtain ⟨-, ⟨row, hro, hri, -, -⟩, rfl⟩ := yields_markDeleted_true hdel
  rw [hq3] at hro
  obtain rfl : row = queue := eq_of_key hro (hr.queues ▸ hq) hri
  have hsa : ∀ q ∈ db3.queues, q.id = row.id → q = row := fun q hq' hk => eq_of_key (hq3 ▸ hq') hro hk
  refine ⟨h₄.modifyQueue (fun q hq' hk => ?_) (fun q hq' hk _ _ job' hj' hjk => ?_),
    (hfr.after_eq hr.runs hr.attempts).then_eq rfl rfl, fun q hq' => ?_, .of_states fun job' hj' hsu => ?_⟩
  · obtain rfl := hsa q hq' hk
    have hsh := h.queues q hq
    refine ⟨⟨Nat.le_add_left 1 _, hre⟩, ?_, hsh.weight, hsh.limit, hsh.defaults,
      hsh.retention, hsh.warning, iff_of_true rfl rfl⟩
    have := hsh.name
    rwa [Queue.shownName, if_neg (by rw [hs]; decide)] at this
  · rw [hj3] at hj'
    obtain ⟨job, hjo, _, hkq, hd⟩ := hde job' hj'
    exact hd (hkq.trans (hjk.trans hk))
  · rcases (mem_modify (key_deleted _ _ _ _)).1 hq' with ⟨_, _, hk, rfl⟩ | ⟨hq', -⟩
    · refine .inr ⟨fun _ run hru hkr hrun => ?_, fun hn => by cases hn⟩
      rcases hr3 run hru with ⟨hru, -⟩ | hc
      · exact hi run (hr.runs ▸ hru) (hkr.trans hk) hrun
      · rw [hrun] at hc
        cases hc
    · rw [hq3] at hq'
      exact .inl ⟨q, hr.queues ▸ hq', rfl, rfl, fun _ _ _ => False.elim⟩
  · rw [hj3] at hj'
    obtain ⟨job, hjo, rfl⟩ := (mem_update (by intro; rfl)).1 hj'
    split at hsu
    · cases hsu
    next hno =>
      rw [if_neg hno]
      exact ⟨job, hr.jobs ▸ hjo, rfl, hsu⟩

theorem deleteQueue_moves (h : Intact env db)
    (hy : Yields (deleteQueue env amb selector) db u db') : Keeps env db db' := by
  simp only [deleteQueue, yields_steps] at hy
  obtain ⟨-, _, _, hi, _, _, hsel, ⟨_, _⟩, _, hfo, _, _, hse, _, _, he, hrec⟩ := hy
  obtain rfl := yields_initialized hi
  obtain rfl := yields_validateSelector hsel
  obtain ⟨rfl, hq, hs, hre, hid, hrev⟩ := yields_findDeletableQueue hfo
  have hr := visitScope_retimed hse
  refine (Moves.after_retimed ?_ hr).retimed (visitScope_retimed hrec)
  refine eraseQueue_moves (h.retimed hr) (hr.queues ▸ hq) hs hre (hr.runs ▸ hid) (hr.jobs ▸ hrev)
    (fun run hru hk => ?_) he
  exact (settleScope_closes hse).2 run (hr.runs ▸ hru) (decide_eq_true hk)

end Management

end Jobu
