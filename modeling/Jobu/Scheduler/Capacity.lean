import Jobu.Scheduler.Core

/-!
# What is occupied

A cycle adds up the rows that `list_capacity_rows` returns; a dispatch adds up the rows of one queue
again inside its own transaction.  Both are counts over the runs of the database: the running ones
of a type, and of a queue the running ones and the retries that wait in their slot.

  > `yields_loadCapacity`: the capacity a cycle starts with.
  > `HasRoom.slots`: a run that takes a new slot finds one free.
-/

namespace Jobu

open Lib List

namespace Scheduler

variable {env : Environment} {db db' : Database}

/-- A running run of the type. -/
def runningOf (type : JobType) (run : JobRun) : Bool := run.state = .running && run.type = type

/-- A running run of the queue. -/
def runningIn (queueId : Uuid) (run : JobRun) : Bool := run.state = .running && run.queueId = queueId

/-- A retry that waits in its queue slot: its policy blocks, and its owners let it run. -/
def waitsInSlot (db : Database) (run : JobRun) : Bool :=
  run.state = .retryWait &&
    match joined db run, Retry.policyFromAttributes run.attributes with
    | some row, .ok policy => keepsSlot row policy
    | _, _ => false

def usesSlot (db : Database) (run : JobRun) : Bool := run.state = .running || waitsInSlot db run

theorem usesSlot_state {run : JobRun} (h : usesSlot db run = true) : run.state = .running ∨ run.state = .retryWait := by
  simp only [usesSlot, waitsInSlot, bool_steps] at h
  exact h.imp id And.left

/-- The slots in use in a queue. -/
def slotsIn (db : Database) (queueId : Uuid) : Nat :=
  db.runs.count fun run => usesSlot db run && run.queueId = queueId

theorem runningIn_le_slotsIn (db : Database) (queueId : Uuid) :
    db.runs.count (runningIn queueId) ≤ slotsIn db queueId := by
  refine Table.count_mono fun run _ h => ?_
  simp only [runningIn, bool_steps] at h
  simp [usesSlot, h.1, h.2]

/-! ## One row -/

def CapacityUsage.runningFor (usage : CapacityUsage) : JobType → Nat
  | .cli => usage.cliRunning
  | .http => usage.httpRunning

variable {row : SchedulerRun} {queue : Queue}

theorem Joined.joined {job : JobDefinition} (h : Joined db row job queue) : joined db row.run = some row :=
  joined_eq_some.2 ⟨rfl, job, queue, h⟩

theorem capacityUsage_ok {usage : CapacityUsage}
    (hr : joined db row.run = some row) (h : capacityUsage row = .ok usage) :
    usage.queueSlots = (if usesSlot db row.run then 1 else 0) ∧
    ∀ type, usage.runningFor type = if runningOf type row.run then 1 else 0 := by
  unfold capacityUsage at h
  split at h
  next hs =>
    simp only [except_steps] at h
    obtain ⟨-, -, rfl⟩ := h
    refine ⟨by simp [usesSlot, hs], fun type => ?_⟩
    cases type <;> cases ht : row.run.type <;> simp [CapacityUsage.runningFor, runningOf, hs, ht]
  next hs =>
    simp only [except_steps] at h
    obtain ⟨-, ⟨hw, -⟩, _, hp, rfl⟩ := h
    refine ⟨by simp [usesSlot, waitsInSlot, hw, hr, hp], fun type => ?_⟩
    cases type <;> simp [CapacityUsage.runningFor, runningOf, hs]

/-- A candidate that needs no new slot waits in its own. -/
theorem alreadyOccupies_ok {already : Bool}
    (hr : joined db row.run = some row) (h : alreadyOccupies row = .ok already) :
    already = waitsInSlot db row.run := by
  unfold alreadyOccupies at h
  split at h
  next hs =>
    simp only [except_steps] at h
    obtain ⟨_, hu, rfl⟩ := h
    rw [(capacityUsage_ok hr hu).1]
    cases hw : waitsInSlot db row.run <;> simp [usesSlot, hs, hw]
  next hs =>
    cases h
    simp [waitsInSlot, hs]

/-! ## All rows -/

/-- Every run has its owners. -/
def Owned (db : Database) : Prop := ∀ run ∈ db.runs, ∃ row, joined db run = some row

variable {p : JobRun → Bool}

/-- A count over the joined rows is a count over the runs. -/
theorem countP_joined {runs : List JobRun} (h : ∀ run ∈ runs, ∃ row, joined db run = some row) :
    (runs.filterMap (joined db)).countP (fun row => p row.run) = runs.countP p := by
  induction runs with
  | nil => rfl
  | cons run _ ih =>
    obtain ⟨_, hro⟩ := h run mem_cons_self
    have hru := (joined_eq_some.1 hro).1
    rw [filterMap_cons_some hro, countP_cons, countP_cons, hru, ih fun r hr => h r (mem_cons_of_mem _ hr)]

variable {selected : JobRun → Bool}

/-- The occupants that satisfy a condition which only occupants satisfy. -/
theorem countP_occupants (ho : Owned db) (hp : ∀ run, p run = true →
      (run.state = .running ∨ run.state = .retryWait) ∧ selected run = true) :
    (occupants db selected).countP (fun row => p row.run) = db.runs.count p := by
  unfold occupants
  rw [countP_joined fun run hr => ho run (Table.mem_select.1 hr).1]
  unfold Table.select Table.count
  rw [countP_filter]
  refine countP_congr fun run _ => ?_
  constructor
  · intro h
    exact (Bool.and_eq_true_iff.1 h).1
  · intro h
    obtain ⟨hs, hse⟩ := hp run h
    simp only [h, Bool.true_and, bool_steps]
    exact ⟨hs, hse⟩

theorem mem_occupants (h : row ∈ occupants db selected) : joined db row.run = some row ∧ selected row.run = true := by
  unfold occupants at h
  obtain ⟨_, hru, hr⟩ := mem_filterMap.1 h
  obtain ⟨rfl, -⟩ := joined_eq_some.1 hr
  have hse := (Table.mem_select.1 hru).2
  rw [Bool.and_eq_true] at hse
  exact ⟨hr, hse.2⟩

theorem sum_map_ite {α : Type} (p : α → Bool) (l : List α) :
    (l.map fun x => if p x then 1 else 0).sum = l.countP p := by
  induction l with
  | nil => rfl
  | cons _ _ ih =>
    rw [map_cons, sum_cons, ih, countP_cons, Nat.add_comm]

/-! ## The capacity of a cycle -/

theorem foldl_add_runningFor (type : JobType) (rows : List CapacityRow) (capacity : Capacity) :
    (rows.foldl Capacity.add capacity).runningFor type =
      capacity.runningFor type + (rows.map fun row => row.usage.runningFor type).sum := by
  induction rows generalizing capacity with
  | nil => rfl
  | cons _ _ ih =>
    rw [foldl_cons, ih, map_cons, sum_cons, ← Nat.add_assoc]
    congr 1
    cases type <;> rfl

theorem foldl_add_queueSlots (queueId : Uuid) (rows : List CapacityRow) (capacity : Capacity) :
    (rows.foldl Capacity.add capacity).queueSlots queueId = capacity.queueSlots queueId +
      (rows.map fun row => if row.queueId = queueId then row.usage.queueSlots else 0).sum := by
  induction rows generalizing capacity with
  | nil => rfl
  | cons row _ ih =>
    rw [foldl_cons, ih, map_cons, sum_cons, ← Nat.add_assoc]
    congr 1
    show (if queueId = row.queueId then _ else _) = _
    by_cases hq : queueId = row.queueId
    · rw [if_pos hq, if_pos hq.symm]
    · rw [if_neg hq, if_neg (Ne.symm hq), Nat.add_zero]

theorem capacityRow_ok {found : CapacityRow}
    (h : capacityRow env row = .ok found) : ∃ usage, capacityUsage row = .ok usage ∧ found =
      { runId := row.run.id
        queueId := row.run.queueId
        usage
        blockingRetry :=
          if row.run.state = .retryWait ∧ usage.queueSlots = 1 then
            some
              { runId := row.run.id
                queueId := row.run.queueId
                type := row.run.type
                priority := row.run.priority
                runnableAt := row.run.runnableAt
                plannedAt := row.run.plannedAt }
          else none } := by
  simp only [capacityRow, except_steps, decodeSchedulerRun_ok] at h
  obtain ⟨_, ⟨rfl, -⟩, usage, hu, rfl⟩ := h
  exact ⟨usage, hu, rfl⟩

/-- **The capacity a cycle starts with: what is running, the slots in use, and the retries that wait
in one.** -/
theorem yields_loadCapacity {capacity : Capacity} (ho : Owned db)
    (h : Yields (loadCapacity env) db capacity db') : db' = db ∧
      (∀ type, capacity.runningFor type = db.runs.count (runningOf type)) ∧
      ∀ queueId, capacity.queueSlots queueId = slotsIn db queueId := by
  simp only [loadCapacity, capacityRows, yields_steps] at h
  obtain ⟨rows, _, ⟨hr, rfl⟩, rfl, rfl⟩ := h
  refine ⟨rfl, fun type => ?_, fun queueId => ?_⟩
  · have hsu : rows.map (fun row => row.usage.runningFor type) =
        (occupants db' fun _ => true).map fun row => if runningOf type row.run then 1 else 0 :=
      map_of_except_mapM (fun row hro found hf => by
        obtain ⟨_, hu, rfl⟩ := capacityRow_ok hf
        exact (capacityUsage_ok (mem_occupants hro).1 hu).2 type) hr
    have hz : (({} : Capacity)).runningFor type = 0 := by cases type <;> rfl
    rw [foldl_add_runningFor, hsu, sum_map_ite, hz, Nat.zero_add]
    refine countP_occupants ho fun run hru => ⟨.inl ?_, rfl⟩
    simp only [runningOf, bool_steps] at hru
    exact hru.1
  · have hsu : rows.map (fun row => if row.queueId = queueId then row.usage.queueSlots else 0) =
        (occupants db' fun _ => true).map fun row =>
          if usesSlot db' row.run && row.run.queueId = queueId then 1 else 0 :=
      map_of_except_mapM (fun row hro found hf => by
        obtain ⟨_, hu, rfl⟩ := capacityRow_ok hf
        simp only [(capacityUsage_ok (mem_occupants hro).1 hu).1]
        by_cases hq : row.run.queueId = queueId
        · simp [hq]
        · simp [hq]) hr
    rw [foldl_add_queueSlots, hsu, sum_map_ite]
    show 0 + _ = _
    rw [Nat.zero_add]
    refine countP_occupants (p := fun run => usesSlot db' run && run.queueId = queueId) ho
      fun run hru => ⟨?_, rfl⟩
    rw [Bool.and_eq_true] at hru
    exact usesSlot_state hru.1

/-! ## The check of a dispatch -/

/-- The loop stops at the limit, so a run that needs a new slot leaves the loop below it. -/
theorem withinLimit_below {rows : List SchedulerRun} {occupied : Nat}
    (hj : ∀ row ∈ rows, joined db row.run = some row) (hbe : occupied < queue.concurrencyLimit)
    (h : withinLimit env queue false occupied rows = .ok true) :
    occupied + rows.countP (fun row => usesSlot db row.run) < queue.concurrencyLimit := by
  induction rows generalizing occupied with
  | nil => exact hbe
  | cons row rest ih =>
    simp only [withinLimit, except_steps, decodeSchedulerRun_ok] at h
    obtain ⟨_, ⟨rfl, -⟩, _, -, usage, hu, h⟩ := h
    have hsl := (capacityUsage_ok (hj _ mem_cons_self) hu).1
    split at h
    · simp at h
    rename_i hn
    have hb' : occupied + usage.queueSlots < queue.concurrencyLimit := by
      simp only [true_and, not_le] at hn
      exact hn
    have := ih (fun r hr => hj r (mem_cons_of_mem _ hr)) hb' h
    rw [countP_cons, ← hsl]
    omega

/-- **A run that takes a new slot finds one free.** -/
theorem HasRoom.slots (ho : Owned db)
    (hro : joined db row.run = some row) (hl : 1 ≤ queue.concurrencyLimit) (h : HasRoom env db row queue) :
    waitsInSlot db row.run = true ∨ slotsIn db queue.id < queue.concurrencyLimit := by
  obtain ⟨_, hal, h⟩ := h
  obtain rfl := alreadyOccupies_ok hro hal
  cases hw : waitsInSlot db row.run with
  | true => exact .inl rfl
  | false =>
    rw [hw] at h
    have hbe := withinLimit_below (fun r hr => (mem_occupants hr).1) hl h
    right
    have hsl : slotsIn db queue.id =
        (occupants db fun run => run.queueId = queue.id).countP fun row => usesSlot db row.run := by
      unfold slotsIn
      rw [← countP_occupants ho fun run hru => ?_]
      · refine countP_congr fun r hr => ?_
        simp [show r.run.queueId = queue.id by simpa using (mem_occupants hr).2]
      · rw [Bool.and_eq_true] at hru
        exact ⟨usesSlot_state hru.1, hru.2⟩
    rw [hsl]
    omega

end Scheduler

end Jobu
