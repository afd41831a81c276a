import Jobu.Trace

/-!
# Lists of queues and jobs

`list_queues` and `list_jobs` of `management.cpp`.  A call reads one row more than the page may hold and cuts
what it read by the page limit and by the response budget; when rows are left, the identifier of the last one is
where the next call goes on.  What a position leaves to deliver (`remaining`) is what the pages account for.
-/

namespace Jobu.Management

open Lib List
open Keyed (key)

def responseTooLarge : Error where
  category := .resourceExhausted
  code := "jobu.response.too_large"
  message := "A resource cannot fit within the response limit"

def invalidStoredResponse : Error where
  category := .internal
  code := "jobu.storage.invariant"
  message := "Persisted resource cannot be encoded"

def maximumPageSize : Nat := 200

def listWrapperReserveBytes : Nat := 128

structure PageOptions where
  limit : Nat := 100
  afterId : Option Uuid := none

structure QueueListRequest where
  includeDeleted : Bool := false
  state : Option QueueState := none
  page : PageOptions := {}

structure JobListRequest where
  queue : Option QueueSelector := none
  includeDeleted : Bool := false
  state : Option JobState := none
  type : Option JobType := none
  page : PageOptions := {}

structure ItemPage (R : Type) where
  items : List R
  nextAfterId : Option Uuid := none

section

variable {R : Type} [Keyed R Uuid] (size : R → Option Nat) (budget limit : Nat)

/-- The loop of `fitting_page_items`; `size` is the length of an item's JSON, if it can be encoded. -/
def fitting : Nat → Nat → List R → Except Error Nat
  | count, _, [] => .ok count
  | count, bytes, item :: items =>
    if count = limit then .ok count
    else
      match size item with
      | none => .error invalidStoredResponse
      | some length =>
        if length + 1 > budget - bytes then .ok count else fitting (count + 1) (bytes + (length + 1)) items

def fittingPageItems (items : List R) : Except Error Nat := do
  let count ← fitting size budget limit 0 listWrapperReserveBytes items
  if count = 0 ∧ items ≠ [] then .error responseTooLarge else .ok count

/-- The page of the rows that were read, as both lists make it. -/
def cutPage (listed : List R) : Except Error (ItemPage R) := do
  let fitting ← fittingPageItems size budget limit listed
  if fitting < listed.length then .ok ⟨listed.take fitting, (listed.take fitting).getLast?.map key⟩
  else .ok ⟨listed, none⟩

/-- The length of a page's JSON: `{"items":[` and `]`, `,"next_after_id":` and null or an identifier, `}`. -/
def pageBytes (page : ItemPage R) : Nat :=
  10 + (page.items.map fun item => (size item).getD 0).sum + (page.items.length - 1) + 1 + 17
    + (if page.nextAfterId = none then 4 else 38) + 1

end

def QueueListRequest.selects (request : QueueListRequest) (queue : Queue) : Bool :=
  (request.includeDeleted || queue.state ≠ .deleted) && request.state.all (queue.state = ·)

def JobListRequest.selects (request : JobListRequest) (queueId : Option Uuid) (job : JobDefinition) : Bool :=
  queueId.all (job.queueId = ·) && (request.includeDeleted || job.state ≠ .deleted) &&
    request.state.all (job.state = ·) && request.type.all (job.type = ·)

variable (env : Environment)

/-- `list_queues`. -/
def listQueues (queueBytes : Queue → Option Nat) (budget : Nat) (request : QueueListRequest) :
    Txn (ItemPage Queue) := do
  requireInitialized env
  require (request.page.limit ≠ 0 ∧ request.page.limit ≤ maximumPageSize)
    (invalidConfiguration "page_limit_out_of_range")
  let listed ← query fun db =>
    (db.queues.page request.selects request.page.afterId (request.page.limit + 1)).mapM (decodeQueue env)
  lift (cutPage queueBytes budget request.page.limit listed)

/-- The queue that a list of jobs is restricted to. -/
def listedQueue (request : JobListRequest) : Txn (Option Uuid) :=
  match request.queue with
  | none => pure none
  | some selector => do
    validateSelector env selector
    let found ← findQueue env selector request.includeDeleted
    let queue ← demand found queueNotFound
    pure (some queue.id)

/-- `list_jobs`. -/
def listJobs (jobBytes : JobDefinition → Option Nat) (budget : Nat) (request : JobListRequest) :
    Txn (ItemPage JobDefinition) := do
  requireInitialized env
  require (request.page.limit ≠ 0 ∧ request.page.limit ≤ maximumPageSize)
    (invalidJobConfiguration "page_limit_out_of_range")
  let queueId ← listedQueue env request
  require (request.page.limit + 1 ≤ 201) Scheduler.invalidLimit
  let listed ← query fun db =>
    (db.jobs.page (request.selects queueId) request.page.afterId (request.page.limit + 1)).mapM (decodeJob env)
  lift (cutPage jobBytes budget request.page.limit listed)

/-- The pages a client gets that goes on after the last identifier until there is none. -/
inductive Follows {R : Type} (call : Option Uuid → ItemPage R → Prop) : Option Uuid → List (ItemPage R) → Prop
  | last {after page} (called : call after page) (done : page.nextAfterId = none) : Follows call after [page]
  | next {after page id pages} (called : call after page) (more : page.nextAfterId = some id)
    (rest : Follows call (some id) pages) : Follows call after (page :: pages)

/-! ## One page -/

section

variable {R : Type} {size : R → Option Nat} {budget limit : Nat}

theorem fitting_ok {items : List R} (hsi : ∀ item ∈ items, ∃ length, size item = some length) {count bytes : Nat}
    (hby : bytes ≤ budget) (hc : count ≤ limit) :
    ∃ n, fitting size budget limit count bytes items = .ok (count + n) ∧ n ≤ items.length ∧ count + n ≤ limit ∧
      bytes + ((items.take n).map fun item => (size item).getD 0).sum + n ≤ budget := by
  induction items generalizing count bytes with
  | nil => exact ⟨0, rfl, le_rfl, hc, hby⟩
  | cons item _ ih =>
    obtain ⟨length, hl⟩ := hsi item mem_cons_self
    rw [fitting, hl]
    dsimp only
    by_cases hfu : count = limit
    · exact ⟨0, if_pos hfu, Nat.zero_le _, hc, hby⟩
    by_cases hla : length + 1 > budget - bytes
    · exact ⟨0, by rw [if_neg hfu, if_pos hla]; rfl, Nat.zero_le _, hc, hby⟩
    obtain ⟨n, he, hn, _, _⟩ := ih (fun other ho => hsi other (mem_cons_of_mem _ ho))
      (show bytes + (length + 1) ≤ budget by omega) (show count + 1 ≤ limit by omega)
    refine ⟨n + 1, ?_, Nat.succ_le_succ hn, by omega, ?_⟩
    · rw [if_neg hfu, if_neg hla, he, Nat.add_assoc, Nat.add_comm 1]
    · rw [take_succ_cons, map_cons, sum_cons, hl, Option.getD_some]
      omega

variable [Keyed R Uuid]

/-- A page is a first part of what is left, and all of it when no identifier follows. -/
theorem cutPage_ok {left : List R} (hli : 1 ≤ limit) (hbu : listWrapperReserveBytes ≤ budget)
    (hfi : ∀ item ∈ left, ∃ length, size item = some length ∧ listWrapperReserveBytes + (length + 1) ≤ budget) :
    ∃ page rest, cutPage size budget limit (left.take (limit + 1)) = .ok page ∧ left = page.items ++ rest ∧
      pageBytes size page ≤ budget ∧ (page.nextAfterId = none ∧ rest = [] ∨
        ∃ front last, page.items = front ++ [last] ∧ page.nextAfterId = some (key last)) := by
  unfold listWrapperReserveBytes at hbu hfi
  cases left with
  | nil => exact ⟨⟨[], none⟩, [], rfl, rfl, by simp [pageBytes]; omega, .inl ⟨rfl, rfl⟩⟩
  | cons item rest =>
    -- the first item is on the page
    obtain ⟨length, hl, hsm⟩ := hfi item mem_cons_self
    obtain ⟨n, hr, _, _, hsu⟩ := @fitting_ok _ size budget limit (rest.take limit)
      (fun other ho => (hfi other (mem_cons_of_mem _ (mem_of_mem_take ho))).imp fun _ h => h.1)
      1 (128 + (length + 1)) hsm hli
    have hco : fittingPageItems size budget limit (item :: rest.take limit) = .ok (1 + n) := by
      have hfir : fitting size budget limit 0 listWrapperReserveBytes (item :: rest.take limit) = .ok (1 + n) := by
        rw [fitting, if_neg (by omega), hl]
        exact (if_neg (by unfold listWrapperReserveBytes; omega)).trans hr
      rw [fittingPageItems, hfir]
      exact if_neg (by omega)
    rw [take_take, Nat.min_eq_left (by omega)] at hsu
    rw [take_succ_cons, cutPage, hco]
    have hby (next : Option Uuid) : pageBytes size ⟨item :: rest.take n, next⟩ ≤ budget := by
      have hlen := length_take_le n rest
      simp only [pageBytes, map_cons, sum_cons, hl, Option.getD_some, length_cons]
      split <;> omega
    by_cases hc : 1 + n < (item :: rest.take limit).length
    · have hi : (item :: rest.take limit).take (1 + n) = item :: rest.take n := by
        rw [Nat.add_comm, take_succ_cons, take_take, Nat.min_eq_left (by omega)]
      refine ⟨⟨item :: rest.take n, _⟩, rest.drop n, (if_pos hc).trans (by rw [hi]), by simp, hby _, .inr ?_⟩
      exact ⟨_, _, (dropLast_append_getLast (cons_ne_nil _ _)).symm, by rw [getLast?_eq_getLast_of_ne_nil]; rfl⟩
    have hal : rest.take limit = rest := take_of_length_le (by simp at hc; omega)
    have hsa : rest.take n = rest := take_of_length_le (by simp [hal] at hc; omega)
    refine ⟨⟨item :: rest.take n, none⟩, [], (if_neg hc).trans ?_, by simp [hsa], hby _, .inl ⟨rfl, rfl⟩⟩
    rw [hal, hsa]

/-! ## All pages -/

/-- The selected rows beyond a position. -/
def remaining (table : Table R) (selected : R → Bool) (after : Option Uuid) : List R :=
  table.rows.filter fun row => selected row && Table.beyond after (key row)

variable {table : Table R} {selected : R → Bool} {after : Option Uuid}

/-- Beyond a row are exactly the rows behind it. -/
theorem remaining_next {front back : List R} {last : R} (h : remaining table selected after = front ++ last :: back) :
    remaining table selected (some (key last)) = back := by
  have hso : (remaining table selected after).Pairwise fun a b => key a < key b := table.sorted.filter _
  have hl : last ∈ remaining table selected after := by simp [h]
  have hbe (row : R) (hlt : key last < key row) : Table.beyond after (key row) = true := by
    have h := (Bool.and_eq_true_iff.1 (mem_filter.1 hl).2).2
    cases after with
    | none => rfl
    | some => exact decide_eq_true ((of_decide_eq_true h).trans hlt)
  have hfi : remaining table selected (some (key last))
    = (remaining table selected after).filter fun row => decide ((key last : Uuid) < key row) := by
    rw [remaining, remaining, filter_filter]
    refine filter_congr fun row _ => ?_
    by_cases hlt : (key last : Uuid) < key row
    · rw [hbe row hlt, show Table.beyond (some (key last)) (key row) = true from decide_eq_true hlt]
      simp [hlt]
    · simp [Table.beyond, hlt]
  rw [h, pairwise_append, pairwise_cons] at hso
  obtain ⟨-, ⟨hba, -⟩, hfr⟩ := hso
  have hn : ∀ row ∈ front, ¬ decide ((key last : Uuid) < key row) = true := fun row hr =>
    by simpa using (hfr row hr last mem_cons_self).le
  rw [hfi, h, filter_append, filter_eq_nil_iff.2 hn, filter_cons_of_neg (by simp),
    filter_eq_self.2 fun row hr => decide_eq_true (hba row hr), nil_append]

/-- The pages put together are the selected rows, each once and in the order of their identifiers, and every
page is within the budget. -/
def Lossless (call : Option Uuid → ItemPage R → Prop) (size : R → Option Nat) (budget : Nat) (rows : List R) : Prop :=
  rows.Pairwise (fun a b => key a < key b) ∧ ∃ pages, Follows call none pages ∧
    pages.flatMap (·.items) = rows ∧ ∀ page ∈ pages, pageBytes size page ≤ budget

theorem lossless_of_cut {call : Option Uuid → ItemPage R → Prop} (hli : 1 ≤ limit)
    (hbu : listWrapperReserveBytes ≤ budget) (hfi : ∀ item ∈ table, selected item = true →
      ∃ length, size item = some length ∧ listWrapperReserveBytes + (length + 1) ≤ budget)
    (hca : ∀ after page, cutPage size budget limit (table.page selected after (limit + 1)) = .ok page →
      call after page) : Lossless call size budget (table.select selected) := by
  -- the induction is on the number of rows that are left
  have hp (n : Nat) : ∀ after, (remaining table selected after).length = n → ∃ pages, Follows call after pages ∧
    pages.flatMap (·.items) = remaining table selected after ∧ ∀ page ∈ pages, pageBytes size page ≤ budget := by
    induction n using Nat.strong_induction_on with
    | _ n ih =>
      intro after hn
      obtain ⟨page, rest, hc, hl, hby, he⟩ := cutPage_ok hli hbu
        fun item (hit : item ∈ remaining table selected after) =>
          hfi item (mem_of_mem_filter hit) (Bool.and_eq_true_iff.1 (mem_filter.1 hit).2).1
      rcases he with ⟨hno, rfl⟩ | ⟨_, last, hi, hne⟩
      · exact ⟨[page], .last (hca after page hc) hno, by simpa using hl.symm, by simpa using hby⟩
      have hbe : remaining table selected (some (key last)) = rest := remaining_next
        (by rw [hl, hi, append_assoc, singleton_append])
      have hles : rest.length < n := by
        rw [← hn, hl, hi, length_append, length_append, length_singleton]
        omega
      obtain ⟨pages, hfo, hal, hfit⟩ := ih _ hles _ (congrArg _ hbe)
      refine ⟨page :: pages, .next (hca after page hc) hne hfo, ?_, forall_mem_cons.2 ⟨hby, hfit⟩⟩
      rw [flatMap_cons, hal, hbe, ← hl]
  obtain ⟨pages, hfo, hal, hfit⟩ := hp _ none rfl
  exact ⟨table.select_sorted selected, pages, hfo, by simpa [remaining, Table.beyond, Table.select] using hal, hfit⟩

end

theorem mapM_ok {R : Type} {decode : R → Except Error R} {rows : List R} (h : ∀ row ∈ rows, decode row = .ok row) :
    rows.mapM decode = .ok rows := by
  induction rows with
  | nil => rfl
  | cons row _ ih =>
    rw [mapM_cons, h row mem_cons_self, ih fun other ho => h other (mem_cons_of_mem _ ho)]
    rfl

/-- **Pagination is lossless**, for queues and for jobs. -/
theorem list_pages_lossless (env : Environment) (db : Database) (budget limit : Nat)
    (hinit : env.initializationError = none) (hbudget : listWrapperReserveBytes ≤ budget)
    (hlimit : 1 ≤ limit ∧ limit ≤ maximumPageSize) :
    (∀ (queueBytes : Queue → Option Nat) (request : QueueListRequest),
      (∀ queue ∈ db.queues, request.selects queue = true → QueueShape env queue ∧
        ∃ length, queueBytes queue = some length ∧ listWrapperReserveBytes + (length + 1) ≤ budget) →
      Lossless (fun after page =>
        Yields (listQueues env queueBytes budget { request with page := ⟨limit, after⟩ }) db page db)
        queueBytes budget (db.queues.select request.selects)) ∧
    ∀ (jobBytes : JobDefinition → Option Nat) (request : JobListRequest) (queueId : Option Uuid),
      Yields (listedQueue env request) db queueId db →
      (∀ job ∈ db.jobs, request.selects queueId job = true → JobShape env job ∧
        ∃ length, jobBytes job = some length ∧ listWrapperReserveBytes + (length + 1) ≤ budget) →
      Lossless (fun after page =>
        Yields (listJobs env jobBytes budget { request with page := ⟨limit, after⟩ }) db page db)
        jobBytes budget (db.jobs.select (request.selects queueId)) := by
  have hre : Yields (requireInitialized env) db () db := by simp [requireInitialized, hinit]
  have hra : limit ≠ 0 ∧ limit ≤ maximumPageSize := ⟨by omega, hlimit.2⟩
  constructor
  · intro queueBytes request hqu
    refine lossless_of_cut hlimit.1 hbudget (fun queue hq hse => (hqu queue hq hse).2) ?_
    intro after page hc
    have hd := @mapM_ok _ (decodeQueue env) (db.queues.page request.selects after (limit + 1)) fun queue hq => by
      obtain ⟨hm, hse, -⟩ := Table.mem_of_mem_page hq
      exact decodeQueue_ok.2 ⟨rfl, (hqu queue hm hse).1⟩
    simp only [listQueues, yields_steps, yields_query]
    exact ⟨(), db, hre, (), db, ⟨hra, rfl⟩, _, db, ⟨hd, rfl⟩, hc, rfl⟩
  · intro jobBytes request queueId hq hjo
    refine lossless_of_cut hlimit.1 hbudget (fun job hj hse => (hjo job hj hse).2) ?_
    intro after page hc
    have hd := @mapM_ok _ (decodeJob env) (db.jobs.page (request.selects queueId) after (limit + 1)) fun job hj => by
      obtain ⟨hm, hse, -⟩ := Table.mem_of_mem_page hj
      exact decodeJob_ok.2 ⟨rfl, (hjo job hm hse).1⟩
    simp only [listJobs, yields_steps, yields_query]
    exact ⟨(), db, hre, (), db, ⟨hra, rfl⟩, queueId, db, hq, (), db,
      ⟨Nat.succ_le_succ hlimit.2, rfl⟩, _, db, ⟨hd, rfl⟩, hc, rfl⟩

def sampleQueue (n : Nat) : Queue := { id := Sample.uuid n, name := "q", createdAt := 0, updatedAt := 0 }

def twoQueues : Database := { queues := ⟨[sampleQueue 1, sampleQueue 2], by decide⟩ }

/-- The pages of these queues, each of twenty bytes, within 160 bytes. -/
def listTwo (limit : Nat) (after : Option Uuid) (page : ItemPage Queue) : Prop :=
  Yields (listQueues (Sample.environment "release") (fun _ => some 20) 160 { page := ⟨limit, after⟩ }) twoQueues page
    twoQueues

theorem list_pages_lossless_two : Lossless (listTwo 2) (fun _ => some 20) 160 twoQueues.queues.rows := by
  refine (list_pages_lossless (Sample.environment "release") twoQueues 160 2 rfl (by decide) (by decide)).1 _ {} ?_
  intro queue hq _
  refine ⟨?_, 20, rfl, by decide⟩
  rcases mem_pair.1 hq with rfl | rfl <;> exact ⟨by decide, rfl, by decide, by decide, rfl, rfl, by decide, by decide⟩

/-- A page limit over the maximum is refused. -/
theorem list_pages_limit_refused : ¬ Lossless (listTwo 201) (fun _ => some 20) 160 twoQueues.queues.rows := by
  rintro ⟨-, pages, hfo, -, -⟩
  have hr (after : Option Uuid) (page : ItemPage Queue) (h : listTwo 201 after page) : False := by
    simp only [listTwo, listQueues, yields_steps] at h
    obtain ⟨_, _, -, _, _, ⟨hl, -⟩, -⟩ := h
    exact absurd hl.2 (by decide)
  cases hfo with
  | last called => exact hr _ _ called
  | next called => exact hr _ _ called

end Jobu.Management
