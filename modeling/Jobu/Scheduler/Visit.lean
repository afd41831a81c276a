import Jobu.Lib.Credits
import Jobu.Lib.Outcome
import Jobu.Scheduler.Core

/-!
# One dispatch opportunity

`reconcile_fairness` and `dispatch_visit` of `scheduler_core_priv.cpp`.  A visit collects the queues
that can offer a run of the type, gives each its weight, and tries them from the largest credit on,
until one of their runs is dispatched.

The visit is written over what it asks of the rest of the core (`Rest`): the results about credits
then hold whatever the rest answers, and `Scheduler.Cycle` puts the database and the executor there.
A map from queues is the function it stands for, and an absent credit is zero.

  > `dispatchVisit_fits`: between any visits the credits stay in range, so no addition overflows.
  > `dispatchVisit_round`: while every queue can be served, a visit is one round.
-/

namespace Jobu

open Lib

namespace Scheduler

def fairnessOverflow : Error where
  category := .internal
  code := "jobu.storage.invariant"
  message := "Scheduler fairness arithmetic exceeds its supported range"

/-- The members of the core that keep the shares of the queues between cycles. -/
structure Fairness where
  queueWeights : Uuid → Option Nat := fun _ => none
  cliCredits : Uuid → Int := fun _ => 0
  httpCredits : Uuid → Int := fun _ => 0

def Fairness.credits (fairness : Fairness) : JobType → Uuid → Int
  | .cli => fairness.cliCredits
  | .http => fairness.httpCredits

def Fairness.withCredits (fairness : Fairness) (type : JobType) (credits : Uuid → Int) : Fairness :=
  match type with
  | .cli => { fairness with cliCredits := credits }
  | .http => { fairness with httpCredits := credits }

/-- The weight a list of queues gives to an identifier. -/
def weightOf (queues : List QueueRuntime) (id : Uuid) : Option Nat :=
  (queues.find? fun queue => queue.id = id).map QueueRuntime.weight

/-- A new or reweighted queue begins a new history, and a queue that is gone has none. -/
def reconciledCredits (queues : List QueueRuntime) (queueWeights : Uuid → Option Nat)
    (credits : Uuid → Int) : Uuid → Int := fun id =>
  match weightOf queues id with
  | none => 0
  | some weight => if queueWeights id = some weight then credits id else 0

/-- `reconcile_fairness`. -/
def reconcileFairness (queues : List QueueRuntime) (fairness : Fairness) : Fairness where
  queueWeights := weightOf queues
  cliCredits := reconciledCredits queues fairness.queueWeights fairness.cliCredits
  httpCredits := reconciledCredits queues fairness.queueWeights fairness.httpCredits

/-! ## The state of a visit -/

/-- `CandidateBatch`: the part of a page that was not tried yet. -/
structure CandidateBatch where
  candidates : List Uuid := []
  queried : Bool := false
  mayHaveMore : Bool := false

/-- `EligibleQueue`: a queue at its limit can only go on with a retry that keeps its slot. -/
structure EligibleQueue where
  runtime : QueueRuntime
  blockingOnly : Bool

/-- What a visit for one type asks of the rest of the core. -/
structure Rest (σ : Type) where
  /-- The core takes no more work. -/
  terminal : σ → Bool
  /-- `running_for`. -/
  running : σ → Nat
  /-- `type_available`. -/
  available : Proc σ Error Bool
  /-- `queue_slots_for`. -/
  slots : σ → Uuid → Nat
  /-- The due retries of the type that keep a slot of the queue, in dispatch order. -/
  retries : σ → Uuid → List Uuid
  /-- `blocking_retry_ids.contains`. -/
  keepsSlot : σ → Uuid → Bool
  /-- `list_runnable`. -/
  listRunnable : Uuid → Proc σ Error (List Uuid)
  /-- `try_dispatch`: whether the run was dispatched. -/
  dispatch : Uuid → Bool → Proc σ Error Bool

/-- The state of a visit: the rest of the core, and what the cycle keeps for the type. -/
structure Visit (σ : Type) where
  rest : σ
  credits : Uuid → Int := fun _ => 0
  batches : Uuid → CandidateBatch := fun _ => {}
  attempted : List Uuid := []

variable {σ : Type}

namespace Visit

def setCredit (visit : Visit σ) (id : Uuid) (credit : Int) : Visit σ :=
  { visit with credits := fun k => if k = id then credit else visit.credits k }

def setBatch (visit : Visit σ) (id : Uuid) (batch : CandidateBatch) : Visit σ :=
  { visit with batches := fun k => if k = id then batch else visit.batches k }

end Visit

/-- Runs a procedure of the rest. -/
def inRest {α : Type} (x : Proc σ Error α) : Proc (Visit σ) Error α :=
  zoom Visit.rest (fun visit rest => { visit with rest }) x

/-- `std::numeric_limits<std::int64_t>`. -/
def maximumCredit : Int := 2 ^ 63 - 1

def minimumCredit : Int := -2 ^ 63

/-! ## Eligible queues -/

/-- `reset_credits`. -/
def resetCredits (queues : List QueueRuntime) (visit : Visit σ) : Visit σ :=
  { visit with credits := fun id => if (weightOf queues id).isSome then 0 else visit.credits id }

/-- `load_candidate_batch`: an unfinished page is kept, and the last page is not read again. -/
def loadCandidateBatch (ask : Rest σ) (limit : Nat) (queueId : Uuid) : Proc (Visit σ) Error Unit := do
  let batch ← look fun visit => visit.batches queueId
  if batch.candidates ≠ [] ∨ (batch.queried = true ∧ batch.mayHaveMore = false) then pure ()
  else do
    let candidates ← inRest (ask.listRunnable queueId)
    write fun visit => visit.setBatch queueId
      { candidates, queried := true, mayHaveMore := candidates.length = limit }

/-- What a queue can offer, if anything; a queue that offers nothing loses its credit. -/
def offerOf (ask : Rest σ) (limit : Nat) (queue : QueueRuntime) : Proc (Visit σ) Error (Option EligibleQueue) := do
  let full ← look fun visit => decide (queue.concurrencyLimit ≤ ask.slots visit.rest queue.id)
  if full then do
    let retry ← look fun visit =>
      (ask.retries visit.rest queue.id).find? fun run => run ∉ visit.attempted
    if retry.isNone then do
      write fun visit => visit.setCredit queue.id 0
      pure none
    else pure (some ⟨queue, true⟩)
  else do
    loadCandidateBatch ask limit queue.id
    let batch ← look fun visit => visit.batches queue.id
    if batch.candidates = [] then do
      write fun visit => visit.setCredit queue.id 0
      pure none
    else pure (some ⟨queue, false⟩)

/-- The first loop of `dispatch_visit`. -/
def collectEligible (ask : Rest σ) (limit : Nat) : List QueueRuntime → Proc (Visit σ) Error (List EligibleQueue)
  | [] => pure []
  | queue :: rest => do
    let offer ← offerOf ask limit queue
    let others ← collectEligible ask limit rest
    pure (offer.toList ++ others)

/-! ## Selection -/

/-- The total weight of the eligible queues; neither it nor a credit may overflow. -/
def checkWeights : Int → List EligibleQueue → Proc (Visit σ) Error Int
  | total, [] => pure total
  | total, queue :: rest => do
    require (total ≤ maximumCredit - queue.runtime.weight) fairnessOverflow
    let credit ← look fun visit => visit.credits queue.runtime.id
    require (credit ≤ maximumCredit - queue.runtime.weight) fairnessOverflow
    checkWeights (total + queue.runtime.weight) rest

/-- Credits with the weights of the eligible queues. -/
def withWeights (eligible : List EligibleQueue) (credits : Uuid → Int) : Uuid → Int := fun id =>
  match eligible.find? fun queue => queue.runtime.id = id with
  | none => credits id
  | some queue => credits id + queue.runtime.weight

/-- Every eligible queue gets its weight. -/
def addWeights (eligible : List EligibleQueue) (visit : Visit σ) : Visit σ :=
  { visit with credits := withWeights eligible visit.credits }

/-- The queue comes before the one selected so far: it has more credit, or as much and a smaller
identifier. -/
def outranks (credits : Uuid → Int) (queue selected : EligibleQueue) : Bool :=
  credits selected.runtime.id < credits queue.runtime.id ||
    (credits queue.runtime.id = credits selected.runtime.id && decide (queue.runtime.id < selected.runtime.id))

/-- The selection loop, from the queue selected so far. -/
def selectFrom (credits : Uuid → Int) (selected : EligibleQueue) (rest : List EligibleQueue) : EligibleQueue :=
  rest.foldl (fun selected queue => if outranks credits queue selected then queue else selected)
    selected

/-- `subtract_total`. -/
def subtractTotal (id : Uuid) (total : Int) : Proc (Visit σ) Error Unit := do
  let credit ← look fun visit => visit.credits id
  require (minimumCredit + total ≤ credit) fairnessOverflow
  write fun visit => visit.setCredit id (credit - total)

/-- The loop over the retries that keep a slot; each is tried once in a cycle. -/
def tryRetries (ask : Rest σ) : List Uuid → Proc (Visit σ) Error Bool
  | [] => pure false
  | run :: rest => do
    let tried ← look fun visit => decide (run ∈ visit.attempted)
    if tried then tryRetries ask rest
    else do
      write fun visit => { visit with attempted := run :: visit.attempted }
      let dispatched ← inRest (ask.dispatch run true)
      if dispatched then pure true else tryRetries ask rest

/-- The loop over the candidates of a queue; a candidate that was tried is gone from the page. -/
def tryCandidates (ask : Rest σ) (queueId : Uuid) : List Uuid → Proc (Visit σ) Error Bool
  | [] => pure false
  | run :: rest => do
    write fun visit => visit.setBatch queueId { visit.batches queueId with candidates := rest }
    let keeps ← look fun visit => ask.keepsSlot visit.rest run
    let dispatched ← inRest (ask.dispatch run keeps)
    if dispatched then pure true else tryCandidates ask queueId rest

/-- The runs of the selected queue, until one is dispatched. -/
def tryQueue (ask : Rest σ) (queue : EligibleQueue) : Proc (Visit σ) Error Bool := do
  if queue.blockingOnly then do
    let retries ← look fun visit => ask.retries visit.rest queue.runtime.id
    tryRetries ask retries
  else do
    let batch ← look fun visit => visit.batches queue.runtime.id
    tryCandidates ask queue.runtime.id batch.candidates

/-- The selection loop of `dispatch_visit`, for at most so many queues: a queue whose runs are all
gone loses its credit and the next one is tried.  The value is the queue that was served. -/
def serve (ask : Rest σ) : Nat → Int → List EligibleQueue → Proc (Visit σ) Error (Option Uuid)
  | 0, _, _ => pure none
  | _ + 1, _, [] => pure none
  | n + 1, total, first :: rest => do
    let credits ← look Visit.credits
    let selected := selectFrom credits first rest
    subtractTotal selected.runtime.id total
    let dispatched ← tryQueue ask selected
    if dispatched then pure (some selected.runtime.id)
    else do
      write fun visit => visit.setCredit selected.runtime.id 0
      serve ask n (total - selected.runtime.weight)
        ((first :: rest).filter fun queue => queue.runtime.id ≠ selected.runtime.id)

/-- `dispatch_visit` for a type with so many slots.  The source only says whether a run was
dispatched; the value here is the queue it came from. -/
def dispatchVisit (ask : Rest σ) (slots limit : Nat) (queues : List QueueRuntime) :
    Proc (Visit σ) Error (Option Uuid) := do
  let closed ← look fun visit => ask.terminal visit.rest || decide (slots ≤ ask.running visit.rest)
  if closed then pure none
  else do
    let available ← inRest ask.available
    if available = false then do
      write (resetCredits queues)
      pure none
    else do
      let terminal ← look fun visit => ask.terminal visit.rest
      if terminal then pure none
      else do
        let eligible ← collectEligible ask limit queues
        if eligible.isEmpty then pure none
        else do
          let total ← checkWeights 0 eligible
          write (addWeights eligible)
          serve ask eligible.length total eligible

end Scheduler

end Jobu
