import Mathlib.Algebra.Order.Field.Rat
import Mathlib.Tactic.FieldSimp
import Jobu.Scheduler.Selection

/-!
# The shares of the queues

Two results about what a core keeps of its queues from cycle to cycle.

  > `smooth_shares`: queues that can all be selected are chosen in proportion to their weights.
  > `credits_in_range`: whatever happens to the queues, the arithmetic on credits does not overflow.

The core keeps a weight for each queue and a credit for each queue and type (`Fairness`).  A cycle
reconciles them with its queues, and each visit starts from the credits of its type and leaves those
it ends with.
-/

namespace Jobu

open Lib

namespace Scheduler

variable {type : JobType} {queues : List QueueRuntime} {fairness : Fairness}

namespace Fairness

@[simp] theorem credits_withCredits (fairness : Fairness) (type : JobType) (credits : Uuid → Int) :
    (fairness.withCredits type credits).credits type = credits := by
  cases type <;> rfl

theorem credits_withCredits_other (fairness : Fairness) {type other : JobType} (h : other ≠ type)
    (credits : Uuid → Int) : (fairness.withCredits other credits).credits type = fairness.credits type := by
  cases type <;> cases other <;> first | rfl | exact absurd rfl h

@[simp] theorem queueWeights_withCredits (fairness : Fairness) (type : JobType) (credits : Uuid → Int) :
    (fairness.withCredits type credits).queueWeights = fairness.queueWeights := by
  cases type <;> rfl

end Fairness

theorem credits_reconcileFairness (queues : List QueueRuntime) (fairness : Fairness)
    (type : JobType) : (reconcileFairness queues fairness).credits type =
      reconciledCredits queues fairness.queueWeights (fairness.credits type) := by
  cases type <;> rfl

/-! ## Proportional shares -/

/-- The total weight of some queues. -/
def totalWeight (queues : List QueueRuntime) : Nat := (queues.map QueueRuntime.weight).sum

/-- **A history in which the queues keep their weights and can always be selected for one type**, from
zero credits: how many visits of the type have dispatched, and how often each queue was chosen.
Cycles begin, the other type is visited, and visits may find the type full. -/
inductive Served (type : JobType) (queues : List QueueRuntime) :
    Nat → (Uuid → Nat) → Fairness → Prop
  | start {fairness : Fairness} (zero : ∀ id, fairness.credits type id = 0) :
    Served type queues 0 (fun _ => 0) (reconcileFairness queues fairness)
  | cycle {m : Nat} {chosen : Uuid → Nat} {fairness : Fairness} {queues' : List QueueRuntime}
    (before : Served type queues m chosen fairness)
    (same : weightOf queues' = weightOf queues) :
    Served type queues m chosen (reconcileFairness queues' fairness)
  | other {m : Nat} {chosen : Uuid → Nat} {fairness : Fairness} {type' : JobType}
    {credits : Uuid → Int} (before : Served type queues m chosen fairness) (other : type' ≠ type) :
    Served type queues m chosen (fairness.withCredits type' credits)
  | idle {m : Nat} {chosen : Uuid → Nat} {fairness : Fairness} {queues' : List QueueRuntime}
    {σ : Type} {ask : Rest σ} {slots limit : Nat} {visit visit' : Visit σ}
    (before : Served type queues m chosen fairness)
    (same : weightOf queues' = weightOf queues) (nodup : (queues'.map QueueRuntime.id).Nodup)
    (reads : ask.Reads) (credits : visit.credits = fairness.credits type)
    (available : ¬ Yields ask.available visit.rest false visit.rest)
    (selectable : ∀ queue ∈ queues', Selectable ask limit visit queue)
    (run : Yields (dispatchVisit ask slots limit queues') visit none visit') :
    Served type queues m chosen (fairness.withCredits type visit'.credits)
  | dispatch {m : Nat} {chosen : Uuid → Nat} {fairness : Fairness} {queues' : List QueueRuntime}
    {σ : Type} {ask : Rest σ} {slots limit : Nat} {visit visit' : Visit σ} {id : Uuid}
    (before : Served type queues m chosen fairness)
    (same : weightOf queues' = weightOf queues) (nodup : (queues'.map QueueRuntime.id).Nodup)
    (reads : ask.Reads) (credits : visit.credits = fairness.credits type)
    (available : ¬ Yields ask.available visit.rest false visit.rest)
    (selectable : ∀ queue ∈ queues', Selectable ask limit visit queue)
    (run : Yields (dispatchVisit ask slots limit queues') visit (some id) visit') :
    Served type queues (m + 1) (fun k => if k = id then chosen k + 1 else chosen k)
      (fairness.withCredits type visit'.credits)

/-- A cycle over queues with the weights that are kept leaves their credits. -/
theorem reconciledCredits_same {credits : Uuid → Int} (hg : ∀ id ∉ idsOf queues, credits id = 0)
    {queues' : List QueueRuntime} (hsa : weightOf queues' = weightOf queues) :
    reconciledCredits queues' (weightOf queues) credits = credits := by
  funext id
  unfold reconciledCredits
  rw [hsa]
  cases hw : weightOf queues id with
  | none => exact (hg id (weightOf_eq_none.1 hw)).symm
  | some => exact if_pos rfl

/-- What such a history keeps: it is a number of rounds among all queues. -/
structure Shares (type : JobType) (queues : List QueueRuntime) (m : Nat) (chosen : Uuid → Nat)
    (fairness : Fairness) : Prop where
  weights : fairness.queueWeights = weightOf queues
  gone : ∀ id ∉ idsOf queues, fairness.credits type id = 0
  rounds : Rounds (shareOf queues) (idsOf queues) m chosen (fairness.credits type)

variable {m : Nat} {chosen : Uuid → Nat}

theorem Served.shares (h : Served type queues m chosen fairness) : Shares type queues m chosen fairness := by
  -- a visit that starts from the shares is a round over the queues as they were at first
  have hv : ∀ {m chosen fairness} {queues' : List QueueRuntime} {σ : Type} {ask : Rest σ}
    {slots limit : Nat} {visit visit' : Visit σ} {served : Option Uuid},
    Shares type queues m chosen fairness → weightOf queues' = weightOf queues →
    (queues'.map QueueRuntime.id).Nodup → ask.Reads → visit.credits = fairness.credits type →
    ¬ Yields ask.available visit.rest false visit.rest → (∀ queue ∈ queues', Selectable ask limit visit queue) →
    Yields (dispatchVisit ask slots limit queues') visit served visit' →
    (served = none ∧ visit'.credits = fairness.credits type) ∨ ∃ id, served = some id ∧
      Round (shareOf queues) (idsOf queues) (fairness.credits type) id visit'.credits := by
    intro m chosen fairness queues' σ ask slots limit visit visit' _ hsh hsa hn
      hre hc hav hse hr
    have hi := weightOf_ids hsa
    have hsha : shareOf queues' = shareOf queues := by
      funext id
      unfold shareOf
      rw [hsa]
    have hro := dispatchVisit_round hre hav hn hse
      (by rw [hi, hc]; exact hsh.gone) hr
    rwa [hi, hsha, hc] at hro
  induction h with
  | @start fairness zero =>
    have hz : (reconcileFairness queues fairness).credits type = fun _ => 0 := by
      rw [credits_reconcileFairness]
      funext id
      unfold reconciledCredits
      rw [zero id]
      cases weightOf queues id with
      | none => rfl
      | some => exact ite_self 0
    exact ⟨rfl, fun id _ => congrFun hz id, hz ▸ Rounds.start⟩
  | @cycle m chosen fairness queues' before same ih =>
    have hk : (reconcileFairness queues' fairness).credits type = fairness.credits type := by
      rw [credits_reconcileFairness, ih.weights, reconciledCredits_same ih.gone same]
    exact ⟨same, hk ▸ ih.gone, hk ▸ ih.rounds⟩
  | @other m chosen fairness type' credits before other ih =>
    have hk := fairness.credits_withCredits_other other credits
    exact ⟨(fairness.queueWeights_withCredits type' credits).trans ih.weights, hk ▸ ih.gone, hk ▸ ih.rounds⟩
  | @idle m chosen fairness queues' σ ask slots limit visit visit' before same nodup reads credits
    available selectable run ih =>
    obtain ⟨-, hk⟩ | ⟨id, hid, -⟩ := hv ih same nodup reads credits available selectable run
    · refine ⟨(fairness.queueWeights_withCredits type _).trans ih.weights, ?_, ?_⟩
      · rw [Fairness.credits_withCredits, hk]
        exact ih.gone
      · rw [Fairness.credits_withCredits, hk]
        exact ih.rounds
    · cases hid
  | @dispatch m chosen fairness queues' σ ask slots limit visit visit' id before same nodup reads
    credits available selectable run ih =>
    obtain ⟨hno, -⟩ | ⟨_, hid, hro⟩ := hv ih same nodup reads credits available selectable run
    · cases hno
    cases hid
    refine ⟨(fairness.queueWeights_withCredits type _).trans ih.weights, ?_, ?_⟩
    · rw [Fairness.credits_withCredits]
      exact hro.idle
    · rw [Fairness.credits_withCredits]
      exact .next ih.rounds hro

theorem sum_shareOf_eq_totalWeight (hn : (queues.map QueueRuntime.id).Nodup) :
    ∑ id ∈ idsOf queues, shareOf queues id = totalWeight queues := by
  rw [sum_shareOf hn (List.Sublist.refl queues)]
  unfold totalWeight
  rw [Nat.cast_list_sum, List.map_map]
  rfl

theorem shareOf_of_mem (hn : (queues.map QueueRuntime.id).Nodup) {queue : QueueRuntime}
    (hq : queue ∈ queues) : shareOf queues queue.id = queue.weight := by
  unfold shareOf
  rw [weightOf_of_mem hn hq]
  rfl

/-- **Smooth weighted round robin is proportional.**  While the queues can all be selected and keep
their positive weights, `k` times the total weight of visits choose each queue `k` times its weight
and leave no credit, and after any number of visits each queue was chosen as often as its share says,
up to less than the number of queues. -/
theorem smooth_shares {m : Nat} {chosen : Uuid → Nat}
    (hnodup : (queues.map QueueRuntime.id).Nodup) (hpos : ∀ queue ∈ queues, 0 < queue.weight)
    (h : Served type queues m chosen fairness) :
    (∀ k, m = k * totalWeight queues → (∀ queue ∈ queues, chosen queue.id = k * queue.weight) ∧
      ∀ id, fairness.credits type id = 0) ∧ ∀ queue ∈ queues,
      |(chosen queue.id : ℚ) - m * queue.weight / totalWeight queues| < queues.length := by
  have hsh := h.shares
  have hw : ∀ id ∈ idsOf queues, 0 < shareOf queues id := by
    intro id hid
    obtain ⟨queue, hq, rfl⟩ := mem_idsOf.1 hid
    rw [shareOf_of_mem hnodup hq]
    exact_mod_cast hpos queue hq
  have hsu := sum_shareOf_eq_totalWeight hnodup
  constructor
  · intro k hm
    have hp : ∀ id ∈ idsOf queues, (chosen id : ℤ) = k * shareOf queues id ∧ fairness.credits type id = 0 := by
      intro id hid
      refine hsh.rounds.period hw ?_ hid
      rw [hsu, hm]
      push_cast
      rfl
    refine ⟨fun queue hq => ?_, fun id => ?_⟩
    · have := (hp queue.id (mem_idsOf.2 ⟨queue, hq, rfl⟩)).1
      rw [shareOf_of_mem hnodup hq] at this
      exact_mod_cast this
    · by_cases hid : id ∈ idsOf queues
      · exact (hp id hid).2
      · exact hsh.gone id hid
  · intro queue hq
    have hme := mem_idsOf.2 ⟨queue, hq, rfl⟩
    have hn := hsh.rounds.near hw hme
    have hca : (idsOf queues).card = queues.length := by
      unfold idsOf
      rw [List.toFinset_card_of_nodup hnodup, List.length_map]
    rw [hsu, hca, shareOf_of_mem hnodup hq] at hn
    have hto : (0 : ℚ) < totalWeight queues := by
      have : (0 : ℤ) < totalWeight queues := hsu ▸ Finset.sum_pos hw ⟨_, hme⟩
      exact_mod_cast this
    have hn' : |(totalWeight queues : ℚ) * chosen queue.id - m * queue.weight| <
      totalWeight queues * queues.length := by exact_mod_cast hn
    -- both sides divided by the total
    have hd : (chosen queue.id : ℚ) - m * queue.weight / totalWeight queues =
      (totalWeight queues * chosen queue.id - m * queue.weight) / totalWeight queues := by
      field_simp
    rw [hd, abs_div, abs_of_pos hto, div_lt_iff₀ hto, mul_comm (queues.length : ℚ)]
    exact hn'

/-- Every queue has one run after the other, and every run is dispatched. -/
def steady : Rest Unit where
  terminal _ := false
  running _ := 0
  available := pure true
  slots _ _ := 0
  retries _ _ := []
  keepsSlot _ _ := false
  listRunnable id := pure [id]
  dispatch _ _ := pure true

theorem firstId_bound : 1 < 2 ^ 128 := by decide

def firstId : Uuid := ⟨1, firstId_bound⟩

def secondId : Uuid := ⟨2, by decide⟩

/-- Two queues with weights two and one. -/
def twoToOne : List QueueRuntime := [⟨firstId, 2, 1⟩, ⟨secondId, 1, 1⟩]

theorem steady_reads : steady.Reads :=
  ⟨fun _ _ _ h => ((yields_pure _ _ _ _).1 h).2, fun _ _ _ _ h => ((yields_pure _ _ _ _).1 h).2⟩

/-- The visit of a core that keeps such credits. -/
def steadyVisit (fairness : Fairness) : Visit Unit where
  rest := ()
  credits := fairness.credits .cli

/-- The shares after the visit. -/
def steadyNext (fairness : Fairness) : Fairness :=
  fairness.withCredits .cli (after (dispatchVisit steady 1 1 twoToOne) (steadyVisit fairness)).credits

theorem steady_served (h : Served .cli twoToOne m chosen fairness) (id : Uuid)
    (hi : answer (dispatchVisit steady 1 1 twoToOne) (steadyVisit fairness) = some (some id)) :
    Served .cli twoToOne (m + 1) (fun k => if k = id then chosen k + 1 else chosen k)
      (steadyNext fairness) := by
  refine h.dispatch rfl (by decide) steady_reads rfl ?_ ?_ (yields_after hi)
  · intro hfa
    cases ((yields_pure _ _ _ _).1 hfa).1
  intro _ hq
  rcases List.mem_cons.1 hq with rfl | hq
  · exact ⟨_, _, _, rfl, rfl⟩
  · rw [List.mem_singleton.1 hq]
    exact ⟨_, _, _, rfl, rfl⟩

/-- Three visits choose the first queue, the second and the first again, and no credit is left. -/
theorem smooth_shares_two_to_one : ∃ chosen fairness, Served .cli twoToOne 3 chosen fairness ∧ chosen firstId = 1 * 2 ∧
      chosen secondId = 1 * 1 ∧ ∀ id, fairness.credits .cli id = 0 := by
  have hst : Served .cli twoToOne 0 (fun _ => 0) (reconcileFairness twoToOne {}) := .start fun _ => rfl
  have hfi := steady_served hst firstId (by decide +kernel)
  have hse := steady_served hfi secondId (by decide +kernel)
  have hth := steady_served hse firstId (by decide +kernel)
  obtain ⟨hco, hz⟩ := (smooth_shares (by decide) (by decide) hth).1 1 rfl
  exact ⟨_, _, hth, hco ⟨firstId, 2, 1⟩ (by simp [twoToOne]),
    hco ⟨secondId, 1, 1⟩ (by simp [twoToOne]), hz⟩

/-! ## Credits in range -/

/-- **A history of the shares of at most 256 queues**: cycles bring any queues, with any positive
32-bit weights, and a visit may ask anything and get any answer. -/
inductive Arbitrated : List QueueRuntime → Fairness → Prop
  | fresh : Arbitrated [] {}
  | cycle {queues queues' : List QueueRuntime} {fairness : Fairness}
    (before : Arbitrated queues fairness) (valid : ValidQueues queues') :
    Arbitrated queues' (reconcileFairness queues' fairness)
  | visit {queues : List QueueRuntime} {fairness : Fairness} {σ : Type}
    (before : Arbitrated queues fairness) (type : JobType) (ask : Rest σ) (slots limit : Nat) (visit : Visit σ)
    (credits : visit.credits = fairness.credits type) :
    Arbitrated queues
      (fairness.withCredits type (after (dispatchVisit ask slots limit queues) visit).credits)

/-- What such a history keeps. -/
structure Balanced (queues : List QueueRuntime) (fairness : Fairness) : Prop where
  valid : ValidQueues queues
  weights : fairness.queueWeights = weightOf queues
  fits : ∀ type, Fits queues (fairness.credits type)

theorem Arbitrated.balanced (h : Arbitrated queues fairness) : Balanced queues fairness := by
  induction h with
  | fresh =>
    refine ⟨⟨List.nodup_nil, by decide, fun _ hm => by cases hm⟩, rfl, fun type => ?_⟩
    cases type
    · exact fits_nil
    · exact fits_nil
  | @cycle queues queues' fairness before valid ih =>
    refine ⟨valid, rfl, fun type => ?_⟩
    rw [credits_reconcileFairness, ih.weights]
    exact (ih.fits type).reconciled valid
  | @visit queues fairness σ before type ask slots limit visit credits ih =>
    refine ⟨ih.valid, (fairness.queueWeights_withCredits type _).trans ih.weights, fun other => ?_⟩
    by_cases ho : other = type
    · subst ho
      rw [Fairness.credits_withCredits]
      -- the credits fit whether the visit fails or not
      have hfi : Fits queues visit.credits := credits ▸ ih.fits other
      have he := dispatchVisit_fits ih.valid ask slots limit visit hfi
      unfold after
      cases hr : dispatchVisit ask slots limit queues visit with
      | ok =>
        rw [hr] at he
        exact he
      | error =>
        rw [hr] at he
        exact he.2
    · rw [fairness.credits_withCredits_other (Ne.symm ho)]
      exact ih.fits other

/-- **The arithmetic on credits never overflows.**  In every history the credits are in the range of
their type, and a visit that fails does so because something it asked for failed. -/
theorem credits_in_range (h : Arbitrated queues fairness) :
    (∀ type id, minimumCredit ≤ fairness.credits type id ∧ fairness.credits type id ≤ maximumCredit) ∧
      ∀ {σ : Type} (ask : Rest σ) (slots limit : Nat) (type : JobType) (visit visit' : Visit σ)
        (e : Error), visit.credits = fairness.credits type →
        dispatchVisit ask slots limit queues visit = .error e visit' → ask.Fails e := by
  have hba := h.balanced
  constructor
  · intro type id
    have hra := (hba.fits type).range id
    unfold maximumTotal at hra
    unfold minimumCredit maximumCredit
    omega
  · intro σ ask slots limit type visit visit' e hc hfa
    have hfi : Fits queues visit.credits := hc ▸ hba.fits type
    exact ((dispatchVisit_fits hba.valid ask slots limit).fails hfi hfa).1

/-- A queue with the largest weight is served beside one with the smallest, whose credit stays. -/
theorem credits_in_range_largest_weight : let queues : List QueueRuntime := [⟨firstId, 2 ^ 32 - 1, 1⟩, ⟨secondId, 1, 1⟩]
    ∃ fairness, Arbitrated queues fairness ∧ fairness.credits .cli firstId = -1 ∧
      minimumCredit ≤ fairness.credits .cli firstId ∧ ∀ visit visit' e, visit.credits = fairness.credits .cli →
        dispatchVisit steady 1 1 queues visit = .error e visit' → steady.Fails e := by
  intro queues
  have hva : ValidQueues queues := ⟨by decide, by decide, by decide⟩
  have hcy := Arbitrated.fresh.cycle hva
  have hv := hcy.visit .cli steady 1 1
    { rest := (), credits := (reconcileFairness queues {}).credits .cli } rfl
  obtain ⟨hra, hfa⟩ := credits_in_range hv
  exact ⟨_, hv, by decide, (hra .cli firstId).1, hfa steady 1 1 .cli⟩

end Scheduler

end Jobu
