import Mathlib.Algebra.BigOperators.Ring.Finset
import Jobu.Scheduler.Visit

/-!
# The credits of the queues

A visit is one round of smooth weighted round robin (`Lib.Round`) among the queues that are served or
could have been: a queue that offers nothing, or whose runs turn out to be gone, starts again from
nothing, and so do new and reweighted queues.  Neither breaks the bound of `Lib.Tame`, which is far
inside the range of a credit.

  > `round_of_selection`: weights, selection and payment are one round.
  > `dispatchVisit_fits`: a visit over credits that fit leaves credits that fit, and it fails only
    with a failure of what it asks.
-/

namespace Jobu

open Lib List

namespace Scheduler

variable {σ : Type} {queues : List QueueRuntime} {credits : Uuid → Int}

/-! ## Queues and their shares -/

/-- The identifiers of some queues. -/
def idsOf (queues : List QueueRuntime) : Finset Uuid := (queues.map QueueRuntime.id).toFinset

/-- The weight of a queue as a credit. -/
def shareOf (queues : List QueueRuntime) (id : Uuid) : Int := ((weightOf queues id).getD 0 : Nat)

variable {id : Uuid}

theorem mem_idsOf : id ∈ idsOf queues ↔ ∃ queue ∈ queues, queue.id = id := by
  unfold idsOf
  rw [mem_toFinset, mem_map]

theorem shareOf_nonneg (id : Uuid) : 0 ≤ shareOf queues id := Int.natCast_nonneg _

theorem weightOf_of_mem (hn : (queues.map QueueRuntime.id).Nodup) {queue : QueueRuntime}
    (hq : queue ∈ queues) : weightOf queues queue.id = some queue.weight := by
  unfold weightOf
  induction queues with
  | nil => cases hq
  | cons first _ ih =>
    rw [map_cons, nodup_cons] at hn
    rcases mem_cons.1 hq with rfl | hr
    · rw [List.find?_cons_of_pos (by simp)]
      rfl
    have hne : first.id ≠ queue.id := by
      intro he
      exact hn.1 (he ▸ mem_map_of_mem hr)
    rw [List.find?_cons_of_neg (by simp [hne])]
    exact ih hn.2 hr

theorem weightOf_eq_none : weightOf queues id = none ↔ id ∉ idsOf queues := by
  unfold weightOf
  rw [Option.map_eq_none_iff, List.find?_eq_none, mem_idsOf]
  simp

variable {queues' : List QueueRuntime}

theorem weightOf_ids {queues : List QueueRuntime} (h : weightOf queues' = weightOf queues) :
    idsOf queues' = idsOf queues := by
  ext id
  rw [← not_iff_not, ← weightOf_eq_none, ← weightOf_eq_none, h]

/-- The total weight of queues with different identifiers. -/
theorem sum_shareOf {chosen : List QueueRuntime} (hn : (queues.map QueueRuntime.id).Nodup)
    (hc : chosen.Sublist queues) :
    ∑ id ∈ idsOf chosen, shareOf queues id = (chosen.map fun queue => (queue.weight : Int)).sum := by
  unfold idsOf
  rw [sum_toFinset _ (hn.sublist (hc.map _)), map_map]
  congr 1
  refine map_congr_left fun queue hq => ?_
  show ((weightOf queues queue.id).getD 0 : Int) = _
  rw [weightOf_of_mem hn (hc.subset hq)]
  rfl

/-! ## The selection -/

theorem selectFrom_mem (credits : Uuid → Int) (first : EligibleQueue) (rest : List EligibleQueue) :
    selectFrom credits first rest ∈ first :: rest := by
  unfold selectFrom
  induction rest generalizing first with
  | nil => exact mem_singleton.2 rfl
  | cons queue _ ih =>
    rw [foldl_cons]
    by_cases ho : outranks credits queue first
    · rw [if_pos ho]
      exact mem_cons_of_mem first (ih queue)
    rw [if_neg ho]
    rcases mem_cons.1 (ih first) with he | hm
    · rw [he]
      exact mem_cons_self
    · exact mem_cons_of_mem first (mem_cons_of_mem queue hm)

/-- **No eligible queue has more credit than the selected one.** -/
theorem selectFrom_most (credits : Uuid → Int) (first : EligibleQueue) (rest : List EligibleQueue) :
    ∀ queue ∈ first :: rest, credits queue.runtime.id ≤ credits (selectFrom credits first rest).runtime.id := by
  unfold selectFrom
  induction rest generalizing first with
  | nil =>
    intro queue hqu
    rw [mem_singleton.1 hqu]
    exact le_refl _
  | cons next _ ih =>
    intro queue hqu
    rw [foldl_cons]
    -- both the queue selected so far and the next one are at most the one that goes on
    have hstep : ∀ q ∈ [first, next],
      credits q.runtime.id ≤ credits (if outranks credits next first then next else first).runtime.id := by
      intro q hq
      by_cases ho : outranks credits next first
      · rw [if_pos ho]
        simp only [outranks, bool_steps] at ho
        have hle : credits first.runtime.id ≤ credits next.runtime.id := by
          rcases ho with hl | ⟨he, -⟩
          · exact hl.le
          · exact he.ge
        rcases mem_cons.1 hq with rfl | hq
        · exact hle
        · rw [mem_singleton.1 hq]
      · rw [if_neg ho]
        have hle : credits next.runtime.id ≤ credits first.runtime.id := by
          by_contra hl
          apply ho
          simp only [outranks, bool_steps]
          exact .inl (not_le.1 hl)
        rcases mem_cons.1 hq with rfl | hq
        · exact le_refl _
        · rw [mem_singleton.1 hq]
          exact hle
    have hr := ih (if outranks credits next first then next else first)
    rcases mem_cons.1 hqu with rfl | hqu
    · exact (hstep _ mem_cons_self).trans (hr _ mem_cons_self)
    rcases mem_cons.1 hqu with rfl | hqu
    · exact (hstep _ (mem_cons_of_mem _ mem_cons_self)).trans
        (hr _ mem_cons_self)
    · exact hr queue (mem_cons_of_mem _ hqu)

/-! ## Rounds -/

/-- Eligible queues are some of the queues, in their order. -/
def Among (queues : List QueueRuntime) (eligible : List EligibleQueue) : Prop :=
  (eligible.map EligibleQueue.runtime).Sublist queues

/-- The identifiers of the eligible queues. -/
def eligibleIds (eligible : List EligibleQueue) : Finset Uuid :=
  idsOf (eligible.map EligibleQueue.runtime)

variable {eligible : List EligibleQueue}

theorem mem_eligibleIds : id ∈ eligibleIds eligible ↔ ∃ queue ∈ eligible, queue.runtime.id = id := by
  unfold eligibleIds
  rw [mem_idsOf]
  simp

theorem Among.subset (h : Among queues eligible) : eligibleIds eligible ⊆ idsOf queues := by
  intro _ hi
  obtain ⟨queue, hq, rfl⟩ := mem_eligibleIds.1 hi
  exact mem_idsOf.2 ⟨queue.runtime, List.Sublist.subset h (mem_map_of_mem hq), rfl⟩

theorem withWeights_eq (hno : (queues.map QueueRuntime.id).Nodup) (h : Among queues eligible)
    (id : Uuid) : withWeights eligible credits id =
      if id ∈ eligibleIds eligible then credits id + shareOf queues id else credits id := by
  unfold withWeights
  cases hfi : eligible.find? fun queue => queue.runtime.id = id with
  | none =>
    have hn : id ∉ eligibleIds eligible := by
      rw [mem_eligibleIds]
      rintro ⟨queue, hq, hi⟩
      have := List.find?_eq_none.1 hfi queue hq
      simp [hi] at this
    rw [if_neg hn]
  | some queue =>
    have hq := mem_of_find?_eq_some hfi
    have hi : queue.runtime.id = id := by simpa using List.find?_some hfi
    have hw := weightOf_of_mem hno (List.Sublist.subset h (mem_map_of_mem hq))
    rw [if_pos (mem_eligibleIds.2 ⟨queue, hq, hi⟩)]
    show _ = credits id + ((weightOf queues id).getD 0 : Nat)
    rw [← hi, hw]
    rfl

/-- The total weight of eligible queues. -/
def totalOf (eligible : List EligibleQueue) : Int :=
  (eligible.map fun queue => (queue.runtime.weight : Int)).sum

theorem totalOf_eq (hn : (queues.map QueueRuntime.id).Nodup) (h : Among queues eligible) :
    totalOf eligible = ∑ id ∈ eligibleIds eligible, shareOf queues id := by
  unfold eligibleIds
  rw [sum_shareOf hn h, map_map]
  rfl

/-- The credits after the selected queue paid the total. -/
def charged (id : Uuid) (total : Int) (credits : Uuid → Int) : Uuid → Int := fun k =>
  if k = id then credits id - total else credits k

/-- **Weights, selection and payment are one round among the eligible queues.** -/
theorem round_of_selection (hn : (queues.map QueueRuntime.id).Nodup) {first : EligibleQueue}
    {rest : List EligibleQueue} (h : Among queues (first :: rest))
    (hi : ∀ id ∉ eligibleIds (first :: rest), credits id = 0) :
    Round (shareOf queues) (eligibleIds (first :: rest)) credits
      (selectFrom (withWeights (first :: rest) credits) first rest).runtime.id
      (charged (selectFrom (withWeights (first :: rest) credits) first rest).runtime.id
        (totalOf (first :: rest)) (withWeights (first :: rest) credits)) := by
  have hse := selectFrom_mem (withWeights (first :: rest) credits) first rest
  have hmo := selectFrom_most (withWeights (first :: rest) credits) first rest
  generalize selectFrom (withWeights (first :: rest) credits) first rest = selected at hse hmo
  have hm : selected.runtime.id ∈ eligibleIds (first :: rest) := mem_eligibleIds.2 ⟨selected, hse, rfl⟩
  have hsel : withWeights (first :: rest) credits selected.runtime.id =
    credits selected.runtime.id + shareOf queues selected.runtime.id := by
    rw [withWeights_eq hn h, if_pos hm]
  refine ⟨hm, ?_, ?_, ?_, ?_⟩
  · intro id hid
    obtain ⟨queue, hq, rfl⟩ := mem_eligibleIds.1 hid
    have := hmo queue hq
    rwa [hsel, withWeights_eq hn h, if_pos hid] at this
  · unfold charged
    rw [if_pos rfl, hsel, totalOf_eq hn h]
  · intro id hid hne
    unfold charged
    rw [if_neg hne, withWeights_eq hn h, if_pos hid]
  · intro id hid
    have hne : id ≠ selected.runtime.id := fun he => hid (he ▸ hm)
    unfold charged
    rw [if_neg hne, withWeights_eq hn h, if_neg hid, hi id hid]

/-! ## Credits in range -/

/-- What the queues of a cycle are: no more than 256 of them, with positive 32-bit weights. -/
structure ValidQueues (queues : List QueueRuntime) : Prop where
  nodup : (queues.map QueueRuntime.id).Nodup
  few : queues.length ≤ 256
  weights : ∀ queue ∈ queues, 1 ≤ queue.weight ∧ queue.weight < 2 ^ 32

/-- The largest total weight. -/
def maximumTotal : Int := 256 * (2 ^ 32 - 1)

/-- Credits that visits can lead to. -/
structure Fits (queues : List QueueRuntime) (credits : Uuid → Int) : Prop where
  tame : Tame 256 maximumTotal (idsOf queues) credits
  gone : ∀ id ∉ idsOf queues, credits id = 0

theorem ValidQueues.card_le (h : ValidQueues queues) : (idsOf queues).card ≤ 256 := by
  unfold idsOf
  refine (toFinset_card_le _).trans ?_
  rw [length_map]
  exact h.few

theorem ValidQueues.share_le (h : ValidQueues queues) (hi : id ∈ idsOf queues) : shareOf queues id ≤ 2 ^ 32 - 1 := by
  obtain ⟨queue, hq, rfl⟩ := mem_idsOf.1 hi
  show (((weightOf queues queue.id).getD 0 : Nat) : Int) ≤ _
  rw [weightOf_of_mem h.nodup hq]
  have := (h.weights queue hq).2
  show ((queue.weight : Nat) : Int) ≤ _
  omega

theorem ValidQueues.total_le (h : ValidQueues queues) {E : Finset Uuid} (hE : E ⊆ idsOf queues) :
    ∑ id ∈ E, shareOf queues id ≤ maximumTotal := by
  have hsu : ∑ id ∈ E, shareOf queues id ≤ E.card • (2 ^ 32 - 1 : Int) :=
    Finset.sum_le_card_nsmul E _ _ fun id hi => h.share_le (hE hi)
  have hc : (E.card : Int) ≤ 256 := by exact_mod_cast (Finset.card_le_card hE).trans h.card_le
  rw [nsmul_eq_mul] at hsu
  unfold maximumTotal
  omega

theorem fits_nil : Fits [] fun _ => 0 := by
  have he : ∀ S ⊆ idsOf [], S = ∅ := fun S hS => Finset.subset_empty.1 hS
  refine ⟨⟨fun S hS => ?_, fun S hS => ?_⟩, fun _ _ => rfl⟩
  · rw [he S hS]
    decide
  · rw [he S hS]
    decide

/-- A credit is far from the ends of its range. -/
theorem Fits.range (h : Fits queues credits) (id : Uuid) :
    -(511 * maximumTotal) ≤ credits id ∧ credits id ≤ 511 * maximumTotal := by
  by_cases hi : id ∈ idsOf queues
  · have := abs_le.1 (h.tame.bound hi)
    norm_num at this
    exact this
  · rw [h.gone id hi]
    exact ⟨by decide, by decide⟩

variable {credits' : Uuid → Int}

/-- A queue may lose its credit at any time. -/
theorem Fits.zeroed (hv : ValidQueues queues) (h : Fits queues credits)
    (hz : ∀ id, credits' id = 0 ∨ credits' id = credits id) : Fits queues credits' := by
  refine ⟨h.tame.reset (by decide) hv.card_le fun id hi => ?_, fun id hi => ?_⟩
  · exact (hz id).imp_right fun he => ⟨hi, he⟩
  · rcases hz id with he | he
    · exact he
    · rw [he]
      exact h.gone id hi

theorem Fits.round (hv : ValidQueues queues) (h : Fits queues credits) (ham : Among queues eligible)
    (hr : Round (shareOf queues) (eligibleIds eligible) credits id credits') :
    Fits queues credits' := by
  refine ⟨h.tame.round hv.card_le ham.subset shareOf_nonneg (hv.total_le ham.subset)
    hr, fun id hi => hr.idle id fun hm => hi (ham.subset hm)⟩

/-- **Reconciled credits fit the new queues.** -/
theorem Fits.reconciled (hv : ValidQueues queues') (h : Fits queues credits) :
    Fits queues' (reconciledCredits queues' (weightOf queues) credits) := by
  refine ⟨h.tame.reset (by decide) hv.card_le fun id _ => ?_, fun id hi => ?_⟩
  · unfold reconciledCredits
    cases hne : weightOf queues' id with
    | none => exact .inl rfl
    | some weight =>
      by_cases ho : weightOf queues id = some weight
      · refine .inr ⟨?_, if_pos ho⟩
        by_contra hn
        rw [weightOf_eq_none.2 hn] at ho
        cases ho
      · exact .inl (if_neg ho)
  · unfold reconciledCredits
    rw [weightOf_eq_none.2 hi]

/-! ## The steps of a visit -/

/-- The failures of what a visit asks; those of the visit itself are not among them. -/
inductive Rest.Fails (ask : Rest σ) (e : Error) : Prop
  | available (s s' : σ) (h : ask.available s = .error e s')
  | listRunnable (id : Uuid) (s s' : σ) (h : ask.listRunnable id s = .error e s')
  | dispatch (run : Uuid) (slot : Bool) (s s' : σ) (h : ask.dispatch run slot s = .error e s')

variable {ask : Rest σ} {P : (Uuid → Int) → Prop}

/-- A visit that fails with credits with `P`, and not by its own arithmetic. -/
def Otherwise (ask : Rest σ) (P : (Uuid → Int) → Prop) (e : Error) (visit : Visit σ) : Prop :=
  ask.Fails e ∧ P visit.credits

theorem ends_inRest {α : Type} {x : Proc σ Error α} (hx : ∀ e s s', x s = .error e s' → ask.Fails e) :
    Ends (fun visit : Visit σ => P visit.credits) (inRest x) (fun _ visit => P visit.credits)
      (Otherwise ask P) :=
  ends_zoom (fun _ _ _ h _ => h) fun _ e _ h hfa => ⟨hx e _ _ hfa, h⟩

theorem loadCandidateBatch_ends (ask : Rest σ) (limit : Nat) (id : Uuid) :
    Ends (fun visit : Visit σ => P visit.credits) (loadCandidateBatch ask limit id)
      (fun _ visit => P visit.credits) (Otherwise ask P) := by
  refine ends_any_bind fun batch => ends_ite (fun _ => ends_pure fun _ h => h) fun _ => ?_
  exact ends_bind (ends_inRest fun _ s s' h => .listRunnable id s s' h) fun _ => ends_write fun _ h => h

theorem offerOf_ends (ask : Rest σ) (limit : Nat) (queue : QueueRuntime)
    (hz : ∀ credits : Uuid → Int, P credits → P fun k => if k = queue.id then 0 else credits k) :
    Ends (fun visit : Visit σ => P visit.credits) (offerOf ask limit queue)
      (fun offer visit => P visit.credits ∧ (offer = none → visit.credits queue.id = 0) ∧
        ∀ eligible ∈ offer, eligible.runtime = queue) (Otherwise ask P) := by
  have hn : Ends (fun visit : Visit σ => P visit.credits)
      (do write fun visit => visit.setCredit queue.id 0
          pure (none : Option EligibleQueue))
      (fun offer visit => P visit.credits ∧ (offer = none → visit.credits queue.id = 0) ∧
        ∀ eligible ∈ offer, eligible.runtime = queue) (Otherwise ask P) := by
    refine ends_bind (Q := fun _ visit => P visit.credits ∧ visit.credits queue.id = 0)
      (ends_write fun visit h => ⟨hz _ h, if_pos rfl⟩) fun _ => ends_pure fun visit h => ?_
    exact ⟨h.1, fun _ => h.2, fun _ hm => by cases hm⟩
  have hso : ∀ blocking, Ends (fun visit : Visit σ => P visit.credits)
      (pure (some ⟨queue, blocking⟩) : Proc (Visit σ) Error (Option EligibleQueue))
      (fun offer visit => P visit.credits ∧ (offer = none → visit.credits queue.id = 0) ∧
        ∀ eligible ∈ offer, eligible.runtime = queue) (Otherwise ask P) := by
    intro _
    refine ends_pure fun visit h => ⟨h, (fun hn => by cases hn), fun eligible hm => ?_⟩
    rw [← Option.some.inj hm]
  refine ends_any_bind fun full => ends_ite (fun _ => ?_) fun _ => ?_
  · exact ends_any_bind fun retry => ends_ite (fun _ => hn) fun _ => hso true
  · refine ends_bind (loadCandidateBatch_ends ask limit queue.id) fun _ => ?_
    exact ends_any_bind fun batch => ends_ite (fun _ => hn) fun _ => hso false

/-- Zeroing the credit of any of the queues keeps `P`. -/
def Forgets (queues : List QueueRuntime) (P : (Uuid → Int) → Prop) : Prop :=
  ∀ queue ∈ queues, ∀ credits : Uuid → Int, P credits → P fun k => if k = queue.id then 0 else credits k

/-- **Every queue that is not collected has lost its credit.** -/
theorem collectEligible_ends (ask : Rest σ) (limit : Nat) (queues : List QueueRuntime) (hz : Forgets queues P) :
    Ends (fun visit : Visit σ => P visit.credits) (collectEligible ask limit queues)
      (fun eligible visit => P visit.credits ∧ Among queues eligible ∧
        ∀ queue ∈ queues, queue.id ∈ eligibleIds eligible ∨ visit.credits queue.id = 0)
      (Otherwise ask P) := by
  induction queues generalizing P with
  | nil => exact ends_pure fun visit h => ⟨h, .slnil, fun queue hqu => by cases hqu⟩
  | cons queue rest ih =>
    have hze : Forgets rest P := fun q hq => hz q (mem_cons_of_mem queue hq)
    refine ends_bind (offerOf_ends ask limit queue (hz queue mem_cons_self)) fun offer => ?_
    cases offer with
    | none =>
      -- the lost credit of the first queue survives the rest of the loop
      have hr : Forgets rest fun credits => P credits ∧ credits queue.id = 0 := by
        intro q hq credits h
        refine ⟨hze q hq credits h.1, ?_⟩
        show (if queue.id = q.id then 0 else credits queue.id) = 0
        by_cases heq : queue.id = q.id
        · exact if_pos heq
        · rw [if_neg heq]
          exact h.2
      refine ends_bind ((ih hr).mono (fun _ h => ⟨h.1, h.2.1 rfl⟩) (fun _ _ h => h)
        fun _ _ h => ⟨h.1, h.2.1⟩) fun others => ends_pure fun visit h => ?_
      refine ⟨h.1.1, List.Sublist.cons queue h.2.1, fun q hq => ?_⟩
      rcases mem_cons.1 hq with rfl | hq
      · exact .inr h.1.2
      · exact h.2.2 q hq
    | some eligible =>
      refine Ends.assume (p := eligible.runtime = queue) (fun _ h => h.2.2 eligible rfl) fun hqu => ?_
      refine ends_bind ((ih hze).mono (fun _ h => h.1) (fun _ _ h => h) fun _ _ h => h)
        fun others => ends_pure fun visit h => ⟨h.1, ?_, fun q hq => ?_⟩
      · show (eligible.runtime :: others.map EligibleQueue.runtime).Sublist (queue :: rest)
        rw [hqu]
        exact List.Sublist.cons_cons queue h.2.1
      rcases mem_cons.1 hq with rfl | hq
      · exact .inl (mem_eligibleIds.2 ⟨eligible, mem_cons_self, congrArg QueueRuntime.id hqu⟩)
      · refine (h.2.2 q hq).imp_left fun hm => ?_
        obtain ⟨e, he, hi⟩ := mem_eligibleIds.1 hm
        exact mem_eligibleIds.2 ⟨e, mem_cons_of_mem eligible he, hi⟩

variable {total : Int}

/-- Neither the total nor a credit overflows while the credits are in range. -/
theorem yields_checkWeights {visit : Visit σ} (hto : total + totalOf eligible ≤ maximumCredit)
    (hc : ∀ queue ∈ eligible, visit.credits queue.runtime.id ≤ maximumCredit - queue.runtime.weight) :
    Yields (checkWeights total eligible) visit (total + totalOf eligible) visit := by
  induction eligible generalizing total with
  | nil => exact (yields_pure _ _ _ _).2 ⟨by simp [totalOf], rfl⟩
  | cons queue rest ih =>
    have hsu : totalOf (queue :: rest) = queue.runtime.weight + totalOf rest := rfl
    have hr : 0 ≤ totalOf rest := sum_nonneg fun w hw => by
      obtain ⟨q, -, rfl⟩ := mem_map.1 hw
      exact Int.natCast_nonneg _
    rw [hsu] at hto ⊢
    simp only [checkWeights, yields_steps]
    refine ⟨(), visit, ⟨by omega, rfl⟩, _, visit, ⟨rfl, rfl⟩, (), visit, ⟨hc queue mem_cons_self, rfl⟩, ?_⟩
    rw [← add_assoc]
    exact ih (by omega) fun q hq => hc q (mem_cons_of_mem queue hq)

theorem tryRetries_ends (ask : Rest σ) (runs : List Uuid) :
    Ends (fun visit : Visit σ => P visit.credits) (tryRetries ask runs)
      (fun _ visit => P visit.credits) (Otherwise ask P) := by
  induction runs with
  | nil => exact ends_pure fun _ h => h
  | cons run _ ih =>
    refine ends_any_bind fun tried => ends_ite (fun _ => ih) fun _ => ?_
    refine ends_bind (Q := fun _ visit => P visit.credits) (ends_write fun _ h => h) fun _ => ?_
    refine ends_bind (ends_inRest fun _ => .dispatch run true) fun dispatched => ?_
    exact ends_ite (fun _ => ends_pure fun _ h => h) fun _ => ih

theorem tryCandidates_ends (ask : Rest σ) (id : Uuid) (runs : List Uuid) :
    Ends (fun visit : Visit σ => P visit.credits) (tryCandidates ask id runs)
      (fun _ visit => P visit.credits) (Otherwise ask P) := by
  induction runs with
  | nil => exact ends_pure fun _ h => h
  | cons run _ ih =>
    refine ends_bind (Q := fun _ visit => P visit.credits) (ends_write fun _ h => h) fun _ => ?_
    refine ends_any_bind fun keeps => ?_
    refine ends_bind (ends_inRest fun _ => .dispatch run keeps) fun dispatched => ?_
    exact ends_ite (fun _ => ends_pure fun _ h => h) fun _ => ih

theorem tryQueue_ends (ask : Rest σ) (queue : EligibleQueue) :
    Ends (fun visit : Visit σ => P visit.credits) (tryQueue ask queue)
      (fun _ visit => P visit.credits) (Otherwise ask P) := by
  refine ends_ite (fun _ => ?_) fun _ => ?_
  · exact ends_any_bind fun retries => tryRetries_ends ask retries
  · exact ends_any_bind fun batch => tryCandidates_ends ask queue.runtime.id batch.candidates

/-- The state of the selection loop: every eligible queue has its weight on top of credits that fit,
and nobody else has credit. -/
def Raised (queues : List QueueRuntime) (eligible : List EligibleQueue) (credits : Uuid → Int) : Prop :=
  ∃ base, Fits queues base ∧ (∀ id ∉ eligibleIds eligible, base id = 0) ∧ credits = withWeights eligible base

/-- The eligible queues without one. -/
def without (eligible : List EligibleQueue) (id : Uuid) : List EligibleQueue :=
  eligible.filter fun queue => queue.runtime.id ≠ id

theorem mem_eligibleIds_without {k : Uuid} :
    k ∈ eligibleIds (without eligible id) ↔ k ∈ eligibleIds eligible ∧ k ≠ id := by
  simp only [mem_eligibleIds, without, mem_filter, decide_eq_true_eq]
  constructor
  · rintro ⟨queue, ⟨hq, hn⟩, rfl⟩
    exact ⟨⟨queue, hq, rfl⟩, hn⟩
  · rintro ⟨⟨queue, hq, rfl⟩, hn⟩
    exact ⟨queue, ⟨hq, hn⟩, rfl⟩

variable {queue : EligibleQueue} {n : Nat}

theorem without_length (hq : queue ∈ eligible)
    (hn : eligible.length ≤ n + 1) : (without eligible queue.runtime.id).length ≤ n := by
  have hl : (without eligible queue.runtime.id).length < eligible.length :=
    length_filter_lt_length_iff_exists.2 ⟨queue, hq, by simp⟩
  omega

theorem Among.without (h : Among queues eligible) (id : Uuid) : Among queues (without eligible id) :=
  (filter_sublist.map EligibleQueue.runtime).trans h

/-- A queue whose runs are gone drops out of the round. -/
theorem totalOf_without (hn : (queues.map QueueRuntime.id).Nodup) (h : Among queues eligible)
    (hq : queue ∈ eligible) :
    totalOf (without eligible queue.runtime.id) = totalOf eligible - queue.runtime.weight := by
  have hi : eligibleIds (without eligible queue.runtime.id) = (eligibleIds eligible).erase queue.runtime.id := by
    ext k
    rw [mem_eligibleIds_without, Finset.mem_erase, and_comm]
  have hsh : shareOf queues queue.runtime.id = queue.runtime.weight := by
    show (((weightOf queues queue.runtime.id).getD 0 : Nat) : Int) = _
    rw [weightOf_of_mem hn (List.Sublist.subset h (mem_map_of_mem hq))]
    rfl
  rw [totalOf_eq hn (h.without _), totalOf_eq hn h, hi, ← hsh,
    ← Finset.add_sum_erase _ _ (mem_eligibleIds.2 ⟨queue, hq, rfl⟩)]
  omega

/-- A queue whose runs are gone loses its credit, and the others keep their weights. -/
theorem Raised.dropped (hv : ValidQueues queues) (ham : Among queues eligible)
    {base : Uuid → Int} (hfi : Fits queues base)
    (hi : ∀ id ∉ eligibleIds eligible, base id = 0) (id : Uuid) (total : Int) :
    Raised queues (without eligible id) fun k =>
      if k = id then 0 else charged id total (withWeights eligible base) k := by
  refine ⟨fun k => if k = id then 0 else base k, hfi.zeroed hv fun k => ?_, fun k hk => ?_, ?_⟩
  · by_cases hki : k = id
    · exact .inl (if_pos hki)
    · exact .inr (if_neg hki)
  · show (if k = id then 0 else base k) = 0
    by_cases hki : k = id
    · exact if_pos hki
    · rw [if_neg hki]
      exact hi k fun hm => hk (mem_eligibleIds_without.2 ⟨hm, hki⟩)
  funext k
  rw [withWeights_eq hv.nodup (ham.without id)]
  by_cases hki : k = id
  · rw [if_pos hki, if_pos hki, if_neg fun hm => (mem_eligibleIds_without.1 hm).2 hki]
  rw [if_neg hki, if_neg hki, charged, if_neg hki, withWeights_eq hv.nodup ham]
  by_cases hm : k ∈ eligibleIds eligible
  · rw [if_pos hm, if_pos (mem_eligibleIds_without.2 ⟨hm, hki⟩)]
  · rw [if_neg hm, if_neg fun h => hm (mem_eligibleIds_without.1 h).1]

theorem subtractTotal_ends (ask : Rest σ) {before : Uuid → Int} (hr : minimumCredit + total ≤ before id) :
    Ends (fun visit : Visit σ => visit.credits = before) (subtractTotal id total)
      (fun _ visit => visit.credits = charged id total before) (Otherwise ask P) := by
  refine ends_look_bind fun credit => Ends.assume (p := credit = before id)
    (fun visit h => h.2.trans (congrFun h.1 id)) fun hc => ?_
  refine ends_bind (Q := fun _ visit => visit.credits = before)
    (ends_require fun visit h => ?_) fun _ => ends_write fun visit h => ?_
  · rw [if_pos (hc ▸ hr)]
    exact h.1
  · show (fun k => if k = id then credit - total else visit.credits k) = _
    rw [h, hc]
    rfl

/-- **The selection loop: the payments stay in range, and the credits fit afterwards.** -/
theorem serve_ends (hv : ValidQueues queues) (ask : Rest σ)
    (ham : Among queues eligible) (hn : eligible.length ≤ n) :
    Ends (fun visit : Visit σ => Raised queues eligible visit.credits)
      (serve ask n (totalOf eligible) eligible) (fun _ visit => Fits queues visit.credits)
      (Otherwise ask (Fits queues)) := by
  have hni : Ends (fun visit : Visit σ => Raised queues [] visit.credits)
    (pure none : Proc (Visit σ) Error (Option Uuid)) (fun _ visit => Fits queues visit.credits)
    (Otherwise ask (Fits queues)) := by
    refine ends_pure fun visit h => ?_
    obtain ⟨base, hfi, -, he⟩ := h
    rw [he]
    exact hfi
  induction n generalizing eligible with
  | zero =>
    rw [eq_nil_of_length_eq_zero (Nat.le_zero.1 hn)]
    exact hni
  | succ _ ih =>
    cases eligible with
    | nil => exact hni
    | cons first rest =>
      refine ends_look_bind fun credits => Ends.assume (p := Raised queues (first :: rest) credits)
        (fun visit h => h.2 ▸ h.1) fun hr => ?_
      obtain ⟨base, hfi, hi, rfl⟩ := hr
      have hro := round_of_selection hv.nodup ham hi
      have hm := selectFrom_mem (withWeights (first :: rest) base) first rest
      generalize selectFrom (withWeights (first :: rest) base) first rest = selected at hro hm
      have hf' := hfi.round hv ham hro
      have hra : minimumCredit + totalOf (first :: rest) ≤ withWeights (first :: rest) base selected.runtime.id := by
        have hto := hv.total_le ham.subset
        rw [← totalOf_eq hv.nodup ham] at hto
        have hl := (hfi.range selected.runtime.id).1
        have hsh : 0 ≤ shareOf queues selected.runtime.id := shareOf_nonneg _
        rw [withWeights_eq hv.nodup ham, if_pos (mem_eligibleIds.2 ⟨selected, hm, rfl⟩)]
        unfold minimumCredit
        unfold maximumTotal at hto hl
        omega
      refine ends_bind ((subtractTotal_ends ask hra).mono (fun visit h => h.2.symm) (fun _ _ h => h)
        fun _ _ h => h) fun _ => ?_
      refine ends_bind ((tryQueue_ends (P := fun credits => credits = charged _ _ _) ask selected).mono
        (fun _ h => h) (fun _ _ h => h) fun e visit h => ⟨h.1, h.2 ▸ hf'⟩) fun dispatched => ?_
      refine ends_ite (fun _ => ends_pure fun visit h => h ▸ hf') fun _ => ?_
      rw [← totalOf_without hv.nodup ham hm]
      refine ends_bind (ends_write fun visit h => ?_) fun _ =>
        ih (ham.without selected.runtime.id) (without_length hm hn)
      show Raised queues _ fun k => if k = selected.runtime.id then 0 else visit.credits k
      rw [h]
      exact Raised.dropped hv ham hfi hi selected.runtime.id _

/-- **A visit over credits that fit leaves credits that fit, and its arithmetic does not overflow.** -/
theorem dispatchVisit_fits (hv : ValidQueues queues) (ask : Rest σ) (slots limit : Nat) :
    Ends (fun visit : Visit σ => Fits queues visit.credits) (dispatchVisit ask slots limit queues)
      (fun _ visit => Fits queues visit.credits) (Otherwise ask (Fits queues)) := by
  have hn : Ends (fun visit : Visit σ => Fits queues visit.credits)
    (pure none : Proc (Visit σ) Error (Option Uuid)) (fun _ visit => Fits queues visit.credits)
    (Otherwise ask (Fits queues)) := ends_pure fun _ h => h
  have hfo : Forgets queues (Fits queues) := by
    intro queue _ _ h
    refine h.zeroed hv fun k => ?_
    by_cases hk : k = queue.id
    · exact .inl (if_pos hk)
    · exact .inr (if_neg hk)
  refine ends_any_bind fun closed => ends_ite (fun _ => hn) fun _ => ?_
  refine ends_bind (ends_inRest fun _ => .available) fun available => ends_ite (fun _ => ?_) fun _ => ?_
  · refine ends_bind (Q := fun _ visit => Fits queues visit.credits) (ends_write fun visit h => ?_)
      fun _ => hn
    refine h.zeroed hv fun k => ?_
    by_cases hk : (weightOf queues k).isSome = true
    · exact .inl (if_pos hk)
    · exact .inr (if_neg hk)
  refine ends_any_bind fun terminal => ends_ite (fun _ => hn) fun _ => ?_
  refine ends_bind (collectEligible_ends ask limit queues hfo) fun eligible => ?_
  refine ends_ite (fun _ => ends_pure fun _ h => h.1) fun _ => ?_
  refine Ends.assume (p := Among queues eligible) (fun _ h => h.2.1) fun ham => ?_
  refine ends_bind (ends_of_yields fun visit h => yields_checkWeights ?_ fun queue hq => ?_)
    fun total => Ends.assume (p := total = 0 + totalOf eligible) (fun _ h => h.2) fun hto => ?_
  · have hto := hv.total_le ham.subset
    rw [← totalOf_eq hv.nodup ham] at hto
    unfold maximumTotal at hto
    unfold maximumCredit
    omega
  · have hh := (h.1.range queue.runtime.id).2
    have hw := (hv.weights _ (List.Sublist.subset ham (mem_map_of_mem hq))).2
    unfold maximumTotal at hh
    unfold maximumCredit
    omega
  rw [hto, zero_add]
  refine ends_bind (ends_write fun visit h => ?_) fun _ => serve_ends hv ask ham (le_refl _)
  refine ⟨visit.credits, h.1.1, fun id hi => ?_, rfl⟩
  by_cases hq : id ∈ idsOf queues
  · obtain ⟨queue, hm, rfl⟩ := mem_idsOf.1 hq
    exact (h.1.2.2 queue hm).resolve_left hi
  · exact h.1.1.gone id hq

end Scheduler

end Jobu
