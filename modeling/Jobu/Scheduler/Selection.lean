import Jobu.Scheduler.Fairness

/-!
# Queues that can all be selected

While every queue has a run that is dispatched when it is tried, all queues are collected and the one
selected first is served, so the visit is one round among all of them.  That a queue can be served is
a fact about the state in which it is tried; it is carried there from the start of the visit, because
nothing that the visit does before concerns what the queue finds (`Lib.Follows`).

  > `collectEligible_all`: all queues are collected.
  > `dispatchVisit_round`: a visit is one round among all queues, unless it dispatches nothing.
-/

namespace Jobu

open Lib List

namespace Scheduler

variable {σ : Type} {queues : List QueueRuntime} {ask : Rest σ} {visit visit' : Visit σ}

/-- Two visits in which a queue finds the same things. -/
structure SameFor (id : Uuid) (visit other : Visit σ) : Prop where
  rest : visit.rest = other.rest
  attempted : visit.attempted = other.attempted
  batch : visit.batches id = other.batches id

theorem yields_inRest {α : Type} {x : Proc σ Error α} {a : α} : Yields (inRest x) visit a visit' ↔
      ∃ rest, Yields x visit.rest a rest ∧ visit' = { visit with rest } := by
  unfold inRest
  rw [yields_zoom]

variable {id : Uuid}

theorem follows_inRest {α : Type} (x : Proc σ Error α) : Lib.Follows (SameFor id) (inRest x) := by
  intro _ other a _ hsa h
  obtain ⟨rest, hx, rfl⟩ := yields_inRest.1 h
  refine ⟨{ other with rest }, yields_inRest.2 ⟨rest, hsa.rest ▸ hx, rfl⟩, ?_⟩
  exact ⟨rfl, hsa.attempted, hsa.batch⟩

theorem follows_tryRetries (ask : Rest σ) (runs : List Uuid) : Lib.Follows (SameFor id) (tryRetries ask runs) := by
  induction runs with
  | nil => exact follows_pure false
  | cons run _ ih =>
    refine follows_bind (follows_look fun visit other h => by rw [h.attempted]) fun tried =>
      follows_ite ih (follows_bind (follows_write fun visit other h => ?_) fun _ => ?_)
    · exact ⟨h.rest, congrArg (run :: ·) h.attempted, h.batch⟩
    · exact follows_bind (follows_inRest _) fun _ => follows_ite (follows_pure true) ih

theorem follows_tryCandidates (ask : Rest σ) (runs : List Uuid) :
    Lib.Follows (SameFor id) (tryCandidates ask id runs) := by
  induction runs with
  | nil => exact follows_pure false
  | cons _ _ ih =>
    refine follows_bind (follows_write fun visit other h => ?_) fun _ => ?_
    · refine ⟨h.rest, h.attempted, ?_⟩
      show (if id = id then _ else _) = (if id = id then _ else _)
      rw [if_pos rfl, if_pos rfl, h.batch]
    · refine follows_bind (follows_look fun visit other h => by rw [h.rest]) fun keeps => ?_
      exact follows_bind (follows_inRest _) fun _ => follows_ite (follows_pure true) ih

theorem follows_tryQueue (ask : Rest σ) (queue : EligibleQueue) :
    Lib.Follows (SameFor queue.runtime.id) (tryQueue ask queue) := by
  refine follows_ite ?_ ?_
  · exact follows_bind (follows_look fun visit other h => by rw [h.rest]) fun retries =>
      follows_tryRetries ask retries
  · exact follows_bind (follows_look fun visit other h => h.batch) fun batch =>
      follows_tryCandidates ask batch.candidates

/-- Reading a page or the availability of a type changes nothing. -/
structure Rest.Reads (ask : Rest σ) : Prop where
  available : ∀ s b s', Yields ask.available s b s' → s' = s
  listRunnable : ∀ id s runs s', Yields (ask.listRunnable id) s runs s' → s' = s

/-- **The queue can be selected: it offers a run, and one of the runs it offers is dispatched when
they are tried.** -/
def Selectable (ask : Rest σ) (limit : Nat) (visit : Visit σ) (queue : QueueRuntime) : Prop :=
  ∃ offer visit₁ visit₂, Yields (offerOf ask limit queue) visit (some offer) visit₁ ∧
    Yields (tryQueue ask offer) visit₁ true visit₂

/-- Only pages of these queues were read. -/
structure PagesOf (ids : Uuid → Prop) (visit visit' : Visit σ) : Prop where
  rest : visit'.rest = visit.rest
  attempted : visit'.attempted = visit.attempted
  credits : visit'.credits = visit.credits
  batches : ∀ k, ¬ ids k → visit'.batches k = visit.batches k

theorem PagesOf.same {ids : Uuid → Prop} (h : PagesOf ids visit visit') (hi : ¬ ids id) : SameFor id visit visit' :=
  ⟨h.rest.symm, h.attempted.symm, (h.batches id hi).symm⟩

variable {limit : Nat} {u : Unit}

theorem yields_loadCandidateBatch (hr : ask.Reads)
    (h : Yields (loadCandidateBatch ask limit id) visit u visit') : PagesOf (· = id) visit visit' := by
  simp only [loadCandidateBatch, yields_steps, yields_ite] at h
  obtain ⟨_, _, ⟨rfl, rfl⟩, h⟩ := h
  split at h
  · obtain ⟨-, rfl⟩ := h
    exact ⟨rfl, rfl, rfl, fun _ _ => rfl⟩
  obtain ⟨_, _, hl, rfl⟩ := h
  obtain ⟨_, hre, rfl⟩ := yields_inRest.1 hl
  exact ⟨hr.listRunnable _ _ _ _ hre, rfl, rfl, fun k hk => if_neg hk⟩

variable {queue : QueueRuntime}

theorem yields_offerOf (hr : ask.Reads) {offer : EligibleQueue}
    (h : Yields (offerOf ask limit queue) visit (some offer) visit') :
    offer.runtime = queue ∧ PagesOf (· = queue.id) visit visit' := by
  simp only [offerOf, yields_steps, yields_ite] at h
  obtain ⟨_, _, ⟨rfl, rfl⟩, h⟩ := h
  split at h
  · obtain ⟨_, _, ⟨rfl, rfl⟩, h⟩ := h
    split at h
    · obtain ⟨-, -, -, hn, -⟩ := h
      cases hn
    obtain ⟨ho, rfl⟩ := h
    cases ho
    exact ⟨rfl, rfl, rfl, rfl, fun _ _ => rfl⟩
  obtain ⟨_, _, hl, _, _, ⟨rfl, rfl⟩, h⟩ := h
  have hp := yields_loadCandidateBatch hr hl
  split at h
  · obtain ⟨-, -, -, hn, -⟩ := h
    cases hn
  obtain ⟨ho, rfl⟩ := h
  cases ho
  exact ⟨rfl, hp⟩

theorem follows_loadCandidateBatch (ask : Rest σ) (limit : Nat) :
    Lib.Follows (SameFor id) (loadCandidateBatch ask limit id) := by
  refine follows_bind (follows_look fun _ _ h => h.batch) fun batch =>
    follows_ite (follows_pure ()) (follows_bind (follows_inRest _) fun candidates => ?_)
  refine follows_write fun visit other h => ⟨h.rest, h.attempted, ?_⟩
  show (if id = id then _ else _) = (if id = id then _ else _)
  rw [if_pos rfl, if_pos rfl]

theorem follows_offerOf (ask : Rest σ) (limit : Nat) (queue : QueueRuntime) :
    Lib.Follows (SameFor queue.id) (offerOf ask limit queue) := by
  have hn : Lib.Follows (SameFor queue.id)
      (do write fun visit : Visit σ => visit.setCredit queue.id 0
          pure none : Proc (Visit σ) Error (Option EligibleQueue)) :=
    follows_bind (follows_write fun _ _ h => ⟨h.rest, h.attempted, h.batch⟩) fun _ => follows_pure none
  refine follows_bind (follows_look fun _ _ h => by rw [h.rest]) fun full => follows_ite ?_ ?_
  · exact follows_bind (follows_look fun _ _ h => by rw [h.rest, h.attempted]) fun _ =>
      follows_ite hn (follows_pure _)
  · exact follows_bind (follows_loadCandidateBatch ask limit) fun _ =>
      follows_bind (follows_look fun _ _ h => h.batch) fun _ => follows_ite hn (follows_pure _)

/-- A queue stays selectable while it finds the same things. -/
theorem Selectable.same {visit other : Visit σ} (h : Selectable ask limit visit queue) (hr : ask.Reads)
    (hsa : SameFor queue.id visit other) : Selectable ask limit other queue := by
  obtain ⟨offer, _, _, ho, htr⟩ := h
  obtain ⟨hq, -⟩ := yields_offerOf hr ho
  obtain ⟨other1, ho', hs1⟩ := follows_offerOf ask limit queue _ _ _ _ hsa ho
  rw [← hq] at hs1
  obtain ⟨other2, ht', -⟩ := follows_tryQueue ask offer _ _ _ _ hs1 htr
  exact ⟨offer, other1, other2, ho', ht'⟩

/-- **While every queue can be selected, all of them are collected, and each can be served.** -/
theorem collectEligible_all (hr : ask.Reads) {visit : Visit σ} (hn : (queues.map QueueRuntime.id).Nodup)
    (h : ∀ queue ∈ queues, Selectable ask limit visit queue) :
    ∃ eligible visit', Yields (collectEligible ask limit queues) visit eligible visit' ∧
      eligible.map EligibleQueue.runtime = queues ∧ PagesOf (· ∈ idsOf queues) visit visit' ∧
      ∀ queue ∈ eligible, ∃ visit₂, Yields (tryQueue ask queue) visit' true visit₂ := by
  induction queues generalizing visit with
  | nil =>
    exact ⟨[], visit, (yields_pure _ _ _ _).2 ⟨rfl, rfl⟩, rfl, ⟨rfl, rfl, rfl, fun _ _ => rfl⟩,
      fun _ hm => by cases hm⟩
  | cons queue rest ih =>
    rw [map_cons, nodup_cons] at hn
    have hq : queue.id ∉ idsOf rest := by
      intro hm
      obtain ⟨other, hot, hi⟩ := mem_idsOf.1 hm
      exact hn.1 (hi ▸ mem_map_of_mem hot)
    obtain ⟨offer, visit₁, _, ho, htr⟩ := h queue mem_cons_self
    obtain ⟨hru, hp⟩ := yields_offerOf hr ho
    have hre : ∀ other ∈ rest, Selectable ask limit visit₁ other := by
      intro other hot
      refine (h other (mem_cons_of_mem queue hot)).same hr (hp.same ?_)
      intro hi
      exact hq (hi ▸ mem_idsOf.2 ⟨other, hot, rfl⟩)
    obtain ⟨eligible, visit', hc, hma, hp', hse⟩ := ih hn.2 hre
    refine ⟨offer :: eligible, visit', ?_, ?_, ?_, ?_⟩
    · simp only [collectEligible, yields_steps]
      exact ⟨some offer, visit₁, ho, eligible, visit', hc, rfl, rfl⟩
    · rw [map_cons, hru, hma]
    · refine ⟨hp'.rest.trans hp.rest, hp'.attempted.trans hp.attempted,
        hp'.credits.trans hp.credits, fun k hk => ?_⟩
      have hk' : k ∉ idsOf rest ∧ k ≠ queue.id := by
        constructor
        · intro hm
          obtain ⟨other, hot, hi⟩ := mem_idsOf.1 hm
          exact hk (mem_idsOf.2 ⟨other, mem_cons_of_mem queue hot, hi⟩)
        · intro hi
          exact hk (mem_idsOf.2 ⟨queue, mem_cons_self, hi.symm⟩)
      rw [hp'.batches k hk'.1, hp.batches k hk'.2]
    · intro e he
      rcases mem_cons.1 he with rfl | he
      · rw [← hru] at hq
        obtain ⟨other2, ht', -⟩ := follows_tryQueue ask e _ _ _ _ (hp'.same hq) htr
        exact ⟨other2, ht'⟩
      · exact hse e he


variable {total : Int}

theorem yields_checkWeights_total {total' : Int}
    {eligible : List EligibleQueue} (h : Yields (checkWeights total eligible) visit total' visit') :
    total' = total + totalOf eligible ∧ visit' = visit := by
  induction eligible generalizing total with
  | nil =>
    obtain ⟨rfl, rfl⟩ := (yields_pure _ _ _ _).1 h
    exact ⟨(add_zero _).symm, rfl⟩
  | cons _ _ ih =>
    simp only [checkWeights, yields_steps] at h
    obtain ⟨_, _, ⟨-, rfl⟩, _, _, ⟨-, rfl⟩, _, _, ⟨-, rfl⟩, h⟩ := h
    obtain ⟨hto, hv⟩ := ih h
    refine ⟨?_, hv⟩
    rw [hto, add_assoc]
    rfl

theorem yields_subtractTotal {id : Uuid} (h : Yields (subtractTotal id total) visit u visit') :
    visit' = { visit with credits := charged id total visit.credits } := by
  simp only [subtractTotal, yields_steps] at h
  obtain ⟨_, _, ⟨rfl, rfl⟩, _, _, ⟨-, rfl⟩, rfl⟩ := h
  rfl

/-- Whether a queue is served does not depend on the credits. -/
theorem tryQueue_recredited {queue : EligibleQueue} {visit : Visit σ} {dispatched : Bool}
    (h : ∃ visit', Yields (tryQueue ask queue) visit dispatched visit') (credits : Uuid → Int) :
    ∃ visit', Yields (tryQueue ask queue) { visit with credits } dispatched visit' := by
  obtain ⟨_, h⟩ := h
  obtain ⟨other, ho, -⟩ := follows_tryQueue ask queue visit { visit with credits } _ _ ⟨rfl, rfl, rfl⟩ h
  exact ⟨other, ho⟩

variable {slots : Nat} {served : Option Uuid}

/-- A visit of an available type ends before it collects anything, or with the selection loop. -/
theorem yields_dispatchVisit (hr : ask.Reads) (hav : ¬ Yields ask.available visit.rest false visit.rest)
    (h : Yields (dispatchVisit ask slots limit queues) visit served visit') :
    (served = none ∧ visit'.credits = visit.credits) ∨
      ∃ eligible visit₁, Yields (collectEligible ask limit queues) visit eligible visit₁ ∧
        Yields (serve ask eligible.length (totalOf eligible) eligible) (addWeights eligible visit₁)
          served visit' := by
  simp only [dispatchVisit, yields_steps, yields_ite] at h
  obtain ⟨_, _, ⟨rfl, rfl⟩, h⟩ := h
  split at h
  · exact .inl ⟨h.1, congrArg Visit.credits h.2⟩
  obtain ⟨_, _, hre, h⟩ := h
  obtain ⟨_, has, rfl⟩ := yields_inRest.1 hre
  obtain rfl := hr.available _ _ _ has
  split at h
  next hfa => exact absurd (hfa ▸ has) hav
  obtain ⟨_, _, ⟨rfl, rfl⟩, h⟩ := h
  split at h
  · exact .inl ⟨h.1, congrArg Visit.credits h.2⟩
  obtain ⟨eligible, visit₁, hc, h⟩ := h
  refine .inr ⟨eligible, visit₁, hc, ?_⟩
  split at h
  · -- no queue offers anything
    rename_i he
    obtain ⟨rfl, rfl⟩ := h
    rw [isEmpty_iff.1 he]
    exact (yields_pure _ _ _ _).2 ⟨rfl, rfl⟩
  obtain ⟨_, _, hch, _, _, rfl, h⟩ := h
  obtain ⟨rfl, rfl⟩ := yields_checkWeights_total hch
  rwa [zero_add] at h

/-- When every eligible queue can be served, the one selected first is served. -/
theorem yields_serve {first : EligibleQueue} {others : List EligibleQueue} {n : Nat}
    (hse : ∀ queue ∈ first :: others, ∃ visit₁, Yields (tryQueue ask queue) visit true visit₁)
    (h : Yields (serve ask (n + 1) total (first :: others)) visit served visit') :
    served = some (selectFrom visit.credits first others).runtime.id ∧ visit'.credits =
        charged (selectFrom visit.credits first others).runtime.id total visit.credits := by
  simp only [serve, yields_steps, yields_ite] at h
  obtain ⟨_, visit, ⟨rfl, rfl⟩, _, _, hp, _, _, htr, h⟩ := h
  obtain rfl := yields_subtractTotal hp
  obtain ⟨_, hfo⟩ :=
    tryQueue_recredited (hse _ (selectFrom_mem visit.credits first others)) (charged _ total _)
  obtain ⟨rfl, rfl⟩ := htr.unique hfo
  obtain ⟨rfl, rfl⟩ := h
  exact ⟨rfl, ((tryQueue_ends ask _).returns rfl htr).symm⟩

/-- **While every queue can be selected, a visit of an available type is one round among all of
them, or it dispatches nothing and leaves the credits.** -/
theorem dispatchVisit_round (hr : ask.Reads) (hav : ¬ Yields ask.available visit.rest false visit.rest)
    (hn : (queues.map QueueRuntime.id).Nodup) (hal : ∀ queue ∈ queues, Selectable ask limit visit queue)
    (hidl : ∀ id ∉ idsOf queues, visit.credits id = 0)
    (h : Yields (dispatchVisit ask slots limit queues) visit served visit') :
    (served = none ∧ visit'.credits = visit.credits) ∨ ∃ id, served = some id ∧
        Round (shareOf queues) (idsOf queues) visit.credits id visit'.credits := by
  obtain h | ⟨eligible, _, hc, h⟩ := yields_dispatchVisit hr hav h
  · exact .inl h
  obtain ⟨_, _, hc', hm, hp, hse⟩ := collectEligible_all hr hn hal
  obtain ⟨rfl, rfl⟩ := hc.unique hc'
  cases eligible with
  | nil =>
    obtain ⟨rfl, rfl⟩ := (yields_pure _ _ _ _).1 h
    exact .inl ⟨rfl, hp.credits⟩
  | cons first others =>
    obtain ⟨hid, hcr⟩ := yields_serve (fun queue hq => tryQueue_recredited (hse queue hq) _) h
    have hi : eligibleIds (first :: others) = idsOf queues := congrArg idsOf hm
    have hro := round_of_selection hn (hm ▸ List.Sublist.refl _) (hi.symm ▸ hidl)
    rw [hi, ← hp.credits, ← hcr, hp.credits] at hro
    exact .inr ⟨_, hid, hp.credits ▸ hro⟩

end Scheduler

end Jobu
