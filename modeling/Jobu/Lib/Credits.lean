import Mathlib.Algebra.BigOperators.Group.Finset.Basic
import Mathlib.Algebra.Order.BigOperators.Group.Finset
import Mathlib.Tactic.Linarith
import Mathlib.Tactic.Ring

/-!
# Smooth weighted round robin

Some keys compete for rounds.  In a round every competitor gains its weight, one with the most credit
is chosen and pays the total, and who does not compete starts again from nothing.

Two things follow from the choice of the largest credit.  While the same keys compete with the same
weights, a credit never falls to minus the total, so after a whole number of totals every credit is
a multiple of the total that is too large to be negative, and the sum of all is zero
(`Rounds.period`).  And under any change of competitors and weights the sums over sets of keys stay
within a bound that grows with the size of the set (`Tame`): a set without the chosen key has at most
the average of the set with it.

  > `Rounds.period`, `Rounds.near`: exact shares after whole periods, and nearly exact ones between.
  > `Tame.round`, `Tame.reset`: the bound survives every round and every new start.
-/

namespace Lib

open Finset

variable {K : Type} {weight credit credit' : K → ℤ} {E Q : Finset K} {s : K}

/-- One round among the members of `E`, in which `s` is chosen. -/
structure Round (weight : K → ℤ) (E : Finset K) (credit : K → ℤ) (s : K) (credit' : K → ℤ) : Prop where
  mem : s ∈ E
  most : ∀ k ∈ E, credit k + weight k ≤ credit s + weight s
  pays : credit' s = credit s + weight s - ∑ k ∈ E, weight k
  gains : ∀ k ∈ E, k ≠ s → credit' k = credit k + weight k
  idle : ∀ k ∉ E, credit' k = 0

namespace Round

section

variable (h : Round weight E credit s credit')

include h

/-- A set of competitors without the chosen one gains its weights. -/
theorem sum_without {S : Finset K} (hS : S ⊆ E) (hs : s ∉ S) :
    ∑ k ∈ S, credit' k = ∑ k ∈ S, credit k + ∑ k ∈ S, weight k := by
  rw [← sum_add_distrib]
  refine sum_congr rfl fun k hk => h.gains k (hS hk) ?_
  intro hks
  exact hs (hks ▸ hk)

/-- A set of competitors has no more than so many times the largest credit. -/
theorem sum_le_card {S : Finset K} (hS : S ⊆ E) :
    ∑ k ∈ S, credit k + ∑ k ∈ S, weight k ≤ S.card * (credit s + weight s) := by
  rw [← sum_add_distrib, ← nsmul_eq_mul]
  exact sum_le_card_nsmul S _ _ fun k hk => h.most k (hS hk)

variable [DecidableEq K]

/-- A set of competitors with the chosen one also pays the total. -/
theorem sum_with {S : Finset K} (hS : S ⊆ E) (hs : s ∈ S) :
    ∑ k ∈ S, credit' k = ∑ k ∈ S, credit k + ∑ k ∈ S, weight k - ∑ k ∈ E, weight k := by
  have hr := h.sum_without (S := S.erase s) ((erase_subset s S).trans hS)
    (notMem_erase s S)
  rw [← add_sum_erase S credit' hs, ← add_sum_erase S credit hs, ← add_sum_erase S weight hs, hr, h.pays]
  ring

/-- What the competitors have together does not change. -/
theorem sum_all : ∑ k ∈ E, credit' k = ∑ k ∈ E, credit k := by
  rw [h.sum_with (Finset.Subset.refl E) h.mem]
  ring

/-- Only competitors have credit afterwards. -/
theorem sum_inter (S : Finset K) : ∑ k ∈ S, credit' k = ∑ k ∈ S ∩ E, credit' k := by
  refine (sum_subset inter_subset_left fun k hk hkE => ?_).symm
  exact h.idle k fun hE => hkE (mem_inter.2 ⟨hk, hE⟩)

end

end Round

variable [DecidableEq K]

/-! ## The same competitors all the time -/

/-- A number of rounds among the same keys, from nothing, with how often each key was chosen. -/
inductive Rounds (weight : K → ℤ) (Q : Finset K) : ℕ → (K → ℕ) → (K → ℤ) → Prop
  | start : Rounds weight Q 0 (fun _ => 0) (fun _ => 0)
  | next {m : ℕ} {chosen : K → ℕ} {credit credit' : K → ℤ} {s : K}
      (before : Rounds weight Q m chosen credit) (round : Round weight Q credit s credit') :
      Rounds weight Q (m + 1) (fun k => if k = s then chosen k + 1 else chosen k) credit'

namespace Rounds

variable {m : ℕ} {chosen : K → ℕ} {k : K}

theorem sum_eq_zero (h : Rounds weight Q m chosen credit) : ∑ k ∈ Q, credit k = 0 := by
  induction h with
  | start => exact sum_const_zero
  | next _ round ih => rw [round.sum_all, ih]

/-- A credit is what its key was due less what it got. -/
theorem credit_eq (h : Rounds weight Q m chosen credit) (hk : k ∈ Q) :
    credit k = m * weight k - (∑ k ∈ Q, weight k) * chosen k := by
  induction h with
  | start => simp
  | @next m chosen _ credit' s _ round ih =>
    show credit' k = ((m + 1 : ℕ) : ℤ) * weight k -
      (∑ k ∈ Q, weight k) * ((if k = s then chosen k + 1 else chosen k : ℕ) : ℤ)
    by_cases hks : k = s
    · subst hks
      rw [round.pays, ih, if_pos rfl]
      push_cast
      ring
    rw [round.gains k hk hks, ih, if_neg hks]
    push_cast
    ring

/-- The largest of the raised credits is positive, so the chosen key keeps more than minus the
total. -/
theorem neg_total_lt (hw : ∀ k ∈ Q, 0 < weight k) (h : Rounds weight Q m chosen credit)
    (hk : k ∈ Q) : -∑ k ∈ Q, weight k < credit k := by
  have hto : 0 < ∑ k ∈ Q, weight k := sum_pos hw ⟨k, hk⟩
  induction h with
  | start => exact neg_lt_zero.2 hto
  | @next m _ credit _ s before round _ =>
    by_cases hks : k = s
    · subst hks
      have hc := round.sum_le_card (Finset.Subset.refl Q)
      rw [before.sum_eq_zero, zero_add] at hc
      -- the average of the raised credits is positive
      have hp : 0 < credit k + weight k := by
        by_contra hn
        have : (Q.card : ℤ) * (credit k + weight k) ≤ 0 :=
          mul_nonpos_of_nonneg_of_nonpos (Int.natCast_nonneg _) (not_lt.1 hn)
        linarith
      rw [round.pays]
      linarith
    · rw [round.gains k hk hks]
      have := hw k hk
      linarith

/-- **After a whole number of totals every key was chosen exactly as often as its weight says, and
no credit is left.** -/
theorem period (hw : ∀ k ∈ Q, 0 < weight k) (h : Rounds weight Q m chosen credit) {n : ℕ}
    (hm : (m : ℤ) = n * ∑ k ∈ Q, weight k) (hk : k ∈ Q) :
    (chosen k : ℤ) = n * weight k ∧ credit k = 0 := by
  have hto : 0 < ∑ k ∈ Q, weight k := sum_pos hw ⟨k, hk⟩
  have hmu : ∀ k ∈ Q, credit k = (∑ k ∈ Q, weight k) * (n * weight k - chosen k) := by
    intro k hk
    rw [h.credit_eq hk, hm]
    ring
  -- a multiple of the total above minus one total is not negative
  have hn : ∀ k ∈ Q, 0 ≤ credit k := by
    intro k hk
    have hl := h.neg_total_lt hw hk
    rw [hmu k hk] at hl ⊢
    have : -1 < n * weight k - chosen k := by
      by_contra hle
      have := mul_le_mul_of_nonneg_left (not_lt.1 hle) hto.le
      linarith
    exact mul_nonneg hto.le (by linarith)
  have hz : credit k = 0 := (sum_eq_zero_iff_of_nonneg hn).1 h.sum_eq_zero k hk
  refine ⟨?_, hz⟩
  have hp := hmu k hk
  rw [hz] at hp
  have := (mul_eq_zero.1 hp.symm).resolve_left hto.ne'
  linarith

/-- **At any time a key was chosen about as often as its share says: the difference, times the
total, is below the total times the number of keys.** -/
theorem near (hw : ∀ k ∈ Q, 0 < weight k) (h : Rounds weight Q m chosen credit) (hk : k ∈ Q) :
    |(∑ k ∈ Q, weight k) * chosen k - m * weight k| < (∑ k ∈ Q, weight k) * Q.card := by
  have hto : 0 < ∑ k ∈ Q, weight k := sum_pos hw ⟨k, hk⟩
  have hl := h.neg_total_lt hw hk
  -- the others have more than minus one total each
  have ho : -(((Q.card : ℤ) - 1) * ∑ k ∈ Q, weight k) ≤ ∑ j ∈ Q.erase k, credit j := by
    have hle := card_nsmul_le_sum (Q.erase k) credit (-∑ k ∈ Q, weight k) fun j hj =>
      (h.neg_total_lt hw (mem_of_mem_erase hj)).le
    rw [card_erase_of_mem hk, nsmul_eq_mul, Nat.cast_sub (card_pos.2 ⟨k, hk⟩)] at hle
    push_cast at hle
    linarith
  have hsu := h.sum_eq_zero
  rw [← add_sum_erase Q credit hk] at hsu
  have hc : (1 : ℤ) ≤ Q.card := by exact_mod_cast card_pos.2 ⟨k, hk⟩
  have he := h.credit_eq hk
  have hT : (∑ k ∈ Q, weight k) ≤ (∑ k ∈ Q, weight k) * Q.card := le_mul_of_one_le_right hto.le hc
  rw [abs_lt]
  constructor
  · have hu : credit k ≤ ((Q.card : ℤ) - 1) * ∑ k ∈ Q, weight k := by linarith
    have : ((Q.card : ℤ) - 1) * ∑ k ∈ Q, weight k = (∑ k ∈ Q, weight k) * Q.card - ∑ k ∈ Q, weight k := by ring
    linarith
  · linarith

end Rounds

/-! ## Any competitors at any time -/

/-- How far a set of so many of at most `N` keys can be from balance, in totals. -/
def spread (N n : ℕ) : ℤ := n * (2 * N - n)

theorem spread_mono {N n n' : ℕ} (h : n ≤ n') (hN : n' ≤ N) : spread N n ≤ spread N n' := by
  have h₁ : (n : ℤ) ≤ n' := by exact_mod_cast h
  have h₂ : (n' : ℤ) ≤ N := by exact_mod_cast hN
  have : 0 ≤ ((n' : ℤ) - n) * (2 * N - n - n') := mul_nonneg (by linarith) (by linarith)
  unfold spread
  nlinarith

/-- Every set of the keys is within its spread of balance. -/
structure Tame (N : ℕ) (W : ℤ) (Q : Finset K) (credit : K → ℤ) : Prop where
  above : ∀ S ⊆ Q, ∑ k ∈ S, credit k ≤ spread N S.card * W
  below : ∀ S ⊆ Q, -(spread N S.card * W) ≤ ∑ k ∈ S, credit k

namespace Tame

variable {N : ℕ} {W : ℤ} {Q' : Finset K}

theorem spread_mul_mono (hW : 0 ≤ W) {n n' : ℕ} (h : n ≤ n') (hN : n' ≤ N) : spread N n * W ≤ spread N n' * W :=
  mul_le_mul_of_nonneg_right (spread_mono h hN) hW

omit [DecidableEq K] in
theorem bound (h : Tame N W Q credit) {k : K} (hk : k ∈ Q) : |credit k| ≤ (2 * N - 1) * W := by
  have hab := h.above {k} (singleton_subset_iff.2 hk)
  have hbe := h.below {k} (singleton_subset_iff.2 hk)
  rw [sum_singleton, card_singleton] at hab hbe
  have ho : spread N 1 = 2 * N - 1 := by
    unfold spread
    push_cast
    ring
  rw [ho] at hab hbe
  exact abs_le.2 ⟨hbe, hab⟩

omit [DecidableEq K] in
/-- **Keys may come and go, and any of them may start again from nothing.** -/
theorem reset (hW : 0 ≤ W) (hN : Q'.card ≤ N) (h : Tame N W Q credit)
    (hke : ∀ k ∈ Q', credit' k = 0 ∨ (k ∈ Q ∧ credit' k = credit k)) : Tame N W Q' credit' := by
  -- the sum over a set is the old sum over those of it that did not start again
  have hkee : ∀ S ⊆ Q', ∃ T ⊆ Q, T.card ≤ S.card ∧ ∑ k ∈ S, credit' k = ∑ k ∈ T, credit k := by
    intro S hS
    refine ⟨S.filter fun k => credit' k ≠ 0, ?_, card_filter_le _ _, ?_⟩
    · intro k hk
      obtain ⟨hkS, hn⟩ := mem_filter.1 hk
      exact ((hke k (hS hkS)).resolve_left hn).1
    · rw [← sum_filter_ne_zero]
      refine sum_congr rfl fun k hk => ?_
      obtain ⟨hkS, hn⟩ := mem_filter.1 hk
      exact ((hke k (hS hkS)).resolve_left hn).2
  have hc : ∀ S ⊆ Q', S.card ≤ N := fun S hS => (card_le_card hS).trans hN
  constructor
  · intro S hS
    obtain ⟨T, hT, hle, hsu⟩ := hkee S hS
    rw [hsu]
    exact (h.above T hT).trans (spread_mul_mono hW hle (hc S hS))
  · intro S hS
    obtain ⟨T, hT, hle, hsu⟩ := hkee S hS
    rw [hsu]
    exact (neg_le_neg (spread_mul_mono hW hle (hc S hS))).trans (h.below T hT)

/-- The upper bound of a set of competitors after a round.  Without the chosen key the set has at
most so many times the largest credit, and with it no more than before. -/
theorem round_above (hN : E.card ≤ N) (h : Tame N W Q credit) (hE : E ⊆ Q)
    (hw : ∀ k, 0 ≤ weight k) (hto : ∑ k ∈ E, weight k ≤ W)
    (hr : Round weight E credit s credit') {S : Finset K} (hS : S ⊆ E) :
    ∑ k ∈ S, credit' k ≤ spread N S.card * W := by
  have hW : 0 ≤ W := (sum_nonneg fun k _ => hw k).trans hto
  by_cases hs : s ∈ S
  · rw [hr.sum_with hS hs]
    have hle := sum_le_sum_of_subset_of_nonneg hS fun k _ _ => hw k
    have := h.above S (hS.trans hE)
    linarith
  have hi : insert s S ⊆ E := insert_subset hr.mem hS
  have hc : (insert s S).card = S.card + 1 := card_insert_of_notMem hs
  have hbo := h.above (insert s S) (hi.trans hE)
  rw [sum_insert hs, hc] at hbo
  have hm := hr.sum_le_card hS
  rw [hr.sum_without hS hs]
  have hl : S.card + 1 ≤ N := hc ▸ (card_le_card hi).trans hN
  have hse : ∑ k ∈ S, weight k + weight s ≤ W := by
    have := sum_le_sum_of_subset_of_nonneg hi fun k _ _ => hw k
    rw [sum_insert hs] at this
    linarith
  -- `x` is the new sum and `a` the largest raised credit: `x ≤ n a` and `x + a ≤ spread (n + 1) W + W`
  generalize hx : ∑ k ∈ S, credit k + ∑ k ∈ S, weight k = x at hm ⊢
  generalize ha : credit s + weight s = a at hm
  have hxa : x + a ≤ spread N (S.card + 1) * W + W := by linarith
  have hn : (0 : ℤ) ≤ S.card := Int.natCast_nonneg _
  have hN' : (S.card : ℤ) + 1 ≤ N := by exact_mod_cast hl
  have hmu : ((S.card : ℤ) + 1) * x ≤ S.card * (spread N (S.card + 1) * W + W) := by
    have := mul_le_mul_of_nonneg_left hxa hn
    linarith
  have hg : S.card * (spread N (S.card + 1) * W + W) ≤ ((S.card : ℤ) + 1) * (spread N S.card * W) := by
    unfold spread
    push_cast
    have : 0 ≤ (S.card : ℤ) * S.card * W := mul_nonneg (mul_nonneg hn hn) hW
    nlinarith
  exact le_of_mul_le_mul_left (hmu.trans hg) (by linarith)

/-- The lower bound.  With the chosen key the set has what all have less at most so many times the
largest credit, and what the others of it had plus the largest credit less the total. -/
theorem round_below (h : Tame N W Q credit) (hE : E ⊆ Q) (hw : ∀ k, 0 ≤ weight k) (hto : ∑ k ∈ E, weight k ≤ W)
    (hr : Round weight E credit s credit') {S : Finset K} (hS : S ⊆ E) :
    -(spread N S.card * W) ≤ ∑ k ∈ S, credit' k := by
  by_cases hs : s ∈ S
  · have hal := h.below E hE
    rw [← hr.sum_all, ← sum_sdiff hS] at hal
    have hm := hr.sum_le_card (sdiff_subset (s := E) (t := S))
    rw [← hr.sum_without sdiff_subset (fun hme => (mem_sdiff.1 hme).2 hs)] at hm
    have hre := h.below (S.erase s) (((erase_subset s S).trans hS).trans hE)
    have hse : ∑ k ∈ S.erase s, credit k + (credit s + weight s) - ∑ k ∈ E, weight k ≤ ∑ k ∈ S, credit' k := by
      rw [hr.sum_with hS hs, ← add_sum_erase S credit hs, ← add_sum_erase S weight hs]
      have := sum_nonneg fun k (_ : k ∈ S.erase s) => hw k
      linarith
    have hp : 0 < S.card := card_pos.2 ⟨s, hs⟩
    have hc : E.card = S.card + (E \ S).card := by
      rw [card_sdiff_of_subset hS]
      have := card_le_card hS
      omega
    rw [card_erase_of_mem hs] at hre
    rw [hc] at hal
    generalize hx : ∑ k ∈ S, credit' k = x at hal hse ⊢
    generalize ha : credit s + weight s = a at hm hse
    generalize hq : (E \ S).card = q at hal hm
    obtain ⟨n, hn⟩ : ∃ n, S.card = n + 1 := ⟨S.card - 1, by omega⟩
    rw [hn] at hal hre ⊢
    rw [Nat.add_sub_cancel] at hre
    have hq0 : (0 : ℤ) ≤ q := Int.natCast_nonneg _
    have hW : 0 ≤ W := (sum_nonneg fun k _ => hw k).trans hto
    -- `x ≥ - spread (n + 1 + q) W - q a` and `x ≥ - spread n W + a - W`
    have h₁ : -(spread N (n + 1 + q) * W) ≤ x + q * a := by linarith
    have h₂ : -(spread N n * W) + a - W ≤ x := by linarith
    have hmu : -(spread N (n + 1 + q) * W) - q * (spread N n * W) - q * W ≤ ((q : ℤ) + 1) * x := by
      have := mul_le_mul_of_nonneg_left h₂ hq0
      linarith
    have hg : ((q : ℤ) + 1) * -(spread N (n + 1) * W) ≤
        -(spread N (n + 1 + q) * W) - q * (spread N n * W) - q * W := by
      unfold spread
      push_cast
      have : 0 ≤ (q : ℤ) * q * W := mul_nonneg (mul_nonneg hq0 hq0) hW
      nlinarith
    exact le_of_mul_le_mul_left (hg.trans hmu) (by linarith)
  · rw [hr.sum_without hS hs]
    have := h.below S (hS.trans hE)
    have := sum_nonneg fun k (_ : k ∈ S) => hw k
    linarith

/-- **A round keeps every set within its spread.** -/
theorem round (hN : Q.card ≤ N) (h : Tame N W Q credit) (hE : E ⊆ Q) (hw : ∀ k, 0 ≤ weight k)
    (hto : ∑ k ∈ E, weight k ≤ W) (hr : Round weight E credit s credit') :
    Tame N W Q credit' := by
  have hW : 0 ≤ W := (sum_nonneg fun k _ => hw k).trans hto
  have hNE : E.card ≤ N := (card_le_card hE).trans hN
  have hc : ∀ S ⊆ Q, spread N (S ∩ E).card * W ≤ spread N S.card * W := by
    intro S hS
    exact spread_mul_mono hW (card_le_card inter_subset_left)
      ((card_le_card hS).trans hN)
  constructor
  · intro S hS
    rw [hr.sum_inter]
    exact (round_above hNE h hE hw hto hr inter_subset_right).trans (hc S hS)
  · intro S hS
    rw [hr.sum_inter]
    exact (neg_le_neg (hc S hS)).trans
      (round_below h hE hw hto hr inter_subset_right)

end Tame

end Lib
