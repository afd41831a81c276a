import Mathlib.Data.List.Perm.Basic
import Mathlib.Data.List.Nodup

/-!
# Tickets

A ticket is issued to a start that is under way (`opened`).  The start returns it (`started`) or gives
it up (`abandoned`).  Meanwhile the ticket waits, or somebody owes its end, or it has been settled.

Every ticket is in one place and its start in one state (`Kept`), and no ticket is settled before its
start has returned it.
-/

namespace Lib

open List

structure Tickets where
  issued : List Nat := []
  opened : List Nat := []
  started : List Nat := []
  abandoned : List Nat := []
  waiting : List Nat := []
  owed : List Nat := []
  settled : List Nat := []

namespace Tickets

/-- Each ticket is in one place. -/
structure Kept (t : Tickets) : Prop where
  once : t.issued.Nodup
  placed : ∀ n, t.waiting.count n + t.owed.count n + t.settled.count n + t.abandoned.count n = t.issued.count n
  answered : ∀ n, t.opened.count n + t.started.count n + t.abandoned.count n = t.issued.count n
  inOrder : ∀ n ∈ t.settled, n ∈ t.started

theorem kept_none : Kept {} := ⟨List.nodup_nil, fun _ => rfl, fun _ => rfl, fun _ h => nomatch h⟩

variable {t : Tickets} {n : Nat}

section

variable (h : Kept t)

include h

theorem Kept.issued_le (n : Nat) : t.issued.count n ≤ 1 := List.nodup_iff_count_le_one.1 h.once n

/-! ## What each place means -/

/-- No ticket is settled twice. -/
theorem Kept.at_most_one (n : Nat) : t.settled.count n ≤ 1 := by
  have := h.placed n
  have := h.issued_le n
  omega

/-- A ticket that is held somewhere and whose start is over has been returned. -/
theorem Kept.started_of_held (hh : n ∈ t.waiting ∨ n ∈ t.owed) (ho : n ∉ t.opened) : n ∈ t.started := by
  have hp := h.placed n
  have han := h.answered n
  have hi := h.issued_le n
  have hh : 0 < t.waiting.count n + t.owed.count n := by
    rcases hh with hm | hm
    · have := count_pos_iff.2 hm
      omega
    · have := count_pos_iff.2 hm
      omega
  have ho := count_eq_zero_of_not_mem ho
  exact count_pos_iff.1 (by omega)

theorem Kept.not_settled_of_held (hh : n ∈ t.waiting ∨ n ∈ t.owed) : n ∉ t.settled := by
  intro hse
  have hp := h.placed n
  have hi := h.issued_le n
  have hse := count_pos_iff.2 hse
  rcases hh with hm | hm
  · have := count_pos_iff.2 hm
    omega
  · have := count_pos_iff.2 hm
    omega

theorem Kept.not_owed_of_waiting (hw : n ∈ t.waiting) : n ∉ t.owed := by
  intro ho
  have hp := h.placed n
  have hi := h.issued_le n
  have hw := count_pos_iff.2 hw
  have ho := count_pos_iff.2 ho
  omega

theorem Kept.not_opened_of_started (hst : n ∈ t.started) : n ∉ t.opened := by
  intro ho
  have han := h.answered n
  have hi := h.issued_le n
  have hst := count_pos_iff.2 hst
  have ho := count_pos_iff.2 ho
  omega

theorem Kept.not_settled_of_abandoned (hab : n ∈ t.abandoned) : n ∉ t.settled := by
  intro hse
  have hp := h.placed n
  have hi := h.issued_le n
  have hab := count_pos_iff.2 hab
  have hse := count_pos_iff.2 hse
  omega

theorem Kept.issued_of_opened (ho : n ∈ t.opened) : n ∈ t.issued := by
  have han := h.answered n
  have ho := count_pos_iff.2 ho
  exact count_pos_iff.1 (by omega)

theorem Kept.issued_of_waiting (hw : n ∈ t.waiting) : n ∈ t.issued := by
  have hp := h.placed n
  have hw := count_pos_iff.2 hw
  exact count_pos_iff.1 (by omega)

theorem Kept.issued_of_started (hst : n ∈ t.started) : n ∈ t.issued := by
  have han := h.answered n
  have hst := count_pos_iff.2 hst
  exact count_pos_iff.1 (by omega)

theorem Kept.opened_once (n : Nat) : t.opened.count n ≤ 1 := by
  have han := h.answered n
  have hi := h.issued_le n
  omega

/-- A ticket that was returned is settled once or held somewhere. -/
theorem Kept.settled_or_held (hst : n ∈ t.started) : t.settled.count n = 1 ∨ n ∈ t.waiting ∨ n ∈ t.owed := by
  have hp := h.placed n
  have han := h.answered n
  have hi := h.issued_le n
  have hst := count_pos_iff.2 hst
  by_cases hw : n ∈ t.waiting
  · exact .inr (.inl hw)
  by_cases ho : n ∈ t.owed
  · exact .inr (.inr ho)
  have := count_eq_zero_of_not_mem hw
  have := count_eq_zero_of_not_mem ho
  exact .inl (by omega)

/-! ## What can happen -/

variable {waiting owed opened : List Nat}

theorem Kept.issue (hn : n ∉ t.issued) (hw : waiting.Perm (n :: t.waiting)) :
    Kept { t with issued := t.issued ++ [n], opened := n :: t.opened, waiting } where
  once := by
    refine nodup_append.2 ⟨h.once, nodup_singleton n, ?_⟩
    intro a ha b hb
    obtain rfl := mem_singleton.1 hb
    exact fun he => hn (he ▸ ha)
  placed k := by
    have hp := h.placed k
    show waiting.count k + t.owed.count k + t.settled.count k + t.abandoned.count k = (t.issued ++ [n]).count k
    rw [hw.count_eq, count_cons, count_append, count_singleton]
    omega
  answered k := by
    have han := h.answered k
    show (n :: t.opened).count k + t.started.count k + t.abandoned.count k = (t.issued ++ [n]).count k
    rw [count_cons, count_append, count_singleton]
    omega
  inOrder := h.inOrder

theorem Kept.start (ho : t.opened.Perm (n :: opened)) : Kept { t with opened, started := t.started ++ [n] } where
  once := h.once
  placed := h.placed
  answered k := by
    have han := h.answered k
    rw [ho.count_eq, count_cons] at han
    show opened.count k + (t.started ++ [n]).count k + t.abandoned.count k = t.issued.count k
    rw [count_append, count_singleton]
    omega
  inOrder k hk := mem_append_left _ (h.inOrder k hk)

theorem Kept.abandon (ho : t.opened.Perm (n :: opened)) (hw : t.waiting.Perm (n :: waiting)) :
    Kept { t with opened, waiting, abandoned := t.abandoned ++ [n] } where
  once := h.once
  placed k := by
    have hp := h.placed k
    rw [hw.count_eq, count_cons] at hp
    show waiting.count k + t.owed.count k + t.settled.count k + (t.abandoned ++ [n]).count k = t.issued.count k
    rw [count_append, count_singleton]
    omega
  answered k := by
    have han := h.answered k
    rw [ho.count_eq, count_cons] at han
    show opened.count k + t.started.count k + (t.abandoned ++ [n]).count k = t.issued.count k
    rw [count_append, count_singleton]
    omega
  inOrder := h.inOrder

theorem Kept.move (hh : (t.waiting ++ t.owed).Perm (waiting ++ owed)) : Kept { t with waiting, owed } where
  once := h.once
  placed k := by
    have hp := h.placed k
    have hc := hh.count_eq k
    rw [count_append, count_append] at hc
    show waiting.count k + owed.count k + t.settled.count k + t.abandoned.count k = t.issued.count k
    omega
  answered := h.answered
  inOrder := h.inOrder

theorem Kept.settle (hh : (t.waiting ++ t.owed).Perm (n :: (waiting ++ owed))) (ho : n ∉ t.opened) :
    Kept { t with waiting, owed, settled := t.settled ++ [n] } where
  once := h.once
  placed k := by
    have hp := h.placed k
    have hc := hh.count_eq k
    rw [count_append, count_cons, count_append] at hc
    show waiting.count k + owed.count k + (t.settled ++ [n]).count k + t.abandoned.count k = t.issued.count k
    rw [count_append, count_singleton]
    omega
  answered := h.answered
  inOrder k hk := by
    rcases mem_append.1 hk with hk | hk
    · exact h.inOrder k hk
    obtain rfl := mem_singleton.1 hk
    have hm : k ∈ t.waiting ++ t.owed := hh.mem_iff.2 mem_cons_self
    exact h.started_of_held (mem_append.1 hm) ho

end

end Tickets

end Lib
