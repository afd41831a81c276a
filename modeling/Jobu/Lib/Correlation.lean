import Mathlib.Data.Finset.Card
import Mathlib.Data.Finset.Sort
import Mathlib.Logic.Relation

/-!
# Correlating requests with their outcomes

Requests are numbered as they are issued, and each waits until it gets an outcome, is withdrawn, or
the correlation closes; those that wait then are told one after the other that they failed.

Every number that was issued is in exactly one place: it waits, it is withdrawn, it is owed a failure,
or it got its outcome (`Accounted`).  So no number gets two outcomes, and once nothing is owed any
more each number that was not withdrawn has got one.

The calls that ask for a number are told one, or that they get none (`Calls`); what a call is told is
what it got (`Calls.Fair`).
-/

namespace Lib

open List Finset

/-- A correlation; `settled` are the numbers that got an outcome, in their order. -/
structure Correlation where
  issued : Nat := 0
  waiting : Finset Nat := ∅
  closed : Bool := false
  owed : List Nat := []
  settled : List Nat := []
  withdrawn : List Nat := []

namespace Correlation

/-- What can happen to a correlation with so many places. -/
inductive Step (limit : Nat) : Correlation → Correlation → Prop
  | issue {c : Correlation} (open_ : c.closed = false) (room : c.waiting.card < limit) :
      Step limit c { c with issued := c.issued + 1, waiting := insert (c.issued + 1) c.waiting }
  | settle {c : Correlation} {n : Nat} (waits : n ∈ c.waiting) :
      Step limit c { c with waiting := c.waiting.erase n, settled := c.settled ++ [n] }
  | withdraw {c : Correlation} {n : Nat} (open_ : c.closed = false) (waits : n ∈ c.waiting) :
      Step limit c { c with waiting := c.waiting.erase n, withdrawn := c.withdrawn ++ [n] }
  | close {c : Correlation} (open_ : c.closed = false) :
      Step limit c { c with waiting := ∅, closed := true, owed := c.waiting.sort ++ c.owed }
  | fail {c : Correlation} {n : Nat} {rest : List Nat} (owed : c.owed = n :: rest) :
      Step limit c { c with owed := rest, settled := c.settled ++ [n] }

/-- Any number of steps. -/
abbrev Steps (limit : Nat) : Correlation → Correlation → Prop := Relation.ReflTransGen (Step limit)

/-- In how many places a number is. -/
def places (c : Correlation) (n : Nat) : Nat :=
  c.settled.count n + c.withdrawn.count n + c.owed.count n + if n ∈ c.waiting then 1 else 0

/-- Every number that was issued is in one place. -/
structure Accounted (limit : Nat) (c : Correlation) : Prop where
  places : ∀ n, c.places n = if 1 ≤ n ∧ n ≤ c.issued then 1 else 0
  room : c.waiting.card ≤ limit
  idle : c.closed = true → c.waiting = ∅

variable {limit : Nat} {c c' : Correlation}

theorem accounted_fresh : Accounted limit {} where
  places n := by
    show Correlation.places {} n = if 1 ≤ n ∧ n ≤ 0 then 1 else 0
    rw [if_neg (by omega)]
    rfl
  room := Nat.zero_le _
  idle _ := rfl

variable {n : Nat}

/-- A number that waits was issued and is nowhere else. -/
theorem Accounted.waiting_issued (h : Accounted limit c) (hn : n ∈ c.waiting) : 1 ≤ n ∧ n ≤ c.issued := by
  by_contra hno
  have := h.places n
  rw [if_neg hno, Correlation.places, if_pos hn] at this
  omega

/-- A number moves from those that wait to the end of a list. -/
theorem count_moved {waiting : Finset Nat} (hn : n ∈ waiting) (list : List Nat) (k : Nat) :
    (list ++ [n]).count k + (if k ∈ waiting.erase n then 1 else 0) =
      list.count k + if k ∈ waiting then 1 else 0 := by
  rw [count_append, count_singleton]
  by_cases hk : k = n
  · subst hk
    simp [hn]
  · simp [hk, Ne.symm hk]

/-- **Each step keeps every number in its one place.** -/
theorem Step.accounted (hstep : Step limit c c') (h : Accounted limit c) : Accounted limit c' := by
  cases hstep with
  | issue ho hr =>
    have hne : c.issued + 1 ∉ c.waiting := by
      intro hm
      have := (h.waiting_issued hm).2
      omega
    refine ⟨fun n => ?_, ?_, fun hc => by rw [ho] at hc; cases hc⟩
    · have hp := h.places n
      simp only [Correlation.places] at hp ⊢
      by_cases hn : n = c.issued + 1
      · subst hn
        rw [if_neg hne, if_neg (by omega)] at hp
        rw [if_pos (mem_insert_self _ _), if_pos (by omega)]
        omega
      have hm : n ∈ insert (c.issued + 1) c.waiting ↔ n ∈ c.waiting := by simp [hn]
      simp only [hm]
      rw [hp]
      congr 1
      exact propext ⟨fun _ => by omega, fun _ => by omega⟩
    · rw [card_insert_of_notMem hne]
      exact hr
  | @settle n hw =>
    refine ⟨fun k => ?_, (card_erase_le).trans h.room, fun hc => by rw [h.idle hc]; rfl⟩
    have hp := h.places k
    have hmo := count_moved hw c.settled k
    simp only [Correlation.places] at hp ⊢
    omega
  | @withdraw n ho hw =>
    refine ⟨fun k => ?_, (card_erase_le).trans h.room, fun hc => by rw [h.idle hc]; rfl⟩
    have hp := h.places k
    have hmo := count_moved hw c.withdrawn k
    simp only [Correlation.places] at hp ⊢
    omega
  | close =>
    refine ⟨fun k => ?_, Nat.zero_le _, fun _ => rfl⟩
    have hp := h.places k
    have hco : c.waiting.sort.count k = if k ∈ c.waiting then 1 else 0 := by
      by_cases hk : k ∈ c.waiting
      · rw [if_pos hk]
        exact count_eq_one_of_mem (sort_nodup _ _) ((mem_sort _).2 hk)
      · rw [if_neg hk]
        exact count_eq_zero_of_not_mem fun hm => hk ((mem_sort _).1 hm)
    simp only [Correlation.places] at hp ⊢
    rw [← hp, count_append, hco, if_neg (notMem_empty k)]
    omega
  | @fail n rest how =>
    refine ⟨fun k => ?_, h.room, h.idle⟩
    have hp := h.places k
    simp only [Correlation.places, how] at hp ⊢
    rw [← hp, count_append, count_singleton, count_cons]
    by_cases hk : n = k
    · simp [hk]
      omega
    · simp [hk]

theorem Steps.accounted (hst : Steps limit c c') (h : Accounted limit c) : Accounted limit c' := by
  induction hst with
  | refl => exact h
  | tail _ hstep ih => exact hstep.accounted ih

/-- No number gets two outcomes, or one beside a withdrawal. -/
theorem Accounted.at_most_one (h : Accounted limit c) (n : Nat) : c.settled.count n + c.withdrawn.count n ≤ 1 := by
  have hp := h.places n
  have hle : (if 1 ≤ n ∧ n ≤ c.issued then 1 else 0) ≤ 1 := by split <;> omega
  rw [Correlation.places] at hp
  omega

/-- Only numbers that were issued get an outcome. -/
theorem Accounted.settled_issued (h : Accounted limit c) (hn : n ∈ c.settled) : 1 ≤ n ∧ n ≤ c.issued := by
  have hc := count_pos_iff.2 hn
  have := h.places n
  rw [Correlation.places] at this
  by_contra hno
  rw [if_neg hno] at this
  omega

/-- **When the correlation is closed and owes nothing, each number has got its outcome or was
withdrawn.** -/
theorem Accounted.exactly_one (h : Accounted limit c) (hc : c.closed = true)
    (ho : c.owed = []) (hn : 1 ≤ n ∧ n ≤ c.issued) :
    c.settled.count n + c.withdrawn.count n = 1 := by
  have := h.places n
  rw [if_pos hn, Correlation.places, ho, h.idle hc, if_neg (notMem_empty n), count_nil] at this
  omega

end Correlation

/-- Calls, numbered as they are made: what each is told or will be told, and the numbers given. -/
structure Calls where
  made : Nat := 0
  told : List (Nat × Option Nat) := []
  given : List (Nat × Nat) := []

namespace Calls

/-- Each call is told one thing, and that is what it got. -/
structure Fair (calls : Calls) : Prop where
  once : (calls.told.map Prod.fst).Nodup
  toldMade : ∀ call ∈ calls.told, call.1 < calls.made
  givenMade : ∀ call ∈ calls.given, call.1 < calls.made
  agree : ∀ token answer, (token, answer) ∈ calls.told → ∀ n, (token, n) ∈ calls.given ↔ answer = some n

theorem fair_fresh : Fair {} where
  once := List.nodup_nil
  toldMade _ h := nomatch h
  givenMade _ h := nomatch h
  agree _ _ h := nomatch h

variable {made : Nat} {told told' : List (Nat × Option Nat)} {given : List (Nat × Nat)}

theorem Fair.perm (h : Fair ⟨made, told, given⟩) (hp : told.Perm told') : Fair ⟨made, told', given⟩ where
  once := (hp.map Prod.fst).nodup h.once
  toldMade call hc := h.toldMade call (hp.mem_iff.2 hc)
  givenMade := h.givenMade
  agree token answer hc := h.agree token answer (hp.mem_iff.2 hc)

theorem Fair.make (h : Fair ⟨made, told, given⟩) : Fair ⟨made + 1, (made, none) :: told, given⟩ where
  once := by
    refine nodup_cons.2 ⟨?_, h.once⟩
    intro hm
    obtain ⟨call, hc, hma⟩ := mem_map.1 hm
    have hl : call.1 < made := h.toldMade call hc
    change call.1 = made at hma
    omega
  toldMade call hc := by
    rcases mem_cons.1 hc with rfl | hc
    · exact Nat.lt_succ_self made
    · exact Nat.lt_succ_of_lt (h.toldMade call hc)
  givenMade call hc := Nat.lt_succ_of_lt (h.givenMade call hc)
  agree token answer hc n := by
    rcases mem_cons.1 hc with hn | hc
    · obtain ⟨rfl, rfl⟩ := Prod.mk.inj hn
      constructor
      · intro hg
        exact absurd (h.givenMade _ hg) (Nat.lt_irrefl token)
      · intro hno
        cases hno
    · exact h.agree token answer hc n

theorem Fair.give {token n : Nat} (h : Fair ⟨made, (token, none) :: told, given⟩) :
    Fair ⟨made, (token, some n) :: told, given ++ [(token, n)]⟩ where
  once := h.once
  toldMade call hc := by
    rcases List.mem_cons.1 hc with rfl | hc
    · exact h.toldMade (token, none) List.mem_cons_self
    · exact h.toldMade call (List.mem_cons_of_mem _ hc)
  givenMade call hc := by
    rcases List.mem_append.1 hc with hc | hc
    · exact h.givenMade call hc
    · obtain rfl := List.mem_singleton.1 hc
      exact h.toldMade (token, none) List.mem_cons_self
  agree other answer hc k := by
    rw [List.mem_append, List.mem_singleton]
    rcases List.mem_cons.1 hc with hnew | ho
    · obtain ⟨rfl, rfl⟩ := Prod.mk.inj hnew
      have hn := h.agree other none List.mem_cons_self k
      simp only [reduceCtorEq, iff_false] at hn
      simp [hn, eq_comm]
    have hne : other ≠ token := by
      intro he
      exact (List.nodup_cons.1 h.once).1 (List.mem_map.2 ⟨_, ho, he⟩)
    simp [hne, h.agree other answer (List.mem_cons_of_mem _ ho) k]

end Calls

end Lib
