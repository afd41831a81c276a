import Mathlib.Data.List.Induction
import Mathlib.Data.List.Sort

/-!
# Stable sorting, and searches in a sorted list

Sorting by a key keeps the order of entries with the same key (`pairwise_insertionSort_stable`).  A loop that
overwrites its result at every entry that counts ends with the last of them, which in a sorted list is the
latest (`foldl_latest`).  What a sorted list has between two bounds is found by dropping and taking
(`mem_between`).
-/

namespace Lib

open List

variable {α β κ : Type} [LinearOrder κ]

/-- Earlier by the key, or of the same key and before it. -/
def Earlier (key : α → κ) (before : α → α → Prop) (a b : α) : Prop :=
  key a < key b ∨ (key a = key b ∧ before a b)

theorem pairwise_orderedInsert (key : α → κ) {before : α → α → Prop} {a : α} {l : List α}
    (hl : l.Pairwise (Earlier key before)) (ha : ∀ b ∈ l, before a b) :
    (l.orderedInsert (fun a b => key a ≤ key b) a).Pairwise (Earlier key before) := by
  induction l with
  | nil => exact pairwise_singleton _ _
  | cons b l ih =>
    obtain ⟨hb, hl'⟩ := pairwise_cons.1 hl
    by_cases hle : key a ≤ key b
    · -- `a` goes in front: everything from `b` on has a key that is not smaller
      rw [orderedInsert_cons_of_le (fun a b => key a ≤ key b) l hle, pairwise_cons]
      refine ⟨fun c hc => ?_, hl⟩
      have hk : key a ≤ key c := by
        rcases mem_cons.1 hc with rfl | hc
        · exact hle
        rcases hb c hc with h | h
        · exact hle.trans h.le
        · exact hle.trans_eq h.1
      rcases hk.lt_or_eq with h | h
      · exact .inl h
      · exact .inr ⟨h, ha c hc⟩
    · rw [orderedInsert_of_not_le (fun a b => key a ≤ key b) l hle, pairwise_cons]
      refine ⟨fun c hc => ?_, ih hl' fun c hc => ha c (mem_cons_of_mem _ hc)⟩
      rcases (mem_orderedInsert _).1 hc with rfl | hc
      · exact .inl (lt_of_not_ge hle)
      · exact hb c hc

/-- **Sorting by a key is stable.** -/
theorem pairwise_insertionSort_stable (key : α → κ) {before : α → α → Prop} {l : List α} (h : l.Pairwise before) :
    (l.insertionSort fun a b => key a ≤ key b).Pairwise (Earlier key before) := by
  induction l with
  | nil => exact List.Pairwise.nil
  | cons a l ih =>
    obtain ⟨ha, hl⟩ := pairwise_cons.1 h
    rw [insertionSort_cons]
    exact pairwise_orderedInsert key (ih hl) fun b hb => ha b ((mem_insertionSort _).1 hb)

/-- **The result of the loop comes from the latest entry that counts, if any does.** -/
theorem foldl_latest {R : α → α → Prop} {l : List α} (h : l.Pairwise R) (p : α → Bool) (f : α → β) (init : β) :
    (∃ x ∈ l, p x = true ∧ l.foldl (fun result x => if p x then f x else result) init = f x ∧
        ∀ y ∈ l, p y = true → y = x ∨ R y x) ∨
      ((∀ y ∈ l, p y = false) ∧ l.foldl (fun result x => if p x then f x else result) init = init) := by
  induction l using reverseRecOn with
  | nil => exact .inr ⟨fun y hy => absurd hy not_mem_nil, rfl⟩
  | append_singleton l a ih =>
    obtain ⟨hl, -, hla⟩ := pairwise_append.1 h
    rw [foldl_append, foldl_cons, foldl_nil]
    cases hp : p a with
    | true =>
      refine .inl ⟨a, mem_append_right _ mem_cons_self, hp, if_pos rfl, fun y hy _ => ?_⟩
      rcases mem_append.1 hy with hy | hy
      · exact .inr (hla y hy a mem_cons_self)
      · exact .inl (mem_singleton.1 hy)
    | false =>
      rcases ih hl with ⟨x, hx, hpx, hfo, hlat⟩ | ⟨hn, hfo⟩
      · refine .inl ⟨x, mem_append_left _ hx, hpx, hfo, fun y hy hpy => ?_⟩
        rcases mem_append.1 hy with hy | hy
        · exact hlat y hy hpy
        · rw [mem_singleton.1 hy, hp] at hpy
          cases hpy
      refine .inr ⟨fun y hy => ?_, hfo⟩
      rcases mem_append.1 hy with hy | hy
      · exact hn y hy
      · rw [mem_singleton.1 hy, hp]

theorem mem_between {key : α → κ} {l : List α} (h : l.Pairwise fun a b => key a < key b) {lo hi : κ} {x : α}
    (hx : x ∈ l) (hlo : lo ≤ key x) (hh : key x ≤ hi) :
    x ∈ (l.dropWhile fun a => key a < lo).takeWhile fun a => key a ≤ hi := by
  induction l with
  | nil => cases hx
  | cons a l ih =>
    obtain ⟨ha, hl⟩ := pairwise_cons.1 h
    by_cases hd : key a < lo
    · rw [dropWhile_cons_of_pos (by simpa using hd)]
      rcases mem_cons.1 hx with rfl | hx
      · exact absurd hd (not_lt_of_ge hlo)
      · exact ih hl hx
    rw [dropWhile_cons_of_neg (by simpa using hd)]
    clear ih hd hlo
    -- from here on nothing is dropped, and the keys grow
    induction l generalizing a with
    | nil =>
      obtain rfl := mem_singleton.1 hx
      rw [takeWhile_cons_of_pos (by simpa using hh)]
      exact mem_cons_self
    | cons b l ih =>
      rcases mem_cons.1 hx with rfl | hx
      · rw [takeWhile_cons_of_pos (by simpa using hh)]
        exact mem_cons_self
      have hle : key a ≤ hi := (ha x hx).le.trans hh
      rw [takeWhile_cons_of_pos (by simpa using hle)]
      obtain ⟨hb, hl'⟩ := pairwise_cons.1 hl
      exact mem_cons_of_mem _ (ih b hl hx hb hl')

end Lib
