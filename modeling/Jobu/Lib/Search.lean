import Mathlib.Order.Basic
import Mathlib.Order.Lattice
import Mathlib.Algebra.Order.Group.Unbundled.Int

/-!
# A search for the least element, block by block

`Finds P lo hi r`: the search of the interval `[lo, hi)` for the least element of `P` gave `r`.
Searches of neighbouring intervals compose (`Finds.or`), and so does a loop over consecutive blocks that
stops at the first block in which something is found (`Finds.blocks`).
-/

namespace Lib

variable {α : Type} [LinearOrder α] {P : α → Prop} {lo mid hi : α}

def Finds (P : α → Prop) (lo hi : α) : Option α → Prop
  | none => ∀ x, lo ≤ x → x < hi → ¬P x
  | some found => lo ≤ found ∧ found < hi ∧ P found ∧ ∀ x, lo ≤ x → x < found → ¬P x

theorem Finds.or {a b : Option α} (ha : Finds P lo mid a) (hb : Finds P mid hi b) (hlo : lo ≤ mid)
    (hh : mid ≤ hi) : Finds P lo hi (a.or b) := by
  cases a with
  | some =>
    obtain ⟨hg, hlt, hfo, hl⟩ := ha
    exact ⟨hg, hlt.trans_le hh, hfo, hl⟩
  | none =>
    cases b with
    | none =>
      intro x hg hlt
      rcases lt_or_ge x mid with h | h
      · exact ha x hg h
      · exact hb x h hlt
    | some =>
      obtain ⟨hg, hlt, hfo, hl⟩ := hb
      refine ⟨hlo.trans hg, hlt, hfo, ?_⟩
      intro x hx hbe
      rcases lt_or_ge x mid with h | h
      · exact ha x hx h
      · exact hl x h hbe

theorem Finds.blocks {start : Nat → α} {f : Nat → Option α} (first count : Nat)
    (hst : ∀ i, first ≤ i → i < first + count → start i ≤ start (i + 1))
    (hf : ∀ i, first ≤ i → i < first + count → Finds P (start i) (start (i + 1)) (f i)) :
    Finds P (start first) (start (first + count)) ((List.range' first count).findSome? f) := by
  induction count with
  | zero => exact fun x hg hl => absurd (hg.trans_lt hl) (lt_irrefl _)
  | succ count ih =>
    have hu : ∀ k, k ≤ count → start first ≤ start (first + k) := by
      intro k
      induction k with
      | zero => exact fun _ => le_refl _
      | succ k ihk => exact fun hk => (ihk (by omega)).trans (hst (first + k) (by omega) (by omega))
    have hbe := ih (fun i hi hl => hst i hi (by omega)) fun i hi hl => hf i hi (by omega)
    have hla := hf (first + count) (by omega) (by omega)
    have hsi : [first + count].findSome? f = f (first + count) := by
      cases h : f (first + count) <;> simp [h]
    rw [List.range'_concat, List.findSome?_append, Nat.one_mul, hsi]
    exact hbe.or hla (hu count (le_refl _)) (hst (first + count) (by omega) (by omega))

/-- **A loop over consecutive blocks, each with its own search, finds the least element of them all.** -/
theorem Finds.loop {f : Nat → Option α} {first count : Nat} (start : Nat → α) (hl : start first = lo)
    (hh : start (first + count) = hi) (hst : ∀ i, first ≤ i → i < first + count → start i ≤ start (i + 1))
    (hf : ∀ i, first ≤ i → i < first + count → Finds P (start i) (start (i + 1)) (f i)) :
    Finds P lo hi ((List.range' first count).findSome? f) := by
  subst hl hh
  exact Finds.blocks first count hst hf

/-- A block that is not searched has to be without elements. -/
theorem Finds.guard {c : Prop} [Decidable c] {r : Option α} (h : c → Finds P lo hi r)
    (hn : ∀ x, lo ≤ x → x < hi → P x → c) : Finds P lo hi (if c then r else none) := by
  split
  case isTrue hc => exact h hc
  case isFalse hc => exact fun x hg hl hx => hc (hn x hg hl hx)

theorem Finds.point {P : Int → Prop} {x hi : Int} {c : Prop} [Decidable c] (hh : hi = x + 1)
    (h : P x ↔ c) : Finds P x hi (if c then some x else none) := by
  subst hh
  split
  case isTrue hc => exact ⟨le_refl _, by omega, h.2 hc, fun y hy hl => by omega⟩
  case isFalse hc =>
    intro y hy _
    obtain rfl : y = x := by omega
    exact fun hy => hc (h.1 hy)

/-- What is found holds of no smaller element from `lo` on. -/
theorem Finds.least {found : α} (h : Finds P lo hi (some found)) {x : α} (hx : P x) (hl : lo ≤ x) : found ≤ x :=
  le_of_not_gt fun hlt => h.2.2.2 x hl hlt hx

end Lib
