import Mathlib.Data.List.Pairwise
import Mathlib.Data.List.Perm.Subperm
import Mathlib.Order.Lattice
import Mathlib.Tactic.Common

/-!
# Tables with a primary key

A table is the list of its rows in strict primary-key order.  The order is a field of the
structure, so a table with two rows of one key cannot be built, and a scan in key order is the
list itself.  Every statement of a program is one of the operations below; each has a
membership lemma, and proofs about programs use only those:

  > `find?_eq_some`: a lookup returns the one row with that key.
  > `mem_insert`, `mem_update`, `mem_delete`: what a statement leaves in the table.
  > `page_covers`: a keyset page misses no row at or below its last key.
-/

namespace Lib

open List

open List Bool Option

/-- Rows with a primary key. -/
class Keyed (R : Type) (K : outParam Type) where
  key : R → K

open Keyed (key)

/-- Rows in strict key order. -/
structure Table (R : Type) {K : Type} [Keyed R K] [LinearOrder K] where
  rows : List R
  sorted : rows.Pairwise fun a b => key a < key b

namespace Table

variable {R K : Type} [Keyed R K] [LinearOrder K]
  {t : Table R} {p q : R → Bool} {f : R → R} {o : Option R} {r : R} {k : K}

instance : Membership R (Table R) := ⟨fun t r => r ∈ t.rows⟩

theorem mem_def : r ∈ t ↔ r ∈ t.rows := Iff.rfl

def empty : Table R := ⟨[], List.Pairwise.nil⟩

@[simp] theorem not_mem_empty (r : R) : r ∉ (empty : Table R) := not_mem_nil

/-- The primary key determines the row. -/
theorem eq_of_key {a b : R} (ha : a ∈ t) (hb : b ∈ t) (h : key a = key b) : a = b := by
  by_contra hn
  have hp : t.rows.Pairwise fun a b => key a ≠ key b := t.sorted.imp fun hab => ne_of_lt hab
  have : Std.Symm fun a b : R => key a ≠ key b := ⟨fun _ _ hx => hx.symm⟩
  exact hp.forall ha hb hn h

/-! ## Reading -/

def find? (t : Table R) (k : K) : Option R := t.rows.find? fun r => key r = k

theorem find?_eq_some : t.find? k = some r ↔ r ∈ t ∧ key r = k := by
  constructor
  · intro h
    exact ⟨mem_of_find?_eq_some h, by simpa using find?_some h⟩
  rintro ⟨hr, rfl⟩
  cases h : t.find? (key r) with
  | none =>
    have := find?_eq_none.1 h r hr
    simp at this
  | some r' =>
    have hk : key r' = key r := by simpa using find?_some h
    rw [eq_of_key (mem_of_find?_eq_some h) hr hk]

theorem find?_eq_none : t.find? k = none ↔ ∀ r ∈ t, key r ≠ k := by
  unfold find?
  rw [List.find?_eq_none]
  exact ⟨fun h r hr => by simpa using h r hr, fun h r hr => by simpa using h r hr⟩

theorem find?_of_mem (h : r ∈ t) : t.find? (key r) = some r := find?_eq_some.2 ⟨h, rfl⟩

/-- `SELECT … WHERE p ORDER BY key`. -/
def select (t : Table R) (p : R → Bool) : List R := t.rows.filter p

@[simp] theorem mem_select : r ∈ t.select p ↔ r ∈ t ∧ p r = true := mem_filter

theorem select_eq_nil : t.select p = [] ↔ ∀ r ∈ t, p r = false := by
  unfold select
  rw [filter_eq_nil_iff]
  exact ⟨fun h r hr => by simpa using h r hr, fun h r hr => by simpa using h r hr⟩

theorem select_sorted (t : Table R) (p : R → Bool) : (t.select p).Pairwise fun a b => key a < key b := t.sorted.filter p

/-- Pairwise equal rows make a selection of at most one element. -/
theorem select_length_le_one (h : ∀ a ∈ t, ∀ b ∈ t, p a = true → p b = true → a = b) : (t.select p).length ≤ 1 := by
  match hs : t.select p with
  | [] => simp
  | [x] => simp
  | x :: y :: l =>
    have hx : x ∈ t.select p := by simp [hs]
    have hy : y ∈ t.select p := by simp [hs]
    have hl : key x < key y := by
      have := t.select_sorted p
      rw [hs] at this
      exact (pairwise_cons.1 this).1 y mem_cons_self
    rw [mem_select] at hx hy
    exact absurd (h x hx.1 y hy.1 hx.2 hy.2 ▸ hl) (lt_irrefl _)

/-- `SELECT COUNT(*) … WHERE p`. -/
def count (t : Table R) (p : R → Bool) : Nat := t.rows.countP p

theorem count_eq_length (t : Table R) (p : R → Bool) : t.count p = (t.select p).length :=
  countP_eq_length_filter

theorem count_eq_zero : t.count p = 0 ↔ ∀ r ∈ t, p r = false := by
  rw [count_eq_length, length_eq_zero_iff, select_eq_nil]

theorem count_pos : 0 < t.count p ↔ ∃ r ∈ t, p r = true := countP_pos_iff

theorem count_congr (h : ∀ r ∈ t, p r = q r) : t.count p = t.count q := countP_congr fun r hr => by rw [h r hr]

theorem count_mono (h : ∀ r ∈ t, p r = true → q r = true) : t.count p ≤ t.count q := countP_mono_left h

/-! ## Writing -/

private def insertRow (r : R) : List R → List R
  | [] => [r]
  | x :: xs => if key r < key x then r :: x :: xs else x :: insertRow r xs

private theorem mem_insertRow {r x : R} {l : List R} : x ∈ insertRow r l ↔ x = r ∨ x ∈ l := by
  induction l with
  | nil => simp [insertRow]
  | cons _ _ ih =>
    unfold insertRow
    split
    · simp
    · simp only [mem_cons, ih]
      exact or_left_comm

private theorem insertRow_sorted {r : R} {l : List R}
    (hl : l.Pairwise fun a b => key a < key b) (hr : ∀ x ∈ l, key x ≠ key r) :
    (insertRow r l).Pairwise fun a b => key a < key b := by
  induction l with
  | nil => simp [insertRow]
  | cons y _ ih =>
    rw [pairwise_cons] at hl
    unfold insertRow
    split
    next hlt =>
      refine pairwise_cons.2 ⟨fun x hx => ?_, pairwise_cons.2 hl⟩
      rcases mem_cons.1 hx with rfl | hx
      · exact hlt
      · exact lt_trans hlt (hl.1 x hx)
    next hlt =>
      have hy : key y < key r := lt_of_le_of_ne (not_lt.1 hlt) (hr y mem_cons_self)
      refine pairwise_cons.2 ⟨fun x hx => ?_, ih hl.2 fun x hx => hr x (mem_cons_of_mem y hx)⟩
      rcases mem_insertRow.1 hx with rfl | hx
      · exact hy
      · exact hl.1 x hx

/-- `INSERT`; a row whose key is taken is not stored (callers report the conflict first). -/
def insert (t : Table R) (r : R) : Table R :=
  if h : ∃ x ∈ t.rows, key x = key r then t
  else ⟨insertRow r t.rows, insertRow_sorted t.sorted fun x hx hk => h ⟨x, hx, hk⟩⟩

theorem mem_insert {r x : R} (h : t.find? (key r) = none) : x ∈ t.insert r ↔ x = r ∨ x ∈ t := by
  have hn : ¬ ∃ x ∈ t.rows, key x = key r := fun ⟨y, hy, hk⟩ => find?_eq_none.1 h y hy hk
  unfold insert
  rw [dif_neg hn, mem_def]
  exact mem_insertRow

theorem mem_of_mem_insert {r x : R} (hx : x ∈ t.insert r) : x = r ∨ x ∈ t := by
  by_cases h : ∃ y ∈ t.rows, key y = key r
  · unfold insert at hx
    rw [dif_pos h] at hx
    exact .inr hx
  unfold insert at hx
  rw [dif_neg h] at hx
  exact mem_insertRow.1 hx

private theorem insertRow_perm (r : R) (l : List R) : (insertRow r l).Perm (r :: l) := by
  induction l with
  | nil => exact .refl _
  | cons x xs ih =>
    unfold insertRow
    split
    · exact .refl _
    · exact (ih.cons x).trans (.swap r x xs)

theorem rows_insert (h : t.find? (key r) = none) : (t.insert r).rows.Perm (r :: t.rows) := by
  have hn : ¬ ∃ x ∈ t.rows, key x = key r := fun ⟨y, hy, hk⟩ => find?_eq_none.1 h y hy hk
  unfold insert
  rw [dif_neg hn]
  exact insertRow_perm r t.rows

/-- `UPDATE … SET f WHERE p`, for an `f` that keeps the key. -/
def update (t : Table R) (p : R → Bool) (f : R → R) (hf : ∀ r, key (f r) = key r) : Table R where
  rows := t.rows.map fun r => if p r then f r else r
  sorted := by
    refine List.pairwise_map.2 (t.sorted.imp fun {a b} hab => ?_)
    have hkey : ∀ r : R, key (if p r then f r else r) = key r := by
      intro r
      split
      · exact hf r
      · rfl
    rw [hkey, hkey]
    exact hab

variable (hf : ∀ r, key (f r) = key r)

theorem mem_update {x : R} : x ∈ t.update p f hf ↔ ∃ r ∈ t, (if p r then f r else r) = x := mem_map

theorem mem_update_of_mem (hr : r ∈ t) (p : R → Bool) (f : R → R)
    (hf : ∀ r, key (f r) = key r) : (if p r then f r else r) ∈ t.update p f hf :=
  (mem_update hf).2 ⟨r, hr, rfl⟩

theorem find?_update (k : K) : (t.update p f hf).find? k = (t.find? k).map fun r => if p r then f r else r := by
  have hk : ∀ r : R, key (if p r then f r else r) = key r := by
    intro r
    split
    · exact hf r
    · rfl
  cases h : t.find? k with
  | none =>
    rw [find?_eq_none] at h
    rw [map_none, find?_eq_none]
    intro x hx
    obtain ⟨r, hr, rfl⟩ := (mem_update hf).1 hx
    rw [hk]
    exact h r hr
  | some =>
    rw [find?_eq_some] at h
    rw [map_some, find?_eq_some, hk]
    exact ⟨mem_update_of_mem h.1 p f hf, h.2⟩

theorem count_update (q : R → Bool) : (t.update p f hf).count q = t.count fun r => q (if p r then f r else r) :=
  countP_map

/-- `UPDATE … SET f WHERE key = k`. -/
def modify (t : Table R) (k : K) (f : R → R) (hf : ∀ r, key (f r) = key r) : Table R :=
  t.update (fun r => key r = k) f hf

theorem mem_modify {x : R} : x ∈ t.modify k f hf ↔ (∃ r ∈ t, key r = k ∧ x = f r) ∨ (x ∈ t ∧ key x ≠ k) := by
  unfold modify
  rw [mem_update hf]
  constructor
  · rintro ⟨r, hr, rfl⟩
    by_cases hk : key r = k
    · exact .inl ⟨r, hr, hk, by simp [hk]⟩
    · exact .inr (by simp [hk, hr])
  · rintro (⟨r, hr, hk, rfl⟩ | ⟨hx, hk⟩)
    · exact ⟨r, hr, by simp [hk]⟩
    · exact ⟨x, hx, by simp [hk]⟩

theorem modify_mem (hr : r ∈ t) (f : R → R) (hf : ∀ r, key (f r) = key r) :
    f r ∈ t.modify (key r) f hf := (mem_modify hf).2 (.inl ⟨r, hr, rfl, rfl⟩)

theorem modify_mem_other (hr : r ∈ t) (hk : key r ≠ k) (f : R → R)
    (hf : ∀ r, key (f r) = key r) : r ∈ t.modify k f hf :=
  (mem_modify hf).2 (.inr ⟨hr, hk⟩)

theorem find?_modify (k' : K) :
    (t.modify k f hf).find? k' = (t.find? k').map fun r => if key r = k then f r else r := by
  unfold modify
  rw [find?_update hf]
  simp

/-- `DELETE … WHERE p`. -/
def delete (t : Table R) (p : R → Bool) : Table R where
  rows := t.rows.filter fun r => !p r
  sorted := t.sorted.filter _

@[simp] theorem mem_delete : r ∈ t.delete p ↔ r ∈ t ∧ p r = false := by
  unfold delete
  rw [mem_def, mem_filter, mem_def]
  simp

theorem rows_modify : (t.modify k f hf).rows.map key = t.rows.map key := by
  show (t.rows.map _).map key = t.rows.map key
  rw [List.map_map]
  refine List.map_congr_left fun r _ => ?_
  show key (if _ then f r else r) = key r
  split
  · exact hf r
  · rfl

theorem rows_delete (t : Table R) (p : R → Bool) : t.rows.Perm (t.select p ++ (t.delete p).rows) :=
  (filter_append_perm p t.rows).symm

theorem rows_delete_key (hr : r ∈ t) : t.rows.Perm (r :: (t.delete fun x => key x = key r).rows) := by
  have ho : t.select (fun x => key x = key r) = [r] := by
    have hso := t.select_sorted fun x => key x = key r
    have hm : r ∈ t.select fun x => key x = key r := mem_select.2 ⟨hr, by simp⟩
    have hal : ∀ x ∈ t.select (fun x => key x = key r), x = r := by
      intro x hx
      exact eq_of_key (mem_select.1 hx).1 hr (by simpa using (mem_select.1 hx).2)
    match hs : t.select (fun x => key x = key r) with
    | [] =>
      rw [hs] at hm
      cases hm
    | [x] => rw [hal x (by simp [hs])]
    | x :: y :: l =>
      rw [hs] at hso
      have hl : key x < key y := (pairwise_cons.1 hso).1 y mem_cons_self
      rw [hal x (by simp [hs]), hal y (by simp [hs])] at hl
      exact absurd hl (lt_irrefl _)
  have hp := rows_delete t fun x => key x = key r
  rw [ho] at hp
  exact hp

/-! ## What a statement does to a selection -/

/-- Lists in strict key order are determined by their members. -/
theorem eq_of_sorted_of_mem_iff {l l' : List R} (hl : l.Pairwise fun a b => key a < key b)
    (hl' : l'.Pairwise fun a b => key a < key b) (h : ∀ r, r ∈ l ↔ r ∈ l') : l = l' := by
  induction l generalizing l' with
  | nil => exact (eq_nil_iff_forall_not_mem.2 fun r hr => by simpa using (h r).2 hr).symm
  | cons x _ ih =>
    cases l' with
    | nil => simpa using (h x).1 mem_cons_self
    | cons y =>
      rw [pairwise_cons] at hl hl'
      have hxy : x = y := by
        rcases mem_cons.1 ((h x).1 mem_cons_self) with rfl | hx
        · rfl
        rcases mem_cons.1 ((h y).2 mem_cons_self) with rfl | hy
        · rfl
        · exact absurd (lt_trans (hl.1 y hy) (hl'.1 x hx)) (lt_irrefl _)
      subst hxy
      congr 1
      refine ih hl.2 hl'.2 fun r => ⟨fun hr => ?_, fun hr => ?_⟩
      · rcases mem_cons.1 ((h r).1 (mem_cons_of_mem x hr)) with rfl | hr'
        · exact absurd (hl.1 r hr) (lt_irrefl _)
        · exact hr'
      · rcases mem_cons.1 ((h r).2 (mem_cons_of_mem x hr)) with rfl | hr'
        · exact absurd (hl'.1 r hr) (lt_irrefl _)
        · exact hr'

/-- A new row outside a selection does not change it. -/
theorem select_insert_other (h : t.find? (key r) = none) (hr : p r = false) : (t.insert r).select p = t.select p := by
  refine eq_of_sorted_of_mem_iff (select_sorted _ _) (select_sorted _ _) fun x => ?_
  rw [mem_select, mem_select, mem_insert h]
  constructor
  · rintro ⟨rfl | hx, hp⟩
    · rw [hr] at hp
      exact Bool.noConfusion hp
    · exact ⟨hx, hp⟩
  · exact fun ⟨hx, hp⟩ => ⟨.inr hx, hp⟩

/-- A new row beyond a selection comes last. -/
theorem select_insert_last (hr : p r = true) (h : ∀ x ∈ t, p x = true → key x < key r) (hn : t.find? (key r) = none) :
    (t.insert r).select p = t.select p ++ [r] := by
  refine eq_of_sorted_of_mem_iff (select_sorted _ _) ?_ fun x => ?_
  · refine pairwise_append.2 ⟨select_sorted _ _, pairwise_singleton _ _, ?_⟩
    intro x hx y hy
    rw [mem_select] at hx
    rw [mem_singleton.1 hy]
    exact h x hx.1 hx.2
  rw [mem_select, mem_insert hn, mem_append, mem_select, mem_singleton]
  constructor
  · rintro ⟨rfl | hx, hp⟩
    · exact .inr rfl
    · exact .inl ⟨hx, hp⟩
  · rintro (⟨hx, hp⟩ | rfl)
    · exact ⟨.inr hx, hp⟩
    · exact ⟨.inl rfl, hr⟩

/-- An update that moves no row in or out of a selection acts on it row by row. -/
theorem select_update (h : ∀ r ∈ t, p (if q r then f r else r) = p r) :
    (t.update q f hf).select p = (t.select p).map fun r => if q r then f r else r := by
  unfold select update
  rw [List.filter_map]
  congr 1
  exact List.filter_congr fun r hr => h r hr

/-- The rows of a selection are `o`: at most one row, and which. -/
def IsOnly (t : Table R) (p : R → Bool) (o : Option R) : Prop :=
  ∀ r, (r ∈ t ∧ p r = true) ↔ o = some r

theorem IsOnly.mem (h : t.IsOnly p (some r)) : r ∈ t ∧ p r = true := (h r).2 rfl

theorem IsOnly.eq_some (h : t.IsOnly p o) (hr : r ∈ t) (hp : p r = true) : o = some r := (h r).1 ⟨hr, hp⟩

theorem isOnly_none : t.IsOnly p none ↔ ∀ r ∈ t, p r = false := by
  constructor
  · intro h r hr
    by_contra hp
    simpa using h.eq_some hr (by simpa using hp)
  intro h r
  constructor
  · rintro ⟨hr, hp⟩
    rw [h r hr] at hp
    exact Bool.noConfusion hp
  · intro hn
    cases hn

theorem IsOnly.select (h : t.IsOnly p o) : t.select p = o.toList := by
  refine eq_of_sorted_of_mem_iff (select_sorted _ _) ?_ fun r => ?_
  · cases o <;> simp
  · rw [mem_select, h r]
    cases o <;> simp [eq_comm]

theorem IsOnly.count (h : t.IsOnly p o) : t.count p = o.toList.length := by rw [count_eq_length, h.select]

theorem isOnly_of_select (h : t.select p = o.toList) : t.IsOnly p o := by
  intro r
  rw [← mem_select, h]
  cases o <;> simp [eq_comm]

/-- A new row becomes the only one of a selection that had none, or stays outside it. -/
theorem IsOnly.insert (h : t.IsOnly p o) (hn : t.find? (key r) = none) (hfr : p r = true → o = none) :
    (t.insert r).IsOnly p (if p r then some r else o) := by
  intro x
  rw [mem_insert hn]
  by_cases hp : p r = true
  · rw [if_pos hp]
    have hno := isOnly_none.1 (hfr hp ▸ h)
    constructor
    · rintro ⟨rfl | hx, hpx⟩
      · rfl
      · rw [hno x hx] at hpx
        exact Bool.noConfusion hpx
    · intro hx
      injection hx with hx
      exact ⟨.inl hx.symm, hx ▸ hp⟩
  · rw [if_neg hp, ← h x]
    constructor
    · rintro ⟨rfl | hx, hpx⟩
      · exact absurd hpx hp
      · exact ⟨hx, hpx⟩
    · exact fun ⟨hx, hpx⟩ => ⟨.inr hx, hpx⟩

/-- An update that moves no row into a selection changes or drops its only row. -/
theorem IsOnly.update (h : t.IsOnly p o)
    (hi : ∀ r ∈ t, q r = true → p (f r) = true → p r = true) :
    (t.update q f hf).IsOnly p ((o.map fun r => if q r then f r else r).filter p) := by
  intro x
  rw [mem_update hf, filter_eq_some_iff, map_eq_some_iff]
  constructor
  · rintro ⟨⟨r, hr, rfl⟩, hp⟩
    refine ⟨⟨r, h.eq_some hr ?_, rfl⟩, hp⟩
    by_cases hq : q r = true
    · rw [if_pos hq] at hp
      exact hi r hr hq hp
    · rwa [if_neg hq] at hp
  · rintro ⟨⟨r, rfl, rfl⟩, hp⟩
    exact ⟨⟨r, h.mem.1, rfl⟩, hp⟩

/-- An update that does not change which rows are selected. -/
theorem IsOnly.update_same (h : t.IsOnly p o)
    (hsa : ∀ r ∈ t, p (if q r then f r else r) = p r) :
    (t.update q f hf).IsOnly p (o.map fun r => if q r then f r else r) := by
  have hu := h.update hf fun r hr hq hp => by
    have := hsa r hr
    rw [if_pos hq] at this
    rwa [← this]
  cases o with
  | none => exact hu
  | some r =>
    have hr := h.mem
    rwa [map_some, filter_some, if_pos (by rw [hsa r hr.1, hr.2])] at hu

/-- An update outside a selection does not change it. -/
theorem IsOnly.update_other (h : t.IsOnly p o)
    (ho : ∀ r ∈ t, q r = true → p r = false ∧ p (f r) = false) :
    (t.update q f hf).IsOnly p o := by
  intro x
  rw [mem_update hf]
  constructor
  · rintro ⟨⟨r, hr, rfl⟩, hp⟩
    by_cases hq : q r = true
    · rw [if_pos hq, (ho r hr hq).2] at hp
      exact Bool.noConfusion hp
    · rw [if_neg hq] at hp ⊢
      exact h.eq_some hr hp
  rintro rfl
  refine ⟨⟨x, h.mem.1, ?_⟩, h.mem.2⟩
  refine if_neg fun hq => ?_
  have hp := h.mem.2
  rw [(ho x h.mem.1 hq).1] at hp
  exact Bool.noConfusion hp

/-! ## Counting -/

/-- Rows that can be told apart by their keys are counted by them. -/
theorem count_le_of_keys {S : Type} [Keyed S K] {u : Table S} {q : S → Bool}
    (h : ∀ r ∈ t, p r = true → ∃ s ∈ u, key s = key r ∧ q s = true) : t.count p ≤ u.count q := by
  have hn : ((t.select p).map key).Nodup := by
    rw [List.Nodup, pairwise_map]
    exact (t.select_sorted p).imp fun hab => ne_of_lt hab
  have hsu : (t.select p).map key ⊆ (u.select q).map key := by
    intro k hk
    obtain ⟨r, hr, rfl⟩ := mem_map.1 hk
    obtain ⟨hr, hp⟩ := mem_select.1 hr
    obtain ⟨s, hs, hke, hq⟩ := h r hr hp
    exact mem_map.2 ⟨s, mem_select.2 ⟨hs, hq⟩, hke⟩
  rw [count_eq_length, count_eq_length]
  simpa using (subperm_of_subset hn hsu).length_le

/-- A count that leaves one row out. -/
theorem count_without (hr : r ∈ t) (hp : p r = true) :
    t.count p = (t.count fun x => p x && decide (key x ≠ key r)) + 1 := by
  have hsp : t.count p = (t.count fun x => p x && decide (key x ≠ key r)) +
      t.count fun x => p x && decide (key x = key r) := by
    unfold count
    rw [countP_eq_countP_filter_add t.rows p fun x => decide (key x ≠ key r), countP_filter, countP_filter]
    congr 1
    refine countP_congr fun x _ => ?_
    simp
  have ho : t.IsOnly (fun x => p x && decide (key x = key r)) (some r) := by
    intro x
    rw [and_eq_true, decide_eq_true_eq, Option.some.injEq]
    constructor
    · rintro ⟨hx, -, hk⟩
      exact eq_of_key hr hx hk.symm
    · rintro rfl
      exact ⟨hr, hp, rfl⟩
  rw [hsp, ho.count]
  rfl

/-- A row that enters a selection adds one to its count. -/
theorem count_modify (hr : r ∈ t) (hn : p r = false) :
    (t.modify (key r) f hf).count p = t.count p + if p (f r) then 1 else 0 := by
  have ho : ∀ x ∈ t, decide (key x = key r) = true → x = r := fun x hx hk =>
    eq_of_key hx hr (of_decide_eq_true hk)
  have hre : ((t.modify (key r) f hf).count fun x => p x && decide (key x ≠ key r)) = t.count p := by
    unfold modify
    rw [count_update]
    refine count_congr fun x hx => ?_
    by_cases hk : key x = key r
    · obtain rfl := eq_of_key hx hr hk
      simp [hn, hf]
    · simp [hk]
  have hm := modify_mem hr f hf
  by_cases hp : p (f r) = true
  · rw [count_without hm hp, if_pos hp, hf, hre]
  rw [if_neg hp, Nat.add_zero, ← hre]
  refine count_congr fun x hx => ?_
  by_cases hk : key x = key r
  · obtain rfl := eq_of_key hx hm (hk.trans (hf r).symm)
    simp [eq_false_iff.2 hp]
  · simp [hk]

/-! ## Keyset pages -/

/-- A position in a keyset scan: `none` before the first page. -/
def beyond (after : Option K) (k : K) : Bool :=
  match after with
  | none => true
  | some a => a < k

/-- `SELECT … WHERE p AND key > after ORDER BY key LIMIT n`. -/
def page (t : Table R) (p : R → Bool) (after : Option K) (n : Nat) : List R :=
  (t.rows.filter fun r => p r && beyond after (key r)).take n

theorem mem_of_mem_page {after : Option K} {n : Nat}
    (h : r ∈ t.page p after n) : r ∈ t ∧ p r = true ∧ beyond after (key r) = true := by
  have := mem_filter.1 (mem_of_mem_take h)
  rwa [and_eq_true] at this

theorem page_sorted (t : Table R) (p : R → Bool) (after : Option K) (n : Nat) :
    (t.page p after n).Pairwise fun a b => key a < key b :=
  (t.sorted.filter _).take

/-- A page of positive size holds every selected row at or below its last key, and is empty
only when no selected row is left. -/
theorem page_covers {after : Option K} {n : Nat} (hn : 0 < n)
    (hr : r ∈ t) (hp : p r = true) (ha : beyond after (key r) = true) :
    r ∈ t.page p after n ∨ ∃ last, (t.page p after n).getLast? = some last ∧ key last < key r := by
  have hm : r ∈ t.rows.filter fun r => p r && beyond after (key r) := mem_filter.2 ⟨hr, by rw [hp, ha]; rfl⟩
  have hso : (t.rows.filter fun r => p r && beyond after (key r)).Pairwise
      fun a b => key a < key b := t.sorted.filter _
  unfold page
  generalize (t.rows.filter fun r => p r && beyond after (key r)) = l at hm hso
  rw [← take_append_drop n l] at hm hso
  rcases mem_append.1 hm with hi | ho
  · exact .inl hi
  right
  have hl : n < l.length := by
    by_contra hle
    rw [drop_eq_nil_of_le (Nat.le_of_not_lt hle)] at ho
    exact not_mem_nil ho
  have hne : l.take n ≠ [] := by
    intro hni
    have := congrArg List.length hni
    rw [length_take, length_nil] at this
    omega
  refine ⟨(l.take n).getLast hne, getLast?_eq_some_getLast hne, ?_⟩
  exact (pairwise_append.1 hso).2.2 _ (getLast_mem hne) r ho

end Table

end Lib
