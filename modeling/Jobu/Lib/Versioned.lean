import Jobu.Lib.Table

/-!
# Rows that carry a version

A table whose rows are only inserted with the first version and only rewritten to the next one.
Then the version of a row counts its writes, so that two readings of a row with equal versions are
equal rows with no write between them:

  > `Evolves`: what such a table can become.
  > `Evolves.eq_of_version`: equal versions, equal rows.
-/

namespace Lib

open Table

open Keyed (key)

variable {R K : Type} [Keyed R K] {W : R → R → Prop} {version : R → Nat}

/-- A write keeps the key and raises the version by one. -/
structure RaisesVersion (W : R → R → Prop) (version : R → Nat) : Prop where
  key : ∀ {r s : R}, W r s → key s = key r
  next : ∀ {r s : R}, W r s → version s = version r + 1

/-- `n` writes of one row, one after another. -/
inductive Writes (W : R → R → Prop) : Nat → R → R → Prop
  | none (r : R) : Writes W 0 r r
  | more {n : Nat} {r s t : R} (before : Writes W n r s) (last : W s t) : Writes W (n + 1) r t

namespace Writes

theorem single {r s : R} (h : W r s) : Writes W 1 r s := .more (.none r) h

variable {n : Nat}

theorem trans {m : Nat} {r s t : R} (h₁ : Writes W m r s) (h₂ : Writes W n s t) : Writes W (m + n) r t := by
  induction h₂ with
  | none => exact h₁
  | more _ last ih => exact .more (ih h₁) last

theorem key_eq (hW : RaisesVersion W version) {r s : R} (h : Writes W n r s) : key s = key r := by
  induction h with
  | none => rfl
  | more _ last ih => exact (hW.key last).trans ih

/-- The version counts the writes. -/
theorem version_eq (hW : RaisesVersion W version) {r s : R} (h : Writes W n r s) : version s = version r + n := by
  induction h with
  | none => rfl
  | more _ last ih =>
    rw [hW.next last, ih]
    omega

/-- No write happened to a row whose version did not change. -/
theorem eq_of_version (hW : RaisesVersion W version) {r s : R} (h : Writes W n r s)
    (hv : version s = version r) : s = r := by
  have hn : n = 0 := by
    have := h.version_eq hW
    omega
  subst hn
  cases h
  rfl

theorem eq_of_final {r s : R} (h : Writes W n r s) (hfi : ∀ t, ¬ W r t) : s = r := by
  induction h with
  | none => rfl
  | more _ last ih => exact absurd (ih hfi ▸ last) (hfi _)

end Writes

variable [LinearOrder K]

/-- What became of a table: every row is still there after some writes, and every row that is there
comes by some writes from an old row, or from a new one that had the first version. -/
structure Evolves (W : R → R → Prop) (version : R → Nat) (rows rows' : Table R) : Prop where
  kept : ∀ r ∈ rows, ∃ n, ∃ r' ∈ rows', Writes W n r r' ∧ version r' = version r + n
  made : ∀ r' ∈ rows', (∃ r ∈ rows, ∃ n, Writes W n r r' ∧ version r' = version r + n) ∨
    rows.find? (key r') = none ∧ ∃ first n, version first = 1 ∧ Writes W n first r' ∧ version r' = 1 + n

namespace Evolves

theorem refl (rows : Table R) : Evolves W version rows rows where
  kept r hr := ⟨0, r, hr, .none r, rfl⟩
  made r hr := .inl ⟨r, hr, 0, .none r, rfl⟩

variable {rows rows' rows1 : Table R}

theorem trans (hW : RaisesVersion W version) (h₁ : Evolves W version rows rows1) (h₂ : Evolves W version rows1 rows') :
    Evolves W version rows rows' := by
  refine ⟨fun r hr => ?_, fun r' hr' => ?_⟩
  · obtain ⟨m, r1, hr1, hw1, -⟩ := h₁.kept r hr
    obtain ⟨n, r', hr', hw2, -⟩ := h₂.kept r1 hr1
    have hw := hw1.trans hw2
    exact ⟨m + n, r', hr', hw, hw.version_eq hW⟩
  rcases h₂.made r' hr' with ⟨r1, hr1, n, hw2, -⟩ | ⟨hn, hfi⟩
  · rcases h₁.made r1 hr1 with ⟨r, hr, m, hw1, -⟩ | ⟨hn, first, m, ho, hw1, -⟩
    · have hw := hw1.trans hw2
      exact .inl ⟨r, hr, m + n, hw, hw.version_eq hW⟩
    · have hw := hw1.trans hw2
      rw [← hw2.key_eq hW] at hn
      exact .inr ⟨hn, first, m + n, ho, hw, ho ▸ hw.version_eq hW⟩
  · -- an old row of this key would still be there
    refine .inr ⟨Table.find?_eq_none.2 fun r hr hk => ?_, hfi⟩
    obtain ⟨_, r1, hr1, hw, -⟩ := h₁.kept r hr
    exact Table.find?_eq_none.1 hn r1 hr1 ((hw.key_eq hW).trans hk)

variable {r : R}

theorem insert (hfr : rows.find? (key r) = none) (hfi : version r = 1) :
    Evolves W version rows (rows.insert r) := by
  refine ⟨fun s hs => ⟨0, s, (mem_insert hfr).2 (.inr hs), .none s, rfl⟩, fun s hs => ?_⟩
  rcases (mem_insert hfr).1 hs with rfl | hs
  · exact .inr ⟨hfr, s, 0, hfi, .none s, hfi⟩
  · exact .inl ⟨s, hs, 0, .none s, rfl⟩

section

variable (hW : RaisesVersion W version)

include hW

variable {f : R → R}

theorem update {p : R → Bool} (hf : ∀ r, key (f r) = key r) (h : ∀ r ∈ rows, p r = true → W r (f r)) :
    Evolves W version rows (rows.update p f hf) := by
  have hstep : ∀ r ∈ rows, ∃ n, Writes W n r (if p r then f r else r) ∧
    version (if p r then f r else r) = version r + n := by
    intro r hr
    by_cases hp : p r = true
    · rw [if_pos hp]
      exact ⟨1, .single (h r hr hp), hW.next (h r hr hp)⟩
    · rw [if_neg hp]
      exact ⟨0, .none r, rfl⟩
  refine ⟨fun r hr => ?_, fun r' hr' => ?_⟩
  · obtain ⟨n, hw⟩ := hstep r hr
    exact ⟨n, _, mem_update_of_mem hr p f hf, hw⟩
  · obtain ⟨r, hr, rfl⟩ := (mem_update hf).1 hr'
    obtain ⟨n, hw⟩ := hstep r hr
    exact .inl ⟨r, hr, n, hw⟩

theorem modify (hf : ∀ r, key (f r) = key r) (hr : r ∈ rows) (h : W r (f r)) :
    Evolves W version rows (rows.modify (key r) f hf) := by
  refine update hW hf fun s hs hk => ?_
  rw [eq_of_key hs hr (of_decide_eq_true hk)]
  exact h

variable {r' : R}

/-- The row a key had and the one it has now. -/
theorem writes (h : Evolves W version rows rows') (hr : r ∈ rows) (hr' : r' ∈ rows')
    (hk : key r' = key r) : ∃ n, Writes W n r r' ∧ version r' = version r + n := by
  obtain ⟨n, _, hs, hw, hv⟩ := h.kept r hr
  rw [eq_of_key hr' hs (hk.trans (hw.key_eq hW).symm)]
  exact ⟨n, hw, hv⟩

theorem eq_of_version (h : Evolves W version rows rows') (hr : r ∈ rows) (hr' : r' ∈ rows')
    (hk : key r' = key r) (hv : version r' = version r) : r' = r := by
  obtain ⟨_, hw, -⟩ := h.writes hW hr hr' hk
  exact hw.eq_of_version hW hv

/-- A row that has its version at the end had it, and was the same, all the time. -/
theorem mem_between (h₁ : Evolves W version rows rows1) (h₂ : Evolves W version rows1 rows')
    (hr : r ∈ rows) (hr' : r' ∈ rows') (hk : key r' = key r) (hv : version r' = version r) :
    r ∈ rows1 := by
  obtain ⟨_, s, hs, hw1, _⟩ := h₁.kept r hr
  obtain ⟨_, -, _⟩ := h₂.writes hW hs hr' (hk.trans (hw1.key_eq hW).symm)
  have hsa : version s = version r := by omega
  rw [← hw1.eq_of_version hW hsa]
  exact hs

end

end Evolves

end Lib
