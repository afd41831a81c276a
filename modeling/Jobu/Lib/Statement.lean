import Jobu.Lib.Proc
import Jobu.Lib.Table

/-!
# Statements on one table of a larger state

The guarded single-row `UPDATE` and the `INSERT` that reports a taken key, on a component of the
state.  Their specifications say which row matched and what the component becomes, so callers
never look at the statement again.
-/

namespace Lib

open Keyed (key)

/-- A component of the state. -/
structure Component (σ τ : Type) where
  get : σ → τ
  set : σ → τ → σ

variable {σ ε R K : Type} [Keyed R K] [LinearOrder K]

/-- `UPDATE … SET f WHERE key = k AND p`; the value says whether a row was affected. -/
def updateRow (c : Component σ (Table R)) (k : K) (p : R → Bool) (f : R → R)
    (hf : ∀ r, key (f r) = key r) : Proc σ ε Bool := do
  let matched ← look fun s => ((c.get s).find? k).any p
  if matched then do
    write fun s => c.set s ((c.get s).modify k f hf)
    pure true
  else
    pure false

/-- `INSERT`, with the error of a taken primary key. -/
def insertRow (c : Component σ (Table R)) (r : R) (conflict : ε) : Proc σ ε Unit := do
  let taken ← look fun s => ((c.get s).find? (key r)).isSome
  require (taken = false) conflict
  write fun s => c.set s ((c.get s).insert r)

variable {c : Component σ (Table R)} {p : R → Bool} {f : R → R}

theorem yields_updateRow {k : K} {hf : ∀ r, key (f r) = key r} {s s' : σ} {b : Bool} :
    Yields (updateRow c k p f hf : Proc σ ε Bool) s b s' ↔
      (b = true ∧ (∃ r ∈ c.get s, key r = k ∧ p r = true) ∧ s' = c.set s ((c.get s).modify k f hf)) ∨
      (b = false ∧ (∀ r ∈ c.get s, key r = k → p r = false) ∧ s' = s) := by
  have hma : ((c.get s).find? k).any p = true ↔ ∃ r ∈ c.get s, key r = k ∧ p r = true := by
    rw [Option.any_eq_true]
    exact ⟨fun ⟨r, hr, hp⟩ => ⟨r, (Table.find?_eq_some.1 hr).1, (Table.find?_eq_some.1 hr).2, hp⟩,
      fun ⟨r, hr, hk, hp⟩ => ⟨r, Table.find?_eq_some.2 ⟨hr, hk⟩, hp⟩⟩
  simp only [updateRow, yields_steps, yields_ite]
  constructor
  · rintro ⟨_, _, ⟨rfl, rfl⟩, h⟩
    split at h
    next hm =>
      obtain ⟨_, _, rfl, rfl, rfl⟩ := h
      exact .inl ⟨rfl, hma.1 hm, rfl⟩
    next hm =>
      obtain ⟨rfl, rfl⟩ := h
      refine .inr ⟨rfl, fun r hr hk => ?_, rfl⟩
      by_contra hp
      exact hm (hma.2 ⟨r, hr, hk, by simpa using hp⟩)
  · rintro (⟨rfl, hm, rfl⟩ | ⟨rfl, hm, rfl⟩)
    · refine ⟨_, s, ⟨rfl, rfl⟩, ?_⟩
      rw [if_pos (hma.2 hm)]
      exact ⟨(), _, rfl, rfl, rfl⟩
    refine ⟨_, s', ⟨rfl, rfl⟩, ?_⟩
    rw [if_neg]
    · exact ⟨rfl, rfl⟩
    · rw [hma]
      rintro ⟨r, hr, hk, hp⟩
      rw [hm r hr hk] at hp
      exact Bool.noConfusion hp

/-- A guarded update keeps what the update of the row keeps. -/
theorem preserves_updateRow {I : σ → Prop} {k : K}
    {hf : ∀ r, key (f r) = key r} (h : ∀ s, I s → I (c.set s ((c.get s).modify k f hf))) :
    Preserves I (updateRow c k p f hf : Proc σ ε Bool) :=
  preserves_bind (preserves_look _ _) fun _ =>
    preserves_ite (preserves_bind (fun s hs => h s hs) fun _ => preserves_pure _ _)
      (preserves_pure _ _)

theorem yields_insertRow {r : R} {conflict : ε} {s s' : σ} {u : Unit} : Yields (insertRow c r conflict) s u s' ↔
      (c.get s).find? (key r) = none ∧ s' = c.set s ((c.get s).insert r) := by
  simp only [insertRow, yields_steps]
  constructor
  · rintro ⟨_, _, ⟨rfl, rfl⟩, _, _, ⟨hn, rfl⟩, rfl⟩
    exact ⟨by simpa using hn, rfl⟩
  · rintro ⟨hn, rfl⟩
    exact ⟨_, s, ⟨rfl, rfl⟩, (), s, ⟨by simp [hn], rfl⟩, rfl⟩

end Lib
