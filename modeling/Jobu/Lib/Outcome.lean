import Jobu.Lib.Proc

/-!
# Both outcomes of a procedure

`Ends P x Q R`: from every state with `P` the procedure either returns with `Q` or fails with `R`.
Nothing is left open, so `R := fun _ _ => False` says that the procedure cannot fail.

`Follows R x`: from states related by `R` the procedure returns the same value and leads to related
states, so it depends on nothing that `R` does not relate.
-/

namespace Lib

variable {σ τ ε α β : Type} {P P' : σ → Prop} {Q Q' : α → σ → Prop} {R R' : ε → σ → Prop}

/-- From every state with `P` the procedure returns with `Q` or fails with `R`. -/
def Ends (P : σ → Prop) (x : Proc σ ε α) (Q : α → σ → Prop) (R : ε → σ → Prop) : Prop :=
  ∀ s, P s → match x s with
    | .ok a s' => Q a s'
    | .error e s' => R e s'

variable {x : Proc σ ε α} {a : α}

theorem Ends.returns (h : Ends P x Q R) {s s' : σ} (hs : P s) (hy : Yields x s a s') : Q a s' := by
  have := h s hs
  unfold Yields at hy
  rw [hy] at this
  exact this

theorem Ends.fails (h : Ends P x Q R) {s s' : σ} {e : ε} (hs : P s) (hx : x s = .error e s') : R e s' := by
  have := h s hs
  rw [hx] at this
  exact this

theorem Ends.mono {x : Proc σ ε α} (h : Ends P x Q R) (hP : ∀ s, P' s → P s)
    (hQ : ∀ a s, Q a s → Q' a s) (hR : ∀ e s, R e s → R' e s) : Ends P' x Q' R' := by
  intro s hs
  have := h s (hP s hs)
  cases hx : x s with
  | ok a s' =>
    rw [hx] at this
    exact hQ a s' this
  | error e s' =>
    rw [hx] at this
    exact hR e s' this

/-- A fact of the start that does not depend on the state. -/
theorem Ends.assume {p : Prop} (hp : ∀ s, P s → p) (h : p → Ends P x Q R) : Ends P x Q R :=
  fun s hs => h (hp s hs) s hs

theorem ends_pure (h : ∀ s, P s → Q a s) : Ends P (pure a : Proc σ ε α) Q R :=
  fun s hs => h s hs

/-- A procedure that is known to return and to change nothing. -/
theorem ends_of_yields (h : ∀ s, P s → Yields x s a s) : Ends P x (fun b s => P s ∧ b = a) R := by
  intro s hs
  have hy := h s hs
  unfold Yields at hy
  rw [hy]
  exact ⟨hs, rfl⟩

/-- The sequencing rule. -/
theorem ends_bind {x : Proc σ ε α} {f : α → Proc σ ε β} {Q' : β → σ → Prop} (hx : Ends P x Q R)
    (hf : ∀ a, Ends (Q a) (f a) Q' R) : Ends P (x >>= f) Q' R := by
  intro s hs
  have h₁ := hx s hs
  show match EStateM.bind x f s with
    | .ok a s' => Q' a s'
    | .error e s' => R e s'
  unfold EStateM.bind
  cases hxs : x s with
  | ok a s1 =>
    rw [hxs] at h₁
    exact hf a s1 h₁
  | error =>
    rw [hxs] at h₁
    exact h₁

theorem ends_look {f : σ → α} (h : ∀ s, P s → Q (f s) s) : Ends P (look f : Proc σ ε α) Q R :=
  fun s hs => h s hs

theorem ends_look_bind {f : σ → α} {g : α → Proc σ ε β} {Q : β → σ → Prop}
    (h : ∀ a, Ends (fun s => P s ∧ a = f s) (g a) Q R) : Ends P (look f >>= g) Q R :=
  ends_bind (Q := fun a s => P s ∧ a = f s) (ends_look fun _ hs => ⟨hs, rfl⟩) h

theorem ends_any_bind {f : σ → α} {g : α → Proc σ ε β} {Q : β → σ → Prop}
    (h : ∀ a, Ends P (g a) Q R) : Ends P (look f >>= g) Q R :=
  ends_bind (Q := fun _ s => P s) (ends_look fun _ hs => hs) h

theorem ends_write {f : σ → σ} {Q : Unit → σ → Prop} (h : ∀ s, P s → Q () (f s)) :
    Ends P (write f : Proc σ ε Unit) Q R :=
  fun s hs => h s hs

variable {c : Prop}

theorem ends_ite [Decidable c] {x y : Proc σ ε α} (hx : c → Ends P x Q R)
    (hy : ¬ c → Ends P y Q R) : Ends P (if c then x else y) Q R := by
  split
  · exact hx ‹_›
  · exact hy ‹_›

/-- A condition that holds is no obstacle. -/
theorem ends_require [Decidable c] {e : ε} {Q : Unit → σ → Prop}
    (h : ∀ s, P s → if c then Q () s else R e s) : Ends P (require c e : Proc σ ε Unit) Q R := by
  intro s hs
  have := h s hs
  unfold require
  by_cases hc : c
  · rw [if_pos hc] at this ⊢
    exact this
  · rw [if_neg hc] at this ⊢
    exact this

/-- A procedure on one component leaves the others. -/
theorem ends_zoom {get : τ → σ} {set : τ → σ → τ} {x : Proc σ ε α} {P : τ → Prop}
    {Q : α → τ → Prop} {R : ε → τ → Prop} (hQ : ∀ t a s, P t → x (get t) = .ok a s → Q a (set t s))
    (hR : ∀ t e s, P t → x (get t) = .error e s → R e (set t s)) : Ends P (zoom get set x) Q R := by
  intro t ht
  unfold zoom
  cases hx : x (get t) with
  | ok a s => exact hQ t a s ht hx
  | error e s => exact hR t e s ht hx

/-! ## Two runs of one procedure -/

/-- What a procedure returns from one state it returns from every related one. -/
def Follows (R : σ → σ → Prop) (x : Proc σ ε α) : Prop :=
  ∀ s t a s', R s t → Yields x s a s' → ∃ t', Yields x t a t' ∧ R s' t'

variable {R : σ → σ → Prop}

theorem follows_pure (a : α) : Follows R (pure a : Proc σ ε α) := by
  intro s t b _ hR hy
  obtain ⟨rfl, rfl⟩ := (yields_pure _ _ _ _).1 hy
  exact ⟨t, (yields_pure _ _ _ _).2 ⟨rfl, rfl⟩, hR⟩

theorem follows_bind {f : α → Proc σ ε β} (hx : Follows R x) (hf : ∀ a, Follows R (f a)) : Follows R (x >>= f) := by
  intro s t b s' hR hy
  obtain ⟨a, s1, h₁, h₂⟩ := (yields_bind _ _ _ _ _).1 hy
  obtain ⟨t1, ht1, hR1⟩ := hx s t a s1 hR h₁
  obtain ⟨t', ht', hR'⟩ := hf a s1 t1 b s' hR1 h₂
  exact ⟨t', (yields_bind _ _ _ _ _).2 ⟨a, t1, ht1, ht'⟩, hR'⟩

theorem follows_look {f : σ → α} (h : ∀ s t, R s t → f s = f t) : Follows R (look f : Proc σ ε α) := by
  intro s t b s' hR hy
  obtain ⟨rfl, rfl⟩ := (yields_look _ _ _ _).1 hy
  exact ⟨t, (yields_look _ _ _ _).2 ⟨h s' t hR, rfl⟩, hR⟩

theorem follows_write {f : σ → σ} (h : ∀ s t, R s t → R (f s) (f t)) : Follows R (write f : Proc σ ε Unit) := by
  intro s t u _ hR hy
  obtain rfl := (yields_write _ _ _ _).1 hy
  exact ⟨f t, (yields_write _ _ _ _).2 rfl, h s t hR⟩

theorem follows_ite [Decidable c] {x y : Proc σ ε α} (hx : Follows R x)
    (hy : Follows R y) : Follows R (if c then x else y) := by
  split
  · exact hx
  · exact hy

end Lib
