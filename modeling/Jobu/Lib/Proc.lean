import Mathlib.Data.List.Forall2
import Mathlib.Logic.Basic
import Mathlib.Tactic.Common

/-!
# Procedures over a shared state

A procedure reads and writes a state `σ` and ends with a value or an error.  An error keeps
the state reached so far (`EStateM`), so a sequence of committed units stopped half way leaves
its committed prefix behind; `atomically` is the transaction that undoes its body on an error.

Three notions carry all later reasoning, and no proof about a procedure unfolds the monad:

  > `Yields x s a s'`: started in `s`, the procedure returns `a` in state `s'`.
  > `after x s`: the state left behind, whether the procedure returned or failed.
  > `Preserves I x`: `I` survives the procedure, whatever its outcome.
-/

namespace Lib

open List EStateM

/-- A procedure over the state `σ` that may fail with `ε`. -/
abbrev Proc (σ ε α : Type) := EStateM ε σ α

variable {σ τ ε α β : Type}

/-- Started in `s`, the procedure returns `a` and leaves `s'`. -/
def Yields (x : Proc σ ε α) (s : σ) (a : α) (s' : σ) : Prop := x s = .ok a s'

/-- The state a procedure leaves behind, on success and on failure. -/
def after (x : Proc σ ε α) (s : σ) : σ :=
  match x s with
  | .ok _ s' => s'
  | .error _ s' => s'

/-- The value a procedure returns, if it does. -/
def answer (x : Proc σ ε α) (s : σ) : Option α :=
  match x s with
  | .ok a _ => some a
  | .error _ _ => none

/-- `I` survives the procedure, whatever its outcome. -/
def Preserves (I : σ → Prop) (x : Proc σ ε α) : Prop := ∀ s, I s → I (after x s)

/-! ## Fallible pure functions -/

/-- Fails with `e` unless the condition holds. -/
def ensure (c : Prop) [Decidable c] (e : ε) : Except ε Unit :=
  if c then .ok () else .error e

/-- The value of an option that has to be there. -/
def orError (o : Option α) (e : ε) : Except ε α :=
  match o with
  | some a => .ok a
  | none => .error e

@[simp] theorem ensure_eq_ok {c : Prop} [Decidable c] {e : ε} {u : Unit} : ensure c e = .ok u ↔ c := by
  unfold ensure
  by_cases hc : c
  · simp [hc]
  · simp [hc]

@[simp] theorem orError_eq_ok {o : Option α} {e : ε} {a : α} : orError o e = .ok a ↔ o = some a := by
  cases o with
  | none | some => simp [orError]

@[simp] theorem except_pure_eq_ok {a b : α} : (pure a : Except ε α) = .ok b ↔ b = a := by
  show Except.ok a = .ok b ↔ _
  rw [Except.ok.injEq]
  exact eq_comm

@[simp] theorem except_bind_eq_ok {x : Except ε α} {f : α → Except ε β} {b : β} :
    (x >>= f) = .ok b ↔ ∃ a, x = .ok a ∧ f a = .ok b := by
  cases x with
  | error e =>
    show Except.error e = .ok b ↔ _
    simp
  | ok a =>
    show f a = .ok b ↔ _
    simp

@[simp] theorem except_mapError_eq_ok {ε' : Type} {x : Except ε α} {f : ε → ε'} {a : α} :
    x.mapError f = .ok a ↔ x = .ok a := by
  cases x with
  | error | ok => simp [Except.mapError]

/-- The rules of the tests together. -/
theorem bool_steps : (∀ a b : Bool, (a && b) = true ↔ a = true ∧ b = true) ∧
    (∀ a b : Bool, (a || b) = true ↔ a = true ∨ b = true) ∧ (∀ b : Bool, (!b) = true ↔ b = false) ∧
    ∀ {p : Prop} [Decidable p], decide p = true ↔ p := by
  simp

/-- The rules of the checks together. -/
theorem except_steps : (∀ {α β : Type} {x : Except ε α} {f : α → Except ε β} {b : β},
      (x >>= f) = .ok b ↔ ∃ a, x = .ok a ∧ f a = .ok b) ∧
    (∀ {α : Type} {a b : α}, (pure a : Except ε α) = .ok b ↔ b = a) ∧
    (∀ {c : Prop} [Decidable c] {e : ε} {u : Unit}, ensure c e = .ok u ↔ c) ∧
    (∀ {α : Type} {o : Option α} {e : ε} {a : α}, orError o e = .ok a ↔ o = some a) ∧
    ∀ {α ε' : Type} {x : Except ε' α} {f : ε' → ε} {a : α}, x.mapError f = .ok a ↔ x = .ok a :=
  ⟨except_bind_eq_ok, except_pure_eq_ok, ensure_eq_ok, orError_eq_ok, except_mapError_eq_ok⟩

/-- Every row is read, and in order. -/
theorem except_mapM_eq_ok {f : α → Except ε β} {l : List α} {l' : List β} :
    l.mapM f = .ok l' ↔ List.Forall₂ (fun a b => f a = .ok b) l l' := by
  induction l generalizing l' with
  | nil => simp [mapM_nil]
  | cons _ _ ih =>
    rw [mapM_cons]
    simp only [except_bind_eq_ok, except_pure_eq_ok, ih, forall₂_cons_left_iff]
    constructor
    · rintro ⟨b, hb, bs, hbs, rfl⟩
      exact ⟨b, bs, hb, hbs, rfl⟩
    · rintro ⟨b, bs, hb, hbs, rfl⟩
      exact ⟨b, hb, bs, hbs, rfl⟩

theorem mem_of_except_mapM {f : α → Except ε β} {l : List α} {l' : List β}
    (h : l.mapM f = .ok l') {b : β} (hb : b ∈ l') : ∃ a ∈ l, f a = .ok b := by
  rw [except_mapM_eq_ok] at h
  induction h with
  | nil => cases hb
  | cons hab _ ih =>
    rcases mem_cons.1 hb with rfl | hb
    · exact ⟨_, mem_cons_self, hab⟩
    · obtain ⟨a, ha, hf⟩ := ih hb
      exact ⟨a, mem_cons_of_mem _ ha, hf⟩

theorem map_of_except_mapM {γ : Type} {f : α → Except ε β} {g : β → γ} {k : α → γ}
    {l : List α} {l' : List β} (hg : ∀ a ∈ l, ∀ b, f a = .ok b → g b = k a)
    (h : l.mapM f = .ok l') : l'.map g = l.map k := by
  rw [except_mapM_eq_ok] at h
  induction h with
  | nil => rfl
  | cons hab _ ih =>
    rw [map_cons, map_cons, hg _ mem_cons_self _ hab, ih fun a ha => hg a (mem_cons_of_mem _ ha)]

/-! ## Primitive procedures -/

/-- Stops with an error. -/
def fail (e : ε) : Proc σ ε α := fun s => .error e s

/-- Evaluates a read of the state. -/
def query (q : σ → Except ε α) : Proc σ ε α := fun s =>
  match q s with
  | .ok a => .ok a s
  | .error e => .error e s

/-- Stops with `e` unless the condition holds. -/
def require (c : Prop) [Decidable c] (e : ε) : Proc σ ε Unit :=
  if c then pure () else fail e

/-- The value of an option that has to be there. -/
def demand (o : Option α) (e : ε) : Proc σ ε α :=
  match o with
  | some a => pure a
  | none => fail e

/-- The value of a fallible pure function. -/
def lift (r : Except ε α) : Proc σ ε α := query fun _ => r

/-- Reads a total function of the state. -/
def look (f : σ → α) : Proc σ ε α := fun s => .ok (f s) s

/-- Replaces the state. -/
def write (f : σ → σ) : Proc σ ε Unit := fun s => .ok () (f s)

/-- A transaction: an error of the body restores the state it started from. -/
def atomically (x : Proc σ ε α) : Proc σ ε α := fun s =>
  match x s with
  | .ok a s' => .ok a s'
  | .error e _ => .error e s

/-- A transaction with its commit, which may fail too. -/
def transaction (fault : Option ε) (x : Proc σ ε α) : Proc σ ε α := atomically do
  let a ← x
  match fault with
  | none => pure a
  | some e => fail e

/-- A transaction that commits only when its body returns a value and rolls back otherwise. -/
def commitSome (fault : Option ε) (x : Proc σ ε (Option α)) : Proc σ ε (Option α) := fun s =>
  match x s, fault with
  | .ok none _, _ => .ok none s
  | .ok (some a) s', none => .ok (some a) s'
  | .ok (some _) _, some e => .error e s
  | .error e _, _ => .error e s

/-- Reports an error under another name. -/
def rewording (f : ε → ε) (x : Proc σ ε α) : Proc σ ε α := fun s =>
  match x s with
  | .ok a s' => .ok a s'
  | .error e s' => .error (f e) s'

/-- Runs a procedure on one component of a larger state. -/
def zoom (get : τ → σ) (set : τ → σ → τ) (x : Proc σ ε α) : Proc τ ε α := fun t =>
  match x (get t) with
  | .ok a s => .ok a (set t s)
  | .error e s => .error e (set t s)

/-! ## What each primitive yields -/

theorem Yields.unique {x : Proc σ ε α} {s : σ} {a b : α} {s1 s2 : σ}
    (h₁ : Yields x s a s1) (h₂ : Yields x s b s2) : a = b ∧ s1 = s2 := by
  unfold Yields at h₁ h₂
  rw [h₁] at h₂
  injection h₂ with ha hs
  exact ⟨ha, hs⟩

theorem Yields.after_eq {x : Proc σ ε α} {s s' : σ} {a : α} (h : Yields x s a s') : after x s = s' := by
  unfold after
  rw [h]

theorem yields_after {x : Proc σ ε α} {s : σ} {a : α} (h : answer x s = some a) : Yields x s a (after x s) := by
  unfold answer at h
  unfold Yields after
  cases hx : x s with
  | ok =>
    rw [hx] at h
    cases h
    rfl
  | error =>
    rw [hx] at h
    cases h

@[simp] theorem yields_pure (a b : α) (s s' : σ) : Yields (pure a : Proc σ ε α) s b s' ↔ b = a ∧ s' = s := by
  show Result.ok a s = .ok b s' ↔ _
  rw [Result.ok.injEq]
  exact ⟨fun h => ⟨h.1.symm, h.2.symm⟩, fun h => ⟨h.1.symm, h.2.symm⟩⟩

/-- The sequencing rule: the intermediate value and state are named. -/
@[simp] theorem yields_bind (x : Proc σ ε α) (f : α → Proc σ ε β) (s s' : σ) (b : β) :
    Yields (x >>= f) s b s' ↔ ∃ a s1, Yields x s a s1 ∧ Yields (f a) s1 b s' := by
  show EStateM.bind x f s = .ok b s' ↔ _
  unfold Yields EStateM.bind
  cases hx : x s with
  | ok | error => simp

@[simp] theorem yields_fail (e : ε) (s s' : σ) (a : α) : Yields (fail e : Proc σ ε α) s a s' ↔ False := by
  simp [Yields, fail]

@[simp] theorem yields_query (q : σ → Except ε α) (s s' : σ) (a : α) :
    Yields (query q) s a s' ↔ q s = .ok a ∧ s' = s := by
  unfold Yields query
  cases q s with
  | ok => simp [eq_comm]
  | error => simp

@[simp] theorem yields_lift (r : Except ε α) (s s' : σ) (a : α) :
    Yields (lift r : Proc σ ε α) s a s' ↔ r = .ok a ∧ s' = s :=
  yields_query _ s s' a

@[simp] theorem yields_ite (c : Prop) [Decidable c] (x y : Proc σ ε α) (s s' : σ) (a : α) :
    Yields (if c then x else y) s a s' ↔ if c then Yields x s a s' else Yields y s a s' := by
  split <;> rfl

@[simp] theorem yields_require (c : Prop) [Decidable c] (e : ε) (s s' : σ) (u : Unit) :
    Yields (require c e : Proc σ ε Unit) s u s' ↔ c ∧ s' = s := by
  unfold require
  by_cases hc : c
  · simp [hc]
  · simp [hc]

@[simp] theorem yields_demand (o : Option α) (e : ε) (s s' : σ) (a : α) :
    Yields (demand o e : Proc σ ε α) s a s' ↔ o = some a ∧ s' = s := by
  unfold demand
  cases o with
  | none => simp
  | some => simp [eq_comm]

@[simp] theorem yields_look (f : σ → α) (s s' : σ) (a : α) :
    Yields (look f : Proc σ ε α) s a s' ↔ a = f s ∧ s' = s := by
  simp only [Yields, look, Result.ok.injEq, eq_comm]

@[simp] theorem yields_write (f : σ → σ) (s s' : σ) (u : Unit) :
    Yields (write f : Proc σ ε Unit) s u s' ↔ s' = f s := by
  simp only [Yields, write, Result.ok.injEq, true_and, eq_comm]

@[simp] theorem yields_atomically (x : Proc σ ε α) (s s' : σ) (a : α) :
    Yields (atomically x) s a s' ↔ Yields x s a s' := by
  unfold Yields atomically
  cases x s with
  | ok => rfl
  | error => simp

@[simp] theorem yields_transaction (fault : Option ε) (x : Proc σ ε α) (s s' : σ) (a : α) :
    Yields (transaction fault x) s a s' ↔ fault = none ∧ Yields x s a s' := by
  unfold transaction
  rw [yields_atomically, yields_bind]
  cases fault with
  | none | some => simp

/-- The rules of the single steps together. -/
theorem yields_steps : (∀ {α β : Type} (x : Proc σ ε α) (f : α → Proc σ ε β) (s s' : σ) (b : β),
      Yields (x >>= f) s b s' ↔ ∃ a s1, Yields x s a s1 ∧ Yields (f a) s1 b s') ∧
    (∀ {α : Type} (a b : α) (s s' : σ), Yields (pure a : Proc σ ε α) s b s' ↔ b = a ∧ s' = s) ∧
    (∀ (c : Prop) [Decidable c] (e : ε) (s s' : σ) (u : Unit),
      Yields (require c e : Proc σ ε Unit) s u s' ↔ c ∧ s' = s) ∧
    (∀ {α : Type} (o : Option α) (e : ε) (s s' : σ) (a : α),
      Yields (demand o e : Proc σ ε α) s a s' ↔ o = some a ∧ s' = s) ∧
    (∀ {α : Type} (f : σ → α) (s s' : σ) (a : α), Yields (look f : Proc σ ε α) s a s' ↔ a = f s ∧ s' = s) ∧
    (∀ (f : σ → σ) (s s' : σ) (u : Unit), Yields (write f : Proc σ ε Unit) s u s' ↔ s' = f s) ∧
    (∀ {α : Type} (r : Except ε α) (s s' : σ) (a : α), Yields (lift r : Proc σ ε α) s a s' ↔ r = .ok a ∧ s' = s) ∧
    (∀ {α : Type} (q : σ → Except ε α) (s s' : σ) (a : α), Yields (query q) s a s' ↔ q s = .ok a ∧ s' = s) ∧
    ∀ {α : Type} (fault : Option ε) (x : Proc σ ε α) (s s' : σ) (a : α),
      Yields (transaction fault x) s a s' ↔ fault = none ∧ Yields x s a s' :=
  ⟨yields_bind, yields_pure, yields_require, yields_demand, yields_look, yields_write, yields_lift,
    yields_query, yields_transaction⟩

theorem yields_commitSome_some (fault : Option ε) (x : Proc σ ε (Option α)) (s s' : σ) (a : α) :
    Yields (commitSome fault x) s (some a) s' ↔ fault = none ∧ Yields x s (some a) s' := by
  unfold Yields commitSome
  cases x s with
  | ok o => cases o <;> cases fault <;> simp
  | error => simp

@[simp] theorem yields_rewording (f : ε → ε) (x : Proc σ ε α) (s s' : σ) (a : α) :
    Yields (rewording f x) s a s' ↔ Yields x s a s' := by
  unfold Yields rewording
  cases x s with
  | ok => rfl
  | error => simp

@[simp] theorem yields_zoom (get : τ → σ) (set : τ → σ → τ) (x : Proc σ ε α) (t t' : τ) (a : α) :
    Yields (zoom get set x) t a t' ↔ ∃ s, Yields x (get t) a s ∧ t' = set t s := by
  unfold Yields zoom
  cases x (get t) with
  | ok => simp [eq_comm, and_assoc]
  | error => simp

/-! ## Sequencing over a list -/

@[simp] theorem yields_forM_nil (f : α → Proc σ ε PUnit) (s s' : σ) (u : PUnit) :
    Yields (forM [] f) s u s' ↔ s' = s := by
  simp [forM_nil]

@[simp] theorem yields_forM_cons (f : α → Proc σ ε PUnit) (a : α) (as : List α) (s s' : σ) (u : PUnit) :
    Yields (forM (a :: as) f) s u s' ↔ ∃ s1, Yields (f a) s ⟨⟩ s1 ∧ Yields (forM as f) s1 u s' := by
  rw [forM_cons, yields_bind]
  exact ⟨fun ⟨⟨⟩, h⟩ => h, fun h => ⟨⟨⟩, h⟩⟩

/-- What every element does to the state, the whole list does. -/
theorem forM_rel {P : σ → σ → Prop} (hr : ∀ s, P s s)
    (htr : ∀ s1 s2 s3, P s1 s2 → P s2 s3 → P s1 s3) {f : α → Proc σ ε PUnit} {as : List α}
    (hstep : ∀ a ∈ as, ∀ s s', Yields (f a) s ⟨⟩ s' → P s s') {s s' : σ} {u : PUnit}
    (h : Yields (forM as f) s u s') : P s s' := by
  induction as generalizing s with
  | nil =>
    rw [yields_forM_nil] at h
    exact h ▸ hr s
  | cons a as ih =>
    obtain ⟨s1, h₁, h₂⟩ := (yields_forM_cons f a as s s' u).1 h
    exact htr _ _ _ (hstep a mem_cons_self s s1 h₁)
      (ih (fun b hb => hstep b (mem_cons_of_mem a hb)) h₂)

/-! ## What survives a procedure -/

theorem preserves_pure (I : σ → Prop) (a : α) : Preserves I (pure a : Proc σ ε α) := fun _ hs => hs

theorem preserves_fail (I : σ → Prop) (e : ε) : Preserves I (fail e : Proc σ ε α) := fun _ hs => hs

theorem preserves_query (I : σ → Prop) (q : σ → Except ε α) : Preserves I (query q) := by
  intro s hs
  unfold after query
  cases q s with
  | ok | error => exact hs

theorem preserves_look (I : σ → Prop) (f : σ → α) : Preserves I (look f : Proc σ ε α) := fun _ hs => hs

/-- A sequence ends where its second part does, or its first part if that fails. -/
theorem after_bind (x : Proc σ ε α) (f : α → Proc σ ε β) (s : σ) :
    (∃ a s1, Yields x s a s1 ∧ after (x >>= f) s = after (f a) s1) ∨ after (x >>= f) s = after x s := by
  show (∃ a s1, _ ∧ after (EStateM.bind x f) s = _) ∨ after (EStateM.bind x f) s = _
  unfold after EStateM.bind Yields
  cases hx : x s with
  | ok a s1 => exact .inl ⟨a, s1, rfl, rfl⟩
  | error => exact .inr rfl

theorem preserves_bind {I : σ → Prop} {x : Proc σ ε α} {f : α → Proc σ ε β}
    (hx : Preserves I x) (hf : ∀ a, Preserves I (f a)) : Preserves I (x >>= f) := by
  intro s hs
  have h₁ := hx s hs
  rcases after_bind x f s with ⟨a, s1, hy, he⟩ | he
  · rw [he]
    rw [hy.after_eq] at h₁
    exact hf a s1 h₁
  · rw [he]
    exact h₁

theorem preserves_ite {I : σ → Prop} {c : Prop} [Decidable c] {x y : Proc σ ε α}
    (hx : Preserves I x) (hy : Preserves I y) : Preserves I (if c then x else y) := by
  split
  · exact hx
  · exact hy

theorem preserves_require (I : σ → Prop) (c : Prop) [Decidable c] (e : ε) : Preserves I (require c e : Proc σ ε Unit) :=
  preserves_ite (preserves_pure I ()) (preserves_fail I e)

theorem preserves_demand (I : σ → Prop) (o : Option α) (e : ε) : Preserves I (demand o e : Proc σ ε α) := by
  cases o with
  | none => exact preserves_fail I e
  | some a => exact preserves_pure I a

theorem preserves_forM {I : σ → Prop} {f : α → Proc σ ε PUnit} {as : List α}
    (h : ∀ a ∈ as, Preserves I (f a)) : Preserves I (forM as f) := by
  induction as with
  | nil => exact preserves_pure I PUnit.unit
  | cons a _ ih =>
    rw [forM_cons]
    exact preserves_bind (h a mem_cons_self)
      fun _ => ih fun b hb => h b (mem_cons_of_mem a hb)

/-- A failed transaction leaves the state as it was. -/
theorem atomically_error {x : Proc σ ε α} {s s' : σ} {e : ε} (h : atomically x s = .error e s') : s' = s := by
  unfold atomically at h
  cases hx : x s with
  | ok =>
    rw [hx] at h
    cases h
  | error =>
    rw [hx] at h
    cases h
    rfl

theorem after_atomically (x : Proc σ ε α) (s : σ) :
    after (atomically x) s = s ∨ ∃ a, Yields x s a (after (atomically x) s) := by
  unfold after atomically Yields
  cases hx : x s with
  | ok a => exact .inr ⟨a, rfl⟩
  | error => exact .inl rfl

theorem after_transaction (fault : Option ε) (x : Proc σ ε α) (s : σ) :
    after (transaction fault x) s = s ∨ ∃ a, Yields x s a (after (transaction fault x) s) := by
  refine (after_atomically _ s).imp id fun ⟨a, h⟩ => ⟨a, ?_⟩
  exact ((yields_transaction fault x s _ a).1 ((yields_atomically _ _ _ _).2 h)).2

/-! ## Failures without a trace -/

/-- If the procedure fails in `s`, it leaves `s`. -/
def Clean (x : Proc σ ε α) (s : σ) : Prop := ∀ e s', x s = .error e s' → s' = s

theorem clean_pure (a : α) (s : σ) : Clean (pure a : Proc σ ε α) s := by
  intro e _ h
  cases h

theorem clean_look (f : σ → α) (s : σ) : Clean (look f : Proc σ ε α) s := by
  intro e _ h
  cases h

theorem clean_query (q : σ → Except ε α) (s : σ) : Clean (query q) s := by
  intro e _ h
  unfold query at h
  cases hq : q s with
  | ok =>
    rw [hq] at h
    cases h
  | error =>
    rw [hq] at h
    cases h
    rfl

theorem clean_require (c : Prop) [Decidable c] (e : ε) (s : σ) : Clean (require c e) s := by
  unfold require
  split
  · exact clean_pure () s
  intro _ _ h
  cases h
  rfl

theorem clean_demand (o : Option α) (e : ε) (s : σ) : Clean (demand o e) s := by
  cases o with
  | some a => exact clean_pure a s
  | none =>
    intro _ _ h
    cases h
    rfl

theorem clean_atomically (x : Proc σ ε α) (s : σ) : Clean (atomically x) s := fun _ _ h => atomically_error h

theorem clean_transaction (fault : Option ε) (x : Proc σ ε α) (s : σ) :
    Clean (transaction fault x) s := clean_atomically _ s

/-- The second part may fail only with nothing written before it. -/
theorem clean_bind {x : Proc σ ε α} {f : α → Proc σ ε β} {s : σ} (hx : Clean x s)
    (hf : ∀ a s1, Yields x s a s1 → ∀ e s', f a s1 = .error e s' → s' = s) :
    Clean (x >>= f) s := by
  intro e s' h
  change EStateM.bind x f s = _ at h
  unfold EStateM.bind at h
  cases hxs : x s with
  | ok a s1 =>
    rw [hxs] at h
    exact hf a s1 hxs e s' h
  | error =>
    rw [hxs] at h
    cases h
    exact hx _ _ hxs

theorem clean_zoom {get : τ → σ} {set : τ → σ → τ} {x : Proc σ ε α} {t : τ}
    (hse : set t (get t) = t) (hx : Clean x (get t)) : Clean (zoom get set x) t := by
  intro e _ h
  unfold zoom at h
  cases hxt : x (get t) with
  | ok =>
    rw [hxt] at h
    cases h
  | error =>
    rw [hxt] at h
    cases h
    rw [hx _ _ hxt, hse]

/-- A clean procedure succeeds or changes nothing. -/
theorem Clean.after_or {x : Proc σ ε α} {s : σ} (h : Clean x s) : after x s = s ∨ ∃ a, Yields x s a (after x s) := by
  unfold after Yields
  cases hx : x s with
  | ok a => exact .inr ⟨a, rfl⟩
  | error e s' => exact .inl (h e s' hx)

end Lib
