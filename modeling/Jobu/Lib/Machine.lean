import Mathlib.Data.Nat.Init

/-!
# Machines driven from outside

`step s m` is what a move of the environment does in a state, if the move is possible there.
`Reaches step start s`: some moves lead from the start to the state.

A `Run` goes on without end; the machine may also rest in it.  What is in a queue of the machine comes to
its head (`Run.served`), and a queue that gets no more is empty in the end (`Run.emptied`), if the moves
that serve the queue do not stay away.
-/

namespace Lib

open List

variable {S M : Type} {step : S → M → Option S} {start s : S}

/-- The states that some moves lead to. -/
inductive Reaches (step : S → M → Option S) (start : S) : S → Prop
  | start : Reaches step start start
  | next {s s' : S} (before : Reaches step start s) (m : M) (h : step s m = some s') :
    Reaches step start s'

/-- **What holds at the start and survives every move holds in every state.** -/
theorem Reaches.invariant {I : S → Prop} (h : Reaches step start s) (hst : I start)
    (hstep : ∀ s m s', I s → step s m = some s' → I s') : I s := by
  induction h with
  | start => exact hst
  | next _ m hm ih => exact hstep _ m _ ih hm

/-- Some moves, one after the other. -/
def moves (step : S → M → Option S) (s : S) : List M → Option S
  | [] => some s
  | m :: rest => (step s m).bind fun s' => moves step s' rest

theorem Reaches.of_moves {list : List M} {s1 s2 : S} (hbe : Reaches step start s1)
    (h : moves step s1 list = some s2) : Reaches step start s2 := by
  induction list generalizing s1 with
  | nil =>
    cases h
    exact hbe
  | cons m _ ih =>
    obtain ⟨_, hm, hr⟩ := Option.bind_eq_some_iff.1 h
    exact ih (hbe.next m hm) hr

theorem moves_append (step : S → M → Option S) (s : S) (list more : List M) :
    moves step s (list ++ more) = (moves step s list).bind fun s' => moves step s' more := by
  induction list generalizing s with
  | nil => rfl
  | cons m rest ih =>
    show (step s m).bind (fun s' => moves step s' (rest ++ more)) =
      ((step s m).bind fun s' => moves step s' rest).bind fun s' => moves step s' more
    simp only [ih, Option.bind_assoc]

/-! ## Runs without end -/

/-- A run, in which the machine may also rest. -/
structure Run (step : S → M → Option S) (start : S) where
  states : Nat → S
  move : Nat → Option M
  first : states 0 = start
  rests : ∀ i, move i = none → states (i + 1) = states i
  moves : ∀ i m, move i = some m → step (states i) m = some (states (i + 1))

namespace Run

/-- Some moves, and then nothing more. -/
def ofMoves (list : List M) (h : (Lib.moves step start list).isSome = true) : Run step start where
  states i := (Lib.moves step start (list.take i)).getD start
  move i := list[i]?
  first := by
    rw [List.take_zero]
    rfl
  rests i hnone := by
    rw [List.getElem?_eq_none_iff] at hnone
    rw [List.take_of_length_le hnone, List.take_of_length_le (by omega)]
  moves i m hm := by
    -- The moves up to any point are possible, since all of them are.
    have hsome : ∀ n, ∃ s, Lib.moves step start (list.take n) = some s := by
      intro n
      obtain ⟨final, hfinal⟩ := Option.isSome_iff_exists.1 h
      rw [← List.take_append_drop n list, moves_append] at hfinal
      obtain ⟨s, hs, -⟩ := Option.bind_eq_some_iff.1 hfinal
      exact ⟨s, hs⟩
    obtain ⟨before, hbefore⟩ := hsome i
    obtain ⟨after, hafter⟩ := hsome (i + 1)
    rw [hbefore, hafter, Option.getD_some, Option.getD_some]
    rw [List.take_add_one, moves_append, hbefore, hm] at hafter
    simpa [Lib.moves] using hafter

variable {i : Nat}

theorem ofMoves_last (list : List M) (h : (Lib.moves step start list).isSome = true)
    (hi : list.length ≤ i) : (ofMoves list h).states i = (ofMoves list h).states list.length := by
  show (Lib.moves step start (list.take i)).getD start = (Lib.moves step start (list.take list.length)).getD start
  rw [take_of_length_le hi, take_of_length_le (Nat.le_refl _)]

variable (run : Run step start)

/-- **What holds at the start and survives every move of the run holds in every state.** -/
theorem always {I : S → Prop} (hst : I start)
    (hstep : ∀ i m, run.move i = some m → I (run.states i) → I (run.states (i + 1))) :
    ∀ i, I (run.states i) := by
  intro i
  induction i with
  | zero => exact run.first.symm ▸ hst
  | succ i ih =>
    cases hm : run.move i with
    | none => exact (run.rests i hm).symm ▸ ih
    | some m => exact hstep i m hm ih

/-- What survives every move from some state on holds from there on. -/
theorem onward {P : S → Prop} (h : P (run.states i))
    (hstep : ∀ j m, i ≤ j → run.move j = some m → P (run.states j) → P (run.states (j + 1))) :
    ∀ j, i ≤ j → P (run.states j) := by
  intro j hle
  induction j, hle using Nat.le_induction with
  | base => exact h
  | succ j hle ih =>
    cases hm : run.move j with
    | none => exact (run.rests j hm).symm ▸ ih
    | some m => exact hstep j m hle hm ih

section Queue

variable {T : Type} (queue : S → List T) {serve : M}
  (hse : ∀ i, run.move i = some serve → ∃ first, queue (run.states i) = first :: queue (run.states (i + 1)))
  (hfa : ∀ i, queue (run.states i) ≠ [] → ∃ j, i ≤ j ∧ run.move j = some serve)

include hse in
/-- Up to a move that serves the queue somebody takes its head. -/
theorem head_taken (hstep : ∀ i m, run.move i = some m →
    (∃ more, queue (run.states (i + 1)) = queue (run.states i) ++ more) ∨
      ∃ first, queue (run.states i) = first :: queue (run.states (i + 1)))
    {j : Nat} (hj : run.move j = some serve) (d : Nat) :
    ∀ i first rest, i + d = j → queue (run.states i) = first :: rest → ∃ k more, i ≤ k ∧ (∃ m, run.move k = some m) ∧
        queue (run.states k) = first :: (rest ++ more) ∧ queue (run.states (k + 1)) = rest ++ more := by
  induction d with
  | zero =>
    intro i first rest hi hq
    obtain rfl : i = j := by omega
    obtain ⟨other, ho⟩ := hse i hj
    refine ⟨i, [], Nat.le_refl i, ⟨serve, hj⟩, by simp [hq], ?_⟩
    rw [hq] at ho
    rw [append_nil]
    exact (cons.inj ho).2.symm
  | succ _ ih =>
    intro i first rest _ hq
    have hr : ∀ more, queue (run.states (i + 1)) = queue (run.states i) ++ more →
      ∃ k more, i ≤ k ∧ (∃ m, run.move k = some m) ∧ queue (run.states k) = first :: (rest ++ more) ∧
        queue (run.states (k + 1)) = rest ++ more := by
      intro more hm
      rw [hq, cons_append] at hm
      obtain ⟨k, others, _, hk, hh, hta⟩ := ih (i + 1) first (rest ++ more) (by omega) hm
      rw [append_assoc] at hh hta
      exact ⟨k, more ++ others, by omega, hk, hh, hta⟩
    cases hmo : run.move i with
    | none => exact hr [] (by rw [run.rests i hmo, append_nil])
    | some m =>
      rcases hstep i m hmo with ⟨more, hm⟩ | ⟨_, ho⟩
      · exact hr more hm
      rw [hq] at ho
      refine ⟨i, [], Nat.le_refl i, ⟨m, hmo⟩, by simp [hq], ?_⟩
      rw [append_nil]
      exact (cons.inj ho).2.symm

include hse hfa in
/-- **What is in the queue comes to its head and is taken.** -/
theorem served (hstep : ∀ i m, run.move i = some m →
    (∃ more, queue (run.states (i + 1)) = queue (run.states i) ++ more) ∨
      ∃ first, queue (run.states i) = first :: queue (run.states (i + 1)))
    (task : T) (ahead : List T) :
    ∀ i behind, queue (run.states i) = ahead ++ task :: behind → ∃ j, i ≤ j ∧ (∃ m, run.move j = some m) ∧
      queue (run.states j) = task :: queue (run.states (j + 1)) := by
  induction ahead with
  | nil =>
    intro i behind hq
    obtain ⟨j, _, hj⟩ := hfa i (by simp [hq])
    obtain ⟨k, more, hi, hk, hh, hta⟩ :=
      run.head_taken queue hse hstep hj (j - i) i task behind (by omega) hq
    exact ⟨k, hi, hk, by rw [hh, hta]⟩
  | cons first ahead ih =>
    intro i behind hq
    obtain ⟨j, _, hj⟩ := hfa i (by simp [hq])
    obtain ⟨k, more, _, -, -, hta⟩ :=
      run.head_taken queue hse hstep hj (j - i) i first (ahead ++ task :: behind) (by omega) hq
    obtain ⟨l, _, hl⟩ := ih (k + 1) (behind ++ more) (by simp [hta])
    exact ⟨l, by omega, hl⟩

include hse hfa in
/-- **A queue that gets no more is empty in the end.** -/
theorem emptied (hstep : ∀ j m, i ≤ j → run.move j = some m → queue (run.states (j + 1)) = queue (run.states j) ∨
      ∃ first, queue (run.states j) = first :: queue (run.states (j + 1))) :
    ∃ j, i ≤ j ∧ queue (run.states j) = [] := by
  -- Between two states the queue loses some of its head.
  have hsh : ∀ d j, i ≤ j → (queue (run.states (j + d))).length ≤ (queue (run.states j)).length := by
    intro d
    induction d with
    | zero => exact fun _ _ => Nat.le_refl _
    | succ d ih =>
      intro j hj
      refine Nat.le_trans ?_ (ih j hj)
      cases hm : run.move (j + d) with
      | none => exact Nat.le_of_eq (by rw [← Nat.add_assoc, run.rests (j + d) hm])
      | some m =>
        rcases hstep (j + d) m (by omega) hm with hsa | ⟨_, hfi⟩
        · exact Nat.le_of_eq (by rw [← Nat.add_assoc, hsa])
        · rw [hfi, ← Nat.add_assoc, length_cons]
          omega
  have hleng : ∀ n j, i ≤ j → (queue (run.states j)).length ≤ n → ∃ k, j ≤ k ∧ queue (run.states k) = [] := by
    intro n
    induction n with
    | zero =>
      intro j _ _
      exact ⟨j, Nat.le_refl j, length_eq_zero_iff.1 (by omega)⟩
    | succ _ ih =>
      intro j hj _
      by_cases hn : queue (run.states j) = []
      · exact ⟨j, Nat.le_refl j, hn⟩
      obtain ⟨k, hjk, hk⟩ := hfa j hn
      obtain ⟨_, hfi⟩ := hse k hk
      have hlen := hsh (k - j) j hj
      rw [Nat.add_sub_cancel' hjk, hfi, length_cons] at hlen
      obtain ⟨l, _, hl⟩ := ih (k + 1) (by omega) (by omega)
      exact ⟨l, by omega, hl⟩
  exact hleng _ i (Nat.le_refl i) (Nat.le_refl _)

end Queue

end Run

end Lib
