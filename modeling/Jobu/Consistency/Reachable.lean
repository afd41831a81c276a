import Jobu.Commits
import Jobu.Consistency.JobOperations
import Jobu.Consistency.Recovery

/-!
# Every stored database is consistent

Each committed transaction is one of three kinds: it starts a run, it moves a job, or it starts
nothing and moves nothing.  All three keep the database consistent.

  > `Stored.consistent`: whatever the daemon, its callers and its crashes did, the database is
  > consistent.
-/

namespace Jobu

open Lib Scheduler Management

/-- A transaction that starts no run: the runs it touches are not running afterwards. -/
structure Stops (env : Environment) (touched : Uuid → Prop) (db db' : Database) : Prop where
  moves : Moves env touched Nobody db db'
  stopped : ∀ run' ∈ db'.runs, touched run'.id → run'.state ≠ .running

variable {db db' : Database} {env : Environment}

theorem Moves.stops (h : Keeps env db db') : Stops env Nobody db db' := ⟨h, fun _ _ => False.elim⟩

theorem Consistent.moves_refl (h : Intact env db) :
    Keeps env db db := h.moves_retimed (.refl db)

/-- The three kinds of transactions. -/
inductive Kind (env : Environment) (db db' : Database) : Prop
  | stops (touched : Uuid → Prop) (h : Stops env touched db db')
  | moves (jobId targetId : Uuid) (h : Management.MovesJob env jobId targetId db db')
  | claims (claim : Claim) (h : Claims env claim db db')

/-- The result of an operation does not matter here. -/
theorem yields_ignoring {α : Type} {x : Txn α} {u : Unit}
    (h : Yields (do let _ ← x : Txn Unit) db u db') : ∃ a, Yields x db a db' := by
  obtain ⟨a, _, hy, hu⟩ := (yields_bind _ _ _ _ _).1 h
  obtain ⟨-, rfl⟩ := (yields_pure _ _ _ _).1 hu
  exact ⟨a, hy⟩

/-- What the management operations do: all but a move of a job leave the running runs alone. -/
theorem Operation.moves {d : Deployment} {amb : Ambient} {op : Operation} {db db' : Database}
    (h : Intact d.env db) (hy : Yields (op.run d amb) db () db') :
    Keeps d.env db db' ∨ ∃ request target, op = .moveJob request ∧
      Yields (findQueue d.env request.targetQueue false) db (some target) db ∧
      MovesJob d.env request.jobId target.id db db' := by
  cases op with
  | createQueue =>
    obtain ⟨_, hy⟩ := yields_ignoring hy
    exact .inl (createQueue_moves h hy)
  | updateQueue =>
    obtain ⟨_, hy⟩ := yields_ignoring hy
    exact .inl (updateQueue_moves h hy)
  | suspendQueue =>
    obtain ⟨_, hy⟩ := yields_ignoring hy
    exact .inl (suspendQueue_moves h hy)
  | resumeQueue =>
    obtain ⟨_, hy⟩ := yields_ignoring hy
    exact .inl (resumeQueue_moves h hy)
  | deleteQueue => exact .inl (deleteQueue_moves h hy)
  | createJob =>
    obtain ⟨_, hy⟩ := yields_ignoring hy
    exact .inl (createJob_moves h hy)
  | runNow =>
    obtain ⟨_, hy⟩ := yields_ignoring hy
    rcases runNow_moves h hy with rfl | hr
    · exact .inl h.moves_refl
    · exact .inl hr.moves
  | updateJob =>
    obtain ⟨_, hy⟩ := yields_ignoring hy
    exact .inl (updateJob_moves h hy)
  | suspendJob =>
    obtain ⟨_, hy⟩ := yields_ignoring hy
    exact .inl (suspendJob_moves h hy)
  | resumeJob =>
    obtain ⟨_, hy⟩ := yields_ignoring hy
    exact .inl (resumeJob_moves h hy)
  | moveJob request =>
    obtain ⟨_, hy⟩ := yields_ignoring hy
    obtain ⟨target, hfo, hm⟩ := moveJob_moves h hy
    exact .inr ⟨request, target, rfl, hfo, hm⟩
  | deleteJob => exact .inl (deleteJob_moves h hy)

variable {d : Deployment} {db db' : Database}

theorem Background.effect (hb : Background d db db') (h : Intact d.env db) :
    (∃ touched, Stops d.env touched db db') ∨ ∃ claim, Claims d.env claim db db' := by
  cases hb with
  | observe _ _ _ _ hy =>
    exact .inl ⟨Nobody, (h.moves_retimed (observePage_retimed hy)).stops⟩
  | account _ _ _ _ _ _ hy =>
    exact .inl ⟨Nobody, (h.moves_retimed (accountingPage_retimed hy)).stops⟩
  | recover _ _ _ unit =>
    obtain ⟨touched, hm, hst⟩ := unit.moves h
    exact .inl ⟨touched, hm, hst⟩
  | dispatch _ _ _ claim _ hy => exact .inr ⟨claim, claim_moves h hy⟩
  | complete _ _ _ _ hy =>
    have hc := completeDurably_moves h hy
    refine .inl ⟨_, hc.moves, fun run' hr' ht hs => ?_⟩
    obtain ⟨_, hr, hi, he⟩ := hc.run
    obtain rfl := Table.eq_of_key hr' hr (Eq.trans ht hi.symm)
    rw [hs] at he
    rcases he with he | he
    · cases he
    · cases he.1
  | cancel _ _ _ _ hy => exact .inl ⟨Nobody, (cancelPending_moves h hy).moves.stops⟩

/-- **A transaction on a consistent database is of one of the three kinds.** -/
theorem Commit.kind (hc : Commit d db db') (h : Intact d.env db) : Kind d.env db db' := by
  cases hc with
  | manage _ _ _ hy =>
    rcases Operation.moves h hy with hm | ⟨request, target, -, -, hm⟩
    · exact .stops Nobody hm.stops
    · exact .moves request.jobId target.id hm
  | background _ hb =>
    rcases hb.effect h with ⟨touched, hst⟩ | ⟨claim, hcl⟩
    · exact .stops touched hst
    · exact .claims claim hcl

theorem Kind.consistent (h : Kind d.env db db') : Intact d.env db' := by
  cases h with
  | stops touched h | moves jobId targetId h | claims claim h => exact h.moves.consistent

/-- **Every stored database is consistent.** -/
theorem Stored.consistent (h : Stored d db) : Intact d.env db :=
  h.induction (consistent_empty d.env) fun _ _ _ hd hc => (hc.kind hd).consistent

end Jobu
