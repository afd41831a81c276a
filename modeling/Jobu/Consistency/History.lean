import Jobu.Consistency.Basic

/-!
# The attempts of a run, one after another

A run gains an attempt when it starts, and its last attempt gains an outcome when the run waits
for the next one or ends.  Each of the three keeps the history in order.
-/

namespace Jobu

open Lib List Scheduler Telemetry

open Keyed (key)

variable {run : JobRun} {attempts : List JobAttempt}

/-! ## The list -/

section

variable (h : HistoryOk run attempts)

include h

/-- Whoever waits has only failed or interrupted attempts behind. -/
theorem HistoryOk.waiting (hp : run.state.isPending = true) : ∀ a ∈ attempts, isRetryHistory a = true := by
  intro a ha
  rcases eq_nil_or_concat attempts with rfl | ⟨_, _, rfl⟩
  · cases ha
  have hl := h.last
  rw [concat_eq_append, getLast?_concat] at hl
  rw [concat_eq_append, mem_append, mem_singleton] at ha
  rcases ha with ha | rfl
  · exact h.prior a (by simpa using ha)
  unfold LastOk at hl
  cases hs : run.state <;> rw [hs] at hp <;> simp [RunState.isPending] at hp <;>
    simp [hs] at hl
  exact hl

/-- The number of the last attempt is how many there are. -/
theorem HistoryOk.lastNumber : attempts.getLast?.elim 0 JobAttempt.attemptNumber = attempts.length := by
  rcases eq_nil_or_concat attempts with rfl | ⟨_, _, rfl⟩
  · rfl
  have hn := h.numbered
  rw [concat_eq_append, map_append, length_append, length_singleton, range'_concat] at hn
  have := append_inj_right hn (by simp)
  simp only [map_cons, map_nil, cons.injEq, and_true] at this
  simp [this]
  omega

variable {a : JobAttempt}

/-- The numbers of the attempts are at most how many there are. -/
theorem HistoryOk.number_le (ha : a ∈ attempts) : 1 ≤ a.attemptNumber ∧ a.attemptNumber ≤ attempts.length := by
  have hm : a.attemptNumber ∈ range' 1 attempts.length :=
    h.numbered ▸ mem_map_of_mem ha
  rw [mem_range'_1] at hm
  omega

/-- A running run: everything before its last attempt may be retried, and the last one runs. -/
theorem HistoryOk.running (hs : run.state = .running) : ∃ front last, attempts = front ++ [last] ∧
      last.state = .running ∧ last.dueAt = run.runnableAt ∧ last.attemptNumber = attempts.length ∧
      ∀ a ∈ front, isRetryHistory a = true := by
  rcases eq_nil_or_concat attempts with rfl | ⟨front, last, rfl⟩
  · have := h.last
    simp [LastOk, hs] at this
  have hl := h.last
  have hn := h.lastNumber
  have hp := h.prior
  rw [concat_eq_append] at hl hn hp ⊢
  rw [getLast?_concat] at hl hn
  rw [dropLast_concat] at hp
  simp only [LastOk, hs] at hl
  exact ⟨front, last, rfl, hl.1, hl.2, hn, hp⟩

/-! ## What a transaction does to it -/

variable {run' : JobRun}

theorem HistoryOk.start {t : Int} (hp : run.state.isPending = true)
    (hn : run.state = .scheduled → run.startedAt = none) (ha : AttemptSound a)
    (hs : a.state = .running) (hnu : a.attemptNumber = attempts.length + 1)
    (hd : a.dueAt = run'.runnableAt) (hat : a.startedAt = some t) (hs' : run'.state = .running)
    (hst' : run'.startedAt = some (run.startedAt.getD t)) :
    HistoryOk run' (attempts ++ [a]) where
  numbered := by
    rw [map_append, h.numbered, length_append, length_singleton, range'_concat, map_singleton, hnu]
    congr 2
    omega
  sound b hb := by
    rw [mem_append, mem_singleton] at hb
    rcases hb with hb | rfl
    · exact h.sound b hb
    · exact ha
  prior b hb := by
    rw [dropLast_concat] at hb
    exact h.waiting hp b hb
  first b hb := by
    cases attempts with
    | nil =>
      -- the first start of all is the start of the run
      obtain rfl := Option.some.inj hb
      have hsc : run.state = .scheduled := by
        rcases h.last with hs | ⟨hs, -⟩
        · exact hs
        · rw [hs] at hp
          cases hp
      rw [hst', hn hsc, hat]
      rfl
    | cons c =>
      obtain rfl := Option.some.inj hb
      have hfi := h.first c rfl
      obtain ⟨_, ht'⟩ := Option.isSome_iff_exists.1 (h.sound c (mem_cons_self ..)).started
      rw [hst', hfi, ht']
      rfl
  last := by
    rw [getLast?_concat]
    simp only [LastOk, hs']
    exact ⟨hs, hd⟩

/-- The last attempt gets its outcome, and the run what follows from it. -/
theorem HistoryOk.report {k : AttemptKey} {completedAt : Int} {outcome : AttemptOutcome} {result : Json}
    (hs : run.state = .running) (hk : ∃ a ∈ attempts, (key a : AttemptKey) = k ∧ a.state = .running)
    (hst : run'.startedAt = run.startedAt) (hl : ∀ last, last.dueAt = run.runnableAt →
      LastOk run' (some (reported completedAt outcome result last))) :
    HistoryOk run' (attempts.map fun a =>
      if (key a : AttemptKey) = k then reported completedAt outcome result a else a) := by
  obtain ⟨front, last, rfl, _, hd, _, hp⟩ := h.running hs
  -- only the last attempt is running, so it is the one with the key
  have hfr : ∀ a ∈ front, (key a : AttemptKey) ≠ k := by
    rintro a ha rfl
    obtain ⟨b, hb, hke, hbs⟩ := hk
    rw [mem_append, mem_singleton] at hb
    rcases hb with hb | rfl
    · have := hp b hb
      simp [isRetryHistory, hbs] at this
    have hlt : a.attemptNumber = b.attemptNumber := congrArg AttemptKey.attemptNumber hke.symm
    have hn : ((front ++ [b]).map JobAttempt.attemptNumber).Nodup := by
      rw [h.numbered]
      exact nodup_range'
    rw [map_append, nodup_append] at hn
    exact hn.2.2 a.attemptNumber (mem_map_of_mem ha) b.attemptNumber (by simp) hlt
  have hse : (key last : AttemptKey) = k := by
    obtain ⟨b, hb, hke, _⟩ := hk
    rw [mem_append, mem_singleton] at hb
    rcases hb with hb | rfl
    · exact absurd hke (hfr b hb)
    · exact hke
  have hm : ((front ++ [last]).map fun a =>
      if (key a : AttemptKey) = k then reported completedAt outcome result a else a) =
      front ++ [reported completedAt outcome result last] := by
    rw [map_append, map_singleton, if_pos hse]
    congr 1
    exact (map_congr_left fun a ha => if_neg (hfr a ha)).trans (map_id _)
  rw [hm]
  refine ⟨?_, fun a ha => ?_, ?_, fun a ha => ?_, ?_⟩
  · have := h.numbered
    simpa [reported] using this
  · rw [mem_append, mem_singleton] at ha
    rcases ha with ha | rfl
    · exact h.sound a (mem_append_left _ ha)
    · have hso := h.sound last (by simp)
      exact ⟨hso.number, by simp [validAttemptState, reported, hso.started], hso.started⟩
  · rw [dropLast_concat]
    exact hp
  · rw [hst]
    cases front with
    | nil =>
      obtain rfl := Option.some.inj ha
      exact h.first last rfl
    | cons c =>
      obtain rfl := Option.some.inj ha
      exact h.first c rfl
  · rw [getLast?_concat]
    exact hl last hd

end

end Jobu
