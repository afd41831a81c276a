import Jobu.Domain

/-!
# The retention cutoff

`retention_cutoff` of `retention_repository_priv.cpp` in 64-bit arithmetic: a signed operation whose value does not
fit has none, and unsigned values wrap.
-/

namespace Jobu.Retention

/-- The value of a signed operation. -/
def signed (value : Int) : Option Int := if minTime ≤ value ∧ value ≤ maxTime then some value else none

/-- `static_cast<std::uint64_t>`. -/
def unsigned (value : Int) : Nat := (value % 2 ^ 64).toNat

/-- The difference of unsigned values. -/
def distance (start last : Nat) : Nat := (last + 2 ^ 64 - start) % 2 ^ 64

/-- `std::chrono::ceil<Microseconds>`: the count is cut off and compared in nanoseconds. -/
def ceil (time : Int) : Option Int := do
  let back ← signed (time.tdiv 1000 * 1000)
  if back < time then signed (time.tdiv 1000 + 1) else return time.tdiv 1000

/-- The subtraction loop: where it ends, and after how many steps. -/
def subtract (tick : Int) (remaining : Nat) : Option (Int × Nat) :=
  if remaining = 0 then some (tick, 0)
  else do
    let step := min remaining (2 ^ 63 - 1)
    let next ← signed (tick - step)
    let (last, steps) ← subtract next (remaining - step)
    return (last, steps + 1)
termination_by remaining

/-- The tick so many seconds earlier, but not below the minimum; no product is made that wraps. -/
def earlier (minimum tick : Int) (seconds : Nat) : Option (Int × Nat) :=
  if distance (unsigned minimum) (unsigned tick) / 1000000 < seconds then some (minimum, 0)
  else subtract tick (seconds * 1000000 % 2 ^ 64)

/-- `retention_cutoff`, with the steps of its loop. -/
def retentionCutoff (now retention : Int) : Option (Int × Nat) := do
  let minimum ← ceil minTime
  let tick ← ceil now
  let (tick, steps) ← earlier minimum tick (unsigned retention)
  let cutoff ← signed (tick * 1000)
  return (cutoff, steps)

/-- The least microsecond that is not before a time. -/
def roundUp (time : Int) : Int := -(-time / 1000)

theorem signed_eq {value : Int} (hl : minTime ≤ value) (hh : value ≤ maxTime) : signed value = some value :=
  if_pos ⟨hl, hh⟩

theorem ceil_eq {time : Int} (hl : minTime ≤ time) (hh : time ≤ maxTime) : ceil time = some (roundUp time) := by
  have hc : time.tdiv 1000 = if 0 ≤ time then time / 1000 else -(-time / 1000) := by
    split
    · exact Int.tdiv_eq_ediv_of_nonneg ‹_›
    · rw [← Int.neg_neg time, Int.neg_tdiv, Int.tdiv_eq_ediv_of_nonneg (by omega), Int.neg_neg]
  unfold minTime at hl
  unfold maxTime at hh
  have hfi : ∀ value : Int, -(2 ^ 63) ≤ value → value ≤ 2 ^ 63 - 1 → signed value = some value := fun _ => signed_eq
  unfold ceil roundUp
  rw [hc]
  split
  · rw [hfi _ (by omega) (by omega), Option.bind_eq_bind, Option.bind_some]
    split
    · rw [hfi _ (by omega) (by omega)]
      congr 1
      omega
    · congr 1
      omega
  · rw [hfi _ (by omega) (by omega), Option.bind_eq_bind, Option.bind_some, if_neg (by omega)]
    rfl

/-- What is at most the largest signed number is subtracted in one step, or in none. -/
theorem subtract_small {tick : Int} {remaining : Nat} (hsm : remaining ≤ 2 ^ 63 - 1)
    (hl : minTime ≤ tick - remaining) (hh : tick - remaining ≤ maxTime) :
    ∃ steps ≤ 1, subtract tick remaining = some (tick - remaining, steps) := by
  rw [subtract]
  split
  · next hz => exact ⟨0, by omega, by simp [hz]⟩
  · dsimp only
    rw [Nat.min_eq_left hsm, signed_eq hl hh, Nat.sub_self, Option.bind_eq_bind, Option.bind_some, subtract,
      if_pos rfl]
    exact ⟨1, le_rfl, rfl⟩

/-- The wrapped difference is the distance. -/
theorem distance_unsigned {low tick : Int} (hl : low ≤ tick) (hfi : tick - low < 2 ^ 64) :
    (distance (unsigned low) (unsigned tick) : Int) = tick - low := by
  unfold distance unsigned
  omega

theorem earlier_eq {low tick : Int} {seconds : Nat} (hmin : minTime ≤ low) (hl : low ≤ tick)
    (hmax : tick ≤ maxTime) (hfi : tick - low ≤ maxTime) :
    ∃ steps ≤ 1, earlier low tick seconds = some (max low (tick - 1000000 * seconds), steps) := by
  have hav := distance_unsigned hl (by unfold maxTime at hfi; omega)
  unfold earlier
  generalize distance (unsigned low) (unsigned tick) = available at *
  split
  · rw [max_eq_left (by omega)]
    exact ⟨0, by omega, rfl⟩
  unfold maxTime at hfi
  have hp : tick - 1000000 * seconds = tick - (seconds * 1000000 : Nat) := by omega
  rw [Nat.mod_eq_of_lt (by omega), max_eq_right (by omega), hp]
  exact subtract_small (by omega) (by omega) (by omega)

/-- **The retention cutoff is exact.** -/
theorem retention_cutoff_exact (now retention : Int) (hnow : minTime ≤ now ∧ now ≤ maxTime)
    (hretention : 1 ≤ retention ∧ retention ≤ 2 ^ 63 - 1) :
    ∃ steps ≤ 3, retentionCutoff now retention
      = some (1000 * max (roundUp minTime) (roundUp now - 1000000 * retention), steps) := by
  have hleast : ceil minTime = some (roundUp minTime) := ceil_eq le_rfl (by decide)
  have hseconds : (unsigned retention : Int) = retention := by
    unfold unsigned
    omega
  have hlow : roundUp minTime = -9223372036854775 := by decide
  have hrange : -9223372036854775 ≤ roundUp now ∧ roundUp now ≤ 9223372036854776 := by
    unfold minTime maxTime at hnow
    unfold roundUp
    omega
  generalize roundUp minTime = low at *
  obtain ⟨steps, hsteps, hearlier⟩ := @earlier_eq low (roundUp now) (unsigned retention) (by unfold minTime; omega)
    (by omega) (by unfold maxTime; omega) (by unfold maxTime; omega)
  rw [hseconds] at hearlier
  refine ⟨steps, by omega, ?_⟩
  -- a retention of at least a second keeps the last product in range
  have hlast := @signed_eq (max low (roundUp now - 1000000 * retention) * 1000) (by unfold minTime; omega)
    (by unfold maxTime; omega)
  rw [retentionCutoff, hleast, Option.bind_eq_bind, Option.bind_some, ceil_eq hnow.1 hnow.2, Option.bind_some, hearlier,
    Option.bind_eq_bind, Option.bind_some]
  dsimp only
  rw [hlast, Int.mul_comm 1000]
  rfl

theorem retention_cutoff_exact_max : ∃ steps ≤ 3, retentionCutoff maxTime (2 ^ 63 - 1)
    = some (1000 * max (roundUp minTime) (roundUp maxTime - 1000000 * (2 ^ 63 - 1)), steps) :=
  retention_cutoff_exact maxTime (2 ^ 63 - 1) (by decide) (by decide)

end Jobu.Retention
