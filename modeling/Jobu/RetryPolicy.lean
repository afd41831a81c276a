import Mathlib.Data.Rat.Floor
import Mathlib.Tactic.Linarith
import Mathlib.Tactic.Positivity
import Jobu.Domain
import Jobu.Lib.Proc

/-!
# Retry policies

`retry_policy_priv.cpp` and `recovery_retry_priv.cpp`: a policy is read from the materialised
attributes of a run, and decides after each attempt whether and when the next one is due.  The
doubles of the source are exact rationals here; every bound below is one the double arithmetic
keeps because each product is capped before it is formed.

  > `retryDelay_bounds`: an accepted delay lies between zero and the policy's maximum.
-/

namespace Jobu

open Lib

variable {policy : RetryPolicy} {attributes : AttributeSet} {schedule : Schedule}

inductive RetryStrategy where
  | fixed | exponential
deriving DecidableEq, Repr

inductive RetryMode where
  | blocking | reschedule
deriving DecidableEq, Repr

structure RetryPolicy where
  maxAttempts : Nat
  strategy : RetryStrategy
  initialDelay : Int
  maxDelay : Int
  multiplier : Rat
  jitter : Rat
  mode : RetryMode
deriving DecidableEq

namespace Retry

def invalidPolicy (detail : String) : Error where
  category := .internal
  code := "jobu.retry.invalid_policy"
  message := "Materialized retry attributes are invalid"
  detail := detail

def timeOutOfRange : Error where
  category := .resourceExhausted
  code := "jobu.retry.out_of_range"
  message := "Retry due time is outside the representable range"

/-! ## Reading a policy -/

/-- `policy_attribute`: a required attribute of one type. -/
def policyAttribute {α : Type} (attributes : AttributeSet) (name : String)
    (select : AttributeValue → Option α) : Except Error α := do
  let value ← orError (attributes.find name)
    (invalidPolicy ("Required retry field is missing: " ++ name))
  orError (select value) (invalidPolicy ("Retry field has an unexpected type: " ++ name))

def asInteger : AttributeValue → Option Int
  | .integer value => some value
  | _ => none

def asNumber : AttributeValue → Option Rat
  | .number value => some value
  | _ => none

def asText : AttributeValue → Option String
  | .text value => some value
  | _ => none

def asDuration : AttributeValue → Option Int
  | .duration value => some value
  | _ => none

/-- 24 hours and 30 days in nanoseconds. -/
def maximumInitialDelay : Int := 24 * 3600 * 1000000000

def maximumDelay : Int := 30 * 24 * 3600 * 1000000000

def validatePolicy (policy : RetryPolicy) : Except Error Unit := do
  ensure (1 ≤ policy.maxAttempts ∧ policy.maxAttempts ≤ 100)
    (invalidPolicy "retry.max_attempts is outside its accepted range")
  ensure (0 ≤ policy.initialDelay ∧ policy.initialDelay ≤ maximumInitialDelay)
    (invalidPolicy "retry.initial_delay is outside its accepted range")
  ensure (0 ≤ policy.maxDelay ∧ policy.maxDelay ≤ maximumDelay)
    (invalidPolicy "retry.max_delay is outside its accepted range")
  ensure (policy.initialDelay ≤ policy.maxDelay)
    (invalidPolicy "retry.max_delay is below retry.initial_delay")
  ensure (1 ≤ policy.multiplier ∧ policy.multiplier ≤ 100)
    (invalidPolicy "retry.multiplier is outside its accepted range")
  ensure (0 ≤ policy.jitter ∧ policy.jitter ≤ 1)
    (invalidPolicy "retry.jitter is outside its accepted range")

def parseStrategy : String → Option RetryStrategy
  | "fixed" => some .fixed
  | "exponential" => some .exponential
  | _ => none

def parseMode : String → Option RetryMode
  | "blocking" => some .blocking
  | "reschedule" => some .reschedule
  | _ => none

/-- `retry_policy_from_attributes`. -/
def policyFromAttributes (attributes : AttributeSet) : Except Error RetryPolicy := do
  let maxAttempts ← policyAttribute attributes "retry.max_attempts" asInteger
  let strategyText ← policyAttribute attributes "retry.strategy" asText
  let initialDelay ← policyAttribute attributes "retry.initial_delay" asDuration
  let maxDelay ← policyAttribute attributes "retry.max_delay" asDuration
  let multiplier ← policyAttribute attributes "retry.multiplier" asNumber
  let jitter ← policyAttribute attributes "retry.jitter" asNumber
  let modeText ← policyAttribute attributes "retry.mode" asText
  ensure (1 ≤ maxAttempts ∧ maxAttempts ≤ 100)
    (invalidPolicy "retry.max_attempts is outside its accepted range")
  let strategy ← orError (parseStrategy strategyText)
    (invalidPolicy "retry.strategy is not recognized")
  let mode ← orError (parseMode modeText) (invalidPolicy "retry.mode is not recognized")
  let policy : RetryPolicy :=
    { maxAttempts := maxAttempts.toNat, strategy, initialDelay, maxDelay, multiplier, jitter, mode }
  validatePolicy policy
  pure policy

/-- What `validate_policy` establishes. -/
structure Valid (policy : RetryPolicy) : Prop where
  attempts : 1 ≤ policy.maxAttempts ∧ policy.maxAttempts ≤ 100
  initial : 0 ≤ policy.initialDelay ∧ policy.initialDelay ≤ maximumInitialDelay
  delay : 0 ≤ policy.maxDelay ∧ policy.maxDelay ≤ maximumDelay
  ordered : policy.initialDelay ≤ policy.maxDelay
  multiplier : 1 ≤ policy.multiplier ∧ policy.multiplier ≤ 100
  jitter : 0 ≤ policy.jitter ∧ policy.jitter ≤ 1

theorem validatePolicy_ok {u : Unit} : validatePolicy policy = .ok u ↔ Valid policy := by
  simp only [validatePolicy, except_steps]
  constructor
  · rintro ⟨_, h₁, _, h₂, _, h₃, _, h₄, _, h5, h6⟩
    exact ⟨h₁, h₂, h₃, h₄, h5, h6⟩
  · rintro ⟨h₁, h₂, h₃, h₄, h5, h6⟩
    exact ⟨(), h₁, (), h₂, (), h₃, (), h₄, (), h5, h6⟩

theorem policyFromAttributes_valid (h : policyFromAttributes attributes = .ok policy) : Valid policy := by
  simp only [policyFromAttributes, except_steps] at h
  obtain ⟨_, _, _, _, _, _, _, _, _, _, _, _, _, _, _, _, _, _, _, _, _, hv, rfl⟩ := h
  exact validatePolicy_ok.1 hv

/-! ## The delay before an attempt -/

/-- `capped_product`. -/
def cappedProduct (value factor limit : Rat) : Rat :=
  if value = 0 ∨ factor ≤ 0 ∨ limit = 0 then 0
  else if limit / value ≤ factor then limit
  else value * factor

/-- The bytes of the identifier and then of the attempt number, most significant first. -/
def hashBytes (runId : Uuid) (attempt : Nat) : List UInt64 :=
  ((List.range 16).map fun i => UInt64.ofNat (runId.value >>> (120 - 8 * i) % 256)) ++
    (List.range 8).map fun i => UInt64.ofNat (attempt >>> (56 - 8 * i) % 256)

/-- `stable_fraction`: FNV-1a over the bytes, a SplitMix64 finaliser, and the top 53 bits. -/
def stableFraction (runId : Uuid) (attempt : Nat) : Rat :=
  let state := (hashBytes runId attempt).foldl
    (fun state byte => (state ^^^ byte) * 1099511628211) (14695981039346656037 : UInt64)
  let state := (state ^^^ (state >>> 30)) * 0xbf58476d1ce4e5b9
  let state := (state ^^^ (state >>> 27)) * 0x94d049bb133111eb
  let state := state ^^^ (state >>> 31)
  ((state >>> 11).toNat : Rat) / 2 ^ 53

/-- The exponential loop of `retry_delay`, over the attempts it has left. -/
def growBase (multiplier limit : Rat) : Nat → Rat → Rat
  | 0, base => base
  | steps + 1, base =>
    if base < limit then growBase multiplier limit steps (cappedProduct base multiplier limit)
    else base

/-- `retry_delay`. -/
def retryDelay (policy : RetryPolicy) (runId : Uuid) (nextAttempt : Nat) : Except Error Int := do
  validatePolicy policy
  ensure (2 ≤ nextAttempt ∧ nextAttempt ≤ policy.maxAttempts)
    (invalidPolicy "Next retry attempt is outside the policy boundary")
  if policy.initialDelay = 0 then
    pure 0
  else
    let limit : Rat := policy.maxDelay
    let base := match policy.strategy with
      | .fixed => (policy.initialDelay : Rat)
      | .exponential => growBase policy.multiplier limit (nextAttempt - 2) policy.initialDelay
    let factor := 1 - policy.jitter + 2 * policy.jitter * stableFraction runId nextAttempt
    pure (cappedProduct base factor limit).floor

theorem cappedProduct_bounds {value limit : Rat} (factor : Rat) (hv : 0 ≤ value) (hl : 0 ≤ limit) :
    0 ≤ cappedProduct value factor limit ∧ cappedProduct value factor limit ≤ limit := by
  unfold cappedProduct
  split
  · exact ⟨le_refl 0, hl⟩
  rename_i hn
  rw [not_or, not_or, not_le] at hn
  have hp : 0 < value := lt_of_le_of_ne hv (Ne.symm hn.1)
  split
  · exact ⟨hl, le_refl limit⟩
  rename_i hlt
  rw [not_le, lt_div_iff₀ hp] at hlt
  refine ⟨mul_nonneg hv (le_of_lt hn.2.1), ?_⟩
  rw [mul_comm]
  exact le_of_lt hlt

theorem growBase_nonneg {multiplier limit : Rat} (hl : 0 ≤ limit) (steps : Nat) {base : Rat}
    (hb : 0 ≤ base) : 0 ≤ growBase multiplier limit steps base := by
  induction steps generalizing base with
  | zero => exact hb
  | succ _ ih =>
    unfold growBase
    split
    · exact ih (cappedProduct_bounds _ hb hl).1
    · exact hb

/-- **An accepted delay lies between zero and the policy's maximum.** -/
theorem retryDelay_bounds {runId : Uuid} {next : Nat} {delay : Int}
    (h : retryDelay policy runId next = .ok delay) : 0 ≤ delay ∧ delay ≤ policy.maxDelay := by
  simp only [retryDelay, except_steps] at h
  obtain ⟨_, hv, _, -, h⟩ := h
  have valid := validatePolicy_ok.1 hv
  split at h
  · rw [except_pure_eq_ok] at h
    subst h
    exact ⟨le_refl 0, valid.delay.1⟩
  rw [except_pure_eq_ok] at h
  subst h
  have hl : (0 : Rat) ≤ policy.maxDelay := by exact_mod_cast valid.delay.1
  have hi : (0 : Rat) ≤ policy.initialDelay := by exact_mod_cast valid.initial.1
  have hba : (0 : Rat) ≤ match policy.strategy with
      | .fixed => (policy.initialDelay : Rat)
      | .exponential => growBase policy.multiplier policy.maxDelay (next - 2) policy.initialDelay := by
    cases policy.strategy with
    | fixed => exact hi
    | exponential => exact growBase_nonneg hl _ hi
  obtain ⟨hlo, hh⟩ := cappedProduct_bounds
    (1 - policy.jitter + 2 * policy.jitter * stableFraction runId next) hba hl
  refine ⟨Rat.le_floor_iff.2 (by exact_mod_cast hlo), ?_⟩
  have := Rat.floor_le (cappedProduct _ _ _) |>.trans hh
  exact_mod_cast this

/-! ## Decisions -/

/-- `checked_retry_due_time`. -/
def checkedDueTime (start delay : Int) : Except Error Int := do
  ensure (0 ≤ delay) timeOutOfRange
  ensure (start ≤ maxTime - delay) timeOutOfRange
  pure (start + delay)

structure Schedule where
  dueAt : Int
  mode : RetryMode
deriving DecidableEq

/-- What a finished attempt tells the retry policy. -/
structure Completion where
  runId : Uuid
  attemptNumber : Nat
  outcome : AttemptOutcome
  retryable : Bool
  retryAllowed : Bool
  completedAt : Int
  retryNotBefore : Option Int

/-- `retry_decision`. -/
def decision (attributes : AttributeSet) (completion : Completion) : Except Error (Option Schedule) := do
  let policy ← policyFromAttributes attributes
  ensure (completion.attemptNumber ≠ 0) (invalidPolicy "Current attempt number must be positive")
  if completion.outcome ≠ .failed ∨ completion.retryable = false ∨
      completion.retryAllowed = false ∨ policy.maxAttempts ≤ completion.attemptNumber then
    pure none
  else do
    let delay ← retryDelay policy completion.runId (completion.attemptNumber + 1)
    let due ← checkedDueTime completion.completedAt delay
    let due := match completion.retryNotBefore with
      | some earliest => if due < earliest then earliest else due
      | none => due
    pure (some { dueAt := due, mode := policy.mode })

/-- Only a failure is retried. -/
theorem decision_some {completion : Completion}
    (h : decision attributes completion = .ok (some schedule)) : completion.outcome = .failed := by
  simp only [decision, except_bind_eq_ok] at h
  obtain ⟨_, -, _, -, h⟩ := h
  by_contra hn
  rw [if_pos (.inl hn)] at h
  cases h

/-- **A retry is within the policy, and due neither before the completion nor before the instant
the executor named.** -/
theorem decision_due {completion : Completion} (h : decision attributes completion = .ok (some schedule)) :
    (∃ policy, policyFromAttributes attributes = .ok policy ∧ completion.attemptNumber < policy.maxAttempts) ∧
    completion.completedAt ≤ schedule.dueAt ∧ ∀ earliest ∈ completion.retryNotBefore, earliest ≤ schedule.dueAt := by
  simp only [decision, except_steps] at h
  obtain ⟨policy, hp, _, -, h⟩ := h
  split at h
  · simp at h
  rename_i hr
  have hl : completion.attemptNumber < policy.maxAttempts := by
    by_contra hg
    exact hr (.inr (.inr (.inr (Nat.le_of_not_lt hg))))
  simp only [except_steps, checkedDueTime, Option.some.injEq] at h
  obtain ⟨_, hd, _, ⟨_, -, _, -, rfl⟩, rfl⟩ := h
  have hbo := retryDelay_bounds hd
  refine ⟨⟨policy, hp, hl⟩, ?_⟩
  cases hea : completion.retryNotBefore with
  | none => exact ⟨by simp only; omega, fun _ he => by cases he⟩
  | some =>
    simp only [Option.mem_def, Option.some.injEq, forall_eq']
    split
    · omega
    · omega

/-! ## Recovery -/

/-- What recovery knows of an interrupted attempt. -/
structure RecoveryContext where
  runId : Uuid
  attemptNumber : Nat
  policy : RecoveryPolicy
  jobState : JobState
  queueState : QueueState
  recoveryTime : Int

def retryContextInvariant : Error where
  category := .internal
  code := "jobu.recovery.invariant"
  message := "Persisted recovery data violates a JobU invariant"
  detail := "reason=retry_context"

def attemptNumberExhausted : Error where
  category := .resourceExhausted
  code := "jobu.recovery.attempt_number_exhausted"
  message := "Recovery attempt number is outside the representable range"

/-- `recovery_retry_decision`. -/
def recoveryDecision (attributes : AttributeSet) (context : RecoveryContext) : Except Error (Option Schedule) := do
  let policy ← policyFromAttributes attributes
  ensure (context.attemptNumber ≠ 0 ∧ context.jobState.isTerminal = false) retryContextInvariant
  ensure (context.attemptNumber < maximumAttemptNumber) attemptNumberExhausted
  if context.policy = .failInterrupted ∨ context.jobState = .deleted ∨
      context.queueState = .deleted ∨ policy.maxAttempts ≤ context.attemptNumber then
    pure none
  else do
    let delay ← retryDelay policy context.runId (context.attemptNumber + 1)
    let due ← checkedDueTime context.recoveryTime delay
    pure (some { dueAt := due, mode := policy.mode })

/-- A retry that recovery grants is within the policy. -/
theorem recoveryDecision_allowed {context : RecoveryContext}
    (h : recoveryDecision attributes context = .ok (some schedule)) :
    ∃ policy, policyFromAttributes attributes = .ok policy ∧ context.attemptNumber < policy.maxAttempts := by
  simp only [recoveryDecision, except_steps] at h
  obtain ⟨policy, hp, _, -, _, -, h⟩ := h
  split at h
  · simp at h
  rename_i hr
  refine ⟨policy, hp, ?_⟩
  by_contra hg
  exact hr (.inr (.inr (.inr (Nat.le_of_not_lt hg))))

end Retry

end Jobu
