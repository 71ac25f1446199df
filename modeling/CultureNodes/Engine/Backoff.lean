import CultureNodes.Engine.Complete
import CultureNodes.Library.Duration

/-!
How long a retry waits. The delay is a product or a shift of 64-bit durations that is capped afterwards, so
the cap sees what is left of the product in 64 bits and not the product.
-/

namespace CultureNodes.Engine

variable {env : Env} {policy : RetryPolicy} {next later : Nat}

/-- How many base delays the attempt numbered `next` waits before any cap. -/
def Backoff.factor (backoff : Backoff) (next : Nat) : Int :=
  match backoff with
  | .none => 0
  | .fixed => 1
  | .linear => (next - 1 : Nat)
  | .exponential => 2 ^ (next - 2)

/-- The delay in exact arithmetic. -/
def exactDelay (env : Env) (policy : RetryPolicy) (next : Nat) : Int :=
  min env.retryMax (env.retryBase * policy.backoff.factor next)

/-- The uncapped delay is a duration, or it is congruent modulo `2 ^ 64` to one that is not below the cap. -/
def CapHolds (env : Env) (policy : RetryPolicy) (next : Nat) : Prop :=
  env.retryBase * policy.backoff.factor next < 2 ^ 63 ∨
    (env.retryMax ≤ env.retryBase * policy.backoff.factor next % 2 ^ 64 ∧
      env.retryBase * policy.backoff.factor next % 2 ^ 64 < 2 ^ 63)

/-- A node's retry delays as a deployment may configure them. -/
structure Paced (env : Env) : Prop where
  basePositive : 0 < env.retryBase
  ordered : env.retryBase ≤ env.retryMax
  isDuration : env.retryMax < 2 ^ 63

namespace Backoff

theorem one_le_factor {backoff : Backoff} (retries : backoff ≠ .none) (isRetry : 2 ≤ next) :
    1 ≤ backoff.factor next := by
  cases backoff with
  | none => exact absurd rfl retries
  | fixed => exact le_refl 1
  | linear =>
      simp only [factor]
      omega
  | exponential => exact one_le_pow₀ (by decide)

theorem factor_mono {backoff : Backoff} (order : next ≤ later) : backoff.factor next ≤ backoff.factor later := by
  cases backoff with
  | none => exact le_refl 0
  | fixed => exact le_refl 1
  | linear =>
      simp only [factor]
      omega
  | exponential => exact pow_le_pow_right₀ (by decide) (by omega)

end Backoff

/-- The code's delay is the cap applied to the product in 64 bits. -/
theorem backoff_eq (paced : Paced env) (retries : policy.backoff ≠ .none) (isRetry : 2 ≤ next) :
    backoff env policy next =
      min env.retryMax (Duration.wrap (env.retryBase * policy.backoff.factor next)) := by
  have positive : 0 < env.retryMax := lt_of_lt_of_le paced.basePositive paced.ordered
  have most : max next 2 = next := by omega
  have capped : ∀ delay : Int, (if env.retryMax < delay then env.retryMax else delay) =
      min env.retryMax delay := by
    intro delay
    split <;> omega
  unfold backoff Backoff.factor Duration.wrap
  cases kind : policy.backoff with
  | none => exact absurd kind retries
  | fixed =>
      have whole : (env.retryBase * 1).bmod 18446744073709551616 = env.retryBase := by
        rw [mul_one]
        apply Duration.wrap_of_fits
        · have := paced.basePositive
          unfold Duration.limit
          omega
        · have := paced.ordered
          have := paced.isDuration
          unfold Duration.limit
          omega
      rw [whole]
      simp [positive, capped]
  | linear => simp [positive, capped, most]
  | exponential => simp [positive, capped, most]

theorem base_le_product (paced : Paced env) (retries : policy.backoff ≠ .none) (isRetry : 2 ≤ next) :
    env.retryBase ≤ env.retryBase * policy.backoff.factor next :=
  le_mul_of_one_le_right paced.basePositive.le (Backoff.one_le_factor retries isRetry)

theorem backoff_exact_iff (paced : Paced env) (retries : policy.backoff ≠ .none) (isRetry : 2 ≤ next) :
    backoff env policy next = exactDelay env policy next ↔ CapHolds env policy next := by
  have positive : 0 < env.retryMax := lt_of_lt_of_le paced.basePositive paced.ordered
  have product : 0 < env.retryBase * policy.backoff.factor next :=
    lt_of_lt_of_le paced.basePositive (base_le_product paced retries isRetry)
  have duration := paced.isDuration
  rw [backoff_eq paced retries isRetry, exactDelay, CapHolds, Duration.wrap, Int.bmod_def]
  generalize env.retryBase * policy.backoff.factor next = delay at product ⊢
  constructor
  · intro same
    by_cases fits : delay < 2 ^ 63
    · exact Or.inl fits
    · have capped : min env.retryMax delay = env.retryMax := min_eq_left (by omega)
      rw [capped, min_eq_left_iff] at same
      split at same <;> omega
  · intro holds
    split <;> omega

theorem exactDelay_mono (paced : Paced env) (order : next ≤ later) :
    exactDelay env policy next ≤ exactDelay env policy later :=
  min_le_min_left _ (mul_le_mul_of_nonneg_left (Backoff.factor_mono order) paced.basePositive.le)

theorem base_le_exactDelay (paced : Paced env) (retries : policy.backoff ≠ .none) (isRetry : 2 ≤ next) :
    env.retryBase ≤ exactDelay env policy next :=
  le_min paced.ordered (base_le_product paced retries isRetry)

/-- When the delay is the exact one; and where it is, it is at least the base and grows with the attempt. -/
theorem backoff_meets_exact_iff (paced : Paced env) (retries : policy.backoff ≠ .none) (isRetry : 2 ≤ next) :
    (backoff env policy next = exactDelay env policy next ↔ CapHolds env policy next) ∧
    (CapHolds env policy next → env.retryBase ≤ backoff env policy next) ∧
    ∀ later, next ≤ later → CapHolds env policy next → CapHolds env policy later →
      backoff env policy next ≤ backoff env policy later := by
  have exactAt : ∀ attempt, 2 ≤ attempt → CapHolds env policy attempt →
      backoff env policy attempt = exactDelay env policy attempt :=
    fun attempt retry holds => (backoff_exact_iff paced retries retry).mpr holds
  refine ⟨backoff_exact_iff paced retries isRetry, fun holds => ?_, fun later order holds holdsToo => ?_⟩
  · rw [exactAt next isRetry holds]
    exact base_le_exactDelay paced retries isRetry
  · rw [exactAt next isRetry holds, exactAt later (le_trans isRetry order) holdsToo]
    exact exactDelay_mono paced order

/-- An engine with the default delays: five seconds, capped at five minutes. -/
def defaultDelays : Env where
  evaluateGuard := fun _ _ _ _ => .ok true
  evaluatePickupGuard := fun _ _ _ => .ok true
  validateInput := fun _ => .ok ()
  validateOutcome := fun _ _ _ => .ok ()
  validateOutput := fun _ => .ok ()
  prepareDelta := fun _ _ _ _ => none
  resolveBinding := fun _ _ => .error "no binding"
  retryBase := 5 * Duration.second
  retryMax := 300 * Duration.second

theorem defaultDelays_paced : Paced defaultDelays := by
  refine ⟨?_, ?_, ?_⟩ <;> decide

theorem backoff_meets_exact_tenth :
    backoff defaultDelays ⟨40, .exponential⟩ 10 = 300 * Duration.second ∧
    defaultDelays.retryBase ≤ backoff defaultDelays ⟨40, .exponential⟩ 10 :=
  ⟨by decide, (backoff_meets_exact_iff defaultDelays_paced (by decide) (by decide)).2.1 (Or.inl (by decide))⟩

/-- Delays of more than a year, as an engine can be set up with. -/
def longDelays : Env := { defaultDelays with retryBase := 36028797018963968, retryMax := 72057594037927936 }

/-- The last of ten attempts is due before the one before it has ended; with the default delays it is the
thirty-third. -/
theorem backoff_negative :
    (Paced longDelays ∧ backoff longDelays ⟨10, .exponential⟩ 10 = -9223372036854775808 ∧
      exactDelay longDelays ⟨10, .exponential⟩ 10 = longDelays.retryMax) ∧
    Paced defaultDelays ∧ backoff defaultDelays ⟨40, .exponential⟩ 33 = -7709325833709551616 ∧
    exactDelay defaultDelays ⟨40, .exponential⟩ 33 = 300 * Duration.second :=
  ⟨⟨⟨by decide, by decide, by decide⟩, by decide, by decide⟩, defaultDelays_paced, by decide, by decide⟩

end CultureNodes.Engine
