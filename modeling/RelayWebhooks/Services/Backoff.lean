import RelayWebhooks.Py.Number
import RelayWebhooks.Services.Attempt

/-! The retry delays: how long they can be, and the attempt numbers that have none. -/
namespace RelayWebhooks

/-- What the jitter draws below. -/
def backoffBound (attempt : ℕ) (baseSeconds capSeconds : ℚ) : ℚ :=
  min capSeconds (baseSeconds * 2 ^ attempt)

section
variable {attempt : ℕ} {draw baseSeconds capSeconds : ℚ}

theorem computeBackoffSeconds_eq (h : attempt < doubleExponentLimit) :
    computeBackoffSeconds attempt draw baseSeconds capSeconds =
      .ok (backoffBound attempt baseSeconds capSeconds * draw) := by
  have hneg : ¬(attempt : ℤ) < 0 := by omega
  unfold computeBackoffSeconds
  rw [if_neg hneg, Int.toNat_natCast, if_neg (by omega)]
  simp [backoffBound]

theorem computeBackoffSeconds_overflow (h : doubleExponentLimit ≤ attempt) :
    computeBackoffSeconds attempt draw baseSeconds capSeconds = .error .overflow := by
  have hneg : ¬(attempt : ℤ) < 0 := by omega
  unfold computeBackoffSeconds
  rw [if_neg hneg, Int.toNat_natCast, if_pos h]

theorem backoffBound_nonneg (hbase : 0 ≤ baseSeconds) (hcap : 0 ≤ capSeconds) :
    0 ≤ backoffBound attempt baseSeconds capSeconds := by
  unfold backoffBound
  positivity

theorem backoffBound_le_cap : backoffBound attempt baseSeconds capSeconds ≤ capSeconds :=
  min_le_left _ _

theorem backoffBound_monotone (hbase : 0 ≤ baseSeconds) :
    Monotone fun attempt => backoffBound attempt baseSeconds capSeconds := by
  intro attempt attempt' hle
  have hpow : (2 : ℚ) ^ attempt ≤ 2 ^ attempt' := pow_le_pow_right₀ (by norm_num) hle
  exact min_le_min le_rfl (mul_le_mul_of_nonneg_left hpow hbase)

/-- The cap and the base scaled by a power of two are doubles. -/
theorem backoffBound_isDouble (hbase : IsDouble baseSeconds) (hcap : IsDouble capSeconds) :
    IsDouble (backoffBound attempt baseSeconds capSeconds) := by
  unfold backoffBound
  rcases min_choice capSeconds (baseSeconds * 2 ^ attempt) with h | h
  · rw [h]
    exact hcap
  · rw [h]
    exact hbase.mul_two_pow attempt

/-- The delay is between zero and the bound, and stays there when the product with the random
fraction is rounded to a double. -/
structure DelayWithin (d bound : ℚ) : Prop where
  nonneg : 0 ≤ d
  le_bound : d ≤ bound
  rounded_nonneg : 0 ≤ roundDouble d
  rounded_le : IsDouble bound → roundDouble d ≤ bound

theorem delayWithin {bound : ℚ} (hbound : 0 ≤ bound) (hdraw : 0 ≤ draw) (hdraw' : draw < 1) :
    DelayWithin (bound * draw) bound := by
  have hnonneg : 0 ≤ bound * draw := mul_nonneg hbound hdraw
  have hle : bound * draw ≤ bound := mul_le_of_le_one_right hbound hdraw'.le
  constructor
  · exact hnonneg
  · exact hle
  · exact roundDouble_nonneg hnonneg
  · exact roundDouble_le hnonneg hle

/-- The delay is computed and bounded for exactly the attempt numbers that are converted. -/
theorem computeBackoffSeconds_within_iff (hbase : 0 ≤ baseSeconds) (hcap : 0 ≤ capSeconds)
    (hdraw : 0 ≤ draw) (hdraw' : draw < 1) :
    (∃ d, computeBackoffSeconds attempt draw baseSeconds capSeconds = .ok d ∧
        DelayWithin d (backoffBound attempt baseSeconds capSeconds) ∧ d ≤ capSeconds) ↔
      attempt < doubleExponentLimit := by
  constructor
  · rintro ⟨d, hd, -⟩
    by_contra hlarge
    rw [computeBackoffSeconds_overflow (not_lt.mp hlarge)] at hd
    cases hd
  · intro hsmall
    have hbound : 0 ≤ backoffBound attempt baseSeconds capSeconds :=
      backoffBound_nonneg hbase hcap
    have hwithin := delayWithin hbound hdraw hdraw'
    exact ⟨_, computeBackoffSeconds_eq hsmall, hwithin, hwithin.le_bound.trans backoffBound_le_cap⟩

end

theorem DeliveryAttemptService.deliveryOutcome_always_iff {settings : Settings} {now : ℤ} :
    (∀ (attemptCount : ℕ) (draw : ℚ) (result : OutboundHttpResult),
        attemptCount < settings.deliveryMaxAttempts → 0 ≤ draw → draw < 1 →
        ∃ w, deliveryOutcome settings now draw attemptCount result = .ok w) ↔
      settings.deliveryMaxAttempts ≤ doubleExponentLimit + 1 := by
  simp only [deliveryOutcome_isOk, doubleExponentLimit]
  constructor
  · intro h
    by_contra hmany
    have hlate := h 1024 0 { latencyMs := 0 } (by omega) le_rfl one_pos
    simp only [show OutboundHttpResult.succeeded { latencyMs := 0 } = false from rfl,
      Bool.false_eq_true, false_or] at hlate
    omega
  · intro hfew attemptCount draw result hcount _ _
    right
    omega

/-- For every attempt number below 1024 the delay is computed and bounded, and for no other; so an
attempt always finds its next retry time exactly if it is given at most 1025 attempts. -/
theorem backoff_bounded_iff (baseSeconds capSeconds : ℚ) (hbase : 0 ≤ baseSeconds)
    (hcap : 0 ≤ capSeconds) :
    (∀ (attempt : ℕ) (draw : ℚ), 0 ≤ draw → draw < 1 →
      ((∃ d, computeBackoffSeconds attempt draw baseSeconds capSeconds = .ok d ∧
          DelayWithin d (min capSeconds (baseSeconds * 2 ^ attempt)) ∧ d ≤ capSeconds) ↔
        attempt < 1024)) ∧
    (Monotone fun attempt : ℕ => min capSeconds (baseSeconds * 2 ^ attempt)) ∧
    (IsDouble baseSeconds → IsDouble capSeconds →
      ∀ attempt : ℕ, IsDouble (min capSeconds (baseSeconds * 2 ^ attempt))) ∧
    ∀ (settings : Settings) (now : ℤ),
      (∀ (attemptCount : ℕ) (draw : ℚ) (result : OutboundHttpResult),
        attemptCount < settings.deliveryMaxAttempts → 0 ≤ draw → draw < 1 →
        ∃ w, DeliveryAttemptService.deliveryOutcome settings now draw attemptCount result =
          .ok w) ↔
      settings.deliveryMaxAttempts ≤ 1025 := by
  refine ⟨?_, backoffBound_monotone hbase, ?_, ?_⟩
  · intro attempt draw hdraw hdraw'
    exact computeBackoffSeconds_within_iff hbase hcap hdraw hdraw'
  · intro hbase hcap attempt
    exact backoffBound_isDouble hbase hcap
  · intro settings now
    exact DeliveryAttemptService.deliveryOutcome_always_iff

theorem backoff_bounded_sample :
    (∃ d, computeBackoffSeconds 7 (1 / 2) 1 60 = .ok d ∧
      DelayWithin d (min 60 (1 * 2 ^ 7)) ∧ d ≤ 60) ∧
    IsDouble (min 60 (1 * 2 ^ 7)) ∧
    ∃ w, DeliveryAttemptService.deliveryOutcome {} 0 (1 / 2) 6 { latencyMs := 5 } = .ok w := by
  obtain ⟨hdelay, -, hdouble, hattempt⟩ := backoff_bounded_iff 1 60 (by norm_num) (by norm_num)
  refine ⟨?_, ?_, ?_⟩
  · exact (hdelay 7 (1 / 2) (by norm_num) (by norm_num)).mpr (by norm_num)
  · exact hdouble (by decide +kernel) (by decide +kernel) 7
  · exact (hattempt {} 0).mpr (by decide) 6 (1 / 2) _ (by decide) (by norm_num) (by norm_num)

/-- Attempt 1024 of the default backoff raises. -/
theorem backoff_overflows :
    ¬∀ (attempt : ℕ) (baseSeconds capSeconds draw : ℚ), 0 ≤ baseSeconds → 0 ≤ capSeconds →
      0 ≤ draw → draw < 1 →
      ∃ d, computeBackoffSeconds attempt draw baseSeconds capSeconds = .ok d ∧
        0 ≤ d ∧ d ≤ min capSeconds (baseSeconds * 2 ^ attempt) := by
  intro h
  obtain ⟨d, hd, -⟩ := h 1024 defaultBaseSeconds defaultCapSeconds 0 (by decide +kernel)
    (by decide +kernel) le_rfl one_pos
  exact absurd hd (by simp [computeBackoffSeconds, doubleExponentLimit])

end RelayWebhooks
