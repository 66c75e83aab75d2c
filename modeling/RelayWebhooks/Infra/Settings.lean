import RelayWebhooks.Domain.Deliveries

/-! The settings the delivery engine and the API read, with their defaults. -/
namespace RelayWebhooks

structure Settings where
  dispatcherConcurrency : ℕ := 10
  breakerFailureThreshold : ℕ := 5
  breakerCooldownSeconds : ℚ := 60
  deliveryMaxAttempts : ℕ := 8
  dispatcherPerEndpointConcurrency : ℕ := 3
  rateLimitRequestsPerSecond : ℚ := 5
  rateLimitBurst : ℤ := 20
  eventPayloadMaxBytes : ℕ := 65536
  sandboxMaxEndpoints : ℕ := 3
  sandboxMaxEvents : ℕ := 20
  sandboxRateLimitRequestsPerSecond : ℚ := 1
  sandboxRateLimitBurst : ℤ := 3

/-- The cooldown as `attempt` computes it. -/
def Settings.breakerCooldown (s : Settings) : ℤ := timedeltaSeconds s.breakerCooldownSeconds

end RelayWebhooks
