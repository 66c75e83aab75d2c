import RelayWebhooks.Api.Errors
import RelayWebhooks.Infra.IdealBucket
import RelayWebhooks.Infra.Signing

/-! The `Retry-After` of a denied call: a promise that the script keeps as long as its arithmetic
rounds nothing down. -/
namespace RelayWebhooks
open TokenBucket (Bucket)
open TokenBucket.Bucket (CoversBy)

/-- A number rounded to so many significant decimal digits. -/
def roundDecimal (digits : ℕ) (x : ℚ) : ℚ :=
  if x = 0 then 0
  else
    let unit : ℚ := 10 ^ (Int.log 10 |x| + 1 - digits)
    roundHalfEven (x / unit) * unit

/-- What an operation of the script is rounded to, and what `float` reads of a number that
`tostring` wrote. -/
structure Arithmetic where
  round : ℚ → ℚ
  reread : ℚ → ℚ

namespace Arithmetic

def exact : Arithmetic := ⟨id, id⟩

/-- `tostring` writes 14 digits. -/
def doubles : Arithmetic := ⟨roundDouble, fun x => roundDouble (roundDecimal 14 x)⟩

end Arithmetic

section
variable (arith : Arithmetic)

/-- `_TOKEN_BUCKET_SCRIPT` with its arithmetic. -/
def roundedScript (bucket : Option StoredBucket) (rate : ℚ) (burst : ℤ) (now cost : ℚ)
    (redisTime : ℚ) : ScriptReply × StoredBucket :=
  let tokens : ℚ := match bucket with
    | none => burst
    | some b => b.tokens
  let updatedAt := match bucket with
    | none => now
    | some b => b.updatedAt
  let elapsed := if arith.round (now - updatedAt) < 0 then 0 else arith.round (now - updatedAt)
  let tokens := min (burst : ℚ) (arith.round (tokens + arith.round (elapsed * rate)))
  let allowed := if tokens ≥ cost then 1 else 0
  let retryAfter := if tokens ≥ cost then 0 else arith.round (arith.round (cost - tokens) / rate)
  let tokens := if tokens ≥ cost then arith.round (tokens - cost) else tokens
  let ttl := ⌈arith.round (burst / rate)⌉ + 1
  (⟨allowed, arith.reread retryAfter, arith.reread tokens⟩, ⟨⟨tokens, now⟩, redisTime + ttl⟩)

/-- `allow` with the arithmetic of the script. -/
def roundedAllow (keys : RateLimitKeys) (tenantId : UUID) (ratePerSecond : ℚ) (burst : ℤ)
    (cost now redisTime : ℚ) : RateLimitDecision × RateLimitKeys :=
  let result :=
    roundedScript arith (keys.live tenantId redisTime) ratePerSecond burst now cost redisTime
  (⟨result.1.allowed ≠ 0, max 0 result.1.retryAfter, result.1.tokens⟩,
    Function.update keys tenantId (some result.2))

variable (limits : UUID → RateLimit)

def serve (keys : RateLimitKeys) (a : AllowCall) : ServedCall × RateLimitKeys :=
  let limit := limits a.tenantId
  let result := roundedAllow arith keys a.tenantId limit.ratePerSecond limit.burst a.cost a.now
    a.redisTime
  (⟨a, result.1⟩, result.2)

/-- The calls as they are served, the first one first, and the keys they leave. -/
def serveAll : RateLimitKeys → List AllowCall → List ServedCall × RateLimitKeys
  | keys, [] => ([], keys)
  | keys, a :: as =>
    let first := serve arith limits keys a
    let rest := serveAll first.2 as
    (first.1 :: rest.1, rest.2)

end

/-- In exact arithmetic the script is the one the bucket is an abstraction of. -/
theorem roundedScript_exact : roundedScript .exact = tokenBucketScript := by
  funext bucket rate burst now cost redisTime
  rfl

theorem roundedAllow_exact : roundedAllow .exact = allow := by
  funext keys tenantId ratePerSecond burst cost now redisTime
  rw [roundedAllow, roundedScript_exact]
  rfl

/-- Calls on an empty Redis: one that is to be denied, and one made again later. -/
structure RetryRun where
  limits : UUID → RateLimit
  before : List AllowCall
  denied : AllowCall
  between : List AllowCall
  again : AllowCall

namespace RetryRun
variable (arith : Arithmetic) (r : RetryRun)

def first : ServedCall × RateLimitKeys :=
  serve arith r.limits (serveAll arith r.limits (fun _ => none) r.before).2 r.denied

def later : List ServedCall × RateLimitKeys := serveAll arith r.limits (r.first arith).2 r.between

def last : ServedCall × RateLimitKeys := serve arith r.limits (r.later arith).2 r.again

end RetryRun

/-- The call made again has the same cost and waits out the `Retry-After` of the denied one. None
of the tenant's calls in between is admitted, and its clocks do not go back. Redis' own clock,
which expires the keys, may read anything. -/
structure Retried (arith : Arithmetic) (r : RetryRun) (R : ℤ) : Prop where
  cost_nonneg : 0 ≤ r.denied.cost
  cost_le : r.denied.cost ≤ (r.limits r.denied.tenantId).burst
  denied : (r.first arith).1.decision.allowed = false
  header : retryAfterHeader (r.first arith).1.decision.retryAfterSeconds = ("Retry-After", intText R)
  none_admitted : ∀ c ∈ servedTo r.denied.tenantId (r.later arith).1, c.decision.allowed = false
  clocks : (r.denied.now :: (r.between.filter fun a => a.tenantId = r.denied.tenantId).map (·.now)
    ++ [r.again.now]).IsChain (· ≤ ·)
  same_tenant : r.again.tenantId = r.denied.tenantId
  same_cost : r.again.cost = r.denied.cost
  waited : r.denied.now + R ≤ r.again.now

section
variable (arith : Arithmetic)

/-- The tokens the script finds, refilled with its arithmetic. -/
def roundedRefill (bucket : Option StoredBucket) (rate : ℚ) (burst : ℤ) (now : ℚ) : ℚ :=
  let b := openBucket bucket burst now
  let elapsed := if arith.round (now - b.updatedAt) < 0 then 0 else arith.round (now - b.updatedAt)
  min (burst : ℚ) (arith.round (b.tokens + arith.round (elapsed * rate)))

variable (limits : UUID → RateLimit) (keys : RateLimitKeys) (a : AllowCall)

/-- The tenant's bucket as a call finds it. -/
def foundBucket : Bucket ℚ :=
  ⟨roundedRefill arith (keys.live a.tenantId a.redisTime) (limits a.tenantId).ratePerSecond
    (limits a.tenantId).burst a.now, a.now⟩

/-- The refill is not rounded down. -/
def RefillsFully : Prop :=
  (refilled (keys.live a.tenantId a.redisTime) (limits a.tenantId).ratePerSecond
    (limits a.tenantId).burst a.now).tokens ≤ (foundBucket arith limits keys a).tokens

/-- The time until the tokens cover the cost is not rounded down. -/
def WaitsFully : Prop :=
  (a.cost - (foundBucket arith limits keys a).tokens) / (limits a.tenantId).ratePerSecond ≤
    arith.reread (arith.round (arith.round (a.cost - (foundBucket arith limits keys a).tokens) /
      (limits a.tenantId).ratePerSecond))

instance : Decidable (RefillsFully arith limits keys a) := inferInstanceAs (Decidable (_ ≤ _))

instance : Decidable (WaitsFully arith limits keys a) := inferInstanceAs (Decidable (_ ≤ _))

/-- No call of the tenant finds its refill rounded down. -/
def RefillsUp (tenantId : UUID) : RateLimitKeys → List AllowCall → Prop
  | _, [] => True
  | keys, a :: as =>
    (a.tenantId = tenantId → RefillsFully arith limits keys a) ∧
      RefillsUp tenantId (serve arith limits keys a).2 as

instance (tenantId : UUID) :
    ∀ (keys : RateLimitKeys) (as : List AllowCall), Decidable (RefillsUp arith limits tenantId keys as)
  | _, [] => isTrue trivial
  | keys, a :: as =>
    have := instDecidableRefillsUp tenantId (serve arith limits keys a).2 as
    inferInstanceAs (Decidable ((a.tenantId = tenantId → _) ∧ _))

end

/-- Neither the denied call's `retry_after` nor a later refill of the tenant's bucket is rounded
down. -/
structure RetryRun.RoundsUp (arith : Arithmetic) (r : RetryRun) : Prop where
  retryAfter :
    WaitsFully arith r.limits (serveAll arith r.limits (fun _ => none) r.before).2 r.denied
  between : RefillsUp arith r.limits r.denied.tenantId (r.first arith).2 r.between
  again : RefillsFully arith r.limits (r.later arith).2 r.again

section
variable {arith : Arithmetic} {limits : UUID → RateLimit} {keys : RateLimitKeys} {a : AllowCall}
  {tenantId : UUID} {due cost now : ℚ}

@[simp] theorem call_serve : (serve arith limits keys a).1.call = a := rfl

/-- The script by the tokens it finds. -/
theorem roundedScript_eq (bucket : Option StoredBucket) (rate : ℚ) (burst : ℤ)
    (now cost redisTime : ℚ) :
    roundedScript arith bucket rate burst now cost redisTime =
      let tokens := roundedRefill arith bucket rate burst now
      let left := if tokens ≥ cost then arith.round (tokens - cost) else tokens
      (⟨if tokens ≥ cost then 1 else 0,
        arith.reread (if tokens ≥ cost then 0 else arith.round (arith.round (cost - tokens) / rate)),
        arith.reread left⟩,
        ⟨⟨left, now⟩, redisTime + (⌈arith.round (burst / rate)⌉ + 1 : ℤ)⟩) := by
  cases bucket <;> rfl

theorem serve_allowed : (serve arith limits keys a).1.decision.allowed = true ↔
    a.cost ≤ (foundBucket arith limits keys a).tokens := by
  unfold serve roundedAllow
  simp only [roundedScript_eq, foundBucket]
  split <;> simp_all

/-- A denied call stores the bucket as it found it. -/
theorem serve_denied (h : (serve arith limits keys a).1.decision.allowed = false) :
    ∃ b, (serve arith limits keys a).2 a.tenantId = some b ∧
      b.toBucket = foundBucket arith limits keys a := by
  have hshort : ¬(foundBucket arith limits keys a).tokens ≥ a.cost := by
    rw [ge_iff_le, ← serve_allowed, h]
    decide
  unfold serve roundedAllow
  simp only [roundedScript_eq, Function.update_self]
  refine ⟨_, rfl, ?_⟩
  unfold foundBucket at *
  rw [if_neg hshort]

/-- What it is told to wait. -/
theorem serve_retryAfter (h : (serve arith limits keys a).1.decision.allowed = false)
    (hwaits : WaitsFully arith limits keys a) :
    (foundBucket arith limits keys a).shortfall (limits a.tenantId).ratePerSecond a.cost ≤
      (serve arith limits keys a).1.decision.retryAfterSeconds := by
  have hshort : ¬(foundBucket arith limits keys a).tokens ≥ a.cost := by
    rw [ge_iff_le, ← serve_allowed, h]
    decide
  have hreply : (serve arith limits keys a).1.decision.retryAfterSeconds =
      max 0 (arith.reread (arith.round (arith.round (a.cost -
        (foundBucket arith limits keys a).tokens) / (limits a.tenantId).ratePerSecond))) := by
    unfold serve roundedAllow
    simp only [roundedScript_eq]
    unfold foundBucket at *
    rw [if_neg hshort]
  rw [hreply, Bucket.shortfall, if_neg hshort]
  exact le_max_of_le_right hwaits

theorem serve_other (h : a.tenantId ≠ tenantId) :
    (serve arith limits keys a).2 tenantId = keys tenantId := Function.update_of_ne (Ne.symm h) ..

/-- The tenant's key was written by `now` and covers the cost by `due`. -/
def CoveredAt (limits : UUID → RateLimit) (tenantId : UUID) (due cost now : ℚ)
    (keys : RateLimitKeys) : Prop :=
  ∃ b, keys tenantId = some b ∧ b.updatedAt = now ∧
    CoversBy (limits tenantId).ratePerSecond due cost b.toBucket

/-- Refilled, or full again after the key expired, the bucket still covers the cost. -/
theorem CoveredAt.found (h : CoveredAt limits a.tenantId due cost now keys)
    (hcost : cost ≤ (limits a.tenantId).burst) (hnow : now ≤ a.now)
    (hrefill : RefillsFully arith limits keys a) :
    CoversBy (limits a.tenantId).ratePerSecond due cost (foundBucket arith limits keys a) := by
  have hrate := (limits a.tenantId).rate_pos
  obtain ⟨b, hkey, rfl, hcovers⟩ := h
  have hexact : CoversBy (limits a.tenantId).ratePerSecond due cost
      (refilled (keys.live a.tenantId a.redisTime) (limits a.tenantId).ratePerSecond
        (limits a.tenantId).burst a.now) := by
    unfold refilled RateLimitKeys.live openBucket
    rw [hkey, Option.filter_some]
    split
    next => exact (Bucket.coversBy_full hrate hcost).refill hrate hcost le_rfl
    next b' hlive =>
      split at hlive
      next =>
        obtain rfl := Option.some.inj hlive
        exact hcovers.refill hrate hcost hnow
      next => cases hlive
  exact hexact.mono hrefill rfl

/-- A denied call of the tenant moves the bucket's time on and leaves it covered. -/
theorem CoveredAt.serve_denied (h : CoveredAt limits a.tenantId due cost now keys)
    (hcost : cost ≤ (limits a.tenantId).burst) (hnow : now ≤ a.now)
    (hrefill : RefillsFully arith limits keys a)
    (hdenied : (serve arith limits keys a).1.decision.allowed = false) :
    CoveredAt limits a.tenantId due cost a.now (serve arith limits keys a).2 := by
  obtain ⟨b, hkey, hb⟩ := RelayWebhooks.serve_denied hdenied
  refine ⟨b, hkey, ?_, ?_⟩
  · rw [show b.updatedAt = b.toBucket.updatedAt from rfl, hb]
    rfl
  · rw [hb]
    exact h.found hcost hnow hrefill

/-- The calls in between leave the bucket covered, however many of them are denied. -/
theorem CoveredAt.after (hcost : cost ≤ (limits tenantId).burst) {as : List AllowCall}
    {later : ℚ} (h : CoveredAt limits tenantId due cost now keys)
    (hnone : ∀ c ∈ servedTo tenantId (serveAll arith limits keys as).1,
      c.decision.allowed = false)
    (hclocks : (now :: (as.filter fun a => a.tenantId = tenantId).map (·.now) ++
      [later]).IsChain (· ≤ ·))
    (hrefills : RefillsUp arith limits tenantId keys as) :
    ∃ now', now' ≤ later ∧
      CoveredAt limits tenantId due cost now' (serveAll arith limits keys as).2 := by
  induction as generalizing keys now with
  | nil =>
    refine ⟨now, ?_, h⟩
    simpa using hclocks
  | cons a as ih =>
    obtain ⟨hrefill, hrefills⟩ := hrefills
    by_cases ha : a.tenantId = tenantId
    · subst ha
      simp only [serveAll, servedTo, List.filter_cons, call_serve, decide_true, if_true,
        List.forall_mem_cons] at hnone
      simp only [List.filter_cons, decide_true, if_true, List.map_cons, List.cons_append,
        List.isChain_cons_cons] at hclocks
      have hcovered := h.serve_denied hcost hclocks.1 (hrefill rfl) hnone.1
      exact ih hcovered hnone.2 hclocks.2 hrefills
    · simp only [serveAll, servedTo, List.filter_cons, call_serve, ha, decide_false,
        Bool.false_eq_true, if_false] at hnone
      simp only [List.filter_cons, ha, decide_false, Bool.false_eq_true, if_false] at hclocks
      have hkept : CoveredAt limits tenantId due cost now (serve arith limits keys a).2 := by
        obtain ⟨b, hkey, hnow, hcovers⟩ := h
        exact ⟨b, by rw [serve_other ha, hkey], hnow, hcovers⟩
      exact ih hkept hnone hclocks hrefills

/-- The denial promises what its own bucket covers by the `Retry-After`. -/
theorem coveredAt_of_denied {R : ℤ}
    (hdenied : (serve arith limits keys a).1.decision.allowed = false)
    (hR : retryAfterHeader (serve arith limits keys a).1.decision.retryAfterSeconds =
      ("Retry-After", intText R))
    (hwaits : WaitsFully arith limits keys a) :
    CoveredAt limits a.tenantId (a.now + R) a.cost a.now (serve arith limits keys a).2 := by
  have hrate := (limits a.tenantId).rate_pos
  have hRle : (serve arith limits keys a).1.decision.retryAfterSeconds ≤ R := by
    have heq := intText_injective (Prod.mk.inj hR).2
    rw [← heq]
    push_cast
    exact le_max_of_le_right (Int.le_ceil _)
  have hwait := serve_retryAfter hdenied hwaits
  obtain ⟨b, hkey, hb⟩ := serve_denied hdenied
  refine ⟨b, hkey, ?_, ?_⟩
  · rw [show b.updatedAt = b.toBucket.updatedAt from rfl, hb]
    rfl
  · rw [hb]
    apply Bucket.coversBy_of_shortfall hrate
    show a.now + _ ≤ _
    linarith

/-- A run that rounds nothing down keeps the promise. -/
theorem Retried.admitted {r : RetryRun} {R : ℤ} (h : Retried arith r R) (hup : r.RoundsUp arith) :
    (r.last arith).1.decision.allowed = true := by
  obtain ⟨now', hlate, hcovered⟩ := (coveredAt_of_denied h.denied h.header hup.retryAfter).after
    h.cost_le h.none_admitted h.clocks hup.between
  rw [← h.same_tenant] at hcovered
  have hfound := hcovered.found (by rw [h.same_tenant]; exact h.cost_le) hlate hup.again
  rw [RetryRun.last, serve_allowed, h.same_cost]
  exact hfound.cost_le h.waited

/-- Exact arithmetic rounds nothing. -/
theorem refillsFully_exact : RefillsFully .exact limits keys a := by
  unfold RefillsFully
  rw [← script_tokens]
  unfold foundBucket roundedRefill openBucket
  cases keys.live a.tenantId a.redisTime <;> exact le_rfl

theorem refillsUp_exact (keys : RateLimitKeys) (as : List AllowCall) :
    RefillsUp .exact limits tenantId keys as := by
  induction as generalizing keys with
  | nil => trivial
  | cons a as ih => exact ⟨fun _ => refillsFully_exact, ih _⟩

theorem RetryRun.roundsUp_exact (r : RetryRun) : r.RoundsUp .exact where
  retryAfter := le_rfl
  between := refillsUp_exact _ _
  again := refillsFully_exact

end

/-- A call that waits out its `Retry-After` is admitted, through any number of denied calls in
between and whether or not its key expires meanwhile, if from the denial on nothing is rounded
down; in exact arithmetic always. -/
theorem retry_after_honest (r : RetryRun) (R : ℤ) :
    (Retried .doubles r R → r.RoundsUp .doubles →
      (r.last .doubles).1.decision.allowed = true) ∧
    (Retried .exact r R → (r.last .exact).1.decision.allowed = true) := by
  constructor
  · intro h hup
    exact h.admitted hup
  · intro h
    exact h.admitted r.roundsUp_exact

/-- One token, spent and asked for again at time 0 and after 49 seconds. -/
def slowRetry (rate : ℚ) (h : 0 < rate) (between : List AllowCall) : RetryRun where
  limits _ := ⟨rate, 1, h⟩
  before := [{ tenantId := 7, now := 0, redisTime := 0 }]
  denied := { tenantId := 7, now := 0, redisTime := 0 }
  between := between
  again := { tenantId := 7, now := 49, redisTime := 49 }

/-- A call beyond the burst finds the key expired; another tenant calls as well. -/
theorem retry_after_honest_slow :
    ((slowRetry (1 / 32) (by norm_num)
      [{ tenantId := 7, cost := 2, now := 10, redisTime := 60 },
        { tenantId := 8, now := 5, redisTime := 60 }]).last .doubles).1.decision.allowed = true := by
  apply (retry_after_honest _ 32).1
  · constructor <;> decide +kernel
  · constructor <;> decide +kernel

/-- At the double next to 1/49 a token takes 49.00000000000001 seconds, of which `tostring` leaves
49; they are credited with less than one token. -/
theorem retry_after_short_in_doubles :
    ¬∀ (r : RetryRun) (R : ℤ), Retried .doubles r R →
      (r.last .doubles).1.decision.allowed = true := by
  intro h
  have hallowed := h (slowRetry (roundDouble (1 / 49)) (by decide +kernel) []) 49 (by
    constructor <;> decide +kernel)
  revert hallowed
  decide +kernel

end RelayWebhooks
