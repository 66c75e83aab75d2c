import RelayWebhooks.Lib.TokenBucket
import RelayWebhooks.Lib.Transition
import RelayWebhooks.Py.Text
import Mathlib.Algebra.BigOperators.Group.List.Basic
import Mathlib.Algebra.Order.Floor.Ring
import Mathlib.Data.Rat.Floor

/-! The per-tenant token bucket in Redis, shared by the API replicas. Its times are seconds:
`now` is the clock of the replica that calls, the expiry of a key is on Redis' own clock. -/
namespace RelayWebhooks
open TokenBucket (Bucket)
open TokenBucket.Bucket (Within Holds)

/-- The hash under one tenant's key, and when the key expires. -/
structure StoredBucket extends Bucket ℚ where
  expiresAt : ℚ
  deriving DecidableEq

/-- What one run of the script returns. -/
structure ScriptReply where
  allowed : ℕ
  retryAfter : ℚ
  tokens : ℚ
  deriving DecidableEq

/-- `_TOKEN_BUCKET_SCRIPT` on the live bucket of the key, if there is one. -/
def tokenBucketScript (bucket : Option StoredBucket) (rate : ℚ) (burst : ℤ) (now cost : ℚ)
    (redisTime : ℚ) : ScriptReply × StoredBucket :=
  let tokens : ℚ := match bucket with
    | none => burst
    | some b => b.tokens
  let updatedAt := match bucket with
    | none => now
    | some b => b.updatedAt
  let elapsed := if now - updatedAt < 0 then 0 else now - updatedAt
  let tokens := min (burst : ℚ) (tokens + elapsed * rate)
  let allowed := if tokens ≥ cost then 1 else 0
  let retryAfter := if tokens ≥ cost then 0 else (cost - tokens) / rate
  let tokens := if tokens ≥ cost then tokens - cost else tokens
  let ttl := ⌈burst / rate⌉ + 1
  (⟨allowed, retryAfter, tokens⟩, ⟨⟨tokens, now⟩, redisTime + ttl⟩)

structure RateLimitDecision where
  allowed : Bool
  retryAfterSeconds : ℚ
  remainingTokens : ℚ
  deriving DecidableEq

/-- The keys `relay:ratelimit:tenant:…`, by tenant. -/
abbrev RateLimitKeys := UUID → Option StoredBucket

/-- A key that has expired is gone for the script. -/
def RateLimitKeys.live (keys : RateLimitKeys) (tenantId : UUID) (redisTime : ℚ) :
    Option StoredBucket :=
  (keys tenantId).filter fun b => redisTime < b.expiresAt

def allow (keys : RateLimitKeys) (tenantId : UUID) (ratePerSecond : ℚ) (burst : ℤ) (cost now : ℚ)
    (redisTime : ℚ) : RateLimitDecision × RateLimitKeys :=
  let result :=
    tokenBucketScript (keys.live tenantId redisTime) ratePerSecond burst now cost redisTime
  (⟨result.1.allowed ≠ 0, max 0 result.1.retryAfter, result.1.tokens⟩,
    Function.update keys tenantId (some result.2))

/-- The bucket the script starts from. -/
def openBucket (bucket : Option StoredBucket) (burst : ℤ) (now : ℚ) : Bucket ℚ :=
  match bucket with
  | none => .full burst now
  | some b => b.toBucket

section
variable (bucket : Option StoredBucket) (rate : ℚ) (burst : ℤ) (now cost redisTime : ℚ)

def refilled : Bucket ℚ := (openBucket bucket burst now).refill rate burst now

theorem script_tokens :
    min (burst : ℚ) ((match bucket with | none => (burst : ℚ) | some b => b.tokens) +
      (if now - (match bucket with | none => now | some b => b.updatedAt) < 0 then 0
        else now - (match bucket with | none => now | some b => b.updatedAt)) * rate) =
      (refilled bucket rate burst now).tokens := by
  have hmax (x : ℚ) : (if x < 0 then 0 else x) = max 0 x := by
    rw [max_def]
    split <;> split <;> linarith
  unfold refilled Bucket.refill openBucket
  rw [hmax]
  cases bucket <;> rfl

/-- The script refills the bucket and spends the cost. -/
theorem script_bucket :
    (tokenBucketScript bucket rate burst now cost redisTime).2.toBucket =
      (refilled bucket rate burst now).spend cost := by
  unfold tokenBucketScript
  simp only [script_tokens]
  unfold Bucket.spend
  split <;> rfl

theorem script_allowed :
    (tokenBucketScript bucket rate burst now cost redisTime).1.allowed ≠ 0 ↔
      cost ≤ (refilled bucket rate burst now).tokens := by
  unfold tokenBucketScript
  simp only [script_tokens]
  split <;> simp_all

end

/-- `allow` admits the cost the script spends. -/
theorem allow_spent (keys : RateLimitKeys) (tenantId : UUID) (rate : ℚ) (burst : ℤ)
    (cost now redisTime : ℚ) :
    (if (allow keys tenantId rate burst cost now redisTime).1.allowed then cost else 0) =
      (refilled (keys.live tenantId redisTime) rate burst now).spent cost := by
  unfold Bucket.spent
  simp only [allow, decide_eq_true_eq, script_allowed]

/-- A tenant's budget. -/
structure RateLimit where
  ratePerSecond : ℚ
  burst : ℤ
  rate_pos : 0 < ratePerSecond

/-- A call of `allow`, at a replica whose clock reads `now`. -/
structure AllowCall where
  tenantId : UUID
  cost : ℚ := 1
  now : ℚ
  redisTime : ℚ
  deriving DecidableEq

structure ServedCall where
  call : AllowCall
  decision : RateLimitDecision
  deriving DecidableEq

/-- Redis' clock, the keys, and the calls served so far, the last one first. -/
structure RateLimiter where
  redisTime : ℚ
  keys : RateLimitKeys
  served : List ServedCall

namespace RateLimiter

def Init (s : RateLimiter) : Prop := s.keys = (fun _ => none) ∧ s.served = []

variable (limits : UUID → RateLimit)

/-- The calls reach Redis one after the other; only its own clock never goes back. -/
def step (s : RateLimiter) (a : AllowCall) : Option RateLimiter :=
  if s.redisTime ≤ a.redisTime ∧ 0 ≤ a.cost then
    let limit := limits a.tenantId
    let result := allow s.keys a.tenantId limit.ratePerSecond limit.burst a.cost a.now a.redisTime
    some ⟨a.redisTime, result.2, ⟨a, result.1⟩ :: s.served⟩
  else none

abbrev run := Transition.run (step limits)

end RateLimiter

variable (tenantId : UUID)

def servedTo (w : List ServedCall) : List ServedCall :=
  w.filter fun c => c.call.tenantId = tenantId

def nows (w : List ServedCall) : List ℚ := (servedTo tenantId w).map fun c => c.call.now

/-- The total cost admitted. -/
def admitted (w : List ServedCall) : ℚ :=
  ((servedTo tenantId w).map fun c => if c.decision.allowed then c.call.cost else 0).sum

/-- The call does not set the bucket's time back, and it finds the key expired only when a
whole burst is due. -/
def CallOk (limits : UUID → RateLimit) (s : RateLimiter) (a : AllowCall) (_ : RateLimiter) :
    Prop :=
  a.tenantId = tenantId → 0 ≤ (limits tenantId).burst ∧ ∀ b ∈ s.keys tenantId,
    if a.redisTime < b.expiresAt then b.updatedAt ≤ a.now
    else b.updatedAt + (limits tenantId).burst / (limits tenantId).ratePerSecond ≤ a.now

instance (limits : UUID → RateLimit) (s : RateLimiter) (a : AllowCall) (t : RateLimiter) :
    Decidable (CallOk tenantId limits s a t) :=
  inferInstanceAs (Decidable (a.tenantId = tenantId → _ ∧ ∀ b ∈ s.keys tenantId, ite _ _ _))

namespace RateLimiter
variable {limits : UUID → RateLimit} {tenantId} {s t : RateLimiter} {a : AllowCall}

/-- What a step does to the keys and to the log. -/
theorem step_cases (h : step limits s a = some t) :
    0 ≤ a.cost ∧ ∃ b : StoredBucket, ∃ decision : RateLimitDecision,
      t.keys = Function.update s.keys a.tenantId (some b) ∧
      t.served = ⟨a, decision⟩ :: s.served ∧
      b.toBucket = (refilled (s.keys.live a.tenantId a.redisTime)
        (limits a.tenantId).ratePerSecond (limits a.tenantId).burst a.now).spend a.cost ∧
      (if decision.allowed then a.cost else 0) =
        (refilled (s.keys.live a.tenantId a.redisTime)
          (limits a.tenantId).ratePerSecond (limits a.tenantId).burst a.now).spent a.cost := by
  unfold step at h
  split at h
  next hen =>
    obtain rfl := Option.some.inj h
    exact ⟨hen.2, _, _, rfl, rfl, script_bucket .., allow_spent ..⟩
  next => cases h

/-- The tenant's bucket after the calls `w`: it covers what they were admitted. -/
structure Covers (limits : UUID → RateLimit) (tenantId : UUID) (w : List ServedCall)
    (s : RateLimiter) : Prop where
  holds : ∀ b ∈ s.keys tenantId, Holds ((limits tenantId).burst : ℚ) b.toBucket
  within : servedTo tenantId w = [] ∨ ∃ b ∈ s.keys tenantId, b.updatedAt ∈ nows tenantId w ∧
    ∀ since, (∀ x ∈ nows tenantId w, since ≤ x) →
      Within (limits tenantId).ratePerSecond (limits tenantId).burst since (admitted tenantId w)
        b.toBucket

section
variable (hok : CallOk tenantId limits s a t) (ha : a.tenantId = tenantId)
include hok ha

/-- The bucket the script starts from holds no more than a burst. -/
theorem open_holds
    (h : ∀ b ∈ s.keys tenantId, Holds ((limits tenantId).burst : ℚ) b.toBucket) :
    Holds ((limits tenantId).burst : ℚ)
      (openBucket (s.keys.live tenantId a.redisTime) (limits tenantId).burst a.now) := by
  have hburst : (0 : ℚ) ≤ (limits tenantId).burst := by exact_mod_cast (hok ha).1
  unfold openBucket
  split
  next => exact Bucket.holds_full hburst
  next b hlive => exact h b (Option.filter_eq_some_iff.mp hlive).1

/-- It still covers what the stored one covered, and the call comes after it. -/
theorem open_within {b : StoredBucket} (hb : b ∈ s.keys tenantId)
    (hh : Holds ((limits tenantId).burst : ℚ) b.toBucket) {since spent : ℚ}
    (h : Within (limits tenantId).ratePerSecond (limits tenantId).burst since spent b.toBucket) :
    Within (limits tenantId).ratePerSecond (limits tenantId).burst since spent
      (openBucket (s.keys.live tenantId a.redisTime) (limits tenantId).burst a.now) ∧
    (openBucket (s.keys.live tenantId a.redisTime) (limits tenantId).burst a.now).updatedAt ≤
      a.now := by
  have hcall := (hok ha).2 b hb
  have hkey : s.keys tenantId = some b := hb
  unfold RateLimitKeys.live openBucket
  rw [hkey]
  by_cases hlive : a.redisTime < b.expiresAt
  · rw [if_pos hlive] at hcall
    simp only [Option.filter_some, hlive, decide_true, if_true]
    exact ⟨h, hcall⟩
  · rw [if_neg hlive] at hcall
    simp only [Option.filter_some, hlive, decide_false, Bool.false_eq_true, if_false]
    exact ⟨h.refresh hh (limits tenantId).rate_pos hcall, le_rfl⟩

end

theorem servedTo_cons_self {w : List ServedCall} {d : RateLimitDecision}
    (ha : a.tenantId = tenantId) :
    servedTo tenantId (⟨a, d⟩ :: w) = ⟨a, d⟩ :: servedTo tenantId w := by
  simp [servedTo, ha]

theorem servedTo_cons_of_ne {w : List ServedCall} {d : RateLimitDecision}
    (ha : a.tenantId ≠ tenantId) : servedTo tenantId (⟨a, d⟩ :: w) = servedTo tenantId w := by
  simp [servedTo, ha]

/-- Calls of other tenants leave the bucket and the account alone. -/
theorem Covers.other {w : List ServedCall} (h : Covers limits tenantId w s)
    (ha : a.tenantId ≠ tenantId) {d : RateLimitDecision} {b : StoredBucket}
    (hkeys : t.keys = Function.update s.keys a.tenantId (some b)) :
    Covers limits tenantId (⟨a, d⟩ :: w) t := by
  have hsame : t.keys tenantId = s.keys tenantId := by
    rw [hkeys, Function.update_of_ne (Ne.symm ha)]
  constructor
  · rw [hsame]
    exact h.holds
  · unfold nows admitted
    rw [servedTo_cons_of_ne ha, hsame]
    exact h.within

/-- A call of the tenant itself: what it is admitted leaves the bucket. -/
theorem Covers.serve {w : List ServedCall} (h : Covers limits tenantId w s)
    (hok : CallOk tenantId limits s a t) (ha : a.tenantId = tenantId)
    (hstep : step limits s a = some t) {d : RateLimitDecision}
    (hserved : t.served = ⟨a, d⟩ :: s.served) :
    Covers limits tenantId (⟨a, d⟩ :: w) t := by
  obtain ⟨hcost, b, d', hkeys, hlog, hbucket, hspent⟩ := step_cases hstep
  obtain rfl : d' = d := by
    rw [hlog] at hserved
    exact congrArg ServedCall.decision (List.cons.inj hserved).1
  have hnew : t.keys tenantId = some b := by rw [hkeys, ha, Function.update_self]
  rw [ha] at hbucket hspent
  have hopen := open_holds hok ha h.holds
  have hrate := (limits tenantId).rate_pos
  have hfilled : Holds ((limits tenantId).burst : ℚ) (refilled (s.keys.live tenantId a.redisTime)
      (limits tenantId).ratePerSecond (limits tenantId).burst a.now) := hopen.refill hrate
  have hnow : b.updatedAt = a.now := by
    rw [show b.updatedAt = b.toBucket.updatedAt from rfl, hbucket, Bucket.updatedAt_spend]
    rfl
  constructor
  · rw [hnew]
    rintro _ ⟨⟩
    rw [hbucket]
    exact hfilled.spend hcost
  · right
    refine ⟨b, hnew, ?_, ?_⟩
    · rw [hnow]
      unfold nows
      rw [servedTo_cons_self ha]
      exact List.mem_cons_self
    · intro since hsince
      unfold nows admitted at *
      rw [servedTo_cons_self ha] at hsince ⊢
      rw [List.map_cons, List.sum_cons, hspent, add_comm, hbucket]
      apply Within.spend
      have hfirst : since ≤ a.now := hsince a.now List.mem_cons_self
      rcases h.within with hnone | ⟨b₀, hb₀, -, hcovered⟩
      · rw [hnone]
        exact hfilled.within.earlier hrate hfirst
      · have hold := hcovered since fun x hx => hsince x (List.mem_cons_of_mem _ hx)
        obtain ⟨hw, hle⟩ := open_within hok ha hb₀ (h.holds b₀ hb₀) hold
        exact hw.refill hle

/-- The calls since `before` are covered. -/
def CoversSince (limits : UUID → RateLimit) (tenantId : UUID) (before : List ServedCall)
    (s : RateLimiter) : Prop :=
  ∃ w, s.served = w ++ before ∧ Covers limits tenantId w s

theorem CoversSince.step {before : List ServedCall} (h : CoversSince limits tenantId before s)
    (hok : CallOk tenantId limits s a t) (hstep : step limits s a = some t) :
    CoversSince limits tenantId before t := by
  obtain ⟨w, hw, h⟩ := h
  obtain ⟨-, b, d, hkeys, hserved, -⟩ := step_cases hstep
  refine ⟨⟨a, d⟩ :: w, by rw [hserved, hw, List.cons_append], ?_⟩
  by_cases ha : a.tenantId = tenantId
  · exact h.serve hok ha hstep hserved
  · exact h.other ha hkeys

theorem CoversSince.run {before : List ServedCall} {as : List AllowCall}
    (h : CoversSince limits tenantId before s)
    (hok : Transition.Always (RateLimiter.step limits) (CallOk tenantId limits) s as)
    (ht : RateLimiter.run limits s as = some t) : CoversSince limits tenantId before t :=
  hok.invariant (fun _ _ _ h hok hstep => h.step hok hstep) h ht

theorem CoversSince.start {before : List ServedCall} (h : CoversSince limits tenantId before s) :
    CoversSince limits tenantId s.served s := by
  obtain ⟨w, -, h⟩ := h
  exact ⟨[], rfl, h.holds, .inl rfl⟩

theorem Init.coversSince (h : Init s) : CoversSince limits tenantId s.served s := by
  refine ⟨[], rfl, ?_, .inl rfl⟩
  rw [h.1]
  rintro _ ⟨⟩

/-- What a bucket that covers its calls has admitted. -/
theorem Covers.admitted_le {w : List ServedCall} (h : Covers limits tenantId w s) {lo hi : ℚ}
    (hlo : IsLeast {x | x ∈ nows tenantId w} lo) (hhi : IsGreatest {x | x ∈ nows tenantId w} hi) :
    admitted tenantId w ≤
      (limits tenantId).burst + (limits tenantId).ratePerSecond * (hi - lo) := by
  rcases h.within with hnone | ⟨b, hb, hmem, hcovered⟩
  · have hlo := hlo.1
    simp [nows, hnone] at hlo
  · exact (hcovered lo fun x hx => hlo.2 hx).admitted_le (h.holds b hb)
      (limits tenantId).rate_pos (hhi.2 hmem)

/-- Over any stretch `w` of a run whose calls never set the bucket's time back, a tenant is
admitted at most the burst and the refill of the time between its first and last clock
reading. -/
theorem admitted_within_budget {init : RateLimiter} {as bs : List AllowCall}
    {w : List ServedCall} {lo hi : ℚ} (hinit : Init init)
    (hs : run limits init as = some s) (ht : run limits s bs = some t)
    (hok : Transition.Always (step limits) (CallOk tenantId limits) init (as ++ bs))
    (hw : t.served = w ++ s.served) (hlo : IsLeast {x | x ∈ nows tenantId w} lo)
    (hhi : IsGreatest {x | x ∈ nows tenantId w} hi) :
    admitted tenantId w ≤
      (limits tenantId).burst + (limits tenantId).ratePerSecond * (hi - lo) := by
  obtain ⟨has, hbs⟩ := hok.append hs
  obtain ⟨w', hw', h⟩ := ((hinit.coversSince.run has hs).start).run hbs ht
  obtain rfl : w' = w := List.append_cancel_right (hw'.symm.trans hw)
  exact h.admitted_le hlo hhi

section
variable (tenantId : UUID) (lo hi : ℚ)

/-- The calls of two replicas, the second a second behind. -/
def skewed : List AllowCall :=
  [{ tenantId, now := hi, redisTime := 0 }, { tenantId, now := lo, redisTime := 0 },
    { tenantId, now := hi, redisTime := 0 }, { tenantId, now := lo, redisTime := 0 },
    { tenantId, now := hi, redisTime := 0 }]

end

/-- One request a second, one at a time. -/
def single : RateLimit := ⟨1, 1, by decide +kernel⟩

def idle : RateLimiter := ⟨0, fun _ => none, []⟩

theorem admitted_within_budget_sample : ∃ t,
    run (fun _ => single) idle [{ tenantId := 7, now := 3, redisTime := 0 },
      { tenantId := 7, now := 3, redisTime := 0 }, { tenantId := 7, now := 5, redisTime := 2 }] =
      some t ∧ admitted 7 t.served = 2 ∧ admitted 7 t.served ≤ 1 + 1 * (5 - 3) := by
  have hrun : (run (fun _ => single) idle [{ tenantId := 7, now := 3, redisTime := 0 },
      { tenantId := 7, now := 3, redisTime := 0 },
      { tenantId := 7, now := 5, redisTime := 2 }]).map
        (fun t => (admitted 7 t.served, nows 7 t.served)) = some (2, [5, 3, 3]) := by
    decide +kernel
  obtain ⟨t, ht, heq⟩ := Option.map_eq_some_iff.mp hrun
  obtain ⟨hadmitted, hnows⟩ := Prod.mk.inj heq
  have hlo : IsLeast {x | x ∈ nows 7 t.served} 3 := by
    rw [hnows]
    norm_num [IsLeast, lowerBounds]
  have hhi : IsGreatest {x | x ∈ nows 7 t.served} 5 := by
    rw [hnows]
    norm_num [IsGreatest, upperBounds]
  refine ⟨t, ht, hadmitted, ?_⟩
  have h := @admitted_within_budget 7 (fun _ => single) idle t idle [] _ t.served 3 5 ⟨rfl, rfl⟩
    rfl ht (by decide +kernel) (List.append_nil _).symm hlo hhi
  simpa [single] using h

/-- The clock that is behind sets the bucket's time back, and the second in between is credited
again and again. -/
theorem skewed_clocks_exceed_budget : ∃ t,
    run (fun _ => single) idle (skewed 7 0 1) = some t ∧
      IsLeast {x | x ∈ nows 7 t.served} 0 ∧ IsGreatest {x | x ∈ nows 7 t.served} 1 ∧
      single.burst + single.ratePerSecond * (1 - 0) < admitted 7 t.served := by
  have hrun : (run (fun _ => single) idle (skewed 7 0 1)).map
      (fun t => (admitted 7 t.served, nows 7 t.served)) = some (3, [1, 0, 1, 0, 1]) := by
    decide +kernel
  obtain ⟨t, ht, heq⟩ := Option.map_eq_some_iff.mp hrun
  obtain ⟨hadmitted, hnows⟩ := Prod.mk.inj heq
  refine ⟨t, ht, ?_, ?_, ?_⟩
  · rw [hnows]
    norm_num [IsLeast, lowerBounds]
  · rw [hnows]
    norm_num [IsGreatest, upperBounds]
  · rw [hadmitted]
    norm_num [single]

end RateLimiter
end RelayWebhooks
