import RelayWebhooks.Infra.RateLimit

/-! The limiter whose buckets never expire, and the expiring one that answers as it does when
Redis and the callers read one clock. -/
namespace RelayWebhooks
open TokenBucket (Bucket)
open TokenBucket.Bucket (Within Holds)

/-- The answer to a call from its tenant's bucket, refilled. -/
def bucketDecision (rate : ℚ) (b : Bucket ℚ) (cost : ℚ) : RateLimitDecision :=
  { allowed := cost ≤ b.tokens
    retryAfterSeconds := b.shortfall rate cost
    remainingTokens := (b.spend cost).tokens }

/-- Token buckets that stay for ever, one a tenant and full at the tenant's first call. -/
structure IdealLimiter where
  time : ℚ
  buckets : UUID → Option (Bucket ℚ)
  served : List ServedCall

namespace IdealLimiter
variable (limits : UUID → RateLimit)

/-- The tenant's bucket at `now`. -/
def bucketAt (s : IdealLimiter) (tenantId : UUID) (now : ℚ) : Bucket ℚ :=
  ((s.buckets tenantId).getD (.full (limits tenantId).burst now)).refill
    (limits tenantId).ratePerSecond (limits tenantId).burst now

/-- What a call leaves. -/
def after (s : IdealLimiter) (a : AllowCall) : IdealLimiter :=
  let bucket := s.bucketAt limits a.tenantId a.now
  { time := a.now
    buckets := Function.update s.buckets a.tenantId (some (bucket.spend a.cost))
    served := ⟨a, bucketDecision (limits a.tenantId).ratePerSecond bucket a.cost⟩ :: s.served }

def step (s : IdealLimiter) (a : AllowCall) : Option IdealLimiter :=
  if s.time ≤ a.now ∧ 0 ≤ a.cost then some (s.after limits a) else none

abbrev run := Transition.run (step limits)

def init (time : ℚ) : IdealLimiter := ⟨time, fun _ => none, []⟩

end IdealLimiter

/-- The cost the tenant's calls from `lo` to `hi` were admitted. -/
def admittedIn (tenantId : UUID) (lo hi : ℚ) (w : List ServedCall) : ℚ :=
  admitted tenantId (w.filter fun c => lo ≤ c.call.now ∧ c.call.now ≤ hi)

/-- The reply and the key the script leaves, by the refilled bucket. -/
theorem tokenBucketScript_eq (bucket : Option StoredBucket) (rate : ℚ) (burst : ℤ)
    (now cost redisTime : ℚ) :
    tokenBucketScript bucket rate burst now cost redisTime =
      (⟨if cost ≤ (refilled bucket rate burst now).tokens then 1 else 0,
        (refilled bucket rate burst now).shortfall rate cost,
        ((refilled bucket rate burst now).spend cost).tokens⟩,
        ⟨(refilled bucket rate burst now).spend cost, redisTime + (⌈burst / rate⌉ + 1 : ℤ)⟩) := by
  unfold tokenBucketScript
  simp only [script_tokens, ge_iff_le]
  unfold Bucket.shortfall Bucket.spend
  split <;> rfl

theorem allow_eq (keys : RateLimitKeys) (tenantId : UUID) {rate : ℚ} (hrate : 0 < rate)
    (burst : ℤ) (cost now redisTime : ℚ) :
    allow keys tenantId rate burst cost now redisTime =
      (bucketDecision rate (refilled (keys.live tenantId redisTime) rate burst now) cost,
        Function.update keys tenantId (some
          ⟨(refilled (keys.live tenantId redisTime) rate burst now).spend cost,
            redisTime + (⌈burst / rate⌉ + 1 : ℤ)⟩)) := by
  unfold allow bucketDecision
  simp only [tokenBucketScript_eq]
  rw [max_eq_right (Bucket.shortfall_nonneg hrate)]
  congr 2
  split <;> simp_all

namespace IdealLimiter
variable {limits : UUID → RateLimit} {u v : IdealLimiter} {a : AllowCall} {tenantId : UUID}
  {now : ℚ}

theorem step_eq_some :
    step limits u a = some v ↔ (u.time ≤ a.now ∧ 0 ≤ a.cost) ∧ u.after limits a = v := by
  unfold step
  split <;> simp_all

/-- The buckets hold at most a burst and were last read in the past. -/
def Sound (limits : UUID → RateLimit) (u : IdealLimiter) : Prop :=
  ∀ tenantId, ∀ b ∈ u.buckets tenantId, Holds ((limits tenantId).burst : ℚ) b ∧
    b.updatedAt ≤ u.time

theorem Sound.bucketAt (h : u.Sound limits) (hburst : 1 ≤ (limits tenantId).burst) :
    Holds ((limits tenantId).burst : ℚ) (u.bucketAt limits tenantId now) := by
  have hpos : (0 : ℚ) ≤ (limits tenantId).burst := by exact_mod_cast (by omega)
  unfold IdealLimiter.bucketAt
  apply Holds.refill _ (limits tenantId).rate_pos
  cases hb : u.buckets tenantId with
  | none => exact Bucket.holds_full hpos
  | some b => exact (h tenantId b hb).1

theorem Sound.step (h : u.Sound limits) (hburst : ∀ tenantId, 1 ≤ (limits tenantId).burst)
    (hv : step limits u a = some v) : v.Sound limits := by
  obtain ⟨⟨htime, hcost⟩, rfl⟩ := step_eq_some.mp hv
  intro tenantId b hb
  by_cases htenant : tenantId = a.tenantId
  · subst htenant
    simp only [after, Function.update_self, Option.mem_def, Option.some.injEq] at hb
    obtain rfl := hb
    constructor
    · exact (h.bucketAt (hburst a.tenantId)).spend hcost
    · rw [Bucket.updatedAt_spend]
      exact le_rfl
  · simp only [after, Function.update_of_ne htenant] at hb
    obtain ⟨hholds, hpast⟩ := h tenantId b hb
    exact ⟨hholds, hpast.trans htime⟩

theorem admittedIn_cons (lo hi : ℚ) (c : ServedCall) (w : List ServedCall) :
    admittedIn tenantId lo hi (c :: w) =
      (if c.call.tenantId = tenantId ∧ lo ≤ c.call.now ∧ c.call.now ≤ hi then
        if c.decision.allowed then c.call.cost else 0 else 0) + admittedIn tenantId lo hi w := by
  unfold admittedIn admitted servedTo
  rw [List.filter_cons]
  by_cases hin : lo ≤ c.call.now ∧ c.call.now ≤ hi <;>
    by_cases htenant : c.call.tenantId = tenantId <;> simp [hin, htenant]

/-- The window's account: it is within its bound, and once it is open the bucket covers it. -/
structure AccountIn (limits : UUID → RateLimit) (tenantId : UUID) (lo hi : ℚ)
    (u : IdealLimiter) : Prop where
  bounded : admittedIn tenantId lo hi u.served ≤
    (limits tenantId).burst + (limits tenantId).ratePerSecond * (hi - lo)
  covered : admittedIn tenantId lo hi u.served = 0 ∨ ∃ b ∈ u.buckets tenantId, lo ≤ b.updatedAt ∧
    (b.updatedAt ≤ hi → Within (limits tenantId).ratePerSecond (limits tenantId).burst lo
      (admittedIn tenantId lo hi u.served) b)

variable {lo hi : ℚ}

/-- The refilled bucket covers a window that a call at `now` falls into. -/
theorem AccountIn.bucketAt (h : AccountIn limits tenantId lo hi u) (hs : u.Sound limits)
    (hburst : 1 ≤ (limits tenantId).burst) (htime : u.time ≤ now) (hlo : lo ≤ now)
    (hhi : now ≤ hi) : Within (limits tenantId).ratePerSecond (limits tenantId).burst lo
      (admittedIn tenantId lo hi u.served) (u.bucketAt limits tenantId now) := by
  rcases h.covered with hnone | ⟨b, hb, -, hcovered⟩
  · rw [hnone]
    exact (hs.bucketAt hburst).within.earlier (limits tenantId).rate_pos hlo
  · have hpast := (hs tenantId b hb).2.trans htime
    unfold IdealLimiter.bucketAt
    rw [show u.buckets tenantId = some b from hb]
    exact (hcovered (hpast.trans hhi)).refill hpast

theorem AccountIn.step (h : AccountIn limits tenantId lo hi u) (hs : u.Sound limits)
    (hburst : 1 ≤ (limits tenantId).burst) (hv : step limits u a = some v) :
    AccountIn limits tenantId lo hi v := by
  obtain ⟨⟨htime, hcost⟩, rfl⟩ := step_eq_some.mp hv
  have hserved : admittedIn tenantId lo hi (u.after limits a).served =
      (if a.tenantId = tenantId ∧ lo ≤ a.now ∧ a.now ≤ hi then
        (u.bucketAt limits a.tenantId a.now).spent a.cost else 0) +
        admittedIn tenantId lo hi u.served := by
    simp only [after, admittedIn_cons, bucketDecision, decide_eq_true_eq, Bucket.spent]
  by_cases htenant : a.tenantId = tenantId
  · subst htenant
    have hbucket : (u.after limits a).buckets a.tenantId =
        some ((u.bucketAt limits a.tenantId a.now).spend a.cost) := Function.update_self ..
    have hnow : ((u.bucketAt limits a.tenantId a.now).spend a.cost).updatedAt = a.now := by
      rw [Bucket.updatedAt_spend]
      rfl
    by_cases hin : lo ≤ a.now ∧ a.now ≤ hi
    · rw [if_pos ⟨rfl, hin⟩, add_comm] at hserved
      have hwithin : Within (limits a.tenantId).ratePerSecond (limits a.tenantId).burst lo
          (admittedIn a.tenantId lo hi (u.after limits a).served)
          ((u.bucketAt limits a.tenantId a.now).spend a.cost) := by
        rw [hserved]
        exact (h.bucketAt hs hburst htime hin.1 hin.2).spend
      constructor
      · exact hwithin.admitted_le ((hs.bucketAt hburst).spend hcost)
          (limits a.tenantId).rate_pos (by rw [hnow]; exact hin.2)
      · exact .inr ⟨_, hbucket, by rw [hnow]; exact hin.1, fun _ => hwithin⟩
    · rw [if_neg fun hc => hin hc.2, zero_add] at hserved
      constructor
      · rw [hserved]
        exact h.bounded
      · rw [hserved]
        rcases h.covered with hnone | ⟨b, hb, hlo, -⟩
        · exact .inl hnone
        · -- the window is open, so the call comes after its end
          have hlater := (hlo.trans (hs a.tenantId b hb).2).trans htime
          refine .inr ⟨_, hbucket, by rw [hnow]; exact hlater, fun hhi => ?_⟩
          rw [hnow] at hhi
          exact absurd ⟨hlater, hhi⟩ hin
  · rw [if_neg fun hc => htenant hc.1, zero_add] at hserved
    have hbucket : (u.after limits a).buckets tenantId = u.buckets tenantId :=
      Function.update_of_ne (Ne.symm htenant) ..
    constructor
    · rw [hserved]
      exact h.bounded
    · rw [hserved, hbucket]
      exact h.covered

theorem accountIn_init (hburst : 1 ≤ (limits tenantId).burst) (hlohi : lo ≤ hi) (time : ℚ) :
    AccountIn limits tenantId lo hi (init time) := by
  have hrate := (limits tenantId).rate_pos
  have hpos : (0 : ℚ) ≤ (limits tenantId).burst := by exact_mod_cast (by omega)
  have hgain : 0 ≤ (limits tenantId).ratePerSecond * (hi - lo) :=
    mul_nonneg hrate.le (by linarith)
  constructor
  · show (0 : ℚ) ≤ _
    linarith
  · exact .inl rfl

theorem AccountIn.run (h : AccountIn limits tenantId lo hi u) (hs : u.Sound limits)
    (hburst : ∀ tenantId, 1 ≤ (limits tenantId).burst) {as : List AllowCall}
    (hv : run limits u as = some v) : AccountIn limits tenantId lo hi v :=
  (Transition.run_invariant (I := fun u => u.Sound limits ∧ AccountIn limits tenantId lo hi u)
    (fun _ _ _ h hstep => ⟨h.1.step hburst hstep, h.2.step h.1 (hburst tenantId) hstep⟩)
    ⟨hs, h⟩ hv).2

end IdealLimiter

namespace RateLimiter
variable {limits : UUID → RateLimit} {s t : RateLimiter} {u : IdealLimiter} {a : AllowCall}
  {tenantId : UUID}

/-- The two limiters hold the same buckets, and a key outlives the refill of a burst. -/
structure Mirrors (limits : UUID → RateLimit) (s : RateLimiter) (u : IdealLimiter) : Prop where
  time : s.redisTime = u.time
  served : s.served = u.served
  buckets : ∀ tenantId, u.buckets tenantId = (s.keys tenantId).map (·.toBucket)
  expires : ∀ tenantId, ∀ b ∈ s.keys tenantId,
    b.updatedAt + (limits tenantId).burst / (limits tenantId).ratePerSecond ≤ b.expiresAt
  sound : u.Sound limits

/-- Read through its expiry, the key still refills to the ideal bucket. -/
theorem Mirrors.refilled_eq (h : Mirrors limits s u) (hburst : 1 ≤ (limits tenantId).burst)
    (now : ℚ) : refilled (s.keys.live tenantId now) (limits tenantId).ratePerSecond
      (limits tenantId).burst now = u.bucketAt limits tenantId now := by
  have hrate := (limits tenantId).rate_pos
  have hpos : (0 : ℚ) ≤ (limits tenantId).burst := by exact_mod_cast (by omega)
  have hbucket := h.buckets tenantId
  unfold refilled IdealLimiter.bucketAt RateLimitKeys.live openBucket
  rw [hbucket]
  cases hkey : s.keys tenantId with
  | none => rfl
  | some b =>
    rw [Option.filter_some]
    by_cases hlive : now < b.expiresAt
    · rw [if_pos (by simpa using hlive)]
      rfl
    · have hdue := h.expires tenantId b hkey
      have hholds := (h.sound tenantId b.toBucket (by rw [hbucket, hkey]; rfl)).1
      rw [if_neg (by simpa using hlive)]
      exact Bucket.refill_full.trans (hholds.refill_of_due hrate hpos (by linarith)).symm

theorem Mirrors.step (h : Mirrors limits s u) (hburst : ∀ tenantId, 1 ≤ (limits tenantId).burst)
    (hclock : a.redisTime = a.now) (ht : step limits s a = some t) :
    ∃ v, IdealLimiter.step limits u a = some v ∧ Mirrors limits t v := by
  have hrate := (limits a.tenantId).rate_pos
  have hrefill := h.refilled_eq (hburst a.tenantId) a.now
  unfold RateLimiter.step at ht
  split at ht
  next hen =>
    obtain rfl := Option.some.inj ht
    have hu : IdealLimiter.step limits u a = some (u.after limits a) :=
      if_pos ⟨by rw [← h.time, ← hclock]; exact hen.1, hen.2⟩
    refine ⟨_, hu, ?_⟩
    simp only [IdealLimiter.after, allow_eq _ _ hrate, hclock, hrefill]
    constructor
    · rfl
    · simp only [h.served]
    · intro tenantId
      by_cases htenant : tenantId = a.tenantId
      · simp only [htenant, Function.update_self, Option.map_some]
      · simp only [Function.update_of_ne htenant, h.buckets]
    · intro tenantId b hb
      by_cases htenant : tenantId = a.tenantId
      · subst htenant
        simp only [Function.update_self, Option.mem_def, Option.some.injEq] at hb
        have hceil := Int.le_ceil
          (((limits a.tenantId).burst : ℚ) / (limits a.tenantId).ratePerSecond)
        rw [← hb, Bucket.updatedAt_spend, IdealLimiter.bucketAt, Bucket.updatedAt_refill]
        push_cast
        linarith
      · simp only [Function.update_of_ne htenant] at hb
        exact h.expires tenantId b hb
    · exact h.sound.step hburst hu
  next => cases ht

theorem mirrors_init (hinit : Init s) : Mirrors limits s (.init s.redisTime) := by
  have hkeys := hinit.1
  constructor
  · rfl
  · exact hinit.2
  · intro tenantId
    rw [hkeys]
    rfl
  · intro tenantId b hb
    rw [hkeys] at hb
    cases hb
  · intro tenantId b hb
    cases hb

theorem run_ok {as : List AllowCall} (hclock : ∀ a ∈ as, a.redisTime = a.now)
    (hcost : ∀ a ∈ as, 0 ≤ a.cost) (hnow : (s.redisTime :: as.map (·.now)).IsChain (· ≤ ·)) :
    ∃ t, run limits s as = some t := by
  induction as generalizing s with
  | nil => exact ⟨s, rfl⟩
  | cons a as ih =>
    simp only [List.forall_mem_cons] at hclock hcost
    rw [List.map_cons, List.isChain_cons_cons] at hnow
    have hen : s.redisTime ≤ a.redisTime ∧ 0 ≤ a.cost := ⟨hclock.1 ▸ hnow.1, hcost.1⟩
    obtain ⟨t, ht⟩ := @ih ⟨a.redisTime, _, _⟩ hclock.2 hcost.2 (by rw [hclock.1]; exact hnow.2)
    exact ⟨t, Transition.run_cons_eq_some.mpr ⟨_, if_pos hen, ht⟩⟩

/-- Calls that read the clock Redis expires its keys by are answered as by buckets that never
expire; the tokens stay within the burst, and no window admits more than the burst and its own
refill. -/
theorem expiring_refines_ideal (hburst : ∀ tenantId, 1 ≤ (limits tenantId).burst)
    (hinit : Init s) {as : List AllowCall} (hclock : ∀ a ∈ as, a.redisTime = a.now)
    (hcost : ∀ a ∈ as, 0 ≤ a.cost)
    (hnow : (s.redisTime :: as.map (·.now)).IsChain (· ≤ ·)) :
    ∃ t u, run limits s as = some t ∧ IdealLimiter.run limits (.init s.redisTime) as = some u ∧
      t.served = u.served ∧
      (∀ tenantId, ∀ b ∈ t.keys tenantId, 0 ≤ b.tokens ∧ b.tokens ≤ (limits tenantId).burst) ∧
      ∀ tenantId lo hi, lo ≤ hi → admittedIn tenantId lo hi t.served ≤
        (limits tenantId).burst + (limits tenantId).ratePerSecond * (hi - lo) := by
  obtain ⟨t, ht⟩ := run_ok hclock hcost hnow
  obtain ⟨u, hu, hm⟩ := Transition.run_simulates
    (fun _ _ _ _ h ha hstep => h.step hburst ha hstep) (mirrors_init hinit) hclock ht
  refine ⟨t, u, ht, hu, hm.served, ?_, ?_⟩
  · intro tenantId b hb
    have hholds := (hm.sound tenantId b.toBucket (by rw [hm.buckets, hb]; rfl)).1
    exact ⟨hholds.nonneg, hholds.le_burst⟩
  · intro tenantId lo hi hlohi
    have hstart := IdealLimiter.accountIn_init (hburst tenantId) hlohi s.redisTime
    rw [hm.served]
    exact (hstart.run (mirrors_init hinit).sound hburst hu).bounded

/-- The last call finds its key expired. -/
theorem expiring_refines_ideal_sample : ∃ t u,
    run (fun _ => single) idle [{ tenantId := 7, now := 0, redisTime := 0 },
      { tenantId := 7, now := 1/2, redisTime := 1/2 },
      { tenantId := 7, now := 5, redisTime := 5 }] = some t ∧
    IdealLimiter.run (fun _ => single) (.init 0) [{ tenantId := 7, now := 0, redisTime := 0 },
      { tenantId := 7, now := 1/2, redisTime := 1/2 },
      { tenantId := 7, now := 5, redisTime := 5 }] = some u ∧
    t.served = u.served ∧ admittedIn 7 0 5 t.served ≤ 1 + 1 * (5 - 0) := by
  obtain ⟨t, u, ht, hu, hserved, -, hwindow⟩ := @expiring_refines_ideal (fun _ => single) idle
    (fun _ => by decide +kernel) ⟨rfl, rfl⟩ [{ tenantId := 7, now := 0, redisTime := 0 },
      { tenantId := 7, now := 1/2, redisTime := 1/2 },
      { tenantId := 7, now := 5, redisTime := 5 }]
    (by simp) (by simp) (by norm_num [idle])
  exact ⟨t, u, ht, hu, hserved, by simpa [single] using hwindow 7 0 5 (by norm_num)⟩

end RateLimiter
end RelayWebhooks
