import Mathlib.Algebra.Order.Field.Basic
import Mathlib.Tactic.Linarith
import Mathlib.Tactic.Positivity

/-! Token buckets over an ordered field, with a credit bound their operations keep: what was
admitted and what is left never exceed the burst and the refill of the time gone by. -/
namespace TokenBucket

structure Bucket (𝕜 : Type*) where
  tokens : 𝕜
  updatedAt : 𝕜
  deriving DecidableEq, Repr

variable {𝕜 : Type*}

namespace Bucket

def full (burst now : 𝕜) : Bucket 𝕜 := ⟨burst, now⟩

@[simp] theorem updatedAt_full (burst now : 𝕜) : (full burst now).updatedAt = now := rfl

variable [Field 𝕜] [LinearOrder 𝕜]

/-- Credits the time since the last update, none if the clock went back. -/
def refill (rate burst : 𝕜) (b : Bucket 𝕜) (now : 𝕜) : Bucket 𝕜 :=
  ⟨min burst (b.tokens + max 0 (now - b.updatedAt) * rate), now⟩

/-- Takes the cost if the tokens cover it. -/
def spend (b : Bucket 𝕜) (cost : 𝕜) : Bucket 𝕜 :=
  if cost ≤ b.tokens then { b with tokens := b.tokens - cost } else b

def spent (b : Bucket 𝕜) (cost : 𝕜) : 𝕜 := if cost ≤ b.tokens then cost else 0

/-- How long the refill takes to cover the cost. -/
def shortfall (rate : 𝕜) (b : Bucket 𝕜) (cost : 𝕜) : 𝕜 :=
  if cost ≤ b.tokens then 0 else (cost - b.tokens) / rate

@[simp] theorem updatedAt_refill (rate burst now : 𝕜) (b : Bucket 𝕜) :
    (b.refill rate burst now).updatedAt = now := rfl

@[simp] theorem updatedAt_spend (b : Bucket 𝕜) (cost : 𝕜) :
    (b.spend cost).updatedAt = b.updatedAt := by
  unfold spend
  split <;> rfl

theorem tokens_spend (b : Bucket 𝕜) (cost : 𝕜) :
    (b.spend cost).tokens = b.tokens - b.spent cost := by
  unfold spend spent
  split
  · rfl
  · exact (sub_zero _).symm

/-- The tokens are between none and a full bucket. -/
structure Holds (burst : 𝕜) (b : Bucket 𝕜) : Prop where
  nonneg : 0 ≤ b.tokens
  le_burst : b.tokens ≤ burst

/-- The credit bound for the calls since `since`, `admitted` their cost so far. -/
def Within (rate burst since admitted : 𝕜) (b : Bucket 𝕜) : Prop :=
  admitted + b.tokens ≤ burst + rate * (b.updatedAt - since)

variable {rate burst since now admitted cost : 𝕜} {b : Bucket 𝕜}

theorem holds_full (h : 0 ≤ burst) : Holds burst (full burst now) := ⟨h, le_rfl⟩

theorem refill_full : (full burst now).refill rate burst now = full burst now := by
  simp [refill, full]

theorem Holds.spend (h : Holds burst b) (hc : 0 ≤ cost) [IsStrictOrderedRing 𝕜] :
    Holds burst (b.spend cost) := by
  unfold Bucket.spend
  split
  next hle =>
    constructor
    · show 0 ≤ b.tokens - cost
      linarith
    · show b.tokens - cost ≤ burst
      linarith [h.le_burst]
  next => exact h

/-- A bucket that holds at most a burst opens an account at its own time. -/
theorem Holds.within (h : Holds burst b) : Within rate burst b.updatedAt 0 b := by
  show 0 + b.tokens ≤ burst + rate * (b.updatedAt - b.updatedAt)
  simpa using h.le_burst

section
variable [IsStrictOrderedRing 𝕜]

theorem Holds.refill (h : Holds burst b) (hrate : 0 < rate) :
    Holds burst (b.refill rate burst now) := by
  have hgain : 0 ≤ max 0 (now - b.updatedAt) * rate := by positivity
  constructor
  · exact le_min (h.nonneg.trans h.le_burst) (add_nonneg h.nonneg hgain)
  · exact min_le_left _ _

theorem shortfall_nonneg (hrate : 0 < rate) : 0 ≤ b.shortfall rate cost := by
  unfold shortfall
  split
  next => exact le_rfl
  next hle =>
    have : 0 ≤ cost - b.tokens := by linarith
    positivity

/-- Once a whole burst is due, the refill forgets what was left. -/
theorem Holds.refill_of_due (h : Holds burst b) (hrate : 0 < rate) (hburst : 0 ≤ burst)
    (hdue : b.updatedAt + burst / rate ≤ now) : b.refill rate burst now = full burst now := by
  have hpaid : burst ≤ (now - b.updatedAt) * rate := by
    rw [← div_le_iff₀ hrate]
    linarith
  have hlater : 0 ≤ now - b.updatedAt := by
    have : 0 ≤ burst / rate := by positivity
    linarith
  unfold Bucket.refill full
  rw [max_eq_right hlater, min_eq_left (by linarith [h.nonneg])]

theorem Within.earlier {since' : 𝕜} (h : Within rate burst since admitted b) (hrate : 0 < rate)
    (hs : since' ≤ since) : Within rate burst since' admitted b := by
  have hgain : rate * (b.updatedAt - since) ≤ rate * (b.updatedAt - since') :=
    mul_le_mul_of_nonneg_left (by linarith) hrate.le
  unfold Within at *
  linarith

/-- A refill credits the time the clock moved on, once. -/
theorem Within.refill (h : Within rate burst since admitted b) (hnow : b.updatedAt ≤ now) :
    Within rate burst since admitted (b.refill rate burst now) := by
  have hgain : max 0 (now - b.updatedAt) = now - b.updatedAt := max_eq_right (by linarith)
  have hle : (b.refill rate burst now).tokens ≤ b.tokens + (now - b.updatedAt) * rate := by
    unfold Bucket.refill
    rw [hgain]
    exact min_le_right _ _
  unfold Within at *
  rw [updatedAt_refill]
  linarith

theorem Within.spend (h : Within rate burst since admitted b) :
    Within rate burst since (admitted + b.spent cost) (b.spend cost) := by
  unfold Within at *
  rw [tokens_spend, updatedAt_spend]
  linarith

/-- A bucket may be replaced by a full one once the time gone by pays for a whole burst. -/
theorem Within.refresh (h : Within rate burst since admitted b) (hb : Holds burst b)
    (hrate : 0 < rate) (hnow : b.updatedAt + burst / rate ≤ now) :
    Within rate burst since admitted (full burst now) := by
  have hpaid : burst ≤ rate * (now - b.updatedAt) := by
    rw [mul_comm, ← div_le_iff₀ hrate]
    linarith
  unfold Within at *
  have := hb.nonneg
  show admitted + burst ≤ burst + rate * (now - since)
  linarith

theorem Within.admitted_le (h : Within rate burst since admitted b) (hb : Holds burst b)
    (hrate : 0 < rate) {upto : 𝕜} (hu : b.updatedAt ≤ upto) :
    admitted ≤ burst + rate * (upto - since) := by
  have hgain : rate * (b.updatedAt - since) ≤ rate * (upto - since) :=
    mul_le_mul_of_nonneg_left (by linarith) hrate.le
  have := hb.nonneg
  unfold Within at h
  linarith

/-- The tokens and the refill up to `due` cover the cost. -/
def CoversBy (rate due cost : 𝕜) (b : Bucket 𝕜) : Prop :=
  cost ≤ b.tokens + max 0 (due - b.updatedAt) * rate

section
variable {due : 𝕜}

theorem coversBy_of_shortfall (hrate : 0 < rate)
    (h : b.updatedAt + b.shortfall rate cost ≤ due) : CoversBy rate due cost b := by
  have hshort : 0 ≤ b.shortfall rate cost := shortfall_nonneg hrate
  have hgap : b.shortfall rate cost ≤ max 0 (due - b.updatedAt) :=
    le_max_of_le_right (by linarith)
  have hpaid : b.shortfall rate cost * rate ≤ max 0 (due - b.updatedAt) * rate :=
    mul_le_mul_of_nonneg_right hgap hrate.le
  have hcover : cost ≤ b.tokens + b.shortfall rate cost * rate := by
    unfold shortfall
    split
    next hle => linarith
    next => rw [div_mul_cancel₀ _ hrate.ne', add_sub_cancel]
  unfold CoversBy
  linarith

theorem coversBy_full (hrate : 0 < rate) (hcost : cost ≤ burst) :
    CoversBy rate due cost (full burst now) := by
  have hgain : 0 ≤ max 0 (due - now) * rate := by positivity
  show cost ≤ burst + max 0 (due - now) * rate
  linarith

theorem CoversBy.mono {b' : Bucket 𝕜} (h : CoversBy rate due cost b) (htokens : b.tokens ≤ b'.tokens)
    (hat : b'.updatedAt = b.updatedAt) : CoversBy rate due cost b' := by
  unfold CoversBy at *
  rw [hat]
  linarith

/-- What a refill credits is no longer due. -/
theorem CoversBy.refill (h : CoversBy rate due cost b) (hrate : 0 < rate) (hcost : cost ≤ burst)
    (hnow : b.updatedAt ≤ now) : CoversBy rate due cost (b.refill rate burst now) := by
  have hgain : 0 ≤ max 0 (due - now) * rate := by positivity
  have hsplit : max 0 (due - b.updatedAt) ≤ (now - b.updatedAt) + max 0 (due - now) := by
    apply max_le
    · linarith [le_max_left 0 (due - now)]
    · linarith [le_max_right 0 (due - now)]
  have hpaid := mul_le_mul_of_nonneg_right hsplit hrate.le
  have hcredit : max 0 (now - b.updatedAt) = now - b.updatedAt := max_eq_right (by linarith)
  unfold CoversBy Bucket.refill at *
  dsimp only
  rw [hcredit]
  rcases min_choice burst (b.tokens + (now - b.updatedAt) * rate) with hmin | hmin
  · rw [hmin]
    linarith
  · rw [hmin]
    linarith

theorem CoversBy.cost_le (h : CoversBy rate due cost b) (hdue : due ≤ b.updatedAt) :
    cost ≤ b.tokens := by
  unfold CoversBy at h
  rw [max_eq_left (by linarith)] at h
  linarith

end

end
end Bucket
end TokenBucket
