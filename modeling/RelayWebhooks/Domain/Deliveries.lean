import RelayWebhooks.Lib.Table
import RelayWebhooks.Py.Text
import Mathlib.Algebra.Order.Floor.Ring
import Mathlib.Data.Rat.Floor

/-! Delivery entities and the retry delay. Every time and every duration of the development
is an integer number of microseconds. -/
namespace RelayWebhooks

/-- `timedelta(seconds=…)`: whole microseconds, halves to the even neighbour. -/
def timedeltaSeconds (s : ℚ) : ℤ :=
  let us := s * 1000000
  let below := ⌊us⌋
  if us - below < 1 / 2 then below
  else if 1 / 2 < us - below then below + 1
  else if below % 2 = 0 then below else below + 1

inductive DeliveryState where
  | pending
  | delivered
  | retrying
  | dead
  deriving DecidableEq, Repr

namespace DeliveryState

def value : DeliveryState → String
  | pending => "pending"
  | delivered => "delivered"
  | retrying => "retrying"
  | dead => "dead"

/-- A chain that is over: nothing is left to send. -/
def Terminal (s : DeliveryState) : Prop := s = delivered ∨ s = dead

instance (s : DeliveryState) : Decidable s.Terminal := inferInstanceAs (Decidable (_ ∨ _))

end DeliveryState

structure Delivery where
  id : UUID
  eventId : UUID
  endpointId : UUID
  state : DeliveryState
  attemptCount : ℕ
  createdAt : ℤ
  nextRetryAt : Option ℤ := none
  deriving DecidableEq, Repr

instance : Keyed Delivery UUID := ⟨Delivery.id⟩

@[simp] theorem Delivery.key_eq (d : Delivery) : Keyed.key d = d.id := rfl

inductive BackoffError where
  | negativeAttempt (attempt : ℤ)
  | overflow
  deriving DecidableEq

def BackoffError.message : BackoffError → PyText
  | negativeAttempt attempt =>
    PyText.ofString "attempt must be >= 0, got " ++ intText attempt
  | overflow => PyText.ofString "int too large to convert to float"

/-- A double holds no integer from `2 ^ 1024` on. -/
def doubleExponentLimit : ℕ := 1024

def defaultBaseSeconds : ℚ := 1
def defaultCapSeconds : ℚ := 60

/-- Full-jitter exponential backoff. `draw` is the random fraction in `[0, 1)` that
`uniform(0, bound)` scales. The power of two is converted to a double before the product,
and the conversion overflows for large attempts. -/
def computeBackoffSeconds (attempt : ℤ) (draw : ℚ) (baseSeconds : ℚ := defaultBaseSeconds)
    (capSeconds : ℚ := defaultCapSeconds) : Except BackoffError ℚ :=
  if attempt < 0 then .error (.negativeAttempt attempt)
  else if doubleExponentLimit ≤ attempt.toNat then .error .overflow
  else
    let bound := min capSeconds (baseSeconds * 2 ^ attempt.toNat)
    .ok (0 + (bound - 0) * draw)

theorem computeBackoffSeconds_isOk (attempt : ℕ) (draw : ℚ) :
    (∃ s, computeBackoffSeconds attempt draw = .ok s) ↔ attempt < doubleExponentLimit := by
  have h : ¬(attempt : ℤ) < 0 := by omega
  unfold computeBackoffSeconds
  rw [if_neg h, Int.toNat_natCast]
  split
  next hl => simpa using hl
  next hl => simpa using hl

end RelayWebhooks
