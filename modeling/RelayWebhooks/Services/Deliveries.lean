import RelayWebhooks.Py.Number
import RelayWebhooks.Repositories.Queries

/-! The read-only services over deliveries: the dead letter listing and the metrics snapshot. -/
namespace RelayWebhooks

structure DeadDeliveryDetail where
  delivery : Delivery
  attempts : List DeliveryAttempt
  deriving DecidableEq

/-- `DlqService.list_dead`. -/
def DlqService.listDead (db : Db) (readers : CursorReaders) (tenantId : UUID)
    (cursor : Option PyText) (limit : ℤ) : Except Raised (Page DeadDeliveryDetail) := do
  let page ← db.listDead readers tenantId cursor limit
  return page.mapItems fun d => ⟨d, db.listForDelivery d.id⟩

structure DeliveryMetrics where
  queueDepth : ℕ
  inFlight : ℕ
  p95LatencyMs : Option ℤ
  successRate : Option ℚ
  sampleSize : ℕ
  deriving DecidableEq

/-- `_percentile`; `scaled n` is `int(n * fraction)`. -/
def percentile (scaled : ℕ → ℕ) (sortedValues : List ℤ) : Option ℤ :=
  sortedValues[min (sortedValues.length - 1) (scaled sortedValues.length)]?

/-- `int(n * fraction)` of a float. -/
def scaledBy (fraction : ℚ) (n : ℕ) : ℕ := ⌊intTimesFloat n fraction⌋.toNat

/-- The float that the literal `0.95` stands for. -/
def p95 : ℚ := roundDouble (95 / 100)

namespace MetricsService

def isSuccess (a : DeliveryAttempt) : Bool :=
  a.responseStatus.any fun s => 200 ≤ s && s < 300

/-- What `snapshot` computes from the two counts and the sample. -/
def summarize (queueDepth inFlight : ℕ) (recent : List DeliveryAttempt) : DeliveryMetrics where
  queueDepth := queueDepth
  inFlight := inFlight
  p95LatencyMs := percentile (scaledBy p95) ((recent.map (·.latencyMs)).mergeSort (· ≤ ·))
  successRate :=
    if recent = [] then none
    else some (roundDouble (recent.countP isSuccess / recent.length))
  sampleSize := recent.length

def snapshot (db : Db) (tenantId : UUID) (sampleSize : ℤ) : Except Raised DeliveryMetrics := do
  let queueDepth := db.countByStates tenantId [.pending, .retrying]
  let inFlight := db.countByStates tenantId [.retrying]
  let recent ← db.recentForTenant tenantId sampleSize
  return summarize queueDepth inFlight recent

end MetricsService

end RelayWebhooks
