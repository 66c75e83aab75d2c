import RelayWebhooks.Repositories.Pagination
import RelayWebhooks.Repositories.TenantRows

/-! The reads a tenant's requests make, and what they are in terms of the tenant's rows. Rows that
tie in an `ORDER BY` come in table order. -/
namespace RelayWebhooks

namespace Db

/-- `EndpointRepository.list`. -/
def listEndpoints (db : Db) (readers : CursorReaders) (tenantId : UUID) (cursor : Option PyText)
    (limit : ℤ) : Except Raised (Page Endpoint) :=
  keysetPage Endpoint.createdAt Endpoint.id readers
    (db.endpoints.select fun e => e.tenantId = tenantId) cursor limit

/-- `DeliveryRepository.list_dead`. -/
def listDead (db : Db) (readers : CursorReaders) (tenantId : UUID) (cursor : Option PyText)
    (limit : ℤ) : Except Raised (Page Delivery) :=
  keysetPage Delivery.createdAt Delivery.id readers (db.deadDeliveries tenantId) cursor limit

/-- `count_by_states_for_tenant`: the count over the join with the events. -/
def countByStates (db : Db) (tenantId : UUID) (states : List DeliveryState) : ℕ :=
  db.deliveries.rows.countP fun d => d.state ∈ states && db.ownsEvent tenantId d.eventId

def orderAttempts (attempts : List DeliveryAttempt) : List DeliveryAttempt :=
  attempts.mergeSort fun a b =>
    toLex (a.createdAt, a.attemptNo) ≤ toLex (b.createdAt, b.attemptNo)

/-- The attempts of one delivery, oldest first. -/
def listForDelivery (db : Db) (deliveryId : UUID) : List DeliveryAttempt :=
  orderAttempts (db.deliveryAttempts.select fun a => a.deliveryId = deliveryId)

/-- The newest attempts come first. -/
def newestAttempts (attempts : List DeliveryAttempt) (limit : ℤ) :
    Except Raised (List DeliveryAttempt) :=
  limitRows (attempts.mergeSort fun a b => b.createdAt ≤ a.createdAt) limit

/-- `recent_for_tenant`: the join reaches the tenant through deliveries and events. -/
def recentForTenant (db : Db) (tenantId : UUID) (limit : ℤ) :
    Except Raised (List DeliveryAttempt) :=
  newestAttempts
    (db.deliveryAttempts.select fun a => db.ownsDelivery tenantId a.deliveryId) limit

end Db

namespace TenantRows

def deadDeliveries (v : TenantRows) : List Delivery := v.deliveries.filter fun d => d.state = .dead

def countByStates (v : TenantRows) (states : List DeliveryState) : ℕ :=
  v.deliveries.countP fun d => d.state ∈ states

def listForDelivery (v : TenantRows) (deliveryId : UUID) : List DeliveryAttempt :=
  Db.orderAttempts (v.deliveryAttempts.filter fun a => a.deliveryId = deliveryId)

end TenantRows

namespace Db

variable (db : Db) (tenantId : UUID)

theorem deadDeliveries_eq :
    db.deadDeliveries tenantId = (db.tenantRows tenantId).deadDeliveries := by
  simp only [deadDeliveries, TenantRows.deadDeliveries, tenantRows, Table.select, ownsEvent,
    List.filter_filter]

theorem countByStates_eq (states : List DeliveryState) :
    db.countByStates tenantId states = (db.tenantRows tenantId).countByStates states := by
  simp only [countByStates, TenantRows.countByStates, tenantRows, Table.select, List.countP_filter]

variable {db tenantId}

theorem mem_tenantRows_deliveries {d : Delivery} :
    d ∈ (db.tenantRows tenantId).deliveries ↔
      d ∈ db.deliveries.rows ∧ db.ownsEvent tenantId d.eventId = true := List.mem_filter

/-- All attempts at a delivery of the tenant are the tenant's. -/
theorem listForDelivery_eq {d : Delivery} (h : d ∈ (db.tenantRows tenantId).deliveries) :
    db.listForDelivery d.id = (db.tenantRows tenantId).listForDelivery d.id := by
  obtain ⟨hd, howns⟩ := mem_tenantRows_deliveries.mp h
  have hget : db.deliveries.get d.id = some d := Table.get_of_mem hd
  have hall : ∀ a : DeliveryAttempt, a.deliveryId = d.id →
      db.ownsDelivery tenantId a.deliveryId = true := by
    intro a ha
    rw [ha, ownsDelivery, hget]
    exact howns
  unfold listForDelivery TenantRows.listForDelivery
  congr 1
  simp only [tenantRows, Table.select, List.filter_filter]
  refine List.filter_congr fun a _ => ?_
  by_cases ha : a.deliveryId = d.id
  · simp [ha, ← hall a ha]
  · simp [ha]

end Db

end RelayWebhooks
