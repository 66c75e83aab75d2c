import RelayWebhooks.Repositories.Db

/-! The rows of one tenant. Endpoints and events name their tenant; a delivery belongs to the
tenant of its event, an attempt to the tenant of its delivery. -/
namespace RelayWebhooks

structure TenantRows where
  endpoints : List Endpoint
  events : List Event
  deliveries : List Delivery
  deliveryAttempts : List DeliveryAttempt

namespace TenantRows

def endpoint (v : TenantRows) (id : UUID) : Option Endpoint := v.endpoints.find? fun e => e.id = id

def event (v : TenantRows) (id : UUID) : Option Event := v.events.find? fun e => e.id = id

def delivery (v : TenantRows) (id : UUID) : Option Delivery :=
  v.deliveries.find? fun d => d.id = id

end TenantRows

namespace Db

def ownsEvent (db : Db) (tenantId eventId : UUID) : Bool :=
  (db.events.get eventId).any fun e => e.tenantId = tenantId

def ownsDelivery (db : Db) (tenantId deliveryId : UUID) : Bool :=
  (db.deliveries.get deliveryId).any fun d => db.ownsEvent tenantId d.eventId

/-- The tenant's rows, in table order. -/
def tenantRows (db : Db) (tenantId : UUID) : TenantRows where
  endpoints := db.endpoints.select fun e => e.tenantId = tenantId
  events := db.events.select fun e => e.tenantId = tenantId
  deliveries := db.deliveries.select fun d => db.ownsEvent tenantId d.eventId
  deliveryAttempts := db.deliveryAttempts.select fun a => db.ownsDelivery tenantId a.deliveryId

/-- The databases differ only in rows of other tenants. -/
def AgreeOn (tenantId : UUID) (db db' : Db) : Prop :=
  db.tenantRows tenantId = db'.tenantRows tenantId

variable (db : Db) (tenantId : UUID)

theorem tenantRows_endpoint (id : UUID) :
    (db.tenantRows tenantId).endpoint id =
      (db.endpoints.get id).filter fun e => e.tenantId = tenantId :=
  Table.find?_select ..

theorem tenantRows_event (id : UUID) :
    (db.tenantRows tenantId).event id =
      (db.events.get id).filter fun e => e.tenantId = tenantId :=
  Table.find?_select ..

theorem tenantRows_delivery (id : UUID) :
    (db.tenantRows tenantId).delivery id =
      (db.deliveries.get id).filter fun d => db.ownsEvent tenantId d.eventId :=
  Table.find?_select ..

variable {db tenantId}

theorem tenantRows_event_eq_some {id : UUID} {e : Event} :
    (db.tenantRows tenantId).event id = some e ↔
      db.events.get id = some e ∧ e.tenantId = tenantId := by
  rw [tenantRows_event, Option.filter_eq_some_iff, decide_eq_true_iff]

theorem tenantRows_delivery_eq_some {id : UUID} {d : Delivery} :
    (db.tenantRows tenantId).delivery id = some d ↔
      db.deliveries.get id = some d ∧ db.ownsEvent tenantId d.eventId = true := by
  rw [tenantRows_delivery, Option.filter_eq_some_iff]

/-- A tenant owns the events its rows name. -/
theorem ownsEvent_eq (eventId : UUID) :
    db.ownsEvent tenantId eventId = ((db.tenantRows tenantId).event eventId).isSome := by
  rw [tenantRows_event, ownsEvent]
  cases db.events.get eventId with
  | none => rfl
  | some e => by_cases h : e.tenantId = tenantId <;> simp [Option.filter, h]

theorem ownsEvent_iff {eventId : UUID} :
    db.ownsEvent tenantId eventId = true ↔
      ∃ e, db.events.get eventId = some e ∧ e.tenantId = tenantId := by
  rw [ownsEvent_eq, Option.isSome_iff_exists]
  exact exists_congr fun e => tenantRows_event_eq_some

def othersSecret : Secret := ⟨PyText.ofString "key", by decide⟩

/-- The only rows are a delivery of tenant 9, its event and its endpoint. -/
def othersDb (state : DeliveryState) : Db :=
  .single
    { id := 1, tenantId := 9, type := [0x74], payload := .obj [], idempotencyKey := [0x6b],
      createdAt := 0 }
    { id := 2, tenantId := 9, url := PyText.ofString "https://example.com/hook",
      secret := othersSecret, subscribedEventTypes := [[0x74]], createdAt := 0 }
    { id := 3, eventId := 1, endpointId := 2, state, attemptCount := 0, createdAt := 0 }

end Db

end RelayWebhooks
