import RelayWebhooks.Domain.Endpoints
import RelayWebhooks.Domain.Errors
import RelayWebhooks.Domain.Events

/-! The tables of the store and the repositories' reads and writes. A write of a unit of work
returns the database as its transaction sees it. -/
namespace RelayWebhooks

structure Db where
  events : Table Event
  outbox : Table OutboxEntry
  endpoints : Table Endpoint
  deliveries : Table Delivery
  deliveryAttempts : Table DeliveryAttempt

/-- The column values each writer of `DeliveryRepository` sets. -/
inductive DeliveryWrite where
  | markDelivered
  | markRetrying (nextRetryAt : ℤ)
  | markDead
  | reschedule (nextRetryAt : ℤ)
  | resetForReplay
  deriving DecidableEq, Repr

def DeliveryWrite.apply : DeliveryWrite → Delivery → Delivery
  | markDelivered, d =>
    { d with state := .delivered, attemptCount := d.attemptCount + 1, nextRetryAt := none }
  | markRetrying t, d =>
    { d with state := .retrying, attemptCount := d.attemptCount + 1, nextRetryAt := some t }
  | markDead, d =>
    { d with state := .dead, attemptCount := d.attemptCount + 1, nextRetryAt := none }
  | reschedule t, d => { d with state := .retrying, nextRetryAt := some t }
  | resetForReplay, d => { d with state := .pending, attemptCount := 0, nextRetryAt := none }

@[simp] theorem DeliveryWrite.apply_id (w : DeliveryWrite) (d : Delivery) :
    (w.apply d).id = d.id := by cases w <;> rfl

@[simp] theorem DeliveryWrite.apply_eventId (w : DeliveryWrite) (d : Delivery) :
    (w.apply d).eventId = d.eventId := by cases w <;> rfl

@[simp] theorem DeliveryWrite.apply_endpointId (w : DeliveryWrite) (d : Delivery) :
    (w.apply d).endpointId = d.endpointId := by cases w <;> rfl

/-- The state a write leaves does not depend on the row it finds. -/
def DeliveryWrite.state : DeliveryWrite → DeliveryState
  | markDelivered => .delivered
  | markRetrying _ => .retrying
  | markDead => .dead
  | reschedule _ => .retrying
  | resetForReplay => .pending

@[simp] theorem DeliveryWrite.apply_state (w : DeliveryWrite) (d : Delivery) :
    (w.apply d).state = w.state := by cases w <;> rfl

namespace Db

def empty : Db := ⟨.empty, .empty, .empty, .empty, .empty⟩

/-- One event and its delivery to one endpoint, with no attempt made yet. -/
def single (ev : Event) (e : Endpoint) (d : Delivery) : Db :=
  { empty with events := .singleton ev, endpoints := .singleton e, deliveries := .singleton d }

/-- Reads the row, sets the columns, flushes and reads the row back. -/
def writeDelivery (w : DeliveryWrite) (db : Db) (id : UUID) : Except Raised (Db × Delivery) :=
  match db.deliveries.get id with
  | none => .error (.deliveryNotFound id)
  | some d => .ok ({ db with deliveries := db.deliveries.update (w.apply d) }, w.apply d)

def markDelivered : Db → UUID → Except Raised (Db × Delivery) := writeDelivery .markDelivered

def markRetrying (db : Db) (id : UUID) (nextRetryAt : ℤ) : Except Raised (Db × Delivery) :=
  writeDelivery (.markRetrying nextRetryAt) db id

def markDead : Db → UUID → Except Raised (Db × Delivery) := writeDelivery .markDead

def reschedule (db : Db) (id : UUID) (nextRetryAt : ℤ) : Except Raised (Db × Delivery) :=
  writeDelivery (.reschedule nextRetryAt) db id

def resetForReplay : Db → UUID → Except Raised (Db × Delivery) := writeDelivery .resetForReplay

theorem writeDelivery_of_get {db : Db} {id : UUID} {d : Delivery} (w : DeliveryWrite)
    (h : db.deliveries.get id = some d) :
    db.writeDelivery w id =
      .ok ({ db with deliveries := db.deliveries.update (w.apply d) }, w.apply d) := by
  simp [writeDelivery, h]

/-- `DeliveryRepository.create`: a new row has the column defaults and needs both its
parents. -/
def createDelivery (db : Db) (id eventId endpointId : UUID) (createdAt : ℤ) :
    Except Raised (Db × Delivery) :=
  let d : Delivery := { id, eventId, endpointId, state := .pending, attemptCount := 0, createdAt }
  match db.events.get eventId, db.endpoints.get endpointId, db.deliveries.insert d with
  | some _, some _, some deliveries => .ok ({ db with deliveries }, d)
  | _, _, _ => .error .database

theorem createDelivery_ok {db db' : Db} {id eventId endpointId : UUID} {createdAt : ℤ}
    {d : Delivery} (h : db.createDelivery id eventId endpointId createdAt = .ok (db', d)) :
    d = { id, eventId, endpointId, state := .pending, attemptCount := 0, createdAt } ∧
      (db.events.get eventId).isSome ∧ (db.endpoints.get endpointId).isSome ∧
      db.deliveries.get id = none := by
  unfold createDelivery at h
  dsimp only at h
  split at h
  next ev e deliveries hev he hins =>
    have hnone : db.deliveries.get id = none := (Table.insert_eq_some.mp hins).1
    cases h
    exact ⟨rfl, by rw [hev]; rfl, by rw [he]; rfl, hnone⟩
  next => cases h

theorem createDelivery_insert {db db' : Db} {id eventId endpointId : UUID} {createdAt : ℤ}
    {d : Delivery} (h : db.createDelivery id eventId endpointId createdAt = .ok (db', d)) :
    ∃ deliveries, db.deliveries.insert d = some deliveries ∧ db' = { db with deliveries } := by
  unfold createDelivery at h
  dsimp only at h
  split at h
  next deliveries _ _ hins => cases h; exact ⟨deliveries, hins, rfl⟩
  next => cases h

/-- The rows of `list_dead`: the dead deliveries of the tenant's events. -/
def deadDeliveries (db : Db) (tenantId : UUID) : List Delivery :=
  db.deliveries.select fun d =>
    d.state = .dead && (db.events.get d.eventId).any fun e => e.tenantId = tenantId

def writeEndpoint (f : Endpoint → Endpoint) (db : Db) (id : UUID) :
    Except Raised (Db × Endpoint) :=
  match db.endpoints.get id with
  | none => .error (.endpointNotFound id)
  | some e => .ok ({ db with endpoints := db.endpoints.update (f e) }, f e)

def recordDeliveryOutcome (db : Db) (id : UUID) (b : BreakerTransition) :
    Except Raised (Db × Endpoint) :=
  writeEndpoint (·.withBreaker b) db id

/-- Leaves `consecutive_failures` as it is. -/
def setBreakerState (db : Db) (id : UUID) (breakerState : BreakerState) (openedAt : Option ℤ) :
    Except Raised (Db × Endpoint) :=
  writeEndpoint (fun e => { e with breakerState, openedAt }) db id

theorem writeEndpoint_of_get {db : Db} {id : UUID} {e : Endpoint} (f : Endpoint → Endpoint)
    (h : db.endpoints.get id = some e) :
    db.writeEndpoint f id = .ok ({ db with endpoints := db.endpoints.update (f e) }, f e) := by
  simp [writeEndpoint, h]

/-- The fan-out targets of an event: the tenant's active endpoints subscribed to its type. -/
def listActiveSubscribed (db : Db) (tenantId : UUID) (eventType : PyText) : List Endpoint :=
  db.endpoints.select fun e =>
    e.tenantId = tenantId && e.isActive && e.isSubscribedTo eventType

/-- Deleting an endpoint cascades to its deliveries and to their attempt rows. -/
def deleteEndpoint (db : Db) (id : UUID) : Db :=
  { db with
    endpoints := db.endpoints.deleteWhere fun e => e.id = id
    deliveries := db.deliveries.deleteWhere fun d => d.endpointId = id
    deliveryAttempts := db.deliveryAttempts.deleteWhere fun a =>
      (db.deliveries.get a.deliveryId).any fun d => d.endpointId = id }

/-- The arguments of `DeliveryAttemptRepository.create`. -/
structure NewAttempt where
  deliveryId : UUID
  attemptNo : ℕ
  latencyMs : ℤ
  responseStatus : Option ℤ
  errorClass : Option AttemptErrorClass
  requestSnippet : Option PyText
  responseSnippet : Option PyText
  requestHeaders : Option (List (PyText × PyText))

/-- A nullable `TEXT` value; `none` when the store refuses it. -/
def storeText : Option PyText → Option (Option PgText)
  | none => some none
  | some t => (PgText.of? t).map some

/-- The insert takes the generated key and the server's clock from the store. It needs its
delivery, and every `TEXT` value has to be storable. -/
def createDeliveryAttempt (db : Db) (id : UUID) (createdAt : ℤ) (a : NewAttempt) :
    Except Raised (Db × DeliveryAttempt) :=
  match db.deliveries.get a.deliveryId, storeText a.requestSnippet,
      storeText a.responseSnippet with
  | some _, some requestSnippet, some responseSnippet =>
    let row : DeliveryAttempt :=
      { id, deliveryId := a.deliveryId, attemptNo := a.attemptNo, latencyMs := a.latencyMs,
        createdAt, responseStatus := a.responseStatus, errorClass := a.errorClass,
        requestSnippet, responseSnippet, requestHeaders := a.requestHeaders }
    match db.deliveryAttempts.insert row with
    | some deliveryAttempts => .ok ({ db with deliveryAttempts }, row)
    | none => .error .database
  | _, _, _ => .error .database

theorem storeText_isSome {t : Option PyText} :
    (storeText t).isSome ↔ ∀ x, t = some x → storable x = true := by
  cases t with
  | none => simp [storeText]
  | some x => simp [storeText, PgText.of?_isSome]

theorem createDeliveryAttempt_ok {db db' : Db} {id : UUID} {createdAt : ℤ} {a : NewAttempt}
    {row : DeliveryAttempt} (h : db.createDeliveryAttempt id createdAt a = .ok (db', row)) :
    ∃ log, db.deliveryAttempts.insert row = some log ∧
      db' = { db with deliveryAttempts := log } ∧
      row.deliveryId = a.deliveryId ∧ row.attemptNo = a.attemptNo := by
  unfold createDeliveryAttempt at h
  split at h
  next requestSnippet responseSnippet _ _ _ =>
    dsimp only at h
    split at h
    next log hlog =>
      simp only [Except.ok.injEq, Prod.mk.injEq] at h
      obtain ⟨rfl, rfl⟩ := h
      exact ⟨log, hlog, rfl, rfl, rfl⟩
    next => cases h
  next => cases h

/-- The result columns of a new attempt row. -/
theorem createDeliveryAttempt_result {db db' : Db} {id : UUID} {createdAt : ℤ} {a : NewAttempt}
    {row : DeliveryAttempt} (h : db.createDeliveryAttempt id createdAt a = .ok (db', row)) :
    row.responseStatus = a.responseStatus ∧ row.errorClass = a.errorClass := by
  unfold createDeliveryAttempt at h
  split at h
  next =>
    dsimp only at h
    split at h
    next => cases h; exact ⟨rfl, rfl⟩
    next => cases h
  next => cases h

theorem createDeliveryAttempt_isOk {db : Db} {id : UUID} {createdAt : ℤ} {a : NewAttempt}
    {d : Delivery} (hd : db.deliveries.get a.deliveryId = some d)
    (hid : db.deliveryAttempts.get id = none) :
    (∃ r, db.createDeliveryAttempt id createdAt a = .ok r) ↔
      (storeText a.requestSnippet).isSome ∧ (storeText a.responseSnippet).isSome := by
  unfold createDeliveryAttempt
  rw [hd]
  cases storeText a.requestSnippet with
  | none => simp
  | some requestSnippet =>
    cases storeText a.responseSnippet with
    | none => simp
    | some responseSnippet =>
      dsimp only
      split
      next log hlog => simp
      next hlog =>
        obtain ⟨x, hx⟩ := Table.insert_eq_none.mp hlog
        simp [hid] at hx

def getByIdempotencyKey (db : Db) (tenantId : UUID) (idempotencyKey : PyText) : Option Event :=
  db.events.rows.find? fun e => e.tenantId = tenantId && e.idempotencyKey = idempotencyKey

/-- `OutboxRepository.create`; an event has at most one entry. -/
def createOutboxEntry (db : Db) (id eventId : UUID) (createdAt : ℤ) :
    Except Raised (Db × OutboxEntry) :=
  let o : OutboxEntry := { id, eventId, createdAt }
  if db.outbox.rows.any fun x => x.eventId = eventId then .error .database
  else
    match db.outbox.insert o with
    | some outbox => .ok ({ db with outbox }, o)
    | none => .error .database

theorem createOutboxEntry_ok {db db' : Db} {id eventId : UUID} {createdAt : ℤ}
    {o : OutboxEntry} (h : db.createOutboxEntry id eventId createdAt = .ok (db', o)) :
    ∃ outbox, db.outbox.insert o = some outbox ∧ db' = { db with outbox } ∧
      o.eventId = eventId := by
  unfold createOutboxEntry at h
  dsimp only at h
  split at h
  next => cases h
  next =>
    split at h
    next outbox ho => cases h; exact ⟨outbox, ho, rfl, rfl⟩
    next => cases h

def markProcessed (db : Db) (id : UUID) : Except Raised Db :=
  match db.outbox.get id with
  | none => .error (.outboxEntryNotFound id)
  | some o => .ok { db with outbox := db.outbox.update { o with status := .processed } }

end Db

end RelayWebhooks
