import RelayWebhooks.Domain.Deliveries
import RelayWebhooks.Py.Codec
import RelayWebhooks.Py.Json

/-! Events, outbox entries and the append-only attempt log. -/
namespace RelayWebhooks

structure Event where
  id : UUID
  tenantId : UUID
  type : PyText
  payload : Json
  idempotencyKey : PyText
  createdAt : ℤ
  correlationId : Option PyText := none

instance : Keyed Event UUID := ⟨Event.id⟩

@[simp] theorem Event.key_eq (e : Event) : Keyed.key e = e.id := rfl

inductive OutboxStatus where
  | pending
  | processed
  deriving DecidableEq, Repr

structure OutboxEntry where
  id : UUID
  eventId : UUID
  status : OutboxStatus := .pending
  attempts : ℕ := 0
  createdAt : ℤ
  lockedAt : Option ℤ := none
  deriving DecidableEq, Repr

instance : Keyed OutboxEntry UUID := ⟨OutboxEntry.id⟩

@[simp] theorem OutboxEntry.key_eq (o : OutboxEntry) : Keyed.key o = o.id := rfl

inductive AttemptErrorClass where
  | httpError
  | timeout
  | connectionError
  | ssrfBlocked
  deriving DecidableEq, Repr

/-- The driver encodes text as UTF-8 and the store takes no U+0000. -/
def storable (t : PyText) : Bool := (utf8Encode t).isSome && !decide t.HasNul

theorem storable_printable {t : PyText} (h : t.Printable) : storable t = true := by
  simp [storable, utf8Encode_printable h, h.not_hasNul]

/-- What a `TEXT` column can hold. -/
structure PgText where
  text : PyText
  isStorable : storable text = true
  deriving DecidableEq

def PgText.of? (t : PyText) : Option PgText :=
  if h : storable t = true then some ⟨t, h⟩ else none

theorem PgText.of?_isSome {t : PyText} : (PgText.of? t).isSome ↔ storable t = true := by
  unfold PgText.of?
  split
  next h => simpa using h
  next h => simpa using h

structure DeliveryAttempt where
  id : UUID
  deliveryId : UUID
  attemptNo : ℕ
  latencyMs : ℤ
  createdAt : ℤ
  responseStatus : Option ℤ := none
  errorClass : Option AttemptErrorClass := none
  requestSnippet : Option PgText := none
  responseSnippet : Option PgText := none
  requestHeaders : Option (List (PyText × PyText)) := none
  deriving DecidableEq

instance : Keyed DeliveryAttempt UUID := ⟨DeliveryAttempt.id⟩

@[simp] theorem DeliveryAttempt.key_eq (a : DeliveryAttempt) : Keyed.key a = a.id := rfl

end RelayWebhooks
