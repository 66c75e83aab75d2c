import RelayWebhooks.Domain.Deliveries

/-! The exceptions the modelled services raise. -/
namespace RelayWebhooks

/-- What `EndpointService` rejects before it reads the store. -/
inductive EndpointRejection where
  | urlNotHttps (url : PyText)
  | urlWithoutHost (url : PyText)
  | noEventTypes
  | blankEventType
  deriving DecidableEq

inductive Raised where
  | notFound (message : PyText)
  /-- `DeliveryNotDeadError`. -/
  | deliveryNotDead (deliveryId : UUID) (state : DeliveryState)
  /-- `IdempotencyKeyConflict`. -/
  | idempotencyKeyConflict (tenantId : UUID) (idempotencyKey : PyText)
  /-- `DifferingBodyConflict`. -/
  | differingBodyConflict (tenantId : UUID) (idempotencyKey : PyText)
  /-- The conflict of an insert whose winner cannot be found. -/
  | conflictWithoutRow (tenantId : UUID) (idempotencyKey : PyText)
  | backoff (error : BackoffError)
  | unicodeEncode
  /-- `ValidationError`. -/
  | validation (rejection : EndpointRejection)
  | rateLimitExceeded (retryAfterSeconds : ℚ)
  | payloadTooLarge (actualBytes maxBytes : ℕ)
  | sandboxQuotaExceeded (resource : PyText) (limit : ℕ)
  /-- `CursorDecodeError`. -/
  | cursorDecode (token : PyText)
  /-- The standard library raised `ValueError` on its input. -/
  | valueError
  /-- The store refused a statement. -/
  | database
  deriving DecidableEq

namespace Raised

def deliveryNotFound (id : UUID) : Raised :=
  notFound (PyText.ofString "delivery not found: " ++ uuidText id)

def eventNotFound (id : UUID) : Raised :=
  notFound (PyText.ofString "event not found: " ++ uuidText id)

def endpointNotFound (id : UUID) : Raised :=
  notFound (PyText.ofString "endpoint not found: " ++ uuidText id)

def outboxEntryNotFound (id : UUID) : Raised :=
  notFound (PyText.ofString "outbox entry not found: " ++ uuidText id)

def deliveryNotFoundForTenant (tenantId id : UUID) : Raised :=
  notFound (PyText.ofString "delivery not found for tenant " ++ uuidRepr tenantId ++
    PyText.ofString ": " ++ uuidRepr id)

def apiKeyNotFound (id : UUID) : Raised :=
  notFound (PyText.ofString "api key not found: " ++ uuidText id)

def apiKeyNotFoundForTenant (tenantId id : UUID) : Raised :=
  notFound (PyText.ofString "api key not found for tenant " ++ uuidRepr tenantId ++
    PyText.ofString ": " ++ uuidRepr id)

def endpointNotFoundForTenant (tenantId id : UUID) : Raised :=
  notFound (PyText.ofString "endpoint not found for tenant " ++ uuidRepr tenantId ++
    PyText.ofString ": " ++ uuidRepr id)

/-- The message of `DeliveryNotDeadError`. -/
def deliveryNotDeadMessage (id : UUID) (state : DeliveryState) : PyText :=
  PyText.ofString "delivery " ++ uuidRepr id ++ PyText.ofString " is not dead (state='" ++
    PyText.ofString state.value ++ PyText.ofString "'); cannot replay"

/-- The exceptions the workers catch as `NotFoundError`. -/
def isNotFound : Raised → Bool
  | notFound _ => true
  | _ => false

end Raised

theorem bind_ok {ε α β : Type} {x : Except ε α} {f : α → Except ε β} {b : β}
    (h : x >>= f = .ok b) : ∃ a, x = .ok a ∧ f a = .ok b := by
  cases x with
  | error err => cases h
  | ok a => exact ⟨a, rfl, h⟩

theorem bind_error {α β : Type} {x : Except Raised α} {f : α → Except Raised β} {err : Raised}
    (h : x >>= f = .error err) : x = .error err ∨ ∃ a, x = .ok a ∧ f a = .error err := by
  cases x with
  | error e => cases h; exact .inl rfl
  | ok a => exact .inr ⟨a, rfl, h⟩

end RelayWebhooks
