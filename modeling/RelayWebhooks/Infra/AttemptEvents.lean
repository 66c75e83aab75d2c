import RelayWebhooks.Py.Json
import RelayWebhooks.Py.Datetime
import RelayWebhooks.Lib.ServerSentEvents

/-! The live events of delivery attempts and their JSON. -/
namespace RelayWebhooks

/-- Times are UTC, in microseconds. No attempt has a number if a delivery was deferred. -/
structure AttemptEvent where
  deliveryId : UUID
  endpointId : UUID
  eventId : UUID
  attemptNo : Option ℤ
  deliveryState : PyText
  latencyMs : ℤ
  responseStatus : Option ℤ
  errorClass : Option PyText
  nextRetryAt : Option ℤ
  breakerState : PyText
  createdAt : ℤ
  requestHeaders : Option (List (PyText × PyText)) := none
  deriving DecidableEq, Repr

namespace AttemptEvent

def payload (e : AttemptEvent) : Json :=
  .obj
    [ (.ofString "delivery_id", .str (uuidText e.deliveryId)),
      (.ofString "endpoint_id", .str (uuidText e.endpointId)),
      (.ofString "event_id", .str (uuidText e.eventId)),
      (.ofString "attempt_no", Json.orNull .int e.attemptNo),
      (.ofString "delivery_state", .str e.deliveryState),
      (.ofString "latency_ms", .int e.latencyMs),
      (.ofString "response_status", Json.orNull .int e.responseStatus),
      (.ofString "error_class", Json.orNull .str e.errorClass),
      (.ofString "next_retry_at", Json.orNull (fun t => .str (isoformat t)) e.nextRetryAt),
      (.ofString "breaker_state", .str e.breakerState),
      (.ofString "created_at", .str (isoformat e.createdAt)),
      (.ofString "request_headers",
        Json.orNull (fun headers => .obj (headers.map fun h => (h.1, .str h.2)))
          e.requestHeaders) ]

def toJson (e : AttemptEvent) : PyText := e.payload.dumps

end AttemptEvent

theorem PyText.Printable.unbroken {t : PyText} (h : t.Printable) : ServerSentEvents.Unbroken t := by
  constructor
  · intro hlf
    exact absurd (h _ hlf).1 (by decide)
  · intro hcr
    exact absurd (h _ hcr).1 (by decide)

/-- No event's JSON contains a line break, whatever its texts hold. -/
theorem AttemptEvent.toJson_unbroken (e : AttemptEvent) : ServerSentEvents.Unbroken e.toJson :=
  (Json.dumps_printable e.payload).unbroken

end RelayWebhooks
