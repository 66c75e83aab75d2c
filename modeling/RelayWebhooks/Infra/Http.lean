import RelayWebhooks.Domain.Endpoints
import RelayWebhooks.Domain.Errors
import RelayWebhooks.Domain.Events

/-! The outbound request of one attempt, its signature, and what a send returns. -/
namespace RelayWebhooks

structure OutboundHttpResult where
  latencyMs : ℤ
  statusCode : Option ℤ := none
  errorClass : Option AttemptErrorClass := none
  responseSnippet : Option PyText := none
  deriving DecidableEq

def OutboundHttpResult.succeeded (r : OutboundHttpResult) : Bool :=
  r.errorClass = none &&
    match r.statusCode with
    | none => false
    | some s => 200 ≤ s && s < 300

/-- The attempt row reports a success. -/
def DeliveryAttempt.succeeded (a : DeliveryAttempt) : Bool :=
  OutboundHttpResult.succeeded
    { latencyMs := a.latencyMs, statusCode := a.responseStatus, errorClass := a.errorClass }

structure OutboundRequest where
  url : PyText
  payload : Bytes
  headers : List (PyText × PyText)
  deriving DecidableEq

/-- HMAC-SHA256 of a key and a message, as 32 bytes. -/
abbrev Hmac := Bytes → Bytes → BitVec 256

/-- The timestamp, a full stop, then the exact bytes being sent. -/
def signedMessage (timestamp : ℤ) (body : Bytes) : Bytes :=
  (intText timestamp ++ [0x2e]).map (fun c => UInt8.ofNat c) ++ body

/-- `sign` under an endpoint's secret, which is ASCII: the hex digest of the signed message. The
timestamp is that of a clock reading, which `str` prints. -/
def sign (hmac : Hmac) (secret : Secret) (timestamp : ℤ) (body : Bytes) : PyText :=
  hexText 64 (hmac (secret.text.map fun c => UInt8.ofNat c) (signedMessage timestamp body)).toNat

/-- `int(now.timestamp())`. -/
def unixSeconds (now : ℤ) : ℤ := now.tdiv 1000000

/-- The headers of one attempt. -/
def requestHeaders (signature : PyText) (timestamp : ℤ) (deliveryId : UUID) :
    List (PyText × PyText) :=
  [(PyText.ofString "Content-Type", PyText.ofString "application/json"),
    (PyText.ofString "X-Relay-Signature", signature),
    (PyText.ofString "X-Relay-Timestamp", intText timestamp),
    (PyText.ofString "X-Relay-Delivery-Id", uuidText deliveryId)]

def requestSnippetMaxLen : ℕ := 2048

/-- The snippet of the request the attempt row keeps. -/
def requestSnippet (payload : Bytes) : PyText :=
  utf8DecodeReplace (payload.take requestSnippetMaxLen)

/-- `json.dumps(payload).encode()`. -/
def encodePayload (payload : Json) : Except Raised Bytes :=
  match utf8Encode payload.dumps with
  | some bs => .ok bs
  | none => .error .unicodeEncode

theorem encodePayload_eq (payload : Json) :
    encodePayload payload = .ok (payload.dumps.map fun c => UInt8.ofNat c) := by
  rw [encodePayload, utf8Encode_printable payload.dumps_printable]

/-- The request snippet is the start of the JSON text, so the store takes it. -/
theorem requestSnippet_eq (payload : Json) :
    requestSnippet (payload.dumps.map fun c => UInt8.ofNat c) =
      payload.dumps.take requestSnippetMaxLen := by
  rw [requestSnippet, ← List.map_take]
  exact utf8DecodeReplace_printable (payload.dumps_printable.take _)

theorem requestSnippet_storable (payload : Json) :
    storable (requestSnippet (payload.dumps.map fun c => UInt8.ofNat c)) = true := by
  rw [requestSnippet_eq]
  exact storable_printable (payload.dumps_printable.take _)

end RelayWebhooks
