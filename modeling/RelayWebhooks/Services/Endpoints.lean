import RelayWebhooks.Repositories.Queries

/-! `EndpointService`: the checks it makes before it opens a transaction, and its use cases on
stored endpoints. -/
namespace RelayWebhooks

/-- What `urlparse` gives the service. -/
structure ParsedUrl where
  scheme : PyText
  netloc : PyText
  deriving DecidableEq

/-- `urlparse`, `none` when it raises `ValueError`. -/
abbrev UrlParse := PyText → Option ParsedUrl

def validateUrl (urlparse : UrlParse) (url : PyText) : Except Raised Unit :=
  match urlparse url with
  | none => .error .valueError
  | some parsed =>
    if parsed.scheme ≠ PyText.ofString "https" then .error (.validation (.urlNotHttps url))
    else if parsed.netloc = [] then .error (.validation (.urlWithoutHost url))
    else .ok ()

/-- The code points `str.strip` removes. -/
def isSpace (c : ℕ) : Bool :=
  (0x09 ≤ c && c ≤ 0x0d) || (0x1c ≤ c && c ≤ 0x20) || c = 0x85 || c = 0xa0 || c = 0x1680 ||
    (0x2000 ≤ c && c ≤ 0x200a) || c = 0x2028 || c = 0x2029 || c = 0x202f || c = 0x205f ||
    c = 0x3000

def validateEventTypes (eventTypes : List PyText) : Except Raised Unit :=
  if eventTypes = [] then .error (.validation .noEventTypes)
  else if eventTypes.any fun t => t.all isSpace then .error (.validation .blankEventType)
  else .ok ()

/-- The arguments of `update`; `none` leaves a column as it is. The event types are in the order
in which the set is listed. -/
structure EndpointPatch where
  url : Option PyText := none
  subscribedEventTypes : Option (List PyText) := none
  status : Option EndpointStatus := none

namespace EndpointPatch

def apply (p : EndpointPatch) (e : Endpoint) : Endpoint :=
  { e with
    url := p.url.getD e.url
    subscribedEventTypes := p.subscribedEventTypes.getD e.subscribedEventTypes
    status := p.status.getD e.status }

@[simp] theorem apply_id (p : EndpointPatch) (e : Endpoint) : (p.apply e).id = e.id := rfl

@[simp] theorem apply_tenantId (p : EndpointPatch) (e : Endpoint) :
    (p.apply e).tenantId = e.tenantId := rfl

def isStorable (p : EndpointPatch) : Bool :=
  p.url.all storable && p.subscribedEventTypes.all fun types => types.all storable

/-- The checks of `update` that come before its transaction. -/
def validate (urlparse : UrlParse) (p : EndpointPatch) : Except Raised Unit := do
  if let some url := p.url then validateUrl urlparse url
  if let some eventTypes := p.subscribedEventTypes then validateEventTypes eventTypes

end EndpointPatch

namespace EndpointService

variable (db : Db)

def get (endpointId tenantId : UUID) : Except Raised Endpoint :=
  match db.endpoints.get endpointId with
  | none => .error (.endpointNotFoundForTenant tenantId endpointId)
  | some endpoint =>
    if endpoint.tenantId ≠ tenantId then
      .error (.endpointNotFoundForTenant tenantId endpointId)
    else .ok endpoint

def list (readers : CursorReaders) (tenantId : UUID) (cursor : Option PyText) (limit : ℤ) :
    Except Raised (Page Endpoint) :=
  db.listEndpoints readers tenantId cursor limit

/-- The flush sends the new column values; a text the store cannot hold fails there. -/
def update (urlparse : UrlParse) (endpointId tenantId : UUID) (patch : EndpointPatch) :
    Except Raised (Db × Endpoint) := do
  patch.validate urlparse
  let _existing ← get db endpointId tenantId
  if patch.isStorable then db.writeEndpoint patch.apply endpointId else .error .database

def delete (endpointId tenantId : UUID) : Except Raised Db := do
  let _existing ← get db endpointId tenantId
  return db.deleteEndpoint endpointId

end EndpointService

end RelayWebhooks
