import RelayWebhooks.Domain.Tenants
import RelayWebhooks.Infra.RateLimit
import RelayWebhooks.Infra.Settings
import RelayWebhooks.Services.Endpoints
import RelayWebhooks.Services.Ingest

/-! Concurrent `POST /v1/endpoints` and `POST /v1/events` requests over one store. A request
counts its tenant's rows in one transaction and inserts in a later one. -/
namespace RelayWebhooks

namespace Db

/-- `EndpointRepository.count_for_tenant`. -/
def countEndpoints (db : Db) (tenantId : UUID) : ℕ :=
  db.endpoints.rows.countP fun e => e.tenantId = tenantId

/-- `EventRepository.count_for_tenant`. -/
def countEvents (db : Db) (tenantId : UUID) : ℕ :=
  db.events.rows.countP fun e => e.tenantId = tenantId

end Db

def checkQuota (currentCount limit : ℕ) (resource : PyText) : Except Raised Unit :=
  if currentCount ≥ limit then .error (.sandboxQuotaExceeded resource limit) else .ok ()

def assertEndpointQuota (settings : Settings) (db : Db) (tenant : Tenant) : Except Raised Unit :=
  if !tenant.isSandbox then .ok ()
  else checkQuota (db.countEndpoints tenant.id) settings.sandboxMaxEndpoints
    (PyText.ofString "endpoints")

def assertEventQuota (settings : Settings) (db : Db) (tenant : Tenant) : Except Raised Unit :=
  if !tenant.isSandbox then .ok ()
  else checkQuota (db.countEvents tenant.id) settings.sandboxMaxEvents (PyText.ofString "events")

inductive EndpointPhase where
  | authenticated
  /-- The quota check let the request through. -/
  | allowed
  /-- The row is inserted and not committed. -/
  | inserted (endpoint : Endpoint)
  | created (endpoint : Endpoint)
  | refused (error : Raised)
  | stopped

structure EndpointRequest where
  id : ℕ
  tenant : Tenant
  url : PyText
  subscribedEventTypes : List PyText
  phase : EndpointPhase

instance : Keyed EndpointRequest ℕ := ⟨EndpointRequest.id⟩

@[simp] theorem EndpointRequest.key_eq (r : EndpointRequest) : Keyed.key r = r.id := rfl

inductive EventPhase where
  | authenticated
  /-- The rate limiter let the request through. -/
  | admitted
  | allowed
  /-- The service's `ingest` has started; its call has the request's number. -/
  | ingesting
  | refused (error : Raised)
  | stopped

/-- The body and the headers of an ingest request. -/
structure EventCreate where
  type : PyText
  payload : Json
  idempotencyKey : PyText
  correlationId : Option PyText := none
  bodyLength : ℕ

structure EventRequest where
  id : ℕ
  tenant : Tenant
  body : EventCreate
  phase : EventPhase

instance : Keyed EventRequest ℕ := ⟨EventRequest.id⟩

@[simp] theorem EventRequest.key_eq (r : EventRequest) : Keyed.key r = r.id := rfl

/-- The call the router makes. -/
def EventRequest.ingestRequest (r : EventRequest) : IngestRequest where
  tenantId := r.tenant.id
  eventType := r.body.type
  payload := r.body.payload
  idempotencyKey := r.body.idempotencyKey
  correlationId := r.body.correlationId

structure Sandbox where
  tenants : Table Tenant
  rateLimits : RateLimitKeys
  ingest : Ingest
  endpointRequests : Table EndpointRequest
  eventRequests : Table EventRequest

/-- The first action of a request is its authentication as a tenant. `id`, `createdAt` and
`secret` are generated; `now` is the replica's clock. -/
inductive SandboxAction where
  | postEndpoint (i : ℕ) (tenantId : UUID) (url : PyText) (eventTypes : List PyText)
  | checkEndpointQuota (i : ℕ)
  | register (i : ℕ) (id : UUID) (secret : Secret) (createdAt : ℤ)
  | commitEndpoint (i : ℕ)
  | stopEndpoint (i : ℕ)
  | postEvent (i : ℕ) (tenantId : UUID) (body : EventCreate)
  | rateLimit (i : ℕ) (now redisTime : ℚ)
  | checkEventQuota (i : ℕ)
  | startIngest (i : ℕ)
  | ingest (a : IngestAction)
  | stopEvent (i : ℕ)

namespace Sandbox

def db (s : Sandbox) : Db := s.ingest.db

def setEndpoint (s : Sandbox) (r : EndpointRequest) (p : EndpointPhase) : Sandbox :=
  { s with endpointRequests := s.endpointRequests.update { r with phase := p } }

def setEvent (s : Sandbox) (r : EventRequest) (p : EventPhase) : Sandbox :=
  { s with eventRequests := s.eventRequests.update { r with phase := p } }

/-- The row `EndpointRepository.create` adds, with its column defaults. -/
def newEndpoint (r : EndpointRequest) (id : UUID) (secret : Secret) (createdAt : ℤ) : Endpoint :=
  { id, tenantId := r.tenant.id, url := r.url, secret,
    subscribedEventTypes := r.subscribedEventTypes, createdAt }

variable (urlparse : UrlParse) (jsonb : Json → Json) (settings : Settings)

def afterEndpointQuota (s : Sandbox) (tenant : Tenant) : EndpointPhase :=
  match assertEndpointQuota settings s.db tenant with
  | .ok () => .allowed
  | .error e => .refused e

def afterEventQuota (s : Sandbox) (tenant : Tenant) : EventPhase :=
  match assertEventQuota settings s.db tenant with
  | .ok () => .allowed
  | .error e => .refused e

/-- `register` up to its flush. -/
def afterRegister (r : EndpointRequest) (id : UUID) (secret : Secret) (createdAt : ℤ) :
    EndpointPhase :=
  match validateUrl urlparse r.url, validateEventTypes r.subscribedEventTypes with
  | .ok (), .ok () => .inserted (newEndpoint r id secret createdAt)
  | .error e, _ => .refused e
  | .ok (), .error e => .refused e

/-- The rate a tenant is held to, and its burst. -/
def budget (tenant : Tenant) : ℚ × ℤ :=
  if tenant.isSandbox then
    (settings.sandboxRateLimitRequestsPerSecond, settings.sandboxRateLimitBurst)
  else (settings.rateLimitRequestsPerSecond, settings.rateLimitBurst)

def afterRateLimit (d : RateLimitDecision) : EventPhase :=
  if d.allowed then .admitted else .refused (.rateLimitExceeded d.retryAfterSeconds)

def commitEndpoint (s : Sandbox) (r : EndpointRequest) (e : Endpoint) : Option Sandbox :=
  (s.db.endpoints.insert e).map fun endpoints =>
    { s.setEndpoint r (.created e) with
      ingest := { s.ingest with db := { s.db with endpoints } } }

/-- The size check, then the service's first lookup. -/
def startIngest (s : Sandbox) (r : EventRequest) : Option Sandbox :=
  if r.body.bodyLength > settings.eventPayloadMaxBytes then
    some (s.setEvent r
      (.refused (.payloadTooLarge r.body.bodyLength settings.eventPayloadMaxBytes)))
  else
    (s.ingest.step jsonb (.lookup r.id r.ingestRequest)).map fun ingest =>
      { s.setEvent r .ingesting with ingest }

/-- One action of one request; `none` when the request is not at that point. -/
def step (s : Sandbox) : SandboxAction → Option Sandbox
  | .postEndpoint i tenantId url eventTypes =>
    (s.tenants.get tenantId).bind fun tenant =>
      (s.endpointRequests.insert ⟨i, tenant, url, eventTypes, .authenticated⟩).map
        fun endpointRequests => { s with endpointRequests }
  | .checkEndpointQuota i =>
    (s.endpointRequests.get i).bind fun r =>
      match r.phase with
      | .authenticated => some (s.setEndpoint r (s.afterEndpointQuota settings r.tenant))
      | _ => none
  | .register i id secret createdAt =>
    (s.endpointRequests.get i).bind fun r =>
      match r.phase with
      | .allowed => some (s.setEndpoint r (afterRegister urlparse r id secret createdAt))
      | _ => none
  | .commitEndpoint i =>
    (s.endpointRequests.get i).bind fun r =>
      match r.phase with
      | .inserted e => s.commitEndpoint r e
      | _ => none
  | .stopEndpoint i =>
    (s.endpointRequests.get i).bind fun r =>
      match r.phase with
      | .created _ | .refused _ | .stopped => none
      | _ => some (s.setEndpoint r .stopped)
  | .postEvent i tenantId body =>
    (s.tenants.get tenantId).bind fun tenant =>
      (s.eventRequests.insert ⟨i, tenant, body, .authenticated⟩).map
        fun eventRequests => { s with eventRequests }
  | .rateLimit i now redisTime =>
    (s.eventRequests.get i).bind fun r =>
      match r.phase with
      | .authenticated =>
        let result := allow s.rateLimits r.tenant.id (budget settings r.tenant).1
          (budget settings r.tenant).2 1 now redisTime
        some { s.setEvent r (afterRateLimit result.1) with rateLimits := result.2 }
      | _ => none
  | .checkEventQuota i =>
    (s.eventRequests.get i).bind fun r =>
      match r.phase with
      | .admitted => some (s.setEvent r (s.afterEventQuota settings r.tenant))
      | _ => none
  | .startIngest i =>
    (s.eventRequests.get i).bind fun r =>
      match r.phase with
      | .allowed => s.startIngest jsonb settings r
      | _ => none
  | .ingest a =>
    match a with
    | .lookup _ _ => none
    | a => (s.ingest.step jsonb a).map fun ingest => { s with ingest }
  | .stopEvent i =>
    (s.eventRequests.get i).bind fun r =>
      match r.phase with
      | .ingesting | .refused _ | .stopped => none
      | _ => some (s.setEvent r .stopped)

abbrev run := Transition.run (step urlparse jsonb settings)

variable {urlparse jsonb settings} {s t : Sandbox} {a : SandboxAction}

/-- What each action can do, with its guard. -/
inductive Steps (urlparse : UrlParse) (jsonb : Json → Json) (settings : Settings)
    (s : Sandbox) : SandboxAction → Sandbox → Prop
  | postEndpoint {i : ℕ} {tenantId : UUID} {url : PyText} {eventTypes : List PyText}
      {tenant : Tenant} {endpointRequests : Table EndpointRequest}
      (ht : s.tenants.get tenantId = some tenant)
      (hi : s.endpointRequests.insert ⟨i, tenant, url, eventTypes, .authenticated⟩ =
        some endpointRequests) :
      Steps urlparse jsonb settings s (.postEndpoint i tenantId url eventTypes)
        { s with endpointRequests }
  | checkEndpointQuota {i : ℕ} {r : EndpointRequest} (h : s.endpointRequests.get i = some r)
      (hp : r.phase = .authenticated) :
      Steps urlparse jsonb settings s (.checkEndpointQuota i)
        (s.setEndpoint r (s.afterEndpointQuota settings r.tenant))
  | register {i : ℕ} {id : UUID} {secret : Secret} {createdAt : ℤ} {r : EndpointRequest}
      (h : s.endpointRequests.get i = some r) (hp : r.phase = .allowed) :
      Steps urlparse jsonb settings s (.register i id secret createdAt)
        (s.setEndpoint r (afterRegister urlparse r id secret createdAt))
  | commitEndpoint {i : ℕ} {r : EndpointRequest} {e : Endpoint} {endpoints : Table Endpoint}
      (h : s.endpointRequests.get i = some r) (hp : r.phase = .inserted e)
      (he : s.db.endpoints.insert e = some endpoints) :
      Steps urlparse jsonb settings s (.commitEndpoint i)
        { s.setEndpoint r (.created e) with
          ingest := { s.ingest with db := { s.db with endpoints } } }
  | stopEndpoint {i : ℕ} {r : EndpointRequest} (h : s.endpointRequests.get i = some r) :
      Steps urlparse jsonb settings s (.stopEndpoint i) (s.setEndpoint r .stopped)
  | postEvent {i : ℕ} {tenantId : UUID} {body : EventCreate} {tenant : Tenant}
      {eventRequests : Table EventRequest} (ht : s.tenants.get tenantId = some tenant)
      (hi : s.eventRequests.insert ⟨i, tenant, body, .authenticated⟩ = some eventRequests) :
      Steps urlparse jsonb settings s (.postEvent i tenantId body) { s with eventRequests }
  | rateLimit {i : ℕ} {now redisTime : ℚ} {r : EventRequest} {d : RateLimitDecision}
      {rateLimits : RateLimitKeys} (h : s.eventRequests.get i = some r)
      (hp : r.phase = .authenticated) :
      Steps urlparse jsonb settings s (.rateLimit i now redisTime)
        { s.setEvent r (afterRateLimit d) with rateLimits }
  | checkEventQuota {i : ℕ} {r : EventRequest} (h : s.eventRequests.get i = some r)
      (hp : r.phase = .admitted) :
      Steps urlparse jsonb settings s (.checkEventQuota i)
        (s.setEvent r (s.afterEventQuota settings r.tenant))
  | refuseSize {i : ℕ} {r : EventRequest} {e : Raised} (h : s.eventRequests.get i = some r)
      (hp : r.phase = .allowed) :
      Steps urlparse jsonb settings s (.startIngest i) (s.setEvent r (.refused e))
  | startIngest {i : ℕ} {r : EventRequest} {ingest : Ingest}
      (h : s.eventRequests.get i = some r) (hp : r.phase = .allowed)
      (hi : s.ingest.step jsonb (.lookup r.id r.ingestRequest) = some ingest) :
      Steps urlparse jsonb settings s (.startIngest i) { s.setEvent r .ingesting with ingest }
  | ingest {a : IngestAction} {ingest : Ingest} (hne : ∀ i r, a ≠ .lookup i r)
      (hi : s.ingest.step jsonb a = some ingest) :
      Steps urlparse jsonb settings s (.ingest a) { s with ingest }
  | stopEvent {i : ℕ} {r : EventRequest} (h : s.eventRequests.get i = some r) :
      Steps urlparse jsonb settings s (.stopEvent i) (s.setEvent r .stopped)

theorem steps_of_step (h : step urlparse jsonb settings s a = some t) :
    Steps urlparse jsonb settings s a t := by
  cases a with
  | postEndpoint i tenantId url eventTypes =>
    obtain ⟨tenant, ht, h⟩ := Option.bind_eq_some_iff.mp h
    obtain ⟨requests, hi, rfl⟩ := Option.map_eq_some_iff.mp h
    exact .postEndpoint ht hi
  | checkEndpointQuota i =>
    obtain ⟨r, hr, h⟩ := Option.bind_eq_some_iff.mp h
    split at h
    next hp => cases h; exact .checkEndpointQuota hr hp
    next => cases h
  | register i id secret createdAt =>
    obtain ⟨r, hr, h⟩ := Option.bind_eq_some_iff.mp h
    split at h
    next hp => cases h; exact .register hr hp
    next => cases h
  | commitEndpoint i =>
    obtain ⟨r, hr, h⟩ := Option.bind_eq_some_iff.mp h
    split at h
    next hp =>
      obtain ⟨endpoints, he, rfl⟩ := Option.map_eq_some_iff.mp h
      exact .commitEndpoint hr hp he
    next => cases h
  | stopEndpoint i =>
    obtain ⟨r, hr, h⟩ := Option.bind_eq_some_iff.mp h
    split at h
    next => cases h
    next => cases h
    next => cases h
    next => cases h; exact .stopEndpoint hr
  | postEvent i tenantId body =>
    obtain ⟨tenant, ht, h⟩ := Option.bind_eq_some_iff.mp h
    obtain ⟨requests, hi, rfl⟩ := Option.map_eq_some_iff.mp h
    exact .postEvent ht hi
  | rateLimit i now redisTime =>
    obtain ⟨r, hr, h⟩ := Option.bind_eq_some_iff.mp h
    split at h
    next hp => cases h; exact .rateLimit hr hp
    next => cases h
  | checkEventQuota i =>
    obtain ⟨r, hr, h⟩ := Option.bind_eq_some_iff.mp h
    split at h
    next hp => cases h; exact .checkEventQuota hr hp
    next => cases h
  | startIngest i =>
    obtain ⟨r, hr, h⟩ := Option.bind_eq_some_iff.mp h
    split at h
    next hp =>
      unfold startIngest at h
      split at h
      next => cases h; exact .refuseSize hr hp
      next =>
        obtain ⟨ingest, hi, rfl⟩ := Option.map_eq_some_iff.mp h
        exact .startIngest hr hp hi
    next => cases h
  | ingest a =>
    cases a with
    | lookup => cases h
    | insert | createOutbox | commit | relookup | finish | stop =>
      obtain ⟨ingest, hi, rfl⟩ := Option.map_eq_some_iff.mp h
      exact .ingest (fun _ _ => nofun) hi
  | stopEvent i =>
    obtain ⟨r, hr, h⟩ := Option.bind_eq_some_iff.mp h
    split at h
    next => cases h
    next => cases h
    next => cases h
    next => cases h; exact .stopEvent hr

end Sandbox

end RelayWebhooks
