import RelayWebhooks.Lib.Reservation
import RelayWebhooks.Services.Sandbox

/-! The sandbox caps: a request that passed its quota check holds a unit of the cap until it
commits its row or ends. -/
namespace RelayWebhooks
open Reservation (Usage Move)

variable (tenantId : UUID)

/-- The request may still insert an endpoint for the tenant. -/
def EndpointRequest.holds (r : EndpointRequest) : Bool :=
  r.tenant.id = tenantId && match r.phase with
    | .allowed | .inserted _ => true
    | _ => false

/-- The request may still start an ingest for the tenant. -/
def EventRequest.holds (r : EventRequest) : Bool :=
  r.tenant.id = tenantId && match r.phase with
    | .allowed => true
    | _ => false

/-- The call may still commit an event for the tenant. -/
def IngestCall.holds (c : IngestCall) : Bool :=
  c.request.tenantId = tenantId && match c.phase with
    | .missing | .inserted _ | .outboxed _ _ => true
    | _ => false

/-- Resolving against a stored event holds nothing. -/
theorem holds_resolve (e : Event) (r : IngestRequest) (j : ℕ) :
    IngestCall.holds tenantId ⟨j, r, Ingest.resolve e r⟩ = false := by
  unfold IngestCall.holds Ingest.resolve
  split <;> simp

namespace Ingest
variable {jsonb : Json → Json} {s t : Ingest} {a : IngestAction} {cap : ℕ}

theorem countP_setPhase {i : ℕ} {c : IngestCall} (h : s.calls.get i = some c) (p : IngestPhase) :
    (s.setPhase c p).calls.rows.countP (IngestCall.holds tenantId) +
        (c.holds tenantId).toNat =
      s.calls.rows.countP (IngestCall.holds tenantId) +
        (IngestCall.holds tenantId { c with phase := p }).toNat := by
  have hid : c.id = i := Table.key_of_get h
  exact Table.countP_update (IngestCall.holds tenantId) (by rw [IngestCall.key_eq, hid, h])

/-- The tenant's events, and what its calls and `n` other requests hold. -/
def usage (n : ℕ) (s : Ingest) : Usage :=
  ⟨s.db.countEvents tenantId, n + s.calls.rows.countP (IngestCall.holds tenantId)⟩

/-- A call that changes its phase and commits nothing takes no new unit. -/
theorem move_setPhase {n i : ℕ} {c : IngestCall} (h : s.calls.get i = some c) {p : IngestPhase}
    (hp : IngestCall.holds tenantId { c with phase := p } = true → c.holds tenantId = true) :
    Move cap (s.usage tenantId n) ((s.setPhase c p).usage tenantId n) := by
  have hsum := countP_setPhase tenantId h p
  refine Move.release (c.holds tenantId) (IngestCall.holds tenantId { c with phase := p }) ?_ hp
  omega

/-- Past its first lookup a call never takes a unit. -/
theorem move_step {n : ℕ} (hI : Inv s) (h : step jsonb s a = some t)
    (hne : ∀ i r, a ≠ .lookup i r) : Move cap (s.usage tenantId n) (t.usage tenantId n) := by
  cases steps_of_step h with
  | lookup => exact absurd rfl (hne _ _)
  | conflict hi => exact move_setPhase tenantId hi fun h => by simp [IngestCall.holds] at h
  | insert hi => exact move_setPhase tenantId hi fun h => by simpa [IngestCall.holds] using h
  | createOutbox hi => exact move_setPhase tenantId hi fun h => by simpa [IngestCall.holds] using h
  | refuseOutbox hi => exact move_setPhase tenantId hi fun h => by simp [IngestCall.holds] at h
  | @commit _ j r e o events outbox hi he ho =>
    obtain ⟨hm, -⟩ : r.Matches e ∧ o.eventId = e.id := hI.calls _ (Table.mem_of_get hi)
    have hsum := countP_setPhase tenantId hi (.committed e)
    have hheld : IngestCall.holds tenantId ⟨j, r, .outboxed e o⟩ =
        decide (e.tenantId = tenantId) := by
      simp [IngestCall.holds, hm.1]
    have hafter : IngestCall.holds tenantId ⟨j, r, .committed e⟩ = false := by
      simp [IngestCall.holds]
    rw [hheld, hafter] at hsum
    refine Move.commit (decide (e.tenantId = tenantId)) (Table.countP_insert _ he) ?_
    simp only [Bool.toNat_false, Nat.add_zero] at hsum
    show n + (s.setPhase _ _).calls.rows.countP _ + _ = _
    omega
  | @relookup _ j r hi =>
    obtain ⟨e, -, -, heq⟩ := afterConflict_eq_resolve (hI.calls _ (Table.mem_of_get hi))
    rw [heq]
    exact move_setPhase tenantId hi fun h => by
      rw [holds_resolve] at h
      cases h
  | finish hi => exact move_setPhase tenantId hi fun h => by simp [IngestCall.holds] at h
  | stop hi => exact move_setPhase tenantId hi fun h => by simp [IngestCall.holds] at h

theorem db_endpoints_of_step (h : step jsonb s a = some t) : t.db.endpoints = s.db.endpoints := by
  cases steps_of_step h <;> rfl

end Ingest

namespace Sandbox
variable {urlparse : UrlParse} {jsonb : Json → Json} {settings : Settings} {s t : Sandbox}
  {a : SandboxAction}

/-- The committed endpoints of the tenant, and what its requests hold. -/
def endpointUsage (s : Sandbox) : Usage :=
  ⟨s.db.countEndpoints tenantId,
    s.endpointRequests.rows.countP (EndpointRequest.holds tenantId)⟩

def eventUsage (s : Sandbox) : Usage :=
  s.ingest.usage tenantId (s.eventRequests.rows.countP (EventRequest.holds tenantId))

/-- Nothing is stored and nothing has been requested. -/
structure Init (s : Sandbox) : Prop where
  ingest : s.ingest.Init
  endpoints : s.db.endpoints.rows = []
  endpointRequests : s.endpointRequests.rows = []
  eventRequests : s.eventRequests.rows = []

/-- The requests carry the rows of their tenants, and an endpoint about to be committed is its
tenant's. -/
structure Inv (s : Sandbox) : Prop where
  ingest : s.ingest.Inv
  endpointTenant : ∀ r ∈ s.endpointRequests.rows, s.tenants.get r.tenant.id = some r.tenant
  eventTenant : ∀ r ∈ s.eventRequests.rows, s.tenants.get r.tenant.id = some r.tenant
  inserted : ∀ r ∈ s.endpointRequests.rows, ∀ e, r.phase = .inserted e →
    e.tenantId = r.tenant.id

theorem inv_init (h : Init s) : Inv s := by
  refine ⟨Ingest.inv_init h.ingest, ?_, ?_, ?_⟩
  · intro r hr
    rw [h.endpointRequests] at hr
    cases hr
  · intro r hr
    rw [h.eventRequests] at hr
    cases hr
  · intro r hr
    rw [h.endpointRequests] at hr
    cases hr

/-- A phase change of an endpoint request. -/
theorem Inv.setEndpoint (hI : Inv s) {i : ℕ} {r : EndpointRequest}
    (h : s.endpointRequests.get i = some r) {p : EndpointPhase}
    (hp : ∀ e, p = .inserted e → e.tenantId = r.tenant.id) : Inv (s.setEndpoint r p) := by
  refine ⟨hI.ingest, fun r' hr' => ?_, hI.eventTenant, fun r' hr' => ?_⟩
  · rcases Table.mem_update hr' with rfl | ⟨hr', -⟩
    · exact hI.endpointTenant r (Table.mem_of_get h)
    · exact hI.endpointTenant r' hr'
  · rcases Table.mem_update hr' with rfl | ⟨hr', -⟩
    · exact hp
    · exact hI.inserted r' hr'

theorem Inv.setEvent (hI : Inv s) {i : ℕ} {r : EventRequest}
    (h : s.eventRequests.get i = some r) (p : EventPhase) : Inv (s.setEvent r p) := by
  refine ⟨hI.ingest, hI.endpointTenant, fun r' hr' => ?_, hI.inserted⟩
  rcases Table.mem_update hr' with rfl | ⟨hr', -⟩
  · exact hI.eventTenant r (Table.mem_of_get h)
  · exact hI.eventTenant r' hr'

/-- The ingest calls never look at the endpoints. -/
theorem Inv.withIngest (hI : Inv s) {ingest : Ingest} (h : ingest.Inv) :
    Inv { s with ingest } :=
  ⟨h, hI.endpointTenant, hI.eventTenant, hI.inserted⟩

theorem afterRegister_inserted {r : EndpointRequest} {id : UUID} {secret : Secret}
    {createdAt : ℤ} {e : Endpoint}
    (h : afterRegister urlparse r id secret createdAt = .inserted e) :
    e.tenantId = r.tenant.id := by
  unfold afterRegister at h
  split at h
  next => cases h; rfl
  next => cases h
  next => cases h

theorem Inv.step (hI : Inv s) (h : step urlparse jsonb settings s a = some t) : Inv t := by
  cases steps_of_step h with
  | @postEndpoint i tenantId url eventTypes tenant requests ht hi =>
    obtain ⟨-, hrows⟩ := Table.insert_eq_some.mp hi
    refine ⟨hI.ingest, fun r hr => ?_, hI.eventTenant, fun r hr => ?_⟩
    · rw [hrows, List.mem_append, List.mem_singleton] at hr
      rcases hr with hr | rfl
      · exact hI.endpointTenant r hr
      · have hid : tenant.id = tenantId := Table.key_of_get ht
        rw [hid]
        exact ht
    · rw [hrows, List.mem_append, List.mem_singleton] at hr
      rcases hr with hr | rfl
      · exact hI.inserted r hr
      · intro e he
        cases he
  | checkEndpointQuota hr =>
    refine hI.setEndpoint hr fun e he => ?_
    unfold afterEndpointQuota at he
    split at he <;> cases he
  | register hr => exact hI.setEndpoint hr fun e he => afterRegister_inserted he
  | @commitEndpoint _ r e _ hr hp he =>
    have hset : Inv (s.setEndpoint r (.created e)) := hI.setEndpoint hr fun _ => nofun
    exact hset.withIngest hI.ingest.frame
  | stopEndpoint hr => exact hI.setEndpoint hr fun _ => nofun
  | @postEvent i tenantId body tenant requests ht hi =>
    obtain ⟨-, hrows⟩ := Table.insert_eq_some.mp hi
    refine ⟨hI.ingest, hI.endpointTenant, fun r hr => ?_, hI.inserted⟩
    rw [hrows, List.mem_append, List.mem_singleton] at hr
    rcases hr with hr | rfl
    · exact hI.eventTenant r hr
    · have hid : tenant.id = tenantId := Table.key_of_get ht
      rw [hid]
      exact ht
  | rateLimit hr =>
    obtain ⟨h₁, h₂, h₃, h₄⟩ := hI.setEvent hr (afterRateLimit _)
    exact ⟨h₁, h₂, h₃, h₄⟩
  | checkEventQuota hr => exact hI.setEvent hr _
  | refuseSize hr => exact hI.setEvent hr _
  | startIngest hr hp hi => exact (hI.setEvent hr .ingesting).withIngest (hI.ingest.step hi)
  | ingest hne hi => exact hI.withIngest (hI.ingest.step hi)
  | stopEvent hr => exact hI.setEvent hr _

theorem countP_setEndpoint {i : ℕ} {r : EndpointRequest} (h : s.endpointRequests.get i = some r)
    (p : EndpointPhase) :
    (s.setEndpoint r p).endpointRequests.rows.countP (EndpointRequest.holds tenantId) +
        (r.holds tenantId).toNat =
      s.endpointRequests.rows.countP (EndpointRequest.holds tenantId) +
        (EndpointRequest.holds tenantId { r with phase := p }).toNat := by
  have hid : r.id = i := Table.key_of_get h
  exact Table.countP_update (EndpointRequest.holds tenantId)
    (by rw [EndpointRequest.key_eq, hid, h])

theorem countP_setEvent {i : ℕ} {r : EventRequest} (h : s.eventRequests.get i = some r)
    (p : EventPhase) :
    (s.setEvent r p).eventRequests.rows.countP (EventRequest.holds tenantId) +
        (r.holds tenantId).toNat =
      s.eventRequests.rows.countP (EventRequest.holds tenantId) +
        (EventRequest.holds tenantId { r with phase := p }).toNat := by
  have hid : r.id = i := Table.key_of_get h
  exact Table.countP_update (EventRequest.holds tenantId) (by rw [EventRequest.key_eq, hid, h])

/-- A request of the tenant is let through its quota check only while the units already held
leave room for it. -/
def CapOk (settings : Settings) (s : Sandbox) (a : SandboxAction) (_ : Sandbox) : Prop :=
  match a with
  | .checkEndpointQuota i => ∀ r ∈ s.endpointRequests.get i, r.tenant.id = tenantId →
      (s.endpointUsage tenantId).stored < settings.sandboxMaxEndpoints →
      (s.endpointUsage tenantId).stored + (s.endpointUsage tenantId).held <
        settings.sandboxMaxEndpoints
  | .checkEventQuota i => ∀ r ∈ s.eventRequests.get i, r.tenant.id = tenantId →
      (s.eventUsage tenantId).stored < settings.sandboxMaxEvents →
      (s.eventUsage tenantId).stored + (s.eventUsage tenantId).held < settings.sandboxMaxEvents
  | _ => True

instance (settings : Settings) (s : Sandbox) (a : SandboxAction) (t : Sandbox) :
    Decidable (CapOk tenantId settings s a t) :=
  match a with
  | .checkEndpointQuota i => inferInstanceAs
      (Decidable (∀ r ∈ s.endpointRequests.get i, r.tenant.id = tenantId → _ < _ → _ < _))
  | .checkEventQuota i => inferInstanceAs
      (Decidable (∀ r ∈ s.eventRequests.get i, r.tenant.id = tenantId → _ < _ → _ < _))
  | .postEndpoint .. | .register .. | .commitEndpoint .. | .stopEndpoint .. | .postEvent ..
  | .rateLimit .. | .startIngest .. | .ingest .. | .stopEvent .. => isTrue trivial

/-- An endpoint request that changes its phase takes no new unit unless its check lets it
through. -/
theorem move_setEndpoint {cap i : ℕ} {r : EndpointRequest}
    (h : s.endpointRequests.get i = some r) {p : EndpointPhase}
    (hp : EndpointRequest.holds tenantId { r with phase := p } = true →
      r.holds tenantId = true) :
    Move cap (s.endpointUsage tenantId) ((s.setEndpoint r p).endpointUsage tenantId) :=
  Move.release (r.holds tenantId) (EndpointRequest.holds tenantId { r with phase := p })
    (countP_setEndpoint tenantId h p) hp

theorem move_setEvent {cap i : ℕ} {r : EventRequest} (h : s.eventRequests.get i = some r)
    {p : EventPhase} (hp : EventRequest.holds tenantId { r with phase := p } = true →
      r.holds tenantId = true) :
    Move cap (s.eventUsage tenantId) ((s.setEvent r p).eventUsage tenantId) := by
  have hsum := countP_setEvent tenantId h p
  refine Move.release (r.holds tenantId) (EventRequest.holds tenantId { r with phase := p }) ?_ hp
  show (s.setEvent r p).eventRequests.rows.countP _ + s.ingest.calls.rows.countP _ + _ = _
  omega

theorem not_holds_of_phase {r : EndpointRequest} (hp : r.phase = .authenticated) :
    r.holds tenantId = false := by simp [EndpointRequest.holds, hp]

theorem checkQuota_ok {count limit : ℕ} {resource : PyText}
    (h : checkQuota count limit resource = .ok ()) : count < limit := by
  unfold checkQuota at h
  split at h
  next => cases h
  next hlt => exact Nat.lt_of_not_le hlt

/-- Passing the quota check means that the committed rows leave room. -/
theorem stored_lt_of_endpointQuota {tenant : Tenant} (hs : tenant.isSandbox = true)
    (h : s.afterEndpointQuota settings tenant = .allowed) :
    (s.endpointUsage tenant.id).stored < settings.sandboxMaxEndpoints := by
  unfold afterEndpointQuota at h
  split at h
  next hcheck =>
    rw [assertEndpointQuota, hs] at hcheck
    exact checkQuota_ok hcheck
  next => cases h

theorem stored_lt_of_eventQuota {tenant : Tenant} (hs : tenant.isSandbox = true)
    (h : s.afterEventQuota settings tenant = .allowed) :
    (s.eventUsage tenant.id).stored < settings.sandboxMaxEvents := by
  unfold afterEventQuota at h
  split at h
  next hcheck =>
    rw [assertEventQuota, hs] at hcheck
    exact checkQuota_ok hcheck
  next => cases h

/-- A request that its quota check lets through is the tenant's, and the committed rows leave
room. -/
theorem room_of_endpointQuota {tenant : Tenant} (hI : Inv s)
    (ht : s.tenants.get tenantId = some tenant) (hs : tenant.isSandbox = true) {i : ℕ}
    {r : EndpointRequest} (hr : s.endpointRequests.get i = some r)
    (hheld : EndpointRequest.holds tenantId
      { r with phase := s.afterEndpointQuota settings r.tenant } = true) :
    r.tenant.id = tenantId ∧
      (s.endpointUsage tenantId).stored < settings.sandboxMaxEndpoints := by
  obtain ⟨hid, hallowed⟩ : r.tenant.id = tenantId ∧
      s.afterEndpointQuota settings r.tenant = .allowed := by
    unfold EndpointRequest.holds afterEndpointQuota at hheld
    unfold afterEndpointQuota
    split at hheld <;> simp_all
  have hrow : r.tenant = tenant := by
    have hget := hI.endpointTenant r (Table.mem_of_get hr)
    rw [hid, ht] at hget
    exact (Option.some.inj hget).symm
  have hroom := stored_lt_of_endpointQuota (hrow ▸ hs) hallowed
  exact ⟨hid, hid ▸ hroom⟩

theorem room_of_eventQuota {tenant : Tenant} (hI : Inv s)
    (ht : s.tenants.get tenantId = some tenant) (hs : tenant.isSandbox = true) {i : ℕ}
    {r : EventRequest} (hr : s.eventRequests.get i = some r)
    (hheld : EventRequest.holds tenantId
      { r with phase := s.afterEventQuota settings r.tenant } = true) :
    r.tenant.id = tenantId ∧ (s.eventUsage tenantId).stored < settings.sandboxMaxEvents := by
  obtain ⟨hid, hallowed⟩ : r.tenant.id = tenantId ∧
      s.afterEventQuota settings r.tenant = .allowed := by
    unfold EventRequest.holds afterEventQuota at hheld
    unfold afterEventQuota
    split at hheld <;> simp_all
  have hrow : r.tenant = tenant := by
    have hget := hI.eventTenant r (Table.mem_of_get hr)
    rw [hid, ht] at hget
    exact (Option.some.inj hget).symm
  have hroom := stored_lt_of_eventQuota (hrow ▸ hs) hallowed
  exact ⟨hid, hid ▸ hroom⟩

/-- Every step moves the tenant's endpoints by a move of the cap. -/
theorem endpoint_move {tenant : Tenant} (hI : Inv s)
    (ht : s.tenants.get tenantId = some tenant) (hs : tenant.isSandbox = true)
    (hok : CapOk tenantId settings s a t) (h : step urlparse jsonb settings s a = some t) :
    Move settings.sandboxMaxEndpoints (s.endpointUsage tenantId) (t.endpointUsage tenantId) := by
  cases steps_of_step h with
  | @postEndpoint i _ url eventTypes tenant _ ht hi =>
    have hnew : EndpointRequest.holds tenantId ⟨i, tenant, url, eventTypes, .authenticated⟩ =
        false := not_holds_of_phase tenantId rfl
    have hcount := Table.countP_insert (EndpointRequest.holds tenantId) hi
    rw [hnew] at hcount
    exact Move.acquire false hcount nofun
  | @checkEndpointQuota i r hr hp =>
    have hsum := countP_setEndpoint tenantId hr (s.afterEndpointQuota settings r.tenant)
    rw [not_holds_of_phase tenantId hp] at hsum
    refine Move.acquire (EndpointRequest.holds tenantId
      { r with phase := s.afterEndpointQuota settings r.tenant }) hsum fun hheld => ?_
    obtain ⟨hid, hroom⟩ := room_of_endpointQuota tenantId hI ht hs hr hheld
    exact hok r hr hid hroom
  | @register _ _ _ _ r hr hp =>
    refine move_setEndpoint tenantId hr fun hheld => ?_
    unfold EndpointRequest.holds at *
    simp_all
  | @commitEndpoint i r e _ hr hp he =>
    have hsum := countP_setEndpoint tenantId hr (.created e)
    have hid := hI.inserted r (Table.mem_of_get hr) e hp
    have hheld : r.holds tenantId = decide (e.tenantId = tenantId) := by
      simp [EndpointRequest.holds, hp, hid]
    have hafter : EndpointRequest.holds tenantId { r with phase := .created e } = false := by
      simp [EndpointRequest.holds]
    rw [hheld, hafter] at hsum
    exact Move.commit (decide (e.tenantId = tenantId)) (Table.countP_insert _ he) hsum
  | stopEndpoint hr =>
    exact move_setEndpoint tenantId hr fun h => by simp [EndpointRequest.holds] at h
  | @startIngest i r ingest hr hp hi =>
    have hframe : ingest.db.endpoints = s.db.endpoints := Ingest.db_endpoints_of_step hi
    unfold endpointUsage db Db.countEndpoints
    dsimp only
    rw [hframe]
    exact .stay _
  | @ingest a ingest hne hi =>
    have hframe : ingest.db.endpoints = s.db.endpoints := Ingest.db_endpoints_of_step hi
    unfold endpointUsage db Db.countEndpoints
    dsimp only
    rw [hframe]
    exact .stay _
  | postEvent | rateLimit | checkEventQuota | refuseSize | stopEvent => exact .stay _

theorem holds_newCall (s : Ingest) (r : EventRequest) :
    IngestCall.holds tenantId ⟨r.id, r.ingestRequest, s.afterLookup r.ingestRequest⟩ = true →
      r.tenant.id = tenantId := by
  intro h
  unfold IngestCall.holds at h
  simp only [Bool.and_eq_true, decide_eq_true_eq] at h
  exact h.1

/-- Every step moves the tenant's events by a move of the cap. -/
theorem event_move {tenant : Tenant} (hI : Inv s)
    (ht : s.tenants.get tenantId = some tenant) (hs : tenant.isSandbox = true)
    (hok : CapOk tenantId settings s a t) (h : step urlparse jsonb settings s a = some t) :
    Move settings.sandboxMaxEvents (s.eventUsage tenantId) (t.eventUsage tenantId) := by
  cases steps_of_step h with
  | @postEvent i _ body tenant _ ht hi =>
    have hnew : EventRequest.holds tenantId ⟨i, tenant, body, .authenticated⟩ = false := by
      simp [EventRequest.holds]
    have hcount := Table.countP_insert (EventRequest.holds tenantId) hi
    rw [hnew] at hcount
    refine Move.acquire false ?_ nofun
    dsimp only
    rw [hcount]
    rfl
  | rateLimit hr hp =>
    refine move_setEvent tenantId hr fun h => ?_
    unfold EventRequest.holds afterRateLimit at h
    split at h <;> simp_all
  | @checkEventQuota i r hr hp =>
    have hsum := countP_setEvent tenantId hr (s.afterEventQuota settings r.tenant)
    have hold : r.holds tenantId = false := by simp [EventRequest.holds, hp]
    rw [hold] at hsum
    refine Move.acquire (EventRequest.holds tenantId
      { r with phase := s.afterEventQuota settings r.tenant }) ?_ fun hheld => ?_
    · show (s.setEvent r _).eventRequests.rows.countP _ + s.ingest.calls.rows.countP _ = _
      simp only [Bool.toNat_false, Nat.add_zero] at hsum
      rw [hsum]
      exact Nat.add_right_comm ..
    · obtain ⟨hid, hroom⟩ := room_of_eventQuota tenantId hI ht hs hr hheld
      exact hok r hr hid hroom
  | refuseSize hr =>
    exact move_setEvent tenantId hr fun h => by simp [EventRequest.holds] at h
  | @startIngest i r ingest hr hp hi =>
    have hsum := countP_setEvent tenantId hr .ingesting
    have hheld : r.holds tenantId = decide (r.tenant.id = tenantId) := by
      simp [EventRequest.holds, hp]
    have hafter : EventRequest.holds tenantId { r with phase := .ingesting } = false := by
      simp [EventRequest.holds]
    rw [hheld, hafter] at hsum
    obtain ⟨calls, hcalls, rfl⟩ := Option.map_eq_some_iff.mp hi
    have hcount := Table.countP_insert (IngestCall.holds tenantId) hcalls
    refine Move.release (decide (r.tenant.id = tenantId)) (IngestCall.holds tenantId
      ⟨r.id, r.ingestRequest, s.ingest.afterLookup r.ingestRequest⟩) ?_ fun h => ?_
    · show (s.setEvent r _).eventRequests.rows.countP _ + calls.rows.countP _ + _ = _
      simp only [Bool.toNat_false, Nat.add_zero] at hsum
      omega
    · exact decide_eq_true (holds_newCall tenantId s.ingest r h)
  | ingest hne hi => exact Ingest.move_step tenantId hI.ingest hi hne
  | stopEvent hr =>
    exact move_setEvent tenantId hr fun h => by simp [EventRequest.holds] at h
  | commitEndpoint => exact .stay _
  | postEndpoint | checkEndpointQuota | register | stopEndpoint => exact .stay _

theorem tenants_of_step (h : step urlparse jsonb settings s a = some t) :
    t.tenants = s.tenants := by
  cases steps_of_step h <;> rfl

/-- In a run whose quota checks let a request through only while there is room for it next to
the requests already let through, a sandbox tenant never has more rows than its caps. -/
theorem caps_hold {tenant : Tenant} {as : List SandboxAction} (hinit : Init s)
    (ht : s.tenants.get tenantId = some tenant) (hs : tenant.isSandbox = true)
    (hok : Transition.Always (step urlparse jsonb settings) (CapOk tenantId settings) s as)
    (h : run urlparse jsonb settings s as = some t) :
    t.db.countEndpoints tenantId ≤ settings.sandboxMaxEndpoints ∧
      t.db.countEvents tenantId ≤ settings.sandboxMaxEvents := by
  have hinv : ∀ s a t, Inv s ∧ s.tenants.get tenantId = some tenant →
      step urlparse jsonb settings s a = some t →
      Inv t ∧ t.tenants.get tenantId = some tenant := by
    intro s a t hI hst
    exact ⟨hI.1.step hst, by rw [tenants_of_step hst, hI.2]⟩
  have hstart : Inv s ∧ s.tenants.get tenantId = some tenant := ⟨inv_init hinit, ht⟩
  have hendpoints : (s.endpointUsage tenantId).Fits settings.sandboxMaxEndpoints := by
    simp [Usage.Fits, endpointUsage, Db.countEndpoints, hinit.endpoints, hinit.endpointRequests]
  have hevents : (s.eventUsage tenantId).Fits settings.sandboxMaxEvents := by
    obtain ⟨hrows, -, hcalls⟩ := hinit.ingest
    simp [Usage.Fits, eventUsage, Ingest.usage, Db.countEvents, hrows, hcalls,
      hinit.eventRequests]
  constructor
  · exact (Reservation.fits_of_run hinv (fun s a t hI hR hst =>
      endpoint_move tenantId hI.1 hI.2 hs hR hst) hstart hendpoints hok h).stored_le
  · exact (Reservation.fits_of_run hinv (fun s a t hI hR hst =>
      event_move tenantId hI.1 hI.2 hs hR hst) hstart hevents hok h).stored_le

def sampleTenant : Tenant :=
  { id := 4, name := PyText.ofString "sandbox-0a1b2c3d", createdAt := 0, isSandbox := true }

/-- A sandbox tenant was provisioned and has made no request yet. -/
def provisioned : Sandbox :=
  ⟨.singleton sampleTenant, fun _ => none, ⟨.empty, .empty⟩, .empty, .empty⟩

/-- What `urlparse` says of the sample's URL. -/
def sampleUrlparse : UrlParse := fun _ => some ⟨PyText.ofString "https", PyText.ofString "a.test"⟩

def sampleSecret : Secret := ⟨PyText.ofString "s3cr3t", by decide⟩

def postSample (i : ℕ) : SandboxAction :=
  .postEndpoint i 4 (PyText.ofString "https://a.test/") [PyText.ofString "order.created"]

def sampleEvent : EventCreate :=
  { type := PyText.ofString "order.created", payload := .null,
    idempotencyKey := PyText.ofString "k", bodyLength := 60 }

/-- Two registrations and an ingest, all under way at once. -/
def interleaved : List SandboxAction :=
  [postSample 0, postSample 1, .checkEndpointQuota 0, .postEvent 0 4 sampleEvent,
    .checkEndpointQuota 1, .rateLimit 0 0 0, .register 1 1 sampleSecret 0, .checkEventQuota 0,
    .register 0 2 sampleSecret 0, .startIngest 0, .commitEndpoint 1, .ingest (.insert 0 3 0),
    .ingest (.createOutbox 0 4 0), .commitEndpoint 0, .ingest (.commit 0)]

theorem caps_hold_sample : ∃ t, run sampleUrlparse id {} provisioned interleaved = some t ∧
    t.db.countEndpoints 4 = 2 ∧ t.db.countEvents 4 = 1 ∧
      t.db.countEndpoints 4 ≤ 3 ∧ t.db.countEvents 4 ≤ 20 := by
  have hrun : (run sampleUrlparse id {} provisioned interleaved).map
      (fun t => (t.db.countEndpoints 4, t.db.countEvents 4)) = some (2, 1) := by decide +kernel
  obtain ⟨t, ht, heq⟩ := Option.map_eq_some_iff.mp hrun
  obtain ⟨hendpoints, hevents⟩ := Prod.mk.inj heq
  refine ⟨t, ht, hendpoints, hevents, ?_⟩
  exact @caps_hold 4 sampleUrlparse id {} provisioned t sampleTenant interleaved
    ⟨⟨rfl, rfl, rfl⟩, rfl, rfl, rfl⟩ rfl rfl (by decide +kernel) ht

/-- Four requests at once: each counts before any of them has inserted. -/
def concurrent : List SandboxAction :=
  (List.range 4).map postSample ++ (List.range 4).map .checkEndpointQuota ++
    (List.range 4).map (fun i => .register i i sampleSecret 0) ++
    (List.range 4).map .commitEndpoint

/-- All four are created, one more than the cap. -/
theorem concurrent_exceeds_cap : Init provisioned ∧
    provisioned.tenants.get 4 = some sampleTenant ∧ sampleTenant.isSandbox = true ∧
    ∃ t, run sampleUrlparse id {} provisioned concurrent = some t ∧
      ({} : Settings).sandboxMaxEndpoints < t.db.countEndpoints 4 := by
  have hrun : (run sampleUrlparse id {} provisioned concurrent).map
      (fun t => t.db.countEndpoints 4) = some 4 := by decide +kernel
  obtain ⟨t, ht, hcount⟩ := Option.map_eq_some_iff.mp hrun
  refine ⟨⟨⟨rfl, rfl, rfl⟩, rfl, rfl, rfl⟩, rfl, rfl, t, ht, ?_⟩
  rw [hcount]
  decide

end Sandbox
end RelayWebhooks
