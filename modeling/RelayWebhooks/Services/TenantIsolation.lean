import RelayWebhooks.Lib.Observation
import RelayWebhooks.Services.Deliveries
import RelayWebhooks.Services.Endpoints

/-! What a tenant's endpoint, dead letter and metrics calls read and write. Each call is an
operation on the tenant's own rows. -/
namespace RelayWebhooks

inductive TenantCall where
  | get (endpointId : UUID)
  | list (cursor : Option PyText) (limit : ℤ)
  | update (endpointId : UUID) (patch : EndpointPatch)
  | delete (endpointId : UUID)
  | listDead (cursor : Option PyText) (limit : ℤ)
  | snapshot (sampleSize : ℤ)

inductive TenantReply where
  | endpoint (endpoint : Endpoint)
  | endpoints (page : Page Endpoint)
  | deleted
  | deadDeliveries (page : Page DeadDeliveryDetail)
  | metrics (metrics : DeliveryMetrics)

section Calls

variable (urlparse : UrlParse) (readers : CursorReaders) (tenantId : UUID)

/-- A call of the services made as the tenant: its result and the database it commits. -/
def TenantCall.handle (db : Db) : TenantCall → Except Raised (TenantReply × Db)
  | get endpointId => do
    let endpoint ← EndpointService.get db endpointId tenantId
    return (.endpoint endpoint, db)
  | list cursor limit => do
    let page ← EndpointService.list db readers tenantId cursor limit
    return (.endpoints page, db)
  | update endpointId patch => do
    let (db', endpoint) ← EndpointService.update db urlparse endpointId tenantId patch
    return (.endpoint endpoint, db')
  | delete endpointId => do
    let db' ← EndpointService.delete db endpointId tenantId
    return (.deleted, db')
  | listDead cursor limit => do
    let page ← DlqService.listDead db readers tenantId cursor limit
    return (.deadDeliveries page, db)
  | snapshot sampleSize => do
    let metrics ← MetricsService.snapshot db tenantId sampleSize
    return (.metrics metrics, db)

/-- The results of a sequence of calls, and the database they leave. -/
def runCalls (db : Db) (calls : List TenantCall) : List (Except Raised TenantReply) × Db :=
  Observation.exec (TenantCall.handle urlparse readers tenantId) db calls

namespace TenantRows

variable (v : TenantRows)

def getEndpoint (endpointId : UUID) : Except Raised Endpoint :=
  match v.endpoint endpointId with
  | none => .error (.endpointNotFoundForTenant tenantId endpointId)
  | some endpoint => .ok endpoint

def updateEndpoint (r : Endpoint) : TenantRows :=
  { v with endpoints := v.endpoints.map fun e => if e.id = r.id then r else e }

def deleteEndpoint (id : UUID) : TenantRows where
  endpoints := v.endpoints.filter fun e => !decide (e.id = id)
  events := v.events
  deliveries := v.deliveries.filter fun d => !decide (d.endpointId = id)
  deliveryAttempts := v.deliveryAttempts.filter fun a =>
    !(v.delivery a.deliveryId).any fun d => d.endpointId = id

def handle : TenantCall → Except Raised (TenantReply × TenantRows)
  | .get endpointId => do
    let endpoint ← v.getEndpoint tenantId endpointId
    return (.endpoint endpoint, v)
  | .list cursor limit => do
    let page ← keysetPage Endpoint.createdAt Endpoint.id readers v.endpoints cursor limit
    return (.endpoints page, v)
  | .update endpointId patch => do
    patch.validate urlparse
    let endpoint ← v.getEndpoint tenantId endpointId
    if patch.isStorable then
      return (.endpoint (patch.apply endpoint), v.updateEndpoint (patch.apply endpoint))
    else .error .database
  | .delete endpointId => do
    let _existing ← v.getEndpoint tenantId endpointId
    return (.deleted, v.deleteEndpoint endpointId)
  | .listDead cursor limit => do
    let page ← keysetPage Delivery.createdAt Delivery.id readers v.deadDeliveries cursor limit
    return (.deadDeliveries (page.mapItems fun d => ⟨d, v.listForDelivery d.id⟩), v)
  | .snapshot sampleSize => do
    let recent ← Db.newestAttempts v.deliveryAttempts sampleSize
    return (.metrics (MetricsService.summarize (v.countByStates [.pending, .retrying])
      (v.countByStates [.retrying]) recent), v)

end TenantRows

end Calls

namespace Db

variable {db : Db} {tenantId : UUID}

theorem tenantRows_updateEndpoint {e r : Endpoint} (h : db.endpoints.get r.id = some e)
    (htenant : r.tenantId = e.tenantId) (tenantId : UUID) :
    Db.tenantRows { db with endpoints := db.endpoints.update r } tenantId =
      (db.tenantRows tenantId).updateEndpoint r := by
  have hsel : (db.endpoints.update r).select (fun e => decide (e.tenantId = tenantId)) =
      (db.endpoints.select fun e => e.tenantId = tenantId).map
        fun e => if e.id = r.id then r else e :=
    Table.select_update h (by rw [htenant])
  unfold tenantRows TenantRows.updateEndpoint
  simp only [hsel]
  rfl

theorem ownsDelivery_deleteEndpoint (id deliveryId : UUID) :
    (db.deleteEndpoint id).ownsDelivery tenantId deliveryId =
      (db.ownsDelivery tenantId deliveryId &&
        !(db.deliveries.get deliveryId).any fun d => d.endpointId = id) := by
  unfold ownsDelivery deleteEndpoint
  simp only [Table.get_deleteWhere]
  cases db.deliveries.get deliveryId with
  | none => rfl
  | some d => by_cases h : d.endpointId = id <;> simp [Option.filter, h, ownsEvent]

/-- The cascade takes from each tenant its deliveries to the endpoint and their attempts. -/
theorem tenantRows_deleteEndpoint (id tenantId : UUID) :
    (db.deleteEndpoint id).tenantRows tenantId = (db.tenantRows tenantId).deleteEndpoint id := by
  have hendpoints := Table.select_deleteWhere db.endpoints (fun e => e.tenantId = tenantId)
    fun e => e.id = id
  have hdeliveries := Table.select_deleteWhere db.deliveries
    (fun d => db.ownsEvent tenantId d.eventId) fun d => d.endpointId = id
  have hattempts : (db.deleteEndpoint id).deliveryAttempts.select
      (fun a => (db.deleteEndpoint id).ownsDelivery tenantId a.deliveryId) =
        (db.deliveryAttempts.select fun a => db.ownsDelivery tenantId a.deliveryId).filter
          fun a => !((db.tenantRows tenantId).delivery a.deliveryId).any
            fun d => d.endpointId = id := by
    have htable : (db.deleteEndpoint id).deliveryAttempts = db.deliveryAttempts.deleteWhere
        fun a => (db.deliveries.get a.deliveryId).any fun d => d.endpointId = id := rfl
    rw [htable, Table.select_deleteWhere]
    simp only [ownsDelivery_deleteEndpoint, Table.select, List.filter_filter, tenantRows_delivery]
    refine List.filter_congr fun a _ => ?_
    unfold ownsDelivery
    cases db.deliveries.get a.deliveryId with
    | none => rfl
    | some d =>
      cases howns : db.ownsEvent tenantId d.eventId <;> simp [Option.filter, howns]
  unfold tenantRows TenantRows.deleteEndpoint
  exact TenantRows.mk.injEq .. |>.mpr ⟨hendpoints, rfl, hdeliveries, hattempts⟩

/-- A delivery pairs an event and an endpoint of one tenant. -/
def Paired (db : Db) : Prop :=
  ∀ d ∈ db.deliveries.rows, ∀ ev e, db.events.get d.eventId = some ev →
    db.endpoints.get d.endpointId = some e → ev.tenantId = e.tenantId

theorem Paired.updateEndpoint (h : db.Paired) {e r : Endpoint}
    (he : db.endpoints.get r.id = some e) (htenant : r.tenantId = e.tenantId) :
    Db.Paired { db with endpoints := db.endpoints.update r } := by
  intro d hd ev e' hev he'
  by_cases hk : d.endpointId = r.id
  · have hr : (db.endpoints.update r).get d.endpointId = some r :=
      Table.get_update_of_get hk.symm (hk ▸ he)
    obtain rfl := Option.some.inj (hr.symm.trans he')
    rw [htenant]
    exact h d hd ev e hev (hk ▸ he)
  · exact h d hd ev e' hev ((Table.get_update_ne _ hk).symm.trans he')

theorem Paired.deleteEndpoint (h : db.Paired) (id : UUID) : (db.deleteEndpoint id).Paired := by
  intro d hd ev e hev he
  have hget := Table.get_deleteWhere db.endpoints (fun e => e.id = id) d.endpointId
  have hold := Option.filter_eq_some_iff.mp (hget.symm.trans he)
  exact h d (List.mem_of_mem_filter hd) ev e hev hold.1

theorem endpoint_id_ne {id : UUID} {e x : Endpoint} (he : db.endpoints.get id = some e)
    (hne : e.tenantId ≠ tenantId) (hx : x ∈ (db.tenantRows tenantId).endpoints) : x.id ≠ id := by
  obtain ⟨hx, hT⟩ := List.mem_filter.mp hx
  have hxe : db.endpoints.get x.id = some x := Table.get_of_mem hx
  rintro rfl
  obtain rfl := Option.some.inj (he.symm.trans hxe)
  exact hne (of_decide_eq_true hT)

theorem tenantRows_updateEndpoint_other {e r : Endpoint}
    (he : db.endpoints.get r.id = some e) (hne : e.tenantId ≠ tenantId) :
    (db.tenantRows tenantId).updateEndpoint r = db.tenantRows tenantId := by
  have hid : ∀ x ∈ (db.tenantRows tenantId).endpoints, (if x.id = r.id then r else x) = x :=
    fun x hx => if_neg (endpoint_id_ne he hne hx)
  unfold TenantRows.updateEndpoint
  rw [List.map_congr_left hid, List.map_id']

theorem tenantRows_deleteEndpoint_other (hpaired : db.Paired) {id : UUID} {e : Endpoint}
    (he : db.endpoints.get id = some e) (hne : e.tenantId ≠ tenantId) :
    (db.tenantRows tenantId).deleteEndpoint id = db.tenantRows tenantId := by
  have hdeliveries : ∀ d ∈ (db.tenantRows tenantId).deliveries, d.endpointId ≠ id := by
    rintro d hd rfl
    obtain ⟨hd, howns⟩ := mem_tenantRows_deliveries.mp hd
    obtain ⟨ev, hev, hT⟩ := ownsEvent_iff.mp howns
    exact hne ((hpaired d hd ev e hev he).symm.trans hT)
  have hattempts : ∀ a : DeliveryAttempt,
      (!((db.tenantRows tenantId).delivery a.deliveryId).any fun d => d.endpointId = id) =
        true := by
    intro a
    cases hd : (db.tenantRows tenantId).delivery a.deliveryId with
    | none => rfl
    | some d => simp [hdeliveries d (List.mem_of_find?_eq_some hd)]
  unfold TenantRows.deleteEndpoint
  rw [List.filter_eq_self.mpr fun x hx => by simp [endpoint_id_ne he hne hx],
    List.filter_eq_self.mpr fun d hd => by simp [hdeliveries d hd],
    List.filter_eq_self.mpr fun a _ => hattempts a]

end Db

theorem EndpointService.get_eq (db : Db) (endpointId tenantId : UUID) :
    EndpointService.get db endpointId tenantId =
      (db.tenantRows tenantId).getEndpoint tenantId endpointId := by
  unfold EndpointService.get TenantRows.getEndpoint
  rw [Db.tenantRows_endpoint]
  cases db.endpoints.get endpointId with
  | none => rfl
  | some e => by_cases h : e.tenantId = tenantId <;> simp [Option.filter, h]

theorem EndpointService.get_ok {db : Db} {endpointId tenantId : UUID} {e : Endpoint}
    (h : EndpointService.get db endpointId tenantId = .ok e) :
    db.endpoints.get endpointId = some e ∧ e.tenantId = tenantId := by
  unfold EndpointService.get at h
  split at h
  next => cases h
  next hget =>
    split at h
    next => cases h
    next hT => cases h; exact ⟨hget, not_not.mp hT⟩

section Refinement

variable {urlparse : UrlParse} {readers : CursorReaders} {tenantId : UUID} {db : Db}

/-- An accepted update writes one row of the tenant. -/
theorem EndpointService.update_ok {endpointId : UUID} {patch : EndpointPatch} {db' : Db}
    {endpoint : Endpoint}
    (h : EndpointService.update db urlparse endpointId tenantId patch = .ok (db', endpoint)) :
    ∃ e, db.endpoints.get endpointId = some e ∧ e.tenantId = tenantId ∧
      endpoint = patch.apply e ∧ db' = { db with endpoints := db.endpoints.update endpoint } := by
  obtain ⟨_, -, h⟩ := bind_ok h
  obtain ⟨e, hget, h⟩ := bind_ok h
  obtain ⟨he, hT⟩ := EndpointService.get_ok hget
  split at h
  next =>
    rw [Db.writeEndpoint_of_get _ he] at h
    cases h
    exact ⟨e, he, hT, rfl, rfl⟩
  next => cases h

theorem EndpointService.delete_ok {endpointId : UUID} {db' : Db}
    (h : EndpointService.delete db endpointId tenantId = .ok db') :
    ∃ e, db.endpoints.get endpointId = some e ∧ e.tenantId = tenantId ∧
      db' = db.deleteEndpoint endpointId := by
  obtain ⟨e, hget, h⟩ := bind_ok h
  obtain ⟨he, hT⟩ := EndpointService.get_ok hget
  cases h
  exact ⟨e, he, hT, rfl⟩

theorem handle_update_eq (endpointId : UUID) (patch : EndpointPatch) :
    (db.tenantRows tenantId).handle urlparse readers tenantId (.update endpointId patch) =
      (TenantCall.handle urlparse readers tenantId db (.update endpointId patch)).map
        fun r => (r.1, r.2.tenantRows tenantId) := by
  simp only [TenantRows.handle, TenantCall.handle, EndpointService.update,
    ← EndpointService.get_eq]
  cases patch.validate urlparse with
  | error err => rfl
  | ok _ =>
    cases hget : EndpointService.get db endpointId tenantId with
    | error err => rfl
    | ok e =>
      obtain ⟨he, hT⟩ := EndpointService.get_ok hget
      have hkey : db.endpoints.get (patch.apply e).id = some e := by
        rw [EndpointPatch.apply_id, ← Endpoint.key_eq, Table.key_of_get he]
        exact he
      have hrows := Db.tenantRows_updateEndpoint hkey rfl tenantId
      cases patch.isStorable with
      | false => rfl
      | true =>
        simp only [if_true, Db.writeEndpoint_of_get _ he]
        exact congrArg (fun v => Except.ok (TenantReply.endpoint (patch.apply e), v)) hrows.symm

/-- What a tenant's call answers and leaves to it is determined by the tenant's rows. -/
theorem handle_refines :
    Observation.Refines (TenantCall.handle urlparse readers tenantId)
      (TenantRows.handle urlparse readers tenantId) fun db => db.tenantRows tenantId := by
  intro db call
  cases call with
  | get endpointId =>
    simp only [TenantRows.handle, TenantCall.handle, ← EndpointService.get_eq]
    cases EndpointService.get db endpointId tenantId <;> rfl
  | list cursor limit =>
    have hpage : db.listEndpoints readers tenantId cursor limit = keysetPage Endpoint.createdAt
      Endpoint.id readers (db.tenantRows tenantId).endpoints cursor limit := rfl
    simp only [TenantRows.handle, TenantCall.handle, EndpointService.list, ← hpage]
    cases db.listEndpoints readers tenantId cursor limit <;> rfl
  | update endpointId patch => exact handle_update_eq endpointId patch
  | delete endpointId =>
    simp only [TenantRows.handle, TenantCall.handle, EndpointService.delete,
      ← EndpointService.get_eq, ← Db.tenantRows_deleteEndpoint]
    cases EndpointService.get db endpointId tenantId <;> rfl
  | listDead cursor limit =>
    simp only [TenantRows.handle, TenantCall.handle, DlqService.listDead, Db.listDead,
      Db.deadDeliveries_eq]
    cases hpage : keysetPage Delivery.createdAt Delivery.id readers
        (db.tenantRows tenantId).deadDeliveries cursor limit with
    | error err => rfl
    | ok page =>
      have hitems : page.mapItems (fun d => ⟨d, (db.tenantRows tenantId).listForDelivery d.id⟩) =
          page.mapItems fun d => DeadDeliveryDetail.mk d (db.listForDelivery d.id) := by
        unfold Page.mapItems
        congr 1
        refine List.map_congr_left fun d hd => ?_
        have hown := List.mem_of_mem_filter (mem_keysetPage hpage hd)
        rw [Db.listForDelivery_eq hown]
      exact congrArg (fun p => Except.ok (TenantReply.deadDeliveries p, db.tenantRows tenantId))
        hitems
  | snapshot sampleSize =>
    have hrecent : db.recentForTenant tenantId sampleSize =
      Db.newestAttempts (db.tenantRows tenantId).deliveryAttempts sampleSize := rfl
    simp only [TenantRows.handle, TenantCall.handle, MetricsService.snapshot,
      Db.countByStates_eq, hrecent]
    cases Db.newestAttempts (db.tenantRows tenantId).deliveryAttempts sampleSize <;> rfl

/-- A call that succeeds reads only, overwrites an endpoint of the tenant or deletes one. -/
theorem handle_writes {call : TenantCall} {reply : TenantReply} {db' : Db}
    (h : call.handle urlparse readers tenantId db = .ok (reply, db')) :
    db' = db ∨
      ∃ e, db.endpoints.get e.id = some e ∧ e.tenantId = tenantId ∧
        ((∃ patch : EndpointPatch,
            db' = { db with endpoints := db.endpoints.update (patch.apply e) }) ∨
          db' = db.deleteEndpoint e.id) := by
  cases call with
  | update endpointId patch =>
    obtain ⟨⟨_, _⟩, hupdate, h⟩ := bind_ok h
    obtain ⟨e, he, hT, rfl, rfl⟩ := EndpointService.update_ok hupdate
    cases h
    obtain rfl : e.id = endpointId := Table.key_of_get he
    exact .inr ⟨e, he, hT, .inl ⟨patch, rfl⟩⟩
  | delete endpointId =>
    obtain ⟨_, hdelete, h⟩ := bind_ok h
    obtain ⟨e, he, hT, rfl⟩ := EndpointService.delete_ok hdelete
    cases h
    obtain rfl : e.id = endpointId := Table.key_of_get he
    exact .inr ⟨e, he, hT, .inr rfl⟩
  | get | list | listDead | snapshot =>
    obtain ⟨_, -, h⟩ := bind_ok h
    cases h
    exact .inl rfl

/-- A call keeps the rows of every other tenant and the outbox. -/
theorem handle_frame {other : UUID} (hne : other ≠ tenantId) {call : TenantCall}
    {reply : TenantReply} {db' : Db} (hpaired : db.Paired)
    (h : call.handle urlparse readers tenantId db = .ok (reply, db')) :
    db'.Paired ∧ (db'.tenantRows other, db'.outbox) = (db.tenantRows other, db.outbox) := by
  rcases handle_writes h with rfl | ⟨e, he, rfl, ⟨patch, rfl⟩ | rfl⟩
  · exact ⟨hpaired, rfl⟩
  · have hrows := (Db.tenantRows_updateEndpoint (r := patch.apply e) he rfl other).trans
      (Db.tenantRows_updateEndpoint_other he hne.symm)
    exact ⟨hpaired.updateEndpoint he rfl, congrArg (·, db.outbox) hrows⟩
  · have hrows := (Db.tenantRows_deleteEndpoint e.id other).trans
      (Db.tenantRows_deleteEndpoint_other hpaired he hne.symm)
    exact ⟨hpaired.deleteEndpoint e.id, congrArg (·, db.outbox) hrows⟩

end Refinement

/-- Calls made as one tenant are answered alike over databases that differ in rows of other
tenants, and leave the rows of every other tenant as they were. -/
theorem calls_isolate_tenants (urlparse : UrlParse) (readers : CursorReaders) (tenantId : UUID)
    (calls : List TenantCall) (db db' : Db) (hagree : Db.AgreeOn tenantId db db')
    (hpaired : db.Paired) :
    (runCalls urlparse readers tenantId db calls).1 =
        (runCalls urlparse readers tenantId db' calls).1 ∧
      ∀ other, other ≠ tenantId →
        (runCalls urlparse readers tenantId db calls).2.tenantRows other = db.tenantRows other ∧
          (runCalls urlparse readers tenantId db calls).2.outbox = db.outbox := by
  constructor
  · exact handle_refines.noninterference hagree calls
  · intro other hne
    have hframe : ∀ db call reply db', Db.Paired db →
        TenantCall.handle urlparse readers tenantId db call = .ok (reply, db') →
          db'.Paired ∧ (db'.tenantRows other, db'.outbox) = (db.tenantRows other, db.outbox) :=
      fun _ _ _ _ hpaired h => handle_frame hne hpaired h
    exact Prod.mk.inj (Observation.exec_frame (I := Db.Paired)
      (f := fun db => (db.tenantRows other, db.outbox)) hframe calls hpaired)

/-- An endpoint of a tenant and a dead delivery to it, with the keys from `base` on. -/
def sampleRows (tenantId base : UUID) : Event × Endpoint × Delivery :=
  ({ id := base, tenantId, type := [0x74], payload := .obj [], idempotencyKey := [0x6b],
     createdAt := 0 },
    { id := base + 1, tenantId, url := PyText.ofString "https://example.com/hook",
      secret := Db.othersSecret, subscribedEventTypes := [[0x74]], createdAt := 0 },
    { id := base + 2, eventId := base, endpointId := base + 1, state := .dead, attemptCount := 0,
      createdAt := 0 })

/-- The rows of tenant 8 among those of tenant 9. -/
def sharedDb : Db :=
  { Db.empty with
    events := ⟨[(sampleRows 9 1).1, (sampleRows 8 11).1], by decide⟩
    endpoints := ⟨[(sampleRows 9 1).2.1, (sampleRows 8 11).2.1], by decide⟩
    deliveries := ⟨[(sampleRows 9 1).2.2, (sampleRows 8 11).2.2], by decide⟩ }

/-- The rows of tenant 8. -/
def ownDb : Db := .single (sampleRows 8 11).1 (sampleRows 8 11).2.1 (sampleRows 8 11).2.2

def sampleCalls : List TenantCall :=
  [.get 2, .get 12, .listDead none 50, .snapshot 200, .delete 2, .delete 12, .listDead none 50]

theorem sharedDb_paired : sharedDb.Paired := by
  have htenants : ∀ d ∈ sharedDb.deliveries.rows,
      (sharedDb.events.get d.eventId).map (·.tenantId) =
        (sharedDb.endpoints.get d.endpointId).map (·.tenantId) := by decide
  intro d hd ev e hev he
  have hsame := htenants d hd
  rw [hev, he] at hsame
  exact Option.some.inj hsame

theorem calls_isolate_tenants_sample :
    let readers : CursorReaders := ⟨fun _ => none, fun _ => none, fun _ => none⟩
    (runCalls (fun _ => none) readers 8 sharedDb sampleCalls).1 =
        (runCalls (fun _ => none) readers 8 ownDb sampleCalls).1 ∧
      (runCalls (fun _ => none) readers 8 sharedDb sampleCalls).2.tenantRows 9 =
        sharedDb.tenantRows 9 := by
  obtain ⟨hreplies, hothers⟩ := calls_isolate_tenants (fun _ => none)
    ⟨fun _ => none, fun _ => none, fun _ => none⟩ 8 sampleCalls sharedDb ownDb rfl sharedDb_paired
  exact ⟨hreplies, (hothers 9 (by decide)).1⟩

end RelayWebhooks
