import RelayWebhooks.Pipeline.Ledger

/-! Tenants share the outbox, the stream, the workers and the retry queue; no interleaving of them
brings the event of one tenant to the endpoint of another. -/
namespace RelayWebhooks

/-- Every endpoint was there before, under the same key and the same tenant. -/
def Db.SameTenants (db db' : Db) : Prop :=
  ∀ e ∈ db'.endpoints.rows, ∃ e₀ ∈ db.endpoints.rows, e₀.id = e.id ∧ e₀.tenantId = e.tenantId

namespace Db.SameTenants

variable {db db' db'' : Db}

theorem of_eq (h : db'.endpoints = db.endpoints) : db.SameTenants db' :=
  fun e he => ⟨e, h ▸ he, rfl, rfl⟩

theorem trans (h : db.SameTenants db') (h' : db'.SameTenants db'') : db.SameTenants db'' := by
  intro e he
  obtain ⟨e₁, he₁, hid₁, ht₁⟩ := h' e he
  obtain ⟨e₀, he₀, hid₀, ht₀⟩ := h e₁ he₁
  exact ⟨e₀, he₀, hid₀.trans hid₁, ht₀.trans ht₁⟩

/-- A write to the breaker columns. -/
theorem writeEndpoint {f : Endpoint → Endpoint} {id : UUID} {e : Endpoint}
    (hf : ∀ x, (f x).id = x.id ∧ (f x).tenantId = x.tenantId)
    (h : db.writeEndpoint f id = .ok (db', e)) : db.SameTenants db' := by
  obtain ⟨e₀, he₀, rfl⟩ := Db.writeEndpoint_ok h
  intro x hx
  rcases Table.mem_update hx with rfl | ⟨hx, -⟩
  · exact ⟨e₀, Table.mem_of_get he₀, (hf e₀).1.symm, (hf e₀).2.symm⟩
  · exact ⟨x, hx, rfl, rfl⟩

end Db.SameTenants

namespace DeliveryAttemptService

theorem sameTenants_flipIfOpen {db db' : Db} {e e' : Endpoint}
    (h : flipIfOpen db e = .ok (db', e')) : db.SameTenants db' := by
  unfold flipIfOpen at h
  split at h
  next =>
    unfold Db.setBreakerState at h
    exact .writeEndpoint (fun _ => by exact ⟨rfl, rfl⟩) h
  next =>
    cases h
    exact .of_eq rfl

/-- An attempt writes the breaker of its endpoint and nothing else of it. -/
theorem sameTenants_finishAttempt {env : AttemptEnv}
    {send : OutboundRequest → OutboundHttpResult} {db db' : Db} {d row : Delivery} {ev : Event}
    {e : Endpoint} (h : finishAttempt env send db d ev e = .ok (db', row)) :
    db.SameTenants db' := by
  unfold finishAttempt at h
  split at h
  next =>
    obtain ⟨d₀, -, -, rfl⟩ := Db.writeDelivery_ok h
    exact .of_eq rfl
  next =>
    obtain ⟨⟨db₁, e₁⟩, hflip, h⟩ := bind_ok h
    obtain ⟨request, -, h⟩ := bind_ok h
    obtain ⟨⟨db₂, e₂⟩, hrec, h⟩ := bind_ok h
    obtain ⟨⟨db₃, a⟩, hlog, h⟩ := bind_ok h
    obtain ⟨w, -, h⟩ := bind_ok h
    obtain ⟨log, -, rfl, -⟩ := Db.createDeliveryAttempt_ok hlog
    obtain ⟨d₀, -, -, rfl⟩ := Db.writeDelivery_ok h
    have hflip := sameTenants_flipIfOpen hflip
    unfold Db.recordDeliveryOutcome at hrec
    have hrec : db₁.SameTenants db₂ := .writeEndpoint (fun _ => by exact ⟨rfl, rfl⟩) hrec
    exact (hflip.trans hrec).trans (.of_eq rfl)

end DeliveryAttemptService

namespace Pipeline
open DeliveryAttemptService

variable {le : RetryMember → RetryMember → Bool} {s t : Pipeline} {a : PipelineAction}
  {owner : UUID → UUID}

/-- Endpoints are registered under their owner and never change hands. -/
def Owns (owner : UUID → UUID) : PipelineAction → Prop
  | .putEndpoint e => e.tenantId = owner e.id
  | _ => True

/-- The delivery brings an event of the tenant that owns its endpoint. -/
def Matches (owner : UUID → UUID) (events : Table Event) (d : Delivery) : Prop :=
  ∃ ev, events.get d.eventId = some ev ∧ ev.tenantId = owner d.endpointId

/-- The fan-out of a stored event goes to endpoints of its tenant. -/
def FansWithin (owner : UUID → UUID) (events : Table Event) (ev : Event)
    (targets : List Endpoint) : Prop :=
  events.get ev.id = some ev ∧ ∀ e ∈ targets, ev.tenantId = owner e.id

def PointInTenant (owner : UUID → UUID) (events : Table Event) : RelayPoint → Prop
  | .between => True
  | .fanOut _ ev targets => FansWithin owner events ev targets
  | .publishing _ ev targets d => FansWithin owner events ev targets ∧ Matches owner events d

structure TxInTenant (owner : UUID → UUID) (events : Table Event) (tx : RelayTx) : Prop where
  point : PointInTenant owner events tx.point
  created : ∀ d ∈ tx.created, Matches owner events d

/-- An attempt at the delivery is open, with the event and the endpoint it has read. -/
def Attempting (s : Pipeline) (d : Delivery) (ev : Event) (e : Endpoint) : Prop :=
  ∃ i w kind, s.handlers i = some ⟨w, kind, .attempting d ev e⟩

/-- An open attempt holds the stored event of its delivery, and an endpoint under its key. -/
def HoldsStored (s : Pipeline) : Prop :=
  ∀ d ev e, s.Attempting d ev e → s.db.events.get d.eventId = some ev ∧ e.id = d.endpointId

structure InTenant (owner : UUID → UUID) (s : Pipeline) : Prop where
  endpoints : ∀ e ∈ s.db.endpoints.rows, e.tenantId = owner e.id
  rows : ∀ d ∈ s.db.deliveries.rows, Matches owner s.db.events d
  txs : ∀ tx ∈ s.relays.rows, TxInTenant owner s.db.events tx
  attempts : ∀ d ev e, s.Attempting d ev e → e.tenantId = ev.tenantId

def Keeps (events events' : Table Event) : Prop :=
  ∀ id ev, events.get id = some ev → events'.get id = some ev

theorem Keeps.of_eq {events events' : Table Event} (h : events' = events) : Keeps events events' :=
  fun _ _ hev => h ▸ hev

theorem Matches.mono {events events' : Table Event} (h : Keeps events events') {d : Delivery}
    (hd : Matches owner events d) : Matches owner events' d := by
  obtain ⟨ev, hev, ht⟩ := hd
  exact ⟨ev, h _ _ hev, ht⟩

theorem Matches.of_parents {events : Table Event} {d d₀ : Delivery} (hd : Matches owner events d₀)
    (hev : d₀.eventId = d.eventId) (he : d₀.endpointId = d.endpointId) :
    Matches owner events d := by
  obtain ⟨ev, hget, ht⟩ := hd
  exact ⟨ev, hev ▸ hget, he ▸ ht⟩

theorem TxInTenant.mono {events events' : Table Event} (h : Keeps events events') {tx : RelayTx}
    (htx : TxInTenant owner events tx) : TxInTenant owner events' tx := by
  refine ⟨?_, fun d hd => (htx.created d hd).mono h⟩
  have hpoint := htx.point
  cases hp : tx.point with
  | between => trivial
  | fanOut o ev targets =>
    rw [hp] at hpoint
    exact ⟨h _ _ hpoint.1, hpoint.2⟩
  | publishing o ev targets d =>
    rw [hp] at hpoint
    exact ⟨⟨h _ _ hpoint.1.1, hpoint.1.2⟩, hpoint.2.mono h⟩

theorem commitAttempt_db {i : ℕ} {env : AttemptEnv} {send : OutboundRequest → OutboundHttpResult}
    (h : s.commitAttempt i env send = some t) :
    t.db = s.db ∨ ∃ d ev e row, finishAttempt env send s.db d ev e = .ok (t.db, row) := by
  unfold Pipeline.commitAttempt at h
  split at h
  next w kind d ev e hh =>
    split at h
    next db row hfin =>
      obtain rfl := Option.some.inj h
      exact .inr ⟨d, ev, e, row, hfin⟩
    next =>
      obtain rfl := Option.some.inj h
      exact .inl rfl
  next => cases h

/-- What a relay does before the commit of its transaction. -/
def inTransaction : PipelineAction → Bool
  | .claimDue .. | .openEntry .. | .createDelivery .. | .publish .. | .closeEntry ..
  | .rollback .. => true
  | _ => false

/-- An open transaction writes nothing before its commit. -/
theorem db_of_inTransaction (h : s.step le a = some t) (ha : inTransaction a = true) :
    t.db = s.db := by
  cases a with
  | claimDue r now limit =>
    obtain ⟨relays, -, rfl⟩ := Option.map_eq_some_iff.mp h
    rfl
  | openEntry r =>
    simp only [step, Pipeline.openEntry] at h
    split at h
    next =>
      split at h
      next => exact Option.some.inj h ▸ rfl
      next => exact Option.some.inj h ▸ rfl
    next => cases h
  | createDelivery r id createdAt =>
    simp only [step, Pipeline.createDelivery] at h
    split at h
    next =>
      split at h
      next => cases h
      next =>
        split at h
        next => exact Option.some.inj h ▸ rfl
        next => exact Option.some.inj h ▸ rfl
    next => cases h
  | publish r => exact db_of_leavesDb h rfl
  | closeEntry r =>
    simp only [step, Pipeline.closeEntry] at h
    split at h
    next => exact Option.some.inj h ▸ rfl
    next => cases h
  | rollback r =>
    obtain ⟨tx, -, rfl⟩ := Option.map_eq_some_iff.mp h
    rfl
  | _ => cases ha

theorem ingest_frame {event : Event} {outboxId : UUID} {createdAt : ℤ}
    (h : s.ingest event outboxId createdAt = some t) :
    t.db.endpoints = s.db.endpoints ∧ t.db.deliveries = s.db.deliveries ∧
      t.db.deliveryAttempts = s.db.deliveryAttempts ∧ t.relays = s.relays := by
  unfold Pipeline.ingest at h
  split at h
  next events db o hev ho =>
    obtain ⟨outbox, -, rfl, -⟩ := Db.createOutboxEntry_ok ho
    obtain rfl := Option.some.inj h
    exact ⟨rfl, rfl, rfl, rfl⟩
  next => cases h

theorem commitRelay_frame {r : ℕ} (h : s.commitRelay r = some t) :
    t.db.endpoints = s.db.endpoints ∧ t.db.deliveryAttempts = s.db.deliveryAttempts := by
  unfold Pipeline.commitRelay at h
  split at h
  next =>
    obtain ⟨deliveries, -, rfl⟩ := Option.map_eq_some_iff.mp h
    exact ⟨rfl, rfl⟩
  next => cases h

theorem keeps_step (h : s.step le a = some t) : Keeps s.db.events t.db.events := by
  by_cases hout : onOutbox a = true
  · cases a with
    | ingest event outboxId createdAt =>
      simp only [step, Pipeline.ingest] at h
      split at h
      next events db o hev ho =>
        obtain ⟨outbox, -, rfl, -⟩ := Db.createOutboxEntry_ok ho
        obtain rfl := Option.some.inj h
        exact fun _ _ => Table.get_insert_of_get hev
      next => cases h
    | commitRelay r =>
      obtain ⟨claimed, created, -, hw⟩ := Traced.commitRelay_ok h
      exact .of_eq hw.events
    | claimDue | openEntry | createDelivery | publish | closeEntry | rollback =>
      exact .of_eq (congrArg Db.events (db_of_inTransaction h rfl))
    | _ => cases hout
  · exact .of_eq (quiet_step h (by simpa using hout)).events

theorem endpoints_step (howned : ∀ e ∈ s.db.endpoints.rows, e.tenantId = owner e.id)
    (hn : Owns owner a) (h : s.step le a = some t) :
    ∀ e ∈ t.db.endpoints.rows, e.tenantId = owner e.id := by
  have hsame : s.db.SameTenants t.db → ∀ e ∈ t.db.endpoints.rows, e.tenantId = owner e.id := by
    intro hs e he
    obtain ⟨e₀, he₀, hid, ht⟩ := hs e he
    rw [← ht, ← hid]
    exact howned e₀ he₀
  by_cases hdb : leavesDb a = true
  · exact hsame (.of_eq (congrArg Db.endpoints (db_of_leavesDb h hdb)))
  cases a with
  | putEndpoint e =>
    obtain rfl := Option.some.inj h
    unfold Pipeline.putEndpoint
    split
    next endpoints hins =>
      intro x hx
      have hx : x ∈ endpoints.rows := hx
      rw [(Table.insert_eq_some.mp hins).2, List.mem_append, List.mem_singleton] at hx
      rcases hx with hx | rfl
      · exact howned x hx
      · exact hn
    next =>
      intro x hx
      rcases Table.mem_update hx with rfl | ⟨hx, -⟩
      · exact hn
      · exact howned x hx
  | deleteEndpoint id =>
    simp only [step, Pipeline.deleteEndpoint] at h
    split at h
    next => cases h
    next =>
      obtain rfl := Option.some.inj h
      exact fun e he => howned e (List.mem_filter.mp he).1
  | commitAttempt i env send =>
    rcases commitAttempt_db h with heq | ⟨d, ev, e, row, hfin⟩
    · exact hsame (.of_eq (congrArg Db.endpoints heq))
    · exact hsame (sameTenants_finishAttempt hfin)
  | replay id tenantId =>
    obtain ⟨d, ev, row, -, -, -, -, rfl⟩ := replay_some h
    exact howned
  | ingest =>
    exact hsame (.of_eq (ingest_frame h).1)
  | commitRelay r =>
    exact hsame (.of_eq (commitRelay_frame h).1)
  | claimDue | openEntry | createDelivery | closeEntry | rollback =>
    exact hsame (.of_eq (congrArg Db.endpoints (db_of_inTransaction h rfl)))
  | _ => exact absurd rfl hdb

/-- An attempt that opens has read its rows by their keys. -/
theorem beginAttempt_opens {i w : ℕ} {kind : WorkerKind} {d : Delivery} {ev : Event} {e : Endpoint}
    (h : s.beginAttempt i = some t) (hi : t.handlers i = some ⟨w, kind, .attempting d ev e⟩) :
    ∃ id, loadRows s.db id = .ok (d, ev, e) := by
  unfold Pipeline.beginAttempt at h
  split at h
  next w' kind' m hh hm =>
    split at h
    next => cases h
    next =>
      split at h
      next d' ev' e' hload =>
        obtain rfl := Option.some.inj h
        rw [setHandler_self] at hi
        cases hi
        exact ⟨_, hload⟩
      next =>
        obtain rfl := Option.some.inj h
        rw [setHandler_self] at hi
        exact (afterError_ne_attempting _ _ hi).elim
  next => cases h

theorem commitAttempt_closes {i w : ℕ} {kind : WorkerKind} {d : Delivery} {ev : Event}
    {e : Endpoint} {env : AttemptEnv} {send : OutboundRequest → OutboundHttpResult}
    (h : s.commitAttempt i env send = some t) :
    t.handlers i ≠ some ⟨w, kind, .attempting d ev e⟩ := by
  unfold Pipeline.commitAttempt at h
  split at h
  next =>
    split at h
    next =>
      obtain rfl := Option.some.inj h
      intro hi
      have hself : (s.setHandler i _).handlers i = _ := hi
      rw [setHandler_self] at hself
      cases congrArg Handler.phase (Option.some.inj hself)
    next =>
      obtain rfl := Option.some.inj h
      rw [setHandler_self]
      exact afterError_ne_attempting _ _
  next => cases h

/-- An open attempt was open before, or has just read its rows. -/
theorem attempting_step (h : s.step le a = some t) {d : Delivery} {ev : Event} {e : Endpoint}
    (ht : t.Attempting d ev e) :
    s.Attempting d ev e ∨ ∃ id, loadRows s.db id = .ok (d, ev, e) := by
  obtain ⟨i, w, kind, hi⟩ := ht
  cases holds_step h hi with
  | kept hk => exact .inl ⟨i, w, kind, hk⟩
  | moved hk hkind hadv =>
    cases hadv with
    | begin => exact .inr (beginAttempt_opens h hi)
    | commit env send => exact (commitAttempt_closes h hi).elim
    | schedule _ hphase => cases hphase
  | read _ hk => cases congrArg Handler.phase hk
  | claimed _ hk => cases congrArg Handler.phase hk

theorem holdsStored_init (h : Init s) : HoldsStored s := by
  obtain ⟨-, -, -, -, hh⟩ := h
  rintro d ev e ⟨i, w, kind, hi⟩
  rw [hh] at hi
  cases hi

theorem HoldsStored.step (hS : HoldsStored s) (h : s.step le a = some t) : HoldsStored t := by
  intro d ev e ht
  have hbefore : s.db.events.get d.eventId = some ev ∧ e.id = d.endpointId := by
    rcases attempting_step h ht with hs | ⟨id, hload⟩
    · exact hS d ev e hs
    · obtain ⟨-, hev, he⟩ := loadRows_ok hload
      exact ⟨hev, Table.key_of_get he⟩
  exact ⟨keeps_step h _ _ hbefore.1, hbefore.2⟩

/-- The rows an attempt opens with are within one tenant, because the delivery is. -/
theorem InTenant.loadRows (hI : InTenant owner s) {id : UUID} {d : Delivery} {ev : Event}
    {e : Endpoint} (h : loadRows s.db id = .ok (d, ev, e)) : e.tenantId = ev.tenantId := by
  obtain ⟨hd, hev, he⟩ := loadRows_ok h
  obtain ⟨ev₀, hev₀, ht⟩ := hI.rows d (Table.mem_of_get hd)
  obtain rfl : ev₀ = ev := Option.some.inj (hev₀.symm.trans hev)
  have hid : e.id = d.endpointId := Table.key_of_get he
  rw [hI.endpoints e (Table.mem_of_get he), hid, ht]

/-- Deliveries and open transactions that are new are within one tenant. -/
theorem InTenant.extend (hI : InTenant owner s) (hn : Owns owner a) (h : s.step le a = some t)
    (hrows : ∀ d ∈ t.db.deliveries.rows, Matches owner s.db.events d)
    (htxs : ∀ tx ∈ t.relays.rows, tx ∈ s.relays.rows ∨ TxInTenant owner s.db.events tx) :
    InTenant owner t := by
  have hkeep := keeps_step h
  refine ⟨endpoints_step hI.endpoints hn h, fun d hd => (hrows d hd).mono hkeep,
    fun tx htx => ?_, fun d ev e ht => ?_⟩
  · rcases htxs tx htx with htx | htx
    · exact (hI.txs tx htx).mono hkeep
    · exact htx.mono hkeep
  · rcases attempting_step h ht with hs | ⟨id, hload⟩
    · exact hI.attempts d ev e hs
    · exact hI.loadRows hload

theorem mem_setTx {tx tx' : RelayTx} (h : tx' ∈ (s.setTx tx).relays.rows) :
    tx' = tx ∨ tx' ∈ s.relays.rows :=
  (Table.mem_update h).imp_right And.left

/-- The targets of a fan-out are endpoints of the event's tenant. -/
theorem InTenant.fansWithin (hI : InTenant owner s) {id : UUID} {ev : Event}
    (hev : s.db.events.get id = some ev) :
    FansWithin owner s.db.events ev (s.db.listActiveSubscribed ev.tenantId ev.type) := by
  have hid : ev.id = id := Table.key_of_get hev
  refine ⟨hid ▸ hev, fun e he => ?_⟩
  obtain ⟨he, hsub⟩ := List.mem_filter.mp he
  have ht : e.tenantId = ev.tenantId := by
    simp only [Bool.and_eq_true, decide_eq_true_eq] at hsub
    exact hsub.1.1
  rw [← ht]
  exact hI.endpoints e he

theorem InTenant.openEntry (hI : InTenant owner s) {r : ℕ} (h : s.openEntry r = some t) :
    ∀ tx ∈ t.relays.rows, tx ∈ s.relays.rows ∨ TxInTenant owner s.db.events tx := by
  intro tx htx
  unfold Pipeline.openEntry at h
  split at h
  next j claimed o queue created hr =>
    have hcreated := (hI.txs _ (Table.mem_of_get hr)).created
    split at h
    next =>
      obtain rfl := Option.some.inj h
      rcases mem_setTx htx with rfl | htx
      · exact .inr ⟨trivial, hcreated⟩
      · exact .inl htx
    next ev hev =>
      obtain rfl := Option.some.inj h
      rcases mem_setTx htx with rfl | htx
      · exact .inr ⟨hI.fansWithin hev, hcreated⟩
      · exact .inl htx
  next => cases h

theorem InTenant.createDelivery (hI : InTenant owner s) {r : ℕ} {id : UUID} {createdAt : ℤ}
    (h : s.createDelivery r id createdAt = some t) :
    ∀ tx ∈ t.relays.rows, tx ∈ s.relays.rows ∨ TxInTenant owner s.db.events tx := by
  intro tx htx
  unfold Pipeline.createDelivery at h
  split at h
  next j claimed queue o ev e targets created hr =>
    obtain ⟨⟨hev, htargets⟩, hcreated⟩ := hI.txs _ (Table.mem_of_get hr)
    split at h
    next => cases h
    next =>
      split at h
      next db d hd =>
        obtain rfl := Option.some.inj h
        obtain ⟨rfl, -⟩ := Db.createDelivery_ok hd
        rcases mem_setTx htx with rfl | htx
        · refine .inr ⟨⟨⟨hev, fun x hx => htargets x (List.mem_cons_of_mem _ hx)⟩, ?_⟩, hcreated⟩
          exact ⟨ev, hev, htargets e List.mem_cons_self⟩
        · exact .inl htx
      next =>
        obtain rfl := Option.some.inj h
        exact .inl (List.mem_of_mem_filter htx)
  next => cases h

theorem InTenant.publish (hI : InTenant owner s) {r : ℕ} (h : s.publish r = some t) :
    ∀ tx ∈ t.relays.rows, tx ∈ s.relays.rows ∨ TxInTenant owner s.db.events tx := by
  intro tx htx
  unfold Pipeline.publish at h
  split at h
  next j claimed queue o ev targets d created hr =>
    obtain ⟨⟨hfan, hd⟩, hcreated⟩ := hI.txs _ (Table.mem_of_get hr)
    obtain rfl := Option.some.inj h
    rcases mem_setTx htx with rfl | htx
    · refine .inr ⟨hfan, fun d' hd' => ?_⟩
      rcases List.mem_append.mp hd' with hd' | hd'
      · exact hcreated d' hd'
      · rwa [List.mem_singleton.mp hd']
    · exact .inl htx
  next => cases h

theorem InTenant.closeEntry (hI : InTenant owner s) {r : ℕ} (h : s.closeEntry r = some t) :
    ∀ tx ∈ t.relays.rows, tx ∈ s.relays.rows ∨ TxInTenant owner s.db.events tx := by
  intro tx htx
  unfold Pipeline.closeEntry at h
  split at h
  next hr =>
    have hcreated := (hI.txs _ (Table.mem_of_get hr)).created
    obtain rfl := Option.some.inj h
    rcases mem_setTx htx with rfl | htx
    · exact .inr ⟨trivial, hcreated⟩
    · exact .inl htx
  next => cases h

/-- A row was there before, under its key and with its parents, or a relay had inserted it. -/
theorem rows_step (h : s.step le a = some t) :
    ∀ d ∈ t.db.deliveries.rows,
      (∃ d₀ ∈ s.db.deliveries.rows,
        d₀.id = d.id ∧ d₀.eventId = d.eventId ∧ d₀.endpointId = d.endpointId) ∨
      ∃ r, s.Inserted r d := by
  intro d hd
  by_cases hout : onOutbox a = false
  · exact .inl ((quiet_step h hout).deliveries d hd)
  by_cases htx : inTransaction a = true
  · exact .inl ⟨d, db_of_inTransaction h htx ▸ hd, rfl, rfl, rfl⟩
  cases a with
  | ingest =>
    obtain ⟨-, hdel, -⟩ := ingest_frame h
    exact .inl ⟨d, hdel ▸ hd, rfl, rfl, rfl⟩
  | commitRelay r =>
    obtain ⟨claimed, created, hr, hw⟩ := Traced.commitRelay_ok h
    rw [hw.rows] at hd
    rcases List.mem_append.mp hd with hd | hd
    · exact .inl ⟨d, hd, rfl, rfl, rfl⟩
    · exact .inr ⟨r, _, Table.mem_of_get hr, rfl, RelayTx.mem_inserted_of_created hd⟩
  | _ => first | exact absurd rfl hout | exact absurd rfl htx

theorem InTenant.inserted (hI : InTenant owner s) {r : ℕ} {d : Delivery} (h : s.Inserted r d) :
    Matches owner s.db.events d := by
  obtain ⟨tx, htx, -, hd⟩ := h
  obtain ⟨hpoint, hcreated⟩ := hI.txs tx htx
  unfold RelayTx.inserted at hd
  split at hd
  next hp =>
    rw [hp] at hpoint
    rcases List.mem_append.mp hd with hd | hd
    · exact hcreated d hd
    · exact List.mem_singleton.mp hd ▸ hpoint.2
  next => exact hcreated d hd

theorem txs_claimDue {r : ℕ} {now : ℤ} {limit : ℕ}
    (h : s.claimDue r now limit = some t) :
    ∀ tx ∈ t.relays.rows, tx ∈ s.relays.rows ∨ TxInTenant owner s.db.events tx := by
  intro tx htx
  obtain ⟨relays, hins, rfl⟩ := Option.map_eq_some_iff.mp h
  have htx : tx ∈ relays.rows := htx
  rw [(Table.insert_eq_some.mp hins).2, List.mem_append, List.mem_singleton] at htx
  rcases htx with htx | rfl
  · exact .inl htx
  · exact .inr ⟨trivial, fun _ hd => (List.not_mem_nil hd).elim⟩

theorem InTenant.step (hI : InTenant owner s) (hn : Owns owner a) (h : s.step le a = some t) :
    InTenant owner t := by
  refine hI.extend hn h (fun d hd => ?_) ?_
  · rcases rows_step h d hd with ⟨d₀, hd₀, -, hev, he⟩ | ⟨r, hins⟩
    · exact (hI.rows d₀ hd₀).of_parents hev he
    · exact hI.inserted hins
  by_cases hout : onOutbox a = false
  · exact fun tx htx => .inl ((quiet_step h hout).relays ▸ htx)
  cases a with
  | ingest =>
    obtain ⟨-, -, -, hrel⟩ := ingest_frame h
    exact fun tx htx => .inl (hrel ▸ htx)
  | claimDue => exact txs_claimDue h
  | openEntry => exact hI.openEntry h
  | createDelivery => exact hI.createDelivery h
  | publish => exact hI.publish h
  | closeEntry => exact hI.closeEntry h
  | commitRelay r =>
    obtain ⟨claimed, created, -, hw⟩ := Traced.commitRelay_ok h
    intro tx htx
    rw [hw.relays] at htx
    exact .inl (List.mem_of_mem_filter htx)
  | rollback r =>
    obtain ⟨tx', -, rfl⟩ := Option.map_eq_some_iff.mp h
    exact fun tx htx => .inl (List.mem_of_mem_filter htx)
  | _ => exact absurd rfl hout

theorem inTenant_init (h : Init s) (howned : ∀ e ∈ s.db.endpoints.rows, e.tenantId = owner e.id) :
    InTenant owner s := by
  obtain ⟨hd, -, -, hr, hh⟩ := h
  refine ⟨howned, fun d hmem => ?_, fun tx htx => ?_, ?_⟩
  · rw [hd] at hmem
    cases hmem
  · rw [hr] at htx
    cases htx
  · rintro d ev e ⟨i, w, kind, hi⟩
    rw [hh] at hi
    cases hi

/-- In every run in which no endpoint changes hands, each delivery brings an event to an endpoint
of its own tenant, and each open attempt holds the stored event of its delivery and its endpoint,
which is one of the tenant that sent the event. -/
theorem attempts_stay_in_tenant (le : RetryMember → RetryMember → Bool) (owner : UUID → UUID)
    (s t : Pipeline) (as : List PipelineAction) (hs : Init s)
    (howned : ∀ e ∈ s.db.endpoints.rows, e.tenantId = owner e.id) (has : ∀ a ∈ as, Owns owner a)
    (h : Transition.run (step le) s as = some t) :
    (∀ d ∈ t.db.deliveries.rows, Matches owner t.db.events d) ∧
    ∀ d ev e, t.Attempting d ev e →
      t.db.events.get d.eventId = some ev ∧ e.id = d.endpointId ∧ e.tenantId = ev.tenantId := by
  have hI : InTenant owner t :=
    (Transition.always_of_mem has).invariant
      (fun _ _ _ hI hn h => hI.step hn h) (inTenant_init hs howned) h
  have hS : HoldsStored t :=
    Transition.run_invariant (fun _ _ _ hS h => hS.step h) (holdsStored_init hs) h
  refine ⟨hI.rows, fun d ev e ht => ?_⟩
  obtain ⟨hev, hid⟩ := hS d ev e ht
  exact ⟨hev, hid, hI.attempts d ev e ht⟩

/-- Another tenant subscribes to the same type, and the event of the sample reaches its attempt. -/
def sharedRun : List PipelineAction :=
  .putEndpoint { sampleEndpoint with id := 7, tenantId := 8 } :: sampleRun.take 8

theorem attempts_stay_in_tenant_sample :
    ∃ t d ev e, Transition.run (step fun _ _ => true) samplePipeline sharedRun = some t ∧
      t.db.endpoints.rows.length = 2 ∧ t.db.deliveries.rows.length = 1 ∧
      t.Attempting d ev e ∧ t.db.events.get d.eventId = some ev ∧ e.id = d.endpointId ∧
      e.tenantId = ev.tenantId := by
  obtain ⟨t, ht⟩ : ∃ t, Transition.run (step fun _ _ => true) samplePipeline sharedRun = some t :=
    ⟨_, rfl⟩
  have hrun : Transition.run (step fun _ _ => true) samplePipeline sharedRun = some t := ht
  have hwithin := (attempts_stay_in_tenant (fun _ _ => true) (fun id => if id = 7 then 8 else 9)
    samplePipeline t sharedRun ⟨rfl, rfl, rfl, rfl, rfl⟩ (by decide)
    (by simp [sharedRun, sampleRun, Owns]) ht).2
  obtain rfl := Option.some.inj ht
  exact ⟨_, _, _, _, hrun, rfl, rfl, ⟨0, 1, .dispatcher, rfl⟩, hwithin _ _ _ ⟨0, _, _, rfl⟩⟩

end Pipeline
end RelayWebhooks
