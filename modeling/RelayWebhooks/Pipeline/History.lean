import RelayWebhooks.Pipeline.State

/-! A run of the pipeline together with its history: what each open transaction has read for its
entries, and every commit of a transaction. -/
namespace RelayWebhooks

/-- What the fan-out of an outbox entry read: its event, and the store its targets came from. -/
structure Reading where
  event : Event
  store : Db

namespace Reading

def targets (rd : Reading) : List UUID :=
  (rd.store.listActiveSubscribed rd.event.tenantId rd.event.type).map (·.id)

/-- An active endpoint of the event's own tenant, subscribed to its type. -/
def IsTarget (rd : Reading) (k : UUID) : Prop :=
  ∃ e, rd.store.endpoints.get k = some e ∧ e.tenantId = rd.event.tenantId ∧
    e.status = .active ∧ rd.event.type ∈ e.subscribedEventTypes

theorem mem_targets {rd : Reading} {k : UUID} : k ∈ rd.targets ↔ rd.IsTarget k := by
  have hsub : ∀ e : Endpoint, e ∈ rd.store.listActiveSubscribed rd.event.tenantId rd.event.type ↔
      e ∈ rd.store.endpoints.rows ∧ e.tenantId = rd.event.tenantId ∧ e.status = .active ∧
        rd.event.type ∈ e.subscribedEventTypes := by
    intro e
    simp [Db.listActiveSubscribed, Table.select, Endpoint.isActive, Endpoint.isSubscribedTo,
      and_assoc]
  constructor
  · intro h
    obtain ⟨e, he, rfl⟩ := List.mem_map.mp h
    obtain ⟨he, hrest⟩ := (hsub e).mp he
    exact ⟨e, Table.get_of_mem he, hrest⟩
  · rintro ⟨e, he, hrest⟩
    obtain ⟨he, hk⟩ := Table.get_eq_some.mp he
    exact List.mem_map.mpr ⟨e, (hsub e).mpr ⟨he, hrest⟩, hk⟩

theorem nodup_targets (rd : Reading) : rd.targets.Nodup :=
  rd.store.endpoints.nodup.sublist (List.filter_sublist.map _)

end Reading

/-- One commit of a fan-out transaction. -/
structure RelayCommit where
  before : Pipeline
  after : Pipeline
  readings : List Reading

namespace RelayCommit

/-- The commit marks the entry processed and brings the deliveries of its event: one for each
target of the reading, and no other. -/
structure FansOut (c : RelayCommit) (o : OutboxEntry) (rd : Reading) : Prop where
  read : rd ∈ c.readings
  event : c.before.db.events.get o.eventId = some rd.event
  pending : (c.before.db.outbox.get o.id).map (·.status) = some .pending
  processed : (c.after.db.outbox.get o.id).map (·.status) = some .processed
  noneBefore : ∀ d ∈ c.before.db.deliveries.rows, d.eventId ≠ o.eventId
  one : ∀ k, rd.IsTarget k →
    ∃! d, d ∈ c.after.db.deliveries.rows ∧ d.eventId = o.eventId ∧ d.endpointId = k
  noOther : ∀ d ∈ c.after.db.deliveries.rows, d.eventId = o.eventId → rd.IsTarget d.endpointId

/-- The row was inserted by the commit. -/
def Brought (c : RelayCommit) (d : Delivery) : Prop :=
  c.before.db.deliveries.get d.id = none ∧
    ∃ d₀, c.after.db.deliveries.get d.id = some d₀ ∧ d₀.eventId = d.eventId ∧
      d₀.endpointId = d.endpointId

/-- The stream had an entry for the delivery when the commit began. -/
def Announced (c : RelayCommit) (d : Delivery) : Prop :=
  ∃ m ∈ c.before.stream.entries, m.deliveryId = d.id

end RelayCommit

/-- A state of the pipeline and the history of the run that led to it. -/
structure Traced where
  pipeline : Pipeline
  /-- What the open transaction of a relay has read, entry by entry. -/
  readings : ℕ → List Reading
  commits : List RelayCommit

namespace Traced
open Pipeline

/-- The reading a relay makes when it opens its next entry. -/
def nextReading (s : Pipeline) (r : ℕ) : List Reading :=
  match s.relays.get r with
  | some ⟨_, _, o :: _, .between, _⟩ =>
    ((s.db.events.get o.eventId).map fun ev => ⟨ev, s.db⟩).toList
  | _ => []

/-- The history after the pipeline has taken the action to `t`. -/
def record (x : Traced) (t : Pipeline) : PipelineAction → Traced
  | .claimDue r _ _ => { x with pipeline := t, readings := Function.update x.readings r [] }
  | .openEntry r =>
    { x with pipeline := t,
             readings := Function.update x.readings r (x.readings r ++ nextReading x.pipeline r) }
  | .commitRelay r =>
    { x with pipeline := t, commits := x.commits ++ [⟨x.pipeline, t, x.readings r⟩] }
  | _ => { x with pipeline := t }

def step (le : RetryMember → RetryMember → Bool) (x : Traced) (a : PipelineAction) :
    Option Traced :=
  (x.pipeline.step le a).map fun t => x.record t a

/-- Any endpoints, and any events that wait in the outbox, each with one entry. -/
structure Init (x : Traced) : Prop where
  pipeline : x.pipeline.Init
  commits : x.commits = []
  pending : ∀ o ∈ x.pipeline.db.outbox.rows, o.status = .pending
  parent : ∀ o ∈ x.pipeline.db.outbox.rows, (x.pipeline.db.events.get o.eventId).isSome
  unique : (x.pipeline.db.outbox.rows.map (·.eventId)).Nodup

@[simp] theorem record_pipeline (x : Traced) (t : Pipeline) (a : PipelineAction) :
    (x.record t a).pipeline = t := by
  cases a <;> rfl

/-- The history does not restrict the pipeline: it has the runs of the pipeline. -/
theorem run_pipeline (le : RetryMember → RetryMember → Bool) (x : Traced)
    (as : List PipelineAction) :
    (Transition.run (step le) x as).map (·.pipeline) =
      Transition.run (Pipeline.step le) x.pipeline as :=
  Transition.run_map (fun x a => by simp [step, Function.comp_def]) x as

end Traced

namespace Pipeline

/-- The open transactions, the outbox and the events stay; deliveries keep their event and their
endpoint, and only go; stream entries only come. -/
structure Quiet (s t : Pipeline) : Prop where
  relays : t.relays = s.relays
  outbox : t.db.outbox = s.db.outbox
  events : t.db.events = s.db.events
  deliveries : ∀ d ∈ t.db.deliveries.rows, ∃ d₀ ∈ s.db.deliveries.rows,
    d₀.id = d.id ∧ d₀.eventId = d.eventId ∧ d₀.endpointId = d.endpointId
  entries : ∀ m ∈ s.stream.entries, m ∈ t.stream.entries

variable {s t : Pipeline}

theorem Quiet.of_db (h : t.relays = s.relays) (hdb : t.db = s.db)
    (hentries : ∀ m ∈ s.stream.entries, m ∈ t.stream.entries) : Quiet s t where
  relays := h
  outbox := by rw [hdb]
  events := by rw [hdb]
  deliveries d hd := ⟨d, hdb ▸ hd, rfl, rfl, rfl⟩
  entries := hentries

/-- Deliveries whose rows are replaced under their key, with the same parents. -/
theorem Quiet.rewrite {row d₀ : Delivery} (hget : s.db.deliveries.get row.id = some d₀)
    (hev : row.eventId = d₀.eventId) (hend : row.endpointId = d₀.endpointId)
    (hdel : t.db.deliveries = s.db.deliveries.update row) (hrel : t.relays = s.relays)
    (hout : t.db.outbox = s.db.outbox) (hevents : t.db.events = s.db.events)
    (hentries : ∀ m ∈ s.stream.entries, m ∈ t.stream.entries) : Quiet s t where
  relays := hrel
  outbox := hout
  events := hevents
  deliveries d hd := by
    rw [hdel] at hd
    rcases Table.mem_update hd with rfl | ⟨hd, -⟩
    · exact ⟨d₀, Table.mem_of_get hget, Table.key_of_get hget, hev.symm, hend.symm⟩
    · exact ⟨d, hd, rfl, rfl, rfl⟩
  entries := hentries

theorem quiet_putEndpoint (s : Pipeline) (e : Endpoint) : Quiet s (s.putEndpoint e) := by
  unfold Pipeline.putEndpoint
  split
  next => exact ⟨rfl, rfl, rfl, fun d hd => ⟨d, hd, rfl, rfl, rfl⟩, fun _ hm => hm⟩
  next => exact ⟨rfl, rfl, rfl, fun d hd => ⟨d, hd, rfl, rfl, rfl⟩, fun _ hm => hm⟩

theorem quiet_deleteEndpoint {id : UUID} (h : s.deleteEndpoint id = some t) : Quiet s t := by
  unfold Pipeline.deleteEndpoint at h
  split at h
  next => cases h
  next =>
    obtain rfl := Option.some.inj h
    exact ⟨rfl, rfl, rfl, fun d hd => ⟨d, (List.mem_filter.mp hd).1, rfl, rfl, rfl⟩,
      fun _ hm => hm⟩

theorem quiet_setHandler (s : Pipeline) (i : ℕ) (h : Option Handler) :
    Quiet s (s.setHandler i h) := .of_db rfl rfl fun _ hm => hm

theorem quiet_beginAttempt {i : ℕ} (h : s.beginAttempt i = some t) : Quiet s t := by
  unfold Pipeline.beginAttempt at h
  split at h
  next =>
    split at h
    next => cases h
    next =>
      split at h
      next => exact Option.some.inj h ▸ quiet_setHandler ..
      next => exact Option.some.inj h ▸ quiet_setHandler ..
  next => cases h

theorem quiet_commitAttempt {i : ℕ} {env : AttemptEnv}
    {send : OutboundRequest → OutboundHttpResult} (h : s.commitAttempt i env send = some t) :
    Quiet s t := by
  unfold Pipeline.commitAttempt at h
  split at h
  next w kind d ev e hh =>
    split at h
    next db row hfin =>
      obtain rfl := Option.some.inj h
      have hfin := DeliveryAttemptService.finishAttempt_ok hfin
      obtain ⟨write, d₀, -, hd₀, hrow⟩ := hfin.written
      have hid : d₀.id = d.id := Table.key_of_get hd₀
      have hrowid : row.id = d.id := by rw [hrow, DeliveryWrite.apply_id, hid]
      exact .rewrite (hrowid.symm ▸ hd₀) (by rw [hrow, DeliveryWrite.apply_eventId])
        (by rw [hrow, DeliveryWrite.apply_endpointId]) hfin.deliveries rfl hfin.outbox
        hfin.events fun _ hm => hm
    next => exact Option.some.inj h ▸ quiet_setHandler ..
  next => cases h

theorem quiet_scheduleRetry {i : ℕ} (h : s.scheduleRetry i = some t) : Quiet s t := by
  unfold Pipeline.scheduleRetry at h
  split at h
  next =>
    dsimp only at h
    split at h
    next => exact Option.some.inj h ▸ .of_db rfl rfl fun _ hm => hm
    next => exact Option.some.inj h ▸ quiet_setHandler ..
  next => cases h

theorem quiet_ack {i : ℕ} (h : s.ack i = some t) : Quiet s t := by
  unfold Pipeline.ack at h
  split at h
  next => exact Option.some.inj h ▸ .of_db rfl rfl fun _ hm => hm
  next => cases h

theorem mem_entries_enqueue {id : UUID} {c : Option PyText} {m : DeliveryMessage}
    (h : m ∈ s.stream.entries) : m ∈ (s.enqueue id c).stream.entries :=
  List.mem_append_left _ h

theorem quiet_enqueueAll (due : List PoppedRetry) (s : Pipeline) :
    Quiet s (due.foldl
      (fun s p => s.enqueue p.retry.deliveryId p.retry.correlationId) s) := by
  induction due generalizing s with
  | nil => exact .of_db rfl rfl fun _ hm => hm
  | cons p due ih =>
    have hq := ih (s.enqueue p.retry.deliveryId p.retry.correlationId)
    exact ⟨hq.relays, hq.outbox, hq.events, hq.deliveries,
      fun m hm => hq.entries m (mem_entries_enqueue hm)⟩

theorem quiet_tick (le : RetryMember → RetryMember → Bool) (s : Pipeline) (now : ℤ)
    (limit : ℕ) : Quiet s (s.tick le now limit) := by
  unfold Pipeline.tick
  split
  next due zset _ =>
    have hq := quiet_enqueueAll due { s with zset }
    exact ⟨hq.relays, hq.outbox, hq.events, hq.deliveries, hq.entries⟩
  next => exact .of_db rfl rfl fun _ hm => hm

theorem quiet_replay {id tenantId : UUID} (h : s.replay id tenantId = some t) : Quiet s t := by
  obtain ⟨d, ev, row, hd, -, hrow, hid, rfl⟩ := replay_some h
  exact .rewrite (hid.symm ▸ hd) (by rw [hrow, DeliveryWrite.apply_eventId])
    (by rw [hrow, DeliveryWrite.apply_endpointId]) rfl rfl rfl rfl
    fun _ hm => mem_entries_enqueue hm

/-- Ingestion and the actions of a relay. -/
def onOutbox : PipelineAction → Bool
  | .ingest .. | .claimDue .. | .openEntry .. | .createDelivery .. | .publish .. | .closeEntry ..
  | .commitRelay .. | .rollback .. => true
  | _ => false

theorem quiet_step {le : RetryMember → RetryMember → Bool} {a : PipelineAction}
    (h : s.step le a = some t) (ha : onOutbox a = false) : Quiet s t := by
  cases a with
  | putEndpoint e => exact Option.some.inj h ▸ quiet_putEndpoint ..
  | deleteEndpoint => exact quiet_deleteEndpoint h
  | read => exact Option.some.inj h ▸ .of_db rfl rfl fun _ hm => hm
  | autoclaim => exact Option.some.inj h ▸ .of_db rfl rfl fun _ hm => hm
  | beginAttempt => exact quiet_beginAttempt h
  | commitAttempt => exact quiet_commitAttempt h
  | scheduleRetry => exact quiet_scheduleRetry h
  | ack => exact quiet_ack h
  | fail => exact Option.some.inj h ▸ quiet_setHandler ..
  | crash => exact Option.some.inj h ▸ .of_db rfl rfl fun _ hm => hm
  | tick => exact Option.some.inj h ▸ quiet_tick ..
  | replay => exact quiet_replay h
  | _ => cases ha

end Pipeline

end RelayWebhooks
