import RelayWebhooks.Infra.RetrySchedule
import RelayWebhooks.Lib.Transition
import RelayWebhooks.Services.FinishAttempt
import RelayWebhooks.Services.Replay

/-! The whole pipeline: the store, the delivery stream, the retry ZSET and the workers' positions.
Each action is one command of a worker on the stream or the ZSET, or one group of statements of a
transaction; the writes of an attempt and its commit are one action. Three premises are built in: a
tick and a replay run to their end, a reaper claims only entries whose worker has stopped, and it
examines none whose fan-out is open. -/
namespace RelayWebhooks

/-- Where a fan-out transaction stands. -/
inductive RelayPoint where
  | between
  | fanOut (entry : OutboxEntry) (event : Event) (targets : List Endpoint)
  /-- The delivery row is inserted and its message not yet sent. -/
  | publishing (entry : OutboxEntry) (event : Event) (targets : List Endpoint)
      (delivery : Delivery)

/-- The open transaction of a relay: the outbox rows it locked, as it has written them, the ones
it still has to process, and the delivery rows it has inserted and published. -/
structure RelayTx where
  id : ℕ
  claimed : List OutboxEntry
  queue : List OutboxEntry
  point : RelayPoint
  created : List Delivery

instance : Keyed RelayTx ℕ := ⟨RelayTx.id⟩

namespace RelayTx

@[simp] theorem key_eq (tx : RelayTx) : Keyed.key tx = tx.id := rfl

/-- The delivery rows the transaction has inserted. -/
def inserted (tx : RelayTx) : List Delivery :=
  match tx.point with
  | .publishing _ _ _ d => tx.created ++ [d]
  | _ => tx.created

def markProcessed (tx : RelayTx) (id : UUID) : List OutboxEntry :=
  tx.claimed.map fun o => if o.id = id then { o with status := .processed } else o

end RelayTx

inductive WorkerKind where
  | dispatcher
  | reaper
  deriving DecidableEq, Repr

inductive HandlerPhase where
  | claimed
  /-- The attempt has read its rows. -/
  | attempting (delivery : Delivery) (event : Event) (endpoint : Endpoint)
  /-- The attempt has committed and returned the row. -/
  | attempted (row : Delivery)
  /-- Only the XACK is left. -/
  | acking

/-- The worker that has a stream entry in hand. -/
structure Handler where
  worker : ℕ
  kind : WorkerKind
  phase : HandlerPhase

/-- `handlers` tells who is working on each stream entry; `issued` lists the keys that were
generated for delivery rows. -/
structure Pipeline where
  db : Db
  stream : DeliveryStream
  zset : RetryZset
  relays : Table RelayTx
  handlers : ℕ → Option Handler
  issued : List UUID

inductive PipelineAction where
  | ingest (event : Event) (outboxId : UUID) (createdAt : ℤ)
  | putEndpoint (endpoint : Endpoint)
  | deleteEndpoint (id : UUID)
  | claimDue (r : ℕ) (now : ℤ) (limit : ℕ)
  | openEntry (r : ℕ)
  | createDelivery (r : ℕ) (id : UUID) (createdAt : ℤ)
  | publish (r : ℕ)
  | closeEntry (r : ℕ)
  | commitRelay (r : ℕ)
  | rollback (r : ℕ)
  | read (worker count : ℕ)
  | autoclaim (worker : ℕ) (idle : List ℕ) (count : ℕ)
  | beginAttempt (i : ℕ)
  | commitAttempt (i : ℕ) (env : AttemptEnv) (send : OutboundRequest → OutboundHttpResult)
  | scheduleRetry (i : ℕ)
  | ack (i : ℕ)
  | fail (i : ℕ)
  | crash (worker : ℕ)
  | tick (now : ℤ) (limit : ℕ)
  | replay (id tenantId : UUID)

namespace Pipeline
open DeliveryAttemptService

/-- No delivery, no message and no retry, and no worker is at work; any events, outbox rows and
endpoints. -/
def Init (s : Pipeline) : Prop :=
  s.db.deliveries = .empty ∧ s.stream = .empty ∧ s.zset = .empty ∧ s.relays = .empty ∧
    s.handlers = fun _ => none

def ingest (s : Pipeline) (event : Event) (outboxId : UUID) (createdAt : ℤ) : Option Pipeline :=
  match s.db.events.insert event, s.db.createOutboxEntry outboxId event.id createdAt with
  | some events, .ok (db, _) => some { s with db := { db with events } }
  | _, _ => none

/-- Registers an endpoint, or changes the columns of one. -/
def putEndpoint (s : Pipeline) (e : Endpoint) : Pipeline :=
  match s.db.endpoints.insert e with
  | some endpoints => { s with db := { s.db with endpoints } }
  | none => { s with db := { s.db with endpoints := s.db.endpoints.update e } }

/-- The delete waits for a transaction that has inserted a row which refers to the endpoint. -/
def deleteEndpoint (s : Pipeline) (id : UUID) : Option Pipeline :=
  if s.relays.rows.any fun tx => tx.inserted.any fun d => d.endpointId = id then none
  else some { s with db := s.db.deleteEndpoint id }

def setTx (s : Pipeline) (tx : RelayTx) : Pipeline := { s with relays := s.relays.update tx }

def dropTx (s : Pipeline) (r : ℕ) : Pipeline :=
  { s with relays := s.relays.deleteWhere fun tx => tx.id = r }

def locked (s : Pipeline) (o : OutboxEntry) : Bool :=
  s.relays.rows.any fun tx => tx.claimed.any fun x => x.id = o.id

/-- `claim_due`: the oldest pending rows that no open transaction has locked. -/
def dueEntries (s : Pipeline) (limit : ℕ) : List OutboxEntry :=
  ((s.db.outbox.select fun o => o.status = .pending && !s.locked o).insertionSort
    fun x y => x.createdAt ≤ y.createdAt).take limit

def claimDue (s : Pipeline) (r : ℕ) (now : ℤ) (limit : ℕ) : Option Pipeline :=
  let claimed := (s.dueEntries limit).map fun o =>
    { o with lockedAt := some now, attempts := o.attempts + 1 }
  (s.relays.insert ⟨r, claimed, claimed, .between, []⟩).map fun relays => { s with relays }

/-- Reads the event of the next entry and its targets; an entry without its event is marked
processed. -/
def openEntry (s : Pipeline) (r : ℕ) : Option Pipeline :=
  match s.relays.get r with
  | some ⟨j, claimed, o :: queue, .between, created⟩ =>
    match s.db.events.get o.eventId with
    | none =>
      let tx : RelayTx := ⟨j, claimed, queue, .between, created⟩
      some (s.setTx { tx with claimed := tx.markProcessed o.id })
    | some ev =>
      some (s.setTx ⟨j, claimed, queue,
        .fanOut o ev (s.db.listActiveSubscribed ev.tenantId ev.type), created⟩)
  | _ => none

/-- Inserts the row of the next target under a fresh key; an insert the store refuses rolls the
transaction back. -/
def createDelivery (s : Pipeline) (r : ℕ) (id : UUID) (createdAt : ℤ) : Option Pipeline :=
  match s.relays.get r with
  | some ⟨j, claimed, queue, .fanOut o ev (e :: targets), created⟩ =>
    if id ∈ s.issued then none
    else
      match s.db.createDelivery id ev.id e.id createdAt with
      | .ok (_, d) =>
        some { s.setTx ⟨j, claimed, queue, .publishing o ev targets d, created⟩ with
               issued := id :: s.issued }
      | .error _ => some (s.dropTx r)
  | _ => none

def enqueue (s : Pipeline) (id : UUID) (correlationId : Option PyText := none) : Pipeline :=
  { s with stream := s.stream.enqueueDelivery id correlationId }

def publish (s : Pipeline) (r : ℕ) : Option Pipeline :=
  match s.relays.get r with
  | some ⟨j, claimed, queue, .publishing o ev targets d, created⟩ =>
    some ((s.setTx ⟨j, claimed, queue, .fanOut o ev targets, created ++ [d]⟩).enqueue d.id
      ev.correlationId)
  | _ => none

def closeEntry (s : Pipeline) (r : ℕ) : Option Pipeline :=
  match s.relays.get r with
  | some ⟨j, claimed, queue, .fanOut o _ [], created⟩ =>
    let tx : RelayTx := ⟨j, claimed, queue, .between, created⟩
    some (s.setTx { tx with claimed := tx.markProcessed o.id })
  | _ => none

/-- Makes the outbox rows and the new delivery rows visible. -/
def commitRelay (s : Pipeline) (r : ℕ) : Option Pipeline :=
  match s.relays.get r with
  | some ⟨_, claimed, [], .between, created⟩ =>
    (s.db.deliveries.insertAll created).map fun deliveries =>
      { s.dropTx r with
        db := { s.db with deliveries, outbox := claimed.foldl Table.update s.db.outbox } }
  | _ => none

/-- An exception or a crash ends the transaction. -/
def rollback (s : Pipeline) (r : ℕ) : Option Pipeline :=
  (s.relays.get r).map fun _ => s.dropTx r

def setHandler (s : Pipeline) (i : ℕ) (h : Option Handler) : Pipeline :=
  { s with handlers := Function.update s.handlers i h }

@[simp] theorem setHandler_self (s : Pipeline) (i : ℕ) (h : Option Handler) :
    (s.setHandler i h).handlers i = h := Function.update_self ..

theorem setHandler_ne (s : Pipeline) {i j : ℕ} (h : Option Handler) (hj : j ≠ i) :
    (s.setHandler i h).handlers j = s.handlers j := Function.update_of_ne hj ..

/-- XREADGROUP by a dispatcher. -/
def read (s : Pipeline) (worker count : ℕ) : Pipeline :=
  { s with
    stream := s.stream.xreadgroup worker count
    handlers := fun i =>
      if i ∈ s.stream.unread count then some ⟨worker, .dispatcher, .claimed⟩ else s.handlers i }

/-- XAUTOCLAIM by a reaper, of entries that have been idle and whose previous consumer has
stopped working on them. -/
def autoclaim (s : Pipeline) (worker : ℕ) (idle : List ℕ) (count : ℕ) : Pipeline :=
  let stale : ℕ → Bool := fun i => i ∈ idle && (s.handlers i).isNone
  { s with
    stream := s.stream.xautoclaim worker stale count
    handlers := fun i =>
      if i ∈ s.stream.stalePending stale count then some ⟨worker, .reaper, .claimed⟩
      else s.handlers i }

/-- The delivery row belongs to a fan-out transaction that is still open. -/
def fanOutOpen (s : Pipeline) (id : UUID) : Bool :=
  s.relays.rows.any fun tx => tx.inserted.any fun d => d.id = id

/-- An exception that leaves `attempt`: the reaper drops the entry of a delivery that does not
exist, and everything else leaves the entry pending. -/
def afterError (h : Handler) (err : Raised) : Option Handler :=
  if h.kind = .reaper ∧ err.isNotFound then some { h with phase := .acking } else none

/-- `attempt` reads its rows. A reaper never examines an entry whose fan-out transaction is
open. -/
def beginAttempt (s : Pipeline) (i : ℕ) : Option Pipeline :=
  match s.handlers i, s.stream.entries[i]? with
  | some ⟨w, kind, .claimed⟩, some m =>
    if kind = .reaper ∧ s.fanOutOpen m.deliveryId then none
    else
      match loadRows s.db m.deliveryId with
      | .ok (d, ev, e) => some (s.setHandler i (some ⟨w, kind, .attempting d ev e⟩))
      | .error err => some (s.setHandler i (afterError ⟨w, kind, .claimed⟩ err))
  | _, _ => none

/-- `attempt` sends, or defers, and commits; an exception rolls everything back. -/
def commitAttempt (s : Pipeline) (i : ℕ) (env : AttemptEnv)
    (send : OutboundRequest → OutboundHttpResult) : Option Pipeline :=
  match s.handlers i with
  | some ⟨w, kind, .attempting d ev e⟩ =>
    match finishAttempt env send s.db d ev e with
    | .ok (db, row) => some { s.setHandler i (some ⟨w, kind, .attempted row⟩) with db := db }
    | .error err => some (s.setHandler i (afterError ⟨w, kind, .attempting d ev e⟩ err))
  | _ => none

/-- `process_delivery_message` schedules a retry for the row that `attempt` returned, if it needs
one, under the correlation id of the message. -/
def scheduleRetry (s : Pipeline) (i : ℕ) : Option Pipeline :=
  match s.handlers i, s.stream.entries[i]? with
  | some ⟨w, kind, .attempted row⟩, some m =>
    let s' := s.setHandler i (some ⟨w, kind, .acking⟩)
    match row.state, row.nextRetryAt with
    | .retrying, some t =>
      some { s' with zset := s.zset.scheduleRetry row.id t m.correlationId }
    | _, _ => some s'
  | _, _ => none

def ack (s : Pipeline) (i : ℕ) : Option Pipeline :=
  match s.handlers i with
  | some ⟨_, _, .acking⟩ => some { s.setHandler i none with stream := s.stream.xack i }
  | _ => none

/-- Any other exception leaves the entry pending. -/
def fail (s : Pipeline) (i : ℕ) : Pipeline := s.setHandler i none

def crash (s : Pipeline) (worker : ℕ) : Pipeline :=
  { s with handlers := fun i => (s.handlers i).filter fun h => h.worker ≠ worker }

/-- One uninterrupted `run_once`. -/
def tick (le : RetryMember → RetryMember → Bool) (s : Pipeline) (now : ℤ) (limit : ℕ) :
    Pipeline :=
  match s.zset.popDueRetries le now limit with
  | (some due, zset) =>
    due.foldl (fun s p => s.enqueue p.retry.deliveryId p.retry.correlationId) { s with zset }
  | (none, zset) => { s with zset }

def replay (s : Pipeline) (id tenantId : UUID) : Option Pipeline :=
  match ReplayService.replay s.db id tenantId with
  | .ok (db, d) => some ({ s with db }.enqueue d.id)
  | .error _ => none

/-- `le` is the order of the ZSET members' texts. -/
def step (le : RetryMember → RetryMember → Bool) (s : Pipeline) :
    PipelineAction → Option Pipeline
  | .ingest event outboxId createdAt => s.ingest event outboxId createdAt
  | .putEndpoint e => some (s.putEndpoint e)
  | .deleteEndpoint id => s.deleteEndpoint id
  | .claimDue r now limit => s.claimDue r now limit
  | .openEntry r => s.openEntry r
  | .createDelivery r id createdAt => s.createDelivery r id createdAt
  | .publish r => s.publish r
  | .closeEntry r => s.closeEntry r
  | .commitRelay r => s.commitRelay r
  | .rollback r => s.rollback r
  | .read worker count => some (s.read worker count)
  | .autoclaim worker idle count => some (s.autoclaim worker idle count)
  | .beginAttempt i => s.beginAttempt i
  | .commitAttempt i env send => s.commitAttempt i env send
  | .scheduleRetry i => s.scheduleRetry i
  | .ack i => s.ack i
  | .fail i => some (s.fail i)
  | .crash worker => some (s.crash worker)
  | .tick now limit => some (s.tick le now limit)
  | .replay id tenantId => s.replay id tenantId

/-- A replay resets the row and publishes its key alone. -/
theorem replay_some {s t : Pipeline} {id tenantId : UUID} (h : s.replay id tenantId = some t) :
    ∃ d ev row, s.db.deliveries.get id = some d ∧ s.db.events.get d.eventId = some ev ∧
      row = DeliveryWrite.resetForReplay.apply d ∧ row.id = id ∧
      t = { s with db := { s.db with deliveries := s.db.deliveries.update row } }.enqueue row.id := by
  unfold replay at h
  split at h
  next db row hrep =>
    obtain ⟨d, ev, hd, -, hev, -, hrow, rfl⟩ := ReplayService.replay_ok hrep
    have hdid : d.id = id := Table.key_of_get hd
    have hid : row.id = id := by rw [hrow, DeliveryWrite.apply_id, hdid]
    exact ⟨d, ev, row, hd, hev, hrow, hid, (Option.some.inj h).symm⟩
  next => cases h

end Pipeline

end RelayWebhooks
