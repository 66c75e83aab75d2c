import RelayWebhooks.Lib.Transition
import RelayWebhooks.Infra.Streams
import RelayWebhooks.Repositories.Flush
import RelayWebhooks.Services.Attempt

/-! Concurrent executions of `attempt` and `replay` over one store. Each action is one
statement, or one group of statements that no other execution can tell apart. Statements are
READ COMMITTED: a SELECT returns the committed row, an UPDATE waits for the row lock of a
concurrent writer and then changes the row that writer left, and the columns it sets are the
ones that differ from the row the session had loaded. A writer may find the row still held by
its session, or load it afresh. -/
namespace RelayWebhooks

structure EngineConfig where
  settings : Settings := {}
  hmac : Hmac

/-- An open breaker as an attempt read it: which opening of the endpoint it was, and its
`opened_at`. -/
structure Observed where
  opening : ℕ
  openedAt : Option ℤ
  deriving DecidableEq

/-- What an attempt holds once it has read its rows. `endpoint` is the row it last read, and
`flip` the columns its flip to half open set. -/
structure AttemptLocals where
  delivery : Delivery
  event : Event
  endpoint : Endpoint
  now : ℤ
  observed : Option Observed
  flip : BreakerPatch := {}

inductive AttemptPhase where
  | deliveryRead (delivery : Delivery)
  | deferring (x : AttemptLocals) (nextRetryAt : ℤ)
  | deferLoaded (x : AttemptLocals) (nextRetryAt : ℤ) (loaded : Delivery)
  | flipping (x : AttemptLocals)
  | flipLoaded (x : AttemptLocals) (row : Endpoint)
  | sending (x : AttemptLocals)
  | responded (x : AttemptLocals) (request : OutboundRequest) (result : OutboundHttpResult)
  | outcomeLoaded (x : AttemptLocals) (request : OutboundRequest) (result : OutboundHttpResult)
      (row : Endpoint)
  | outcomeWritten (x : AttemptLocals) (request : OutboundRequest) (result : OutboundHttpResult)
      (row : Endpoint)
  | deliveryLoaded (x : AttemptLocals) (request : OutboundRequest) (result : OutboundHttpResult)
      (row : Endpoint) (loaded : Delivery)
  | deferred
  | recorded
  | failed

inductive ReplayPhase where
  | read (delivery : Delivery) (tenantId : UUID)
  | checked (delivery : Delivery)
  | loaded (delivery row : Delivery)
  | committed (id : UUID)
  | replayed
  | raised (error : Raised)
  /-- Stopped by a crash or an unexpected error, before or after its commit. -/
  | interrupted (committed : Bool)
  deriving DecidableEq

/-- One request that left an attempt. -/
structure SendRecord where
  attempt : ℕ
  endpointId : UUID
  observed : Option Observed
  now : ℤ
  deriving DecidableEq

/-- One recorded outcome, in the order of the commits. -/
structure Outcome where
  deliveryId : UUID
  endpointId : UUID
  now : ℤ
  success : Bool
  deriving DecidableEq

/-- `lock` is the attempt that holds an endpoint's row lock. The last three fields are history:
how often the breaker of an endpoint was committed open, the requests sent and the outcomes
committed. -/
structure Engine where
  db : Db
  stream : DeliveryStream
  attempts : ℕ → Option AttemptPhase
  replays : ℕ → Option ReplayPhase
  lock : UUID → Option ℕ
  openings : UUID → ℕ
  sends : List SendRecord
  outcomes : List Outcome

/-- `cached` tells whether a writer finds its row still held by the session. -/
inductive Action where
  | readDelivery (i : ℕ) (id : UUID)
  | readEndpoint (i : ℕ) (now : ℤ)
  | loadDeferral (i : ℕ) (cached : Bool)
  | commitDeferral (i : ℕ)
  | loadFlip (i : ℕ) (cached : Bool)
  | flip (i : ℕ)
  | send (i : ℕ) (result : OutboundHttpResult)
  | loadOutcome (i : ℕ) (cached : Bool)
  | writeOutcome (i : ℕ)
  | loadDelivery (i : ℕ) (cached : Bool)
  | commit (i : ℕ) (draw : ℚ) (rowId : UUID) (rowCreatedAt : ℤ)
  | failAttempt (i : ℕ)
  | readReplay (j : ℕ) (id tenantId : UUID)
  | checkReplay (j : ℕ)
  | loadReplay (j : ℕ) (cached : Bool)
  | commitReplay (j : ℕ)
  | enqueueReplay (j : ℕ)
  | interruptReplay (j : ℕ)

def AttemptPhase.isOver : AttemptPhase → Bool
  | deferred | recorded | failed => true
  | _ => false

def ReplayPhase.isOver : ReplayPhase → Bool
  | replayed | raised _ | interrupted _ => true
  | _ => false

namespace Engine
open DeliveryAttemptService

/-- No execution has started. -/
def init (db : Db) (stream : DeliveryStream) : Engine where
  db := db
  stream := stream
  attempts _ := none
  replays _ := none
  lock _ := none
  openings _ := 0
  sends := []
  outcomes := []

def setAttempt (s : Engine) (i : ℕ) (p : AttemptPhase) : Engine :=
  { s with attempts := Function.update s.attempts i (some p) }

def setReplay (s : Engine) (j : ℕ) (p : ReplayPhase) : Engine :=
  { s with replays := Function.update s.replays j (some p) }

@[simp] theorem setAttempt_self (s : Engine) (i : ℕ) (p : AttemptPhase) :
    (s.setAttempt i p).attempts i = some p := Function.update_self ..

theorem setAttempt_ne (s : Engine) {i k : ℕ} (p : AttemptPhase) (h : k ≠ i) :
    (s.setAttempt i p).attempts k = s.attempts k := Function.update_of_ne h ..

@[simp] theorem setReplay_self (s : Engine) (j : ℕ) (p : ReplayPhase) :
    (s.setReplay j p).replays j = some p := Function.update_self ..

theorem setReplay_ne (s : Engine) {j k : ℕ} (p : ReplayPhase) (h : k ≠ j) :
    (s.setReplay j p).replays k = s.replays k := Function.update_of_ne h ..

/-- The end of a transaction gives its row locks back. -/
def unlock (s : Engine) (i : ℕ) : Engine :=
  { s with lock := fun e => if s.lock e = some i then none else s.lock e }

/-- Takes the row lock for an UPDATE, unless no column changed. -/
def lockFor (s : Engine) (i : ℕ) (e : UUID) (p : BreakerPatch) : Engine :=
  if p.IsEmpty then s else { s with lock := Function.update s.lock e (some i) }

/-- An UPDATE can go ahead: it has nothing to write, or no other transaction has the row. -/
def CanWrite (s : Engine) (i : ℕ) (e : UUID) (p : BreakerPatch) : Prop :=
  p.IsEmpty ∨ s.lock e = none ∨ s.lock e = some i

instance (s : Engine) (i : ℕ) (e : UUID) (p : BreakerPatch) : Decidable (s.CanWrite i e p) :=
  inferInstanceAs (Decidable (_ ∨ _))

def afterReadDelivery (s : Engine) (id : UUID) : AttemptPhase :=
  match s.db.deliveries.get id with
  | some d => .deliveryRead d
  | none => .failed

/-- The reads of the event and the endpoint, the clock, and the branch they lead to. -/
def afterReadEndpoint (cfg : EngineConfig) (s : Engine) (d : Delivery) (now : ℤ) :
    AttemptPhase :=
  match s.db.events.get d.eventId, s.db.endpoints.get d.endpointId with
  | some event, some endpoint =>
    let observed :=
      if endpoint.breakerState = .opened then
        some ⟨s.openings endpoint.id, endpoint.openedAt⟩
      else none
    let x : AttemptLocals := { delivery := d, event, endpoint, now, observed }
    match deferral cfg.settings now endpoint with
    | some t => .deferring x t
    | none => if endpoint.breakerState = .opened then .flipping x else .sending x
  | _, _ => .failed

def loadDeliveryRow (s : Engine) (x : AttemptLocals) (cached : Bool) : Option Delivery :=
  if cached then some x.delivery else s.db.deliveries.get x.delivery.id

def loadEndpointRow (s : Engine) (x : AttemptLocals) (cached : Bool) : Option Endpoint :=
  if cached then some x.endpoint else (s.db.endpoints.get x.endpoint.id).map x.flip.view

/-- The columns the flip sets: half open, and the `opened_at` that was read. -/
def flipPatch (x : AttemptLocals) (row : Endpoint) : BreakerPatch :=
  .diff row.breaker { row.breaker with state := .halfOpen, openedAt := x.endpoint.openedAt }

/-- The columns the outcome sets. -/
def outcomePatch (cfg : EngineConfig) (x : AttemptLocals) (result : OutboundHttpResult)
    (row : Endpoint) : BreakerPatch :=
  .diff row.breaker (breakerOutcome cfg.settings x.now x.endpoint result)

/-- All breaker columns the attempt's transaction sets. -/
def attemptPatch (cfg : EngineConfig) (x : AttemptLocals) (result : OutboundHttpResult)
    (row : Endpoint) : BreakerPatch :=
  x.flip.andThen (outcomePatch cfg x result row)

/-- The commit publishes an opening: it sets the state or `opened_at`, and leaves the breaker
open. -/
def opens (p : BreakerPatch) (e : Endpoint) : Bool :=
  (p.state.isSome || p.openedAt.isSome) && (p.apply e.breaker).state = .opened

def afterCheckReplay (s : Engine) (d : Delivery) (tenantId : UUID) : ReplayPhase :=
  match s.db.events.get d.eventId with
  | none => .raised (.deliveryNotFoundForTenant tenantId d.id)
  | some event =>
    if event.tenantId ≠ tenantId then .raised (.deliveryNotFoundForTenant tenantId d.id)
    else if d.state ≠ .dead then .raised (.deliveryNotDead d.id d.state)
    else .checked d

/-- The database after the commit of a recorded outcome. -/
def commitOutcome (cfg : EngineConfig) (s : Engine) (x : AttemptLocals)
    (request : OutboundRequest) (result : OutboundHttpResult) (row : Endpoint)
    (loaded : Delivery) (draw : ℚ) (rowId : UUID) (rowCreatedAt : ℤ) : Option (Db × Endpoint) :=
  match deliveryOutcome cfg.settings x.now draw x.delivery.attemptCount result,
      s.db.endpoints.get x.endpoint.id, s.db.deliveries.get x.delivery.id with
  | .ok w, some e, some d =>
    match s.db.createDeliveryAttempt rowId rowCreatedAt
        (newAttempt x.delivery request result) with
    | .ok (db, _) =>
      some ({ db with
              endpoints := db.endpoints.update ((attemptPatch cfg x result row).view e)
              deliveries := db.deliveries.update ((DeliveryPatch.ofWrite w loaded).apply d) }, e)
    | .error _ => none
  | _, _, _ => none

/-- One action; `none` when the execution is not at that point, or has to wait. An attempt whose
outcome the store refuses can only fail. -/
def step (cfg : EngineConfig) (s : Engine) : Action → Option Engine
  | .readDelivery i id =>
    match s.attempts i with
    | none => some (s.setAttempt i (s.afterReadDelivery id))
    | some _ => none
  | .readEndpoint i now =>
    match s.attempts i with
    | some (.deliveryRead d) => some (s.setAttempt i (s.afterReadEndpoint cfg d now))
    | _ => none
  | .loadDeferral i cached =>
    match s.attempts i with
    | some (.deferring x t) =>
      (s.loadDeliveryRow x cached).map fun row => s.setAttempt i (.deferLoaded x t row)
    | _ => none
  | .commitDeferral i =>
    match s.attempts i with
    | some (.deferLoaded x t loaded) =>
      (s.db.deliveries.get x.delivery.id).map fun d =>
        { s.setAttempt i .deferred with
          db.deliveries :=
            s.db.deliveries.update ((DeliveryPatch.ofWrite (.reschedule t) loaded).apply d) }
    | _ => none
  | .loadFlip i cached =>
    match s.attempts i with
    | some (.flipping x) =>
      (s.loadEndpointRow x cached).map fun row => s.setAttempt i (.flipLoaded x row)
    | _ => none
  | .flip i =>
    match s.attempts i with
    | some (.flipLoaded x row) =>
      if s.CanWrite i x.endpoint.id (flipPatch x row) then
        (s.db.endpoints.get x.endpoint.id).map fun e =>
          (s.lockFor i x.endpoint.id (flipPatch x row)).setAttempt i
            (.sending { x with endpoint := (flipPatch x row).view e, flip := flipPatch x row })
      else none
    | _ => none
  | .send i result =>
    match s.attempts i with
    | some (.sending x) =>
      match buildRequest cfg.hmac x.now x.delivery x.event x.endpoint with
      | .error _ => none
      | .ok request =>
        some { s.setAttempt i (.responded x request result) with
               sends := s.sends ++ [⟨i, x.endpoint.id, x.observed, x.now⟩] }
    | _ => none
  | .loadOutcome i cached =>
    match s.attempts i with
    | some (.responded x request result) =>
      (s.loadEndpointRow x cached).map fun row =>
        s.setAttempt i (.outcomeLoaded x request result row)
    | _ => none
  | .writeOutcome i =>
    match s.attempts i with
    | some (.outcomeLoaded x request result row) =>
      if s.CanWrite i x.endpoint.id (outcomePatch cfg x result row) then
        some ((s.lockFor i x.endpoint.id (outcomePatch cfg x result row)).setAttempt i
          (.outcomeWritten x request result row))
      else none
    | _ => none
  | .loadDelivery i cached =>
    match s.attempts i with
    | some (.outcomeWritten x request result row) =>
      (s.loadDeliveryRow x cached).map fun loaded =>
        s.setAttempt i (.deliveryLoaded x request result row loaded)
    | _ => none
  | .commit i draw rowId rowCreatedAt =>
    match s.attempts i with
    | some (.deliveryLoaded x request result row loaded) =>
      (s.commitOutcome cfg x request result row loaded draw rowId rowCreatedAt).map
        fun (db, e) =>
          { (s.unlock i).setAttempt i .recorded with
            db := db
            openings :=
              if opens (attemptPatch cfg x result row) e then
                Function.update s.openings x.endpoint.id (s.openings x.endpoint.id + 1)
              else s.openings
            outcomes := s.outcomes ++
              [⟨x.delivery.id, x.endpoint.id, x.now, result.succeeded⟩] }
    | _ => none
  | .failAttempt i =>
    match s.attempts i with
    | some p => if p.isOver then none else some ((s.unlock i).setAttempt i .failed)
    | none => none
  | .readReplay j id tenantId =>
    match s.replays j with
    | none =>
      match s.db.deliveries.get id with
      | some d => some (s.setReplay j (.read d tenantId))
      | none => some (s.setReplay j (.raised (.deliveryNotFound id)))
    | some _ => none
  | .checkReplay j =>
    match s.replays j with
    | some (.read d tenantId) => some (s.setReplay j (s.afterCheckReplay d tenantId))
    | _ => none
  | .loadReplay j cached =>
    match s.replays j with
    | some (.checked d) =>
      (if cached then some d else s.db.deliveries.get d.id).map fun row =>
        s.setReplay j (.loaded d row)
    | _ => none
  | .commitReplay j =>
    match s.replays j with
    | some (.loaded d row) =>
      (s.db.deliveries.get d.id).map fun c =>
        { s.setReplay j (.committed d.id) with
          db.deliveries :=
            s.db.deliveries.update ((DeliveryPatch.ofWrite .resetForReplay row).apply c) }
    | _ => none
  | .enqueueReplay j =>
    match s.replays j with
    | some (.committed id) =>
      some { s.setReplay j .replayed with stream := s.stream.enqueueDelivery id }
    | _ => none
  | .interruptReplay j =>
    match s.replays j with
    | some (.committed _) => some (s.setReplay j (.interrupted true))
    | some p => if p.isOver then none else some (s.setReplay j (.interrupted false))
    | none => none

end Engine

end RelayWebhooks
