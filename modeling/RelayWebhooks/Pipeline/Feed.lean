import RelayWebhooks.Infra.AttemptEvents
import RelayWebhooks.Pipeline.Gone
import RelayWebhooks.Pipeline.Tenancy
import RelayWebhooks.Py.Integer
import Mathlib.Data.List.Forall2
import Mathlib.Data.List.Perm.Subperm

/-! The live feed of the attempts. A worker publishes after its commit, as well as it can; what
subscribers see is compared with the attempt rows in the store. -/
namespace RelayWebhooks

def AttemptErrorClass.value : AttemptErrorClass → String
  | .httpError => "http_error"
  | .timeout => "timeout"
  | .connectionError => "connection_error"
  | .ssrfBlocked => "ssrf_blocked"

/-- The arguments of `_publish`. A deferral has no attempt number. -/
structure AttemptOutcome where
  tenantId : UUID
  delivery : Delivery
  breakerState : BreakerState
  attemptNo : Option ℕ
  latencyMs : ℤ
  responseStatus : Option ℤ
  errorClass : Option AttemptErrorClass
  requestHeaders : Option (List (PyText × PyText)) := none

namespace AttemptOutcome

/-- The event that is sent at a time. -/
def event (o : AttemptOutcome) (createdAt : ℤ) : AttemptEvent where
  deliveryId := o.delivery.id
  endpointId := o.delivery.endpointId
  eventId := o.delivery.eventId
  attemptNo := o.attemptNo.map fun n => (n : ℤ)
  deliveryState := .ofString o.delivery.state.value
  latencyMs := o.latencyMs
  responseStatus := o.responseStatus
  errorClass := o.errorClass.map fun c => .ofString c.value
  nextRetryAt := o.delivery.nextRetryAt
  breakerState := .ofString o.breakerState.value
  createdAt
  requestHeaders := o.requestHeaders

/-- The attempt row and the outcome tell the same. -/
structure RecordedAs (o : AttemptOutcome) (a : DeliveryAttempt) : Prop where
  delivery : a.deliveryId = o.delivery.id
  attemptNo : o.attemptNo = some a.attemptNo
  latencyMs : a.latencyMs = o.latencyMs
  responseStatus : a.responseStatus = o.responseStatus
  errorClass : a.errorClass = o.errorClass
  requestHeaders : a.requestHeaders = o.requestHeaders

end AttemptOutcome

namespace DeliveryAttemptService

/-- What `attempt` publishes once it has committed and returned the row. -/
def outcomeOf (env : AttemptEnv) (send : OutboundRequest → OutboundHttpResult) (db : Db)
    (d : Delivery) (ev : Event) (e : Endpoint) (row : Delivery) : Except Raised AttemptOutcome := do
  match deferral env.settings env.now e with
  | some _ =>
    return { tenantId := ev.tenantId, delivery := row, breakerState := e.breakerState,
             attemptNo := none, latencyMs := 0, responseStatus := none, errorClass := none }
  | none =>
    let (_, e) ← flipIfOpen db e
    let request ← buildRequest env.hmac env.now d ev e
    let result := send request
    return { tenantId := ev.tenantId, delivery := row,
             breakerState := (breakerOutcome env.settings env.now e result).state,
             attemptNo := some (d.attemptCount + 1), latencyMs := result.latencyMs,
             responseStatus := result.statusCode, errorClass := result.errorClass,
             requestHeaders := some request.headers }

end DeliveryAttemptService

/-- The Pub/Sub channel of a tenant. -/
def channel (tenantId : UUID) : PyText :=
  .ofString "relay:attempts:tenant:" ++ uuidText tenantId

theorem channel_inj {u v : UUID} : channel u = channel v ↔ u = v := by
  constructor
  · intro h
    have htext : uuidText u = uuidText v := List.append_cancel_left h
    have hread := congrArg (uuidOfText id) htext
    rw [uuidOfText_uuidText, uuidOfText_uuidText] at hread
    exact Option.some.inj hread
  · rintro rfl
    rfl

/-- What Redis sends to the subscribers of the channel. -/
def publishAttemptEvent (published : List (PyText × PyText)) (tenantId : UUID)
    (event : AttemptEvent) : List (PyText × PyText) :=
  published ++ [(channel tenantId, event.toJson)]

theorem Db.createDeliveryAttempt_columns {db db' : Db} {id : UUID} {createdAt : ℤ}
    {a : NewAttempt} {row : DeliveryAttempt}
    (h : db.createDeliveryAttempt id createdAt a = .ok (db', row)) :
    row.latencyMs = a.latencyMs ∧ row.requestHeaders = a.requestHeaders := by
  unfold createDeliveryAttempt at h
  split at h
  next =>
    dsimp only at h
    split at h
    next => cases h; exact ⟨rfl, rfl⟩
    next => cases h
  next => cases h

namespace DeliveryAttemptService

/-- A committed attempt has an outcome: a deferral that leaves the attempt rows alone, or one that
is recorded as the row it adds. -/
theorem finishAttempt_outcome {env : AttemptEnv} {send : OutboundRequest → OutboundHttpResult}
    {db db' : Db} {d row : Delivery} {ev : Event} {e : Endpoint}
    (h : finishAttempt env send db d ev e = .ok (db', row)) :
    ∃ o, outcomeOf env send db d ev e row = .ok o ∧ o.delivery = row ∧ o.tenantId = ev.tenantId ∧
      ((o.attemptNo = none ∧ db'.deliveryAttempts = db.deliveryAttempts) ∨
        ∃ a, o.RecordedAs a ∧ db'.deliveryAttempts.rows = db.deliveryAttempts.rows ++ [a]) := by
  have hid : row.id = d.id := by
    obtain ⟨write, d₀, -, hd₀, hrow⟩ := (finishAttempt_ok h).written
    have hid : d₀.id = d.id := Table.key_of_get hd₀
    rw [hrow, DeliveryWrite.apply_id, hid]
  unfold finishAttempt at h
  unfold outcomeOf
  cases hdefer : deferral env.settings env.now e with
  | some u =>
    rw [hdefer] at h
    obtain ⟨d₀, -, -, rfl⟩ := Db.writeDelivery_ok h
    exact ⟨_, rfl, rfl, rfl, .inl ⟨rfl, rfl⟩⟩
  | none =>
    rw [hdefer] at h
    obtain ⟨⟨db₁, e₁⟩, hflip, h⟩ := bind_ok h
    obtain ⟨request, hbuild, h⟩ := bind_ok h
    obtain ⟨⟨db₂, e₂⟩, hrec, h⟩ := bind_ok h
    obtain ⟨⟨db₃, a⟩, hlog, h⟩ := bind_ok h
    obtain ⟨w, -, h⟩ := bind_ok h
    obtain ⟨hstatus, hclass⟩ := Db.createDeliveryAttempt_result hlog
    obtain ⟨hlatency, hheaders⟩ := Db.createDeliveryAttempt_columns hlog
    obtain ⟨log, hins, rfl, hdelivery, hno⟩ := Db.createDeliveryAttempt_ok hlog
    obtain ⟨d₀, -, -, rfl⟩ := Db.writeDelivery_ok h
    obtain ⟨endpoints, rfl, -, -⟩ := flipIfOpen_cases hflip
    obtain ⟨e₀, -, rfl⟩ := Db.writeEndpoint_ok hrec
    simp only [hflip, hbuild, bind, Except.bind, pure, Except.pure]
    refine ⟨_, rfl, rfl, rfl, .inr ⟨a, ?_, (Table.insert_eq_some.mp hins).2⟩⟩
    exact ⟨hdelivery.trans hid.symm, congrArg some hno.symm, hlatency, hstatus, hclass, hheaders⟩

end DeliveryAttemptService

namespace Pipeline
open DeliveryAttemptService

variable {le : RetryMember → RetryMember → Bool} {s t : Pipeline} {a : PipelineAction}

/-- The stored row of a delivery under attempt is still one of the same event. -/
def HoldsEvent (s : Pipeline) : Prop :=
  ∀ d ev e, s.Attempting d ev e → ∀ c, s.db.deliveries.get d.id = some c → c.eventId = d.eventId

theorem holdsEvent_init (h : Init s) : HoldsEvent s := by
  obtain ⟨-, -, -, -, hh⟩ := h
  rintro d ev e ⟨i, w, kind, hi⟩
  rw [hh] at hi
  cases hi

theorem HoldsEvent.step (hE : HoldsEvent s) (hI : Inv s []) (h : s.step le a = some t) :
    HoldsEvent t := by
  intro d ev e ht c hc
  have hcid : c.id = d.id := Table.key_of_get hc
  rcases rows_step h c (Table.mem_of_get hc) with ⟨c₀, hc₀, hid, hev, -⟩ | ⟨r, hins⟩
  · have hget : s.db.deliveries.get d.id = some c₀ := (hid.trans hcid) ▸ Table.get_of_mem hc₀
    rcases attempting_step h ht with hs | ⟨id, hload⟩
    · exact hev.symm.trans (hE d ev e hs c₀ hget)
    · obtain ⟨hd, -, -⟩ := loadRows_ok hload
      have hdid : d.id = id := Table.key_of_get hd
      obtain rfl : c₀ = d := Option.some.inj (hget.symm.trans (hdid ▸ hd))
      exact hev.symm
  · rcases attempting_step h ht with ⟨i, w, kind, hi⟩ | ⟨id, hload⟩
    · obtain ⟨⟨m, -, -, -, -, -, hnone⟩, -⟩ := hI.handlers i _ hi
      exact (hnone r c hins hcid).elim
    · obtain ⟨hd, -, -⟩ := loadRows_ok hload
      have hdid : d.id = id := Table.key_of_get hd
      obtain ⟨-, -, hnone⟩ := hI.inserted r c hins
      rw [hcid, hdid, hd] at hnone
      cases hnone

end Pipeline

/-- The pipeline, what its workers have committed and not yet published, every outcome committed so
far, and the messages that the channels have carried. -/
structure Feed where
  pipeline : Pipeline
  unpublished : List (ℕ × AttemptOutcome)
  outcomes : List AttemptOutcome
  published : List (PyText × PyText)

/-- A step of the pipeline, or the publication of the outcome of an entry in hand, which Redis
receives or which fails and is only logged. -/
inductive FeedAction where
  | work (a : PipelineAction)
  | publish (i : ℕ) (createdAt : ℤ) (received : Bool)

namespace Feed
open Pipeline DeliveryAttemptService

/-- The outcome that a commit leaves its worker to publish. -/
def committing (s t : Pipeline) : PipelineAction → Option (ℕ × AttemptOutcome)
  | .commitAttempt i env send =>
    match s.handlers i, t.handlers i with
    | some ⟨_, _, .attempting d ev e⟩, some ⟨_, _, .attempted row⟩ =>
      (outcomeOf env send s.db d ev e row).toOption.map fun o => (i, o)
    | _, _ => none
  | _ => none

/-- What a worker holds replaces what one that crashed has left at the same entry. -/
def record (x : Feed) (t : Pipeline) (a : PipelineAction) : Feed :=
  match committing x.pipeline t a with
  | some (i, o) =>
    { x with
      pipeline := t
      unpublished := x.unpublished.filter (·.1 ≠ i) ++ [(i, o)]
      outcomes := x.outcomes ++ [o] }
  | none => { x with pipeline := t }

/-- `attempt` returns only after `_publish`. -/
def returns (x : Feed) : PipelineAction → Bool
  | .scheduleRetry i => !x.unpublished.any (·.1 = i)
  | _ => true

def publish (x : Feed) (i : ℕ) (createdAt : ℤ) (received : Bool) : Option Feed :=
  match x.pipeline.handlers i, x.unpublished.find? (·.1 = i) with
  | some ⟨_, _, .attempted _⟩, some (_, o) =>
    some { x with
      unpublished := x.unpublished.filter (·.1 ≠ i)
      published :=
        if received then publishAttemptEvent x.published o.tenantId (o.event createdAt)
        else x.published }
  | _, _ => none

def step (le : RetryMember → RetryMember → Bool) (x : Feed) : FeedAction → Option Feed
  | .work a =>
    if x.returns a then (x.pipeline.step le a).map fun t => x.record t a else none
  | .publish i createdAt received => x.publish i createdAt received

/-- Nothing was attempted yet. -/
def Init (x : Feed) : Prop :=
  x.pipeline.Init ∧ x.pipeline.db.deliveryAttempts = .empty ∧ x.unpublished = [] ∧
    x.outcomes = [] ∧ x.published = []

/-- What the channel of the tenant has carried. A subscriber sees the part of it that comes while
the subscription lasts. -/
def subscribed (x : Feed) (tenantId : UUID) : List PyText :=
  (x.published.filter (·.1 = channel tenantId)).map Prod.snd

/-- The message is the event of the outcome, as of some time. -/
def Tells (message : PyText) (o : AttemptOutcome) : Prop :=
  ∃ createdAt, message = (o.event createdAt).toJson

def Announces (p : PyText × PyText) (o : AttemptOutcome) : Prop :=
  p.1 = channel o.tenantId ∧ Tells p.2 o

/-- The numbered outcomes are, one by one, the attempt rows ever written; a row that is not in the
store any more went with its delivery. -/
structure Logged (s : Pipeline) (outcomes : List AttemptOutcome) (log : List DeliveryAttempt) :
    Prop where
  records : List.Forall₂ AttemptOutcome.RecordedAs (outcomes.filter (·.attemptNo.isSome)) log
  stored : s.db.deliveryAttempts.rows.Sublist log
  kept : ∀ a ∈ log, a ∈ s.db.deliveryAttempts.rows ∨ Gone s a.deliveryId

/-- The outcome is of a delivery of the tenant's own event. -/
def OfTenant (events : Table Event) (o : AttemptOutcome) : Prop :=
  ∃ ev, events.get o.delivery.eventId = some ev ∧ ev.tenantId = o.tenantId

structure Inv (x : Feed) : Prop where
  carrier : Pipeline.Inv x.pipeline []
  stored : HoldsStored x.pipeline
  event : HoldsEvent x.pipeline
  logged : ∃ log, Logged x.pipeline x.outcomes log
  tenants : ∀ o ∈ x.outcomes, OfTenant x.pipeline.db.events o
  published : ∃ os, List.Forall₂ Announces x.published os ∧
    (os ++ x.unpublished.map Prod.snd).Subperm x.outcomes

variable {le : RetryMember → RetryMember → Bool} {x y : Feed} {s t : Pipeline}
  {a : PipelineAction} {outcomes : List AttemptOutcome} {log : List DeliveryAttempt}

/-- Only an attempt adds rows, and only the deletion of an endpoint takes some. -/
theorem attempts_step (h : s.step le a = some t) (hdelete : ∀ id, a ≠ .deleteEndpoint id)
    (hcommit : ∀ i env send, a ≠ .commitAttempt i env send) :
    t.db.deliveryAttempts = s.db.deliveryAttempts := by
  by_cases hdb : leavesDb a = true
  · exact congrArg Db.deliveryAttempts (db_of_leavesDb h hdb)
  by_cases htx : inTransaction a = true
  · exact congrArg Db.deliveryAttempts (db_of_inTransaction h htx)
  cases a with
  | ingest => exact (ingest_frame h).2.2.1
  | putEndpoint e =>
    obtain rfl := Option.some.inj h
    unfold Pipeline.putEndpoint
    split
    next => rfl
    next => rfl
  | deleteEndpoint id => exact (hdelete id rfl).elim
  | commitRelay => exact (commitRelay_frame h).2
  | commitAttempt i env send => exact (hcommit i env send rfl).elim
  | replay =>
    obtain ⟨_, _, row, -, -, -, -, rfl⟩ := replay_some h
    rfl
  | _ => first | exact absurd rfl hdb | exact absurd rfl htx

theorem Logged.quiet (hL : Logged s outcomes log) (hI : Pipeline.Inv s [])
    (h : s.step le a = some t) (hsame : t.db.deliveryAttempts = s.db.deliveryAttempts) :
    Logged t outcomes log where
  records := hL.records
  stored := hsame ▸ hL.stored
  kept r hr := (hL.kept r hr).imp (fun hmem => hsame ▸ hmem) fun hgone => hgone.step hI h

/-- The rows that the cascade takes are of deliveries that go with them. -/
theorem Logged.deleteEndpoint (hL : Logged s outcomes log) (hI : Pipeline.Inv s []) {id : UUID}
    (h : s.step le (.deleteEndpoint id) = some t) : Logged t outcomes log := by
  have hgone : ∀ k, Gone s k → Gone t k := fun k hk => hk.step hI h
  simp only [Pipeline.step, Pipeline.deleteEndpoint] at h
  split at h
  next => cases h
  next =>
    obtain rfl := Option.some.inj h
    refine ⟨hL.records, List.filter_sublist.trans hL.stored, fun r hr => ?_⟩
    rcases hL.kept r hr with hmem | hk
    · cases htaken : (s.db.deliveries.get r.deliveryId).any fun d => d.endpointId = id with
      | false => exact .inl (List.mem_filter.mpr ⟨hmem, by simp [htaken]⟩)
      | true =>
        obtain ⟨d, hd, hend⟩ := (Option.any_eq_true _ _).mp htaken
        have hid : d.id = r.deliveryId := Table.key_of_get hd
        right
        refine ⟨hid ▸ hI.issued d (Table.mem_of_get hd), ?_, fun k c hc heq => ?_⟩
        · show (s.db.deliveries.deleteWhere _).get r.deliveryId = none
          rw [Table.get_deleteWhere, hd]
          simpa using hend
        · obtain ⟨-, -, hnone⟩ := hI.inserted k c hc
          rw [heq, hd] at hnone
          cases hnone
    · exact .inr (hgone _ hk)

theorem committing_eq_none (hcommit : ∀ i env send, a ≠ .commitAttempt i env send) :
    committing s t a = none := by
  cases a with
  | commitAttempt i env send => exact (hcommit i env send rfl).elim
  | _ => rfl

/-- An attempt that commits leaves its outcome to publish; one that raises leaves nothing. -/
theorem committing_cases {i : ℕ} {env : AttemptEnv} {send : OutboundRequest → OutboundHttpResult}
    (h : s.commitAttempt i env send = some t) :
    (committing s t (.commitAttempt i env send) = none ∧ t.db = s.db) ∨
      ∃ d ev e row o, s.Attempting d ev e ∧ finishAttempt env send s.db d ev e = .ok (t.db, row) ∧
        outcomeOf env send s.db d ev e row = .ok o ∧
        committing s t (.commitAttempt i env send) = some (i, o) := by
  unfold Pipeline.commitAttempt at h
  split at h
  next w kind d ev e hh =>
    split at h
    next db row hfin =>
      obtain rfl := Option.some.inj h
      obtain ⟨o, ho, -⟩ := finishAttempt_outcome hfin
      have hself : (s.setHandler i (some ⟨w, kind, .attempted row⟩)).handlers i =
          some ⟨w, kind, .attempted row⟩ := setHandler_self ..
      refine .inr ⟨d, ev, e, row, o, ⟨i, w, kind, hh⟩, hfin, ho, ?_⟩
      simp only [committing, hh, hself, ho]
      rfl
    next err _ =>
      obtain rfl := Option.some.inj h
      refine .inl ⟨?_, rfl⟩
      simp only [committing, hh, setHandler_self]
      unfold afterError
      split_ifs <;> rfl
  next => cases h

theorem Logged.commit (hL : Logged s outcomes log) (hI : Pipeline.Inv s []) {i : ℕ}
    {env : AttemptEnv} {send : OutboundRequest → OutboundHttpResult} {d row : Delivery} {ev : Event}
    {e : Endpoint} {o : AttemptOutcome} (h : s.step le (.commitAttempt i env send) = some t)
    (hfin : finishAttempt env send s.db d ev e = .ok (t.db, row))
    (ho : outcomeOf env send s.db d ev e row = .ok o) :
    ∃ log', Logged t (outcomes ++ [o]) log' := by
  obtain ⟨o', ho', -, -, hrows⟩ := finishAttempt_outcome hfin
  obtain rfl : o' = o := Except.ok.inj (ho'.symm.trans ho)
  have hgone : ∀ k, Gone s k → Gone t k := fun k hk => hk.step hI h
  rcases hrows with ⟨hno, hsame⟩ | ⟨r, hr, hrows⟩
  · refine ⟨log, ?_, hsame ▸ hL.stored, fun r hr => ?_⟩
    · simpa [List.filter_append, hno] using hL.records
    · exact (hL.kept r hr).imp (fun hmem => hsame ▸ hmem) (hgone _)
  · refine ⟨log ++ [r], ?_, ?_, fun r' hr' => ?_⟩
    · have hnumbered : [o'].filter (·.attemptNo.isSome) = [o'] := by simp [hr.attemptNo]
      rw [List.filter_append, hnumbered]
      exact List.rel_append hL.records (.cons hr .nil)
    · rw [hrows]
      exact hL.stored.append (List.Sublist.refl _)
    · rw [hrows]
      rcases List.mem_append.mp hr' with hr' | hr'
      · exact (hL.kept r' hr').imp (List.mem_append_left _) (hgone _)
      · exact .inl (List.mem_append_right _ hr')

theorem Init.inv (h : Init x) : Inv x := by
  obtain ⟨hinit, hattempts, hunpublished, houtcomes, hpublished⟩ := h
  refine ⟨inv_init hinit, holdsStored_init hinit, holdsEvent_init hinit, ⟨[], ?_, ?_, ?_⟩, ?_,
    ⟨[], ?_, ?_⟩⟩
  · rw [houtcomes]
    exact .nil
  · rw [hattempts]
    exact List.Sublist.refl _
  · simp
  · simp [houtcomes]
  · rw [hpublished]
    exact .nil
  · simp [hunpublished]

theorem OfTenant.mono {events events' : Table Event} (h : Keeps events events') {o : AttemptOutcome}
    (ho : OfTenant events o) : OfTenant events' o := by
  obtain ⟨ev, hev, ht⟩ := ho
  exact ⟨ev, h _ _ hev, ht⟩

/-- The event of an open attempt is the stored one, so its tenant is told. -/
theorem ofTenant_commit (hS : HoldsStored s) (hE : HoldsEvent s) {env : AttemptEnv}
    {send : OutboundRequest → OutboundHttpResult} {db : Db} {d row : Delivery} {ev : Event}
    {e : Endpoint} {o : AttemptOutcome} (hopen : s.Attempting d ev e)
    (hfin : finishAttempt env send s.db d ev e = .ok (db, row))
    (ho : outcomeOf env send s.db d ev e row = .ok o) : OfTenant s.db.events o := by
  obtain ⟨o', ho', hrow, ht, -⟩ := finishAttempt_outcome hfin
  obtain rfl : o' = o := Except.ok.inj (ho'.symm.trans ho)
  obtain ⟨write, d₀, -, hd₀, hwritten⟩ := (finishAttempt_ok hfin).written
  obtain ⟨hev, -⟩ := hS d ev e hopen
  refine ⟨ev, ?_, ht.symm⟩
  rw [hrow, hwritten, DeliveryWrite.apply_eventId, hE d ev e hopen d₀ hd₀]
  exact hev

/-- A step that leaves nothing to publish. -/
theorem Inv.quiet (hI : Inv x) (h : x.pipeline.step le a = some t)
    (hL : ∃ log, Logged t x.outcomes log) : Inv { x with pipeline := t } where
  carrier := hI.carrier.step h
  stored := hI.stored.step h
  event := hI.event.step hI.carrier h
  logged := hL
  tenants o ho := (hI.tenants o ho).mono (keeps_step h)
  published := hI.published

theorem Inv.commit (hI : Inv x) {i : ℕ} {env : AttemptEnv}
    {send : OutboundRequest → OutboundHttpResult} {d row : Delivery} {ev : Event} {e : Endpoint}
    {o : AttemptOutcome} (h : x.pipeline.step le (.commitAttempt i env send) = some t)
    (hopen : x.pipeline.Attempting d ev e)
    (hfin : finishAttempt env send x.pipeline.db d ev e = .ok (t.db, row))
    (ho : outcomeOf env send x.pipeline.db d ev e row = .ok o) :
    Inv { x with
      pipeline := t
      unpublished := x.unpublished.filter (·.1 ≠ i) ++ [(i, o)]
      outcomes := x.outcomes ++ [o] } := by
  obtain ⟨log, hL⟩ := hI.logged
  obtain ⟨os, hos, hsub⟩ := hI.published
  have htenant := ofTenant_commit hI.stored hI.event hopen hfin ho
  refine ⟨hI.carrier.step h, hI.stored.step h, hI.event.step hI.carrier h,
    hL.commit hI.carrier h hfin ho, fun o' ho' => ?_, os, hos, ?_⟩
  · have hkeep := keeps_step h
    rcases List.mem_append.mp ho' with ho' | ho'
    · exact (hI.tenants o' ho').mono hkeep
    · exact (List.mem_singleton.mp ho' ▸ htenant).mono hkeep
  · have hfewer : ((x.unpublished.filter (·.1 ≠ i)).map Prod.snd).Sublist
        (x.unpublished.map Prod.snd) := List.filter_sublist.map _
    have hkept := ((List.Sublist.refl os).append hfewer).subperm.trans hsub
    rw [List.map_append, ← List.append_assoc]
    exact hkept.append (List.Subperm.refl [o])

theorem Inv.record (hI : Inv x) (h : x.pipeline.step le a = some t) : Inv (x.record t a) := by
  obtain ⟨log, hL⟩ := hI.logged
  unfold Feed.record
  by_cases hcommit : ∀ i env send, a ≠ .commitAttempt i env send
  · rw [committing_eq_none hcommit]
    by_cases hdelete : ∀ id, a ≠ .deleteEndpoint id
    · exact hI.quiet h ⟨log, hL.quiet hI.carrier h (attempts_step h hdelete hcommit)⟩
    · push Not at hdelete
      obtain ⟨id, rfl⟩ := hdelete
      exact hI.quiet h ⟨log, hL.deleteEndpoint hI.carrier h⟩
  · push Not at hcommit
    obtain ⟨i, env, send, rfl⟩ := hcommit
    rcases committing_cases h with ⟨hnone, hdb⟩ | ⟨d, ev, e, row, o, hopen, hfin, ho, hsome⟩
    · rw [hnone]
      exact hI.quiet h ⟨log, hL.quiet hI.carrier h (congrArg Db.deliveryAttempts hdb)⟩
    · rw [hsome]
      exact hI.commit h hopen hfin ho

/-- A worker publishes what it holds, and holds it no longer. -/
theorem subperm_find {us : List (ℕ × AttemptOutcome)} {i j : ℕ} {o : AttemptOutcome}
    (h : us.find? (·.1 = i) = some (j, o)) :
    (o :: (us.filter (·.1 ≠ i)).map Prod.snd).Subperm (us.map Prod.snd) := by
  have hj := List.find?_some h
  have hmem : (j, o) ∈ us.filter (·.1 = i) :=
    List.mem_filter.mpr ⟨List.mem_of_find?_eq_some h, hj⟩
  have hparts : ([(j, o)] ++ us.filter (·.1 ≠ i)).Sublist
      (us.filter (·.1 = i) ++ us.filter fun u => !decide (u.1 = i)) := by
    refine (List.singleton_sublist.mpr hmem).append ?_
    simp
  exact (hparts.map Prod.snd).subperm.trans ((List.filter_append_perm _ us).map _).subperm

theorem Inv.publish (hI : Inv x) {i : ℕ} {createdAt : ℤ} {received : Bool}
    (h : x.publish i createdAt received = some y) : Inv y := by
  obtain ⟨os, hos, hsub⟩ := hI.published
  unfold Feed.publish at h
  split at h
  next j o _ hfind =>
    obtain rfl := Option.some.inj h
    have hheld := subperm_find hfind
    refine { hI with published := ?_ }
    cases received with
    | true =>
      refine ⟨os ++ [o], List.rel_append hos (.cons ⟨rfl, createdAt, rfl⟩ .nil), ?_⟩
      rw [List.append_assoc]
      exact ((List.subperm_append_left os).mpr hheld).trans hsub
    | false =>
      have hdropped := List.Subperm.cons_self.trans hheld
      exact ⟨os, hos, ((List.subperm_append_left os).mpr hdropped).trans hsub⟩
  next => cases h

theorem Inv.step (hI : Inv x) {act : FeedAction} (h : x.step le act = some y) : Inv y := by
  cases act with
  | work a =>
    simp only [Feed.step] at h
    split at h
    next =>
      obtain ⟨t, ht, rfl⟩ := Option.map_eq_some_iff.mp h
      exact hI.record ht
    next => cases h
  | publish i createdAt received => exact hI.publish h

/-- The events on the channel of a tenant are of outcomes of its own. -/
theorem subscribed_tells {os : List AttemptOutcome} (h : List.Forall₂ Announces x.published os)
    (tenantId : UUID) :
    List.Forall₂ Tells (x.subscribed tenantId) (os.filter (·.tenantId = tenantId)) := by
  unfold subscribed
  rw [List.forall₂_map_left_iff]
  have hsame : ∀ p o, Announces p o → (p.1 = channel tenantId ↔ o.tenantId = tenantId) := by
    rintro p o ⟨hp, -⟩
    rw [hp, channel_inj]
  have hboth : List.Forall₂ Announces (x.published.filter (·.1 = channel tenantId))
      (os.filter (·.tenantId = tenantId)) :=
    List.rel_filter (fun p o hpo => by simpa using hsame p o hpo) h
  exact hboth.imp fun _ _ hpo => hpo.2

/-- In every run, whatever the workers interleave, and whenever they crash or Redis fails: the
channel of a tenant carries only events of that tenant's outcomes that were committed before, and
none of them twice. The outcomes that have a number are, one by one, the attempt rows ever written,
in their order and with the same result; a deferral has no number and no row. An attempt row is
missing from the store only if its delivery is gone. Each outcome is of a delivery of an event of
the tenant's own. -/
theorem feed_agrees (le : RetryMember → RetryMember → Bool) (x y : Feed) (as : List FeedAction)
    (hx : Init x) (h : Transition.run (step le) x as = some y) :
    (∀ tenantId, ∃ os, List.Forall₂ Tells (y.subscribed tenantId) os ∧
      os.Subperm (y.outcomes.filter (·.tenantId = tenantId))) ∧
    (∃ log, List.Forall₂ AttemptOutcome.RecordedAs (y.outcomes.filter (·.attemptNo.isSome)) log ∧
      y.pipeline.db.deliveryAttempts.rows.Sublist log ∧
      ∀ a ∈ log, a ∈ y.pipeline.db.deliveryAttempts.rows ∨ Gone y.pipeline a.deliveryId) ∧
    ∀ o ∈ y.outcomes, OfTenant y.pipeline.db.events o := by
  have hI : Inv y := Transition.run_invariant (fun _ _ _ hI h => hI.step h) hx.inv h
  obtain ⟨log, hL⟩ := hI.logged
  obtain ⟨os, hos, hsub⟩ := hI.published
  refine ⟨fun tenantId => ?_, ⟨log, hL.records, hL.stored, hL.kept⟩, hI.tenants⟩
  have hcommitted := (List.sublist_append_left os _).subperm.trans hsub
  exact ⟨_, subscribed_tells hos tenantId, hcommitted.filter _⟩

def sampleFeed : Feed := ⟨samplePipeline, [], [], []⟩

/-- The attempt is answered with a 500, and its outcome is published. -/
def publishingRun : List FeedAction := (sampleRun.take 9).map .work ++ [.publish 0 7 true]

theorem feed_agrees_sample :
    ∃ y m o a, Transition.run (step fun _ _ => true) sampleFeed publishingRun = some y ∧
      y.subscribed 9 = [m] ∧ y.outcomes = [o] ∧ y.pipeline.db.deliveryAttempts.rows = [a] ∧
      Tells m o ∧ o.RecordedAs a ∧ OfTenant y.pipeline.db.events o := by
  obtain ⟨y, hy⟩ : ∃ y, Transition.run (step fun _ _ => true) sampleFeed publishingRun = some y :=
    ⟨_, rfl⟩
  have hsizes : (Transition.run (step fun _ _ => true) sampleFeed publishingRun).map
      (fun y => (y.published.map Prod.fst, y.outcomes.map (·.attemptNo),
        y.pipeline.db.deliveryAttempts.rows.length)) = some ([channel 9], [some 1], 1) := rfl
  rw [hy] at hsizes
  simp only [Option.map_some, Option.some.injEq, Prod.mk.injEq] at hsizes
  obtain ⟨hpublished, houtcomes, hrows⟩ := hsizes
  obtain ⟨p, hp, hchannel⟩ := List.map_eq_singleton_iff.mp hpublished
  obtain ⟨o, ho, hno⟩ := List.map_eq_singleton_iff.mp houtcomes
  obtain ⟨a, ha⟩ := List.length_eq_one_iff.mp hrows
  have hsubscribed : y.subscribed 9 = [p.2] := by simp [subscribed, hp, hchannel]
  have hnumbered : y.outcomes.filter (·.attemptNo.isSome) = [o] := by simp [ho, hno]
  obtain ⟨hfeed, ⟨log, hlog, hstored, -⟩, htenants⟩ :=
    feed_agrees (fun _ _ => true) sampleFeed y publishingRun
      ⟨⟨rfl, rfl, rfl, rfl, rfl⟩, rfl, rfl, rfl, rfl⟩ hy
  obtain ⟨os, hos, hsub⟩ := hfeed 9
  rw [hsubscribed, List.forall₂_cons_left_iff] at hos
  obtain ⟨o', _, htells, hnil, rfl⟩ := hos
  have hmem : o' ∈ y.outcomes := List.mem_of_mem_filter (hsub.subset List.mem_cons_self)
  obtain rfl : o' = o := by simpa [ho] using hmem
  rw [hnumbered, List.forall₂_cons_left_iff] at hlog
  obtain ⟨a', _, hrecorded, hlast, rfl⟩ := hlog
  obtain rfl := List.forall₂_nil_left_iff.mp hlast
  rw [ha] at hstored
  obtain rfl : a = a' := by simpa using hstored
  exact ⟨y, p.2, o', a, hy, hsubscribed, ho, ha, htells, hrecorded, htenants o' hmem⟩

end Feed
end RelayWebhooks
