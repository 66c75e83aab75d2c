import RelayWebhooks.Repositories.Db
import RelayWebhooks.Infra.Settings
import RelayWebhooks.Infra.Http

/-! One delivery attempt executed on its own: what it reads, what it sends and what it
commits. Any exception rolls the unit of work back. -/
namespace RelayWebhooks

/-- What an attempt takes from outside the database: the clock, the random jitter, the keyed
hash, and the key and time the store gives to a new attempt row. -/
structure AttemptEnv where
  settings : Settings := {}
  hmac : Hmac
  now : ℤ
  draw : ℚ
  rowId : UUID
  rowCreatedAt : ℤ

namespace DeliveryAttemptService

def loadRows (db : Db) (id : UUID) : Except Raised (Delivery × Event × Endpoint) :=
  match db.deliveries.get id with
  | none => .error (.deliveryNotFound id)
  | some d =>
    match db.events.get d.eventId with
    | none => .error (.eventNotFound d.eventId)
    | some ev =>
      match db.endpoints.get d.endpointId with
      | none => .error (.endpointNotFound d.endpointId)
      | some e => .ok (d, ev, e)

/-- The time an open breaker defers the delivery to; `none` lets the attempt through. -/
def deferral (settings : Settings) (now : ℤ) (e : Endpoint) : Option ℤ :=
  if shouldSkipForOpenBreaker e.breakerState e.openedAt now settings.breakerCooldown then
    e.openedAt.map (· + settings.breakerCooldown)
  else none

/-- Cooldown elapsed: an open breaker goes half open before the probe is sent. -/
def flipIfOpen (db : Db) (e : Endpoint) : Except Raised (Db × Endpoint) :=
  if e.breakerState = .opened then db.setBreakerState e.id .halfOpen e.openedAt
  else .ok (db, e)

def buildRequest (hmac : Hmac) (now : ℤ) (d : Delivery) (ev : Event) (e : Endpoint) :
    Except Raised OutboundRequest :=
  match encodePayload ev.payload with
  | .error r => .error r
  | .ok payload =>
    let timestamp := unixSeconds now
    .ok { url := e.url, payload,
          headers := requestHeaders (sign hmac e.secret timestamp payload) timestamp d.id }

/-- The breaker columns an outcome leaves, from the endpoint row the attempt holds. -/
def breakerOutcome (settings : Settings) (now : ℤ) (e : Endpoint) (result : OutboundHttpResult) :
    BreakerTransition :=
  nextBreakerState e.breakerState e.consecutiveFailures now result.succeeded
    settings.breakerFailureThreshold

/-- The delivery write an outcome leads to, from the attempt count the attempt read. -/
def deliveryOutcome (settings : Settings) (now : ℤ) (draw : ℚ) (attemptCount : ℕ)
    (result : OutboundHttpResult) : Except Raised DeliveryWrite :=
  if result.succeeded then .ok .markDelivered
  else if settings.deliveryMaxAttempts ≤ attemptCount + 1 then .ok .markDead
  else
    match computeBackoffSeconds attemptCount draw with
    | .error b => .error (.backoff b)
    | .ok s => .ok (.markRetrying (now + timedeltaSeconds s))

/-- The state a recorded outcome gives the delivery. -/
def outcomeState (settings : Settings) (attemptCount : ℕ) (result : OutboundHttpResult) :
    DeliveryState :=
  if result.succeeded then .delivered
  else if settings.deliveryMaxAttempts ≤ attemptCount + 1 then .dead
  else .retrying

def newAttempt (d : Delivery) (request : OutboundRequest) (result : OutboundHttpResult) :
    Db.NewAttempt where
  deliveryId := d.id
  attemptNo := d.attemptCount + 1
  latencyMs := result.latencyMs
  responseStatus := result.statusCode
  errorClass := result.errorClass
  requestSnippet := some (requestSnippet request.payload)
  responseSnippet := result.responseSnippet
  requestHeaders := some request.headers

/-- Everything after the response, up to the commit. -/
def recordOutcome (env : AttemptEnv) (db : Db) (d : Delivery) (e : Endpoint)
    (request : OutboundRequest) (result : OutboundHttpResult) : Except Raised (Db × Delivery) := do
  let (db, _) ← db.recordDeliveryOutcome e.id (breakerOutcome env.settings env.now e result)
  let (db, _) ← db.createDeliveryAttempt env.rowId env.rowCreatedAt (newAttempt d request result)
  let w ← deliveryOutcome env.settings env.now env.draw d.attemptCount result
  db.writeDelivery w d.id

/-- The database an attempt commits and the delivery it returns. `send` is what the outbound
adapter returns for a request. -/
def attempt (env : AttemptEnv) (send : OutboundRequest → OutboundHttpResult) (db : Db)
    (id : UUID) : Except Raised (Db × Delivery) := do
  let (d, ev, e) ← loadRows db id
  match deferral env.settings env.now e with
  | some nextRetryAt => db.reschedule d.id nextRetryAt
  | none =>
    let (db, e) ← flipIfOpen db e
    let request ← buildRequest env.hmac env.now d ev e
    recordOutcome env db d e request (send request)

/-- The breaker of the endpoint lets the attempt send. -/
def Allows (settings : Settings) (now : ℤ) (e : Endpoint) : Prop :=
  shouldSkipForOpenBreaker e.breakerState e.openedAt now settings.breakerCooldown = false

/-- The send left its record: one new attempt row numbered after the count, the count one
higher, and an outcome state. -/
def Recorded (db db' : Db) (d : Delivery) : Prop :=
  ∃ d' row, db'.deliveries.get d.id = some d' ∧
    db'.deliveryAttempts.rows = db.deliveryAttempts.rows ++ [row] ∧
    row.deliveryId = d.id ∧ row.attemptNo = d.attemptCount + 1 ∧
    d'.attemptCount = d.attemptCount + 1 ∧
    (d'.state = .delivered ∨ d'.state = .retrying ∨ d'.state = .dead)

/-- The outcome can be written: the response text is storable, and a failure that is to be
retried has a delay. -/
def Recordable (settings : Settings) (attemptCount : ℕ) (result : OutboundHttpResult) : Prop :=
  (∀ t, result.responseSnippet = some t → storable t = true) ∧
    (result.succeeded = true ∨ settings.deliveryMaxAttempts ≤ attemptCount + 1 ∨
      attemptCount < doubleExponentLimit)

variable {env : AttemptEnv} {db : Db} {d : Delivery} {ev : Event} {e : Endpoint}

theorem loadRows_eq {id : UUID} (hd : db.deliveries.get id = some d)
    (hev : db.events.get d.eventId = some ev) (he : db.endpoints.get d.endpointId = some e) :
    loadRows db id = .ok (d, ev, e) := by
  simp [loadRows, hd, hev, he]

theorem deferral_eq_none {settings : Settings} {now : ℤ} :
    deferral settings now e = none ↔ Allows settings now e := by
  unfold deferral Allows
  cases hs : shouldSkipForOpenBreaker e.breakerState e.openedAt now settings.breakerCooldown with
  | false => simp
  | true =>
    obtain ⟨-, t, ht, -⟩ := shouldSkip_eq_true.mp hs
    simp [ht]

/-- The flip changes the breaker columns of its own row only. -/
theorem flipIfOpen_ok (he : db.endpoints.get e.id = some e) :
    ∃ e', flipIfOpen db e = .ok ({ db with endpoints := db.endpoints.update e' }, e') ∧
      e'.id = e.id ∧ e'.url = e.url ∧ e'.secret = e.secret := by
  unfold flipIfOpen
  split
  next h =>
    exact ⟨_, Db.writeEndpoint_of_get _ he, rfl, rfl, rfl⟩
  next h =>
    refine ⟨e, ?_, rfl, rfl, rfl⟩
    rw [Table.update_eq_self (r := e) he]

theorem buildRequest_ok (hmac : Hmac) (now : ℤ) (d : Delivery) (ev : Event) (e : Endpoint) :
    ∃ request, buildRequest hmac now d ev e = .ok request ∧
      request.payload = ev.payload.dumps.map fun c => UInt8.ofNat c := by
  unfold buildRequest
  rw [encodePayload_eq]
  exact ⟨_, rfl, rfl⟩

/-- The request depends on the endpoint through its url and its secret. -/
theorem buildRequest_congr (hmac : Hmac) (now : ℤ) (d : Delivery) (ev : Event) {e e' : Endpoint}
    (hu : e'.url = e.url) (hs : e'.secret = e.secret) :
    buildRequest hmac now d ev e' = buildRequest hmac now d ev e := by
  unfold buildRequest
  rw [hu, hs]

theorem deliveryOutcome_isOk {settings : Settings} {now : ℤ} {draw : ℚ} {n : ℕ}
    {result : OutboundHttpResult} :
    (∃ w, deliveryOutcome settings now draw n result = .ok w) ↔
      result.succeeded = true ∨ settings.deliveryMaxAttempts ≤ n + 1 ∨
        n < doubleExponentLimit := by
  unfold deliveryOutcome
  split
  next h => simp [h]
  next h =>
    split
    next hm => simp [hm]
    next hm =>
      have hb := computeBackoffSeconds_isOk n draw
      cases hc : computeBackoffSeconds n draw with
      | error b =>
        have hn : ¬n < doubleExponentLimit := by
          intro hlt
          obtain ⟨s, hs⟩ := hb.mpr hlt
          simp [hc] at hs
        simp [h, hm, hn]
      | ok s =>
        have hn : n < doubleExponentLimit := hb.mp ⟨s, hc⟩
        simp [hn]

theorem deliveryOutcome_state {settings : Settings} {now : ℤ} {draw : ℚ} {n : ℕ}
    {result : OutboundHttpResult} {w : DeliveryWrite}
    (h : deliveryOutcome settings now draw n result = .ok w) :
    w.state = outcomeState settings n result := by
  unfold deliveryOutcome at h
  unfold outcomeState
  split at h
  next hs =>
    cases h
    rw [if_pos hs]
    rfl
  next hs =>
    rw [if_neg hs]
    split at h
    next hm =>
      cases h
      rw [if_pos hm]
      rfl
    next hm =>
      rw [if_neg hm]
      split at h
      next => cases h
      next => cases h; rfl

theorem deliveryOutcome_count {settings : Settings} {now : ℤ} {draw : ℚ} {n : ℕ}
    {result : OutboundHttpResult} {w : DeliveryWrite}
    (h : deliveryOutcome settings now draw n result = .ok w) (d : Delivery) :
    (w.apply d).attemptCount = d.attemptCount + 1 := by
  unfold deliveryOutcome at h
  split at h
  next => cases h; rfl
  next =>
    split at h
    next => cases h; rfl
    next =>
      split at h
      next => cases h
      next => cases h; rfl

theorem outcomeState_cases (settings : Settings) (n : ℕ) (result : OutboundHttpResult) :
    outcomeState settings n result = .delivered ∨ outcomeState settings n result = .retrying ∨
      outcomeState settings n result = .dead := by
  unfold outcomeState
  split_ifs <;> simp

theorem recordOutcome_isOk {request : OutboundRequest} {result : OutboundHttpResult}
    (hd : db.deliveries.get d.id = some d) (he : db.endpoints.get e.id = some e)
    (hid : db.deliveryAttempts.get env.rowId = none)
    (hreq : storable (requestSnippet request.payload) = true) :
    (∃ r, recordOutcome env db d e request result = .ok r) ↔
      Recordable env.settings d.attemptCount result := by
  have hcreate : ∀ endpoints, (∃ r, ({ db with endpoints } : Db).createDeliveryAttempt env.rowId
      env.rowCreatedAt (newAttempt d request result) = .ok r) ↔
        ∀ t, result.responseSnippet = some t → storable t = true := by
    intro endpoints
    have hnew : db.deliveries.get (newAttempt d request result).deliveryId = some d := hd
    refine Iff.trans (Db.createDeliveryAttempt_isOk hnew hid) ?_
    simp only [Db.storeText_isSome, newAttempt, Option.some.injEq, forall_eq']
    exact and_iff_right hreq
  unfold recordOutcome Db.recordDeliveryOutcome Recordable
  have hout := @deliveryOutcome_isOk env.settings env.now env.draw d.attemptCount result
  rw [Db.writeEndpoint_of_get _ he, ← hout, ← hcreate]
  simp only [bind, Except.bind]
  constructor
  · rintro ⟨r, hr⟩
    split at hr
    next => cases hr
    next p hp =>
      split at hr
      next => cases hr
      next w hw => exact ⟨⟨p, hp⟩, w, hw⟩
  · rintro ⟨⟨⟨db', row⟩, hp⟩, w, hw⟩
    obtain ⟨log, -, rfl, -⟩ := Db.createDeliveryAttempt_ok hp
    rw [hp]
    dsimp only
    rw [hw]
    exact ⟨_, Db.writeDelivery_of_get w hd⟩

theorem recordOutcome_recorded {request : OutboundRequest} {result : OutboundHttpResult}
    {db' : Db} {d' : Delivery} (hd : db.deliveries.get d.id = some d)
    (he : db.endpoints.get e.id = some e)
    (h : recordOutcome env db d e request result = .ok (db', d')) : Recorded db db' d := by
  unfold recordOutcome Db.recordDeliveryOutcome at h
  rw [Db.writeEndpoint_of_get _ he] at h
  simp only [bind, Except.bind] at h
  split at h
  next => cases h
  next p hp =>
    obtain ⟨db₁, row⟩ := p
    obtain ⟨log, hlog, rfl, hid, hno⟩ := Db.createDeliveryAttempt_ok hp
    split at h
    next => cases h
    next w hw =>
      dsimp only at h
      rw [Db.writeDelivery_of_get (d := d) w (by exact hd)] at h
      cases h
      refine ⟨w.apply d, row, ?_, (Table.insert_eq_some.mp hlog).2, hid, hno,
        deliveryOutcome_count hw d, ?_⟩
      · have hself := Table.get_update_self (t := db.deliveries) (r := w.apply d) (x := d)
        simpa using hself (by simpa using hd)
      · rw [DeliveryWrite.apply_state, deliveryOutcome_state hw]
        exact outcomeState_cases _ _ _

/-- What an attempt that is let through does, up to the row the flip leaves. -/
theorem attempt_eq_recordOutcome (send : OutboundRequest → OutboundHttpResult) {id : UUID}
    (hd : db.deliveries.get id = some d) (hev : db.events.get d.eventId = some ev)
    (he : db.endpoints.get d.endpointId = some e) (hallow : Allows env.settings env.now e) :
    ∃ e' request, e'.id = e.id ∧ buildRequest env.hmac env.now d ev e = .ok request ∧
      storable (requestSnippet request.payload) = true ∧
      attempt env send db id =
        recordOutcome env { db with endpoints := db.endpoints.update e' } d e' request
          (send request) := by
  have hend : e.id = d.endpointId := Table.key_of_get he
  obtain ⟨e', hflip, hid, hurl, hsecret⟩ := flipIfOpen_ok (hend ▸ he)
  obtain ⟨request, hreq, hpayload⟩ := buildRequest_ok env.hmac env.now d ev e
  refine ⟨e', request, hid, hreq, ?_, ?_⟩
  · rw [hpayload]
    exact requestSnippet_storable ev.payload
  · unfold attempt
    rw [loadRows_eq hd hev he]
    simp only [bind, Except.bind, deferral_eq_none.mpr hallow]
    rw [hflip]
    dsimp only
    rw [buildRequest_congr _ _ _ _ hurl hsecret, hreq]

/-- A send that is let through is recorded, whatever the destination answers, exactly when the
response text is storable (it encodes as UTF-8 and has no U+0000) and a failure that is to be
retried still has a delay. -/
theorem attempt_records_iff (env : AttemptEnv) (send : OutboundRequest → OutboundHttpResult)
    (db : Db) (id : UUID) (d : Delivery) (ev : Event) (e : Endpoint)
    (hd : db.deliveries.get id = some d) (hev : db.events.get d.eventId = some ev)
    (he : db.endpoints.get d.endpointId = some e) (hallow : Allows env.settings env.now e)
    (hid : db.deliveryAttempts.get env.rowId = none) :
    ∃ request, buildRequest env.hmac env.now d ev e = .ok request ∧
      ((∃ db' d', attempt env send db id = .ok (db', d') ∧ Recorded db db' d) ↔
        Recordable env.settings d.attemptCount (send request)) := by
  obtain ⟨e', request, hid', hreq, hstorable, heq⟩ := attempt_eq_recordOutcome send hd hev he hallow
  have hdid : d.id = id := Table.key_of_get hd
  have hend : e.id = d.endpointId := Table.key_of_get he
  have hself : (db.endpoints.update e').get e'.id = some e' := by
    refine Table.get_update_self (r := e') (x := e) ?_
    rw [Endpoint.key_eq, hid', hend, he]
  let db₁ : Db := { db with endpoints := db.endpoints.update e' }
  have hd₁ : db₁.deliveries.get d.id = some d := hdid ▸ hd
  refine ⟨request, hreq, ?_⟩
  rw [heq, ← recordOutcome_isOk hd₁ hself hid hstorable]
  constructor
  · rintro ⟨db', d', h, -⟩
    exact ⟨_, h⟩
  · rintro ⟨⟨db', d'⟩, h⟩
    obtain ⟨d₁, row, hrec⟩ := recordOutcome_recorded hd₁ hself h
    exact ⟨db', d', h, d₁, row, hrec⟩

def sampleEvent : Event :=
  { id := 1, tenantId := 9, type := [0x74], payload := .obj [], idempotencyKey := [0x6b],
    createdAt := 0 }

def sampleEndpoint : Endpoint :=
  { id := 2, tenantId := 9, url := PyText.ofString "https://example.com/hook",
    secret := ⟨[0x73], by decide⟩, subscribedEventTypes := [[0x74]], createdAt := 0 }

def sampleDelivery : Delivery :=
  { id := 3, eventId := 1, endpointId := 2, state := .pending, attemptCount := 0, createdAt := 0 }

def sampleDb : Db := .single sampleEvent sampleEndpoint sampleDelivery

def sampleEnv : AttemptEnv :=
  { hmac := fun _ _ => 0, now := 1000000, draw := 0, rowId := 4, rowCreatedAt := 1000000 }

theorem attempt_records_sample :
    ∃ db' d', attempt sampleEnv (fun _ => { latencyMs := 5, statusCode := some 200 }) sampleDb 3 =
      .ok (db', d') ∧ Recorded sampleDb db' sampleDelivery := by
  obtain ⟨request, -, h⟩ := attempt_records_iff sampleEnv
    (fun _ => { latencyMs := 5, statusCode := some 200 }) sampleDb 3 sampleDelivery sampleEvent
    sampleEndpoint rfl rfl rfl rfl rfl
  exact h.mpr ⟨by simp, .inl rfl⟩

/-- A 200 whose body is one NUL character is sent and never recorded. -/
theorem attempt_nul_response_unrecorded :
    (sampleDb.deliveries.get 3 = some sampleDelivery ∧
      sampleDb.events.get sampleDelivery.eventId = some sampleEvent ∧
      sampleDb.endpoints.get sampleDelivery.endpointId = some sampleEndpoint ∧
      Allows sampleEnv.settings sampleEnv.now sampleEndpoint ∧
      sampleDb.deliveryAttempts.get sampleEnv.rowId = none) ∧
    ¬∃ db' d', attempt sampleEnv
        (fun _ => { latencyMs := 5, statusCode := some 200, responseSnippet := some [0] })
        sampleDb 3 = .ok (db', d') ∧ Recorded sampleDb db' sampleDelivery := by
  refine ⟨⟨rfl, rfl, rfl, rfl, rfl⟩, ?_⟩
  have herr : attempt sampleEnv
      (fun _ => { latencyMs := 5, statusCode := some 200, responseSnippet := some [0] })
      sampleDb 3 = .error .database := rfl
  rintro ⟨db', d', h, -⟩
  rw [herr] at h
  cases h

end DeliveryAttemptService

end RelayWebhooks
