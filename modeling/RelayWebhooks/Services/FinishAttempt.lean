import RelayWebhooks.Services.Attempt

/-! The second half of an attempt: what it writes once it has read its rows, over a store that
may have changed since. -/
namespace RelayWebhooks

theorem Db.writeEndpoint_ok {db db' : Db} {f : Endpoint → Endpoint} {id : UUID} {e : Endpoint}
    (h : db.writeEndpoint f id = .ok (db', e)) :
    ∃ e₀, db.endpoints.get id = some e₀ ∧
      db' = { db with endpoints := db.endpoints.update (f e₀) } := by
  unfold writeEndpoint at h
  split at h
  next => cases h
  next e₀ he =>
    simp only [Except.ok.injEq, Prod.mk.injEq] at h
    exact ⟨e₀, he, h.1.symm⟩

theorem Db.writeEndpoint_error {db : Db} {f : Endpoint → Endpoint} {id : UUID} {err : Raised}
    (h : db.writeEndpoint f id = .error err) : db.endpoints.get id = none := by
  unfold writeEndpoint at h
  split at h
  next he => exact he
  next => cases h

theorem Db.writeDelivery_ok {db db' : Db} {w : DeliveryWrite} {id : UUID} {d : Delivery}
    (h : db.writeDelivery w id = .ok (db', d)) :
    ∃ d₀, db.deliveries.get id = some d₀ ∧ d = w.apply d₀ ∧
      db' = { db with deliveries := db.deliveries.update d } := by
  unfold writeDelivery at h
  split at h
  next => cases h
  next d₀ hd =>
    simp only [Except.ok.injEq, Prod.mk.injEq] at h
    obtain ⟨rfl, rfl⟩ := h
    exact ⟨d₀, hd, rfl, rfl⟩

theorem Db.writeDelivery_error {db : Db} {w : DeliveryWrite} {id : UUID} {err : Raised}
    (h : db.writeDelivery w id = .error err) : db.deliveries.get id = none := by
  unfold writeDelivery at h
  split at h
  next hd => exact hd
  next => cases h

theorem Db.createDeliveryAttempt_error {db : Db} {id : UUID} {createdAt : ℤ} {a : NewAttempt}
    {err : Raised} (h : db.createDeliveryAttempt id createdAt a = .error err) :
    err = .database := by
  unfold createDeliveryAttempt at h
  split at h
  next =>
    dsimp only at h
    split at h
    next => cases h
    next => cases h; rfl
  next => cases h; rfl

namespace DeliveryAttemptService

/-- What `attempt` does once it has read its rows. -/
def finishAttempt (env : AttemptEnv) (send : OutboundRequest → OutboundHttpResult) (db : Db)
    (d : Delivery) (ev : Event) (e : Endpoint) : Except Raised (Db × Delivery) := do
  match deferral env.settings env.now e with
  | some nextRetryAt => db.reschedule d.id nextRetryAt
  | none =>
    let (db, e) ← flipIfOpen db e
    let request ← buildRequest env.hmac env.now d ev e
    recordOutcome env db d e request (send request)

/-- The two halves make up `attempt`. -/
theorem attempt_eq_finishAttempt (env : AttemptEnv)
    (send : OutboundRequest → OutboundHttpResult) (db : Db) (id : UUID) :
    attempt env send db id =
      (loadRows db id).bind fun (d, ev, e) => finishAttempt env send db d ev e := rfl

/-- The rows `attempt` reads belong together. -/
theorem loadRows_ok {db : Db} {id : UUID} {d : Delivery} {ev : Event} {e : Endpoint}
    (h : loadRows db id = .ok (d, ev, e)) :
    db.deliveries.get id = some d ∧ db.events.get d.eventId = some ev ∧
      db.endpoints.get d.endpointId = some e := by
  unfold loadRows at h
  split at h
  next => cases h
  next hd =>
    split at h
    next => cases h
    next hev =>
      split at h
      next => cases h
      next he => cases h; exact ⟨hd, hev, he⟩

/-- The writes of an attempt: the delivery is retried or ends. -/
def IsOutcome (w : DeliveryWrite) : Prop := w ≠ .resetForReplay

/-- What an attempt leaves in the store. -/
structure Finished (db : Db) (id : UUID) (db' : Db) (row : Delivery) : Prop where
  written : ∃ w d₀, IsOutcome w ∧ db.deliveries.get id = some d₀ ∧ row = w.apply d₀
  deliveries : db'.deliveries = db.deliveries.update row
  events : db'.events = db.events
  outbox : db'.outbox = db.outbox
  endpoints : ∀ k, (db'.endpoints.get k).isSome = (db.endpoints.get k).isSome

variable {env : AttemptEnv} {send : OutboundRequest → OutboundHttpResult} {db db' : Db}
  {d row : Delivery} {ev : Event} {e : Endpoint}

theorem flipIfOpen_cases {e' : Endpoint} (h : flipIfOpen db e = .ok (db', e')) :
    ∃ endpoints, db' = { db with endpoints } ∧ e'.id = e.id ∧
      ∀ k, (endpoints.get k).isSome = (db.endpoints.get k).isSome := by
  unfold flipIfOpen Db.setBreakerState at h
  split at h
  next =>
    unfold Db.writeEndpoint at h
    split at h
    next => cases h
    next e₀ he =>
      have hid : e₀.id = e.id := Table.key_of_get he
      cases h
      exact ⟨_, rfl, hid, fun k => Table.isSome_get_update ..⟩
  next =>
    cases h
    exact ⟨_, rfl, rfl, fun _ => rfl⟩

theorem deliveryOutcome_isOutcome {settings : Settings} {now : ℤ} {draw : ℚ} {n : ℕ}
    {result : OutboundHttpResult} {w : DeliveryWrite}
    (h : deliveryOutcome settings now draw n result = .ok w) : IsOutcome w := by
  intro hw
  have hstate := deliveryOutcome_state h
  rw [hw] at hstate
  rcases outcomeState_cases settings n result with ho | ho | ho <;> rw [ho] at hstate <;>
    cases hstate

theorem deliveryOutcome_error {settings : Settings} {now : ℤ} {draw : ℚ} {n : ℕ}
    {result : OutboundHttpResult} {err : Raised}
    (h : deliveryOutcome settings now draw n result = .error err) : ∃ b, err = .backoff b := by
  unfold deliveryOutcome at h
  split at h
  next => cases h
  next =>
    split at h
    next => cases h
    next =>
      split at h
      next b _ => cases h; exact ⟨b, rfl⟩
      next => cases h

theorem finishAttempt_ok (h : finishAttempt env send db d ev e = .ok (db', row)) :
    Finished db d.id db' row := by
  unfold finishAttempt at h
  split at h
  next t _ =>
    obtain ⟨d₀, hd, hrow, rfl⟩ := Db.writeDelivery_ok h
    exact ⟨⟨.reschedule t, d₀, nofun, hd, hrow⟩, rfl, rfl, rfl, fun _ => rfl⟩
  next =>
    obtain ⟨⟨db₁, e₁⟩, hflip, h⟩ := bind_ok h
    obtain ⟨request, -, h⟩ := bind_ok h
    obtain ⟨⟨db₂, e₂⟩, hrec, h⟩ := bind_ok h
    obtain ⟨⟨db₃, a⟩, hlog, h⟩ := bind_ok h
    obtain ⟨w, hw, h⟩ := bind_ok h
    obtain ⟨endpoints, rfl, -, hkeys⟩ := flipIfOpen_cases hflip
    obtain ⟨e₀, -, rfl⟩ := Db.writeEndpoint_ok hrec
    obtain ⟨log, -, rfl, -⟩ := Db.createDeliveryAttempt_ok hlog
    obtain ⟨d₀, hd, hrow, rfl⟩ := Db.writeDelivery_ok h
    refine ⟨⟨w, d₀, deliveryOutcome_isOutcome hw, hd, hrow⟩, rfl, rfl, rfl, fun k => ?_⟩
    exact (Table.isSome_get_update ..).trans (hkeys k)

/-- The second half raises a `NotFoundError` only if the delivery or its endpoint is gone. -/
theorem finishAttempt_notFound {err : Raised}
    (h : finishAttempt env send db d ev e = .error err) (herr : err.isNotFound = true) :
    db.deliveries.get d.id = none ∨ db.endpoints.get e.id = none := by
  unfold finishAttempt at h
  split at h
  next => exact .inl (Db.writeDelivery_error h)
  next =>
    rcases bind_error h with hflip | ⟨⟨db₁, e₁⟩, hflip, h⟩
    · unfold flipIfOpen at hflip
      split at hflip
      next => exact .inr (Db.writeEndpoint_error hflip)
      next => cases hflip
    obtain ⟨endpoints, rfl, hid, hkeys⟩ := flipIfOpen_cases hflip
    obtain ⟨request, hreq, -⟩ := buildRequest_ok env.hmac env.now d ev e₁
    rcases bind_error h with hbuild | ⟨request', -, h⟩
    · rw [hreq] at hbuild
      cases hbuild
    rcases bind_error h with hrec | ⟨⟨db₂, e₂⟩, hrec, h⟩
    · right
      have hnone := Db.writeEndpoint_error hrec
      rw [hid] at hnone
      have hkey := hkeys e.id
      rw [hnone] at hkey
      exact Option.isNone_iff_eq_none.mp (by simpa using hkey.symm)
    obtain ⟨e₀, -, rfl⟩ := Db.writeEndpoint_ok hrec
    rcases bind_error h with hlog | ⟨⟨db₃, a⟩, hlog, h⟩
    · rw [Db.createDeliveryAttempt_error hlog] at herr
      cases herr
    obtain ⟨log, -, rfl, -⟩ := Db.createDeliveryAttempt_ok hlog
    rcases bind_error h with hw | ⟨w, -, h⟩
    · obtain ⟨b, rfl⟩ := deliveryOutcome_error hw
      cases herr
    have hnone := Db.writeDelivery_error h
    exact .inl hnone

/-- The endpoint row in which the outcome of a send is evaluated. -/
def flipped (e : Endpoint) : Endpoint :=
  if e.breakerState = .opened then { e with breakerState := .halfOpen } else e

@[simp] theorem flipped_id (e : Endpoint) : (flipped e).id = e.id := by
  unfold flipped
  split <;> rfl

theorem flipIfOpen_eq (he : db.endpoints.get e.id = some e) :
    flipIfOpen db e =
      .ok ({ db with endpoints := db.endpoints.update (flipped e) }, flipped e) := by
  unfold flipIfOpen flipped
  split
  next => exact Db.writeEndpoint_of_get _ he
  next => rw [Table.update_eq_self (r := e) he]

/-- The writes of an attempt that got `result` for its request. -/
structure Sent (env : AttemptEnv) (db : Db) (d : Delivery) (e : Endpoint)
    (result : OutboundHttpResult) (db' : Db) : Prop where
  write : ∃ w, deliveryOutcome env.settings env.now env.draw d.attemptCount result = .ok w ∧
    db'.deliveries = db.deliveries.update (w.apply d)
  log : ∃ a, db'.deliveryAttempts.rows = db.deliveryAttempts.rows ++ [a] ∧
    a.deliveryId = d.id ∧ a.attemptNo = d.attemptCount + 1 ∧ a.succeeded = result.succeeded
  endpoints : db'.endpoints = db.endpoints.update
    ((flipped e).withBreaker (breakerOutcome env.settings env.now (flipped e) result))
  events : db'.events = db.events

theorem recordOutcome_sent {request : OutboundRequest} {result : OutboundHttpResult}
    (hd : db.deliveries.get d.id = some d) (he : db.endpoints.get e.id = some e)
    (h : recordOutcome env { db with endpoints := db.endpoints.update (flipped e) } d (flipped e)
      request result = .ok (db', row)) : Sent env db d e result db' := by
  obtain ⟨⟨db₁, e₁⟩, hrec, h⟩ := bind_ok h
  obtain ⟨⟨db₂, a⟩, hlog, h⟩ := bind_ok h
  obtain ⟨w, hw, h⟩ := bind_ok h
  have hflip : (db.endpoints.update (flipped e)).get (flipped e).id = some (flipped e) :=
    Table.get_update_of_get rfl (x := e) (by rw [flipped_id, he])
  obtain ⟨e₀, he₀, rfl⟩ := Db.writeEndpoint_ok hrec
  obtain rfl : flipped e = e₀ := Option.some.inj (hflip.symm.trans he₀)
  obtain ⟨hstatus, hclass⟩ := Db.createDeliveryAttempt_result hlog
  obtain ⟨log, hins, rfl, hid, hno⟩ := Db.createDeliveryAttempt_ok hlog
  obtain ⟨d₀, hd₀, rfl, rfl⟩ := Db.writeDelivery_ok h
  obtain rfl : d = d₀ := Option.some.inj (hd.symm.trans hd₀)
  refine ⟨⟨w, hw, rfl⟩, ⟨a, (Table.insert_eq_some.mp hins).2, hid, hno, ?_⟩, ?_, rfl⟩
  · rw [DeliveryAttempt.succeeded, hstatus, hclass]
    rfl
  · exact Table.update_update _ rfl

/-- A committed attempt deferred the delivery, or sent a request and recorded the outcome. -/
theorem attempt_cases {id : UUID} (h : attempt env send db id = .ok (db', row)) :
    ∃ d ev e, loadRows db id = .ok (d, ev, e) ∧
      ((∃ t, deferral env.settings env.now e = some t ∧
          db' = { db with
            deliveries := db.deliveries.update (DeliveryWrite.apply (.reschedule t) d) }) ∨
        deferral env.settings env.now e = none ∧
          ∃ request, buildRequest env.hmac env.now d ev (flipped e) = .ok request ∧
            Sent env db d e (send request) db') := by
  obtain ⟨⟨d, ev, e⟩, hload, h⟩ := bind_ok h
  obtain ⟨hd, -, he⟩ := loadRows_ok hload
  have hdid : d.id = id := Table.key_of_get hd
  have heid : e.id = d.endpointId := Table.key_of_get he
  refine ⟨d, ev, e, hload, ?_⟩
  dsimp only at h
  split at h
  next t hdef =>
    obtain ⟨d₀, hd₀, rfl, rfl⟩ := Db.writeDelivery_ok h
    obtain rfl : d = d₀ := Option.some.inj ((hdid ▸ hd).symm.trans hd₀)
    exact .inl ⟨t, hdef, rfl⟩
  next hdef =>
    obtain ⟨⟨db₁, e₁⟩, hflip, h⟩ := bind_ok h
    rw [flipIfOpen_eq (heid ▸ he)] at hflip
    cases hflip
    obtain ⟨request, hreq, h⟩ := bind_ok h
    exact .inr ⟨hdef, request, hreq, recordOutcome_sent (hdid ▸ hd) (heid ▸ he) h⟩

end DeliveryAttemptService

end RelayWebhooks
