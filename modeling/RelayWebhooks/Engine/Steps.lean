import RelayWebhooks.Engine.State

/-! What each action of the engine can do, with its guard and the state it leaves. -/
namespace RelayWebhooks.Engine
open DeliveryAttemptService

/-- One constructor an action; `interruptReplay` has one for each side of the commit. -/
inductive Steps (cfg : EngineConfig) (s : Engine) : Action → Engine → Prop
  | readDelivery {i : ℕ} {id : UUID} (h : s.attempts i = none) :
      Steps cfg s (.readDelivery i id) (s.setAttempt i (s.afterReadDelivery id))
  | readEndpoint {i : ℕ} {now : ℤ} {d : Delivery} (h : s.attempts i = some (.deliveryRead d)) :
      Steps cfg s (.readEndpoint i now) (s.setAttempt i (s.afterReadEndpoint cfg d now))
  | loadDeferral {i : ℕ} {cached : Bool} {x : AttemptLocals} {t : ℤ} {row : Delivery}
      (h : s.attempts i = some (.deferring x t)) (hrow : s.loadDeliveryRow x cached = some row) :
      Steps cfg s (.loadDeferral i cached) (s.setAttempt i (.deferLoaded x t row))
  | commitDeferral {i : ℕ} {x : AttemptLocals} {t : ℤ} {loaded d : Delivery}
      (h : s.attempts i = some (.deferLoaded x t loaded))
      (hd : s.db.deliveries.get x.delivery.id = some d) :
      Steps cfg s (.commitDeferral i)
        { s.setAttempt i .deferred with
          db.deliveries :=
            s.db.deliveries.update ((DeliveryPatch.ofWrite (.reschedule t) loaded).apply d) }
  | loadFlip {i : ℕ} {cached : Bool} {x : AttemptLocals} {row : Endpoint}
      (h : s.attempts i = some (.flipping x)) (hrow : s.loadEndpointRow x cached = some row) :
      Steps cfg s (.loadFlip i cached) (s.setAttempt i (.flipLoaded x row))
  | flip {i : ℕ} {x : AttemptLocals} {row e : Endpoint}
      (h : s.attempts i = some (.flipLoaded x row))
      (hw : s.CanWrite i x.endpoint.id (flipPatch x row))
      (he : s.db.endpoints.get x.endpoint.id = some e) :
      Steps cfg s (.flip i)
        ((s.lockFor i x.endpoint.id (flipPatch x row)).setAttempt i
          (.sending { x with endpoint := (flipPatch x row).view e, flip := flipPatch x row }))
  | send {i : ℕ} {result : OutboundHttpResult} {x : AttemptLocals} {request : OutboundRequest}
      (h : s.attempts i = some (.sending x))
      (hr : buildRequest cfg.hmac x.now x.delivery x.event x.endpoint = .ok request) :
      Steps cfg s (.send i result)
        { s.setAttempt i (.responded x request result) with
          sends := s.sends ++ [⟨i, x.endpoint.id, x.observed, x.now⟩] }
  | loadOutcome {i : ℕ} {cached : Bool} {x : AttemptLocals} {request : OutboundRequest}
      {result : OutboundHttpResult} {row : Endpoint}
      (h : s.attempts i = some (.responded x request result))
      (hrow : s.loadEndpointRow x cached = some row) :
      Steps cfg s (.loadOutcome i cached) (s.setAttempt i (.outcomeLoaded x request result row))
  | writeOutcome {i : ℕ} {x : AttemptLocals} {request : OutboundRequest}
      {result : OutboundHttpResult} {row : Endpoint}
      (h : s.attempts i = some (.outcomeLoaded x request result row))
      (hw : s.CanWrite i x.endpoint.id (outcomePatch cfg x result row)) :
      Steps cfg s (.writeOutcome i)
        ((s.lockFor i x.endpoint.id (outcomePatch cfg x result row)).setAttempt i
          (.outcomeWritten x request result row))
  | loadDelivery {i : ℕ} {cached : Bool} {x : AttemptLocals} {request : OutboundRequest}
      {result : OutboundHttpResult} {row : Endpoint} {loaded : Delivery}
      (h : s.attempts i = some (.outcomeWritten x request result row))
      (hrow : s.loadDeliveryRow x cached = some loaded) :
      Steps cfg s (.loadDelivery i cached)
        (s.setAttempt i (.deliveryLoaded x request result row loaded))
  | commit {i : ℕ} {draw : ℚ} {rowId : UUID} {rowCreatedAt : ℤ} {x : AttemptLocals}
      {request : OutboundRequest} {result : OutboundHttpResult} {row e : Endpoint}
      {loaded d : Delivery} {w : DeliveryWrite} {log : Table DeliveryAttempt}
      {attempt : DeliveryAttempt}
      (h : s.attempts i = some (.deliveryLoaded x request result row loaded))
      (hw : deliveryOutcome cfg.settings x.now draw x.delivery.attemptCount result = .ok w)
      (he : s.db.endpoints.get x.endpoint.id = some e)
      (hd : s.db.deliveries.get x.delivery.id = some d)
      (hlog : s.db.deliveryAttempts.insert attempt = some log)
      (hid : attempt.deliveryId = x.delivery.id)
      (hno : attempt.attemptNo = x.delivery.attemptCount + 1) :
      Steps cfg s (.commit i draw rowId rowCreatedAt)
        { (s.unlock i).setAttempt i .recorded with
          db := { s.db with
            endpoints := s.db.endpoints.update ((attemptPatch cfg x result row).view e)
            deliveries := s.db.deliveries.update ((DeliveryPatch.ofWrite w loaded).apply d)
            deliveryAttempts := log }
          openings :=
            if opens (attemptPatch cfg x result row) e then
              Function.update s.openings x.endpoint.id (s.openings x.endpoint.id + 1)
            else s.openings
          outcomes := s.outcomes ++ [⟨x.delivery.id, x.endpoint.id, x.now, result.succeeded⟩] }
  | failAttempt {i : ℕ} {p : AttemptPhase} (h : s.attempts i = some p)
      (hp : p.isOver = false) :
      Steps cfg s (.failAttempt i) ((s.unlock i).setAttempt i .failed)
  | readReplay {j : ℕ} {id tenantId : UUID} {d : Delivery} (h : s.replays j = none)
      (hd : s.db.deliveries.get id = some d) :
      Steps cfg s (.readReplay j id tenantId) (s.setReplay j (.read d tenantId))
  | readReplayMissing {j : ℕ} {id tenantId : UUID} (h : s.replays j = none)
      (hd : s.db.deliveries.get id = none) :
      Steps cfg s (.readReplay j id tenantId) (s.setReplay j (.raised (.deliveryNotFound id)))
  | checkReplay {j : ℕ} {d : Delivery} {tenantId : UUID}
      (h : s.replays j = some (.read d tenantId)) :
      Steps cfg s (.checkReplay j) (s.setReplay j (s.afterCheckReplay d tenantId))
  | loadReplay {j : ℕ} {cached : Bool} {d row : Delivery} (h : s.replays j = some (.checked d))
      (hrow : (if cached then some d else s.db.deliveries.get d.id) = some row) :
      Steps cfg s (.loadReplay j cached) (s.setReplay j (.loaded d row))
  | commitReplay {j : ℕ} {d row c : Delivery} (h : s.replays j = some (.loaded d row))
      (hc : s.db.deliveries.get d.id = some c) :
      Steps cfg s (.commitReplay j)
        { s.setReplay j (.committed d.id) with
          db.deliveries :=
            s.db.deliveries.update ((DeliveryPatch.ofWrite .resetForReplay row).apply c) }
  | enqueueReplay {j : ℕ} {id : UUID} (h : s.replays j = some (.committed id)) :
      Steps cfg s (.enqueueReplay j)
        { s.setReplay j .replayed with stream := s.stream.enqueueDelivery id }
  | interruptCommitted {j : ℕ} {id : UUID} (h : s.replays j = some (.committed id)) :
      Steps cfg s (.interruptReplay j) (s.setReplay j (.interrupted true))
  | interruptReplay {j : ℕ} {p : ReplayPhase} (h : s.replays j = some p)
      (hp : p.isOver = false) (hc : ∀ id, p ≠ .committed id) :
      Steps cfg s (.interruptReplay j) (s.setReplay j (.interrupted false))

theorem commitOutcome_eq_some {cfg : EngineConfig} {s : Engine} {x : AttemptLocals}
    {request : OutboundRequest} {result : OutboundHttpResult} {row e : Endpoint}
    {loaded : Delivery} {draw : ℚ} {rowId : UUID} {rowCreatedAt : ℤ} {db : Db}
    (h : s.commitOutcome cfg x request result row loaded draw rowId rowCreatedAt =
      some (db, e)) :
    ∃ w d log attempt,
      deliveryOutcome cfg.settings x.now draw x.delivery.attemptCount result = .ok w ∧
      s.db.endpoints.get x.endpoint.id = some e ∧
      s.db.deliveries.get x.delivery.id = some d ∧
      s.db.deliveryAttempts.insert attempt = some log ∧
      attempt.deliveryId = x.delivery.id ∧
      attempt.attemptNo = x.delivery.attemptCount + 1 ∧
      db = { s.db with
        endpoints := s.db.endpoints.update ((attemptPatch cfg x result row).view e)
        deliveries := s.db.deliveries.update ((DeliveryPatch.ofWrite w loaded).apply d)
        deliveryAttempts := log } := by
  unfold commitOutcome at h
  split at h
  next w e' d hw he hd =>
    split at h
    next db' attempt hdb =>
      obtain ⟨log, hlog, rfl, hid, hno⟩ := Db.createDeliveryAttempt_ok hdb
      simp only [Option.some.injEq, Prod.mk.injEq] at h
      obtain ⟨rfl, rfl⟩ := h
      exact ⟨w, d, log, attempt, hw, he, hd, hlog, hid, hno, rfl⟩
    next => cases h
  next => cases h

/-- Every enabled action is one of the listed steps. -/
theorem steps_of_step {cfg : EngineConfig} {s t : Engine} {a : Action}
    (h : step cfg s a = some t) : Steps cfg s a t := by
  cases a with
  | readDelivery i id =>
    simp only [step] at h
    split at h
    next hi => cases h; exact .readDelivery hi
    next => cases h
  | readEndpoint i now =>
    simp only [step] at h
    split at h
    next hi => cases h; exact .readEndpoint hi
    next => cases h
  | loadDeferral i cached =>
    simp only [step] at h
    split at h
    next hi =>
      obtain ⟨row, hrow, rfl⟩ := Option.map_eq_some_iff.mp h
      exact .loadDeferral hi hrow
    next => cases h
  | commitDeferral i =>
    simp only [step] at h
    split at h
    next hi =>
      obtain ⟨d, hd, rfl⟩ := Option.map_eq_some_iff.mp h
      exact .commitDeferral hi hd
    next => cases h
  | loadFlip i cached =>
    simp only [step] at h
    split at h
    next hi =>
      obtain ⟨row, hrow, rfl⟩ := Option.map_eq_some_iff.mp h
      exact .loadFlip hi hrow
    next => cases h
  | flip i =>
    simp only [step] at h
    split at h
    next hi =>
      split at h
      next hw =>
        obtain ⟨e, he, rfl⟩ := Option.map_eq_some_iff.mp h
        exact .flip hi hw he
      next => cases h
    next => cases h
  | send i result =>
    simp only [step] at h
    split at h
    next hi =>
      split at h
      next => cases h
      next hr => cases h; exact .send hi hr
    next => cases h
  | loadOutcome i cached =>
    simp only [step] at h
    split at h
    next hi =>
      obtain ⟨row, hrow, rfl⟩ := Option.map_eq_some_iff.mp h
      exact .loadOutcome hi hrow
    next => cases h
  | writeOutcome i =>
    simp only [step] at h
    split at h
    next hi =>
      split at h
      next hw => cases h; exact .writeOutcome hi hw
      next => cases h
    next => cases h
  | loadDelivery i cached =>
    simp only [step] at h
    split at h
    next hi =>
      obtain ⟨row, hrow, rfl⟩ := Option.map_eq_some_iff.mp h
      exact .loadDelivery hi hrow
    next => cases h
  | commit i draw rowId rowCreatedAt =>
    simp only [step] at h
    split at h
    next hi =>
      obtain ⟨⟨db, e⟩, hc, rfl⟩ := Option.map_eq_some_iff.mp h
      obtain ⟨w, d, log, attempt, hw, he, hd, hlog, hid, hno, rfl⟩ := commitOutcome_eq_some hc
      exact .commit hi hw he hd hlog hid hno
    next => cases h
  | failAttempt i =>
    simp only [step] at h
    split at h
    next hi =>
      split at h
      next => cases h
      next hp => cases h; exact .failAttempt hi (by simpa using hp)
    next => cases h
  | readReplay j id tenantId =>
    simp only [step] at h
    split at h
    next hj =>
      split at h
      next hd => cases h; exact .readReplay hj hd
      next hd => cases h; exact .readReplayMissing hj hd
    next => cases h
  | checkReplay j =>
    simp only [step] at h
    split at h
    next hj => cases h; exact .checkReplay hj
    next => cases h
  | loadReplay j cached =>
    simp only [step] at h
    split at h
    next hj =>
      obtain ⟨row, hrow, rfl⟩ := Option.map_eq_some_iff.mp h
      exact .loadReplay hj hrow
    next => cases h
  | commitReplay j =>
    simp only [step] at h
    split at h
    next hj =>
      obtain ⟨c, hc, rfl⟩ := Option.map_eq_some_iff.mp h
      exact .commitReplay hj hc
    next => cases h
  | enqueueReplay j =>
    simp only [step] at h
    split at h
    next hj => cases h; exact .enqueueReplay hj
    next => cases h
  | interruptReplay j =>
    simp only [step] at h
    split at h
    next hj => cases h; exact .interruptCommitted hj
    next p hc hj =>
      split at h
      next => cases h
      next hp => cases h; exact .interruptReplay hj (by simpa using hp) hc
    next => cases h

end RelayWebhooks.Engine
