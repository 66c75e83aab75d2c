import RelayWebhooks.Lib.Transition
import RelayWebhooks.Services.FinishAttempt

/-! The circuit breaker over whole runs: attempts executed one at a time, against a reference that
counts the failed sends since the last success. -/
namespace RelayWebhooks
namespace DeliveryAttemptService

/-- What an attempt sends, and for which rows; `none` when it sends nothing. -/
def sending (env : AttemptEnv) (db : Db) (id : UUID) :
    Option (Delivery × Endpoint × OutboundRequest) :=
  match loadRows db id with
  | .error _ => none
  | .ok (d, ev, e) =>
    match deferral env.settings env.now e, buildRequest env.hmac env.now d ev (flipped e) with
    | none, .ok request => some (d, e, request)
    | _, _ => none

variable {env : AttemptEnv} {send send' : OutboundRequest → OutboundHttpResult} {db : Db}
  {id : UUID} {d : Delivery} {ev : Event} {e : Endpoint} {request : OutboundRequest}

theorem buildRequest_flipped (hmac : Hmac) (now : ℤ) (d : Delivery) (ev : Event) (e : Endpoint) :
    buildRequest hmac now d ev (flipped e) = buildRequest hmac now d ev e := by
  apply buildRequest_congr <;> unfold flipped <;> split <;> rfl

theorem sending_of_loadRows (hload : loadRows db id = .ok (d, ev, e)) :
    (sending env db id).isSome ↔ deferral env.settings env.now e = none := by
  obtain ⟨request, hreq, -⟩ := buildRequest_ok env.hmac env.now d ev (flipped e)
  unfold sending
  rw [hload]
  dsimp only
  rw [hreq]
  cases deferral env.settings env.now e <;> simp

theorem sending_eq_some (h : sending env db id = some (d, e, request)) :
    ∃ ev, loadRows db id = .ok (d, ev, e) ∧ deferral env.settings env.now e = none ∧
      buildRequest env.hmac env.now d ev (flipped e) = .ok request := by
  unfold sending at h
  split at h
  next => cases h
  next d' ev e' hload =>
    split at h
    next hdef hreq => cases h; exact ⟨ev, hload, hdef, hreq⟩
    next => cases h

/-- A send whose outcome can be written is written. -/
theorem attempt_isOk (h : sending env db id = some (d, e, request))
    (hid : db.deliveryAttempts.get env.rowId = none)
    (hrec : Recordable env.settings d.attemptCount (send request)) :
    ∃ r, attempt env send db id = .ok r := by
  obtain ⟨ev, hload, hdef, hreq⟩ := sending_eq_some h
  obtain ⟨hd, hev, he⟩ := loadRows_ok hload
  obtain ⟨e', request', heid, hreq', hstorable, heq⟩ :=
    attempt_eq_recordOutcome send hd hev he (deferral_eq_none.mp hdef)
  rw [buildRequest_flipped, hreq'] at hreq
  obtain rfl : request' = request := Except.ok.inj hreq
  have hdid : d.id = id := Table.key_of_get hd
  have hend : e.id = d.endpointId := Table.key_of_get he
  have hself : (db.endpoints.update e').get e'.id = some e' := by
    refine Table.get_update_of_get rfl (x := e) ?_
    rw [heid, hend, he]
  have hd₁ : ({ db with endpoints := db.endpoints.update e' } : Db).deliveries.get d.id =
      some d := hdid ▸ hd
  rw [heq]
  exact (recordOutcome_isOk hd₁ hself hid hstorable).mpr hrec

end DeliveryAttemptService

/-- `failures` and `lastFailure` are the reference: for each endpoint the failed sends since its
last successful one, and the clock reading of the last failed send. -/
structure BreakerRun where
  db : Db
  failures : UUID → ℕ
  lastFailure : UUID → Option ℤ

/-- One call of `attempt`. -/
structure AttemptCall where
  env : AttemptEnv
  send : OutboundRequest → OutboundHttpResult
  id : UUID

def AttemptCall.under (settings : Settings) (c : AttemptCall) : AttemptCall :=
  { c with env := { c.env with settings } }

namespace BreakerRun
open DeliveryAttemptService

/-- The outcome of a send of the endpoint `k`, recorded or not. -/
def note (x : BreakerRun) (k : UUID) (now : ℤ) (success : Bool) : BreakerRun :=
  if success then
    { x with failures := Function.update x.failures k 0,
             lastFailure := Function.update x.lastFailure k none }
  else
    { x with failures := Function.update x.failures k (x.failures k + 1),
             lastFailure := Function.update x.lastFailure k (some now) }

/-- The committed database after a call; an exception rolls the call back. -/
def commit (db : Db) (c : AttemptCall) : Db :=
  match attempt c.env c.send db c.id with
  | .ok (db', _) => db'
  | .error _ => db

/-- The store gives a new attempt row a key of its own. -/
def step (settings : Settings) (x : BreakerRun) (c : AttemptCall) : Option BreakerRun :=
  if (x.db.deliveryAttempts.get c.env.rowId).isSome then none
  else
    match sending (c.under settings).env x.db c.id with
    | none => some { x with db := commit x.db (c.under settings) }
    | some (_, e, request) =>
      some { x.note e.id c.env.now (c.send request).succeeded with
             db := commit x.db (c.under settings) }

/-- Endpoints as they are created. -/
def Init (x : BreakerRun) : Prop :=
  (∀ e ∈ x.db.endpoints.rows, e.breaker = ⟨.closed, 0, none⟩) ∧
    (x.failures = fun _ => 0) ∧ x.lastFailure = fun _ => none

/-- The outcome of what the call sends can be written. -/
def CallRecordable (settings : Settings) (x : BreakerRun) (c : AttemptCall) : Prop :=
  ∀ d e request, sending (c.under settings).env x.db c.id = some (d, e, request) →
    Recordable settings d.attemptCount (c.send request)

/-- The breaker columns are what the reference says. -/
structure Reference (threshold : ℕ) (e : Endpoint) (failures : ℕ) (lastFailure : Option ℤ) :
    Prop where
  count : e.consecutiveFailures = failures
  opened : threshold ≤ failures →
    e.breakerState = .opened ∧ ∃ t, lastFailure = some t ∧ e.openedAt = some t
  closed : failures < threshold → e.breakerState = .closed ∧ e.openedAt = none

variable {settings : Settings} {threshold : ℕ} {x y : BreakerRun} {c : AttemptCall}
  {e : Endpoint} {failures : ℕ} {lastFailure : Option ℤ}

theorem Reference.ne_halfOpen (h : Reference threshold e failures lastFailure) :
    e.breakerState ≠ .halfOpen := by
  rcases Nat.lt_or_ge failures threshold with hlt | hge
  · rw [(h.closed hlt).1]
    exact nofun
  · rw [(h.opened hge).1]
    exact nofun

/-- An outcome takes the breaker from one reference value to the next. -/
theorem Reference.outcome (h : Reference settings.breakerFailureThreshold e failures lastFailure)
    (hthr : 1 ≤ settings.breakerFailureThreshold) (now : ℤ) (result : OutboundHttpResult) :
    Reference settings.breakerFailureThreshold
      ((flipped e).withBreaker (breakerOutcome settings now (flipped e) result))
      (if result.succeeded then 0 else failures + 1)
      (if result.succeeded then none else some now) := by
  have hcount : (flipped e).consecutiveFailures = failures := by
    unfold flipped
    split
    next => exact h.count
    next => exact h.count
  have hopen : (flipped e).breakerState = .halfOpen →
      settings.breakerFailureThreshold ≤ failures := by
    intro hhalf
    by_contra hlt
    have hclosed := (h.closed (by omega)).1
    rw [flipped, if_neg (by rw [hclosed]; exact nofun), hclosed] at hhalf
    cases hhalf
  unfold breakerOutcome
  cases hs : result.succeeded with
  | true =>
    simp only [if_true]
    rw [nextBreakerState_success]
    constructor
    · rfl
    · intro hle
      omega
    · intro _
      exact ⟨rfl, rfl⟩
  | false =>
    simp only [Bool.false_eq_true, if_false]
    rw [hcount]
    unfold nextBreakerState
    simp only [Bool.false_eq_true, if_false]
    split
    next hhalf =>
      have hle := hopen hhalf
      constructor
      · rfl
      · intro _
        exact ⟨rfl, now, rfl, rfl⟩
      · intro hlt
        omega
    next =>
      split
      next hle =>
        constructor
        · rfl
        · intro _
          exact ⟨rfl, now, rfl, rfl⟩
        · intro hlt
          omega
      next hlt =>
        constructor
        · rfl
        · intro hle
          exact (hlt hle).elim
        · intro _
          exact ⟨rfl, rfl⟩

def Inv (threshold : ℕ) (x : BreakerRun) : Prop :=
  ∀ e ∈ x.db.endpoints.rows, Reference threshold e (x.failures e.id) (x.lastFailure e.id)

theorem inv_init (hthr : 1 ≤ threshold) (h : Init x) : Inv threshold x := by
  obtain ⟨hfresh, hf, hl⟩ := h
  intro e he
  have hb := hfresh e he
  rw [hf, hl]
  constructor
  · exact congrArg BreakerTransition.consecutiveFailures hb
  · intro hle
    have hle : threshold ≤ 0 := hle
    omega
  · intro _
    exact ⟨congrArg BreakerTransition.state hb, congrArg BreakerTransition.openedAt hb⟩

@[simp] theorem note_db (x : BreakerRun) (k : UUID) (now : ℤ) (success : Bool) :
    (x.note k now success).db = x.db := by
  unfold note
  split <;> rfl

theorem note_self (x : BreakerRun) (k : UUID) (now : ℤ) (success : Bool) :
    (x.note k now success).failures k = (if success then 0 else x.failures k + 1) ∧
      (x.note k now success).lastFailure k = if success then none else some now := by
  unfold note
  split
  next => exact ⟨Function.update_self .., Function.update_self ..⟩
  next => exact ⟨Function.update_self .., Function.update_self ..⟩

theorem note_ne (x : BreakerRun) {k j : UUID} (h : j ≠ k) (now : ℤ) (success : Bool) :
    (x.note k now success).failures j = x.failures j ∧
      (x.note k now success).lastFailure j = x.lastFailure j := by
  unfold note
  split
  next => exact ⟨Function.update_of_ne h .., Function.update_of_ne h ..⟩
  next => exact ⟨Function.update_of_ne h .., Function.update_of_ne h ..⟩

/-- A call that sends nothing changes neither the endpoints nor the attempt log. -/
theorem commit_of_not_sending {db : Db} (h : sending c.env db c.id = none) :
    (commit db c).endpoints = db.endpoints ∧
      (commit db c).deliveryAttempts = db.deliveryAttempts := by
  unfold commit
  split
  next db' row hok =>
    obtain ⟨d, ev, e, hload, ⟨t, -, rfl⟩ | ⟨hdef, -⟩⟩ := attempt_cases hok
    · exact ⟨rfl, rfl⟩
    · have hsome := (sending_of_loadRows hload).mpr hdef
      rw [h] at hsome
      cases hsome
  next => exact ⟨rfl, rfl⟩

/-- A call that sends commits the breaker columns of the outcome. -/
theorem commit_of_sending {db : Db} {d : Delivery} {request : OutboundRequest}
    (h : sending c.env db c.id = some (d, e, request))
    (hid : db.deliveryAttempts.get c.env.rowId = none)
    (hrec : Recordable c.env.settings d.attemptCount (c.send request)) :
    db.endpoints.get e.id = some e ∧ (commit db c).endpoints = db.endpoints.update
      ((flipped e).withBreaker (breakerOutcome c.env.settings c.env.now (flipped e)
        (c.send request))) := by
  obtain ⟨⟨db', row⟩, hok⟩ := attempt_isOk h hid hrec
  obtain ⟨ev, hload, hdef, hreq⟩ := sending_eq_some h
  obtain ⟨-, -, he⟩ := loadRows_ok hload
  have heid : e.id = d.endpointId := Table.key_of_get he
  refine ⟨heid ▸ he, ?_⟩
  unfold commit
  rw [hok]
  obtain ⟨d', ev', e', hload', ⟨t, hdef', -⟩ | ⟨-, request', hreq', hsent⟩⟩ := attempt_cases hok
  · rw [hload] at hload'
    cases hload'
    rw [hdef] at hdef'
    cases hdef'
  · rw [hload] at hload'
    cases hload'
    rw [hreq] at hreq'
    cases hreq'
    exact hsent.endpoints

theorem Inv.step (hI : Inv settings.breakerFailureThreshold x)
    (hthr : 1 ≤ settings.breakerFailureThreshold) (hrec : CallRecordable settings x c)
    (h : x.step settings c = some y) : Inv settings.breakerFailureThreshold y := by
  unfold BreakerRun.step at h
  split at h
  next => cases h
  next hfresh =>
    have hid : x.db.deliveryAttempts.get (c.under settings).env.rowId = none := by
      simpa [AttemptCall.under] using hfresh
    split at h
    next hnone =>
      obtain rfl := Option.some.inj h
      intro e he
      have hend := (@commit_of_not_sending (c.under settings) _ hnone).1
      exact hI e (hend ▸ he)
    next d e request hsend =>
      obtain rfl := Option.some.inj h
      have hcommit := @commit_of_sending (c.under settings) e x.db d request hsend hid
      obtain ⟨hget, hend⟩ := hcommit (hrec d e request hsend)
      have hmem := Table.mem_of_get hget
      intro e' he'
      rcases Table.mem_update (hend ▸ he') with rfl | ⟨he', hne⟩
      · have hnote := note_self x e.id c.env.now (c.send request).succeeded
        have href := (hI e hmem).outcome hthr c.env.now (c.send request)
        rw [← hnote.1, ← hnote.2] at href
        rw [Endpoint.withBreaker_id, flipped_id]
        exact href
      · have hne : e'.id ≠ e.id := by simpa using hne
        have hnote := note_ne x hne c.env.now (c.send request).succeeded
        have href := hI e' he'
        rw [← hnote.1, ← hnote.2] at href
        exact href

/-- The deferral follows from the breaker columns. -/
theorem deferral_eq_none_iff {now : ℤ}
    (h : Reference settings.breakerFailureThreshold e failures lastFailure) :
    deferral settings now e = none ↔ e.breakerState = .closed ∨
      ∃ t, e.openedAt = some t ∧ settings.breakerCooldown ≤ now - t := by
  rw [deferral_eq_none, Allows, ← Bool.not_eq_true, shouldSkip_eq_true]
  rcases Nat.lt_or_ge failures settings.breakerFailureThreshold with hlt | hge
  · obtain ⟨hst, hat⟩ := h.closed hlt
    simp [hst]
  · obtain ⟨hst, t, -, hat⟩ := h.opened hge
    simp [hst, hat]

/-- In every run whose sends can all be recorded, each committed breaker is the reference: never
half open, the failures counted since the last success, open from the threshold on since the last
failed send. An attempt sends exactly when the breaker is closed or has cooled down, and otherwise
adds no attempt row and leaves the endpoints alone. -/
theorem breaker_reference (settings : Settings) (hthr : 1 ≤ settings.breakerFailureThreshold)
    (x y : BreakerRun) (cs : List AttemptCall) (hx : Init x)
    (hrec : Transition.Always (step settings) (fun x c _ => CallRecordable settings x c) x cs)
    (hrun : Transition.run (step settings) x cs = some y) :
    ∀ e ∈ y.db.endpoints.rows,
      e.breakerState ≠ .halfOpen ∧
      Reference settings.breakerFailureThreshold e (y.failures e.id) (y.lastFailure e.id) ∧
      ∀ env id d ev, loadRows y.db id = .ok (d, ev, e) →
        ((sending { env with settings } y.db id).isSome ↔ e.breakerState = .closed ∨
          ∃ t, e.openedAt = some t ∧ settings.breakerCooldown ≤ env.now - t) ∧
        (sending { env with settings } y.db id = none → ∀ send z,
          y.step settings ⟨env, send, id⟩ = some z →
            z.db.endpoints = y.db.endpoints ∧
              z.db.deliveryAttempts = y.db.deliveryAttempts) := by
  have hI : Inv settings.breakerFailureThreshold y :=
    hrec.invariant (fun _ _ _ hI hc h => hI.step hthr hc h) (inv_init hthr hx) hrun
  intro e he
  refine ⟨(hI e he).ne_halfOpen, hI e he, fun env id d ev hload => ⟨?_, fun hnone send z hz => ?_⟩⟩
  · rw [sending_of_loadRows hload]
    exact deferral_eq_none_iff (hI e he)
  · unfold step at hz
    split at hz
    next => cases hz
    next =>
      have hsilent : sending (AttemptCall.under settings ⟨env, send, id⟩).env y.db id = none :=
        hnone
      rw [hsilent] at hz
      obtain rfl := Option.some.inj hz
      exact @commit_of_not_sending (AttemptCall.under settings ⟨env, send, id⟩) _ hsilent

def sampleRun : BreakerRun := ⟨sampleDb, fun _ => 0, fun _ => none⟩

theorem sampleRun_init : Init sampleRun := by
  refine ⟨fun e he => ?_, rfl, rfl⟩
  obtain rfl := List.mem_singleton.mp he
  rfl

/-- A call that is answered with a 500 and the given body. -/
def failedCall (body : Option PyText) : AttemptCall :=
  ⟨sampleEnv, fun _ => { latencyMs := 5, statusCode := some 500, responseSnippet := body }, 3⟩

theorem breaker_reference_sample :
    ∃ y, Transition.run (step { breakerFailureThreshold := 1 }) sampleRun [failedCall none] =
        some y ∧
      ∀ e ∈ y.db.endpoints.rows, e.breakerState ≠ .halfOpen ∧
        Reference 1 e (y.failures e.id) (y.lastFailure e.id) := by
  obtain ⟨y, hy⟩ : ∃ y, Transition.run (step { breakerFailureThreshold := 1 }) sampleRun
      [failedCall none] = some y := ⟨_, rfl⟩
  have hrec : Transition.Always (step { breakerFailureThreshold := 1 })
      (fun x c _ => CallRecordable { breakerFailureThreshold := 1 } x c) sampleRun
      [failedCall none] := by
    refine fun _ _ => ⟨fun d e request h => ?_, trivial⟩
    obtain ⟨ev, hload, -⟩ := sending_eq_some h
    obtain ⟨hd, -⟩ := loadRows_ok hload
    obtain rfl : sampleDelivery = d := Option.some.inj hd
    exact ⟨nofun, .inr (.inr (by decide))⟩
  refine ⟨y, hy, fun e he => ?_⟩
  obtain ⟨hne, href, -⟩ := breaker_reference { breakerFailureThreshold := 1 } (Nat.le_refl 1)
    sampleRun y [failedCall none] sampleRun_init hrec hy e he
  exact ⟨hne, href⟩

/-- A failed send whose body is one NUL character is rolled back: the endpoint counts no failure
after one failed send. -/
theorem nul_failure_uncounted :
    ∃ y e, Init sampleRun ∧
      Transition.run (step { breakerFailureThreshold := 1 }) sampleRun [failedCall (some [0])] =
        some y ∧
      e ∈ y.db.endpoints.rows ∧ y.failures e.id = 1 ∧ e.consecutiveFailures = 0 ∧
        e.breakerState = .closed := by
  refine ⟨_, sampleEndpoint, sampleRun_init, rfl, List.mem_singleton_self _, ?_, rfl, rfl⟩
  rfl

end BreakerRun

end RelayWebhooks
