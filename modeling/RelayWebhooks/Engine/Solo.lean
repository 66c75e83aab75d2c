import RelayWebhooks.Engine.Probe
import RelayWebhooks.Services.FinishAttempt

/-! An attempt that meets no other execution. The actions of the engine, taken in a row, then
commit exactly what `attempt` commits. -/
namespace RelayWebhooks

theorem Db.createDeliveryAttempt_endpoints (db : Db) (endpoints : Table Endpoint) (id : UUID)
    (createdAt : ℤ) (a : NewAttempt) :
    ({ db with endpoints } : Db).createDeliveryAttempt id createdAt a =
      (db.createDeliveryAttempt id createdAt a).map fun (db', row) =>
        ({ db' with endpoints }, row) := by
  unfold createDeliveryAttempt
  dsimp only
  cases db.deliveries.get a.deliveryId with
  | none => rfl
  | some d =>
    cases storeText a.requestSnippet with
    | none => rfl
    | some requestSnippet =>
      cases storeText a.responseSnippet with
      | none => rfl
      | some responseSnippet =>
        dsimp only
        cases db.deliveryAttempts.insert _ <;> rfl

namespace Engine
open DeliveryAttemptService

variable {cfg : EngineConfig} {s t : Engine} {i : ℕ}

@[simp] theorem setAttempt_setAttempt (s : Engine) (i : ℕ) (p q : AttemptPhase) :
    (s.setAttempt i p).setAttempt i q = s.setAttempt i q := by
  simp only [setAttempt, Function.update_idem]

theorem commitOutcome_congr {x : AttemptLocals} {request : OutboundRequest}
    {result : OutboundHttpResult} {row : Endpoint} {loaded : Delivery} {draw : ℚ} {rowId : UUID}
    {rowCreatedAt : ℤ} (h : s.db = t.db) :
    s.commitOutcome cfg x request result row loaded draw rowId rowCreatedAt =
      t.commitOutcome cfg x request result row loaded draw rowId rowCreatedAt := by
  simp only [commitOutcome, h]

/-- The rest of an attempt once its request is decided on. -/
def soloOutcome (i : ℕ) (env : AttemptEnv) (result : OutboundHttpResult) : List Action :=
  [.send i result, .loadOutcome i false, .writeOutcome i, .loadDelivery i false,
    .commit i env.draw env.rowId env.rowCreatedAt]

/-- The reads of an attempt lead to the branch its rows decide. -/
theorem reads_run {id : UUID} {now : ℤ} {d : Delivery} {ev : Event} {e : Endpoint}
    (hi : s.attempts i = none) (hload : loadRows s.db id = .ok (d, ev, e)) :
    Transition.run (step cfg) s [.readDelivery i id, .readEndpoint i now] =
      some (s.setAttempt i (s.afterReadEndpoint cfg d now)) := by
  obtain ⟨hd, -, -⟩ := loadRows_ok hload
  have hread : s.afterReadDelivery id = .deliveryRead d := by rw [afterReadDelivery, hd]
  simp [Transition.run_cons, step, hi, hread, setAttempt, afterReadEndpoint]

theorem deferral_run {x : AttemptLocals} {u : ℤ} (hi : s.attempts i = some (.deferring x u))
    (hd : s.db.deliveries.get x.delivery.id = some x.delivery) :
    Transition.run (step cfg) s [.loadDeferral i false, .commitDeferral i] =
      some { s.setAttempt i .deferred with
             db.deliveries :=
               s.db.deliveries.update (DeliveryWrite.apply (.reschedule u) x.delivery) } := by
  have hrow : s.loadDeliveryRow x false = some x.delivery := hd
  simp [Transition.run_cons, step, hi, hrow, setAttempt, hd, DeliveryPatch.ofWrite_apply]

/-- Both UPDATEs of an attempt together leave the columns of the outcome. -/
theorem attemptPatch_view {x : AttemptLocals} {result : OutboundHttpResult} {e : Endpoint}
    (hx : x.endpoint = x.flip.view e) :
    (attemptPatch cfg x result x.endpoint).view e =
      e.withBreaker (breakerOutcome cfg.settings x.now x.endpoint result) := by
  have hb : x.endpoint.breaker = x.flip.apply e.breaker := by rw [hx, BreakerPatch.view_breaker]
  rw [BreakerPatch.view, attemptPatch, BreakerPatch.andThen_apply, ← hb, outcomePatch,
    BreakerPatch.diff_apply]

/-- What `attempt` records on its own is what the last commit of the actions writes. -/
theorem commitOutcome_of_recordOutcome {env : AttemptEnv} {x : AttemptLocals}
    {request : OutboundRequest} {result : OutboundHttpResult} {e : Endpoint} {db' : Db}
    {row : Delivery} (hnow : x.now = env.now) (hx : x.endpoint = x.flip.view e)
    (he : s.db.endpoints.get e.id = some e)
    (hd : s.db.deliveries.get x.delivery.id = some x.delivery)
    (h : recordOutcome env { s.db with endpoints := s.db.endpoints.update x.endpoint } x.delivery
      x.endpoint request result = .ok (db', row)) :
    s.commitOutcome ⟨env.settings, env.hmac⟩ x request result x.endpoint x.delivery env.draw
      env.rowId env.rowCreatedAt = some (db', e) := by
  have hid : x.endpoint.id = e.id := by rw [hx, BreakerPatch.view_id]
  obtain ⟨⟨db₁, e₁⟩, hrec, h⟩ := bind_ok h
  obtain ⟨⟨db₂, log⟩, hlog, h⟩ := bind_ok h
  obtain ⟨w, hw, hwrite⟩ := bind_ok h
  obtain ⟨e₀, he₀, rfl⟩ := Db.writeEndpoint_ok hrec
  have hself : (s.db.endpoints.update x.endpoint).get x.endpoint.id = some x.endpoint :=
    Table.get_update_of_get rfl (hid ▸ he)
  obtain rfl : x.endpoint = e₀ := Option.some.inj (hself.symm.trans he₀)
  dsimp only at hlog
  rw [Db.createDeliveryAttempt_endpoints, Db.createDeliveryAttempt_endpoints] at hlog
  cases hrow : s.db.createDeliveryAttempt env.rowId env.rowCreatedAt
      (newAttempt x.delivery request result) with
  | error err =>
    rw [hrow] at hlog
    cases hlog
  | ok r =>
    obtain ⟨db₃, log₃⟩ := r
    rw [hrow] at hlog
    obtain ⟨log₄, -, rfl, -⟩ := Db.createDeliveryAttempt_ok hrow
    simp only [Except.map, Except.ok.injEq, Prod.mk.injEq] at hlog
    obtain ⟨rfl, rfl⟩ := hlog
    obtain ⟨d₀, hd₀, rfl, rfl⟩ := Db.writeDelivery_ok hwrite
    obtain rfl : x.delivery = d₀ := Option.some.inj (hd.symm.trans hd₀)
    have hup : (s.db.endpoints.update x.endpoint).update
        (x.endpoint.withBreaker (breakerOutcome env.settings env.now x.endpoint result)) =
          s.db.endpoints.update
            (e.withBreaker (breakerOutcome env.settings env.now x.endpoint result)) := by
      rw [hx]
      exact Table.update_update _ rfl
    rw [hup]
    simp only [commitOutcome, hnow, hw, hid, he, hd, hrow, attemptPatch_view hx,
      DeliveryPatch.ofWrite_apply]

/-- The actions from the request to the commit record the outcome. -/
theorem outcome_run {env : AttemptEnv} {x : AttemptLocals} {request : OutboundRequest}
    {result : OutboundHttpResult} {e : Endpoint} {db' : Db} {row : Delivery}
    (hi : s.attempts i = some (.sending x)) (hnow : x.now = env.now)
    (hx : x.endpoint = x.flip.view e) (he : s.db.endpoints.get e.id = some e)
    (hd : s.db.deliveries.get x.delivery.id = some x.delivery)
    (hlock : s.lock e.id = none ∨ s.lock e.id = some i)
    (hr : buildRequest env.hmac env.now x.delivery x.event x.endpoint = .ok request)
    (h : recordOutcome env { s.db with endpoints := s.db.endpoints.update x.endpoint } x.delivery
      x.endpoint request result = .ok (db', row)) :
    ∃ t, Transition.run (step ⟨env.settings, env.hmac⟩) s (soloOutcome i env result) = some t ∧
      t.db = db' ∧ t.attempts i = some .recorded := by
  have hid : x.endpoint.id = e.id := by rw [hx, BreakerPatch.view_id]
  let s₁ : Engine :=
    { s.setAttempt i (.responded x request result) with
      sends := s.sends ++ [⟨i, x.endpoint.id, x.observed, x.now⟩] }
  let s₂ := s₁.setAttempt i (.outcomeLoaded x request result x.endpoint)
  let p := outcomePatch ⟨env.settings, env.hmac⟩ x result x.endpoint
  let s₃ := (s₂.lockFor i x.endpoint.id p).setAttempt i
    (.outcomeWritten x request result x.endpoint)
  let s₄ := s₃.setAttempt i (.deliveryLoaded x request result x.endpoint x.delivery)
  have hdb₃ : s₃.db = s.db := lockFor_db s₂ ..
  have hsend : step ⟨env.settings, env.hmac⟩ s (.send i result) = some s₁ := by
    simp only [step, hi, hnow, hr, s₁]
  have hloadE : step ⟨env.settings, env.hmac⟩ s₁ (.loadOutcome i false) = some s₂ := by
    have hrowE : s₁.loadEndpointRow x false = some x.endpoint := by
      have hget : s.db.endpoints.get x.endpoint.id = some e := hid ▸ he
      have hview : (s.db.endpoints.get x.endpoint.id).map x.flip.view = some x.endpoint := by
        rw [hget, Option.map_some, ← hx]
      exact hview
    have hs₁ : s₁.attempts i = some (.responded x request result) := setAttempt_self s ..
    simp only [step, hs₁, hrowE, Option.map_some, s₂]
  have hwriteE : step ⟨env.settings, env.hmac⟩ s₂ (.writeOutcome i) = some s₃ := by
    have hs₂ : s₂.attempts i = some (.outcomeLoaded x request result x.endpoint) :=
      setAttempt_self s₁ ..
    have hcan : s₂.CanWrite i x.endpoint.id p := .inr (by rw [hid]; exact hlock)
    simp only [step, hs₂, s₃]
    rw [if_pos hcan]
  have hloadD : step ⟨env.settings, env.hmac⟩ s₃ (.loadDelivery i false) = some s₄ := by
    have hs₃ : s₃.attempts i = some (.outcomeWritten x request result x.endpoint) :=
      setAttempt_self ..
    have hrowD : s₃.loadDeliveryRow x false = some x.delivery := by
      rw [loadDeliveryRow, if_neg Bool.false_ne_true, hdb₃, hd]
    simp only [step, hs₃, hrowD, Option.map_some, s₄]
  have hs₄ : s₄.attempts i = some (.deliveryLoaded x request result x.endpoint x.delivery) :=
    setAttempt_self s₃ ..
  have hcommit := commitOutcome_of_recordOutcome hnow hx he hd h
  rw [← commitOutcome_congr (s := s₄) hdb₃] at hcommit
  obtain ⟨t, ht, hdb, hatt⟩ : ∃ t, step ⟨env.settings, env.hmac⟩ s₄
      (.commit i env.draw env.rowId env.rowCreatedAt) = some t ∧ t.db = db' ∧
        t.attempts i = some .recorded := by
    simp only [step, hs₄, hcommit, Option.map_some]
    exact ⟨_, rfl, rfl, setAttempt_self ..⟩
  refine ⟨t, ?_, hdb, hatt⟩
  simp only [soloOutcome, Transition.run_cons, hsend, hloadE, hwriteE, hloadD, ht,
    Option.bind_some, Transition.run_nil]

/-- The flip of an open breaker, from the rows the attempt read. -/
theorem flip_run {x : AttemptLocals} (hi : s.attempts i = some (.flipping x))
    (hx : x.flip = {}) (he : s.db.endpoints.get x.endpoint.id = some x.endpoint)
    (hlock : s.lock x.endpoint.id = none) :
    ∃ t, Transition.run (step cfg) s [.loadFlip i false, .flip i] = some t ∧ t.db = s.db ∧
      (t.lock x.endpoint.id = none ∨ t.lock x.endpoint.id = some i) ∧
      t.attempts i = some (.sending { x with
        endpoint := (flipPatch x x.endpoint).view x.endpoint, flip := flipPatch x x.endpoint }) := by
  let s₁ := s.setAttempt i (.flipLoaded x x.endpoint)
  have hrow : s.loadEndpointRow x false = some x.endpoint := by
    simp only [loadEndpointRow, Bool.false_eq_true, if_false, he, hx, Option.map_some,
      BreakerPatch.empty_view]
  have hload : step cfg s (.loadFlip i false) = some s₁ := by
    simp only [step, hi, hrow, Option.map_some, s₁]
  have hs₁ : s₁.attempts i = some (.flipLoaded x x.endpoint) := setAttempt_self s ..
  have hcan : s₁.CanWrite i x.endpoint.id (flipPatch x x.endpoint) := .inr (.inl hlock)
  have hget : s₁.db.endpoints.get x.endpoint.id = some x.endpoint := he
  have hflip : step cfg s₁ (.flip i) =
      some ((s₁.lockFor i x.endpoint.id (flipPatch x x.endpoint)).setAttempt i (.sending { x with
        endpoint := (flipPatch x x.endpoint).view x.endpoint
        flip := flipPatch x x.endpoint })) := by
    simp only [step, hs₁, if_pos hcan, hget, Option.map_some]
  refine ⟨_, Transition.run_cons_eq_some.mpr ⟨_, hload,
    Transition.run_cons_eq_some.mpr ⟨_, hflip, rfl⟩⟩, ?_, ?_, setAttempt_self ..⟩
  · exact lockFor_db s₁ ..
  · simp only [lockFor, setAttempt]
    split
    · exact .inl hlock
    · exact .inr (Function.update_self ..)

/-- Whatever `attempt` commits on its own, some actions of one engine attempt commit. -/
theorem attempt_run {env : AttemptEnv} {send : OutboundRequest → OutboundHttpResult} {id : UUID}
    {db' : Db} {row : Delivery} (hi : s.attempts i = none) (hlock : ∀ k, s.lock k = none)
    (h : attempt env send s.db id = .ok (db', row)) :
    ∃ as t, Transition.run (step ⟨env.settings, env.hmac⟩) s as = some t ∧ t.db = db' ∧
      (t.attempts i = some .deferred ∨ t.attempts i = some .recorded) := by
  obtain ⟨⟨d, ev, e⟩, hload, h⟩ := bind_ok h
  obtain ⟨hd, hev, he⟩ := loadRows_ok hload
  have hdid : d.id = id := Table.key_of_get hd
  have heid : e.id = d.endpointId := Table.key_of_get he
  let x : AttemptLocals :=
    { delivery := d, event := ev, endpoint := e, now := env.now,
      observed := if e.breakerState = .opened then some ⟨s.openings e.id, e.openedAt⟩ else none }
  have hdx : s.db.deliveries.get x.delivery.id = some x.delivery := hdid ▸ hd
  have hex : s.db.endpoints.get x.endpoint.id = some x.endpoint := heid ▸ he
  have hreads : Transition.run (step ⟨env.settings, env.hmac⟩) s
      [.readDelivery i id, .readEndpoint i env.now] = _ := reads_run hi hload
  dsimp only at h
  cases hdef : deferral env.settings env.now e with
  | some u =>
    have hphase : s.afterReadEndpoint ⟨env.settings, env.hmac⟩ d env.now = .deferring x u := by
      simp only [afterReadEndpoint, hev, he, hdef, x]
    rw [hphase] at hreads
    rw [hdef] at h
    obtain ⟨d₀, hd₀, hrow, rfl⟩ := Db.writeDelivery_ok h
    obtain rfl : d = d₀ := Option.some.inj (hdx.symm.trans hd₀)
    subst hrow
    have hrun : Transition.run (step ⟨env.settings, env.hmac⟩)
        (s.setAttempt i (.deferring x u)) [.loadDeferral i false, .commitDeferral i] = _ :=
      deferral_run (setAttempt_self ..) hdx
    exact ⟨_, _, Transition.run_trans hreads hrun, rfl, .inl (setAttempt_self ..)⟩
  | none =>
    have hphase : s.afterReadEndpoint ⟨env.settings, env.hmac⟩ d env.now =
        if e.breakerState = .opened then .flipping x else .sending x := by
      simp only [afterReadEndpoint, hev, he, hdef, x]
    rw [hphase] at hreads
    rw [hdef] at h
    obtain ⟨⟨db₁, e₁⟩, hflip, h⟩ := bind_ok h
    obtain ⟨request, hr, h⟩ := bind_ok h
    unfold flipIfOpen at hflip
    split at hflip
    next hopen =>
      rw [if_pos hopen] at hreads
      obtain ⟨u, hu, hudb, hulock, hux⟩ := @flip_run ⟨env.settings, env.hmac⟩
        (s.setAttempt i (.flipping x)) i x (setAttempt_self ..) rfl hex (hlock _)
      rw [Db.setBreakerState, Db.writeEndpoint_of_get _ hex] at hflip
      have hview : (flipPatch x x.endpoint).view x.endpoint = e₁ := by
        rw [BreakerPatch.view, flipPatch, BreakerPatch.diff_apply]
        cases hflip
        rfl
      rw [hview] at hux
      cases hflip
      obtain ⟨t, ht, hdb, hatt⟩ := outcome_run hux rfl hview.symm (hudb ▸ hex) (hudb ▸ hdx)
        hulock hr (by rw [hudb]; exact h)
      exact ⟨_, t, Transition.run_trans (Transition.run_trans hreads hu) ht, hdb, .inr hatt⟩
    next hopen =>
      rw [if_neg hopen] at hreads
      cases hflip
      have hsame : s.db.endpoints.update e = s.db.endpoints := Table.update_eq_self hex
      have hrec : recordOutcome env { s.db with endpoints := s.db.endpoints.update e } d e request
          (send request) = .ok (db', row) := by
        rw [hsame]
        exact h
      obtain ⟨t, ht, hdb, hatt⟩ := outcome_run (s := s.setAttempt i (.sending x)) (x := x)
        (setAttempt_self ..) rfl rfl hex hdx (.inl (hlock _)) hr hrec
      exact ⟨_, t, Transition.run_trans hreads ht, hdb, .inr hatt⟩

end Engine

end RelayWebhooks
