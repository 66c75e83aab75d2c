import RelayWebhooks.Services.IngestReplay
import RelayWebhooks.Services.SandboxCaps

/-! Repeating a `POST /v1/events` request that was answered: its quota check runs before the
service looks the key up. -/
namespace RelayWebhooks

namespace Ingest
variable {jsonb : Json → Json} {s t : Ingest} {a : IngestAction}

/-- A call that has returned no longer stops. -/
theorem stop_cases {i : ℕ} (h : step jsonb s (.stop i) = some t) :
    ∃ c, s.calls.get i = some c ∧ (∀ e created, c.phase ≠ .returned e created) ∧
      t = s.setPhase c (.stopped c.wrote) := by
  simp only [step] at h
  split at h
  next => cases h
  next => cases h
  next => cases h
  next c hreturned _ _ hi =>
    refine ⟨c, hi, fun e created hp => ?_, (Option.some.inj h).symm⟩
    obtain ⟨j, r, p⟩ := c
    obtain rfl : p = .returned e created := hp
    exact hreturned j r e created rfl
  next => cases h

/-- Past its lookup an action moves one call, and never one that has returned. -/
theorem calls_of_step (h : step jsonb s a = some t) (hne : ∀ i r, a ≠ .lookup i r) :
    ∃ c p, s.calls.get c.id = some c ∧ (∀ e created, c.phase ≠ .returned e created) ∧
      t.calls = s.calls.update { c with phase := p } := by
  have hcall {i : ℕ} {c : IngestCall} (hi : s.calls.get i = some c)
      (hp : ∀ e created, c.phase ≠ .returned e created) (p : IngestPhase) :
      ∃ c' p', s.calls.get c'.id = some c' ∧ (∀ e created, c'.phase ≠ .returned e created) ∧
        s.calls.update { c with phase := p } = s.calls.update { c' with phase := p' } := by
    obtain rfl : c.id = i := Table.key_of_get hi
    exact ⟨c, p, hi, hp, rfl⟩
  cases steps_of_step h with
  | lookup => exact absurd rfl (hne _ _)
  | conflict hi => exact hcall hi (fun _ _ => nofun) _
  | insert hi => exact hcall hi (fun _ _ => nofun) _
  | createOutbox hi => exact hcall hi (fun _ _ => nofun) _
  | refuseOutbox hi => exact hcall hi (fun _ _ => nofun) _
  | commit hi => exact hcall hi (fun _ _ => nofun) _
  | relookup hi => exact hcall hi (fun _ _ => nofun) _
  | finish hi => exact hcall hi (fun _ _ => nofun) _
  | stop =>
    obtain ⟨c, hi, hp, heq⟩ := stop_cases h
    rw [heq]
    exact hcall hi hp _

theorem mem_events_of_step (h : step jsonb s a = some t) {e : Event}
    (he : e ∈ s.db.events.rows) : e ∈ t.db.events.rows := by
  cases steps_of_step h with
  | commit _ hins _ =>
    rw [(Table.insert_eq_some.mp hins).2]
    exact List.mem_append_left _ he
  | lookup | conflict | insert | createOutbox | refuseOutbox | relookup | finish | stop => exact he

end Ingest

/-- Two requests of one tenant under one key with the same body. -/
structure EventRequest.Repeats (r r₁ : EventRequest) : Prop where
  tenant : r.tenant.id = r₁.tenant.id
  key : r.body.idempotencyKey = r₁.body.idempotencyKey
  type : r.body.type = r₁.body.type
  payload : r.body.payload = r₁.body.payload
  bodyLength : r.body.bodyLength = r₁.body.bodyLength

namespace Sandbox
variable {urlparse : UrlParse} {jsonb : Json → Json} {settings : Settings} {s t : Sandbox}
  {a : SandboxAction}

/-- What the request was answered, once it was: the event of a 202, or the error. -/
def response (s : Sandbox) (i : ℕ) : Option (Except Raised Event) :=
  (s.eventRequests.get i).bind fun r =>
    match r.phase with
    | .refused err => some (.error err)
    | .ingesting =>
      (s.ingest.calls.get i).bind fun c =>
        match c.phase with
        | .returned e _ => some (.ok e)
        | .raised err => some (.error err)
        | _ => none
    | _ => none

theorem response_ok {i : ℕ} {e : Event} : s.response i = some (.ok e) ↔
    ∃ r c created, s.eventRequests.get i = some r ∧ r.phase = .ingesting ∧
      s.ingest.calls.get i = some c ∧ c.phase = .returned e created := by
  unfold response
  rw [Option.bind_eq_some_iff]
  constructor
  · rintro ⟨r, hr, h⟩
    split at h
    next => cases h
    next hp =>
      obtain ⟨c, hc, h⟩ := Option.bind_eq_some_iff.mp h
      split at h
      next hreturned => cases h; exact ⟨r, c, _, hr, hp, hc, hreturned⟩
      next => cases h
      next => cases h
    next => cases h
  · rintro ⟨r, c, created, hr, hp, hc, hreturned⟩
    refine ⟨r, hr, ?_⟩
    simp only [hp, hc, Option.bind_some, hreturned]

/-- A call of the ingest service belongs to the request of its number, and that request passed
the size check. -/
structure Linked (settings : Settings) (s : Sandbox) : Prop where
  calls : ∀ c ∈ s.ingest.calls.rows, ∃ r, s.eventRequests.get c.id = some r ∧
    r.phase = .ingesting ∧ c.request = r.ingestRequest
  sizes : ∀ r ∈ s.eventRequests.rows, r.phase = .ingesting →
    r.body.bodyLength ≤ settings.eventPayloadMaxBytes

theorem linked_init (h : Init s) : Linked settings s := by
  constructor
  · intro c hc
    rw [h.ingest.2.2] at hc
    cases hc
  · intro r hr
    rw [h.eventRequests] at hr
    cases hr

/-- A request that has not started its ingest, and does not by this change. -/
theorem Linked.setEvent (hL : Linked settings s) {i : ℕ} {r : EventRequest} {p : EventPhase}
    (hr : s.eventRequests.get i = some r) (hold : r.phase ≠ .ingesting) (hnew : p ≠ .ingesting) :
    Linked settings (s.setEvent r p) := by
  have hid : r.id = i := Table.key_of_get hr
  constructor
  · intro c hc
    obtain ⟨r', hr', hp', hreq⟩ := hL.calls c hc
    have hne : c.id ≠ r.id := by
      intro heq
      rw [heq, hid, hr] at hr'
      exact hold (Option.some.inj hr' ▸ hp')
    exact ⟨r', (Table.get_update_ne _ hne).trans hr', hp', hreq⟩
  · intro r' hr' hp'
    rcases Table.mem_update hr' with rfl | ⟨hr', -⟩
    · exact absurd hp' hnew
    · exact hL.sizes r' hr' hp'

theorem startIngest_cases {r : EventRequest} (h : s.startIngest jsonb settings r = some t) :
    (settings.eventPayloadMaxBytes < r.body.bodyLength ∧ ∃ err, t = s.setEvent r (.refused err)) ∨
      r.body.bodyLength ≤ settings.eventPayloadMaxBytes ∧
        ∃ calls, s.ingest.calls.insert
            ⟨r.id, r.ingestRequest, s.ingest.afterLookup r.ingestRequest⟩ = some calls ∧
          t = { s.setEvent r .ingesting with ingest := { s.ingest with calls } } := by
  unfold startIngest at h
  split at h
  next hsize => exact .inl ⟨hsize, _, (Option.some.inj h).symm⟩
  next hsize =>
    obtain ⟨ingest, hi, rfl⟩ := Option.map_eq_some_iff.mp h
    obtain ⟨calls, hcalls, rfl⟩ := Option.map_eq_some_iff.mp hi
    exact .inr ⟨not_lt.mp hsize, calls, hcalls, rfl⟩

theorem Linked.startIngest (hL : Linked settings s) {i : ℕ}
    (h : step urlparse jsonb settings s (.startIngest i) = some t) : Linked settings t := by
  obtain ⟨r, hr, hstart⟩ := Option.bind_eq_some_iff.mp h
  split at hstart
  next hp =>
    obtain rfl : r.id = i := Table.key_of_get hr
    rcases startIngest_cases hstart with ⟨-, err, rfl⟩ | ⟨hsize, calls, hcalls, rfl⟩
    · exact hL.setEvent hr (by rw [hp]; nofun) nofun
    · obtain ⟨hfresh, hrows⟩ := Table.insert_eq_some.mp hcalls
      constructor
      · intro c hc
        dsimp only at hc
        rw [hrows, List.mem_append, List.mem_singleton] at hc
        rcases hc with hc | rfl
        · obtain ⟨r', hr', hp', hreq⟩ := hL.calls c hc
          have hne : c.id ≠ r.id := by
            intro heq
            rw [heq, hr] at hr'
            obtain rfl := Option.some.inj hr'
            rw [hp] at hp'
            cases hp'
          exact ⟨r', (Table.get_update_ne _ hne).trans hr', hp', hreq⟩
        · exact ⟨_, Table.get_update_of_get rfl hr, rfl, rfl⟩
      · intro r' hr' hp'
        rcases Table.mem_update hr' with rfl | ⟨hr', -⟩
        · exact hsize
        · exact hL.sizes r' hr' hp'
  next => cases hstart

theorem stopEvent_cases {i : ℕ} (h : step urlparse jsonb settings s (.stopEvent i) = some t) :
    ∃ r, s.eventRequests.get i = some r ∧ r.phase ≠ .ingesting ∧ t = s.setEvent r .stopped := by
  obtain ⟨r, hr, h⟩ := Option.bind_eq_some_iff.mp h
  split at h
  next => cases h
  next => cases h
  next => cases h
  next hp _ _ => exact ⟨r, hr, hp, (Option.some.inj h).symm⟩

theorem Linked.step (hL : Linked settings s) (h : step urlparse jsonb settings s a = some t) :
    Linked settings t := by
  cases steps_of_step h with
  | postEndpoint | checkEndpointQuota | register | commitEndpoint | stopEndpoint =>
    exact ⟨hL.calls, hL.sizes⟩
  | @postEvent i tenantId body tenant requests ht hi =>
    obtain ⟨hfresh, hrows⟩ := Table.insert_eq_some.mp hi
    constructor
    · intro c hc
      obtain ⟨r, hr, hp, hreq⟩ := hL.calls c hc
      exact ⟨r, Table.get_insert_of_get hi hr, hp, hreq⟩
    · intro r hr hp
      rw [hrows, List.mem_append, List.mem_singleton] at hr
      rcases hr with hr | rfl
      · exact hL.sizes r hr hp
      · cases hp
  | @rateLimit i now redisTime r d rateLimits hr hp =>
    have hnew : afterRateLimit d ≠ .ingesting := by
      unfold afterRateLimit
      split <;> nofun
    have hset := hL.setEvent hr (by rw [hp]; nofun) hnew
    exact ⟨hset.calls, hset.sizes⟩
  | checkEventQuota hr hp =>
    exact hL.setEvent hr (by rw [hp]; nofun) (by
      unfold afterEventQuota
      split <;> nofun)
  | refuseSize => exact hL.startIngest h
  | startIngest => exact hL.startIngest h
  | ingest hne hi =>
    obtain ⟨c₀, p, hc₀, -, hcalls⟩ := Ingest.calls_of_step hi hne
    refine ⟨fun c hc => ?_, hL.sizes⟩
    dsimp only at hc
    rw [hcalls] at hc
    rcases Table.mem_update hc with rfl | ⟨hc, -⟩
    · exact hL.calls c₀ (Table.mem_of_get hc₀)
    · exact hL.calls c hc
  | stopEvent =>
    obtain ⟨r, hr, hp, heq⟩ := stopEvent_cases h
    rw [heq]
    exact hL.setEvent hr hp nofun

theorem storesRequest_step (hS : ∀ c ∈ s.ingest.calls.rows, Ingest.StoresRequest jsonb c)
    (h : step urlparse jsonb settings s a = some t) :
    ∀ c ∈ t.ingest.calls.rows, Ingest.StoresRequest jsonb c := by
  cases steps_of_step h with
  | startIngest _ _ hi => exact Ingest.storesRequest_step hS hi
  | ingest _ hi => exact Ingest.storesRequest_step hS hi
  | postEndpoint | checkEndpointQuota | register | commitEndpoint | stopEndpoint | postEvent
  | rateLimit | checkEventQuota | refuseSize | stopEvent => exact hS

/-- A reachable state: the ingest calls keep their own invariant, each is its request's, and what
they have stored is what they were asked to. -/
structure Sound (jsonb : Json → Json) (settings : Settings) (s : Sandbox) : Prop where
  inv : Inv s
  linked : Linked settings s
  stores : ∀ c ∈ s.ingest.calls.rows, Ingest.StoresRequest jsonb c

theorem sound_init (h : Init s) : Sound jsonb settings s := by
  refine ⟨inv_init h, linked_init h, fun c hc => ?_⟩
  rw [h.ingest.2.2] at hc
  cases hc

theorem Sound.step (hS : Sound jsonb settings s) (h : step urlparse jsonb settings s a = some t) :
    Sound jsonb settings t :=
  ⟨hS.inv.step h, hS.linked.step h, storesRequest_step hS.stores h⟩

/-- The event a request was answered with is stored. It is of the request's type, and either it is
the one the request has stored or its payload has been found equal. -/
theorem Sound.answered (hS : Sound jsonb settings s) {i : ℕ} {r : EventRequest} {e : Event}
    (hr : s.eventRequests.get i = some r) (h : s.response i = some (.ok e)) :
    e ∈ s.db.events.rows ∧ r.ingestRequest.Matches e ∧ e.type = r.body.type ∧
      (e.payload = jsonb r.body.payload ∨ e.payload.pyEq r.body.payload = true) ∧
      r.body.bodyLength ≤ settings.eventPayloadMaxBytes := by
  obtain ⟨r', c, created, hr', hp, hc, hreturned⟩ := response_ok.mp h
  obtain rfl : r' = r := Option.some.inj (hr'.symm.trans hr)
  have hmem := Table.mem_of_get hc
  obtain ⟨r'', hr'', -, hreq⟩ := hS.linked.calls c hmem
  rw [show c.id = i from Table.key_of_get hc] at hr''
  obtain rfl : r'' = r' := Option.some.inj (hr''.symm.trans hr)
  have hsize := hS.linked.sizes r'' (Table.mem_of_get hr) hp
  have hok := hS.inv.ingest.calls c hmem
  obtain ⟨k, q, p⟩ := c
  obtain rfl : p = .returned e created := hreturned
  obtain rfl : q = r''.ingestRequest := hreq
  cases created with
  | true =>
    obtain ⟨id, createdAt, he⟩ := hS.stores _ hmem e (.inl rfl)
    obtain rfl : e = Ingest.newEvent jsonb r''.ingestRequest id createdAt := he
    exact ⟨hok.1, hok.2, rfl, .inl rfl, hsize⟩
  | false =>
    obtain ⟨he, hm, hbody⟩ := hok
    rw [IngestRequest.sameBody, Bool.and_eq_true, decide_eq_true_iff] at hbody
    exact ⟨he, hm, hbody.1, .inr hbody.2, hsize⟩

/-- The repeat has passed its quota check and can only end in the event. -/
def Returning (settings : Settings) (e : Event) (j : ℕ) (s : Sandbox) : Prop :=
  ∃ r, s.eventRequests.get j = some r ∧ r.ingestRequest.Matches e ∧
    r.ingestRequest.sameBody e = true ∧ r.body.bodyLength ≤ settings.eventPayloadMaxBytes ∧
    (r.phase = .allowed ∨ r.phase = .stopped ∨
      r.phase = .ingesting ∧ ∃ c, s.ingest.calls.get j = some c ∧ c.phase = .returned e false)

variable {e : Event} {j : ℕ}

theorem Returning.response_eq (h : Returning settings e j s) {x : Except Raised Event}
    (hx : s.response j = some x) : x = .ok e := by
  obtain ⟨r, hr, -, -, -, hp | hp | ⟨hp, c, hc, hreturned⟩⟩ := h
  · simp [response, hr, hp] at hx
  · simp [response, hr, hp] at hx
  · simp only [response, hr, hp, hc, hreturned, Option.bind_some] at hx
    exact (Option.some.inj hx).symm

/-- A change of another request. -/
theorem Returning.setEvent (h : Returning settings e j s) {i : ℕ} {r : EventRequest}
    {p : EventPhase} (hr : s.eventRequests.get i = some r)
    (hp : r.phase ≠ .allowed ∧ r.phase ≠ .stopped ∧ r.phase ≠ .ingesting) :
    Returning settings e j (s.setEvent r p) := by
  obtain ⟨r', hr', hm, hbody, hsize, hphase⟩ := h
  have hne : j ≠ r.id := by
    intro heq
    rw [heq, show r.id = i from Table.key_of_get hr, hr] at hr'
    obtain rfl := Option.some.inj hr'
    rcases hphase with hphase | hphase | ⟨hphase, -⟩
    · exact hp.1 hphase
    · exact hp.2.1 hphase
    · exact hp.2.2 hphase
  exact ⟨r', (Table.get_update_ne _ hne).trans hr', hm, hbody, hsize, hphase⟩

/-- The service's lookup of the repeat, or of another request. -/
theorem Returning.startIngest (h : Returning settings e j s) (hI : s.ingest.Inv)
    (he : e ∈ s.db.events.rows) {i : ℕ}
    (hstep : step urlparse jsonb settings s (.startIngest i) = some t) :
    Returning settings e j t := by
  obtain ⟨r, hr, hstart⟩ := Option.bind_eq_some_iff.mp hstep
  obtain ⟨r', hr', hm, hbody, hsize, hphase⟩ := h
  split at hstart
  next hp =>
    obtain rfl : r.id = i := Table.key_of_get hr
    by_cases hne : j = r.id
    · subst hne
      obtain rfl : r' = r := Option.some.inj (hr'.symm.trans hr)
      rcases startIngest_cases hstart with ⟨hlarge, -⟩ | ⟨-, calls, hcalls, rfl⟩
      · omega
      · refine ⟨_, Table.get_update_of_get rfl hr, hm, hbody, hsize, .inr (.inr ⟨rfl, _,
          Table.get_insert_self hcalls, ?_⟩)⟩
        rw [Ingest.afterLookup_eq_resolve hI he hm]
        exact if_pos hbody
    · have hget (p : EventPhase) : (s.eventRequests.update { r with phase := p }).get j =
          some r' := (Table.get_update_ne _ hne).trans hr'
      rcases startIngest_cases hstart with ⟨-, err, rfl⟩ | ⟨-, calls, hcalls, rfl⟩
      · exact ⟨r', hget _, hm, hbody, hsize, hphase⟩
      · refine ⟨r', hget _, hm, hbody, hsize, ?_⟩
        rcases hphase with hp' | hp' | ⟨hp', c, hc, hreturned⟩
        · exact .inl hp'
        · exact .inr (.inl hp')
        · exact .inr (.inr ⟨hp', c, Table.get_insert_of_get hcalls hc, hreturned⟩)
  next => cases hstart

theorem Returning.step (h : Returning settings e j s) (hI : s.ingest.Inv)
    (he : e ∈ s.db.events.rows) (hstep : step urlparse jsonb settings s a = some t) :
    Returning settings e j t := by
  cases steps_of_step hstep with
  | postEndpoint | checkEndpointQuota | register | commitEndpoint | stopEndpoint => exact h
  | postEvent ht hi =>
    obtain ⟨r, hr, hrest⟩ := h
    exact ⟨r, Table.get_insert_of_get hi hr, hrest⟩
  | rateLimit hr hp => exact h.setEvent hr (by rw [hp]; exact ⟨nofun, nofun, nofun⟩)
  | checkEventQuota hr hp => exact h.setEvent hr (by rw [hp]; exact ⟨nofun, nofun, nofun⟩)
  | refuseSize => exact h.startIngest hI he hstep
  | startIngest => exact h.startIngest hI he hstep
  | ingest hne hi =>
    obtain ⟨r, hr, hm, hbody, hsize, hphase⟩ := h
    obtain ⟨c₀, p, hc₀, hopen, hcalls⟩ := Ingest.calls_of_step hi hne
    refine ⟨r, hr, hm, hbody, hsize, ?_⟩
    rcases hphase with hp | hp | ⟨hp, c, hc, hreturned⟩
    · exact .inl hp
    · exact .inr (.inl hp)
    · have hne : j ≠ c₀.id := by
        intro heq
        rw [heq, hc₀] at hc
        obtain rfl := Option.some.inj hc
        exact hopen e false hreturned
      refine .inr (.inr ⟨hp, c, ?_, hreturned⟩)
      dsimp only
      rw [hcalls]
      exact (Table.get_update_ne _ hne).trans hc
  | stopEvent =>
    obtain ⟨r₀, hr₀, hp₀, heq⟩ := stopEvent_cases hstep
    obtain ⟨r, hr, hm, hbody, hsize, hphase⟩ := h
    obtain rfl : r₀.id = _ := Table.key_of_get hr₀
    rw [heq]
    by_cases hne : j = r₀.id
    · subst hne
      obtain rfl : r = r₀ := Option.some.inj (hr.symm.trans hr₀)
      exact ⟨_, Table.get_update_of_get rfl hr, hm, hbody, hsize, .inr (.inl rfl)⟩
    · exact ⟨r, (Table.get_update_ne _ hne).trans hr, hm, hbody, hsize, hphase⟩

theorem mem_events_of_step (h : Sandbox.step urlparse jsonb settings s a = some t)
    (he : e ∈ s.db.events.rows) : e ∈ t.db.events.rows := by
  cases steps_of_step h with
  | startIngest _ _ hi => exact Ingest.mem_events_of_step hi he
  | ingest _ hi => exact Ingest.mem_events_of_step hi he
  | postEndpoint | checkEndpointQuota | register | commitEndpoint | stopEndpoint | postEvent
  | rateLimit | checkEventQuota | refuseSize | stopEvent => exact he

theorem Returning.run (h : Returning settings e j s) (hI : Inv s) (he : e ∈ s.db.events.rows)
    {as : List SandboxAction} (ht : run urlparse jsonb settings s as = some t) :
    Returning settings e j t :=
  (Transition.run_invariant
    (I := fun s => Returning settings e j s ∧ Inv s ∧ e ∈ s.db.events.rows)
    (fun _ _ _ h hstep => ⟨h.1.step h.2.1.ingest h.2.2 hstep, h.2.1.step hstep,
      mem_events_of_step hstep h.2.2⟩) ⟨h, hI, he⟩ ht).1

/-- A request past its quota check starts its ingest and finds the event: it is answered with it,
or with a conflict if the stored body is not the one it has sent. -/
theorem Sound.startIngest_resolves (hS : Sound jsonb settings s) {r : EventRequest}
    (hr : s.eventRequests.get r.id = some r) (hp : r.phase = .allowed)
    (he : e ∈ s.db.events.rows) (hm : r.ingestRequest.Matches e)
    (hsize : r.body.bodyLength ≤ settings.eventPayloadMaxBytes) :
    ∃ t, Sandbox.step urlparse jsonb settings s (.startIngest r.id) = some t ∧
      t.response r.id = some (if r.ingestRequest.sameBody e then .ok e
        else .error (.differingBodyConflict r.tenant.id r.body.idempotencyKey)) := by
  obtain ⟨calls, hcalls⟩ : ∃ calls, s.ingest.calls.insert
      ⟨r.id, r.ingestRequest, s.ingest.afterLookup r.ingestRequest⟩ = some calls := by
    rw [← Option.ne_none_iff_exists', ne_eq, Table.insert_eq_none]
    rintro ⟨c, hc⟩
    obtain ⟨r', hr', hp', -⟩ := hS.linked.calls c (Table.mem_of_get hc)
    rw [show c.id = r.id from Table.key_of_get hc, hr] at hr'
    rw [← Option.some.inj hr', hp] at hp'
    cases hp'
  refine ⟨{ s.setEvent r .ingesting with ingest := { s.ingest with calls } }, ?_, ?_⟩
  · simp [Sandbox.step, hr, hp, startIngest, not_lt.mpr hsize, Ingest.step, hcalls]
  · have hget : (s.setEvent r .ingesting).eventRequests.get r.id =
        some { r with phase := .ingesting } := Table.get_update_of_get rfl hr
    have hcall : calls.get r.id =
        some ⟨r.id, r.ingestRequest, Ingest.resolve e r.ingestRequest⟩ := by
      rw [← Ingest.afterLookup_eq_resolve hS.inv.ingest he hm]
      exact Table.get_insert_self hcalls
    unfold response
    simp only [hget, hcall, Option.bind_some]
    unfold Ingest.resolve
    cases r.ingestRequest.sameBody e <;> rfl

/-- The quota check lets the tenant ingest one more event. -/
def QuotaRoom (settings : Settings) (s : Sandbox) (tenant : Tenant) : Prop :=
  tenant.isSandbox = true → s.db.countEvents tenant.id < settings.sandboxMaxEvents

theorem afterEventQuota_eq (tenant : Tenant) :
    (s.QuotaRoom settings tenant → s.afterEventQuota settings tenant = .allowed) ∧
      (¬s.QuotaRoom settings tenant → ∃ err, s.afterEventQuota settings tenant = .refused err) := by
  unfold QuotaRoom afterEventQuota assertEventQuota checkQuota
  cases tenant.isSandbox with
  | false => simp
  | true =>
    by_cases hroom : s.db.countEvents tenant.id < settings.sandboxMaxEvents
    · simp [hroom, not_le.mpr hroom]
    · simp [hroom, not_lt.mp hroom]

/-- The repeat, let through by the rate limiter, goes on to the 202 with the event, and no other
answer can come, whatever else runs once its quota is being checked. -/
structure ReturnsOriginal (urlparse : UrlParse) (jsonb : Json → Json) (settings : Settings)
    (s : Sandbox) (j : ℕ) (e : Event) : Prop where
  answers : ∃ t, run urlparse jsonb settings s [.checkEventQuota j, .startIngest j] = some t ∧
    t.response j = some (.ok e)
  only : ∀ as t x, run urlparse jsonb settings s (.checkEventQuota j :: as) = some t →
    t.response j = some x → x = .ok e

/-- An accepted request stays repeatable as long as the quota leaves the tenant room for another
event (the check counts the repeat as a new one) and the payload of the event, which has been
through the JSONB column, is equal to the one that is sent again. -/
theorem repeat_returns_iff
    (h : Transition.Reachable (Sandbox.step urlparse jsonb settings) Init s) {i : ℕ}
    {r₁ r : EventRequest} (hr₁ : s.eventRequests.get i = some r₁)
    (h₁ : s.response i = some (.ok e)) (hr : s.eventRequests.get j = some r)
    (hp : r.phase = .admitted) (hrepeats : r.Repeats r₁) :
    (ReturnsOriginal urlparse jsonb settings s j e ↔
      s.QuotaRoom settings r.tenant ∧ e.payload.pyEq r.body.payload = true) ∧
    (e.payload = jsonb r.body.payload ∨ e.payload.pyEq r.body.payload = true) := by
  have hS : Sound jsonb settings s :=
    h.invariant (fun _ => sound_init) fun _ _ _ hS hst => hS.step hst
  obtain ⟨he, hm₁, htype, hstored, hsize₁⟩ := hS.answered hr₁ h₁
  have hm : r.ingestRequest.Matches e :=
    ⟨hm₁.1.trans hrepeats.tenant.symm, hm₁.2.trans hrepeats.key.symm⟩
  have hbody : r.ingestRequest.sameBody e = e.payload.pyEq r.body.payload := by
    rw [IngestRequest.sameBody, EventRequest.ingestRequest, hrepeats.type, htype]
    simp
  have hsize : r.body.bodyLength ≤ settings.eventPayloadMaxBytes := hrepeats.bodyLength ▸ hsize₁
  obtain rfl : r.id = j := Table.key_of_get hr
  have hcheck : Sandbox.step urlparse jsonb settings s (.checkEventQuota r.id) =
      some (s.setEvent r (s.afterEventQuota settings r.tenant)) := by
    simp [Sandbox.step, hr, hp]
  refine ⟨?_, hrepeats.payload ▸ hstored⟩
  by_cases hroom : s.QuotaRoom settings r.tenant
  · have hallowed := (afterEventQuota_eq r.tenant).1 hroom
    rw [hallowed] at hcheck
    have hset := hS.step hcheck
    have hget : (s.setEvent r .allowed).eventRequests.get r.id =
        some { r with phase := .allowed } :=
      Table.get_update_of_get rfl hr
    obtain ⟨t, ht, hresponse⟩ :=
      hset.startIngest_resolves (r := { r with phase := .allowed }) hget rfl he hm hsize
    have hresponse : t.response r.id = some (if r.ingestRequest.sameBody e then .ok e
        else .error (.differingBodyConflict r.tenant.id r.body.idempotencyKey)) := hresponse
    rw [hbody] at hresponse
    rw [and_iff_right hroom]
    constructor
    · intro hreturns
      by_contra hdiffers
      rw [if_neg hdiffers] at hresponse
      cases hreturns.only [.startIngest r.id] t _ (Transition.run_cons_eq_some.mpr ⟨_, hcheck,
        Transition.run_cons_eq_some.mpr ⟨t, ht, rfl⟩⟩) hresponse
    · intro hsame
      constructor
      · rw [if_pos hsame] at hresponse
        exact ⟨t, Transition.run_cons_eq_some.mpr ⟨_, hcheck,
          Transition.run_cons_eq_some.mpr ⟨t, ht, rfl⟩⟩, hresponse⟩
      · intro as u x hu hx
        obtain ⟨v, hv, hu⟩ := Transition.run_cons_eq_some.mp hu
        obtain rfl := Option.some.inj (hcheck.symm.trans hv)
        have hreturning : Returning settings e r.id (s.setEvent r .allowed) :=
          ⟨_, hget, hm, hbody.trans hsame, hsize, .inl rfl⟩
        exact (hreturning.run hset.inv he hu).response_eq hx
  · refine iff_of_false (fun hreturns => ?_) fun hboth => hroom hboth.1
    obtain ⟨err, herr⟩ := (afterEventQuota_eq r.tenant).2 hroom
    rw [herr] at hcheck
    have hrefused : (s.setEvent r (.refused err)).response r.id = some (.error err) := by
      unfold response
      rw [show (s.setEvent r (.refused err)).eventRequests.get r.id = _ from
        Table.get_update_of_get rfl hr]
      rfl
    cases hreturns.only [] _ _ (Transition.run_cons_eq_some.mpr ⟨_, hcheck, rfl⟩) hrefused

/-- A sandbox's first event, and its repeat up to the quota check. -/
def sampleRepeated : List SandboxAction :=
  [.postEvent 0 4 sampleEvent, .rateLimit 0 0 0, .checkEventQuota 0, .startIngest 0,
    .ingest (.insert 0 3 0), .ingest (.createOutbox 0 4 0), .ingest (.commit 0),
    .ingest (.finish 0), .postEvent 1 4 sampleEvent, .rateLimit 1 1 1]

def sampleStored : Event :=
  Ingest.newEvent id (EventRequest.ingestRequest ⟨0, sampleTenant, sampleEvent, .ingesting⟩) 3 0

theorem repeat_returns_iff_sample : ∃ s,
    run sampleUrlparse id {} provisioned sampleRepeated = some s ∧
      s.response 0 = some (.ok sampleStored) ∧
      ReturnsOriginal sampleUrlparse id {} s 1 sampleStored := by
  have hrun : (run sampleUrlparse id {} provisioned sampleRepeated).map
      (fun s => (s.eventRequests.get 0, s.eventRequests.get 1, s.response 0,
        s.db.countEvents 4)) =
      some (some ⟨0, sampleTenant, sampleEvent, .ingesting⟩,
        some ⟨1, sampleTenant, sampleEvent, .admitted⟩, some (.ok sampleStored), 1) := by
    with_unfolding_all rfl
  obtain ⟨s, hs, heq⟩ := Option.map_eq_some_iff.mp hrun
  simp only [Prod.mk.injEq] at heq
  obtain ⟨hr₁, hr, h₁, hcount⟩ := heq
  refine ⟨s, hs, h₁, (repeat_returns_iff ⟨provisioned, _, ⟨⟨rfl, rfl, rfl⟩, rfl, rfl, rfl⟩, hs⟩
    hr₁ h₁ hr rfl ⟨rfl, rfl, rfl, rfl, rfl⟩).1.mpr ⟨fun _ => ?_, by decide⟩⟩
  show s.db.countEvents 4 < _
  rw [hcount]
  decide

/-- With a cap of one event, the repeat of that event is refused for the cap. -/
theorem repeat_refused_at_cap : ∃ s r₁ r t,
    run sampleUrlparse id { sandboxMaxEvents := 1 } provisioned sampleRepeated = some s ∧
      s.eventRequests.get 0 = some r₁ ∧ s.response 0 = some (.ok sampleStored) ∧
      s.eventRequests.get 1 = some r ∧ r.phase = .admitted ∧ r.Repeats r₁ ∧
      run sampleUrlparse id { sandboxMaxEvents := 1 } s [.checkEventQuota 1] = some t ∧
      t.response 1 = some (.error (.sandboxQuotaExceeded (PyText.ofString "events") 1)) := by
  have hrun : (run sampleUrlparse id { sandboxMaxEvents := 1 } provisioned sampleRepeated).map
      (fun s => (s.eventRequests.get 0, s.eventRequests.get 1, s.response 0,
        (run sampleUrlparse id { sandboxMaxEvents := 1 } s [.checkEventQuota 1]).map
          fun t => t.response 1)) =
      some (some ⟨0, sampleTenant, sampleEvent, .ingesting⟩,
        some ⟨1, sampleTenant, sampleEvent, .admitted⟩, some (.ok sampleStored),
        some (some (.error (.sandboxQuotaExceeded (PyText.ofString "events") 1)))) := by
    with_unfolding_all rfl
  obtain ⟨s, hs, heq⟩ := Option.map_eq_some_iff.mp hrun
  simp only [Prod.mk.injEq] at heq
  obtain ⟨hr₁, hr, h₁, hcheck⟩ := heq
  obtain ⟨t, ht, hrefused⟩ := Option.map_eq_some_iff.mp hcheck
  exact ⟨s, _, _, t, hs, hr₁, h₁, hr, rfl, ⟨rfl, rfl, rfl, rfl, rfl⟩, ht, hrefused⟩

end Sandbox
end RelayWebhooks
