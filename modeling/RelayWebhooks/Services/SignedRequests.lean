import RelayWebhooks.Infra.SentRequests
import RelayWebhooks.Infra.Signing
import RelayWebhooks.Py.Datetime
import RelayWebhooks.Services.Attempt

/-! What the receiver of a request that leaves an attempt can verify. -/
namespace RelayWebhooks
open Signing (SigningError maxStrDigits)

/-- A header of a request. -/
def OutboundRequest.header (request : OutboundRequest) (name : PyText) : Option PyText :=
  (request.headers.find? fun h => h.1 = name).map Prod.snd

/-- A receiver that holds the secret and parses `X-Relay-Timestamp` as an integer. -/
def receiverVerifies (asciiOf : ℕ → ℕ) (hmac : Hmac) (secret : Secret) (toleranceSeconds now : ℤ)
    (request : OutboundRequest) : Option (Except SigningError Bool) := do
  let timestamp ← intOfText asciiOf 10 (← request.header (PyText.ofString "X-Relay-Timestamp"))
  let signature ← request.header (PyText.ofString "X-Relay-Signature")
  return Signing.verify hmac secret.text timestamp request.payload signature toleranceSeconds now

theorem header_sent {userAgent signature : PyText} {timestamp : ℤ} {deliveryId : UUID}
    {request : OutboundRequest}
    (h : request.headers =
      HttpSender.withUserAgent userAgent (requestHeaders signature timestamp deliveryId)) :
    request.header (PyText.ofString "X-Relay-Timestamp") = some (intText timestamp) ∧
      request.header (PyText.ofString "X-Relay-Signature") = some signature := by
  unfold OutboundRequest.header
  rw [h]
  exact ⟨rfl, rfl⟩

/-- The timestamp of a clock reading is printed by `str`. -/
theorem unixSeconds_short {now : ℤ} (h : datetimeMin ≤ now ∧ now ≤ datetimeMax) :
    (unixSeconds now).natAbs < 10 ^ maxStrDigits := by
  unfold datetimeMin datetimeMax at h
  have hshort : (unixSeconds now).natAbs < 10 ^ 13 := by
    have hquotient : (unixSeconds now).natAbs = now.natAbs / 1000000 := Int.natAbs_tdiv now 1000000
    omega
  exact hshort.trans_le (Nat.pow_le_pow_right (by omega) (by decide))

namespace DeliveryAttemptService

/-- The request an attempt hands to its sender, if it gets that far. -/
def outboundRequest (env : AttemptEnv) (db : Db) (id : UUID) :
    Except Raised (Option OutboundRequest) := do
  let (d, ev, e) ← loadRows db id
  match deferral env.settings env.now e with
  | some _ => return none
  | none =>
    let (_, e) ← flipIfOpen db e
    return some (← buildRequest env.hmac env.now d ev e)

variable {env : AttemptEnv} {db : Db} {id : UUID} {d : Delivery} {ev : Event} {e : Endpoint}

/-- An attempt asks its sender for nothing but the outcome of that request. -/
theorem attempt_congr {send send' : OutboundRequest → OutboundHttpResult}
    (h : ∀ request, outboundRequest env db id = .ok (some request) → send request = send' request) :
    attempt env send db id = attempt env send' db id := by
  unfold outboundRequest at h
  unfold attempt
  cases hrows : loadRows db id with
  | error err => rfl
  | ok rows =>
    obtain ⟨d, ev, e⟩ := rows
    rw [hrows] at h
    simp only [bind, Except.bind] at h ⊢
    cases hdefer : deferral env.settings env.now e with
    | some t => rfl
    | none =>
      rw [hdefer] at h
      dsimp only at h ⊢
      cases hflip : flipIfOpen db e with
      | error err => rfl
      | ok flipped =>
        rw [hflip] at h
        dsimp only at h ⊢
        cases hbuild : buildRequest env.hmac env.now d ev flipped.2 with
        | error err => rfl
        | ok request =>
          rw [hbuild] at h
          dsimp only
          rw [h request rfl]

theorem loadRows_endpoint (h : loadRows db id = .ok (d, ev, e)) :
    db.endpoints.get e.id = some e := by
  unfold loadRows at h
  split at h
  next => cases h
  next =>
    split at h
    next => cases h
    next =>
      split at h
      next => cases h
      next he =>
        cases h
        rw [← Endpoint.key_eq, Table.key_of_get he]
        exact he

/-- The request carries the signature of its payload under the secret of the endpoint. -/
theorem outboundRequest_eq {request : OutboundRequest} (hrows : loadRows db id = .ok (d, ev, e))
    (h : outboundRequest env db id = .ok (some request)) :
    request.headers =
      requestHeaders (sign env.hmac e.secret (unixSeconds env.now) request.payload)
        (unixSeconds env.now) d.id := by
  unfold outboundRequest at h
  rw [hrows] at h
  obtain ⟨⟨d', ev', e'⟩, heq, h⟩ := bind_ok h
  cases heq
  dsimp only at h
  split at h
  next => cases h
  next =>
    obtain ⟨flipped, hflip, h⟩ := bind_ok h
    obtain ⟨request', hbuild, h⟩ := bind_ok h
    cases h
    obtain ⟨e', hflip', -, hurl, hsecret⟩ := flipIfOpen_ok (loadRows_endpoint hrows)
    rw [hflip'] at hflip
    cases hflip
    rw [buildRequest_congr _ _ _ _ hurl hsecret, buildRequest, encodePayload_eq] at hbuild
    cases hbuild
    rfl

end DeliveryAttemptService

/-- The receiver of a request accepts it exactly within the tolerance of its timestamp, and its
signature serves for no other timestamp or body: `verify` is false there, or it raises on a
timestamp within the tolerance that `str` does not print. -/
structure VerifiesAlone (asciiOf : ℕ → ℕ) (hmac : Hmac) (secret : Secret) (timestamp : ℤ)
    (request : OutboundRequest) : Prop where
  parsed : (request.header (PyText.ofString "X-Relay-Timestamp")).bind (intOfText asciiOf 10) =
    some timestamp
  verifies : ∀ toleranceSeconds now,
    receiverVerifies asciiOf hmac secret toleranceSeconds now request =
      some (.ok (decide (|now - timestamp| ≤ toleranceSeconds)))
  nothingElse : ∃ signature, request.header (PyText.ofString "X-Relay-Signature") = some signature ∧
    ∀ timestamp' body', (timestamp', body') ≠ (timestamp, request.payload) →
      ∀ toleranceSeconds now,
        Signing.verify hmac secret.text timestamp' body' signature toleranceSeconds now =
          if |now - timestamp'| ≤ toleranceSeconds ∧ 10 ^ maxStrDigits ≤ timestamp'.natAbs then
            .error .valueError
          else .ok false

/-- An attempt hands its sender one request, the sender sends it on the connections listed (those
its hops report, when it returns), and each request that is sent, on the first hop and on every
redirect, has the payload that was signed. The keyed hash may have no second message with the digest
of the signed one. -/
theorem sent_requests_verify (asciiOf : ℕ → ℕ) (env : AttemptEnv) (db : Db) (id : UUID)
    (d : Delivery) (ev : Event) (e : Endpoint)
    (hrows : DeliveryAttemptService.loadRows db id = .ok (d, ev, e)) (request : OutboundRequest)
    (hrequest : DeliveryAttemptService.outboundRequest env db id = .ok (some request))
    (hnow : datetimeMin ≤ env.now ∧ env.now ≤ datetimeMax)
    (hinj : ∀ message, env.hmac (signingKey e.secret) message =
      env.hmac (signingKey e.secret) (signedMessage (unixSeconds env.now) request.payload) →
        message = signedMessage (unixSeconds env.now) request.payload)
    (py : PyNet) (cfg : SenderConfig) (w : SendWorld) :
    (∀ send send', send request = send' request →
      DeliveryAttemptService.attempt env send db id =
        DeliveryAttemptService.attempt env send' db id) ∧
    (∀ i c, HttpSender.Posts py cfg w request i c ↔
      (i, c) ∈ HttpSender.sent py cfg w request) ∧
    (∀ result hops, HttpSender.send py cfg w request = .ok (result, hops) → ∀ i c,
      HttpSender.Posts py cfg w request i c ↔
        ∃ hop, hops[i]? = some hop ∧ hop.connection = some c) ∧
    ∀ i c, HttpSender.Posts py cfg w request i c →
      c.request.payload = request.payload ∧
        VerifiesAlone asciiOf env.hmac e.secret (unixSeconds env.now) c.request := by
  refine ⟨fun send send' hsend => DeliveryAttemptService.attempt_congr fun request' h => ?_,
    fun i c => HttpSender.posts_iff, fun result hops h i c => HttpSender.posts_iff_of_ok h,
    fun i c hc => ?_⟩
  · cases hrequest.symm.trans h
    exact hsend
  · obtain ⟨hpayload, hheaders⟩ := HttpSender.sentFrom_request (HttpSender.posts_iff.mp hc)
    rw [DeliveryAttemptService.outboundRequest_eq hrows hrequest] at hheaders
    obtain ⟨htimestamp, hsignature⟩ := header_sent hheaders
    dsimp only at hpayload
    have hshort := unixSeconds_short hnow
    refine ⟨hpayload, ⟨?_, fun toleranceSeconds now => ?_, _, hsignature, ?_⟩⟩
    · rw [htimestamp, Option.bind_some, intOfText_intText]
    · unfold receiverVerifies
      simp only [htimestamp, hsignature, intOfText_intText, Option.bind_eq_bind, Option.bind_some]
      rw [hpayload, Signing.verify_sign e.secret hshort]
      rfl
    · rw [hpayload]
      exact fun timestamp' body' hne toleranceSeconds now =>
        Signing.verify_other hshort hinj hne toleranceSeconds now

def redirectedPayload : Bytes := (PyText.ofString "\x7b\x7d").map fun c => UInt8.ofNat c

/-- The keyed hash with the digest of the signed message under the key `s`. -/
def redirectedHmac : Hmac := fun _ message =>
  if message = signedMessage 1 redirectedPayload then
    0xb253639bcd705ed1cda3073f66104f16988bd40272584dea7d0d345ae93e61cc
  else 0

def redirectedEnv : AttemptEnv := { DeliveryAttemptService.sampleEnv with hmac := redirectedHmac }

def redirectedDb : Db :=
  .single DeliveryAttemptService.sampleEvent
    { DeliveryAttemptService.sampleEndpoint with url := HttpSender.sampleUrl }
    DeliveryAttemptService.sampleDelivery

def redirectedConfig : SenderConfig := ⟨{443}, PyText.ofString "relay"⟩

def redirectedWorld : SendWorld where
  resolver _ _ := .addresses [PyText.ofString "93.184.216.34"]
  post i _ :=
    .response (if i = 0 then { statusCode := 302, location := some (PyText.ofString "/b") }
      else { statusCode := 200 })
  elapsedMs _ := 5

/-- The second hop sends the request that the first answer redirects. -/
theorem exists_redirected : ∃ request c,
    DeliveryAttemptService.outboundRequest redirectedEnv redirectedDb 3 = .ok (some request) ∧
      request.payload = redirectedPayload ∧
      HttpSender.Posts HttpSender.samplePy redirectedConfig redirectedWorld request 1 c := by
  obtain ⟨request, hrequest, hpayload⟩ : ∃ request,
      DeliveryAttemptService.outboundRequest redirectedEnv redirectedDb 3 = .ok (some request) ∧
        request.payload = redirectedPayload := ⟨_, rfl, rfl⟩
  have hsent : (DeliveryAttemptService.outboundRequest redirectedEnv redirectedDb 3).toOption.map
      (fun r => r.map fun request => (HttpSender.sent HttpSender.samplePy redirectedConfig
        redirectedWorld request).map Prod.fst) = some (some [0, 1]) := by
    decide +kernel
  rw [hrequest] at hsent
  have hhops : (HttpSender.sent HttpSender.samplePy redirectedConfig redirectedWorld request).map
      Prod.fst = [0, 1] := Option.some.inj (Option.some.inj hsent)
  obtain ⟨⟨i, c⟩, hc, rfl⟩ : ∃ x ∈ HttpSender.sent HttpSender.samplePy redirectedConfig
      redirectedWorld request, x.1 = 1 := by
    rw [← List.mem_map, hhops]
    decide
  exact ⟨request, c, hrequest, hpayload, HttpSender.posts_iff.mpr hc⟩

/-- The request of the second hop. -/
theorem sent_requests_verify_redirected :
    ∃ request c, DeliveryAttemptService.outboundRequest redirectedEnv redirectedDb 3 =
        .ok (some request) ∧
      HttpSender.Posts HttpSender.samplePy redirectedConfig redirectedWorld request 1 c ∧
      VerifiesAlone (fun _ => 0x3f) redirectedHmac DeliveryAttemptService.sampleEndpoint.secret 1
        c.request := by
  have hinj : ∀ message, redirectedHmac (signingKey DeliveryAttemptService.sampleEndpoint.secret)
      message = redirectedHmac (signingKey DeliveryAttemptService.sampleEndpoint.secret)
        (signedMessage 1 redirectedPayload) → message = signedMessage 1 redirectedPayload := by
    intro message h
    by_contra hne
    simp [redirectedHmac, hne] at h
  obtain ⟨request, c, hrequest, hpayload, hc⟩ := exists_redirected
  refine ⟨request, c, hrequest, hc, ?_⟩
  obtain ⟨-, -, -, h⟩ := sent_requests_verify (fun _ => 0x3f) redirectedEnv redirectedDb 3 _ _ _ rfl
    request hrequest (by decide) (hpayload ▸ hinj) HttpSender.samplePy redirectedConfig
    redirectedWorld
  exact (h 1 c hc).2

/-- A timestamp of 4301 digits, at that time: the signature of the request is not found to be bad,
`verify` raises. -/
theorem verify_raises_on_long_timestamp :
    ∃ request c signature,
      DeliveryAttemptService.outboundRequest redirectedEnv redirectedDb 3 = .ok (some request) ∧
      HttpSender.Posts HttpSender.samplePy redirectedConfig redirectedWorld request 1 c ∧
      c.request.header (PyText.ofString "X-Relay-Signature") = some signature ∧
      ∃ timestamp', timestamp' ≠ 1 ∧
        Signing.verify redirectedHmac DeliveryAttemptService.sampleEndpoint.secret.text timestamp'
          c.request.payload signature 300 timestamp' = .error .valueError := by
  obtain ⟨request, c, hrequest, -, hc⟩ := exists_redirected
  obtain ⟨-, hheaders⟩ := HttpSender.sentFrom_request (HttpSender.posts_iff.mp hc)
  rw [DeliveryAttemptService.outboundRequest_eq rfl hrequest] at hheaders
  refine ⟨request, c, _, hrequest, hc, (header_sent hheaders).2, ((10 ^ maxStrDigits : ℕ) : ℤ),
    ?_, ?_⟩
  · have hlarge : 1 < 10 ^ maxStrDigits := Nat.one_lt_pow (by decide) (by omega)
    exact_mod_cast hlarge.ne'
  · have hnow : |((10 ^ maxStrDigits : ℕ) : ℤ) - ((10 ^ maxStrDigits : ℕ) : ℤ)| ≤ 300 := by
      rw [sub_self, abs_zero]
      decide
    refine Signing.verify_unsigned hnow (Signing.sign_long _ ?_)
    rw [Int.natAbs_natCast]

end RelayWebhooks
