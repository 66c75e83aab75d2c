import RelayWebhooks.Pipeline.Tenancy
import RelayWebhooks.Py.Codec
import RelayWebhooks.Py.JsonRoundTrip

/-! What a receiver reads in the body of a request: the payload of the delivery's event, whichever
worker makes the attempt and whatever has happened in between. -/
namespace RelayWebhooks
open LoadedJson

theorem utf8Decode_printable {t : PyText} (h : t.Printable) :
    utf8Decode (t.map fun c => UInt8.ofNat c) = some t := by
  unfold utf8Decode
  simp only [utf8DecodeReplace_printable h, utf8Encode_printable h, if_true]

/-- `json.loads` of the body. -/
def OutboundRequest.document (request : OutboundRequest) : Option LoadedJson :=
  (utf8Decode request.payload).bind loads

namespace DeliveryAttemptService

variable {env : AttemptEnv} {db : Db} {d : Delivery} {ev : Event} {e : Endpoint}
  {request : OutboundRequest}

theorem buildRequest_payload {hmac : Hmac} {now : ℤ}
    (h : buildRequest hmac now d ev e = .ok request) :
    request.payload = ev.payload.dumps.map fun c => UInt8.ofNat c := by
  rw [buildRequest, encodePayload_eq] at h
  cases h
  rfl

theorem document_buildRequest {hmac : Hmac} {now : ℤ} (hp : ev.payload.Proper)
    (h : buildRequest hmac now d ev e = .ok request) :
    request.document = some (ev.payload.loaded joinPairs) := by
  rw [OutboundRequest.document, buildRequest_payload h,
    utf8Decode_printable ev.payload.dumps_printable]
  exact loads_dumps hp

/-- The request that an attempt makes of the rows it has read, if the breaker lets it send. -/
def requestOf (env : AttemptEnv) (db : Db) (d : Delivery) (ev : Event) (e : Endpoint) :
    Except Raised (Option OutboundRequest) := do
  match deferral env.settings env.now e with
  | some _ => return none
  | none =>
    let (_, e) ← flipIfOpen db e
    return some (← buildRequest env.hmac env.now d ev e)

theorem requestOf_ok (h : requestOf env db d ev e = .ok (some request)) :
    ∃ db' e', deferral env.settings env.now e = none ∧ flipIfOpen db e = .ok (db', e') ∧
      buildRequest env.hmac env.now d ev e' = .ok request := by
  unfold requestOf at h
  split at h
  next => cases h
  next hdefer =>
    obtain ⟨⟨db', e'⟩, hflip, h⟩ := bind_ok h
    obtain ⟨request', hbuild, h⟩ := bind_ok h
    cases h
    exact ⟨db', e', hdefer, hflip, hbuild⟩

/-- Where the breaker lets the attempt send, there is a request. -/
theorem exists_requestOf (d : Delivery) (ev : Event) {db' : Db} {e' : Endpoint}
    (hdefer : deferral env.settings env.now e = none) (hflip : flipIfOpen db e = .ok (db', e')) :
    ∃ request, requestOf env db d ev e = .ok (some request) := by
  unfold requestOf
  rw [hdefer]
  simp only [hflip, bind, Except.bind, buildRequest, encodePayload_eq]
  exact ⟨_, rfl⟩

/-- The outcome depends on nothing else that the sender does. -/
theorem finishAttempt_congr {send send' : OutboundRequest → OutboundHttpResult}
    (h : requestOf env db d ev e = .ok (some request)) (hsend : send request = send' request) :
    finishAttempt env send db d ev e = finishAttempt env send' db d ev e := by
  obtain ⟨db', e', hdefer, hflip, hbuild⟩ := requestOf_ok h
  unfold finishAttempt
  rw [hdefer]
  simp only [hflip, bind, Except.bind, hbuild, hsend]

end DeliveryAttemptService

namespace Pipeline
open DeliveryAttemptService

variable {le : RetryMember → RetryMember → Bool} {s t : Pipeline} {as : List PipelineAction}

theorem keeps_run (h : Transition.run (step le) s as = some t) : Keeps s.db.events t.db.events := by
  induction as generalizing s with
  | nil =>
    obtain rfl := Option.some.inj h
    exact fun _ _ hev => hev
  | cons a as ih =>
    obtain ⟨u, hu, h⟩ := Transition.run_cons_eq_some.mp h
    exact fun id ev hev => ih h id ev (keeps_step hu id ev hev)

/-- In every run, whoever attempts a delivery, and however often: the body of the request that the
attempt makes is read back as the payload that was once stored for the event, with the strings'
split surrogate pairs joined, and exactly as that payload if no string has one. The sender is
asked for nothing else. -/
theorem body_carries_payload (le : RetryMember → RetryMember → Bool) (s u t : Pipeline)
    (as bs : List PipelineAction) (hs : Init s) (hu : Transition.run (step le) s as = some u)
    (ht : Transition.run (step le) u bs = some t) (i w : ℕ) (kind : WorkerKind) (d : Delivery)
    (ev ev' : Event) (e : Endpoint) (env : AttemptEnv) (request : OutboundRequest)
    (hi : t.handlers i = some ⟨w, kind, .attempting d ev' e⟩)
    (hrequest : requestOf env t.db d ev' e = .ok (some request))
    (hev : u.db.events.get d.eventId = some ev) (hp : ev.payload.Proper) :
    request.document = some (ev.payload.loaded joinPairs) ∧
    (request.document = some (ev.payload.loaded id) ↔ ev.payload.Unsplit) ∧
    ∀ send send', send request = send' request →
      t.commitAttempt i env send = t.commitAttempt i env send' := by
  have hS : HoldsStored u :=
    Transition.run_invariant (fun _ _ _ hS h => hS.step h) (holdsStored_init hs) hu
  have hS : HoldsStored t := Transition.run_invariant (fun _ _ _ hS h => hS.step h) hS ht
  obtain ⟨hev', -⟩ := hS d ev' e ⟨i, w, kind, hi⟩
  obtain rfl : ev = ev' := Option.some.inj ((keeps_run ht _ _ hev).symm.trans hev')
  obtain ⟨db', e', -, -, hbuild⟩ := requestOf_ok hrequest
  have hdocument := document_buildRequest hp hbuild
  refine ⟨hdocument, ?_, fun send send' hsend => ?_⟩
  · rw [hdocument, Option.some.injEq]
    exact loaded_joinPairs_iff ev.payload
  · simp only [Pipeline.commitAttempt, hi, finishAttempt_congr hrequest hsend]

/-- Strings with a quote and an emoji, a negative number, an array and an object. -/
def samplePayload : Json :=
  .obj [([0x6e], .int (-12)), ([0x74], .str [0x22, 0x1f600]), ([0x78], .arr [.null, .bool true])]

def payloadEvent : Event := { sampleEvent with payload := samplePayload }

def payloadPipeline : Pipeline :=
  { samplePipeline with db := { samplePipeline.db with events := .singleton payloadEvent } }

theorem body_carries_payload_sample :
    ∃ t d e request,
      Transition.run (step fun _ _ => true) payloadPipeline (sampleRun.take 8) = some t ∧
      t.handlers 0 = some ⟨1, .dispatcher, .attempting d payloadEvent e⟩ ∧
      requestOf sampleEnv t.db d payloadEvent e = .ok (some request) ∧
      request.document = some (samplePayload.loaded id) := by
  obtain ⟨t, d, e, ht, hi, hdefer, hflip⟩ : ∃ t d e,
      Transition.run (step fun _ _ => true) payloadPipeline (sampleRun.take 8) = some t ∧
      t.handlers 0 = some ⟨1, .dispatcher, .attempting d payloadEvent e⟩ ∧
      deferral sampleEnv.settings sampleEnv.now e = none ∧ flipIfOpen t.db e = .ok (t.db, e) :=
    ⟨_, _, _, rfl, rfl, rfl, rfl⟩
  have hinit : Init payloadPipeline := ⟨rfl, rfl, rfl, rfl, rfl⟩
  have hstored : HoldsStored t :=
    Transition.run_invariant (fun _ _ _ hS h => hS.step h) (holdsStored_init hinit) ht
  obtain ⟨hev, -⟩ := hstored d payloadEvent e ⟨0, 1, .dispatcher, hi⟩
  obtain ⟨request, hrequest⟩ := exists_requestOf d payloadEvent hdefer hflip
  have hproper : samplePayload.Proper := by
    simp [samplePayload, Json.Proper, Json.ProperMembers, Json.ProperItems]
  have hunsplit : samplePayload.Unsplit := by
    simp only [samplePayload, Json.Unsplit, Json.UnsplitMembers, Json.UnsplitItems]
    decide
  have hexact := (body_carries_payload (fun _ _ => true) payloadPipeline t t (sampleRun.take 8) []
    hinit ht rfl 0 1 .dispatcher d payloadEvent payloadEvent e sampleEnv request hi hrequest hev
    hproper).2.1.mpr hunsplit
  exact ⟨t, d, e, request, ht, hi, hrequest, hexact⟩

end Pipeline
end RelayWebhooks
