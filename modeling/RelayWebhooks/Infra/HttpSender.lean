import RelayWebhooks.Infra.Http
import RelayWebhooks.Infra.SsrfGuard

/-! The outbound sender: every hop of a request is checked by the guard and sent to the address
the guard has validated. Resolver and destination may answer anything on every hop. -/
namespace RelayWebhooks

/-- A response; `text` is `none` when reading it raises: the client decodes the body only then,
under the character set that the destination has named. -/
structure HttpResponse where
  statusCode : ℤ
  location : Option PyText := none
  text : Option PyText := some []

/-- A 2xx response. -/
def HttpResponse.Success (r : HttpResponse) : Prop := 200 ≤ r.statusCode ∧ r.statusCode < 300

/-- How one `client.post` ends; `raised` stands for any exception that is not an
`httpx.HTTPError`. -/
inductive PostOutcome where
  | response (r : HttpResponse)
  | timeout
  | httpError
  | raised

/-- The request of a hop, and where its socket connects to. -/
structure Connection where
  request : OutboundRequest
  host : PyText
  port : ℕ
  /-- The name of the server in the TLS handshake. -/
  sniHostname : PyText
  deriving DecidableEq

/-- The outside world during one `send`, hop by hop. -/
structure SendWorld where
  resolver : ℕ → PyText → Lookup
  post : ℕ → Connection → PostOutcome
  elapsedMs : ℕ → ℤ

structure SenderConfig where
  allowedPorts : Finset ℕ
  userAgent : PyText

/-- One pass through the loop: the check, the names that were looked up, the connection the client
opened and the response it received. -/
structure Hop where
  url : PyText
  check : SsrfCheckResult
  lookups : List PyText
  connection : Option Connection := none
  response : Option HttpResponse := none

namespace HttpSender
open SsrfGuard

def responseSnippetMaxLen : ℕ := 2048

def maxRedirectHops : ℕ := 3

/-- Sets one key of a header dictionary, in its place if the key is there. -/
def setHeader (headers : List (PyText × PyText)) (h : PyText × PyText) :
    List (PyText × PyText) :=
  if headers.any fun x => x.1 = h.1 then headers.map fun x => if x.1 = h.1 then h else x
  else headers ++ [h]

/-- The caller's headers over the fixed `User-Agent`. -/
def withUserAgent (userAgent : PyText) (headers : List (PyText × PyText)) :
    List (PyText × PyText) :=
  headers.foldl setHeader [(PyText.ofString "User-Agent", userAgent)]

/-- The pinned transport keeps the URL and its port and connects to the pinned address. -/
def pinnedConnection (py : PyNet) (pinnedIp originalHost : PyText) (request : OutboundRequest) :
    Except SendRaised Connection :=
  match py.urlsplit request.url with
  | none => .error .client
  | some parsed =>
    match parsed.port with
    | none => .error .client
    | some p =>
      .ok { request, host := pinnedIp, port := effectivePort parsed p,
            sniHostname := originalHost }

/-- The `Location` a response redirects to; an empty one counts as none. -/
def redirectTarget (r : HttpResponse) : Option PyText :=
  if 300 ≤ r.statusCode ∧ r.statusCode < 400 then r.location.filter (· ≠ []) else none

/-- The result for a response that is not followed. -/
def finalResult (latencyMs statusCode : ℤ) (text : PyText) : OutboundHttpResult :=
  let snippet := text.take responseSnippetMaxLen
  if 200 ≤ statusCode ∧ statusCode < 300 then
    { latencyMs, statusCode, responseSnippet := snippet }
  else
    { latencyMs, statusCode, errorClass := some .httpError, responseSnippet := snippet }

/-- How one pass through the loop ends. -/
inductive Pass where
  | done (result : OutboundHttpResult)
  | follow (url : PyText)

/-- What a response makes of the pass. -/
def afterResponse (py : PyNet) (latencyMs : ℤ) (i : ℕ) (url : PyText) (r : HttpResponse) :
    Except SendRaised Pass :=
  match redirectTarget r with
  | none =>
    match r.text with
    | none => .error .decoding
    | some text => .ok (.done (finalResult latencyMs r.statusCode text))
  | some location =>
    if i = maxRedirectHops then
      .ok (.done
        { latencyMs, statusCode := r.statusCode, errorClass := some .httpError,
          responseSnippet := some
            (PyText.ofString "redirect budget exceeded at " ++ py.repr location) })
    else
      match py.urljoin url location with
      | none => .error .valueError
      | some url => .ok (.follow url)

/-- The pass for hop `i`. -/
def sendHop (py : PyNet) (cfg : SenderConfig) (w : SendWorld) (i : ℕ)
    (request : OutboundRequest) : Except SendRaised (Hop × Pass) := do
  let (check, lookups) ← checkUrl py cfg.allowedPorts (w.resolver i) request.url
  let hop : Hop := { url := request.url, check, lookups }
  if check.allowed = false then
    return (hop, .done { latencyMs := w.elapsedMs i, errorClass := some .ssrfBlocked,
                         responseSnippet := check.reason })
  else
    match check.hostname, check.resolvedIp with
    | some hostname, some resolvedIp =>
      let connection ← pinnedConnection py resolvedIp hostname request
      let hop : Hop := { hop with connection }
      match w.post i connection with
      | .raised => .error .client
      | .timeout =>
        return (hop, .done { latencyMs := w.elapsedMs i, errorClass := some .timeout })
      | .httpError =>
        return (hop, .done { latencyMs := w.elapsedMs i, errorClass := some .connectionError })
      | .response r =>
        let pass ← afterResponse py (w.elapsedMs i) i request.url r
        return ({ hop with response := r }, pass)
    | _, _ => .error .assertion

/-- The loop over the hops that are left. -/
def sendFrom (py : PyNet) (cfg : SenderConfig) (w : SendWorld) :
    List ℕ → OutboundRequest → Except SendRaised (OutboundHttpResult × List Hop)
  | [], _ => .error .assertion
  | i :: is, request => do
    match ← sendHop py cfg w i request with
    | (hop, .done result) => return (result, [hop])
    | (hop, .follow url) =>
      let (result, hops) ← sendFrom py cfg w is { request with url }
      return (result, hop :: hops)

def send (py : PyNet) (cfg : SenderConfig) (w : SendWorld) (request : OutboundRequest) :
    Except SendRaised (OutboundHttpResult × List Hop) :=
  sendFrom py cfg w (List.range (maxRedirectHops + 1))
    { request with headers := withUserAgent cfg.userAgent request.headers }

variable {py : PyNet} {cfg : SenderConfig} {w : SendWorld} {i : ℕ} {is : List ℕ}
  {request : OutboundRequest} {result : OutboundHttpResult} {hop : Hop} {hops : List Hop}
  {pass : Pass}

/-- The connection of a pass goes to the address that the check of its URL has validated. -/
structure Pinned (py : PyNet) (cfg : SenderConfig) (resolver : PyText → Lookup) (hop : Hop)
    (c : Connection) : Prop where
  guarded : SsrfGuard.Allowed py cfg.allowedPorts resolver hop.url hop.check
  url : c.request.url = hop.url
  host : hop.check.resolvedIp = some c.host
  port : hop.check.port = some c.port ∧ c.port ∈ cfg.allowedPorts

/-- What every pass leaves behind. -/
structure HopOk (py : PyNet) (cfg : SenderConfig) (resolver : PyText → Lookup) (hop : Hop) :
    Prop where
  checked : checkUrl py cfg.allowedPorts resolver hop.url = .ok (hop.check, hop.lookups)
  denied : hop.check.allowed = false → hop.connection = none ∧ hop.response = none
  pinned : hop.check.allowed = true →
    ∃ c, hop.connection = some c ∧ Pinned py cfg resolver hop c

/-- The result of the pass that ends the loop. -/
structure DoneOk (hop : Hop) (result : OutboundHttpResult) : Prop where
  blocked : hop.check.allowed = false → result.errorClass = some .ssrfBlocked
  success : result.errorClass = none ↔ ∃ r, hop.response = some r ∧ r.Success
  succeeded : result.succeeded = true ↔ result.errorClass = none

/-- The pass that a redirect follows. -/
structure FollowOk (hop : Hop) : Prop where
  allowed : hop.check.allowed = true
  response : ∃ r, hop.response = some r ∧ ¬r.Success

theorem succeeded_of_error {e : AttemptErrorClass} (h : result.errorClass = some e) :
    result.succeeded = true ↔ result.errorClass = none := by
  simp [OutboundHttpResult.succeeded, h]

theorem finalResult_success (latencyMs : ℤ) (r : HttpResponse) (text : PyText) :
    ((finalResult latencyMs r.statusCode text).errorClass = none ↔ r.Success) ∧
      ((finalResult latencyMs r.statusCode text).succeeded = true ↔
        (finalResult latencyMs r.statusCode text).errorClass = none) := by
  unfold finalResult
  dsimp only
  split
  next h => exact ⟨by simpa [HttpResponse.Success] using h, by
    simpa [OutboundHttpResult.succeeded] using h⟩
  next h => exact ⟨by simpa [HttpResponse.Success] using h, succeeded_of_error rfl⟩

theorem redirectTarget_not_success {r : HttpResponse} {location : PyText}
    (h : redirectTarget r = some location) : ¬r.Success := by
  unfold redirectTarget at h
  split at h
  next hs =>
    rintro ⟨-, hlt⟩
    omega
  next => cases h

/-- A response ends the loop with a result that tells its status, or is a redirect. -/
theorem afterResponse_ok {latencyMs : ℤ} {url : PyText} {r : HttpResponse}
    (h : afterResponse py latencyMs i url r = .ok pass) :
    (∃ result, pass = .done result ∧ (result.errorClass = none ↔ r.Success) ∧
        (result.succeeded = true ↔ result.errorClass = none)) ∨
      ∃ url, pass = .follow url ∧ ¬r.Success ∧ i ≠ maxRedirectHops := by
  unfold afterResponse at h
  split at h
  next =>
    split at h
    next => cases h
    next text _ =>
      cases h
      exact .inl ⟨_, rfl, finalResult_success latencyMs r text⟩
  next location htarget =>
    have hno := redirectTarget_not_success htarget
    split at h
    next =>
      cases h
      exact .inl ⟨_, rfl, by simpa using hno, succeeded_of_error rfl⟩
    next hi =>
      split at h
      next => cases h
      next url _ =>
        cases h
        exact .inr ⟨url, rfl, hno, hi⟩

theorem pinnedConnection_ok {check : SsrfCheckResult} {lookups : List PyText}
    {hostname resolvedIp : PyText} {c : Connection}
    (hcheck : checkUrl py cfg.allowedPorts (w.resolver i) request.url = .ok (check, lookups))
    (hallow : check.allowed = true) (hip : check.resolvedIp = some resolvedIp)
    (h : pinnedConnection py resolvedIp hostname request = .ok c) :
    Pinned py cfg (w.resolver i) { url := request.url, check, lookups } c := by
  have hguard := checkUrl_allowed hcheck hallow
  obtain ⟨parsed, p, hparsed, hp, hport, hmem⟩ := hguard.port
  unfold pinnedConnection at h
  rw [hparsed] at h
  dsimp only at h
  rw [hp] at h
  cases h
  exact ⟨hguard, rfl, hip, hport, hmem⟩

/-- The ways a pass ends without an exception. -/
inductive Passes (py : PyNet) (cfg : SenderConfig) (w : SendWorld) (i : ℕ)
    (request : OutboundRequest) : Hop → Pass → Prop
  | denied {check : SsrfCheckResult} {lookups : List PyText}
    (hcheck : checkUrl py cfg.allowedPorts (w.resolver i) request.url = .ok (check, lookups))
    (hdeny : check.allowed = false) :
    Passes py cfg w i request { url := request.url, check, lookups }
      (.done { latencyMs := w.elapsedMs i, errorClass := some .ssrfBlocked,
               responseSnippet := check.reason })
  | failed {check : SsrfCheckResult} {lookups : List PyText} {hostname resolvedIp : PyText}
    {c : Connection} {e : AttemptErrorClass}
    (hcheck : checkUrl py cfg.allowedPorts (w.resolver i) request.url = .ok (check, lookups))
    (hallow : check.allowed = true) (hhost : check.hostname = some hostname)
    (hip : check.resolvedIp = some resolvedIp)
    (hc : pinnedConnection py resolvedIp hostname request = .ok c)
    (hpost : w.post i c = .timeout ∧ e = .timeout ∨
      w.post i c = .httpError ∧ e = .connectionError) :
    Passes py cfg w i request { url := request.url, check, lookups, connection := c }
      (.done { latencyMs := w.elapsedMs i, errorClass := some e })
  | answered {check : SsrfCheckResult} {lookups : List PyText} {hostname resolvedIp : PyText}
    {c : Connection} {r : HttpResponse} {pass : Pass}
    (hcheck : checkUrl py cfg.allowedPorts (w.resolver i) request.url = .ok (check, lookups))
    (hallow : check.allowed = true) (hhost : check.hostname = some hostname)
    (hip : check.resolvedIp = some resolvedIp)
    (hc : pinnedConnection py resolvedIp hostname request = .ok c)
    (hpost : w.post i c = .response r)
    (hpass : afterResponse py (w.elapsedMs i) i request.url r = .ok pass) :
    Passes py cfg w i request { url := request.url, check, lookups, connection := c, response := r }
      pass

theorem passes_of_sendHop (h : sendHop py cfg w i request = .ok (hop, pass)) :
    Passes py cfg w i request hop pass := by
  unfold sendHop at h
  obtain ⟨⟨check, lookups⟩, hcheck, h⟩ := bind_ok h
  dsimp only at h
  split at h
  next hdeny =>
    cases h
    exact .denied hcheck hdeny
  next hallow =>
    have hallow : check.allowed = true := by simpa using hallow
    split at h
    next hostname resolvedIp hhost hip =>
      obtain ⟨c, hc, h⟩ := bind_ok h
      split at h
      next => cases h
      next hpost =>
        cases h
        exact .failed hcheck hallow hhost hip hc (.inl ⟨hpost, rfl⟩)
      next hpost =>
        cases h
        exact .failed hcheck hallow hhost hip hc (.inr ⟨hpost, rfl⟩)
      next r hpost =>
        obtain ⟨pass', hpass, h⟩ := bind_ok h
        cases h
        exact .answered hcheck hallow hhost hip hc hpost hpass
    next => cases h

theorem sendHop_of_passes (h : Passes py cfg w i request hop pass) :
    sendHop py cfg w i request = .ok (hop, pass) := by
  unfold sendHop
  cases h with
  | denied hcheck hdeny =>
    rw [hcheck]
    simp only [bind, Except.bind, hdeny, if_true]
    rfl
  | failed hcheck hallow hhost hip hc hpost =>
    rw [hcheck]
    simp only [bind, Except.bind, hallow, Bool.true_eq_false, if_false, hhost, hip, hc]
    rcases hpost with ⟨hpost, rfl⟩ | ⟨hpost, rfl⟩ <;> rw [hpost] <;> rfl
  | answered hcheck hallow hhost hip hc hpost hpass =>
    rw [hcheck]
    simp only [bind, Except.bind, hallow, Bool.true_eq_false, if_false, hhost, hip, hc, hpost,
      hpass]
    rfl

theorem sendHop_ok (h : sendHop py cfg w i request = .ok (hop, pass)) :
    HopOk py cfg (w.resolver i) hop ∧
      ((∃ result, pass = .done result ∧ DoneOk hop result) ∨
        ∃ url, pass = .follow url ∧ FollowOk hop) := by
  have hpinned {check : SsrfCheckResult} {lookups : List PyText} {hostname resolvedIp : PyText}
      {c : Connection}
      (hcheck : checkUrl py cfg.allowedPorts (w.resolver i) request.url = .ok (check, lookups))
      (hallow : check.allowed = true) (hip : check.resolvedIp = some resolvedIp)
      (hc : pinnedConnection py resolvedIp hostname request = .ok c)
      (response : Option HttpResponse) : HopOk py cfg (w.resolver i)
        { url := request.url, check, lookups, connection := c, response } := by
    have hpin := pinnedConnection_ok hcheck hallow hip hc
    exact ⟨hcheck, fun hdeny => by simp [hallow] at hdeny,
      fun _ => ⟨c, rfl, hpin.guarded, hpin.url, hpin.host, hpin.port⟩⟩
  cases passes_of_sendHop h with
  | denied hcheck hdeny =>
    refine ⟨⟨hcheck, fun _ => ⟨rfl, rfl⟩, fun hallow => by simp [hdeny] at hallow⟩,
      .inl ⟨_, rfl, ?_⟩⟩
    exact ⟨fun _ => rfl, by simp, succeeded_of_error rfl⟩
  | failed hcheck hallow hhost hip hc hpost =>
    refine ⟨hpinned hcheck hallow hip hc none, .inl ⟨_, rfl, ?_⟩⟩
    exact ⟨fun hdeny => by simp [hallow] at hdeny, by simp, succeeded_of_error rfl⟩
  | @answered _ _ _ _ _ r _ hcheck hallow hhost hip hc hpost hpass =>
    refine ⟨hpinned hcheck hallow hip hc (some r), ?_⟩
    rcases afterResponse_ok hpass with ⟨result, rfl, hs, hsucc⟩ | ⟨url, rfl, hns, -⟩
    · exact .inl ⟨result, rfl, fun hdeny => by simp [hallow] at hdeny, by simpa using hs, hsucc⟩
    · exact .inr ⟨url, rfl, hallow, r, rfl, hns⟩

/-- Two worlds answer alike what one pass asks: the names it looked up, the request it sent and
the clock. -/
structure SameAnswers (w w' : SendWorld) (i : ℕ) (hop : Hop) : Prop where
  lookups : ∀ hostname ∈ hop.lookups, w'.resolver i hostname = w.resolver i hostname
  post : ∀ c, hop.connection = some c → w'.post i c = w.post i c
  elapsedMs : w'.elapsedMs i = w.elapsedMs i

theorem sendHop_congr {w' : SendWorld} (h : sendHop py cfg w i request = .ok (hop, pass))
    (hsame : SameAnswers w w' i hop) : sendHop py cfg w' i request = .ok (hop, pass) := by
  obtain ⟨hlookups, hpost', helapsed⟩ := hsame
  apply sendHop_of_passes
  cases passes_of_sendHop h with
  | denied hcheck hdeny =>
    rw [← helapsed]
    exact .denied (checkUrl_congr hcheck hlookups) hdeny
  | failed hcheck hallow hhost hip hc hpost =>
    rw [← helapsed]
    exact .failed (checkUrl_congr hcheck hlookups) hallow hhost hip hc
      (by rwa [hpost' _ rfl])
  | answered hcheck hallow hhost hip hc hpost hpass =>
    exact .answered (checkUrl_congr hcheck hlookups) hallow hhost hip hc
      (by rwa [hpost' _ rfl]) (by rwa [helapsed])

theorem sendFrom_congr {w' : SendWorld} (h : sendFrom py cfg w is request = .ok (result, hops))
    (hsame : ∀ (k i : ℕ) (hop : Hop), is[k]? = some i → hops[k]? = some hop →
      SameAnswers w w' i hop) :
    sendFrom py cfg w' is request = .ok (result, hops) := by
  induction is generalizing request hops with
  | nil => cases h
  | cons i is ih =>
    unfold sendFrom at h ⊢
    simp only [bind, Except.bind] at h ⊢
    split at h
    next => cases h
    next out hhop =>
      obtain ⟨hop, pass⟩ := out
      cases pass with
      | done result' =>
        cases h
        rw [sendHop_congr hhop (hsame 0 i hop rfl rfl)]
        rfl
      | follow url =>
        dsimp only at h
        split at h
        next => cases h
        next out hrest =>
          obtain ⟨result', hops'⟩ := out
          cases h
          rw [sendHop_congr hhop (hsame 0 i hop rfl rfl)]
          dsimp only
          rw [ih hrest fun k j x hj hx => hsame (k + 1) j x hj hx]
          rfl

/-- Every pass but the last one was redirected, and the last one made the result. -/
structure RunOk (py : PyNet) (cfg : SenderConfig) (w : SendWorld) (is : List ℕ)
    (result : OutboundHttpResult) (hops : List Hop) : Prop where
  length : hops.length ≤ is.length
  passes : ∀ (k i : ℕ) (hop : Hop), is[k]? = some i → hops[k]? = some hop →
    HopOk py cfg (w.resolver i) hop
  ends : ∃ init last, hops = init ++ [last] ∧ (∀ hop ∈ init, FollowOk hop) ∧ DoneOk last result

theorem sendFrom_ok (h : sendFrom py cfg w is request = .ok (result, hops)) :
    RunOk py cfg w is result hops := by
  induction is generalizing request hops with
  | nil => cases h
  | cons i is ih =>
    unfold sendFrom at h
    simp only [bind, Except.bind] at h
    split at h
    next => cases h
    next out hhop =>
      obtain ⟨hop, pass⟩ := out
      obtain ⟨hok, hpass⟩ := sendHop_ok hhop
      rcases hpass with ⟨result', rfl, hdone⟩ | ⟨url, rfl, hfollow⟩
      · cases h
        refine ⟨by simp, fun k j x hj hx => ?_, [], hop, rfl, by simp, hdone⟩
        cases k with
        | zero => cases hj; cases hx; exact hok
        | succ k => cases hx
      · dsimp only at h
        split at h
        next => cases h
        next out hrest =>
          obtain ⟨result', hops'⟩ := out
          cases h
          have hrun := ih hrest
          obtain ⟨init, last, rfl, hinit, hlast⟩ := hrun.ends
          refine ⟨by simpa using hrun.length, fun k j x hj hx => ?_,
            hop :: init, last, rfl, ?_, hlast⟩
          · cases k with
            | zero => cases hj; cases hx; exact hok
            | succ k => exact hrun.passes k j x hj hx
          · intro x hx
            rcases List.mem_cons.mp hx with rfl | hx
            · exact hfollow
            · exact hinit x hx

/-- Collecting a field that the first entries all have keeps their positions. -/
theorem getElem?_filterMap {α β : Type*} {f : α → Option β} {l : List α} {k : ℕ}
    (h : ∀ j ≤ k, ∀ x, l[j]? = some x → (f x).isSome) :
    (l.filterMap f)[k]? = l[k]?.bind f := by
  induction l generalizing k with
  | nil => rfl
  | cons x l ih =>
    obtain ⟨y, hy⟩ := Option.isSome_iff_exists.mp (h 0 (Nat.zero_le k) x rfl)
    rw [List.filterMap_cons_some hy]
    cases k with
    | zero => simp [hy]
    | succ k =>
      rw [List.getElem?_cons_succ, List.getElem?_cons_succ]
      exact ih fun j hj x' hx' => h (j + 1) (by omega) x' hx'

theorem length_filterMap {α β : Type*} {f : α → Option β} {l : List α}
    (h : ∀ x ∈ l, (f x).isSome) : (l.filterMap f).length = l.length := by
  induction l with
  | nil => rfl
  | cons x l ih =>
    obtain ⟨y, hy⟩ := Option.isSome_iff_exists.mp (h x List.mem_cons_self)
    rw [List.filterMap_cons_some hy, List.length_cons, List.length_cons,
      ih fun x hx => h x (List.mem_cons_of_mem _ hx)]

section Run

variable (h : RunOk py cfg w (List.range (maxRedirectHops + 1)) result hops)
include h

theorem RunOk.hopOk {i : ℕ} (hi : hops[i]? = some hop) : HopOk py cfg (w.resolver i) hop := by
  have hlt : i < hops.length := (List.getElem?_eq_some_iff.mp hi).1
  have hlen : hops.length ≤ maxRedirectHops + 1 := by simpa using h.length
  exact h.passes i i hop (List.getElem?_range (by omega)) hi

/-- A denied check belongs to the last pass. -/
theorem RunOk.last_of_denied {i : ℕ} (hi : hops[i]? = some hop)
    (hdeny : hop.check.allowed = false) :
    ∃ init, hops = init ++ [hop] ∧ i = init.length ∧ (∀ x ∈ init, FollowOk x) ∧
      DoneOk hop result := by
  obtain ⟨init, last, rfl, hinit, hlast⟩ := h.ends
  have hlt := (List.getElem?_eq_some_iff.mp hi).1
  rcases Nat.lt_or_ge i init.length with hin | hge
  · rw [List.getElem?_append_left hin] at hi
    have hfollow := hinit hop (List.mem_of_getElem? hi)
    rw [hfollow.allowed] at hdeny
    cases hdeny
  · have hi' : i = init.length := by
      rw [List.length_append, List.length_singleton] at hlt
      omega
    subst hi'
    rw [List.getElem?_concat_length] at hi
    cases hi
    exact ⟨init, rfl, rfl, hinit, hlast⟩

/-- Every pass before an allowed one, and that one too, has its connection. -/
theorem RunOk.connection {i : ℕ} (hi : hops[i]? = some hop) (hallow : hop.check.allowed = true) :
    ∃ c, (hops.filterMap (·.connection))[i]? = some c ∧ Pinned py cfg (w.resolver i) hop c := by
  obtain ⟨c, hc, hpin⟩ := (h.hopOk hi).pinned hallow
  refine ⟨c, ?_, hpin⟩
  rw [getElem?_filterMap, hi]
  · exact hc
  · intro j hj x hx
    have hx' : x.check.allowed = true := by
      by_contra hdeny
      obtain ⟨init, rfl, rfl, -⟩ := h.last_of_denied hx (by simpa using hdeny)
      have hlt := (List.getElem?_eq_some_iff.mp hi).1
      rw [List.length_append, List.length_singleton] at hlt
      have hij : i = init.length := by omega
      subst hij
      rw [List.getElem?_concat_length] at hi
      cases hi
      exact hdeny hallow
    obtain ⟨c', hc', -⟩ := (h.hopOk hx).pinned hx'
    rw [hc']
    rfl

theorem RunOk.denied {i : ℕ} (hi : hops[i]? = some hop) (hdeny : hop.check.allowed = false) :
    i + 1 = hops.length ∧ (hops.filterMap (·.connection)).length = i ∧
      result.errorClass = some .ssrfBlocked := by
  obtain ⟨init, rfl, rfl, hinit, hdone⟩ := h.last_of_denied hi hdeny
  have hnone := ((h.hopOk hi).denied hdeny).1
  refine ⟨by simp, ?_, hdone.blocked hdeny⟩
  rw [List.filterMap_append, List.filterMap_cons_none hnone, List.filterMap_nil, List.append_nil]
  refine length_filterMap fun x hx => ?_
  obtain ⟨j, hj⟩ := List.getElem?_of_mem (List.mem_append_left [hop] hx)
  obtain ⟨c, hc, -⟩ := (h.hopOk hj).pinned (hinit x hx).allowed
  rw [hc]
  rfl

/-- The result tells the status of the last response that was received. -/
theorem RunOk.result_iff : (result.succeeded = true ↔ result.errorClass = none) ∧
    (result.errorClass = none ↔
      ∃ r, (hops.filterMap (·.response)).getLast? = some r ∧ r.Success) := by
  obtain ⟨init, last, rfl, hinit, hdone⟩ := h.ends
  refine ⟨hdone.succeeded, hdone.success.trans ?_⟩
  rw [List.filterMap_append]
  cases hr : last.response with
  | some r =>
    rw [List.filterMap_cons_some hr, List.filterMap_nil, List.getLast?_concat]
  | none =>
    rw [List.filterMap_cons_none hr, List.filterMap_nil, List.append_nil]
    -- the last response received is one that was redirected
    constructor
    · rintro ⟨r, hr', -⟩
      cases hr'
    · rintro ⟨r, hlast, hs⟩
      obtain ⟨x, hx, hxr⟩ := List.mem_filterMap.mp (List.mem_of_getLast? hlast)
      obtain ⟨r', hr', hns⟩ := (hinit x hx).response
      rw [hxr] at hr'
      cases hr'
      exact (hns hs).elim

end Run

/-- Whatever the resolver and the destinations answer: the resolver is asked at most once per hop,
there are at most `maxRedirectHops + 1` connections, connection `i` goes to the address and the
allowed port that check `i` has validated for its URL, a denied check ends the run with
`ssrfBlocked`, and the result succeeds exactly when the last response has a 2xx status. The run asks
the world for nothing else: where these questions have the same answers, it is the same run. -/
theorem send_pinned (py : PyNet) (cfg : SenderConfig) (w : SendWorld) (request : OutboundRequest)
    (result : OutboundHttpResult) (hops : List Hop)
    (h : send py cfg w request = .ok (result, hops)) :
    (hops.filterMap (·.connection)).length ≤ maxRedirectHops + 1 ∧
    (∀ i hop, hops[i]? = some hop →
      checkUrl py cfg.allowedPorts (w.resolver i) hop.url = .ok (hop.check, hop.lookups) ∧
      hop.lookups.length ≤ 1 ∧
      (hop.check.allowed = true → ∃ c, (hops.filterMap (·.connection))[i]? = some c ∧
        Pinned py cfg (w.resolver i) hop c) ∧
      (hop.check.allowed = false → i + 1 = hops.length ∧
        (hops.filterMap (·.connection)).length = i ∧
        result.errorClass = some .ssrfBlocked)) ∧
    (result.succeeded = true ↔ result.errorClass = none) ∧
    (result.errorClass = none ↔
      ∃ r, (hops.filterMap (·.response)).getLast? = some r ∧ r.Success) ∧
    ∀ w', (∀ i hop, hops[i]? = some hop → SameAnswers w w' i hop) →
      send py cfg w' request = .ok (result, hops) := by
  have hrun := sendFrom_ok h
  have hlen : hops.length ≤ maxRedirectHops + 1 := by simpa using hrun.length
  obtain ⟨hsucceeded, hclass⟩ := hrun.result_iff
  refine ⟨(List.length_filterMap_le _ _).trans hlen, fun i hop hi => ⟨(hrun.hopOk hi).checked,
    checkUrl_lookups (hrun.hopOk hi).checked, hrun.connection hi, hrun.denied hi⟩, hsucceeded,
    hclass, fun w' hsame => ?_⟩
  refine sendFrom_congr h fun k i hop hi hhop => ?_
  obtain ⟨-, rfl⟩ := List.getElem?_eq_some_iff.mp hi
  simpa using hsame k hop hhop

def sampleUrl : PyText := PyText.ofString "https://example.com/a"

def samplePy : PyNet where
  urlsplit u :=
    if u = sampleUrl ∨ u = PyText.ofString "https://example.com/b" then
      some ⟨PyText.ofString "https", some (PyText.ofString "example.com"), some none⟩
    else none
  urljoin base url :=
    if base = sampleUrl ∧ url = PyText.ofString "/b" then
      some (PyText.ofString "https://example.com/b")
    else none
  ipAddress t :=
    if t = PyText.ofString "93.184.216.34" then
      some (.v4 (ipv4Network 93 184 216 34 32).bits)
    else if t = PyText.ofString "127.0.0.1" then some (.v4 (ipv4Network 127 0 0 1 32).bits)
    else none
  repr t := PyText.ofString "'" ++ t ++ PyText.ofString "'"

def sampleWorld : SendWorld where
  resolver i _ :=
    .addresses [PyText.ofString (if i = 0 then "93.184.216.34" else "127.0.0.1")]
  post _ _ := .response { statusCode := 302, location := some (PyText.ofString "/b") }
  elapsedMs _ := 5

def sampleRequest : OutboundRequest := ⟨sampleUrl, [], []⟩

theorem send_pinned_sample :
    ∃ result hops, send samplePy ⟨{80, 443}, PyText.ofString "relay"⟩ sampleWorld sampleRequest =
        .ok (result, hops) ∧
      (hops.filterMap (·.connection)).length = 1 ∧ result.errorClass = some .ssrfBlocked := by
  obtain ⟨result, hops, h⟩ : ∃ result hops, send samplePy ⟨{80, 443}, PyText.ofString "relay"⟩
      sampleWorld sampleRequest = .ok (result, hops) := ⟨_, _, rfl⟩
  have hdeny : (send samplePy ⟨{80, 443}, PyText.ofString "relay"⟩ sampleWorld
      sampleRequest).toOption.map (fun p => (p.2[1]?).map (·.check.allowed)) =
        some (some false) := by
    decide +kernel
  rw [h] at hdeny
  obtain ⟨hop, hi, hno⟩ := Option.map_eq_some_iff.mp (Option.some.inj hdeny)
  obtain ⟨-, hhops, -⟩ := send_pinned samplePy _ sampleWorld sampleRequest result hops h
  obtain ⟨-, hcount, hclass⟩ := (hhops 1 hop hi).2.2.2 hno
  exact ⟨result, hops, h, hcount, hclass⟩

end HttpSender

end RelayWebhooks
