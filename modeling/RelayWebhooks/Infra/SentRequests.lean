import RelayWebhooks.Infra.HttpSender

/-! The requests that leave a run of the sender, whether it returns or raises: those whose answer
makes a difference to it. -/
namespace RelayWebhooks

/-- The world that answers one request otherwise. -/
def SendWorld.answering (w : SendWorld) (i : ℕ) (c : Connection) (outcome : PostOutcome) :
    SendWorld :=
  { w with post := fun j x => if j = i ∧ x = c then outcome else w.post j x }

theorem SendWorld.answering_post {w : SendWorld} {i j : ℕ} {c x : Connection}
    {outcome : PostOutcome} (h : (j, x) ≠ (i, c)) :
    (w.answering i c outcome).post j x = w.post j x :=
  if_neg fun heq => h (Prod.ext heq.1 heq.2)

theorem SendWorld.answering_post_self {w : SendWorld} {i : ℕ} {c : Connection}
    {outcome : PostOutcome} : (w.answering i c outcome).post i c = outcome := if_pos ⟨rfl, rfl⟩

namespace HttpSender
open SsrfGuard

variable (py : PyNet) (cfg : SenderConfig) (w : SendWorld)

/-- Hop `i` of the run sends its request on the connection: with another answer it is another
run. -/
def Posts (request : OutboundRequest) (i : ℕ) (c : Connection) : Prop :=
  ∃ outcome, send py cfg (w.answering i c outcome) request ≠ send py cfg w request

/-- The connection hop `i` opens to send its request, whatever comes of it. -/
def openedConnection (i : ℕ) (request : OutboundRequest) : Option Connection :=
  match checkUrl py cfg.allowedPorts (w.resolver i) request.url with
  | .error _ => none
  | .ok (check, _) =>
    if check.allowed = false then none
    else
      match check.hostname, check.resolvedIp with
      | some hostname, some resolvedIp =>
        (pinnedConnection py resolvedIp hostname request).toOption
      | _, _ => none

/-- The hops and connections of a run, those of one that ends in an exception included. -/
def sentFrom : List ℕ → OutboundRequest → List (ℕ × Connection)
  | [], _ => []
  | i :: is, request =>
    ((openedConnection py cfg w i request).map fun c => (i, c)).toList ++
      match sendHop py cfg w i request with
      | .ok (_, .follow url) => sentFrom is { request with url }
      | _ => []

/-- The connections `send` opens. -/
def sent (request : OutboundRequest) : List (ℕ × Connection) :=
  sentFrom py cfg w (List.range (maxRedirectHops + 1))
    { request with headers := withUserAgent cfg.userAgent request.headers }

variable {py cfg w} {i j : ℕ} {is : List ℕ} {request : OutboundRequest} {c : Connection}

theorem mem_sentFrom_cons : (j, c) ∈ sentFrom py cfg w (i :: is) request ↔
    (j = i ∧ openedConnection py cfg w i request = some c) ∨
      ∃ hop url, sendHop py cfg w i request = .ok (hop, .follow url) ∧
        (j, c) ∈ sentFrom py cfg w is { request with url } := by
  rw [sentFrom, List.mem_append, Option.mem_toList]
  refine or_congr ?_ ?_
  · cases openedConnection py cfg w i request with
    | none => simp
    | some x => simp [eq_comm]
  · rcases sendHop py cfg w i request with err | ⟨hop, result | url⟩ <;> simp

theorem index_of_mem_sentFrom (h : (j, c) ∈ sentFrom py cfg w is request) : j ∈ is := by
  induction is generalizing request with
  | nil => simp [sentFrom] at h
  | cons i is ih =>
    rcases mem_sentFrom_cons.mp h with ⟨rfl, -⟩ | ⟨hop, url, -, hrest⟩
    · exact List.mem_cons_self
    · exact List.mem_cons_of_mem _ (ih hrest)

theorem openedConnection_request (h : openedConnection py cfg w i request = some c) :
    c.request = request := by
  unfold openedConnection at h
  split at h
  next => cases h
  next =>
    split at h
    next => cases h
    next =>
      split at h
      next =>
        unfold pinnedConnection at h
        split at h
        next => cases h
        next =>
          split at h
          next => cases h
          next => cases h; rfl
      next => cases h

/-- Every hop sends the same bytes under the same headers. -/
theorem sentFrom_request (h : (j, c) ∈ sentFrom py cfg w is request) :
    c.request.payload = request.payload ∧ c.request.headers = request.headers := by
  induction is generalizing request with
  | nil => simp [sentFrom] at h
  | cons i is ih =>
    rcases mem_sentFrom_cons.mp h with ⟨-, hopened⟩ | ⟨hop, url, -, hrest⟩
    · rw [openedConnection_request hopened]
      exact ⟨rfl, rfl⟩
    · have hsent := ih hrest
      exact hsent

theorem sendHop_connection {hop : Hop} {pass : Pass}
    (h : sendHop py cfg w i request = .ok (hop, pass)) :
    hop.connection = openedConnection py cfg w i request := by
  unfold openedConnection
  cases passes_of_sendHop h with
  | denied hcheck hdeny => simp only [hcheck, if_pos hdeny]
  | failed hcheck hallow hhost hip hc =>
    simp only [hcheck, hallow, Bool.true_eq_false, if_false, hhost, hip, hc]
    rfl
  | answered hcheck hallow hhost hip hc =>
    simp only [hcheck, hallow, Bool.true_eq_false, if_false, hhost, hip, hc]
    rfl

/-- A hop without a connection asks the destinations for nothing. -/
theorem sendHop_unopened (h : openedConnection py cfg w i request = none)
    (post : ℕ → Connection → PostOutcome) :
    sendHop py cfg { w with post } i request = sendHop py cfg w i request := by
  unfold openedConnection at h
  unfold sendHop
  cases hcheck : checkUrl py cfg.allowedPorts (w.resolver i) request.url with
  | error err => rfl
  | ok out =>
    obtain ⟨check, lookups⟩ := out
    rw [hcheck] at h
    simp only [bind, Except.bind] at h ⊢
    split
    next => rfl
    next hallow =>
      rw [if_neg hallow] at h
      obtain ⟨allowed, hostname, port, resolvedIp, reason⟩ := check
      cases hostname with
      | none => rfl
      | some hostname =>
        cases resolvedIp with
        | none => rfl
        | some resolvedIp =>
          dsimp only at h ⊢
          cases hc : pinnedConnection py resolvedIp hostname request with
          | error err => rfl
          | ok c =>
            rw [hc] at h
            cases h

/-- What the outcome of its request makes of a hop. -/
def afterPost (py : PyNet) (latencyMs : ℤ) (i : ℕ) (hop : Hop) :
    PostOutcome → Except SendRaised (Hop × Pass)
  | .raised => .error .client
  | .timeout => .ok (hop, .done { latencyMs, errorClass := some .timeout })
  | .httpError => .ok (hop, .done { latencyMs, errorClass := some .connectionError })
  | .response r =>
    (fun pass => ({ hop with response := r }, pass)) <$> afterResponse py latencyMs i hop.url r

/-- A hop with a connection goes on with the outcome of its request. -/
theorem sendHop_opened (h : openedConnection py cfg w i request = some c) :
    ∃ hop : Hop, hop.url = request.url ∧ hop.response = none ∧
      ∀ post, sendHop py cfg { w with post } i request =
        afterPost py (w.elapsedMs i) i hop (post i c) := by
  unfold openedConnection at h
  split at h
  next => cases h
  next check lookups hcheck =>
    split at h
    next => cases h
    next hallow =>
      split at h
      next hostname resolvedIp hhost hip =>
        have hpinned : pinnedConnection py resolvedIp hostname request = .ok c := by
          cases hc : pinnedConnection py resolvedIp hostname request with
          | error err =>
            rw [hc] at h
            cases h
          | ok c' =>
            rw [hc] at h
            cases h
            rfl
        refine ⟨{ url := request.url, check, lookups, connection := c }, rfl, rfl, fun post => ?_⟩
        unfold sendHop
        rw [hcheck]
        simp only [bind, Except.bind, hallow, hhost, hip, hpinned]
        cases hpost : post i c with
        | raised => rfl
        | timeout => rfl
        | httpError => rfl
        | response r =>
          unfold afterPost
          dsimp only
          cases afterResponse py (w.elapsedMs i) i request.url r <;> rfl
      next => cases h

theorem sendFrom_cons :
    sendFrom py cfg w (i :: is) request =
      match sendHop py cfg w i request with
      | .error err => .error err
      | .ok (hop, .done result) => .ok (result, [hop])
      | .ok (hop, .follow url) =>
        (fun out => (out.1, hop :: out.2)) <$> sendFrom py cfg w is { request with url } := by
  rw [sendFrom]
  rcases sendHop py cfg w i request with err | ⟨hop, result | url⟩
  · rfl
  · rfl
  · simp only [bind, Except.bind]
    cases sendFrom py cfg w is { request with url } <;> rfl

/-- A run that returns has sent on the connections its hops report. -/
theorem mem_sentFrom_iff {result : OutboundHttpResult} {hops : List Hop}
    (h : sendFrom py cfg w is request = .ok (result, hops)) :
    (j, c) ∈ sentFrom py cfg w is request ↔
      ∃ (k : ℕ) (hop : Hop), is[k]? = some j ∧ hops[k]? = some hop ∧ hop.connection = some c := by
  induction is generalizing request hops with
  | nil => cases h
  | cons i is ih =>
    rw [sendFrom_cons] at h
    rw [mem_sentFrom_cons]
    rcases hhop : sendHop py cfg w i request with err | ⟨hop, result' | url⟩
    · rw [hhop] at h
      cases h
    · rw [hhop] at h
      cases h
      rw [← sendHop_connection hhop]
      constructor
      · rintro (⟨rfl, hc⟩ | ⟨_, _, hfollow, -⟩)
        · exact ⟨0, hop, rfl, rfl, hc⟩
        · cases hfollow
      · rintro ⟨k, hop', hj, hhop', hc⟩
        cases k with
        | zero =>
          cases hj
          cases hhop'
          exact .inl ⟨rfl, hc⟩
        | succ k => cases hhop'
    · rw [hhop] at h
      rw [← sendHop_connection hhop]
      cases hrest : sendFrom py cfg w is { request with url } with
      | error err =>
        simp only [hrest] at h
        cases h
      | ok out =>
        obtain ⟨result', hops'⟩ := out
        simp only [hrest] at h
        cases h
        constructor
        · rintro (⟨rfl, hc⟩ | ⟨_, _, hfollow, hmem⟩)
          · exact ⟨0, hop, rfl, rfl, hc⟩
          · cases hfollow
            obtain ⟨k, hop', hj, hhop', hc⟩ := (ih hrest).mp hmem
            exact ⟨k + 1, hop', hj, hhop', hc⟩
        · rintro ⟨k, hop', hj, hhop', hc⟩
          cases k with
          | zero =>
            cases hj
            cases hhop'
            exact .inl ⟨rfl, hc⟩
          | succ k => exact .inr ⟨hop, url, rfl, (ih hrest).mpr ⟨k, hop', hj, hhop', hc⟩⟩

/-- What a hop does not send on makes no difference to it. -/
theorem sendHop_answering (h : ¬(i = j ∧ openedConnection py cfg w i request = some c))
    (outcome : PostOutcome) :
    sendHop py cfg (w.answering j c outcome) i request = sendHop py cfg w i request := by
  cases hopened : openedConnection py cfg w i request with
  | none => exact sendHop_unopened hopened _
  | some x =>
    have hne : (i, x) ≠ (j, c) := by
      rintro heq
      cases heq
      exact h ⟨rfl, hopened⟩
    obtain ⟨hop, -, -, hhop⟩ := sendHop_opened hopened
    have hafter := hhop (w.answering j c outcome).post
    rw [SendWorld.answering_post hne] at hafter
    exact hafter.trans (hhop w.post).symm

theorem sendFrom_answering (h : (j, c) ∉ sentFrom py cfg w is request) (outcome : PostOutcome) :
    sendFrom py cfg (w.answering j c outcome) is request = sendFrom py cfg w is request := by
  induction is generalizing request with
  | nil => rfl
  | cons i is ih =>
    rw [mem_sentFrom_cons, not_or] at h
    rw [sendFrom_cons, sendFrom_cons, sendHop_answering fun heq => h.1 ⟨heq.1.symm, heq.2⟩]
    rcases hhop : sendHop py cfg w i request with err | ⟨hop, result | url⟩
    · rfl
    · rfl
    · dsimp only
      rw [ih fun hmem => h.2 ⟨hop, url, hhop, hmem⟩]

/-- An answer that ends the hop otherwise than the one it got. -/
theorem exists_sendFrom_ne (hopened : openedConnection py cfg w i request = some c) :
    ∃ outcome, sendFrom py cfg (w.answering i c outcome) (i :: is) request ≠
      sendFrom py cfg w (i :: is) request := by
  obtain ⟨hop, -, hresponse, hhop⟩ := sendHop_opened hopened
  have hanswered (outcome : PostOutcome) : sendHop py cfg (w.answering i c outcome) i request =
      afterPost py (w.elapsedMs i) i hop outcome := by
    have hafter := hhop (w.answering i c outcome).post
    rwa [SendWorld.answering_post_self] at hafter
  have hactual : sendHop py cfg w i request = afterPost py (w.elapsedMs i) i hop (w.post i c) :=
    hhop w.post
  simp only [sendFrom_cons, hanswered, hactual]
  cases w.post i c with
  | timeout => exact ⟨.raised, nofun⟩
  | raised => exact ⟨.timeout, nofun⟩
  | httpError => exact ⟨.timeout, nofun⟩
  | response r =>
    refine ⟨.timeout, fun h => ?_⟩
    -- The hop of a timeout reports no response.
    unfold afterPost at h
    dsimp only at h
    have hhead {hops hops' : List Hop} {result result' : OutboundHttpResult}
        (heq : (Except.ok (result, hop :: hops) : Except SendRaised _) =
          .ok (result', { hop with response := some r } :: hops')) : False := by
      have hresponse' := congrArg Hop.response (List.cons.inj (Prod.mk.inj (Except.ok.inj heq)).2).1
      rw [hresponse] at hresponse'
      cases hresponse'
    rcases hpass : afterResponse py (w.elapsedMs i) i hop.url r with err | result | url
    · rw [hpass] at h
      cases h
    · rw [hpass] at h
      exact hhead h
    · rw [hpass] at h
      cases hrest : sendFrom py cfg w is { request with url } with
      | error err =>
        simp only [Except.map_ok, hrest] at h
        cases h
      | ok out =>
        simp only [Except.map_ok, hrest] at h
        exact hhead h

/-- Each connection the run opens has an answer that changes the run. -/
theorem exists_sendFrom_ne_of_mem (hnodup : is.Nodup)
    (h : (j, c) ∈ sentFrom py cfg w is request) :
    ∃ outcome, sendFrom py cfg (w.answering j c outcome) is request ≠
      sendFrom py cfg w is request := by
  induction is generalizing request with
  | nil => simp [sentFrom] at h
  | cons i is ih =>
    obtain ⟨hfresh, hnodup⟩ := List.nodup_cons.mp hnodup
    rcases mem_sentFrom_cons.mp h with ⟨rfl, hopened⟩ | ⟨hop, url, hhop, hrest⟩
    · exact exists_sendFrom_ne hopened
    · have hne : i ≠ j := fun heq => hfresh (heq ▸ index_of_mem_sentFrom hrest)
      obtain ⟨outcome, hrun⟩ := ih hnodup hrest
      refine ⟨outcome, fun heq => hrun ?_⟩
      rw [sendFrom_cons, sendFrom_cons, sendHop_answering fun hboth => hne hboth.1, hhop] at heq
      dsimp only at heq
      revert heq
      rcases sendFrom py cfg (w.answering j c outcome) is { request with url } with err | out <;>
        rcases sendFrom py cfg w is { request with url } with err' | out' <;>
        simp [Prod.ext_iff]

/-- The run sends on the connections listed and on no other. -/
theorem posts_iff {c : Connection} :
    Posts py cfg w request i c ↔ (i, c) ∈ sent py cfg w request := by
  constructor
  · rintro ⟨outcome, hne⟩
    by_contra hnot
    exact hne (sendFrom_answering hnot outcome)
  · exact exists_sendFrom_ne_of_mem List.nodup_range

/-- A run that returns reports every connection it has sent on. -/
theorem posts_iff_of_ok {result : OutboundHttpResult} {hops : List Hop}
    (h : send py cfg w request = .ok (result, hops)) :
    Posts py cfg w request i c ↔ ∃ hop, hops[i]? = some hop ∧ hop.connection = some c := by
  have hlen : hops.length ≤ maxRedirectHops + 1 := by simpa using (sendFrom_ok h).length
  rw [posts_iff, sent, mem_sentFrom_iff h]
  constructor
  · rintro ⟨k, hop, hk, hhop, hc⟩
    obtain ⟨-, rfl⟩ := List.getElem?_eq_some_iff.mp hk
    exact ⟨hop, by simpa using hhop, hc⟩
  · rintro ⟨hop, hhop, hc⟩
    have hlt := (List.getElem?_eq_some_iff.mp hhop).1
    exact ⟨i, hop, List.getElem?_range (by omega), hhop, hc⟩

end HttpSender

end RelayWebhooks
