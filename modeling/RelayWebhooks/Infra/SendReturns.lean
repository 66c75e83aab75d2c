import RelayWebhooks.Infra.DenyList
import RelayWebhooks.Infra.SentRequests

/-! When `send` returns: the exceptions that a destination's answers can raise in it. -/
namespace RelayWebhooks

namespace SsrfGuard

/-- The URL can be split, and its port can be read if the check comes to it. -/
def Readable (py : PyNet) (url : PyText) : Prop :=
  ∃ parsed, py.urlsplit url = some parsed ∧
    ((parsed.scheme = PyText.ofString "http" ∨ parsed.scheme = PyText.ofString "https") →
      parsed.hostname ≠ none → parsed.hostname ≠ some [] → parsed.port ≠ none)

/-- The resolver answers with IP literals or an `OSError`. -/
def AnswersLiterals (py : PyNet) (resolver : PyText → Lookup) : Prop :=
  ∀ hostname, (∃ message, resolver hostname = .osError message) ∨
    ∃ candidates, resolver hostname = .addresses candidates ∧
      ∀ c ∈ candidates, (py.ipAddress c).isSome

variable {py : PyNet} {allowedPorts : Finset ℕ} {resolver : PyText → Lookup} {url : PyText}

theorem checkAddresses_isOk (hanswers : AnswersLiterals py resolver) (hostname : PyText)
    (port : ℕ) : ∃ check, checkAddresses py hostname port (resolver hostname) = .ok check := by
  rcases hanswers hostname with ⟨message, h⟩ | ⟨candidates, h, hliteral⟩
  · rw [h]
    exact ⟨_, rfl⟩
  · rw [h]
    obtain ⟨check, hcheck, -⟩ := checkAddresses_cases hostname port hliteral
    exact ⟨check, hcheck⟩

/-- The check raises exactly on the URLs that cannot be read. -/
theorem checkUrl_isOk_iff (allowedPorts : Finset ℕ) (hanswers : AnswersLiterals py resolver) :
    (∃ out, checkUrl py allowedPorts resolver url = .ok out) ↔ Readable py url := by
  unfold checkUrl Readable
  cases hsplit : py.urlsplit url with
  | none => simp
  | some parsed =>
    simp only [Option.some.injEq, exists_eq_left']
    by_cases hscheme : parsed.scheme ≠ PyText.ofString "http" ∧
        parsed.scheme ≠ PyText.ofString "https"
    · simp [hscheme]
    · have hscheme' : parsed.scheme = PyText.ofString "http" ∨
          parsed.scheme = PyText.ofString "https" := by
        rw [not_and_or, not_not, not_not] at hscheme
        exact hscheme
      rw [if_neg hscheme]
      simp only [hscheme', true_implies]
      match hhost : parsed.hostname with
      | none => simp
      | some [] => simp
      | some (c :: cs) =>
        simp only [ne_eq, reduceCtorEq, not_false_eq_true, Option.some.injEq, true_implies]
        cases hport : parsed.port with
        | none => simp
        | some p =>
          obtain ⟨check, hcheck⟩ := checkAddresses_isOk hanswers (c :: cs) (effectivePort parsed p)
          simp only [reduceCtorEq, not_false_eq_true, iff_true]
          split
          · exact ⟨_, rfl⟩
          · rw [hcheck]
            exact ⟨_, rfl⟩

end SsrfGuard

namespace HttpSender
open SsrfGuard

variable {py : PyNet} {cfg : SenderConfig} {w : SendWorld} {i : ℕ} {is : List ℕ}
  {request : OutboundRequest}

/-- The chain of hops, seen from outside: every URL it comes to can be read, the client takes every
request, every redirect that is followed names a target, and the text of a response that is no
redirect can be read. -/
def ChainReadable (py : PyNet) (cfg : SenderConfig) (w : SendWorld) :
    List ℕ → OutboundRequest → Prop
  | [], _ => True
  | i :: is, request =>
    Readable py request.url ∧
      ∀ c, openedConnection py cfg w i request = some c → w.post i c ≠ .raised ∧
        ∀ r, w.post i c = .response r →
          (redirectTarget r = none → r.text ≠ none) ∧
          ∀ location, redirectTarget r = some location → i ≠ maxRedirectHops →
            ∃ url, py.urljoin request.url location = some url ∧
              ChainReadable py cfg w is { request with url }

/-- The guard leaves nothing for the pinned transport to refuse. -/
theorem openedConnection_of_allowed {check : SsrfCheckResult} {lookups : List PyText}
    (hcheck : checkUrl py cfg.allowedPorts (w.resolver i) request.url = .ok (check, lookups))
    (hallow : check.allowed = true) : ∃ c, openedConnection py cfg w i request = some c := by
  have hguard := checkUrl_allowed hcheck hallow
  obtain ⟨parsed, p, hparsed, hp, -, -⟩ := hguard.port
  obtain ⟨hostname, candidate, candidates, hhost, -, hip, -⟩ := hguard.address
  unfold openedConnection pinnedConnection
  simp only [hcheck, hallow, Bool.true_eq_false, if_false, hhost, hip, hparsed, hp]
  exact ⟨_, rfl⟩

/-- A hop without a connection was denied, which ends the run. -/
theorem sendHop_denied {out : SsrfCheckResult × List PyText}
    (hcheck : checkUrl py cfg.allowedPorts (w.resolver i) request.url = .ok out)
    (hnone : openedConnection py cfg w i request = none) :
    ∃ hop result, sendHop py cfg w i request = .ok (hop, .done result) := by
  obtain ⟨check, lookups⟩ := out
  have hdeny : check.allowed = false := by
    by_contra hallow
    obtain ⟨c, hc⟩ := openedConnection_of_allowed hcheck (by simpa using hallow)
    rw [hnone] at hc
    cases hc
  unfold sendHop
  rw [hcheck]
  simp only [bind, Except.bind, hdeny, if_true]
  exact ⟨_, _, rfl⟩

/-- What the chain asks of a hop that got a response. -/
theorem forall_response {c : Connection} {r : HttpResponse} {P : HttpResponse → Prop}
    (hopened : openedConnection py cfg w i request = some c) (hpost : w.post i c = .response r) :
    (∀ c, openedConnection py cfg w i request = some c → w.post i c ≠ .raised ∧
        ∀ r, w.post i c = .response r → P r) ↔ P r := by
  constructor
  · exact fun h => (h c hopened).2 r hpost
  · intro h c' hc'
    rw [hopened, Option.some.injEq] at hc'
    subst hc'
    refine ⟨by simp [hpost], fun r' hr' => ?_⟩
    rw [hpost, PostOutcome.response.injEq] at hr'
    exact hr' ▸ h

theorem exists_map_ok {α β : Type} {x : Except SendRaised α} {f : α → β} :
    (∃ out, f <$> x = .ok out) ↔ ∃ out, x = .ok out := by
  cases x <;> simp

/-- A run over the hops up to the last one returns exactly if its chain is readable. -/
theorem sendFrom_isOk_iff (hanswers : ∀ i, AnswersLiterals py (w.resolver i))
    (hlast : is.getLast? = some maxRedirectHops) :
    (∃ out, sendFrom py cfg w is request = .ok out) ↔ ChainReadable py cfg w is request := by
  induction is generalizing request with
  | nil => cases hlast
  | cons i is ih =>
    rw [ChainReadable, ← checkUrl_isOk_iff cfg.allowedPorts (hanswers i)]
    cases hcheck : checkUrl py cfg.allowedPorts (w.resolver i) request.url with
    | error err =>
      have hhop : sendHop py cfg w i request = .error err := by
        rw [sendHop, hcheck]
        rfl
      simp [sendFrom_cons, hhop]
    | ok out =>
      cases hopened : openedConnection py cfg w i request with
      | none =>
        obtain ⟨hop, result, hhop⟩ := sendHop_denied hcheck hopened
        simp [sendFrom_cons, hhop]
      | some c =>
        obtain ⟨hop, hurl, -, hhop⟩ := sendHop_opened hopened
        have hhop : sendHop py cfg w i request = afterPost py (w.elapsedMs i) i hop (w.post i c) :=
          hhop w.post
        rw [sendFrom_cons, hhop]
        cases hpost : w.post i c with
        | raised => simp [afterPost, hpost]
        | timeout => simp [afterPost, hpost]
        | httpError => simp [afterPost, hpost]
        | response r =>
          rw [← hopened, forall_response hopened hpost]
          unfold afterPost
          rw [hurl]
          cases htarget : redirectTarget r with
          | none => cases htext : r.text <;> simp [afterResponse, htarget, htext]
          | some location =>
            by_cases hi : i = maxRedirectHops
            · simp [htarget, afterResponse, hi]
            · have hrest : is.getLast? = some maxRedirectHops := by
                cases is with
                | nil => exact absurd (Option.some.inj hlast) hi
                | cons j js => rwa [List.getLast?_cons_cons] at hlast
              cases hjoin : py.urljoin request.url location with
              | none => simp [htarget, afterResponse, hi, hjoin]
              | some url =>
                have hpass : afterResponse py (w.elapsedMs i) i request.url r =
                    .ok (.follow url) := by
                  simp [afterResponse, htarget, hi, hjoin]
                simp only [hpass, Except.map_ok]
                rw [exists_map_ok, ih hrest]
                simp [hi, hjoin]

/-- Whatever the destinations answer, `send` returns a result, which classifies a denied redirect
target, exactly if every URL of the chain can be joined, split and its port read, the client takes
it, and the text of the last response can be read. -/
theorem send_returns_iff (py : PyNet) (cfg : SenderConfig) (w : SendWorld)
    (hanswers : ∀ i, AnswersLiterals py (w.resolver i)) (request : OutboundRequest) :
    (∃ result hops, send py cfg w request = .ok (result, hops) ∧
      ∀ hop ∈ hops, hop.check.allowed = false → result.errorClass = some .ssrfBlocked) ↔
    ChainReadable py cfg w (List.range (maxRedirectHops + 1))
      { request with headers := withUserAgent cfg.userAgent request.headers } := by
  rw [← sendFrom_isOk_iff hanswers rfl]
  constructor
  · rintro ⟨result, hops, h, -⟩
    exact ⟨(result, hops), h⟩
  · rintro ⟨⟨result, hops⟩, h⟩
    refine ⟨result, hops, h, fun hop hhop hdeny => ?_⟩
    obtain ⟨i, hi⟩ := List.getElem?_of_mem hhop
    exact ((sendFrom_ok h).denied hi hdeny).2.2

/-- The redirect of the sample can be followed, to an address that is denied. -/
theorem send_returns_redirected :
    (∃ result hops, send samplePy ⟨{80, 443}, PyText.ofString "relay"⟩ sampleWorld sampleRequest =
        .ok (result, hops) ∧
      ∀ hop ∈ hops, hop.check.allowed = false → result.errorClass = some .ssrfBlocked) ↔
    ChainReadable samplePy ⟨{80, 443}, PyText.ofString "relay"⟩ sampleWorld
      (List.range (maxRedirectHops + 1))
      ⟨sampleUrl, [], withUserAgent (PyText.ofString "relay") []⟩ := by
  have hanswers : ∀ i, AnswersLiterals samplePy (sampleWorld.resolver i) := by
    intro i hostname
    refine .inr ⟨_, rfl, ?_⟩
    split <;> decide
  exact send_returns_iff samplePy ⟨{80, 443}, PyText.ofString "relay"⟩ sampleWorld hanswers
    sampleRequest

def unparsableWorld : SendWorld where
  resolver _ _ := .addresses [PyText.ofString "93.184.216.34"]
  post _ _ := .response { statusCode := 302, location := some (PyText.ofString "https://[") }
  elapsedMs _ := 5

theorem answersLiterals_unparsableWorld (i : ℕ) :
    AnswersLiterals samplePy (unparsableWorld.resolver i) :=
  fun _ => .inr ⟨_, rfl, by decide⟩

/-- The URL cannot be joined, and the exception leaves `send`. -/
theorem send_raises_unparsable_location :
    (∀ i, AnswersLiterals samplePy (unparsableWorld.resolver i)) ∧
      (∀ i c, unparsableWorld.post i c ≠ .raised) ∧
      ¬∃ result hops, send samplePy ⟨{80, 443}, PyText.ofString "relay"⟩ unparsableWorld
        sampleRequest = .ok (result, hops) := by
  refine ⟨answersLiterals_unparsableWorld, fun i c => nofun, ?_⟩
  have hraises : send samplePy ⟨{80, 443}, PyText.ofString "relay"⟩ unparsableWorld
      sampleRequest = .error .valueError := rfl
  rintro ⟨result, hops, h⟩
  rw [hraises] at h
  cases h

end HttpSender

end RelayWebhooks
