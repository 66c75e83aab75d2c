import RelayWebhooks.Py.IpAddress
import RelayWebhooks.Py.Text
import Mathlib.Data.Finset.Basic

/-! The SSRF guard: which destinations a request may be sent to, and the address it is pinned to.
The standard library's parsers are arbitrary functions. -/
namespace RelayWebhooks

/-- What `urlsplit` returns. Reading `port` raises a `ValueError` if its text is not a port. -/
structure UrlParts where
  scheme : PyText
  hostname : Option PyText
  port : Option (Option ℕ)

/-- The functions of the standard library; `none` is a `ValueError`. -/
structure PyNet where
  urlsplit : PyText → Option UrlParts
  urljoin : PyText → PyText → Option PyText
  ipAddress : PyText → Option IpAddress
  repr : PyText → PyText

/-- One answer of the resolver. -/
inductive Lookup where
  | addresses (candidates : List PyText)
  | osError (message : PyText)
  | raised

/-- The exceptions that leave `send`; `decoding` is what reading `response.text` raises. -/
inductive SendRaised where
  | valueError
  | resolver
  | client
  | decoding
  | assertion
  deriving DecidableEq

structure SsrfCheckResult where
  allowed : Bool
  hostname : Option PyText := none
  port : Option ℕ := none
  resolvedIp : Option PyText := none
  reason : Option PyText := none
  deriving DecidableEq

namespace SsrfGuard

def cgnatNetwork : IpNetwork 32 := ipv4Network 100 64 0 0 10

def metadataIp : IpAddress := .v4 (ipv4Network 169 254 169 254 32).bits

def inCgnat : IpAddress → Bool
  | .v4 a => cgnatNetwork.contains a
  | .v6 _ => false

def isDenied (ip : IpAddress) : Bool :=
  if ip.isLoopback || ip.isLinkLocal || ip.isPrivate || ip.isReserved then true
  else if ip.isMulticast || ip.isUnspecified then true
  else if inCgnat ip then true
  else ip = metadataIp

/-- The port a URL is connected to. A port of zero counts as no port, here and in the client. -/
def effectivePort (u : UrlParts) (port : Option ℕ) : ℕ :=
  let default := if u.scheme = PyText.ofString "https" then 443 else 80
  match port with
  | some p => if p = 0 then default else p
  | none => default

/-- The first candidate that is denied. -/
def firstDenied (py : PyNet) : List PyText → Except SendRaised (Option PyText)
  | [] => .ok none
  | candidate :: candidates =>
    match py.ipAddress candidate with
    | none => .error .valueError
    | some ip => if isDenied ip then .ok (some candidate) else firstDenied py candidates

/-- The verdict on the resolver's answer for the host. -/
def checkAddresses (py : PyNet) (hostname : PyText) (port : ℕ) :
    Lookup → Except SendRaised SsrfCheckResult
  | .raised => .error .resolver
  | .osError message =>
    .ok { allowed := false, hostname, port,
          reason := PyText.ofString "dns resolution failed: " ++ message }
  | .addresses [] =>
    .ok { allowed := false, hostname, port,
          reason := PyText.ofString "dns resolution returned no addresses" }
  | .addresses (candidate :: candidates) =>
    match firstDenied py (candidate :: candidates) with
    | .error err => .error err
    | .ok (some denied) =>
      .ok { allowed := false, hostname, port, resolvedIp := denied,
            reason := PyText.ofString "address denied: " ++ denied }
    | .ok none => .ok { allowed := true, hostname, port, resolvedIp := candidate }

/-- The verdict on a URL, and the names the resolver was asked for. -/
def checkUrl (py : PyNet) (allowedPorts : Finset ℕ) (resolver : PyText → Lookup) (url : PyText) :
    Except SendRaised (SsrfCheckResult × List PyText) :=
  match py.urlsplit url with
  | none => .error .valueError
  | some parsed =>
    if parsed.scheme ≠ PyText.ofString "http" ∧ parsed.scheme ≠ PyText.ofString "https" then
      .ok ({ allowed := false,
             reason := PyText.ofString "unsupported scheme: " ++ py.repr parsed.scheme }, [])
    else
      match parsed.hostname with
      | none | some [] => .ok ({ allowed := false, reason := PyText.ofString "url has no host" }, [])
      | some hostname =>
        match parsed.port with
        | none => .error .valueError
        | some p =>
          let port := effectivePort parsed p
          if port ∉ allowedPorts then
            .ok ({ allowed := false, hostname, port,
                   reason := PyText.ofString "port not allowed: " ++ natText port }, [])
          else
            (checkAddresses py hostname port (resolver hostname)).map fun check =>
              (check, [hostname])

variable {py : PyNet} {allowedPorts : Finset ℕ} {resolver : PyText → Lookup} {url : PyText}
  {check : SsrfCheckResult} {lookups : List PyText}

/-- Nothing is denied when every candidate is an address that is not. -/
theorem firstDenied_eq_none {candidates : List PyText} :
    firstDenied py candidates = .ok none ↔
      ∀ c ∈ candidates, ∃ ip, py.ipAddress c = some ip ∧ isDenied ip = false := by
  induction candidates with
  | nil => simp [firstDenied]
  | cons c candidates ih =>
    rw [firstDenied, List.forall_mem_cons]
    cases hip : py.ipAddress c with
    | none => simp
    | some ip =>
      by_cases hd : isDenied ip = true
      · simp [hd]
      · simp [hd, ih]

theorem checkAddresses_allowed {hostname : PyText} {port : ℕ} {answer : Lookup}
    (h : checkAddresses py hostname port answer = .ok check) (hallow : check.allowed = true) :
    ∃ candidate candidates, answer = .addresses (candidate :: candidates) ∧
      check = { allowed := true, hostname, port, resolvedIp := candidate } ∧
      ∀ c ∈ candidate :: candidates, ∃ ip, py.ipAddress c = some ip ∧ isDenied ip = false := by
  unfold checkAddresses at h
  split at h
  next => cases h
  next =>
    cases h
    cases hallow
  next =>
    cases h
    cases hallow
  next candidate candidates =>
    split at h
    next => cases h
    next =>
      cases h
      cases hallow
    next hnone =>
      cases h
      exact ⟨candidate, candidates, rfl, rfl, firstDenied_eq_none.mp hnone⟩

/-- A URL is refused unseen, or it has an allowed port and the resolver was asked for its host. -/
theorem checkUrl_cases (h : checkUrl py allowedPorts resolver url = .ok (check, lookups)) :
    (check.allowed = false ∧ lookups = []) ∨
      ∃ parsed p hostname, py.urlsplit url = some parsed ∧ parsed.port = some p ∧
        effectivePort parsed p ∈ allowedPorts ∧
        checkAddresses py hostname (effectivePort parsed p) (resolver hostname) = .ok check ∧
        lookups = [hostname] := by
  unfold checkUrl at h
  split at h
  next => cases h
  next parsed hparsed =>
    split at h
    next => cases h; exact .inl ⟨rfl, rfl⟩
    next =>
      split at h
      next => cases h; exact .inl ⟨rfl, rfl⟩
      next => cases h; exact .inl ⟨rfl, rfl⟩
      next hostname _ _ =>
        split at h
        next => cases h
        next p hp =>
          dsimp only at h
          split at h
          next => cases h; exact .inl ⟨rfl, rfl⟩
          next hport =>
            cases hcheck : checkAddresses py hostname (effectivePort parsed p)
                (resolver hostname) with
            | error err =>
              rw [hcheck] at h
              cases h
            | ok c =>
              rw [hcheck] at h
              cases h
              exact .inr ⟨parsed, p, hostname, hparsed, hp, not_not.mp hport, hcheck, rfl⟩

/-- The check asks the resolver for the names it reports and for nothing else. -/
theorem checkUrl_congr {resolver' : PyText → Lookup}
    (h : checkUrl py allowedPorts resolver url = .ok (check, lookups))
    (hsame : ∀ hostname ∈ lookups, resolver' hostname = resolver hostname) :
    checkUrl py allowedPorts resolver' url = .ok (check, lookups) := by
  unfold checkUrl at h ⊢
  split at h
  next => cases h
  next parsed hparsed =>
    split at h
    next hscheme => rw [if_pos hscheme, h]
    next hscheme =>
      rw [if_neg hscheme]
      split at h
      next => exact h
      next => exact h
      next hostname _ _ =>
        split at h
        next => cases h
        next p hp =>
          dsimp only at h ⊢
          split at h
          next hport => rw [if_pos hport, h]
          next hport =>
            rw [if_neg hport]
            cases hcheck : checkAddresses py hostname (effectivePort parsed p)
                (resolver hostname) with
            | error err =>
              rw [hcheck] at h
              cases h
            | ok c =>
              rw [hcheck] at h
              cases h
              rw [hsame hostname List.mem_cons_self, hcheck]
              rfl

/-- What the guard has established when it allows a URL. -/
structure Allowed (py : PyNet) (allowedPorts : Finset ℕ) (resolver : PyText → Lookup)
    (url : PyText) (check : SsrfCheckResult) : Prop where
  port : ∃ parsed p, py.urlsplit url = some parsed ∧ parsed.port = some p ∧
    check.port = some (effectivePort parsed p) ∧ effectivePort parsed p ∈ allowedPorts
  address : ∃ hostname candidate candidates, check.hostname = some hostname ∧
    resolver hostname = .addresses (candidate :: candidates) ∧
    check.resolvedIp = some candidate ∧
    ∀ c ∈ candidate :: candidates, ∃ ip, py.ipAddress c = some ip ∧ isDenied ip = false

theorem checkUrl_allowed (h : checkUrl py allowedPorts resolver url = .ok (check, lookups))
    (hallow : check.allowed = true) : Allowed py allowedPorts resolver url check := by
  rcases checkUrl_cases h with ⟨hno, -⟩ | ⟨parsed, p, hostname, hparsed, hp, hport, hcheck, -⟩
  · rw [hno] at hallow
    cases hallow
  · obtain ⟨candidate, candidates, hanswer, rfl, hall⟩ := checkAddresses_allowed hcheck hallow
    exact ⟨⟨parsed, p, hparsed, hp, rfl, hport⟩,
      hostname, candidate, candidates, rfl, hanswer, rfl, hall⟩

/-- The resolver is asked at most once. -/
theorem checkUrl_lookups (h : checkUrl py allowedPorts resolver url = .ok (check, lookups)) :
    lookups.length ≤ 1 := by
  rcases checkUrl_cases h with ⟨-, rfl⟩ | ⟨_, _, _, _, _, _, _, rfl⟩
  · exact Nat.zero_le 1
  · exact Nat.le_refl 1

end SsrfGuard

end RelayWebhooks
