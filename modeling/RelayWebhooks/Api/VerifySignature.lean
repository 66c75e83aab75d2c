import RelayWebhooks.Api.Errors
import RelayWebhooks.Infra.Signing

/-! `POST /v1/sandbox/verify-signature`: `sign` and `verify` on the texts a caller submits. -/
namespace RelayWebhooks
namespace Signing

/-- The verdict: `True` exactly for the signature of the request within the window, else
`False`. -/
def Verdict (hmac : Hmac) (secret : PyText) (timestamp : ℤ) (body : Bytes) (signature : PyText)
    (toleranceSeconds now : ℤ) : Prop :=
  ∃ valid, verify hmac secret timestamp body signature toleranceSeconds now = .ok valid ∧
    (valid = true ↔ |now - timestamp| ≤ toleranceSeconds ∧
      sign hmac secret timestamp body = .ok signature)

section
variable {hmac : Hmac} {secret : PyText} {timestamp : ℤ} {body : Bytes} {signature : PyText}
  {toleranceSeconds now : ℤ}

theorem verify_isOk :
    (∃ valid, verify hmac secret timestamp body signature toleranceSeconds now = .ok valid) ↔
      toleranceSeconds < |now - timestamp| ∨
        (IsUnicode secret ∧ timestamp.natAbs < 10 ^ maxStrDigits) ∧ IsAscii signature := by
  rcases lt_or_ge toleranceSeconds |now - timestamp| with hstale | hfresh
  · simp [verify_stale hstale, hstale]
  · rw [← @sign_isOk hmac secret timestamp body]
    cases hsign : sign hmac secret timestamp body with
    | error err => simp [verify_unsigned hfresh hsign, not_lt.mpr hfresh]
    | ok expected =>
      rw [verify_signed hfresh hsign]
      by_cases hascii : IsAscii signature
      · simp [hascii]
      · simp [hascii, not_lt.mpr hfresh]

/-- What `verify` returns is right. -/
theorem verdict_of_ok {valid : Bool}
    (h : verify hmac secret timestamp body signature toleranceSeconds now = .ok valid) :
    Verdict hmac secret timestamp body signature toleranceSeconds now := by
  refine ⟨valid, h, ?_⟩
  rcases lt_or_ge toleranceSeconds |now - timestamp| with hstale | hfresh
  · rw [verify_stale hstale] at h
    cases h
    simp [not_le.mpr hstale]
  · cases hsign : sign hmac secret timestamp body with
    | error err =>
      rw [verify_unsigned hfresh hsign] at h
      cases h
    | ok expected =>
      rw [verify_signed hfresh hsign] at h
      split at h
      next =>
        cases h
        simp [hfresh]
      next => cases h

theorem verdict_iff : Verdict hmac secret timestamp body signature toleranceSeconds now ↔
    toleranceSeconds < |now - timestamp| ∨
      (IsUnicode secret ∧ timestamp.natAbs < 10 ^ maxStrDigits) ∧ IsAscii signature := by
  rw [← @verify_isOk hmac secret timestamp body]
  constructor
  · rintro ⟨valid, h, -⟩
    exact ⟨valid, h⟩
  · rintro ⟨valid, h⟩
    exact verdict_of_ok h

end

end Signing

open Signing (IsUnicode IsAscii maxStrDigits)

/-- A body the route accepts: its texts are Unicode, and its integers were read from decimal
text. -/
structure SignatureVerifyRequest where
  secret : PyText
  timestamp : ℤ
  body : PyText
  signature : PyText
  toleranceSeconds : Option ℤ := none
  secret_unicode : IsUnicode secret
  body_unicode : IsUnicode body
  signature_unicode : IsUnicode signature
  timestamp_short : timestamp.natAbs < 10 ^ maxStrDigits

structure SignatureVerifyResponse where
  valid : Bool
  deriving DecidableEq

def defaultSignatureToleranceSeconds : ℤ := 300

namespace SignatureVerifyRequest

/-- `body.encode()`. -/
def bodyBytes (r : SignatureVerifyRequest) : Bytes :=
  (utf8Encode r.body).get r.body_unicode

def tolerance (r : SignatureVerifyRequest) : ℤ :=
  r.toleranceSeconds.getD defaultSignatureToleranceSeconds

/-- The signature a receiver computes for the request. -/
def expected (hmac : Hmac) (r : SignatureVerifyRequest) : Except Signing.SigningError PyText :=
  Signing.sign hmac r.secret r.timestamp r.bodyBytes

end SignatureVerifyRequest

/-- The response of the route; nothing handles what `verify` raises. -/
def verifySignature (path : PyText) (hmac : Hmac) (now : ℤ) (r : SignatureVerifyRequest) :
    Response SignatureVerifyResponse :=
  match Signing.verify hmac r.secret r.timestamp r.bodyBytes r.signature r.tolerance now with
  | .ok valid => { status := 200, body := .content ⟨valid⟩ }
  | .error _ => unhandledExceptionHandler path

section
variable {path : PyText} {hmac : Hmac} {now : ℤ} {r : SignatureVerifyRequest}

/-- The request is answered with the verdict, or with a 500. -/
theorem verifySignature_eq_iff :
    verifySignature path hmac now r =
        { status := 200
          body := .content
            ⟨decide (|now - r.timestamp| ≤ r.tolerance ∧ r.expected hmac = .ok r.signature)⟩ } ↔
      Signing.Verdict hmac r.secret r.timestamp r.bodyBytes r.signature r.tolerance now := by
  unfold Signing.Verdict verifySignature SignatureVerifyRequest.expected
  cases Signing.verify hmac r.secret r.timestamp r.bodyBytes r.signature r.tolerance now with
  | error err => simp [unhandledExceptionHandler, problemResponse]
  | ok valid => cases valid <;> simp

theorem verifySignature_status_iff : (verifySignature path hmac now r).status = 500 ↔
    ¬Signing.Verdict hmac r.secret r.timestamp r.bodyBytes r.signature r.tolerance now := by
  unfold verifySignature
  split
  next valid h => simp [Signing.verdict_of_ok h]
  next err h => simp [Signing.Verdict, h, unhandledExceptionHandler, problemResponse]

/-- Every request the route accepts can be signed. -/
theorem SignatureVerifyRequest.verdict_iff :
    Signing.Verdict hmac r.secret r.timestamp r.bodyBytes r.signature r.tolerance now ↔
      r.tolerance < |now - r.timestamp| ∨ IsAscii r.signature := by
  rw [Signing.verdict_iff, and_iff_right ⟨r.secret_unicode, r.timestamp_short⟩]

end

/-- `verify` gives its verdict exactly on a stale timestamp or an ASCII signature, as far as the
secret and the timestamp can be signed at all; and so for every request the route accepts, which
is answered with a 500 otherwise. -/
theorem verify_verdict_iff (hmac : Hmac) (now : ℤ) :
    (∀ (secret : PyText) (timestamp : ℤ) (body : Bytes) (signature : PyText)
        (toleranceSeconds : ℤ),
      Signing.Verdict hmac secret timestamp body signature toleranceSeconds now ↔
        toleranceSeconds < |now - timestamp| ∨
          (IsUnicode secret ∧ timestamp.natAbs < 10 ^ maxStrDigits) ∧ IsAscii signature) ∧
    ∀ (path : PyText) (r : SignatureVerifyRequest),
      (verifySignature path hmac now r =
          { status := 200
            body := .content
              ⟨decide (|now - r.timestamp| ≤ r.tolerance ∧ r.expected hmac = .ok r.signature)⟩ } ↔
        r.tolerance < |now - r.timestamp| ∨ IsAscii r.signature) ∧
      ((verifySignature path hmac now r).status = 500 ↔
        |now - r.timestamp| ≤ r.tolerance ∧ ¬IsAscii r.signature) := by
  constructor
  · intro secret timestamp body signature toleranceSeconds
    exact Signing.verdict_iff
  · intro path r
    constructor
    · rw [verifySignature_eq_iff, SignatureVerifyRequest.verdict_iff]
    · rw [verifySignature_status_iff, SignatureVerifyRequest.verdict_iff, not_or, not_lt]

/-- The signature of one `é` within the window. -/
theorem verify_raises_on_non_ascii :
    ¬∀ (secret : PyText) (timestamp : ℤ) (body : Bytes) (signature : PyText)
        (toleranceSeconds now : ℤ), IsUnicode signature →
      Signing.Verdict (fun _ _ => 0) secret timestamp body signature toleranceSeconds now := by
  intro h
  obtain ⟨valid, hvalid, -⟩ := h [0x73] 0 [] [0xe9] 300 0 (by decide)
  have hsign : Signing.sign (fun _ _ => 0) [0x73] 0 [] = .ok (hexText 64 0) := by decide +kernel
  rw [Signing.verify_signed (by norm_num) hsign] at hvalid
  simp [Signing.IsAscii] at hvalid

end RelayWebhooks
