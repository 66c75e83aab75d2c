import RelayWebhooks.Infra.Http
import RelayWebhooks.Py.Integer

/-! Verifying a signature, and what the signature of a request is good for. -/
namespace RelayWebhooks

/-- `hmac.compare_digest` of two texts, `none` when it raises `TypeError` on one that is not
ASCII. -/
def compareDigest (a b : PyText) : Option Bool :=
  if a.all (· < 0x80) && b.all (· < 0x80) then some (a = b) else none

theorem intText_injective : Function.Injective intText := by
  intro i j h
  have heq := congrArg (intOfText (fun _ => 0x3f) 10) h
  rw [intOfText_intText, intOfText_intText] at heq
  exact Option.some.inj heq

theorem dot_notMem_intText (i : ℤ) : 0x2e ∉ intText i := by
  have hnat : ∀ n, 0x2e ∉ natText n := by
    intro n hmem
    obtain ⟨ds, htext, -, hds, -⟩ := natText_digits n
    rw [htext] at hmem
    obtain ⟨d, hd, heq⟩ := List.mem_map.mp hmem
    have hcases := digitChar_cases (d := d) (by have := hds d hd; omega)
    omega
  unfold intText
  split
  · simp [hnat]
  · exact hnat _

theorem map_ofNat_injective {t u : PyText} (ht : t.Printable) (hu : u.Printable)
    (h : t.map (fun c => UInt8.ofNat c) = u.map fun c => UInt8.ofNat c) : t = u := by
  rw [← utf8DecodeReplace_printable ht, h, utf8DecodeReplace_printable hu]

theorem mem_of_ofNat_mem {t : PyText} {c : ℕ} (ht : t.Printable) (hc : c < 0x80)
    (h : UInt8.ofNat c ∈ t.map fun c => UInt8.ofNat c) : c ∈ t := by
  obtain ⟨d, hd, heq⟩ := List.mem_map.mp h
  have hlt := ht d hd
  have hnat := congrArg UInt8.toNat heq
  rw [UInt8.toNat_ofNat', UInt8.toNat_ofNat'] at hnat
  obtain rfl : d = c := by omega
  exact hd

theorem takeWhile_append_cons {sep : UInt8} {t : Bytes} (body : Bytes) (h : sep ∉ t) :
    (t ++ sep :: body).takeWhile (· ≠ sep) = t := by
  have hall : ∀ b ∈ t, decide (b ≠ sep) = true := by
    intro b hb
    exact decide_eq_true fun heq => h (heq ▸ hb)
  rw [List.takeWhile_append_of_pos hall, List.takeWhile_cons_of_neg (by simp), List.append_nil]

/-- The first full stop ends the timestamp, whatever digits and stops the body has. -/
theorem signedMessage_inj {timestamp timestamp' : ℤ} {body body' : Bytes}
    (h : signedMessage timestamp body = signedMessage timestamp' body') :
    timestamp = timestamp' ∧ body = body' := by
  have hdot : ∀ i, UInt8.ofNat 0x2e ∉ (intText i).map fun c => UInt8.ofNat c :=
    fun i hmem => dot_notMem_intText i (mem_of_ofNat_mem (intText_printable i) (by omega) hmem)
  simp only [signedMessage, List.map_append, List.map_cons, List.map_nil, List.append_assoc,
    List.cons_append, List.nil_append] at h
  have htext := congrArg (List.takeWhile (· ≠ UInt8.ofNat 0x2e)) h
  rw [takeWhile_append_cons _ (hdot _), takeWhile_append_cons _ (hdot _)] at htext
  rw [htext] at h
  exact ⟨intText_injective (map_ofNat_injective (intText_printable _) (intText_printable _) htext),
    (List.cons.inj (List.append_cancel_left h)).2⟩

theorem hexText_injective {n k k' : ℕ} (h : hexText n k = hexText n k') :
    k % 16 ^ n = k' % 16 ^ n := by
  have hread : ∀ k, ((hexText n k).map digitValue).foldl (fun v d => v * 16 + d) 0 = k % 16 ^ n := by
    intro k
    have hdigits : (hexText n k).map digitValue = hexDigits n k := by
      rw [hexText_eq_map, List.map_map]
      exact (List.map_congr_left fun d hd => digitValue_digitChar (hexDigits_lt hd)).trans
        (List.map_id _)
    rw [hdigits, foldl_hexDigits, zero_mul, zero_add]
  rw [← hread k, h, hread k']

/-- The key of the keyed hash. -/
def signingKey (secret : Secret) : Bytes := secret.text.map fun c => UInt8.ofNat c

/-- Equal signatures come from equal digests. -/
theorem sign_inj {hmac : Hmac} {secret : Secret} {timestamp timestamp' : ℤ} {body body' : Bytes}
    (h : sign hmac secret timestamp body = sign hmac secret timestamp' body') :
    hmac (signingKey secret) (signedMessage timestamp body) =
      hmac (signingKey secret) (signedMessage timestamp' body') := by
  have hmod := hexText_injective h
  apply BitVec.eq_of_toNat_eq
  have hbound : ∀ d : BitVec 256, d.toNat < 16 ^ 64 := by
    intro d
    have hlt := d.isLt
    norm_num at hlt ⊢
    exact hlt
  rwa [Nat.mod_eq_of_lt (hbound _), Nat.mod_eq_of_lt (hbound _)] at hmod

namespace Signing

/-- How `sign` and `verify` can raise: on a secret with a lone surrogate, on an integer too long
for `str`, and in `hmac.compare_digest`. -/
inductive SigningError where
  | unicodeEncodeError
  | valueError
  | typeError
  deriving DecidableEq

/-- The digits `str` gives an integer at most. -/
def maxStrDigits : ℕ := 4300

/-- `sign` of a secret that may be any text, and any integer. -/
def sign (hmac : Hmac) (secret : PyText) (timestamp : ℤ) (body : Bytes) :
    Except SigningError PyText :=
  match utf8Encode secret with
  | none => .error .unicodeEncodeError
  | some key =>
    if timestamp.natAbs < 10 ^ maxStrDigits then
      .ok (hexText 64 (hmac key (signedMessage timestamp body)).toNat)
    else .error .valueError

/-- `verify`; `now` is the caller's time or, without one, the clock's. -/
def verify (hmac : Hmac) (secret : PyText) (timestamp : ℤ) (body : Bytes) (signature : PyText)
    (toleranceSeconds now : ℤ) : Except SigningError Bool :=
  if toleranceSeconds < |now - timestamp| then .ok false
  else do
    let expected ← sign hmac secret timestamp body
    match compareDigest expected signature with
    | some valid => .ok valid
    | none => .error .typeError

/-- The text has no lone surrogate. -/
def IsUnicode (t : PyText) : Prop := (utf8Encode t).isSome

instance (t : PyText) : Decidable (IsUnicode t) := inferInstanceAs (Decidable (_ = true))

def IsAscii (t : PyText) : Prop := ∀ c ∈ t, c < 0x80

instance (t : PyText) : Decidable (IsAscii t) := inferInstanceAs (Decidable (∀ c ∈ t, _))

theorem isAscii_iff {t : PyText} : t.all (· < 0x80) = true ↔ IsAscii t := by
  simp [IsAscii]

section
variable {hmac : Hmac} {secret : PyText} {timestamp : ℤ} {body : Bytes} {expected : PyText}

theorem sign_isOk : (∃ t, sign hmac secret timestamp body = .ok t) ↔
    IsUnicode secret ∧ timestamp.natAbs < 10 ^ maxStrDigits := by
  unfold sign IsUnicode
  cases utf8Encode secret with
  | none => simp
  | some key =>
    dsimp only
    split
    next h => simp [h]
    next h => simp [h]

/-- The hex digest is ASCII. -/
theorem sign_isAscii (h : sign hmac secret timestamp body = .ok expected) : IsAscii expected := by
  unfold sign at h
  split at h
  next => cases h
  next key _ =>
    split at h
    next =>
      cases h
      intro c hc
      have := (hexText_printable _ _ c hc).2
      omega
    next => cases h

theorem compareDigest_of_isAscii {a b : PyText} (ha : IsAscii a) (hb : IsAscii b) :
    compareDigest a b = some (decide (a = b)) := by
  unfold compareDigest
  rw [isAscii_iff.mpr ha, isAscii_iff.mpr hb]
  rfl

theorem compareDigest_of_not_isAscii {a b : PyText} (hb : ¬IsAscii b) :
    compareDigest a b = none := by
  have hall : b.all (· < 0x80) = false := by
    rw [← Bool.not_eq_true, isAscii_iff]
    exact hb
  simp [compareDigest, hall]

/-- An endpoint's own secret signs as the sender does. -/
theorem sign_secret (secret : Secret) (h : timestamp.natAbs < 10 ^ maxStrDigits) :
    sign hmac secret.text timestamp body = .ok (RelayWebhooks.sign hmac secret timestamp body) := by
  rw [sign, utf8Encode_printable secret.printable]
  exact if_pos h

theorem sign_long (secret : Secret) (h : 10 ^ maxStrDigits ≤ timestamp.natAbs) :
    sign hmac secret.text timestamp body = .error .valueError := by
  rw [sign, utf8Encode_printable secret.printable]
  exact if_neg (not_lt.mpr h)

variable {signature : PyText} {toleranceSeconds now : ℤ}

theorem verify_stale (h : toleranceSeconds < |now - timestamp|) :
    verify hmac secret timestamp body signature toleranceSeconds now = .ok false := if_pos h

theorem verify_unsigned {err : SigningError} (h : |now - timestamp| ≤ toleranceSeconds)
    (hsign : sign hmac secret timestamp body = .error err) :
    verify hmac secret timestamp body signature toleranceSeconds now = .error err := by
  rw [verify, if_neg (not_lt.mpr h), hsign]
  rfl

theorem verify_signed (h : |now - timestamp| ≤ toleranceSeconds)
    (hsign : sign hmac secret timestamp body = .ok expected) :
    verify hmac secret timestamp body signature toleranceSeconds now =
      if IsAscii signature then .ok (decide (expected = signature)) else .error .typeError := by
  rw [verify, if_neg (not_lt.mpr h), hsign]
  simp only [bind, Except.bind]
  by_cases hascii : IsAscii signature
  · rw [compareDigest_of_isAscii (sign_isAscii hsign) hascii, if_pos hascii]
  · rw [compareDigest_of_not_isAscii hascii, if_neg hascii]

/-- A signed request verifies exactly within the tolerance. -/
theorem verify_sign (secret : Secret) (h : timestamp.natAbs < 10 ^ maxStrDigits)
    (toleranceSeconds now : ℤ) :
    verify hmac secret.text timestamp body (RelayWebhooks.sign hmac secret timestamp body)
        toleranceSeconds now =
      .ok (decide (|now - timestamp| ≤ toleranceSeconds)) := by
  rcases lt_or_ge toleranceSeconds |now - timestamp| with hstale | hfresh
  · rw [verify_stale hstale, decide_eq_false (not_le.mpr hstale)]
  · have hsign : sign hmac secret.text timestamp body = .ok _ := sign_secret secret h
    rw [verify_signed hfresh hsign, if_pos (sign_isAscii hsign)]
    simp [hfresh]

/-- The signature verifies nothing but the request it was made for, unless the keyed hash collides
on the signed message. A timestamp within the tolerance that `str` does not print makes it raise. -/
theorem verify_other {secret : Secret} {timestamp' : ℤ} {body' : Bytes}
    (h : timestamp.natAbs < 10 ^ maxStrDigits)
    (hinj : ∀ message, hmac (signingKey secret) message =
      hmac (signingKey secret) (signedMessage timestamp body) →
        message = signedMessage timestamp body)
    (hne : (timestamp', body') ≠ (timestamp, body)) (toleranceSeconds now : ℤ) :
    verify hmac secret.text timestamp' body' (RelayWebhooks.sign hmac secret timestamp body)
        toleranceSeconds now =
      if |now - timestamp'| ≤ toleranceSeconds ∧ 10 ^ maxStrDigits ≤ timestamp'.natAbs then
        .error .valueError
      else .ok false := by
  rcases lt_or_ge toleranceSeconds |now - timestamp'| with hstale | hfresh
  · rw [verify_stale hstale, if_neg fun hboth => not_le.mpr hstale hboth.1]
  · rcases lt_or_ge timestamp'.natAbs (10 ^ maxStrDigits) with hshort | hlong
    · have hdigest : RelayWebhooks.sign hmac secret timestamp' body' ≠
          RelayWebhooks.sign hmac secret timestamp body := by
        intro heq
        obtain ⟨rfl, rfl⟩ := signedMessage_inj (hinj _ (sign_inj heq))
        exact hne rfl
      have hsign : sign hmac secret.text timestamp body = .ok _ := sign_secret secret h
      rw [verify_signed hfresh (sign_secret secret hshort), if_pos (sign_isAscii hsign),
        decide_eq_false hdigest, if_neg fun hboth => not_le.mpr hshort hboth.2]
    · rw [verify_unsigned hfresh (sign_long secret hlong), if_pos ⟨hfresh, hlong⟩]

end

end Signing

end RelayWebhooks
