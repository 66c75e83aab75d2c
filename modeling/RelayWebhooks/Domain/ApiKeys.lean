import RelayWebhooks.Domain.Errors
import RelayWebhooks.Py.Codec
import Mathlib.Data.Finset.Basic

/-! API keys: a key is presented as its prefix, a full stop and its secret; the store keeps the
prefix and a salted digest of the secret. -/
namespace RelayWebhooks

structure ApiKey where
  id : UUID
  tenantId : UUID
  keyHash : PyText
  keyPrefix : PyText
  scopes : Finset PyText
  createdAt : ℤ
  revokedAt : Option ℤ := none
  expiresAt : Option ℤ := none
  deriving DecidableEq

instance : Keyed ApiKey UUID := ⟨ApiKey.id⟩

namespace ApiKey

@[simp] theorem key_eq (k : ApiKey) : Keyed.key k = k.id := rfl

def isRevoked (k : ApiKey) : Bool := k.revokedAt.isSome

def isExpired (k : ApiKey) (now : ℤ) : Bool := k.expiresAt.any fun e => e ≤ now

def hasScope (k : ApiKey) (required : PyText) : Bool :=
  PyText.ofString "*" ∈ k.scopes || required ∈ k.scopes

/-- The key may still be used. -/
def IsValid (k : ApiKey) (now : ℤ) : Prop := k.isRevoked = false ∧ k.isExpired now = false

end ApiKey

/-- The random bytes one `generate_api_key` draws. -/
structure KeyMaterial where
  keyPrefix : Bytes
  secret : Bytes
  salt : Bytes
  keyPrefix_length : keyPrefix.length = 6
  secret_length : secret.length = 32
  salt_length : salt.length = 16

/-- SHA-256. -/
abbrev Sha256 := Bytes → Bytes

def hashSecret (sha256 : Sha256) (salt : Bytes) (secret : PyText) : Except Raised PyText :=
  match utf8Encode secret with
  | none => .error .unicodeEncode
  | some encoded => .ok (bytesHex salt ++ 0x24 :: bytesHex (sha256 (salt ++ encoded)))

structure GeneratedKey where
  plaintextKey : PyText
  keyPrefix : PyText
  keyHash : PyText

def generateApiKey (sha256 : Sha256) (m : KeyMaterial) : Except Raised GeneratedKey :=
  let keyPrefix := tokenUrlsafe m.keyPrefix
  let secret := tokenUrlsafe m.secret
  match hashSecret sha256 m.salt secret with
  | .ok keyHash => .ok ⟨keyPrefix ++ 0x2e :: secret, keyPrefix, keyHash⟩
  | .error e => .error e

def splitApiKey (plaintextKey : PyText) : Option (PyText × PyText) :=
  match plaintextKey.partition 0x2e with
  | none => none
  | some (keyPrefix, secret) =>
    if keyPrefix = [] ∨ secret = [] then none else some (keyPrefix, secret)

def verifySecret (sha256 : Sha256) (secret storedHash : PyText) : Except Raised Bool :=
  match storedHash.partition 0x24 with
  | none => .ok false
  | some (saltHex, digestHex) =>
    match fromHex saltHex with
    | none => .ok false
    | some salt =>
      match utf8Encode secret with
      | none => .error .unicodeEncode
      | some encoded => .ok (bytesHex (sha256 (salt ++ encoded)) = digestHex)

variable {sha256 : Sha256}

/-- The hash text `generate_api_key` stores. -/
def KeyMaterial.keyHash (sha256 : Sha256) (m : KeyMaterial) : PyText :=
  bytesHex m.salt ++ 0x24 ::
    bytesHex (sha256 (m.salt ++ (tokenUrlsafe m.secret).map fun c => UInt8.ofNat c))

/-- The key a caller is shown. -/
def KeyMaterial.plaintextKey (m : KeyMaterial) : PyText :=
  tokenUrlsafe m.keyPrefix ++ 0x2e :: tokenUrlsafe m.secret

theorem generateApiKey_eq (sha256 : Sha256) (m : KeyMaterial) :
    generateApiKey sha256 m =
      .ok ⟨m.plaintextKey, tokenUrlsafe m.keyPrefix, m.keyHash sha256⟩ := by
  have henc := utf8Encode_printable (tokenUrlsafe_printable m.secret)
  unfold generateApiKey hashSecret
  simp only [henc]
  rfl

theorem KeyMaterial.keyPrefix_ne_nil (m : KeyMaterial) : tokenUrlsafe m.keyPrefix ≠ [] := by
  apply tokenUrlsafe_ne_nil
  intro h
  have hlen := m.keyPrefix_length
  rw [h] at hlen
  cases hlen

theorem KeyMaterial.secret_ne_nil (m : KeyMaterial) : tokenUrlsafe m.secret ≠ [] := by
  apply tokenUrlsafe_ne_nil
  intro h
  have hlen := m.secret_length
  rw [h] at hlen
  cases hlen

/-- A generated key splits into the prefix and the secret it was put together from. -/
theorem splitApiKey_plaintextKey (m : KeyMaterial) :
    splitApiKey m.plaintextKey = some (tokenUrlsafe m.keyPrefix, tokenUrlsafe m.secret) := by
  unfold splitApiKey KeyMaterial.plaintextKey
  rw [PyText.partition_append (dot_notMem_tokenUrlsafe _)]
  simp [m.keyPrefix_ne_nil, m.secret_ne_nil]

/-- What splits is its two parts around a full stop. -/
theorem eq_of_splitApiKey {p keyPrefix secret : PyText}
    (h : splitApiKey p = some (keyPrefix, secret)) : p = keyPrefix ++ 0x2e :: secret := by
  unfold splitApiKey at h
  split at h
  next => cases h
  next hp =>
    split at h
    next => cases h
    next => cases h; exact PyText.partition_eq_some hp

theorem verifySecret_eq (secret : PyText) (m : KeyMaterial) :
    verifySecret sha256 secret (m.keyHash sha256) =
      match utf8Encode secret with
      | none => .error .unicodeEncode
      | some encoded => .ok (bytesHex (sha256 (m.salt ++ encoded)) = bytesHex
          (sha256 (m.salt ++ (tokenUrlsafe m.secret).map fun c => UInt8.ofNat c))) := by
  unfold verifySecret KeyMaterial.keyHash
  rw [PyText.partition_append (dollar_notMem_bytesHex _)]
  dsimp only
  rw [fromHex_bytesHex]

/-- A secret verifies against a stored hash exactly when it is the one hashed. -/
theorem verifySecret_true (hsha : Function.Injective sha256) {secret : PyText}
    {encoded : Bytes} (he : utf8Encode secret = some encoded) (m : KeyMaterial) :
    verifySecret sha256 secret (m.keyHash sha256) = .ok (secret = tokenUrlsafe m.secret) := by
  have hp := tokenUrlsafe_printable m.secret
  rw [verifySecret_eq, he]
  dsimp only
  congr 1
  rw [decide_eq_decide]
  constructor
  · intro h
    have hdigest := hsha (bytesHex_injective h)
    exact eq_of_utf8Encode hp (he.trans (congrArg some (List.append_cancel_left hdigest)))
  · rintro rfl
    rw [utf8Encode_printable hp] at he
    rw [Option.some.inj he]

def sampleMaterial (b : UInt8) : KeyMaterial where
  keyPrefix := List.replicate 6 b
  secret := List.replicate 32 b
  salt := List.replicate 16 b
  keyPrefix_length := List.length_replicate
  secret_length := List.length_replicate
  salt_length := List.length_replicate

/-- What `hash_secret` digests for a draw. -/
def KeyMaterial.digestInput (m : KeyMaterial) : Bytes :=
  m.salt ++ (tokenUrlsafe m.secret).map fun c => UInt8.ofNat c

def sampleDigest (hex : String) : Bytes := (fromHex (PyText.ofString hex)).getD []

/-- SHA-256 on what the draws of 1 and of 2 hash, and some other bytes elsewhere. -/
def sampleSha256 : Sha256 := fun input =>
  if input = (sampleMaterial 1).digestInput then
    sampleDigest "89b53308396b17b8a20462ec11df817532cb5d2f81c7d2a9bffc978f9fb9878a"
  else if input = (sampleMaterial 2).digestInput then
    sampleDigest "a80bb4b544d3c3cb33bbb79668470a860d0bfa8509ad3e931bbf50f3e08165c8"
  else 0 :: input

theorem ne_zero_cons {digest input : Bytes} (h : digest.head? ≠ some 0) :
    digest ≠ 0 :: input := by
  rintro rfl
  exact h rfl

theorem sampleSha256_injective : Function.Injective sampleSha256 := by
  have hone : (sampleDigest
      "89b53308396b17b8a20462ec11df817532cb5d2f81c7d2a9bffc978f9fb9878a").head? ≠ some 0 := by
    decide +kernel
  have htwo : (sampleDigest
      "a80bb4b544d3c3cb33bbb79668470a860d0bfa8509ad3e931bbf50f3e08165c8").head? ≠ some 0 := by
    decide +kernel
  intro a b h
  unfold sampleSha256 at h
  split_ifs at h with h₁ h₂ h₃ h₄ h₅ h₆ h₇ h₈
  · rw [h₁, h₂]
  · exact absurd h (by decide +kernel)
  · exact absurd h (ne_zero_cons hone)
  · exact absurd h (by decide +kernel)
  · rw [h₄, h₆]
  · exact absurd h (ne_zero_cons htwo)
  · exact absurd h.symm (ne_zero_cons hone)
  · exact absurd h.symm (ne_zero_cons htwo)
  · exact (List.cons.inj h).2

end RelayWebhooks
