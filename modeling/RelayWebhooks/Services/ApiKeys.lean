import RelayWebhooks.Domain.ApiKeys
import RelayWebhooks.Domain.Tenants
import RelayWebhooks.Lib.Transition

/-! `ApiKeyService` over the key store, and the runs of its calls. -/
namespace RelayWebhooks

structure KeyStore where
  tenants : Table Tenant
  keys : Table ApiKey

namespace KeyStore

/-- `ApiKeyRepository.create`; `id` and `createdAt` come from the store. -/
def create (s : KeyStore) (id : UUID) (createdAt : ℤ) (tenantId : UUID)
    (keyHash keyPrefix : PyText) (scopes : Finset PyText) (expiresAt : Option ℤ := none) :
    Except Raised (KeyStore × ApiKey) :=
  let k : ApiKey := { id, tenantId, keyHash, keyPrefix, scopes, createdAt, expiresAt }
  match s.tenants.get tenantId, s.keys.insert k with
  | some _, some keys => .ok ({ s with keys }, k)
  | _, _ => .error .database

/-- `ApiKeyRepository.revoke`; the time is set again if the key was revoked before. -/
def revokeKey (s : KeyStore) (keyId : UUID) (now : ℤ) : Except Raised (KeyStore × ApiKey) :=
  match s.keys.get keyId with
  | none => .error (.apiKeyNotFound keyId)
  | some k =>
    let k := { k with revokedAt := some now }
    .ok ({ s with keys := s.keys.update k }, k)

/-- `ApiKeyRepository.get_by_prefix`. -/
def getByPrefix (s : KeyStore) (keyPrefix : PyText) : Except Raised (List ApiKey) :=
  if utf8Encode keyPrefix = none then .error .unicodeEncode
  else if keyPrefix.HasNul then .error .database
  else .ok (s.keys.select fun k => k.keyPrefix = keyPrefix)

/-- What the store and the random source generate for a call. -/
structure Generated where
  material : KeyMaterial
  id : UUID
  createdAt : ℤ

variable (sha256 : Sha256)

/-- The new row and the plaintext key. -/
def issue (s : KeyStore) (g : Generated) (tenantId : UUID) (scopes : Finset PyText)
    (expiresAt : Option ℤ := none) : Except Raised (KeyStore × ApiKey × PyText) := do
  let generated ← generateApiKey sha256 g.material
  let (s, k) ← s.create g.id g.createdAt tenantId generated.keyHash generated.keyPrefix scopes
    expiresAt
  return (s, k, generated.plaintextKey)

def rotate (s : KeyStore) (g : Generated) (now : ℤ) (keyId tenantId : UUID) :
    Except Raised (KeyStore × ApiKey × PyText) :=
  match s.keys.get keyId with
  | none => .error (.apiKeyNotFoundForTenant tenantId keyId)
  | some existing =>
    if existing.tenantId ≠ tenantId then .error (.apiKeyNotFoundForTenant tenantId keyId)
    else do
      let (s, _) ← s.revokeKey keyId now
      let generated ← generateApiKey sha256 g.material
      let (s, k) ← s.create g.id g.createdAt tenantId generated.keyHash generated.keyPrefix
        existing.scopes
      return (s, k, generated.plaintextKey)

def revoke (s : KeyStore) (now : ℤ) (keyId tenantId : UUID) :
    Except Raised (KeyStore × ApiKey) :=
  match s.keys.get keyId with
  | none => .error (.apiKeyNotFoundForTenant tenantId keyId)
  | some existing =>
    if existing.tenantId ≠ tenantId then .error (.apiKeyNotFoundForTenant tenantId keyId)
    else s.revokeKey keyId now

variable {sha256} {s s' : KeyStore} {g : Generated} {now : ℤ} {keyId tenantId : UUID}
  {scopes : Finset PyText} {expiresAt : Option ℤ} {k : ApiKey} {plaintext : PyText}

/-- The row of a key made from `g`. -/
def newKey (sha256 : Sha256) (g : Generated) (tenantId : UUID) (scopes : Finset PyText)
    (expiresAt : Option ℤ) : ApiKey :=
  { id := g.id, tenantId, keyHash := g.material.keyHash sha256,
    keyPrefix := tokenUrlsafe g.material.keyPrefix, scopes, createdAt := g.createdAt, expiresAt }

theorem create_ok {id : UUID} {createdAt : ℤ} {keyHash keyPrefix : PyText}
    (h : s.create id createdAt tenantId keyHash keyPrefix scopes expiresAt = .ok (s', k)) :
    k = { id, tenantId, keyHash, keyPrefix, scopes, createdAt, expiresAt } ∧
      ∃ keys, s.keys.insert k = some keys ∧ s' = { s with keys } := by
  unfold create at h
  dsimp only at h
  split at h
  next keys _ hins => cases h; exact ⟨rfl, keys, hins, rfl⟩
  next => cases h

theorem issue_ok (h : issue sha256 s g tenantId scopes expiresAt = .ok (s', k, plaintext)) :
    k = newKey sha256 g tenantId scopes expiresAt ∧ plaintext = g.material.plaintextKey ∧
      ∃ keys, s.keys.insert k = some keys ∧ s' = { s with keys } := by
  unfold issue at h
  rw [generateApiKey_eq] at h
  obtain ⟨_, ⟨⟩, h⟩ := bind_ok h
  obtain ⟨⟨s₁, k₁⟩, hcreate, h⟩ := bind_ok h
  cases h
  obtain ⟨hk, hins⟩ := create_ok hcreate
  exact ⟨hk, rfl, hins⟩

theorem revokeKey_of_get (h : s.keys.get keyId = some k) :
    s.revokeKey keyId now =
      .ok ({ s with keys := s.keys.update { k with revokedAt := some now } },
        { k with revokedAt := some now }) := by
  simp [revokeKey, h]

/-- A rotation that succeeds revokes the key and adds one with its scopes and no expiry. -/
theorem rotate_ok (h : rotate sha256 s g now keyId tenantId = .ok (s', k, plaintext)) :
    ∃ existing, s.keys.get keyId = some existing ∧ existing.tenantId = tenantId ∧
      k = newKey sha256 g tenantId existing.scopes none ∧
      plaintext = g.material.plaintextKey ∧ ∃ keys,
        (s.keys.update { existing with revokedAt := some now }).insert k = some keys ∧
        s' = { s with keys } := by
  unfold rotate at h
  split at h
  next => cases h
  next existing hget =>
    split at h
    next => cases h
    next htenant =>
      rw [revokeKey_of_get hget, generateApiKey_eq] at h
      obtain ⟨_, ⟨⟩, h⟩ := bind_ok h
      obtain ⟨_, ⟨⟩, h⟩ := bind_ok h
      obtain ⟨⟨s₂, k₂⟩, hcreate, h⟩ := bind_ok h
      cases h
      obtain ⟨hk, hins⟩ := create_ok hcreate
      exact ⟨existing, hget, not_not.mp htenant, hk, rfl, hins⟩

theorem revoke_ok (h : revoke s now keyId tenantId = .ok (s', k)) :
    ∃ existing, s.keys.get keyId = some existing ∧ existing.tenantId = tenantId ∧
      s' = { s with keys := s.keys.update { existing with revokedAt := some now } } := by
  unfold revoke at h
  split at h
  next => cases h
  next existing hget =>
    split at h
    next => cases h
    next htenant =>
      rw [revokeKey_of_get hget] at h
      cases h
      exact ⟨existing, hget, not_not.mp htenant, rfl⟩

end KeyStore

/-- What one call returned to its caller: the key and the secret inside it. -/
structure IssuedKey where
  keyId : UUID
  secret : PyText
  deriving DecidableEq

/-- A rotation: the key as it was found, the one that replaced it, and the time. -/
structure Rotation where
  old : ApiKey
  newId : UUID
  time : ℤ

/-- The store, with what its calls have returned and rotated so far. -/
structure KeyHistory where
  store : KeyStore
  issued : List IssuedKey := []
  rotations : List Rotation := []

inductive KeyAction where
  | issue (g : KeyStore.Generated) (tenantId : UUID) (scopes : Finset PyText)
    (expiresAt : Option ℤ)
  | rotate (g : KeyStore.Generated) (now : ℤ) (keyId tenantId : UUID)
  | revoke (now : ℤ) (keyId tenantId : UUID)

namespace KeyHistory

/-- No key has been issued. -/
def Init (h : KeyHistory) : Prop := h.store.keys.rows = [] ∧ h.issued = [] ∧ h.rotations = []

def recordIssued (g : KeyStore.Generated) : IssuedKey := ⟨g.id, tokenUrlsafe g.material.secret⟩

/-- One call. A call that raises leaves the store as it was. -/
def step (sha256 : Sha256) (h : KeyHistory) : KeyAction → Option KeyHistory
  | .issue g tenantId scopes expiresAt =>
    match h.store.issue sha256 g tenantId scopes expiresAt with
    | .ok (store, _, _) => some { h with store, issued := recordIssued g :: h.issued }
    | .error _ => some h
  | .rotate g now keyId tenantId =>
    match h.store.keys.get keyId, h.store.rotate sha256 g now keyId tenantId with
    | some old, .ok (store, k, _) =>
      some { store, issued := recordIssued g :: h.issued,
             rotations := ⟨old, k.id, now⟩ :: h.rotations }
    | _, _ => some h
  | .revoke now keyId tenantId =>
    match h.store.revoke now keyId tenantId with
    | .ok (store, _) => some { h with store }
    | .error _ => some h

abbrev run (sha256 : Sha256) := Transition.run (step sha256)

open KeyStore (newKey)

/-- What each call can do. -/
inductive Steps (sha256 : Sha256) (h : KeyHistory) : KeyAction → KeyHistory → Prop
  | issue {g : KeyStore.Generated} {tenantId : UUID} {scopes : Finset PyText}
      {expiresAt : Option ℤ} {keys : Table ApiKey}
      (hins : h.store.keys.insert (newKey sha256 g tenantId scopes expiresAt) = some keys) :
      Steps sha256 h (.issue g tenantId scopes expiresAt)
        { h with store := { h.store with keys }, issued := recordIssued g :: h.issued }
  | rotate {g : KeyStore.Generated} {now : ℤ} {keyId tenantId : UUID} {old : ApiKey}
      {keys : Table ApiKey} (hget : h.store.keys.get keyId = some old)
      (htenant : old.tenantId = tenantId)
      (hins : (h.store.keys.update { old with revokedAt := some now }).insert
        (newKey sha256 g tenantId old.scopes none) = some keys) :
      Steps sha256 h (.rotate g now keyId tenantId)
        { store := { h.store with keys }, issued := recordIssued g :: h.issued,
          rotations := ⟨old, g.id, now⟩ :: h.rotations }
  | revoke {now : ℤ} {keyId tenantId : UUID} {existing : ApiKey}
      (hget : h.store.keys.get keyId = some existing) :
      Steps sha256 h (.revoke now keyId tenantId)
        { h with store := { h.store with
                            keys := h.store.keys.update { existing with revokedAt := some now } } }
  | raise {a : KeyAction} : Steps sha256 h a h

theorem steps_of_step {sha256 : Sha256} {h t : KeyHistory} {a : KeyAction}
    (hst : step sha256 h a = some t) : Steps sha256 h a t := by
  cases a with
  | issue g tenantId scopes expiresAt =>
    simp only [step] at hst
    split at hst
    next hissue =>
      obtain ⟨rfl, -, keys, hins, rfl⟩ := KeyStore.issue_ok hissue
      cases hst
      exact .issue hins
    next => cases hst; exact .raise
  | rotate g now keyId tenantId =>
    simp only [step] at hst
    split at hst
    next old _ _ _ hget hrotate =>
      obtain ⟨existing, hget', htenant, rfl, -, keys, hins, rfl⟩ := KeyStore.rotate_ok hrotate
      obtain rfl : existing = old := Option.some.inj (hget'.symm.trans hget)
      cases hst
      exact .rotate hget htenant hins
    next => cases hst; exact .raise
  | revoke now keyId tenantId =>
    simp only [step] at hst
    split at hst
    next hrevoke =>
      obtain ⟨existing, hget, -, rfl⟩ := KeyStore.revoke_ok hrevoke
      cases hst
      exact .revoke hget
    next => cases hst; exact .raise

end KeyHistory

end RelayWebhooks
