import RelayWebhooks.Services.ApiKeys

/-! Authentication by a presented key, over the key stores the service's calls reach. -/
namespace RelayWebhooks

structure AuthContext where
  tenant : Tenant
  apiKey : ApiKey
  deriving DecidableEq

/-- What a dependency raises: an `HTTPException`, or an exception nothing has caught yet. -/
inductive AuthError where
  | http (status : ℕ) (detail : PyText)
  | raised (error : Raised)
  deriving DecidableEq

def AuthError.invalidKey : AuthError := .http 401 (PyText.ofString "missing or invalid API key")

variable (sha256 : Sha256)

/-- The first candidate whose hash the secret verifies against. -/
def firstVerified (secret : PyText) : List ApiKey → Except Raised (Option ApiKey)
  | [] => .ok none
  | k :: ks =>
    match verifySecret sha256 secret k.keyHash with
    | .error e => .error e
    | .ok true => .ok (some k)
    | .ok false => firstVerified secret ks

/-- The checks on the matched key and on its tenant. -/
def acceptMatched (s : KeyStore) (now : ℤ) : Option ApiKey → Except AuthError AuthContext
  | none => .error .invalidKey
  | some matched =>
    if matched.isRevoked || matched.isExpired now then .error .invalidKey
    else
      match s.tenants.get matched.tenantId with
      | none => .error .invalidKey
      | some tenant => if tenant.isDeleted then .error .invalidKey else .ok ⟨tenant, matched⟩

/-- `_authenticate` once the presented key is split. -/
def authenticateSplit (s : KeyStore) (now : ℤ) (keyPrefix secret : PyText) :
    Except AuthError AuthContext :=
  match s.getByPrefix keyPrefix with
  | .error e => .error (.raised e)
  | .ok candidates =>
    match firstVerified sha256 secret candidates with
    | .error e => .error (.raised e)
    | .ok matched => acceptMatched s now matched

def authenticate (s : KeyStore) (now : ℤ) (presentedKey : Option PyText) :
    Except AuthError AuthContext :=
  match presentedKey with
  | none => .error .invalidKey
  | some presentedKey =>
    if presentedKey = [] then .error .invalidKey
    else
      match splitApiKey presentedKey with
      | none => .error .invalidKey
      | some (keyPrefix, secret) => authenticateSplit sha256 s now keyPrefix secret

variable {sha256} {s : KeyStore} {now : ℤ} {keyPrefix secret : PyText}

/-- If every candidate can be verified, the first that is verified is found. -/
theorem firstVerified_eq {ks : List ApiKey} {f : ApiKey → Bool}
    (h : ∀ k ∈ ks, verifySecret sha256 secret k.keyHash = .ok (f k)) :
    firstVerified sha256 secret ks = .ok (ks.find? f) := by
  induction ks with
  | nil => rfl
  | cons k ks ih =>
    have hk := h k List.mem_cons_self
    have ih := ih fun k hk => h k (List.mem_cons_of_mem _ hk)
    unfold firstVerified
    rw [hk]
    cases hf : f k with
    | true => rw [List.find?_cons_of_pos hf]
    | false => simp only [ih, List.find?_cons_of_neg (Bool.eq_false_iff.mp hf)]

theorem getByPrefix_eq (he : (utf8Encode keyPrefix).isSome) (hn : ¬keyPrefix.HasNul) :
    s.getByPrefix keyPrefix = .ok (s.keys.select fun k => k.keyPrefix = keyPrefix) := by
  unfold KeyStore.getByPrefix
  rw [if_neg (Option.isSome_iff_ne_none.mp he), if_neg hn]

theorem getByPrefix_error (h : ¬((utf8Encode keyPrefix).isSome ∧ ¬keyPrefix.HasNul)) :
    ∃ e, s.getByPrefix keyPrefix = .error e := by
  unfold KeyStore.getByPrefix
  split
  next => exact ⟨_, rfl⟩
  next he =>
    split
    next => exact ⟨_, rfl⟩
    next hn => exact absurd ⟨Option.isSome_iff_ne_none.mpr he, hn⟩ h

theorem acceptMatched_ok {matched : Option ApiKey} {context : AuthContext} :
    acceptMatched s now matched = .ok context ↔
      matched = some context.apiKey ∧ context.apiKey.IsValid now ∧
        s.tenants.get context.apiKey.tenantId = some context.tenant ∧
        context.tenant.isDeleted = false := by
  unfold acceptMatched ApiKey.IsValid
  constructor
  · intro h
    split at h
    next => cases h
    next matched =>
      split at h
      next => cases h
      next hvalid =>
        split at h
        next => cases h
        next tenant ht =>
          split at h
          next => cases h
          next hdeleted =>
            cases h
            simp only [Bool.or_eq_true, not_or, Bool.not_eq_true] at hvalid
            exact ⟨rfl, hvalid, ht, Bool.eq_false_iff.mpr hdeleted⟩
  · rintro ⟨rfl, ⟨hrevoked, hexpired⟩, ht, hdeleted⟩
    simp [hrevoked, hexpired, ht, hdeleted]

/-- The checks end in a context or in the 401. -/
theorem acceptMatched_error {matched : Option ApiKey}
    (h : ∀ context, acceptMatched s now matched ≠ .ok context) :
    acceptMatched s now matched = .error .invalidKey := by
  cases hres : acceptMatched s now matched with
  | ok context => exact absurd hres (h context)
  | error e =>
    unfold acceptMatched at hres
    split at hres
    next => exact hres.symm
    next =>
      split at hres
      next => exact hres.symm
      next =>
        split at hres
        next => exact hres.symm
        next =>
          split at hres
          next => exact hres.symm
          next => cases hres

end RelayWebhooks
