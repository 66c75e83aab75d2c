import RelayWebhooks.Api.AuthExact

/-! Lineages of rotated keys: what a rotation hands on of the authority of the key it replaces. -/
namespace RelayWebhooks.KeyHistory
open KeyStore (newKey)

variable {sha256 : Sha256} {h t : KeyHistory} {a : KeyAction}

/-- `newId` replaced `oldId` in one rotation. -/
def Replaced (h : KeyHistory) (oldId newId : UUID) : Prop :=
  ∃ r ∈ h.rotations, r.old.id = oldId ∧ r.newId = newId

/-- One or more rotations lead from the first key to the second. -/
abbrev Descends (h : KeyHistory) : UUID → UUID → Prop := Relation.TransGen h.Replaced

/-- Some presented text is accepted as the key. -/
def Authenticates (sha256 : Sha256) (h : KeyHistory) (k : ApiKey) (now : ℤ) : Prop :=
  ∃ p tenant, authenticate sha256 h.store now p = .ok ⟨tenant, k⟩

/-- A key obtained from `k` by rotations has no more authority than `k` had. -/
structure NoMoreThan (sha256 : Sha256) (h : KeyHistory) (k k' : ApiKey) : Prop where
  scopes : k'.scopes = k.scopes
  expiry : ∀ e, k.expiresAt = some e → ∀ now, e ≤ now → ¬Authenticates sha256 h k' now
  dead : ∀ r ∈ h.rotations, r.newId = k'.id →
    (r.old.isRevoked = true ∨ r.old.isExpired r.time = true) →
    ∀ now, ¬Authenticates sha256 h k' now

/-- A rotation is asked only for a key that is not revoked and never expires. -/
def RotateOk (h : KeyHistory) (a : KeyAction) (_ : KeyHistory) : Prop :=
  match a with
  | .rotate _ _ keyId tenantId => ∀ k ∈ h.store.keys.get keyId, k.tenantId = tenantId →
      k.isRevoked = false ∧ k.expiresAt = none
  | _ => True

instance (h : KeyHistory) (a : KeyAction) (t : KeyHistory) : Decidable (RotateOk h a t) :=
  match a with
  | .rotate _ _ keyId tenantId => inferInstanceAs
      (Decidable (∀ k ∈ h.store.keys.get keyId, k.tenantId = tenantId → _ ∧ _))
  | .issue .. | .revoke .. => isTrue trivial

/-- The rows of a rotation: both keys have its scopes, and neither expires. -/
structure RotationOk (keys : Table ApiKey) (r : Rotation) : Prop where
  found : r.old.isRevoked = false ∧ r.old.expiresAt = none
  old : ∃ k, keys.get r.old.id = some k ∧ k.scopes = r.old.scopes ∧ k.expiresAt = none
  new : ∃ k, keys.get r.newId = some k ∧ k.scopes = r.old.scopes ∧ k.expiresAt = none

def RotationsOk (h : KeyHistory) : Prop := ∀ r ∈ h.rotations, RotationOk h.store.keys r

/-- Rows keep their scopes and their expiry. -/
theorem RotationOk.mono {keys keys' : Table ApiKey} {r : Rotation} (hr : RotationOk keys r)
    (hkeep : ∀ id k, keys.get id = some k →
      ∃ k', keys'.get id = some k' ∧ k'.scopes = k.scopes ∧ k'.expiresAt = k.expiresAt) :
    RotationOk keys' r := by
  obtain ⟨hfound, ⟨k, hk, hscopes, hexpires⟩, ⟨n, hn, hscopes', hexpires'⟩⟩ := hr
  obtain ⟨k', hk', hs, he⟩ := hkeep _ k hk
  obtain ⟨n', hn', hs', he'⟩ := hkeep _ n hn
  exact ⟨hfound, ⟨k', hk', hs.trans hscopes, he.trans hexpires⟩,
    ⟨n', hn', hs'.trans hscopes', he'.trans hexpires'⟩⟩

theorem keeps_insert {keys keys' : Table ApiKey} {k : ApiKey} (h : keys.insert k = some keys')
    (id : UUID) (x : ApiKey) (hx : keys.get id = some x) :
    ∃ k', keys'.get id = some k' ∧ k'.scopes = x.scopes ∧ k'.expiresAt = x.expiresAt :=
  ⟨x, Table.get_insert_of_get h hx, rfl, rfl⟩

theorem keeps_revoke {keys : Table ApiKey} {keyId : UUID} {existing : ApiKey}
    (h : keys.get keyId = some existing) (now : ℤ) (id : UUID) (x : ApiKey)
    (hx : keys.get id = some x) :
    ∃ k', (keys.update { existing with revokedAt := some now }).get id = some k' ∧
      k'.scopes = x.scopes ∧ k'.expiresAt = x.expiresAt := by
  have hid : existing.id = keyId := Table.key_of_get h
  by_cases heq : id = keyId
  · subst heq
    obtain rfl : x = existing := Option.some.inj (hx.symm.trans h)
    exact ⟨_, Table.get_update_of_get hid h, rfl, rfl⟩
  · refine ⟨x, ?_, rfl, rfl⟩
    rw [Table.get_update_ne _ (by rw [ApiKey.key_eq, hid]; exact heq)]
    exact hx

theorem RotationsOk.step (hI : RotationsOk h) (hok : RotateOk h a t)
    (hst : step sha256 h a = some t) : RotationsOk t := by
  cases steps_of_step hst with
  | issue hins => exact fun r hr => (hI r hr).mono (keeps_insert hins)
  | revoke hget => exact fun r hr => (hI r hr).mono (keeps_revoke hget _)
  | raise => exact hI
  | @rotate g now keyId tenantId old keys hget htenant hins =>
    have hkeep : ∀ id k, h.store.keys.get id = some k →
        ∃ k', keys.get id = some k' ∧ k'.scopes = k.scopes ∧ k'.expiresAt = k.expiresAt := by
      intro id k hk
      obtain ⟨k₁, hk₁, hs₁, he₁⟩ := keeps_revoke hget now id k hk
      obtain ⟨k₂, hk₂, hs₂, he₂⟩ := keeps_insert hins id k₁ hk₁
      exact ⟨k₂, hk₂, hs₂.trans hs₁, he₂.trans he₁⟩
    intro r hr
    rcases List.mem_cons.mp hr with rfl | hr
    · obtain ⟨hrevoked, hexpires⟩ := hok old hget htenant
      have hid : old.id = keyId := Table.key_of_get hget
      obtain ⟨k, hk, hscopes, he⟩ := hkeep keyId old hget
      refine ⟨⟨hrevoked, hexpires⟩, ⟨k, ?_, hscopes, he.trans hexpires⟩, ?_⟩
      · show keys.get old.id = some k
        rw [hid]
        exact hk
      · exact ⟨_, Table.get_insert_self hins, rfl, rfl⟩
    · exact (hI r hr).mono hkeep

theorem rotationsOk_of_run {as : List KeyAction} (hinit : Init h)
    (hok : Transition.Always (KeyHistory.step sha256) RotateOk h as)
    (hrun : run sha256 h as = some t) : RotationsOk t := by
  refine hok.invariant (fun _ _ _ hI hok hst => hI.step hok hst) ?_ hrun
  obtain ⟨-, -, hnone⟩ := hinit
  unfold RotationsOk
  rw [hnone]
  nofun

/-- Along a lineage the scopes stay, and no key that was rotated expires. -/
theorem RotationsOk.lineage (hI : RotationsOk h) {oldId newId : UUID}
    (hd : h.Descends oldId newId) :
    ∃ k k', h.store.keys.get oldId = some k ∧ h.store.keys.get newId = some k' ∧
      k'.scopes = k.scopes ∧ k.expiresAt = none := by
  induction hd with
  | single hab =>
    obtain ⟨r, hr, rfl, rfl⟩ := hab
    obtain ⟨-, ⟨k, hk, hscopes, hexpires⟩, ⟨k', hk', hscopes', -⟩⟩ := hI r hr
    exact ⟨k, k', hk, hk', hscopes'.trans hscopes.symm, hexpires⟩
  | tail _ hbc ih =>
    obtain ⟨k, k', hk, hk', hscopes, hexpires⟩ := ih
    obtain ⟨r, hr, rfl, rfl⟩ := hbc
    obtain ⟨-, ⟨k₁, hk₁, hscopes₁, -⟩, ⟨k₂, hk₂, hscopes₂, -⟩⟩ := hI r hr
    obtain rfl : k₁ = k' := Option.some.inj (hk₁.symm.trans hk')
    exact ⟨k, k₂, hk, hk₂, (hscopes₂.trans hscopes₁.symm).trans hscopes, hexpires⟩

/-- In a run that rotates only keys that are not revoked and never expire, no key obtained by
rotations has more authority than the key it descends from. -/
theorem rotation_no_amplification {as : List KeyAction} (hinit : Init h)
    (hok : Transition.Always (KeyHistory.step sha256) RotateOk h as)
    (hrun : run sha256 h as = some t) :
    ∀ k ∈ t.store.keys.rows, ∀ k' ∈ t.store.keys.rows, t.Descends k.id k'.id →
      NoMoreThan sha256 t k k' := by
  intro k hk k' hk' hd
  have hI := rotationsOk_of_run hinit hok hrun
  obtain ⟨x, x', hx, hx', hscopes, hexpires⟩ := hI.lineage hd
  obtain rfl : x = k := Option.some.inj (hx.symm.trans (Table.get_of_mem hk))
  obtain rfl : x' = k' := Option.some.inj (hx'.symm.trans (Table.get_of_mem hk'))
  refine ⟨hscopes, fun e he => ?_, fun r hr _ hdead => ?_⟩
  · rw [hexpires] at he
    cases he
  · obtain ⟨hrevoked, hnever⟩ := (hI r hr).found
    rcases hdead with h | h
    · rw [hrevoked] at h
      cases h
    · rw [ApiKey.isExpired, hnever] at h
      cases h

/-- The two rows the sample calls leave. -/
def rotatedKey (expiresAt : Option ℤ) : ApiKey :=
  { newKey sampleSha256 (sampleGenerated 1) 9 {PyText.ofString "*"} expiresAt with
    revokedAt := some 50 }

def replacementKey : ApiKey :=
  newKey sampleSha256 (sampleGenerated 2) 9 {PyText.ofString "*"} none

theorem sample_run (expiresAt : Option ℤ) : ∃ t,
    run sampleSha256 sampleHistory (sampleActions expiresAt) = some t ∧
      t.store.keys.get 1 = some (rotatedKey expiresAt) ∧
      t.store.keys.get 2 = some replacementKey ∧ t.Descends 1 2 :=
  ⟨_, rfl, rfl, rfl, .single ⟨_, List.mem_cons_self, rfl, rfl⟩⟩

theorem rotation_no_amplification_sample : ∃ t,
    run sampleSha256 sampleHistory (sampleActions none) = some t ∧
      NoMoreThan sampleSha256 t (rotatedKey none) replacementKey := by
  obtain ⟨t, ht, hold, hnew, hd⟩ := sample_run none
  exact ⟨t, ht, rotation_no_amplification ⟨rfl, rfl, rfl⟩ (by decide +kernel) ht _
    (Table.mem_of_get hold) _ (Table.mem_of_get hnew) hd⟩

/-- A key with an expiry is rotated in time, and its replacement is accepted long after it. -/
theorem rotation_outlives_expiry : ∃ t,
    run sampleSha256 sampleHistory (sampleActions (some 100)) = some t ∧
      t.store.keys.get 1 = some (rotatedKey (some 100)) ∧
      t.store.keys.get 2 = some replacementKey ∧ t.Descends 1 2 ∧
      (rotatedKey (some 100)).expiresAt = some 100 ∧
      Authenticates sampleSha256 t replacementKey 200 ∧
      ¬NoMoreThan sampleSha256 t (rotatedKey (some 100)) replacementKey := by
  obtain ⟨t, ht, hold, hnew, hd⟩ := sample_run (some 100)
  have haccept : (run sampleSha256 sampleHistory (sampleActions (some 100))).map (fun t =>
      authenticate sampleSha256 t.store 200 (some (sampleMaterial 2).plaintextKey)) =
      some (.ok ⟨sampleOwner, replacementKey⟩) := by
    decide +kernel
  rw [ht, Option.map_some, Option.some.injEq] at haccept
  have hauth : Authenticates sampleSha256 t replacementKey 200 := ⟨_, _, haccept⟩
  exact ⟨t, ht, hold, hnew, hd, rfl, hauth, fun h => h.expiry 100 rfl 200 (by decide) hauth⟩

end RelayWebhooks.KeyHistory
