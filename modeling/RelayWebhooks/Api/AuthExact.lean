import RelayWebhooks.Api.Auth

/-! Authentication against the keys that were issued: which presented texts are accepted, and
for which ones the store or the encoding raises. -/
namespace RelayWebhooks

variable {sha256 : Sha256} {h t : KeyHistory} {a : KeyAction} {now : ℤ} {p : PyText}

namespace KeyHistory
open KeyStore (newKey)

/-- The bytes a stored key was generated from, and the secret its caller was shown. -/
def MadeFrom (sha256 : Sha256) (issued : List IssuedKey) (k : ApiKey) (m : KeyMaterial) : Prop :=
  k.keyPrefix = tokenUrlsafe m.keyPrefix ∧ k.keyHash = m.keyHash sha256 ∧
    ⟨k.id, tokenUrlsafe m.secret⟩ ∈ issued

/-- Every call that stored a key has shown its secret, once. -/
structure Inv (sha256 : Sha256) (h : KeyHistory) : Prop where
  issuedIds : (h.issued.map IssuedKey.keyId).Nodup
  stored : ∀ x ∈ h.issued, (h.store.keys.get x.keyId).isSome
  madeFrom : ∀ k ∈ h.store.keys.rows, ∃ m, MadeFrom sha256 h.issued k m

theorem inv_init (hinit : Init h) : Inv sha256 h := by
  obtain ⟨hkeys, hissued, -⟩ := hinit
  refine ⟨by rw [hissued]; exact List.nodup_nil, by rw [hissued]; nofun, ?_⟩
  rw [hkeys]
  nofun

/-- A new row, with its secret shown. -/
theorem Inv.insert (hI : Inv sha256 h) {g : KeyStore.Generated} {tenantId : UUID}
    {scopes : Finset PyText} {expiresAt : Option ℤ} {keys : Table ApiKey}
    {rotations : List Rotation}
    (hins : h.store.keys.insert (newKey sha256 g tenantId scopes expiresAt) = some keys) :
    Inv sha256 { store := { h.store with keys }, issued := recordIssued g :: h.issued,
                 rotations } := by
  obtain ⟨hfresh, hrows⟩ := Table.insert_eq_some.mp hins
  refine ⟨List.nodup_cons.mpr ⟨fun hmem => ?_, hI.issuedIds⟩, fun x hx => ?_, fun k hk => ?_⟩
  · obtain ⟨x, hx, hid⟩ := List.mem_map.mp hmem
    have hsome := hI.stored x hx
    have hnone : h.store.keys.get x.keyId = none := by
      rw [hid]
      exact hfresh
    rw [hnone] at hsome
    cases hsome
  · rcases List.mem_cons.mp hx with rfl | hx
    · exact Option.isSome_iff_exists.mpr ⟨_, Table.get_insert_self hins⟩
    · obtain ⟨k, hk⟩ := Option.isSome_iff_exists.mp (hI.stored x hx)
      exact Option.isSome_iff_exists.mpr ⟨k, Table.get_insert_of_get hins hk⟩
  · rw [hrows, List.mem_append, List.mem_singleton] at hk
    rcases hk with hk | rfl
    · obtain ⟨m, hpre, hhash, hmem⟩ := hI.madeFrom k hk
      exact ⟨m, hpre, hhash, List.mem_cons_of_mem _ hmem⟩
    · exact ⟨g.material, rfl, rfl, List.mem_cons_self⟩

/-- Setting the revocation time of a row. -/
theorem Inv.revoke (hI : Inv sha256 h) {keyId : UUID} {existing : ApiKey}
    (hget : h.store.keys.get keyId = some existing) (now : ℤ) :
    Inv sha256 { h with store := { h.store with
      keys := h.store.keys.update { existing with revokedAt := some now } } } := by
  refine ⟨hI.issuedIds, fun x hx => ?_, fun k hk => ?_⟩
  · rw [Table.isSome_get_update]
    exact hI.stored x hx
  · rcases Table.mem_update hk with rfl | ⟨hk, -⟩
    · exact hI.madeFrom existing (Table.mem_of_get hget)
    · exact hI.madeFrom k hk

theorem Inv.step (hI : Inv sha256 h) (hst : step sha256 h a = some t) : Inv sha256 t := by
  cases steps_of_step hst with
  | issue hins => exact hI.insert hins
  | @rotate g now keyId _ old keys hget htenant hins => exact (hI.revoke hget now).insert hins
  | @revoke now keyId _ existing hget => exact hI.revoke hget now
  | raise => exact hI

theorem Inv.of_reachable (hr : Transition.Reachable (KeyHistory.step sha256) Init h) :
    Inv sha256 h :=
  hr.invariant (fun _ => inv_init) fun _ _ _ hI hst => hI.step hst

/-- The secret a stored key verifies against is the one shown for it. -/
theorem Inv.verify (hI : Inv sha256 h) (hsha : Function.Injective sha256) {k : ApiKey}
    (hk : k ∈ h.store.keys.rows) {secret : PyText} (he : (utf8Encode secret).isSome) :
    verifySecret sha256 secret k.keyHash = .ok (decide (⟨k.id, secret⟩ ∈ h.issued)) := by
  obtain ⟨encoded, he⟩ := Option.isSome_iff_exists.mp he
  obtain ⟨m, -, hhash, hmem⟩ := hI.madeFrom k hk
  rw [hhash, verifySecret_true hsha he]
  congr 1
  rw [decide_eq_decide]
  constructor
  · rintro rfl
    exact hmem
  · intro hsecret
    have heq := List.inj_on_of_nodup_map hI.issuedIds hsecret hmem rfl
    exact congrArg IssuedKey.secret heq

end KeyHistory

/-- The presented text is the whole of a stored key as it was shown, the key may be used, and
its tenant is not deleted. -/
structure ValidKey (h : KeyHistory) (now : ℤ) (p : PyText) (tenant : Tenant) (k : ApiKey) :
    Prop where
  stored : k ∈ h.store.keys.rows
  shown : ∃ x ∈ h.issued, x.keyId = k.id ∧ p = k.keyPrefix ++ 0x2e :: x.secret
  valid : k.IsValid now
  owner : h.store.tenants.get k.tenantId = some tenant
  live : tenant.isDeleted = false

/-- Authentication accepts the valid keys, each for its tenant, and answers 401 to every other
text. -/
structure AuthExact (sha256 : Sha256) (h : KeyHistory) (now : ℤ) (p : PyText) : Prop where
  accepts : ∀ tenant, (∃ k, authenticate sha256 h.store now (some p) = .ok ⟨tenant, k⟩) ↔
    ∃ k, ValidKey h now p tenant k
  refuses : (∀ tenant k, ¬ValidKey h now p tenant k) →
    authenticate sha256 h.store now (some p) = .error .invalidKey

/-- The store can look the prefix up, and if it knows the prefix the secret can be encoded. -/
def Presentable (h : KeyHistory) (p : PyText) : Prop :=
  ∀ keyPrefix secret, splitApiKey p = some (keyPrefix, secret) →
    ((utf8Encode keyPrefix).isSome ∧ ¬keyPrefix.HasNul) ∧
      ((∃ k ∈ h.store.keys.rows, k.keyPrefix = keyPrefix) → (utf8Encode secret).isSome)

open KeyHistory

/-- A valid key splits into the prefix and the secret that were generated for it. -/
theorem ValidKey.split (hI : Inv sha256 h) {tenant : Tenant} {k : ApiKey}
    (hv : ValidKey h now p tenant k) :
    ∃ m : KeyMaterial, splitApiKey p = some (k.keyPrefix, tokenUrlsafe m.secret) ∧
      k.keyPrefix = tokenUrlsafe m.keyPrefix ∧ ⟨k.id, tokenUrlsafe m.secret⟩ ∈ h.issued := by
  obtain ⟨x, hx, hid, rfl⟩ := hv.shown
  obtain ⟨m, hpre, -, hmem⟩ := hI.madeFrom k hv.stored
  have heq : x = ⟨k.id, tokenUrlsafe m.secret⟩ :=
    List.inj_on_of_nodup_map hI.issuedIds hx hmem hid
  refine ⟨m, ?_, hpre, hmem⟩
  rw [heq, hpre]
  exact splitApiKey_plaintextKey m

theorem authenticate_split {s : KeyStore} {keyPrefix secret : PyText}
    (hs : splitApiKey p = some (keyPrefix, secret)) :
    authenticate sha256 s now (some p) = authenticateSplit sha256 s now keyPrefix secret := by
  have hne : p ≠ [] := by
    rintro rfl
    cases hs
  unfold authenticate
  simp only [if_neg hne, hs]

theorem authenticate_unsplit {s : KeyStore} (hs : splitApiKey p = none) :
    authenticate sha256 s now (some p) = .error .invalidKey := by
  unfold authenticate
  simp only [hs]
  split <;> rfl

/-- The stored key the lookup and the verification single out. -/
def matchedKey (h : KeyHistory) (keyPrefix secret : PyText) : Option ApiKey :=
  (h.store.keys.select fun k => k.keyPrefix = keyPrefix).find? fun k =>
    ⟨k.id, secret⟩ ∈ h.issued

theorem matchedKey_spec {keyPrefix secret : PyText} {k : ApiKey}
    (h' : matchedKey h keyPrefix secret = some k) :
    k ∈ h.store.keys.rows ∧ k.keyPrefix = keyPrefix ∧ ⟨k.id, secret⟩ ∈ h.issued := by
  unfold matchedKey at h'
  have hmem := List.mem_filter.mp (List.mem_of_find?_eq_some h')
  have hshown := List.find?_some h'
  exact ⟨hmem.1, of_decide_eq_true hmem.2, of_decide_eq_true hshown⟩

/-- With distinct secrets it is the only key with that prefix and that secret. -/
theorem matchedKey_eq_some (hsecrets : (h.issued.map IssuedKey.secret).Nodup)
    {keyPrefix secret : PyText} {k : ApiKey} :
    matchedKey h keyPrefix secret = some k ↔
      k ∈ h.store.keys.rows ∧ k.keyPrefix = keyPrefix ∧ ⟨k.id, secret⟩ ∈ h.issued := by
  constructor
  · exact matchedKey_spec
  · rintro ⟨hk, hpre, hshown⟩
    cases hfind : matchedKey h keyPrefix secret with
    | none =>
      have hcandidate : k ∈ h.store.keys.select fun k => k.keyPrefix = keyPrefix :=
        List.mem_filter.mpr ⟨hk, decide_eq_true hpre⟩
      exact absurd (decide_eq_true hshown) (List.find?_eq_none.mp hfind k hcandidate)
    | some k' =>
      obtain ⟨hk', -, hshown'⟩ := matchedKey_spec hfind
      have heq := List.inj_on_of_nodup_map hsecrets hshown' hshown rfl
      rw [Table.key_inj _ hk' hk (congrArg IssuedKey.keyId heq)]

theorem authenticateSplit_eq (hI : Inv sha256 h) (hsha : Function.Injective sha256)
    {keyPrefix secret : PyText} (hlookup : (utf8Encode keyPrefix).isSome ∧ ¬keyPrefix.HasNul)
    (hencode : (∃ k ∈ h.store.keys.rows, k.keyPrefix = keyPrefix) →
      (utf8Encode secret).isSome) :
    authenticateSplit sha256 h.store now keyPrefix secret =
      acceptMatched h.store now (matchedKey h keyPrefix secret) := by
  have hverify : ∀ k ∈ h.store.keys.select fun k => k.keyPrefix = keyPrefix,
      verifySecret sha256 secret k.keyHash = .ok (decide (⟨k.id, secret⟩ ∈ h.issued)) := by
    intro k hk
    obtain ⟨hmem, hpre⟩ := List.mem_filter.mp hk
    exact hI.verify hsha hmem (hencode ⟨k, hmem, of_decide_eq_true hpre⟩)
  unfold authenticateSplit
  rw [getByPrefix_eq hlookup.1 hlookup.2]
  simp only [firstVerified_eq hverify]
  rfl

/-- Where the text can be presented, authentication is exact. -/
theorem authExact_of_presentable (hI : Inv sha256 h) (hsha : Function.Injective sha256)
    (hsecrets : (h.issued.map IssuedKey.secret).Nodup) (hp : Presentable h p) :
    AuthExact sha256 h now p := by
  cases hs : splitApiKey p with
  | none =>
    have hinvalid : ∀ tenant k, ¬ValidKey h now p tenant k := by
      intro tenant k hv
      obtain ⟨m, hsplit, -⟩ := hv.split hI
      rw [hs] at hsplit
      cases hsplit
    refine ⟨fun tenant => ⟨?_, ?_⟩, fun _ => authenticate_unsplit hs⟩
    · rintro ⟨k, hk⟩
      rw [authenticate_unsplit hs] at hk
      cases hk
    · rintro ⟨k, hv⟩
      exact absurd hv (hinvalid tenant k)
  | some parts =>
    obtain ⟨keyPrefix, secret⟩ := parts
    obtain ⟨hlookup, hencode⟩ := hp keyPrefix secret hs
    have hrun : authenticate sha256 h.store now (some p) =
        acceptMatched h.store now (matchedKey h keyPrefix secret) :=
      (authenticate_split hs).trans (authenticateSplit_eq hI hsha hlookup hencode)
    have haccepts : ∀ tenant k, authenticate sha256 h.store now (some p) = .ok ⟨tenant, k⟩ ↔
        ValidKey h now p tenant k := by
      intro tenant k
      rw [hrun, acceptMatched_ok, matchedKey_eq_some hsecrets]
      constructor
      · rintro ⟨⟨hk, hpre, hshown⟩, hvalid, howner, hlive⟩
        refine ⟨hk, ⟨_, hshown, rfl, ?_⟩, hvalid, howner, hlive⟩
        rw [hpre]
        exact eq_of_splitApiKey hs
      · intro hv
        obtain ⟨m, hsplit, -, hshown⟩ := hv.split hI
        rw [hs] at hsplit
        cases hsplit
        exact ⟨⟨hv.stored, rfl, hshown⟩, hv.valid, hv.owner, hv.live⟩
    refine ⟨fun tenant => exists_congr (haccepts tenant), fun hnone => ?_⟩
    rw [hrun]
    refine acceptMatched_error fun context hok => ?_
    rw [← hrun] at hok
    exact hnone context.tenant context.apiKey ((haccepts _ _).mp hok)

/-- Where it cannot, the lookup or the verification raises, and the text is no key. -/
theorem raises_of_not_presentable (now : ℤ) (hI : Inv sha256 h) (hp : ¬Presentable h p) :
    (∃ e, authenticate sha256 h.store now (some p) = .error (.raised e)) ∧
      ∀ tenant k, ¬ValidKey h now p tenant k := by
  unfold Presentable at hp
  push Not at hp
  obtain ⟨keyPrefix, secret, hs, hp⟩ := hp
  rw [authenticate_split hs]
  unfold authenticateSplit
  by_cases hlookup : (utf8Encode keyPrefix).isSome ∧ ¬keyPrefix.HasNul
  · obtain ⟨⟨k, hk, hpre⟩, hencode⟩ := hp hlookup
    have hnone : utf8Encode secret = none := by simpa using hencode
    have hcandidate : k ∈ h.store.keys.select fun k => k.keyPrefix = keyPrefix :=
      List.mem_filter.mpr ⟨hk, decide_eq_true hpre⟩
    rw [getByPrefix_eq hlookup.1 hlookup.2]
    constructor
    · cases hc : h.store.keys.select fun k => k.keyPrefix = keyPrefix with
      | nil =>
        rw [hc] at hcandidate
        cases hcandidate
      | cons k' ks =>
        have hk' : k' ∈ h.store.keys.select fun k => k.keyPrefix = keyPrefix :=
          hc ▸ List.mem_cons_self
        obtain ⟨m, -, hhash, -⟩ := hI.madeFrom k' (List.mem_filter.mp hk').1
        refine ⟨.unicodeEncode, ?_⟩
        simp only [firstVerified, hhash, verifySecret_eq, hnone]
    · intro tenant k hv
      obtain ⟨m, hsplit, -⟩ := hv.split hI
      rw [hs] at hsplit
      cases hsplit
      rw [utf8Encode_printable (tokenUrlsafe_printable _)] at hnone
      cases hnone
  · obtain ⟨e, he⟩ := getByPrefix_error (s := h.store) hlookup
    rw [he]
    refine ⟨⟨e, rfl⟩, fun tenant k hv => hlookup ?_⟩
    obtain ⟨m, hsplit, hpre, -⟩ := hv.split hI
    rw [hs] at hsplit
    cases hsplit
    have hprintable := tokenUrlsafe_printable m.keyPrefix
    rw [hpre, utf8Encode_printable hprintable]
    exact ⟨rfl, hprintable.not_hasNul⟩

/-- Authentication is exact for a presented text exactly when it is presentable, over every
store the service's calls reach with distinct secrets. -/
theorem authenticate_exact (hsha : Function.Injective sha256)
    (hr : Transition.Reachable (KeyHistory.step sha256) Init h)
    (hsecrets : (h.issued.map IssuedKey.secret).Nodup) (now : ℤ) (p : PyText) :
    AuthExact sha256 h now p ↔ Presentable h p := by
  have hI := Inv.of_reachable hr
  constructor
  · intro hexact
    by_contra hp
    obtain ⟨⟨e, he⟩, hnone⟩ := raises_of_not_presentable now hI hp
    have hinvalid := hexact.refuses hnone
    rw [he] at hinvalid
    cases hinvalid
  · intro hp
    exact authExact_of_presentable hI hsha hsecrets hp

/-- What the service shows its callers can be presented to any store. -/
theorem presentable_plaintextKey (h : KeyHistory) (m : KeyMaterial) :
    Presentable h m.plaintextKey := by
  intro keyPrefix secret hs
  rw [splitApiKey_plaintextKey] at hs
  cases hs
  have hpre := tokenUrlsafe_printable m.keyPrefix
  rw [utf8Encode_printable hpre, utf8Encode_printable (tokenUrlsafe_printable m.secret)]
  exact ⟨⟨rfl, hpre.not_hasNul⟩, fun _ => rfl⟩

def sampleOwner : Tenant := { id := 9, name := PyText.ofString "acme", createdAt := 0 }

def sampleGenerated (b : UInt8) : KeyStore.Generated := ⟨sampleMaterial b, b.toNat, 0⟩

/-- No key has been issued to the one tenant. -/
def sampleHistory : KeyHistory := { store := ⟨.singleton sampleOwner, .empty⟩ }

/-- A key is issued and rotated. -/
def sampleActions (expiresAt : Option ℤ) : List KeyAction :=
  [.issue (sampleGenerated 1) 9 {PyText.ofString "*"} expiresAt,
    .rotate (sampleGenerated 2) 50 1 9]

theorem authenticate_exact_sample : ∃ t,
    run sampleSha256 sampleHistory (sampleActions none) = some t ∧
      t.store.keys.rows.length = 2 ∧
      ∀ b, AuthExact sampleSha256 t 60 (sampleMaterial b).plaintextKey := by
  have hrun : (run sampleSha256 sampleHistory (sampleActions none)).map (fun t =>
      (t.store.keys.rows.length, t.issued.map IssuedKey.secret)) =
      some (2, [tokenUrlsafe (List.replicate 32 2), tokenUrlsafe (List.replicate 32 1)]) := by
    decide +kernel
  obtain ⟨t, ht, heq⟩ := Option.map_eq_some_iff.mp hrun
  obtain ⟨hlen, hissued⟩ := Prod.mk.inj heq
  have hsecrets : (t.issued.map IssuedKey.secret).Nodup := by
    rw [hissued]
    decide +kernel
  refine ⟨t, ht, hlen, fun b => ?_⟩
  exact (authenticate_exact sampleSha256_injective
    ⟨sampleHistory, sampleActions none, ⟨rfl, rfl, rfl⟩, ht⟩ hsecrets 60 _).mpr
    (presentable_plaintextKey t _)

/-- `"\x00.a"`: the lookup raises, and the caller does not get the 401. -/
theorem nul_prefix_not_refused : sampleHistory.Init ∧
    (∀ tenant k, ¬ValidKey sampleHistory 0 [0, 0x2e, 0x61] tenant k) ∧
    authenticate sampleSha256 sampleHistory.store 0 (some [0, 0x2e, 0x61]) =
      .error (.raised .database) ∧
    ¬AuthExact sampleSha256 sampleHistory 0 [0, 0x2e, 0x61] := by
  have hinit : sampleHistory.Init := ⟨rfl, rfl, rfl⟩
  have hnone : ∀ tenant k, ¬ValidKey sampleHistory 0 [0, 0x2e, 0x61] tenant k := by
    intro tenant k hv
    have hmem := hv.stored
    rw [show sampleHistory.store.keys.rows = [] from rfl] at hmem
    cases hmem
  have hraise : authenticate sampleSha256 sampleHistory.store 0 (some [0, 0x2e, 0x61]) =
      .error (.raised .database) := by
    decide +kernel
  refine ⟨hinit, hnone, hraise, fun hexact => ?_⟩
  have hinvalid := hexact.refuses hnone
  rw [hraise] at hinvalid
  cases hinvalid

end RelayWebhooks
