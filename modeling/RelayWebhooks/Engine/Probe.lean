import RelayWebhooks.Engine.Terminal

/-! The half-open probe. An opening of an endpoint's breaker is a commit that leaves the breaker
open; `openings` numbers them. The flip to half open takes the endpoint's row lock and keeps it
until the transaction ends, so a second probe of one opening waits. It is not told, when it gets
the lock, that the opening it read is over. -/
namespace RelayWebhooks

/-- The locals of an attempt that is past the flip and not over. -/
def AttemptPhase.afterFlip : AttemptPhase → Option AttemptLocals
  | sending x | responded x _ _ | outcomeLoaded x _ _ _ | outcomeWritten x _ _ _
  | deliveryLoaded x _ _ _ _ => some x
  | _ => none

/-- The phases an attempt that has sent a request can be in. -/
def AttemptPhase.mayHaveSent : AttemptPhase → Bool
  | responded .. | outcomeLoaded .. | outcomeWritten .. | deliveryLoaded .. | recorded
  | failed => true
  | _ => false

def AttemptPhase.isFailed : AttemptPhase → Bool
  | failed => true
  | _ => false

def AttemptPhase.aboutToSend : AttemptPhase → Option AttemptLocals
  | sending x => some x
  | _ => none

/-- Two requests of attempts that observed one opening of one endpoint. -/
def SendRecord.SameOpening (p q : SendRecord) : Prop :=
  p.endpointId = q.endpointId ∧
    ∃ o o', p.observed = some o ∧ q.observed = some o' ∧ o.opening = o'.opening

/-- An attempt that observed an opening sends no earlier than its cooldown allows. -/
def Observed.Cooled (cfg : EngineConfig) (o : Observed) (now : ℤ) : Prop :=
  ∀ t, o.openedAt = some t → t + cfg.settings.breakerCooldown ≤ now

/-- The attempt that takes the action. -/
def Action.actor : Action → Option ℕ
  | .readDelivery i _ | .readEndpoint i _ | .loadDeferral i _ | .commitDeferral i
  | .loadFlip i _ | .flip i | .send i _ | .loadOutcome i _ | .writeOutcome i | .loadDelivery i _
  | .commit i _ _ _ | .failAttempt i => some i
  | _ => none

/-- The attempt whose transaction the action ends. -/
def Action.ends : Action → Option ℕ
  | .commit i _ _ _ | .failAttempt i => some i
  | _ => none

namespace Engine
open DeliveryAttemptService

/-- The endpoint is committed open, and that is still its `k`th opening. -/
def Current (s : Engine) (e : UUID) (k : ℕ) : Prop :=
  s.openings e = k ∧ (s.db.endpoints.get e).any (·.breakerState = .opened) = true

instance (s : Engine) (e : UUID) (k : ℕ) : Decidable (s.Current e k) :=
  inferInstanceAs (Decidable (_ ∧ _))

/-- The condition on the state before a probe is sent: its endpoint is still committed open by
the opening the attempt read, and no attempt that sent a probe of that opening has failed. -/
def ProbeGuard (s : Engine) : Action → Prop
  | .send i _ =>
    ∀ x ∈ (s.attempts i).bind AttemptPhase.aboutToSend, ∀ o ∈ x.observed,
      s.Current x.endpoint.id o.opening ∧
        ∀ p ∈ s.sends, p.endpointId = x.endpoint.id →
          p.observed.map (·.opening) = some o.opening →
          (s.attempts p.attempt).any AttemptPhase.isFailed = false
  | _ => True

instance (s : Engine) : DecidablePred (ProbeGuard s)
  | .send _ _ => inferInstanceAs (Decidable (∀ x ∈ _, ∀ o ∈ _, _))
  | .readDelivery _ _ | .readEndpoint _ _ | .loadDeferral _ _ | .commitDeferral _
  | .loadFlip _ _ | .flip _ | .loadOutcome _ _ | .writeOutcome _ | .loadDelivery _ _
  | .commit _ _ _ _ | .failAttempt _ | .readReplay _ _ _ | .checkReplay _ | .loadReplay _ _
  | .commitReplay _ | .enqueueReplay _ | .interruptReplay _ => inferInstanceAs (Decidable True)

/-- A probe in hand: it was allowed to send, and it holds the row lock of its flip unless the
opening it observed is over. -/
def Probing (cfg : EngineConfig) (s : Engine) (i : ℕ) (x : AttemptLocals) : Prop :=
  ∀ o, x.observed = some o → o.Cooled cfg x.now ∧ o.opening ≤ s.openings x.endpoint.id ∧
    ((x.flip.state.isSome ∧ s.lock x.endpoint.id = some i) ∨
      ¬s.Current x.endpoint.id o.opening)

def PhaseInv (cfg : EngineConfig) (s : Engine) (i : ℕ) : AttemptPhase → Prop
  | .flipping x => x.endpoint.breakerState = .opened ∧ x.flip = {} ∧
      ∀ o, x.observed = some o → o.Cooled cfg x.now ∧ o.opening ≤ s.openings x.endpoint.id
  | .flipLoaded x row => ∀ o, x.observed = some o →
      o.Cooled cfg x.now ∧ o.opening ≤ s.openings x.endpoint.id ∧
        (row.breakerState = .opened ∨ ¬s.Current x.endpoint.id o.opening)
  | p => ∀ x, p.afterFlip = some x → Probing cfg s i x

/-- What became of a request that was sent: its attempt is still in flight, has failed, or has
ended the opening it observed. -/
def RecordInv (cfg : EngineConfig) (s : Engine) (r : SendRecord) : Prop :=
  ∃ p, s.attempts r.attempt = some p ∧ p.mayHaveSent = true ∧
    ∀ o, r.observed = some o → o.Cooled cfg r.now ∧ o.opening ≤ s.openings r.endpointId ∧
      (¬s.Current r.endpointId o.opening ∨ p.isFailed = true ∨
        ∃ x, p.afterFlip = some x ∧ x.endpoint.id = r.endpointId ∧ x.observed = some o)

structure ProbeInv (cfg : EngineConfig) (s : Engine) : Prop where
  phases : ∀ i p, s.attempts i = some p → PhaseInv cfg s i p
  records : ∀ r ∈ s.sends, RecordInv cfg s r

variable {cfg : EngineConfig} {s t : Engine} {a : Action}

theorem lockFor_lock_ne {i j : ℕ} {e e' : UUID} {p : BreakerPatch}
    (hw : s.CanWrite j e' p) (hij : i ≠ j) (h : s.lock e = some i) :
    (s.lockFor j e' p).lock e = some i := by
  unfold lockFor
  split
  next => exact h
  next hp =>
    by_cases he : e = e'
    · subst he
      rcases hw with hw | hw | hw
      · exact absurd hw hp
      · rw [h] at hw
        cases hw
      · rw [h] at hw
        exact absurd (Option.some.inj hw) hij
    · simpa [Function.update_of_ne he] using h

theorem lockFor_lock_self {i : ℕ} {e : UUID} {p : BreakerPatch} (hp : ¬p.IsEmpty) :
    (s.lockFor i e p).lock e = some i := by
  simp [lockFor, hp]

@[simp] theorem lockFor_attempts (s : Engine) (i : ℕ) (e : UUID) (p : BreakerPatch) :
    (s.lockFor i e p).attempts = s.attempts := by
  unfold lockFor
  split <;> rfl

@[simp] theorem lockFor_db (s : Engine) (i : ℕ) (e : UUID) (p : BreakerPatch) :
    (s.lockFor i e p).db = s.db := by
  unfold lockFor
  split <;> rfl

@[simp] theorem lockFor_openings (s : Engine) (i : ℕ) (e : UUID) (p : BreakerPatch) :
    (s.lockFor i e p).openings = s.openings := by
  unfold lockFor
  split <;> rfl

@[simp] theorem lockFor_sends (s : Engine) (i : ℕ) (e : UUID) (p : BreakerPatch) :
    (s.lockFor i e p).sends = s.sends := by
  unfold lockFor
  split <;> rfl

theorem unlock_lock_ne {i j : ℕ} {e : UUID} (hij : i ≠ j) (h : s.lock e = some i) :
    (s.unlock j).lock e = some i := by
  simp [unlock, h, hij]

/-- An attempt that does not act keeps its phase. -/
theorem step_attempts (h : step cfg s a = some t) {i : ℕ} (hi : a.actor ≠ some i) :
    t.attempts i = s.attempts i := by
  cases steps_of_step h with
  | readReplay | readReplayMissing | checkReplay | loadReplay | commitReplay | enqueueReplay
  | interruptCommitted | interruptReplay => rfl
  | flip | writeOutcome =>
    have hne : i ≠ _ := fun hj => hi (congrArg some hj.symm)
    rw [setAttempt_ne _ _ hne, lockFor_attempts]
  | _ =>
    have hne : i ≠ _ := fun hj => hi (congrArg some hj.symm)
    exact setAttempt_ne _ _ hne

/-- Row locks are given back at the end of the transaction only. -/
theorem step_lock (h : step cfg s a = some t) {i : ℕ} (hi : a.ends ≠ some i) {e : UUID}
    (he : s.lock e = some i) : t.lock e = some i := by
  cases steps_of_step h with
  | @flip j x _ _ _ hw | @writeOutcome j x _ _ _ _ hw =>
    by_cases hij : i = j
    · subst hij
      simp only [setAttempt, lockFor]
      split
      next => exact he
      next => simp [Function.update_apply, he]
    · exact lockFor_lock_ne hw hij he
  | commit | failAttempt =>
    have hne : i ≠ _ := fun hj => hi (congrArg some hj.symm)
    exact unlock_lock_ne hne he
  | _ => exact he

theorem current_iff {e : UUID} {k : ℕ} {row : Endpoint} (h : s.db.endpoints.get e = some row) :
    s.Current e k ↔ s.openings e = k ∧ row.breakerState = .opened := by
  simp [Current, h]

section Commit

variable {id : UUID} {e : Endpoint} {p : BreakerPatch}

/-- The commit that counts the opening it publishes. -/
structure Publishes (s t : Engine) (id : UUID) (e : Endpoint) (p : BreakerPatch) : Prop where
  row : s.db.endpoints.get id = some e
  endpoints : t.db.endpoints = s.db.endpoints.update (p.view e)
  openings : t.openings =
    if opens p e then Function.update s.openings id (s.openings id + 1) else s.openings

theorem Publishes.key (h : Publishes s t id e p) : (p.view e).id = id :=
  show e.id = id from Table.key_of_get h.row

theorem Publishes.get_self (h : Publishes s t id e p) :
    t.db.endpoints.get id = some (p.view e) := by
  rw [h.endpoints]
  exact Table.get_update_of_get h.key h.row

theorem Publishes.get_ne (h : Publishes s t id e p) {id' : UUID} (hne : id' ≠ id) :
    t.db.endpoints.get id' = s.db.endpoints.get id' ∧ t.openings id' = s.openings id' := by
  constructor
  · rw [h.endpoints, Table.get_update_ne _ (by rw [Endpoint.key_eq, h.key]; exact hne)]
  · rw [h.openings]
    split
    · exact Function.update_of_ne hne _ _
    · rfl

theorem Publishes.openings_le (h : Publishes s t id e p) (id' : UUID) :
    s.openings id' ≤ t.openings id' := by
  by_cases hid : id' = id
  · subst hid
    rw [h.openings]
    split
    · rw [Function.update_self]
      omega
    · exact le_refl _
  · exact (h.get_ne hid).2.ge

/-- A commit never revives an opening: where it leaves the breaker open by writing it, it counts
a new one. -/
theorem Publishes.current_of (h : Publishes s t id e p) {k : ℕ} (hk : k ≤ s.openings id)
    (hc : t.Current id k) : s.Current id k ∧ p.state = none := by
  rw [current_iff h.get_self, h.openings] at hc
  obtain ⟨hopen, hstate⟩ := hc
  have hno : opens p e = false := by
    by_contra hyes
    rw [if_pos (by simpa using hyes), Function.update_self] at hopen
    omega
  rw [hno] at hopen
  have happ : (p.apply e.breaker).state = .opened := hstate
  have hnone : p.state = none := by
    simp only [opens, happ, decide_true, Bool.and_true, Bool.or_eq_false_iff] at hno
    simpa using hno.1
  have hrow : e.breaker.state = .opened := by simpa [BreakerPatch.apply, hnone] using happ
  exact ⟨(current_iff h.row).mpr ⟨hopen, hrow⟩, hnone⟩

end Commit

/-- Only a commit of an outcome changes endpoints and openings. -/
theorem step_endpoints (h : step cfg s a = some t) :
    (t.openings = s.openings ∧ t.db.endpoints = s.db.endpoints) ∨
      ∃ i draw rowId rowCreatedAt x request result row loaded e,
        a = .commit i draw rowId rowCreatedAt ∧
        s.attempts i = some (.deliveryLoaded x request result row loaded) ∧
        Publishes s t x.endpoint.id e (attemptPatch cfg x result row) := by
  cases steps_of_step h with
  | @commit i draw rowId rowCreatedAt x request result row e loaded _ _ _ _ hi _ he =>
    exact .inr ⟨i, draw, rowId, rowCreatedAt, x, request, result, row, loaded, e, rfl, hi,
      he, rfl, rfl⟩
  | flip | writeOutcome => exact .inl ⟨lockFor_openings _ _ _ _, by simp [setAttempt]⟩
  | _ => exact .inl ⟨rfl, rfl⟩

theorem step_openings_le (h : step cfg s a = some t) (e : UUID) :
    s.openings e ≤ t.openings e := by
  rcases step_endpoints h with ⟨ho, -⟩ | ⟨_, _, _, _, _, _, _, _, _, _, -, -, hp⟩
  · exact (congrFun ho e).ge
  · exact hp.openings_le e

/-- An opening that is over stays over. -/
theorem step_not_current (h : step cfg s a = some t) {e : UUID} {k : ℕ} (hk : k ≤ s.openings e)
    (hc : ¬s.Current e k) : ¬t.Current e k := by
  rcases step_endpoints h with ⟨ho, he⟩ | ⟨_, _, _, _, x, _, _, _, _, _, -, -, hp⟩
  · rwa [Current, ho, he]
  · intro ht
    by_cases hid : e = x.endpoint.id
    · subst hid
      exact hc (hp.current_of hk ht).1
    · obtain ⟨hget, hopen⟩ := hp.get_ne hid
      rw [Current, hget, hopen] at ht
      exact hc ht

theorem phaseInv_iff {i : ℕ} {p : AttemptPhase} {x : AttemptLocals} (h : p.afterFlip = some x) :
    PhaseInv cfg s i p ↔ Probing cfg s i x := by
  cases p <;> simp_all [PhaseInv, AttemptPhase.afterFlip]

theorem Probing.step {i : ℕ} {x : AttemptLocals} (hx : Probing cfg s i x)
    (h : step cfg s a = some t) (hi : a.ends ≠ some i) : Probing cfg t i x := by
  intro o ho
  obtain ⟨hcool, hle, hheld⟩ := hx o ho
  refine ⟨hcool, hle.trans (step_openings_le h _), ?_⟩
  rcases hheld with ⟨hf, hl⟩ | hc
  · exact .inl ⟨hf, step_lock h hi hl⟩
  · exact .inr (step_not_current h hle hc)

theorem PhaseInv.step {i : ℕ} {p : AttemptPhase} (hp : PhaseInv cfg s i p)
    (h : step cfg s a = some t) (hi : a.ends ≠ some i) : PhaseInv cfg t i p := by
  cases p with
  | flipping x =>
    obtain ⟨hopen, hflip, hx⟩ := hp
    refine ⟨hopen, hflip, fun o ho => ?_⟩
    exact ⟨(hx o ho).1, (hx o ho).2.trans (step_openings_le h _)⟩
  | flipLoaded x row =>
    intro o ho
    obtain ⟨hcool, hle, hrow⟩ := hp o ho
    refine ⟨hcool, hle.trans (step_openings_le h _), ?_⟩
    exact hrow.imp_right (step_not_current h hle)
  | sending x | responded x | outcomeLoaded x | outcomeWritten x | deliveryLoaded x =>
    rw [phaseInv_iff rfl] at hp ⊢
    exact hp.step h hi
  | deliveryRead | deferring | deferLoaded | deferred | recorded | failed =>
    simp [PhaseInv, AttemptPhase.afterFlip]

theorem phaseInv_afterReadEndpoint (s : Engine) (i : ℕ) (d : Delivery) (now : ℤ) :
    PhaseInv cfg s i (s.afterReadEndpoint cfg d now) := by
  unfold afterReadEndpoint
  split
  next event endpoint _ _ =>
    dsimp only
    split
    next => simp [PhaseInv, AttemptPhase.afterFlip]
    next hdefer =>
      split
      next hopen =>
        refine ⟨hopen, rfl, fun o ho => ?_⟩
        simp only [Option.some.injEq] at ho
        subst ho
        have hskip := deferral_eq_none.mp hdefer
        rw [Allows, hopen] at hskip
        exact ⟨fun t ht => cooled_of_not_skip hskip ht, le_refl _⟩
      next => simp [PhaseInv, AttemptPhase.afterFlip, Probing]
  next => simp [PhaseInv, AttemptPhase.afterFlip]

/-- The load before the flip finds the breaker open, or finds the opening over. -/
theorem phaseInv_flipLoaded {i : ℕ} {x : AttemptLocals} {cached : Bool} {row : Endpoint}
    (hx : PhaseInv cfg s i (.flipping x)) (hrow : s.loadEndpointRow x cached = some row) :
    PhaseInv cfg s i (.flipLoaded x row) := by
  obtain ⟨hopen, hflip, hseen⟩ := hx
  intro o ho
  refine ⟨(hseen o ho).1, (hseen o ho).2, ?_⟩
  unfold loadEndpointRow at hrow
  split at hrow
  next =>
    cases hrow
    exact .inl hopen
  next =>
    rw [hflip] at hrow
    obtain ⟨e, he, rfl⟩ := Option.map_eq_some_iff.mp hrow
    by_cases hs : e.breakerState = .opened
    · exact .inl hs
    · exact .inr fun hc => hs ((current_iff he).mp hc).2

/-- A flip of a row loaded open sets the state, so it takes the row lock. -/
theorem flipPatch_state {x : AttemptLocals} {row : Endpoint} (h : row.breakerState = .opened) :
    (flipPatch x row).state = some .halfOpen := by
  simp [flipPatch, BreakerPatch.diff, changed, Endpoint.breaker, h]

theorem attemptPatch_state_isSome {x : AttemptLocals} {result : OutboundHttpResult}
    {row : Endpoint} (h : x.flip.state.isSome) : (attemptPatch cfg x result row).state ≠ none := by
  simp only [attemptPatch, BreakerPatch.andThen, ne_eq, Option.or_eq_none_iff, not_and]
  intro _ hn
  simp [hn] at h

/-- Every phase an action leads to keeps the invariant. -/
theorem phases_step (hI : ∀ i p, s.attempts i = some p → PhaseInv cfg s i p)
    (h : step cfg s a = some t) (i : ℕ) (p : AttemptPhase) (hp : t.attempts i = some p) :
    PhaseInv cfg t i p := by
  by_cases hi : a.actor = some i
  · cases steps_of_step h with
    | readReplay | readReplayMissing | checkReplay | loadReplay | commitReplay | enqueueReplay
    | interruptCommitted | interruptReplay => cases hi
    | readDelivery hs =>
      obtain rfl := Option.some.inj hi
      obtain rfl := Option.some.inj (hp.symm.trans (Function.update_self ..))
      unfold afterReadDelivery
      split <;> simp [PhaseInv, AttemptPhase.afterFlip]
    | readEndpoint hs =>
      obtain rfl := Option.some.inj hi
      obtain rfl := Option.some.inj (hp.symm.trans (Function.update_self ..))
      exact (phaseInv_afterReadEndpoint s _ _ _).step h (by simp [Action.ends])
    | loadFlip hs hrow =>
      obtain rfl := Option.some.inj hi
      obtain rfl := Option.some.inj (hp.symm.trans (Function.update_self ..))
      exact (phaseInv_flipLoaded (hI _ _ hs) hrow).step h (by simp [Action.ends])
    | @flip _ x row e hs hw he =>
      obtain rfl := Option.some.inj hi
      obtain rfl := Option.some.inj (hp.symm.trans (Function.update_self ..))
      rw [phaseInv_iff rfl]
      intro o ho
      obtain ⟨hcool, hle, hrow⟩ := hI _ _ hs o ho
      have heid : e.id = x.endpoint.id := Table.key_of_get he
      refine ⟨hcool, ?_, ?_⟩
      · simpa [setAttempt, heid] using hle
      · rcases hrow with hopen | hc
        · have hst := flipPatch_state (x := x) hopen
          refine .inl ⟨by simp [hst], ?_⟩
          have hne : ¬(flipPatch x row).IsEmpty := by
            intro hempty
            rw [BreakerPatch.IsEmpty] at hempty
            rw [hempty] at hst
            cases hst
          simpa [setAttempt, heid] using lockFor_lock_self hne
        · right
          simpa [Current, setAttempt, heid] using hc
    | send hs =>
      obtain rfl := Option.some.inj hi
      obtain rfl := Option.some.inj (hp.symm.trans (Function.update_self ..))
      have hx := (phaseInv_iff rfl).mp (hI _ _ hs)
      exact (phaseInv_iff rfl).mpr (hx.step h (by simp [Action.ends]))
    | loadOutcome hs | writeOutcome hs | loadDelivery hs =>
      obtain rfl := Option.some.inj hi
      obtain rfl := Option.some.inj (hp.symm.trans (Function.update_self ..))
      have hx := (phaseInv_iff rfl).mp (hI _ _ hs)
      exact (phaseInv_iff rfl).mpr (hx.step h (by simp [Action.ends]))
    | loadDeferral | commitDeferral | commit | failAttempt =>
      obtain rfl := Option.some.inj hi
      obtain rfl := Option.some.inj (hp.symm.trans (Function.update_self ..))
      simp [PhaseInv, AttemptPhase.afterFlip]
  · rw [step_attempts h hi] at hp
    refine (hI i p hp).step h fun he => hi ?_
    cases a <;> simp_all [Action.ends, Action.actor]

/-- An attempt that may have sent stays one: it goes on with the same locals, fails, or
commits. -/
theorem sent_step (h : step cfg s a = some t) {j : ℕ} {p : AttemptPhase}
    (hj : s.attempts j = some p) (hp : p.mayHaveSent = true) :
    ∃ p', t.attempts j = some p' ∧ p'.mayHaveSent = true ∧
      (p'.isFailed = true ∨ (p'.afterFlip = p.afterFlip ∧ p'.isFailed = p.isFailed) ∨
        ∃ x request result row loaded e, p = .deliveryLoaded x request result row loaded ∧
          Publishes s t x.endpoint.id e (attemptPatch cfg x result row)) := by
  by_cases hact : a.actor = some j
  · cases steps_of_step h with
    | readReplay | readReplayMissing | checkReplay | loadReplay | commitReplay | enqueueReplay
    | interruptCommitted | interruptReplay => cases hact
    | readDelivery hs =>
      obtain rfl := Option.some.inj hact
      rw [hs] at hj
      cases hj
    | readEndpoint hs | loadDeferral hs | commitDeferral hs | loadFlip hs | flip hs | send hs =>
      obtain rfl := Option.some.inj hact
      obtain rfl := Option.some.inj (hs.symm.trans hj)
      cases hp
    | loadOutcome hs | writeOutcome hs | loadDelivery hs =>
      obtain rfl := Option.some.inj hact
      obtain rfl := Option.some.inj (hs.symm.trans hj)
      exact ⟨_, Function.update_self .., rfl, .inr (.inl ⟨rfl, rfl⟩)⟩
    | commit hs _ he =>
      obtain rfl := Option.some.inj hact
      obtain rfl := Option.some.inj (hs.symm.trans hj)
      exact ⟨_, Function.update_self .., rfl,
        .inr (.inr ⟨_, _, _, _, _, _, rfl, he, rfl, rfl⟩)⟩
    | failAttempt =>
      obtain rfl := Option.some.inj hact
      exact ⟨_, Function.update_self .., rfl, .inl rfl⟩
  · exact ⟨p, by rw [step_attempts h hact, hj], hp, .inr (.inl ⟨rfl, rfl⟩)⟩

/-- The record of a request goes on being accounted for. -/
theorem RecordInv.step (hI : ∀ i p, s.attempts i = some p → PhaseInv cfg s i p) {r : SendRecord}
    (hr : RecordInv cfg s r) (h : step cfg s a = some t) : RecordInv cfg t r := by
  obtain ⟨p, hp, hsent, hobs⟩ := hr
  obtain ⟨p', hp', hsent', hcase⟩ := sent_step h hp hsent
  refine ⟨p', hp', hsent', fun o ho => ?_⟩
  obtain ⟨hcool, hle, hfate⟩ := hobs o ho
  refine ⟨hcool, hle.trans (step_openings_le h _), ?_⟩
  rcases hcase with hf | ⟨hx, hf⟩ | ⟨x, request, result, row, loaded, e, rfl, hpub⟩
  · exact .inr (.inl hf)
  · rw [hx, hf]
    exact hfate.imp_left (step_not_current h hle)
  · left
    rcases hfate with hc | hf | ⟨x', hx', hxe, hxo⟩
    · exact step_not_current h hle hc
    · cases hf
    · cases hx'
      rw [← hxe] at hle ⊢
      obtain ⟨-, -, hheld⟩ := (phaseInv_iff rfl).mp (hI _ _ hp) o hxo
      rcases hheld with ⟨hflip, -⟩ | hc
      · exact fun ht => attemptPatch_state_isSome hflip (hpub.current_of hle ht).2
      · exact step_not_current h hle hc

/-- The requests sent so far are accounted for, one more at a send. -/
theorem sends_step (h : step cfg s a = some t) :
    t.sends = s.sends ∨ ∃ i x result, a = .send i result ∧ s.attempts i = some (.sending x) ∧
      (∃ request, t.attempts i = some (.responded x request result)) ∧
      t.sends = s.sends ++ [⟨i, x.endpoint.id, x.observed, x.now⟩] := by
  cases steps_of_step h with
  | @send i result x request hs =>
    exact .inr ⟨i, x, result, rfl, hs, ⟨request, Function.update_self ..⟩, rfl⟩
  | flip | writeOutcome => exact .inl (lockFor_sends _ _ _ _)
  | _ => exact .inl rfl

theorem ProbeInv.step (hI : ProbeInv cfg s) (h : step cfg s a = some t) : ProbeInv cfg t := by
  refine ⟨phases_step hI.phases h, ?_⟩
  rcases sends_step h with hsame | ⟨i, x, result, rfl, hs, ⟨request, hresp⟩, hsends⟩
  · rw [hsame]
    exact fun r hr => (hI.records r hr).step hI.phases h
  · rw [hsends]
    intro r hr
    rcases List.mem_append.mp hr with hr | hr
    · exact (hI.records r hr).step hI.phases h
    · obtain rfl := List.mem_singleton.mp hr
      refine ⟨_, hresp, rfl, fun o ho => ?_⟩
      obtain ⟨hcool, hle, -⟩ := (phaseInv_iff rfl).mp (hI.phases _ _ hs) o ho
      exact ⟨hcool, hle.trans (step_openings_le h _), .inr (.inr ⟨x, rfl, rfl, ho⟩)⟩

theorem probeInv_init (db : Db) (stream : DeliveryStream) : ProbeInv cfg (init db stream) :=
  ⟨fun _ _ h => by simp [init] at h, fun _ h => by simp [init] at h⟩

/-- Under the guard, the request of a send is the first of its opening: an earlier one in flight
would hold the row lock this attempt holds. -/
theorem pairwise_step (hI : ProbeInv cfg s) (h : step cfg s a = some t) (hg : ProbeGuard s a)
    (hpair : s.sends.Pairwise fun p q => ¬p.SameOpening q) :
    t.sends.Pairwise fun p q => ¬p.SameOpening q := by
  rcases sends_step h with hsame | ⟨i, x, result, rfl, hs, -, hsends⟩
  · rwa [hsame]
  · rw [hsends, List.pairwise_append]
    refine ⟨hpair, List.pairwise_singleton _ _, fun r hr q hq => ?_⟩
    obtain rfl := List.mem_singleton.mp hq
    rintro ⟨hend, o, o', ho, ho', hk⟩
    dsimp only at hend ho'
    have hsending : x ∈ (s.attempts i).bind AttemptPhase.aboutToSend := by
      rw [hs]
      rfl
    obtain ⟨hcur, hfailed⟩ := hg x hsending o' ho'
    obtain ⟨p, hp, hsent, hobs⟩ := hI.records r hr
    obtain ⟨-, -, hfate⟩ := hobs o ho
    have hnf := hfailed r hr hend (by simp [ho, hk])
    rcases hfate with hc | hf | ⟨y, hy, hye, hyo⟩
    · rw [hend, hk] at hc
      exact hc hcur
    · rw [hp, Option.any_some, hf] at hnf
      cases hnf
    · have hi := (phaseInv_iff rfl).mp (hI.phases _ _ hs) o' ho'
      have hj := (phaseInv_iff hy).mp (hI.phases _ _ hp) o hyo
      rw [hye, hend, hk] at hj
      have hli := (hi.2.2.resolve_right (fun hc => hc hcur)).2
      have hlj := (hj.2.2.resolve_right (fun hc => hc hcur)).2
      obtain rfl := Option.some.inj (hli.symm.trans hlj)
      obtain rfl := Option.some.inj (hs.symm.trans hp)
      cases hsent

/-- In every run whose probes are sent under the guard, at most one of the attempts that observed
an opening sends a request; and no request of a probe, in any run, is early. -/
theorem one_probe_per_opening (cfg : EngineConfig) (db : Db) (stream : DeliveryStream)
    (as : List Action) (t : Engine)
    (ht : Transition.run (step cfg) (init db stream) as = some t) :
    (Transition.Always (step cfg) (fun s a _ => ProbeGuard s a) (init db stream) as →
      t.sends.Pairwise fun p q => ¬p.SameOpening q) ∧
    ∀ r ∈ t.sends, ∀ o, r.observed = some o → o.Cooled cfg r.now := by
  constructor
  · intro hg
    refine (Transition.Always.invariant
      (I := fun s => ProbeInv cfg s ∧ s.sends.Pairwise fun p q => ¬p.SameOpening q)
      (fun s a t hI hR hst => ⟨hI.1.step hst, pairwise_step hI.1 hst hR hI.2⟩)
      ⟨probeInv_init db stream, List.Pairwise.nil⟩ hg ht).2
  · have hI := Transition.run_invariant (I := ProbeInv cfg) (fun s a t hI hst => hI.step hst)
      (probeInv_init db stream) ht
    intro r hr o ho
    obtain ⟨p, -, -, hobs⟩ := hI.records r hr
    exact (hobs o ho).1

/-- A delivery to an endpoint whose breaker opened at time zero. -/
def openDb : Db :=
  .single sampleEvent
    { sampleEndpoint with breakerState := .opened, openedAt := some 0, consecutiveFailures := 5 }
    sampleDelivery

/-- The actions of one probe that meets no other execution. -/
def soloProbe (i : ℕ) (id : UUID) (now : ℤ) (result : OutboundHttpResult) (rowId : UUID) :
    List Action :=
  [.readDelivery i id, .readEndpoint i now, .loadFlip i false, .flip i, .send i result,
    .loadOutcome i false, .writeOutcome i, .loadDelivery i false, .commit i 0 rowId now]

/-- A failed probe reopens the breaker; the next one, after a second cooldown, is of the new
opening. -/
def successiveProbes : List Action :=
  soloProbe 0 3 100000000 { latencyMs := 5, errorClass := some .timeout } 4 ++
    soloProbe 1 3 200000000 { latencyMs := 5, statusCode := some 200 } 5

theorem one_probe_per_opening_sample :
    ∃ t, Transition.run (step sampleConfig) (init openDb .empty) successiveProbes = some t ∧
      t.sends.length = 2 ∧ t.sends.Pairwise fun p q => ¬p.SameOpening q := by
  have hrun : (Transition.run (step sampleConfig) (init openDb .empty) successiveProbes).map
      (·.sends.length) = some 2 := by decide +kernel
  obtain ⟨t, ht, hlen⟩ := Option.map_eq_some_iff.mp hrun
  exact ⟨t, ht, hlen, (one_probe_per_opening sampleConfig openDb .empty successiveProbes t ht).1
    (by decide +kernel)⟩

/-- Two attempts read the open breaker before either flips it. The second flip waits for the first
probe's commit, and its attempt then sends a probe of the same opening. -/
def racingProbes : List Action :=
  [.readDelivery 0 3, .readDelivery 1 3, .readEndpoint 0 100000000, .readEndpoint 1 100000000,
    .loadFlip 0 false, .loadFlip 1 false, .flip 0,
    .send 0 { latencyMs := 5, statusCode := some 200 }, .loadOutcome 0 false, .writeOutcome 0,
    .loadDelivery 0 false, .commit 0 0 4 100000000,
    .flip 1, .send 1 { latencyMs := 5, statusCode := some 200 }]

theorem racing_probes_both_send :
    ∃ t p q, Transition.run (step sampleConfig) (init openDb .empty) racingProbes = some t ∧
      t.sends = [p, q] ∧ p.attempt = 0 ∧ q.attempt = 1 ∧ p.SameOpening q := by
  have hrun : (Transition.run (step sampleConfig) (init openDb .empty) racingProbes).map
      (·.sends) = some [⟨0, 2, some ⟨0, some 0⟩, 100000000⟩,
        ⟨1, 2, some ⟨0, some 0⟩, 100000000⟩] := by decide +kernel
  obtain ⟨t, ht, hsends⟩ := Option.map_eq_some_iff.mp hrun
  exact ⟨t, _, _, ht, hsends, rfl, rfl, rfl, _, _, rfl, rfl, rfl⟩

end Engine

end RelayWebhooks
