import RelayWebhooks.Engine.Steps

/-! Terminal delivery states under concurrent, repeated and deferred attempts. No writer looks
at the state it overwrites, so a terminal state survives exactly as long as no commit writes
another state over it. -/
namespace RelayWebhooks

/-- A write leaves the committed state as it is: the flush does not set the state column, or
sets it to the same value. -/
theorem DeliveryPatch.ofWrite_state_eq_iff {w : DeliveryWrite} {loaded d : Delivery} :
    ((ofWrite w loaded).apply d).state = d.state ↔ w.state = loaded.state ∨ w.state = d.state := by
  rw [ofWrite_state]
  split
  next h => simp [h]
  next h => simp [h]

namespace Engine
open DeliveryAttemptService

/-- The action is the commit of a replay of the delivery. -/
def IsReplayOf (s : Engine) (a : Action) (id : UUID) : Prop :=
  ∃ j d row, a = .commitReplay j ∧ s.replays j = some (.loaded d row) ∧ d.id = id

/-- A delivered delivery stays delivered, and a dead one leaves that state only by a replay. -/
def TerminalKept (s : Engine) (a : Action) (t : Engine) : Prop :=
  ∀ id d, s.db.deliveries.get id = some d →
    (d.state = .delivered → ∃ d', t.db.deliveries.get id = some d' ∧ d'.state = .delivered) ∧
    (d.state = .dead →
      (∃ d', t.db.deliveries.get id = some d' ∧ d'.state = .dead) ∨ IsReplayOf s a id)

/-- What the attempt has to record is the state of the row already, or the state in which its
session loaded the row: a success is of a delivered row, a last failure of a dead one. -/
def RecordsNothingNew (settings : Settings) (attemptCount : ℕ) (result : OutboundHttpResult)
    (loaded current : DeliveryState) : Prop :=
  if result.succeeded then loaded = .delivered ∨ current = .delivered
  else if settings.deliveryMaxAttempts ≤ attemptCount + 1 then loaded = .dead ∨ current = .dead
  else loaded = .retrying

/-- The condition on the state before a commit. An attempt records on a delivered row only a
success and on a dead row only an exhausted failure, a deferral finds no terminal row, a replay
finds no delivered row; save where the writer loaded a row that had the state it writes, so that
its flush leaves the state column out. -/
def TerminalGuard (cfg : EngineConfig) (s : Engine) : Action → Prop
  | .commitDeferral i => ∀ x t loaded d, s.attempts i = some (.deferLoaded x t loaded) →
      s.db.deliveries.get x.delivery.id = some d → d.state.Terminal →
      loaded.state = .retrying
  | .commit i _ _ _ => ∀ x request result row loaded d,
      s.attempts i = some (.deliveryLoaded x request result row loaded) →
      s.db.deliveries.get x.delivery.id = some d → d.state.Terminal →
      RecordsNothingNew cfg.settings x.delivery.attemptCount result loaded.state d.state
  | .commitReplay j => ∀ d row c, s.replays j = some (.loaded d row) →
      s.db.deliveries.get d.id = some c → c.state = .delivered → row.state = .pending
  | _ => True

variable {cfg : EngineConfig} {s t : Engine} {a : Action}

theorem recordsNothingNew_iff {settings : Settings} {n : ℕ} {result : OutboundHttpResult}
    {loaded current : DeliveryState} (hterm : current.Terminal) :
    RecordsNothingNew settings n result loaded current ↔
      outcomeState settings n result = loaded ∨ outcomeState settings n result = current := by
  have hretrying : current ≠ .retrying := by rcases hterm with h | h <;> simp [h]
  unfold RecordsNothingNew outcomeState
  split
  next => simp [eq_comm]
  next =>
    split
    next => simp [eq_comm]
    next => simp [eq_comm, hretrying]

theorem terminalKept_of_deliveries (h : t.db.deliveries = s.db.deliveries) :
    TerminalKept s a t := by
  intro id d hd
  rw [h]
  exact ⟨fun hs => ⟨d, hd, hs⟩, fun hs => .inl ⟨d, hd, hs⟩⟩

/-- Only the state of the row that is written matters. -/
theorem terminalKept_update {d r : Delivery} (hd : s.db.deliveries.get r.id = some d)
    (ht : t.db.deliveries = s.db.deliveries.update r) :
    TerminalKept s a t ↔
      (d.state = .delivered → r.state = .delivered) ∧
        (d.state = .dead → r.state = .dead ∨ IsReplayOf s a r.id) := by
  have hself : t.db.deliveries.get r.id = some r := by
    rw [ht]
    exact Table.get_update_self hd
  constructor
  · intro h
    obtain ⟨h₁, h₂⟩ := h r.id d hd
    rw [hself] at h₁ h₂
    simpa using And.intro h₁ h₂
  · rintro ⟨h₁, h₂⟩ id d' hd'
    by_cases hid : id = r.id
    · subst hid
      obtain rfl : d = d' := Option.some.inj (hd.symm.trans hd')
      rw [hself]
      simpa using And.intro h₁ h₂
    · have hget : t.db.deliveries.get id = some d' := by
        rw [ht, Table.get_update_ne _ hid, hd']
      exact ⟨fun hs => ⟨d', hget, hs⟩, fun hs => .inl ⟨d', hget, hs⟩⟩

/-- The write of an attempt keeps a terminal row exactly when it leaves its state. -/
private theorem kept_attempt_iff {w : DeliveryWrite} {loaded d r : Delivery}
    (hr : r = (DeliveryPatch.ofWrite w loaded).apply d) (ha : ∀ id, ¬IsReplayOf s a id) :
    ((d.state = .delivered → r.state = .delivered) ∧
        (d.state = .dead → r.state = .dead ∨ IsReplayOf s a r.id)) ↔
      (d.state.Terminal → w.state = loaded.state ∨ w.state = d.state) := by
  subst hr
  rw [← DeliveryPatch.ofWrite_state_eq_iff]
  simp only [ha, or_false, DeliveryState.Terminal]
  constructor
  · rintro ⟨h₁, h₂⟩ (h | h)
    · rw [h, h₁ h]
    · rw [h, h₂ h]
  · intro h
    exact ⟨fun hd => (h (.inl hd)).trans hd, fun hd => (h (.inr hd)).trans hd⟩

private theorem not_isReplayOf (h : ∀ j, a ≠ .commitReplay j) (id : UUID) :
    ¬IsReplayOf s a id := by
  rintro ⟨j, _, _, rfl, -⟩
  exact h j rfl

/-- What one step does to the terminal states is decided by its guard. -/
theorem terminalKept_iff_guard (h : step cfg s a = some t) :
    TerminalKept s a t ↔ TerminalGuard cfg s a := by
  cases steps_of_step h with
  | @commitDeferral i x t loaded d hi hd =>
    have hdid : d.id = x.delivery.id := Table.key_of_get hd
    rw [terminalKept_update (d := d) (by rw [DeliveryPatch.apply_id, hdid, hd]) rfl,
      kept_attempt_iff rfl (not_isReplayOf (by simp))]
    constructor
    · intro hk x' t' loaded' d' hi' hd' hterm
      simp only [hi, Option.some.injEq, AttemptPhase.deferLoaded.injEq] at hi'
      obtain ⟨rfl, rfl, rfl⟩ := hi'
      obtain rfl : d = d' := Option.some.inj (hd.symm.trans hd')
      rcases hk hterm with hs | hs
      · exact hs.symm
      · rcases hterm with ht | ht <;> simp [DeliveryWrite.state, ht] at hs
    · intro hg hterm
      exact .inl (hg x t loaded d hi hd hterm).symm
  | @commit i draw _ _ x request result row e loaded d w _ _ hi hw he hd =>
    have hdid : d.id = x.delivery.id := Table.key_of_get hd
    rw [terminalKept_update (d := d) (by rw [DeliveryPatch.apply_id, hdid, hd]) rfl,
      kept_attempt_iff rfl (not_isReplayOf (by simp)), deliveryOutcome_state hw]
    constructor
    · intro hk x' request' result' row' loaded' d' hi' hd' hterm
      simp only [hi, Option.some.injEq, AttemptPhase.deliveryLoaded.injEq] at hi'
      obtain ⟨rfl, rfl, rfl, rfl, rfl⟩ := hi'
      obtain rfl : d = d' := Option.some.inj (hd.symm.trans hd')
      exact (recordsNothingNew_iff hterm).mpr (hk hterm)
    · intro hg hterm
      exact (recordsNothingNew_iff hterm).mp (hg x request result row loaded d hi hd hterm)
  | @commitReplay j d row c hj hc =>
    have hcid : c.id = d.id := Table.key_of_get hc
    rw [terminalKept_update (d := c) (by rw [DeliveryPatch.apply_id, hcid, hc]) rfl]
    have hrep : IsReplayOf s (.commitReplay j)
        ((DeliveryPatch.ofWrite .resetForReplay row).apply c).id :=
      ⟨j, d, row, rfl, hj, hcid.symm⟩
    simp only [hrep, or_true, implies_true, and_true]
    constructor
    · intro hk d' row' c' hj' hc' hs
      simp only [hj, Option.some.injEq, ReplayPhase.loaded.injEq] at hj'
      obtain ⟨rfl, rfl⟩ := hj'
      obtain rfl : c = c' := Option.some.inj (hc.symm.trans hc')
      have heq := DeliveryPatch.ofWrite_state_eq_iff.mp ((hk hs).trans hs.symm)
      rcases heq with h₁ | h₁
      · exact h₁.symm
      · rw [hs] at h₁
        cases h₁
    · intro hg hs
      have hkeep : DeliveryWrite.resetForReplay.state = row.state := (hg d row c hj hc hs).symm
      exact (DeliveryPatch.ofWrite_state_eq_iff.mpr (.inl hkeep)).trans hs
  | flip | writeOutcome =>
    refine iff_of_true (terminalKept_of_deliveries ?_) trivial
    simp only [setAttempt, lockFor]
    split <;> rfl
  | _ => exact iff_of_true (terminalKept_of_deliveries rfl) trivial

/-- Over a whole run, from any state and under any order of reads, sends, deferrals, commits,
failures and replays: terminal states are absorbing exactly when no commit of the run writes
another state over a terminal one. -/
theorem terminal_absorbing_iff (cfg : EngineConfig) (s : Engine) (as : List Action) :
    Transition.Always (step cfg) TerminalKept s as ↔
      Transition.Always (step cfg) (fun s a _ => TerminalGuard cfg s a) s as :=
  Transition.always_congr (R := TerminalKept) (Q := fun s a _ => TerminalGuard cfg s a)
    (I := fun _ => True) (fun _ _ _ _ _ => trivial)
    (fun _ _ _ _ h => terminalKept_iff_guard h) as trivial

/-- Under the guard a delivered delivery is delivered at the end of every run. -/
theorem delivered_stays {id : UUID} {u : Engine} {as : List Action}
    (hs : ∃ d, s.db.deliveries.get id = some d ∧ d.state = .delivered)
    (hg : Transition.Always (step cfg) (fun s a _ => TerminalGuard cfg s a) s as)
    (hu : Transition.run (step cfg) s as = some u) :
    ∃ d, u.db.deliveries.get id = some d ∧ d.state = .delivered := by
  refine Transition.Always.invariant
    (I := fun s => ∃ d, s.db.deliveries.get id = some d ∧ d.state = .delivered)
    (fun s a t hI hR hst => ?_) hs hg hu
  obtain ⟨d, hd, hds⟩ := hI
  exact ((terminalKept_iff_guard hst).mpr hR id d hd).1 hds

/-- The actions of one attempt that is let through and meets no other execution. -/
def soloSend (i : ℕ) (id : UUID) (now : ℤ) (result : OutboundHttpResult) (rowId : UUID) :
    List Action :=
  [.readDelivery i id, .readEndpoint i now, .send i result, .loadOutcome i false,
    .writeOutcome i, .loadDelivery i false, .commit i 0 rowId now]

def sampleConfig : EngineConfig := { hmac := sampleEnv.hmac }

/-- A message redelivered after its delivery succeeded is sent again, and the failure of that
send takes the delivery out of the delivered state. -/
theorem redelivery_undelivers :
    ∃ t u, Transition.run (step sampleConfig) (init sampleDb .empty)
        (soloSend 0 3 1000000 { latencyMs := 5, statusCode := some 200 } 4) = some t ∧
      (t.db.deliveries.get 3).map (·.state) = some .delivered ∧
      Transition.run (step sampleConfig) t
        (soloSend 1 3 2000000 { latencyMs := 5, statusCode := some 500,
                                errorClass := some .httpError } 5) = some u ∧
      (u.db.deliveries.get 3).map (·.state) = some .retrying :=
  ⟨_, _, rfl, rfl, rfl, rfl⟩

end Engine

end RelayWebhooks
