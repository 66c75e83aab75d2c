import RelayWebhooks.Engine.Terminal
import Mathlib.Data.List.Induction

/-! Overlapping attempts against the serial ledger of their outcomes: the breaker columns of each
endpoint, the attempt count of each delivery and the numbers of the attempt rows, as if the
outcomes had been applied one after another in commit order. -/
namespace RelayWebhooks

structure Ledger where
  breaker : UUID → Option BreakerTransition
  attemptCount : UUID → Option ℕ
  /-- The delivery and the number of each attempt row. -/
  rows : List (UUID × ℕ)

/-- The breaker state a send is evaluated in: an open breaker was flipped first. -/
def BreakerState.evaluated : BreakerState → BreakerState
  | opened => halfOpen
  | s => s

namespace Ledger

/-- One outcome applied to the rows its predecessor left. -/
def record (threshold : ℕ) (l : Ledger) (o : Outcome) : Ledger where
  breaker := Function.update l.breaker o.endpointId <| (l.breaker o.endpointId).map fun b =>
    nextBreakerState b.state.evaluated b.consecutiveFailures o.now o.success threshold
  attemptCount :=
    Function.update l.attemptCount o.deliveryId ((l.attemptCount o.deliveryId).map (· + 1))
  rows := l.rows ++ [(o.deliveryId, (l.attemptCount o.deliveryId).getD 0 + 1)]

def serial (threshold : ℕ) (l : Ledger) (os : List Outcome) : Ledger :=
  os.foldl (record threshold) l

def rowsOf (l : Ledger) (id : UUID) : List ℕ := (l.rows.filter (·.1 = id)).map (·.2)

theorem record_breaker_self {threshold : ℕ} {l : Ledger} {o : Outcome} {b : BreakerTransition}
    (hb : l.breaker o.endpointId = some b) :
    (record threshold l o).breaker o.endpointId = some
      (nextBreakerState b.state.evaluated b.consecutiveFailures o.now o.success threshold) := by
  simp [record, hb]

theorem record_breaker_ne {l : Ledger} {o : Outcome} {e : UUID} (threshold : ℕ)
    (h : o.endpointId ≠ e) : (record threshold l o).breaker e = l.breaker e :=
  Function.update_of_ne h.symm _ _

theorem record_attemptCount_self {l : Ledger} {o : Outcome} {n : ℕ} (threshold : ℕ)
    (hn : l.attemptCount o.deliveryId = some n) :
    (record threshold l o).attemptCount o.deliveryId = some (n + 1) := by
  simp [record, hn]

theorem record_attemptCount_ne {l : Ledger} {o : Outcome} {id : UUID} (threshold : ℕ)
    (h : o.deliveryId ≠ id) : (record threshold l o).attemptCount id = l.attemptCount id :=
  Function.update_of_ne h.symm _ _

theorem record_rowsOf_self {l : Ledger} {o : Outcome} {n : ℕ} (threshold : ℕ)
    (hn : l.attemptCount o.deliveryId = some n) :
    (record threshold l o).rowsOf o.deliveryId = l.rowsOf o.deliveryId ++ [n + 1] := by
  simp [record, rowsOf, hn]

theorem record_rowsOf_ne {l : Ledger} {o : Outcome} {id : UUID} (threshold : ℕ)
    (h : o.deliveryId ≠ id) : (record threshold l o).rowsOf id = l.rowsOf id := by
  simp [record, rowsOf, h]

@[simp] theorem serial_nil (threshold : ℕ) (l : Ledger) : serial threshold l [] = l := rfl

theorem serial_snoc (threshold : ℕ) (l : Ledger) (os : List Outcome) (o : Outcome) :
    serial threshold l (os ++ [o]) = record threshold (serial threshold l os) o := by
  simp [serial]

/-- Failures add up, and the last one opens the breaker once the threshold is reached. -/
theorem serial_failures {threshold : ℕ} {l : Ledger} {e : UUID} {b : BreakerTransition}
    (hb : l.breaker e = some b) (os : List Outcome)
    (hos : ∀ o ∈ os, o.endpointId = e → o.success = false) :
    ∃ b', (serial threshold l os).breaker e = some b' ∧
      b'.consecutiveFailures =
        b.consecutiveFailures + (os.filter (·.endpointId = e)).length ∧
      (os.filter (·.endpointId = e) ≠ [] → threshold ≤ b'.consecutiveFailures →
        b'.state = .opened) := by
  induction os using List.reverseRecOn with
  | nil => exact ⟨b, hb, rfl, fun h => absurd rfl h⟩
  | append_singleton os o ih =>
    obtain ⟨b', hb', hn, hopen⟩ := ih fun o' ho' => hos o' (by simp [ho'])
    rw [serial_snoc]
    by_cases he : o.endpointId = e
    · subst he
      have hf : o.success = false := hos o (by simp) rfl
      refine ⟨_, record_breaker_self hb', ?_, fun _ hle => ?_⟩
      · rw [hf, nextBreakerState_failures, hn]
        simp [Nat.add_assoc]
      · rw [hf] at hle ⊢
        rw [nextBreakerState_failures] at hle
        exact nextBreakerState_opened_of_threshold hle
    · refine ⟨b', by rw [record_breaker_ne _ he, hb'], ?_, ?_⟩
      · simpa [he] using hn
      · simpa [he] using hopen

/-- A count that equals the number of rows of the current chain, which are numbered from one,
keeps doing so. `old` are the rows of the chains before the last replay. -/
theorem serial_numbering {threshold : ℕ} {l : Ledger} {id : UUID} {n : ℕ} {old : List ℕ}
    (hn : l.attemptCount id = some n) (hrows : l.rowsOf id = old ++ List.range' 1 n)
    (os : List Outcome) :
    ∃ m, (serial threshold l os).attemptCount id = some m ∧
      (serial threshold l os).rowsOf id = old ++ List.range' 1 m ∧
      m = n + (os.filter (·.deliveryId = id)).length := by
  induction os using List.reverseRecOn with
  | nil => exact ⟨n, hn, hrows, rfl⟩
  | append_singleton os o ih =>
    obtain ⟨m, hm, hrows, hlen⟩ := ih
    rw [serial_snoc]
    by_cases hid : o.deliveryId = id
    · subst hid
      refine ⟨m + 1, record_attemptCount_self _ hm, ?_, ?_⟩
      · rw [record_rowsOf_self _ hm, hrows, List.range'_concat]
        simp [Nat.add_comm]
      · simp [hlen, Nat.add_assoc]
    · refine ⟨m, by rw [record_attemptCount_ne _ hid, hm], ?_, ?_⟩
      · rw [record_rowsOf_ne _ hid, hrows]
      · simpa [hid] using hlen

end Ledger

/-- The ledger a database holds. -/
def Db.ledger (db : Db) : Ledger where
  breaker id := (db.endpoints.get id).map (·.breaker)
  attemptCount id := (db.deliveries.get id).map (·.attemptCount)
  rows := db.deliveryAttempts.rows.map fun a => (a.deliveryId, a.attemptNo)

def Action.isAttempt : Action → Bool
  | .readReplay .. | .checkReplay _ | .loadReplay .. | .commitReplay _ | .enqueueReplay _
  | .interruptReplay _ => false
  | _ => true

namespace Engine
open DeliveryAttemptService

/-- The condition on the state before a commit: the rows the attempt computed from are the
current ones. The endpoint row it loaded for its update is the one its transaction sees; a failed
send was evaluated on the current breaker state and failure count; and the attempt count it read,
and the one it loaded for its update, are the committed one. -/
def CurrentGuard (s : Engine) : Action → Prop
  | .commit i _ _ _ =>
    match s.attempts i with
    | some (.deliveryLoaded x _ result row loaded) =>
      match s.db.endpoints.get x.endpoint.id, s.db.deliveries.get x.delivery.id with
      | some e, some d =>
        row.breaker = x.flip.apply e.breaker ∧
          (result.succeeded = false → x.endpoint.breakerState = e.breakerState.evaluated ∧
            x.endpoint.consecutiveFailures = e.consecutiveFailures) ∧
          x.delivery.attemptCount = d.attemptCount ∧ loaded.attemptCount = d.attemptCount
      | _, _ => True
    | _ => True
  | _ => True

instance (s : Engine) (a : Action) : Decidable (CurrentGuard s a) := by
  unfold CurrentGuard
  split
  · split
    · split <;> infer_instance
    · infer_instance
  · infer_instance

variable {cfg : EngineConfig} {s t : Engine} {a : Action}

/-- A commit from current rows leaves the breaker columns the outcome computes. -/
theorem attemptPatch_current {x : AttemptLocals} {result : OutboundHttpResult}
    {row e : Endpoint} (hrow : row.breaker = x.flip.apply e.breaker)
    (hfail : result.succeeded = false → x.endpoint.breakerState = e.breakerState.evaluated ∧
      x.endpoint.consecutiveFailures = e.consecutiveFailures) :
    (attemptPatch cfg x result row).apply e.breaker =
      nextBreakerState e.breaker.state.evaluated e.breaker.consecutiveFailures x.now
        result.succeeded cfg.settings.breakerFailureThreshold := by
  rw [attemptPatch, BreakerPatch.andThen_apply, ← hrow, outcomePatch, BreakerPatch.diff_apply,
    breakerOutcome]
  cases hs : result.succeeded with
  | true => simp only [nextBreakerState_success]
  | false =>
    obtain ⟨hst, hcf⟩ := hfail hs
    rw [hst, hcf]
    rfl

/-- One action either leaves the ledger alone or records one outcome in it. -/
theorem ledger_step (h : step cfg s a = some t) (ha : a.isAttempt = true)
    (hg : CurrentGuard s a) :
    (t.outcomes = s.outcomes ∧ t.db.ledger = s.db.ledger) ∨
      ∃ o, t.outcomes = s.outcomes ++ [o] ∧
        t.db.ledger = s.db.ledger.record cfg.settings.breakerFailureThreshold o := by
  cases steps_of_step h with
  | @commitDeferral i x u loaded d hi hd =>
    refine .inl ⟨rfl, ?_⟩
    have hkey : ((DeliveryPatch.ofWrite (.reschedule u) loaded).apply d).id = x.delivery.id :=
      Table.key_of_get hd
    have hcount : ((DeliveryPatch.ofWrite (.reschedule u) loaded).apply d).attemptCount =
        d.attemptCount := by
      simp [DeliveryPatch.apply, DeliveryPatch.ofWrite, DeliveryWrite.apply, changed]
    have hup := Table.map_get_update (·.attemptCount) hkey hd
    rw [hcount] at hup
    simp only [Db.ledger, setAttempt, Ledger.mk.injEq, true_and, and_true]
    rw [hup]
    exact Function.update_eq_self_iff.mpr (by rw [hd, Option.map_some])
  | @commit i draw _ _ x request result row e loaded d w log attempt hi hw he hd hlog hid hno =>
    simp only [CurrentGuard, hi, he, hd] at hg
    obtain ⟨hrow, hfail, hcount, hloaded⟩ := hg
    refine .inr ⟨⟨x.delivery.id, x.endpoint.id, x.now, result.succeeded⟩, rfl, ?_⟩
    have hekey : ((attemptPatch cfg x result row).view e).id = x.endpoint.id :=
      Table.key_of_get he
    have hdkey : ((DeliveryPatch.ofWrite w loaded).apply d).id = x.delivery.id :=
      Table.key_of_get hd
    have hnew : ((DeliveryPatch.ofWrite w loaded).apply d).attemptCount = d.attemptCount + 1 := by
      simp only [DeliveryPatch.apply, DeliveryPatch.ofWrite, deliveryOutcome_count hw]
      rw [getD_changed fun h => absurd h (by omega), hloaded]
    have hbup := Table.map_get_update (·.breaker) hekey he
    have hcup := Table.map_get_update (·.attemptCount) hdkey hd
    rw [BreakerPatch.view_breaker, attemptPatch_current hrow hfail] at hbup
    rw [hnew] at hcup
    simp only [Db.ledger, Ledger.record, Ledger.mk.injEq, he, hd, Option.map_some,
      Option.getD_some]
    refine ⟨hbup, hcup, ?_⟩
    rw [(Table.insert_eq_some.mp hlog).2, List.map_append, List.map_singleton, hid, hno, hcount]
  | flip | writeOutcome =>
    refine .inl ?_
    simp only [setAttempt, lockFor]
    split <;> exact ⟨rfl, rfl⟩
  | readReplay | readReplayMissing | checkReplay | loadReplay | commitReplay | enqueueReplay
  | interruptCommitted | interruptReplay => cases ha
  | _ => exact .inl ⟨rfl, rfl⟩

/-- Attempts that commit from current rows leave the ledger their outcomes leave in serial order,
however they interleave. In particular failures with no success between them add up and open
the breaker, and the count of a delivery goes on equalling the rows of its chain. -/
theorem outcomes_serial (cfg : EngineConfig) (db : Db) (stream : DeliveryStream)
    (as : List Action) (t : Engine) (hatt : ∀ a ∈ as, a.isAttempt = true)
    (hg : Transition.Always (step cfg) (fun s a _ => CurrentGuard s a) (init db stream) as)
    (ht : Transition.run (step cfg) (init db stream) as = some t) :
    t.db.ledger = db.ledger.serial cfg.settings.breakerFailureThreshold t.outcomes ∧
    (∀ e b, db.ledger.breaker e = some b →
      (∀ o ∈ t.outcomes, o.endpointId = e → o.success = false) →
      ∃ b', t.db.ledger.breaker e = some b' ∧
        b'.consecutiveFailures =
          b.consecutiveFailures + (t.outcomes.filter (·.endpointId = e)).length ∧
        (t.outcomes.filter (·.endpointId = e) ≠ [] →
          cfg.settings.breakerFailureThreshold ≤ b'.consecutiveFailures →
          b'.state = .opened)) ∧
    (∀ id n old, db.ledger.attemptCount id = some n →
      db.ledger.rowsOf id = old ++ List.range' 1 n →
      ∃ m, t.db.ledger.attemptCount id = some m ∧
        t.db.ledger.rowsOf id = old ++ List.range' 1 m ∧
        m = n + (t.outcomes.filter (·.deliveryId = id)).length) := by
  have hserial : t.db.ledger =
      db.ledger.serial cfg.settings.breakerFailureThreshold t.outcomes := by
    have hboth : Transition.Always (step cfg)
        (fun s a _ => CurrentGuard s a ∧ a.isAttempt = true) (init db stream) as :=
      hg.and (Transition.always_of_mem hatt)
    refine Transition.Always.invariant
      (I := fun s => s.db.ledger =
        db.ledger.serial cfg.settings.breakerFailureThreshold s.outcomes)
      (fun s a t hI hR hst => ?_) rfl hboth ht
    rcases ledger_step hst hR.2 hR.1 with ⟨ho, hl⟩ | ⟨o, ho, hl⟩
    · rw [ho, hl, hI]
    · rw [ho, hl, hI, Ledger.serial_snoc]
  rw [hserial]
  exact ⟨rfl, fun e b hb => Ledger.serial_failures hb t.outcomes,
    fun id n old hn hrows => Ledger.serial_numbering hn hrows t.outcomes⟩

def failed500 : OutboundHttpResult :=
  { latencyMs := 5, statusCode := some 500, errorClass := some .httpError }

/-- Attempts at two deliveries to one endpoint, under way at once: the one that succeeds sends before
the failure commits, and is recorded after it. -/
def overlappingOutcomes : List Action :=
  [.readDelivery 0 3, .readDelivery 1 6, .readEndpoint 1 1000000, .readEndpoint 0 1000000,
    .send 1 { latencyMs := 5, statusCode := some 200 }, .send 0 failed500,
    .loadOutcome 0 false, .writeOutcome 0, .loadDelivery 0 false, .commit 0 0 4 2000000,
    .loadOutcome 1 false, .writeOutcome 1, .loadDelivery 1 false, .commit 1 0 5 3000000]

/-- Another delivery to the endpoint. -/
def twoDeliveries : Db :=
  { sampleDb with deliveries := ⟨[sampleDelivery, { sampleDelivery with id := 6 }], by decide⟩ }

theorem outcomes_serial_sample :
    ∃ t, Transition.run (step sampleConfig) (init twoDeliveries .empty) overlappingOutcomes =
        some t ∧ t.outcomes.map (·.success) = [false, true] ∧
      t.db.ledger = twoDeliveries.ledger.serial 5 t.outcomes :=
  ⟨_, rfl, rfl, (outcomes_serial sampleConfig twoDeliveries .empty overlappingOutcomes _ (by decide)
    (by decide +kernel) rfl).1⟩

/-- Two failures in flight at once: the second commit writes the failure count and the attempt
number it computed before the first one. -/
def overlappingFailures : List Action :=
  [.readDelivery 0 3, .readDelivery 1 3, .readEndpoint 0 1000000, .readEndpoint 1 1000000,
    .send 0 failed500, .send 1 failed500,
    .loadOutcome 0 false, .writeOutcome 0, .loadDelivery 0 false, .commit 0 0 4 2000000,
    .loadOutcome 1 false, .writeOutcome 1, .loadDelivery 1 false, .commit 1 0 5 3000000]

theorem overlapping_failures_lost :
    ∃ t, Transition.run (step sampleConfig) (init sampleDb .empty) overlappingFailures = some t ∧
      t.outcomes.map (·.success) = [false, false] ∧
      (t.db.ledger.breaker 2).map (·.consecutiveFailures) = some 1 ∧
      ((sampleDb.ledger.serial 5 t.outcomes).breaker 2).map (·.consecutiveFailures) = some 2 ∧
      t.db.ledger.rowsOf 3 = [1, 1] ∧
      (sampleDb.ledger.serial 5 t.outcomes).rowsOf 3 = [1, 2] :=
  ⟨_, rfl, rfl, rfl, rfl, rfl, rfl⟩

end Engine

end RelayWebhooks
