import RelayWebhooks.Lib.Transition
import RelayWebhooks.Services.FinishAttempt
import RelayWebhooks.Services.Replay

/-! The delivery ledger: creations, attempts and replays executed one at a time, and the attempt
rows that belong to the current chain of each delivery. -/
namespace RelayWebhooks

/-- The attempt rows of a delivery, oldest first. -/
def Db.attemptsOf (db : Db) (id : UUID) : List DeliveryAttempt :=
  db.deliveryAttempts.select fun a => a.deliveryId = id

/-- `past` keeps the attempt rows a delivery had when it was created or last replayed. -/
structure DeliveryLedger where
  db : Db
  past : UUID → List DeliveryAttempt

inductive LedgerOp where
  | create (id eventId endpointId : UUID) (createdAt : ℤ)
  | attempt (env : AttemptEnv) (send : OutboundRequest → OutboundHttpResult) (id : UUID)
  | replay (id tenantId : UUID)
  /-- An operation that fails before its commit. -/
  | rollback
  /-- Any other writer of the events and the endpoints, their breakers included. -/
  | others (events : Table Event) (endpoints : Table Endpoint)

namespace DeliveryLedger
open DeliveryAttemptService

/-- A chain begins with the committed database. -/
def restart (s : DeliveryLedger) (id : UUID) (db : Db) : DeliveryLedger :=
  ⟨db, Function.update s.past id (db.attemptsOf id)⟩

def step (settings : Settings) (s : DeliveryLedger) : LedgerOp → Option DeliveryLedger
  | .create id eventId endpointId createdAt =>
    match s.db.createDelivery id eventId endpointId createdAt with
    | .ok (db, _) => some (s.restart id db)
    | .error _ => some s
  | .attempt env send id =>
    match DeliveryAttemptService.attempt { env with settings } send s.db id with
    | .ok (db, _) => some { s with db }
    | .error _ => some s
  | .replay id tenantId =>
    match ReplayService.replay s.db id tenantId with
    | .ok (db, _) => some (s.restart id db)
    | .error _ => some s
  | .rollback => some s
  | .others events endpoints => some { s with db := { s.db with events, endpoints } }

/-- No delivery and no attempt row; any events and endpoints. -/
def Init (s : DeliveryLedger) : Prop :=
  s.db.deliveries = .empty ∧ s.db.deliveryAttempts = .empty

/-- The row of a delivery agrees with the attempt rows of its chain. -/
structure ChainOk (maxAttempts : ℕ) (d : Delivery) (chain : List DeliveryAttempt) : Prop where
  nextRetry : d.nextRetryAt.isSome ↔ d.state = .retrying
  pending : d.state = .pending → d.attemptCount = 0
  count : d.attemptCount = chain.length
  numbered : chain.map (·.attemptNo) = List.range' 1 d.attemptCount
  delivered : d.state = .delivered → ∃ a, chain.getLast? = some a ∧ a.succeeded = true
  dead : d.state = .dead →
    ∃ a, chain.getLast? = some a ∧ a.succeeded = false ∧ maxAttempts ≤ a.attemptNo

structure Inv (maxAttempts : ℕ) (s : DeliveryLedger) : Prop where
  owned : ∀ a ∈ s.db.deliveryAttempts.rows, (s.db.deliveries.get a.deliveryId).isSome
  chains : ∀ d ∈ s.db.deliveries.rows, ∃ chain,
    s.db.attemptsOf d.id = s.past d.id ++ chain ∧ ChainOk maxAttempts d chain

variable {settings : Settings} {maxAttempts : ℕ} {s t : DeliveryLedger} {d : Delivery}
  {chain : List DeliveryAttempt}

theorem inv_init (h : Init s) : Inv maxAttempts s := by
  obtain ⟨hd, ha⟩ := h
  constructor
  · intro a hmem
    rw [ha] at hmem
    cases hmem
  · intro d hmem
    rw [hd] at hmem
    cases hmem

theorem chainOk_fresh (id eventId endpointId : UUID) (createdAt : ℤ) :
    ChainOk maxAttempts
      { id, eventId, endpointId, state := .pending, attemptCount := 0, createdAt } [] := by
  constructor <;> simp

theorem ChainOk.reschedule (h : ChainOk maxAttempts d chain) (t : ℤ) :
    ChainOk maxAttempts (DeliveryWrite.apply (.reschedule t) d) chain where
  nextRetry := by simp [DeliveryWrite.apply]
  pending hs := by cases hs
  count := h.count
  numbered := h.numbered
  delivered hs := by cases hs
  dead hs := by cases hs

theorem chainOk_replay (d : Delivery) :
    ChainOk maxAttempts (DeliveryWrite.apply .resetForReplay d) [] := by
  constructor <;> simp [DeliveryWrite.apply]

theorem deliveryOutcome_cases {now : ℤ} {draw : ℚ} {n : ℕ} {result : OutboundHttpResult}
    {w : DeliveryWrite} (h : deliveryOutcome settings now draw n result = .ok w) :
    (w = .markDelivered ∧ result.succeeded = true) ∨
      (w = .markDead ∧ result.succeeded = false ∧ settings.deliveryMaxAttempts ≤ n + 1) ∨
        ∃ t, w = .markRetrying t := by
  unfold deliveryOutcome at h
  split at h
  next hs => cases h; exact .inl ⟨rfl, hs⟩
  next hs =>
    split at h
    next hm => cases h; exact .inr (.inl ⟨rfl, by simpa using hs, hm⟩)
    next =>
      split at h
      next => cases h
      next => cases h; exact .inr (.inr ⟨_, rfl⟩)

/-- A recorded outcome extends the chain by the next number. -/
theorem ChainOk.record {now : ℤ} {draw : ℚ} {result : OutboundHttpResult} {w : DeliveryWrite}
    {a : DeliveryAttempt} (h : ChainOk settings.deliveryMaxAttempts d chain)
    (hw : deliveryOutcome settings now draw d.attemptCount result = .ok w)
    (hno : a.attemptNo = d.attemptCount + 1) (hs : a.succeeded = result.succeeded) :
    ChainOk settings.deliveryMaxAttempts (w.apply d) (chain ++ [a]) := by
  have hcount : (w.apply d).attemptCount = d.attemptCount + 1 := deliveryOutcome_count hw d
  have hnum : (chain ++ [a]).map (·.attemptNo) = List.range' 1 (w.apply d).attemptCount := by
    rw [hcount, List.range'_concat, List.map_append, h.numbered, List.map_singleton, hno]
    congr 2
    omega
  have hlen : (w.apply d).attemptCount = (chain ++ [a]).length := by
    rw [hcount, h.count, List.length_append, List.length_singleton]
  have hlast : (chain ++ [a]).getLast? = some a := List.getLast?_concat
  have hcases := deliveryOutcome_cases hw
  constructor
  · rcases hcases with ⟨rfl, -⟩ | ⟨rfl, -⟩ | ⟨t, rfl⟩ <;> simp [DeliveryWrite.apply]
  · intro hst
    rcases hcases with ⟨rfl, -⟩ | ⟨rfl, -⟩ | ⟨t, rfl⟩ <;> cases hst
  · exact hlen
  · exact hnum
  · intro hst
    rcases hcases with ⟨-, hok⟩ | ⟨rfl, -⟩ | ⟨t, rfl⟩
    · exact ⟨a, hlast, hs.trans hok⟩
    · cases hst
    · cases hst
  · intro hst
    rcases hcases with ⟨rfl, -⟩ | ⟨-, hfail, hmax⟩ | ⟨t, rfl⟩
    · cases hst
    · exact ⟨a, hlast, hs.trans hfail, by omega⟩
    · cases hst

theorem Inv.create (hI : Inv maxAttempts s) {id eventId endpointId : UUID} {createdAt : ℤ}
    {db : Db} {d : Delivery}
    (h : s.db.createDelivery id eventId endpointId createdAt = .ok (db, d)) :
    Inv maxAttempts (s.restart id db) := by
  obtain ⟨hd, -, -, hnone⟩ := Db.createDelivery_ok h
  obtain ⟨deliveries, hins, rfl⟩ := Db.createDelivery_insert h
  have hid : d.id = id := by rw [hd]
  have hrows := (Table.insert_eq_some.mp hins).2
  constructor
  · intro a ha
    obtain ⟨x, hx⟩ := Option.isSome_iff_exists.mp (hI.owned a ha)
    exact Option.isSome_iff_exists.mpr ⟨x, Table.get_insert_of_get hins hx⟩
  · intro c hc
    have hc : c ∈ s.db.deliveries.rows ∨ c = d := by
      have hmem : c ∈ deliveries.rows := hc
      rw [hrows] at hmem
      simpa using hmem
    rcases hc with hc | rfl
    · have hne : c.id ≠ id := fun heq => Table.get_eq_none.mp hnone c hc heq
      obtain ⟨chain, hchain, hok⟩ := hI.chains c hc
      refine ⟨chain, ?_, hok⟩
      show s.db.attemptsOf c.id = Function.update s.past id _ c.id ++ chain
      rw [Function.update_of_ne hne, hchain]
    · refine ⟨[], ?_, hd ▸ chainOk_fresh id eventId endpointId createdAt⟩
      show s.db.attemptsOf c.id = Function.update s.past id (s.db.attemptsOf id) c.id ++ []
      rw [hid, Function.update_self, List.append_nil]

/-- One row is rewritten, and its chain extended or begun anew; the other chains stay. -/
theorem Inv.rewrite (hI : Inv maxAttempts s) (row : Delivery) {d₀ : Delivery}
    (hget : s.db.deliveries.get row.id = some d₀)
    (hdel : t.db.deliveries = s.db.deliveries.update row)
    (hlog : ∀ a ∈ t.db.deliveryAttempts.rows,
      a ∈ s.db.deliveryAttempts.rows ∨ a.deliveryId = row.id)
    (hother : ∀ k, k ≠ row.id → t.db.attemptsOf k = s.db.attemptsOf k ∧ t.past k = s.past k)
    (hself : ∃ chain, t.db.attemptsOf row.id = t.past row.id ++ chain ∧
      ChainOk maxAttempts row chain) : Inv maxAttempts t := by
  have hkeys : ∀ k, (t.db.deliveries.get k).isSome = (s.db.deliveries.get k).isSome := by
    intro k
    rw [hdel, Table.isSome_get_update]
  constructor
  · intro a ha
    rw [hkeys]
    rcases hlog a ha with ha | hid
    · exact hI.owned a ha
    · rw [hid, hget]
      rfl
  · intro c hc
    rw [hdel] at hc
    rcases Table.mem_update hc with rfl | ⟨hc, hne⟩
    · exact hself
    · obtain ⟨chain, hchain, hok⟩ := hI.chains c hc
      obtain ⟨hrows, hpast⟩ := hother c.id hne
      exact ⟨chain, by rw [hrows, hpast, hchain], hok⟩

theorem attemptsOf_append {db db' : Db} {a : DeliveryAttempt}
    (h : db'.deliveryAttempts.rows = db.deliveryAttempts.rows ++ [a]) (id : UUID) :
    db'.attemptsOf id = db.attemptsOf id ++ if a.deliveryId = id then [a] else [] := by
  unfold Db.attemptsOf Table.select
  rw [h, List.filter_append, List.filter_singleton]
  congr 1
  by_cases hid : a.deliveryId = id <;> simp [hid]

theorem Inv.attempt (hI : Inv settings.deliveryMaxAttempts s) {env : AttemptEnv}
    {send : OutboundRequest → OutboundHttpResult} {id : UUID} {db : Db} {row : Delivery}
    (h : DeliveryAttemptService.attempt { env with settings } send s.db id = .ok (db, row)) :
    Inv settings.deliveryMaxAttempts { s with db } := by
  obtain ⟨d, ev, e, hload, hcases⟩ := attempt_cases h
  obtain ⟨hd, -, -⟩ := loadRows_ok hload
  have hid : d.id = id := Table.key_of_get hd
  have hget : s.db.deliveries.get d.id = some d := hid ▸ hd
  obtain ⟨chain, hchain, hok⟩ := hI.chains d (Table.mem_of_get hd)
  rcases hcases with ⟨u, -, rfl⟩ | ⟨-, request, -, hsent⟩
  · exact hI.rewrite (DeliveryWrite.apply (.reschedule u) d) hget rfl (fun a ha => .inl ha)
      (fun _ _ => ⟨rfl, rfl⟩) ⟨chain, hchain, hok.reschedule u⟩
  · obtain ⟨w, hw, hdel⟩ := hsent.write
    obtain ⟨a, hlog, hown, hno, hs⟩ := hsent.log
    have hwid : (w.apply d).id = d.id := DeliveryWrite.apply_id w d
    refine hI.rewrite (w.apply d) (hwid.symm ▸ hget) hdel (fun x hx => ?_) (fun k hk => ⟨?_, rfl⟩)
      ⟨chain ++ [a], ?_, hok.record hw hno hs⟩
    · have hx : x ∈ db.deliveryAttempts.rows := hx
      rw [hlog] at hx
      rcases List.mem_append.mp hx with hx | hx
      · exact .inl hx
      · rw [List.mem_singleton.mp hx, hwid]
        exact .inr hown
    · have hne : ¬a.deliveryId = k := fun heq => hk (heq.symm.trans (hown.trans hwid.symm))
      rw [attemptsOf_append hlog, if_neg hne, List.append_nil]
    · show db.attemptsOf _ = s.past _ ++ _
      rw [hwid, attemptsOf_append hlog, if_pos hown, hchain, List.append_assoc]

theorem Inv.replay (hI : Inv maxAttempts s) {id tenantId : UUID} {db : Db} {row : Delivery}
    (h : ReplayService.replay s.db id tenantId = .ok (db, row)) :
    Inv maxAttempts (s.restart id db) := by
  obtain ⟨d, ev, hd, -, -, -, rfl, rfl⟩ := ReplayService.replay_ok h
  have hid : d.id = id := Table.key_of_get hd
  refine hI.rewrite (DeliveryWrite.apply .resetForReplay d) (hid ▸ hd) rfl (fun a ha => .inl ha)
    (fun k hk => ⟨rfl, ?_⟩) ⟨[], ?_, chainOk_replay d⟩
  · have hne : k ≠ id := fun heq => hk (heq.trans hid.symm)
    exact Function.update_of_ne hne ..
  · show s.db.attemptsOf d.id = Function.update s.past id (s.db.attemptsOf id) d.id ++ []
    rw [hid, Function.update_self, List.append_nil]

theorem Inv.step {op : LedgerOp} (hI : Inv settings.deliveryMaxAttempts s)
    (h : s.step settings op = some t) : Inv settings.deliveryMaxAttempts t := by
  cases op with
  | create id eventId endpointId createdAt =>
    simp only [DeliveryLedger.step] at h
    split at h
    next db d hd => exact Option.some.inj h ▸ hI.create hd
    next => exact Option.some.inj h ▸ hI
  | attempt env send id =>
    simp only [DeliveryLedger.step] at h
    split at h
    next db d hd => exact Option.some.inj h ▸ hI.attempt hd
    next => exact Option.some.inj h ▸ hI
  | replay id tenantId =>
    simp only [DeliveryLedger.step] at h
    split at h
    next db d hd => exact Option.some.inj h ▸ hI.replay hd
    next => exact Option.some.inj h ▸ hI
  | rollback => exact Option.some.inj h ▸ hI
  | others events endpoints =>
    obtain rfl := Option.some.inj h
    exact ⟨hI.owned, hI.chains⟩

theorem step_log {op : LedgerOp} (h : s.step settings op = some t) :
    ∃ new, t.db.deliveryAttempts.rows = s.db.deliveryAttempts.rows ++ new := by
  have hsame : t.db.deliveryAttempts = s.db.deliveryAttempts →
      ∃ new, t.db.deliveryAttempts.rows = s.db.deliveryAttempts.rows ++ new :=
    fun heq => ⟨[], by rw [heq, List.append_nil]⟩
  cases op with
  | create id eventId endpointId createdAt =>
    simp only [step] at h
    split at h
    next db d hd =>
      obtain ⟨deliveries, -, rfl⟩ := Db.createDelivery_insert hd
      exact hsame (Option.some.inj h ▸ rfl)
    next => exact hsame (Option.some.inj h ▸ rfl)
  | attempt env send id =>
    simp only [step] at h
    split at h
    next db d hd =>
      obtain rfl := Option.some.inj h
      obtain ⟨d, ev, e, -, ⟨u, -, rfl⟩ | ⟨-, request, -, hsent⟩⟩ := attempt_cases hd
      · exact hsame rfl
      · obtain ⟨a, hlog, -⟩ := hsent.log
        exact ⟨[a], hlog⟩
    next => exact hsame (Option.some.inj h ▸ rfl)
  | replay id tenantId =>
    simp only [step] at h
    split at h
    next db d hd =>
      obtain ⟨d, ev, -, -, -, -, -, rfl⟩ := ReplayService.replay_ok hd
      exact hsame (Option.some.inj h ▸ rfl)
    next => exact hsame (Option.some.inj h ▸ rfl)
  | rollback => exact hsame (Option.some.inj h ▸ rfl)
  | others events endpoints => exact hsame (Option.some.inj h ▸ rfl)

theorem run_log {ops : List LedgerOp} (h : Transition.run (step settings) s ops = some t) :
    ∃ new, t.db.deliveryAttempts.rows = s.db.deliveryAttempts.rows ++ new := by
  induction ops generalizing s with
  | nil => exact ⟨[], by rw [Option.some.inj h, List.append_nil]⟩
  | cons op ops ih =>
    obtain ⟨u, hu, h⟩ := Transition.run_cons_eq_some.mp h
    obtain ⟨new₁, h₁⟩ := step_log hu
    obtain ⟨new₂, h₂⟩ := ih h
    exact ⟨new₁ ++ new₂, by rw [h₂, h₁, List.append_assoc]⟩

/-- In every state that creations, attempts and replays reach, the row of each delivery agrees
with the attempt rows added since it was created or last replayed, and no later operation
changes or removes an attempt row. -/
theorem ledger_ok (settings : Settings) (t : DeliveryLedger)
    (ht : Transition.Reachable (step settings) Init t) :
    (∀ d ∈ t.db.deliveries.rows, ∃ chain, t.db.attemptsOf d.id = t.past d.id ++ chain ∧
      ChainOk settings.deliveryMaxAttempts d chain) ∧
    ∀ ops u, Transition.run (step settings) t ops = some u →
      ∃ new, u.db.deliveryAttempts.rows = t.db.deliveryAttempts.rows ++ new := by
  have hI : Inv settings.deliveryMaxAttempts t :=
    ht.invariant (fun _ => inv_init) fun _ _ _ hI h => hI.step h
  exact ⟨hI.chains, fun _ _ h => run_log h⟩

/-- One attempt kills the delivery, a replay starts a second chain, and its first attempt
succeeds. -/
def sampleOps : List LedgerOp :=
  [.create 3 1 2 0, .attempt sampleEnv (fun _ => { latencyMs := 5, statusCode := some 500 }) 3,
    .replay 3 9, .attempt { sampleEnv with rowId := 5 }
      (fun _ => { latencyMs := 5, statusCode := some 200 }) 3]

theorem ledger_ok_sample :
    ∃ t d chain, Transition.run (step { deliveryMaxAttempts := 1 })
        ⟨{ sampleDb with deliveries := .empty }, fun _ => []⟩ sampleOps = some t ∧
      t.db.deliveries.get 3 = some d ∧ d.state = .delivered ∧
      t.db.attemptsOf 3 = t.past 3 ++ chain ∧ ChainOk 1 d chain ∧ (t.past 3).length = 1 := by
  obtain ⟨t, ht⟩ : ∃ t, Transition.run (step { deliveryMaxAttempts := 1 })
      ⟨{ sampleDb with deliveries := .empty }, fun _ => []⟩ sampleOps = some t := ⟨_, rfl⟩
  have hget : (Transition.run (step { deliveryMaxAttempts := 1 })
      ⟨{ sampleDb with deliveries := .empty }, fun _ => []⟩ sampleOps).map
      (fun t => (t.db.deliveries.get 3).map (·.state)) = some (some .delivered) := rfl
  have hpast : (Transition.run (step { deliveryMaxAttempts := 1 })
      ⟨{ sampleDb with deliveries := .empty }, fun _ => []⟩ sampleOps).map
      (fun t => (t.past 3).length) = some 1 := rfl
  rw [ht] at hget hpast
  obtain ⟨d, hd, hs⟩ := Option.map_eq_some_iff.mp (Option.some.inj hget)
  have hid : d.id = 3 := Table.key_of_get hd
  obtain ⟨chain, hchain, hok⟩ := (ledger_ok { deliveryMaxAttempts := 1 } t
    ⟨_, sampleOps, ⟨rfl, rfl⟩, ht⟩).1 d (Table.mem_of_get hd)
  exact ⟨t, d, chain, ht, hd, hs, hid ▸ hchain, hok, Option.some.inj hpast⟩

end DeliveryLedger

end RelayWebhooks
