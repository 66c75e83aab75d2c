import RelayWebhooks.Domain.Deliveries
import RelayWebhooks.Workers.Gates

/-! One dispatcher next to the relays whose messages it reads: a message can be read before the
row of its delivery is committed. -/
namespace RelayWebhooks

/-- One dispatcher and the relays. `fanOuts` are the rows each relay has created and not committed,
`attempts` the endpoints the attempts of the tasks have read with their delivery. -/
structure Dispatching where
  dispatcher : Dispatcher
  deliveries : Table Delivery
  fanOuts : ℕ → List Delivery
  attempts : ℕ → Option UUID

/-- `enqueue` is what the scheduler and a replay publish. A task finishes after its send or by any
exception, and its attempt may end without a send. -/
inductive DispatchingAction where
  | fanOut (relay : ℕ) (delivery : Delivery) (correlationId : Option PyText)
  | commitFanOut (relay : ℕ)
  | rollbackFanOut (relay : ℕ)
  | enqueue (deliveryId : UUID) (correlationId : Option PyText)
  | deleteEndpoint (endpointId : UUID)
  | read (count : ℕ)
  | start
  | lookup (i : ℕ)
  | load (i : ℕ)
  | send (i : ℕ)
  | finish (i : ℕ)

namespace Dispatching
variable (cfg : DispatcherConfig)

/-- No task has started and no transaction is open; the rows are those of earlier fan-outs. -/
structure Init (s : Dispatching) : Prop where
  dispatcher : ∃ messages, s.dispatcher = Dispatcher.init cfg messages
  deliveries : ∀ d ∈ s.deliveries.rows, d.endpointId = cfg.endpointOf d.id
  fanOuts : ∀ relay, s.fanOuts relay = []
  attempts : ∀ i, s.attempts i = none

def publish (s : Dispatching) (m : DeliveryMessage) : Dispatching :=
  { s with dispatcher := { s.dispatcher with unread := s.dispatcher.unread ++ [m] } }

def setFanOut (s : Dispatching) (relay : ℕ) (rows : List Delivery) : Dispatching :=
  { s with fanOuts := Function.update s.fanOuts relay rows }

/-- A step of the main loop or of a task that reads no row. -/
def dispatch (s : Dispatching) (a : DispatcherAction) : Option Dispatching :=
  (s.dispatcher.step cfg a).map fun dispatcher => { s with dispatcher }

/-- `_lookup_endpoint_id`, and the semaphore of the endpoint it returns. -/
def lookup (s : Dispatching) (k : DispatchTask) : Dispatcher :=
  match s.deliveries.get k.message.deliveryId with
  | some d => s.dispatcher.enterGate k d.endpointId
  | none => s.dispatcher.setPhase k (.admitted none)

/-- The attempt reads its delivery; without a row it raises and the task ends. -/
def load (s : Dispatching) (i : ℕ) (k : DispatchTask) : Option Dispatching :=
  match s.deliveries.get k.message.deliveryId with
  | some d => some { s with attempts := Function.update s.attempts i (some d.endpointId) }
  | none => s.dispatch cfg (.finish i)

/-- One step of a relay or of the dispatcher. A relay publishes a delivery's message from inside
the transaction that creates its row, for the endpoint `endpointOf` says. -/
def step (s : Dispatching) : DispatchingAction → Option Dispatching
  | .fanOut relay d correlationId =>
    if d.endpointId = cfg.endpointOf d.id then
      some ((s.publish ⟨d.id, correlationId⟩).setFanOut relay (s.fanOuts relay ++ [d]))
    else none
  | .commitFanOut relay =>
    (s.deliveries.insertAll (s.fanOuts relay)).map fun deliveries =>
      { s.setFanOut relay [] with deliveries }
  | .rollbackFanOut relay => some (s.setFanOut relay [])
  | .enqueue deliveryId correlationId => some (s.publish ⟨deliveryId, correlationId⟩)
  | .deleteEndpoint endpointId =>
    some { s with deliveries := s.deliveries.deleteWhere fun d => d.endpointId = endpointId }
  | .read count => s.dispatch cfg (.read count)
  | .start => s.dispatch cfg .start
  | .lookup i =>
    match s.dispatcher.tasks.get i with
    | some ⟨j, m, .lookingUp⟩ => some { s with dispatcher := s.lookup ⟨j, m, .lookingUp⟩ }
    | _ => none
  | .load i =>
    match s.dispatcher.tasks.get i, s.attempts i with
    | some ⟨j, m, .admitted gate⟩, none => s.load cfg i ⟨j, m, .admitted gate⟩
    | _, _ => none
  | .send i => if (s.attempts i).isSome then s.dispatch cfg (.send i) else none
  | .finish i => s.dispatch cfg (.finish i)

abbrev run := Transition.run (step cfg)

/-- The sends in flight; a task that sends counts until it ends. -/
def sends (s : Dispatching) : ℕ := s.dispatcher.tasks.rows.countP fun k => k.phase.isSending

/-- Those to one endpoint. -/
def sendsTo (s : Dispatching) (e : UUID) : ℕ :=
  s.dispatcher.tasks.rows.countP fun k => k.phase.isSending && s.attempts k.id = some e

variable {cfg} {s t : Dispatching} {a : DispatchingAction} {d : DispatcherAction} {i : ℕ}

/-- Every row is of the endpoint its delivery goes to, and only a task has an attempt. -/
structure Inv (cfg : DispatcherConfig) (s : Dispatching) : Prop where
  gated : s.dispatcher.Gated cfg none
  rows : ∀ d ∈ s.deliveries.rows, d.endpointId = cfg.endpointOf d.id
  fanOuts : ∀ relay, ∀ d ∈ s.fanOuts relay, d.endpointId = cfg.endpointOf d.id
  ids : ∀ k ∈ s.dispatcher.tasks.rows, k.id < s.dispatcher.nextId
  fresh : ∀ i, s.dispatcher.nextId ≤ i → s.attempts i = none
  attempts : ∀ k ∈ s.dispatcher.tasks.rows, ∀ e, s.attempts k.id = some e →
    e = cfg.endpointOf k.message.deliveryId

theorem Init.inv (h : Init cfg s) : Inv cfg s := by
  obtain ⟨messages, hdispatcher⟩ := h.dispatcher
  constructor
  · rw [hdispatcher]
    exact Dispatcher.gated_init messages
  · exact h.deliveries
  · simp [h.fanOuts]
  · simp [hdispatcher, Dispatcher.init, Table.empty]
  · simp [h.attempts]
  · simp [h.attempts]

theorem dispatch_eq_some : s.dispatch cfg d = some t ↔
    ∃ dispatcher, s.dispatcher.step cfg d = some dispatcher ∧ { s with dispatcher } = t :=
  Option.map_eq_some_iff

theorem Inv.dispatch (h : Inv cfg s) (hd : s.dispatch cfg d = some t) : Inv cfg t := by
  obtain ⟨u, hu, rfl⟩ := dispatch_eq_some.mp hd
  obtain ⟨hle, hstart⟩ := Dispatcher.nextId_step hu
  refine ⟨h.gated.step hu, h.rows, h.fanOuts, fun k hk => ?_, fun i hi => ?_, fun k hk e he => ?_⟩
  · rcases h.gated.tasks_step hu hk with ⟨k₀, hk₀, hid, -, -⟩ | ⟨hd, hid, -⟩
    · rw [← hid]
      exact (h.ids k₀ hk₀).trans_le hle
    · rw [hid]
      exact (hstart hd).symm ▸ Nat.lt_succ_self _
  · exact h.fresh i (hle.trans hi)
  · rcases h.gated.tasks_step hu hk with ⟨k₀, hk₀, hid, hmessage, -⟩ | ⟨-, hid, -⟩
    · rw [← hmessage]
      exact h.attempts k₀ hk₀ e (hid ▸ he)
    · have hnone := h.fresh k.id hid.ge
      rw [hnone] at he
      cases he

theorem Inv.row (h : Inv cfg s) {deliveryId : UUID} {r : Delivery}
    (hr : s.deliveries.get deliveryId = some r) : r.endpointId = cfg.endpointOf deliveryId := by
  obtain ⟨hmem, hid⟩ := Table.get_eq_some.mp hr
  have hid : r.id = deliveryId := hid
  rw [← hid]
  exact h.rows r hmem

/-- The lookup finds the endpoint the delivery goes to, or nothing. -/
theorem Inv.lookup (h : Inv cfg s) (hstep : step cfg s (.lookup i) = some t) :
    ∃ found, s.dispatch cfg (.lookup i found) = some t := by
  simp only [Dispatching.step] at hstep
  split at hstep
  next j m hk =>
    obtain rfl := Option.some.inj hstep
    refine ⟨(s.deliveries.get m.deliveryId).isSome, ?_⟩
    refine dispatch_eq_some.mpr ⟨_, ?_, rfl⟩
    simp only [Dispatcher.step, hk, Dispatching.lookup]
    cases hr : s.deliveries.get m.deliveryId with
    | none => rfl
    | some r => simp [h.row hr]
  next => cases hstep

/-- What a `load` step finds. -/
theorem load_cases (hstep : step cfg s (.load i) = some t) :
    ∃ k ∈ s.dispatcher.tasks.rows, k.id = i ∧ ∃ gate, k.phase = .admitted gate ∧
      ((∃ r, s.deliveries.get k.message.deliveryId = some r ∧
        t = { s with attempts := Function.update s.attempts i (some r.endpointId) }) ∨
      s.deliveries.get k.message.deliveryId = none ∧ s.dispatch cfg (.finish i) = some t) := by
  simp only [Dispatching.step] at hstep
  split at hstep
  next j m gate hk _ =>
    refine ⟨_, Table.mem_of_get hk, Table.key_of_get hk, gate, rfl, ?_⟩
    unfold Dispatching.load at hstep
    split at hstep
    next r hr => exact .inl ⟨r, hr, (Option.some.inj hstep).symm⟩
    next hr => exact .inr ⟨hr, hstep⟩
  next => cases hstep

theorem Inv.load (h : Inv cfg s) (hstep : step cfg s (.load i) = some t) : Inv cfg t := by
  obtain ⟨k, hk, rfl, -, -, ⟨r, hr, rfl⟩ | ⟨-, hfinish⟩⟩ := load_cases hstep
  · refine ⟨h.gated, h.rows, h.fanOuts, h.ids, fun i hi => ?_, fun k' hk' e he => ?_⟩
    · have hne : i ≠ k.id := fun heq => absurd (h.ids k hk) (by rw [← heq]; exact hi.not_gt)
      exact (Function.update_of_ne hne ..).trans (h.fresh i hi)
    · by_cases hid : k'.id = k.id
      · obtain rfl := s.dispatcher.tasks.key_inj hk' hk hid
        have hread : r.endpointId = e := by simpa using he
        rw [← hread]
        exact h.row hr
      · simp only [Function.update_of_ne hid] at he
        exact h.attempts k' hk' e he
  · exact h.dispatch hfinish

theorem Inv.publish (h : Inv cfg s) (m : DeliveryMessage) : Inv cfg (s.publish m) := by
  have hgated := h.gated
  exact ⟨⟨hgated.permits, hgated.gates, hgated.waiters, hgated.own⟩, h.rows, h.fanOuts, h.ids,
    h.fresh, h.attempts⟩

theorem Inv.setFanOut (h : Inv cfg s) {relay : ℕ} {rows : List Delivery}
    (hrows : ∀ d ∈ rows, d.endpointId = cfg.endpointOf d.id) : Inv cfg (s.setFanOut relay rows) := by
  refine ⟨h.gated, h.rows, fun relay' d hd => ?_, h.ids, h.fresh, h.attempts⟩
  rcases eq_or_ne relay' relay with rfl | hne
  · simp only [Dispatching.setFanOut, Function.update_self] at hd
    exact hrows d hd
  · simp only [Dispatching.setFanOut, Function.update_of_ne hne] at hd
    exact h.fanOuts relay' d hd

theorem Inv.setDeliveries (h : Inv cfg s) {deliveries : Table Delivery}
    (hrows : ∀ d ∈ deliveries.rows, d.endpointId = cfg.endpointOf d.id) :
    Inv cfg { s with deliveries } :=
  ⟨h.gated, hrows, h.fanOuts, h.ids, h.fresh, h.attempts⟩

theorem Inv.step (h : Inv cfg s) (hstep : step cfg s a = some t) : Inv cfg t := by
  cases a with
  | fanOut relay d correlationId =>
    simp only [Dispatching.step] at hstep
    split at hstep
    next hd =>
      obtain rfl := Option.some.inj hstep
      refine (h.publish _).setFanOut fun d' hd' => ?_
      rcases List.mem_append.mp hd' with hd' | hd'
      · exact h.fanOuts relay d' hd'
      · rw [List.mem_singleton.mp hd']
        exact hd
    next => cases hstep
  | commitFanOut relay =>
    obtain ⟨deliveries, hins, rfl⟩ := Option.map_eq_some_iff.mp hstep
    refine Inv.setDeliveries (h.setFanOut (by simp)) fun d hd => ?_
    rw [Table.rows_insertAll hins, List.mem_append] at hd
    exact hd.elim (h.rows d) (h.fanOuts relay d)
  | rollbackFanOut relay =>
    obtain rfl := Option.some.inj hstep
    exact h.setFanOut (by simp)
  | enqueue deliveryId correlationId =>
    obtain rfl := Option.some.inj hstep
    exact h.publish _
  | deleteEndpoint endpointId =>
    obtain rfl := Option.some.inj hstep
    exact h.setDeliveries fun d hd => h.rows d (List.mem_of_mem_filter hd)
  | read count => exact h.dispatch hstep
  | start => exact h.dispatch hstep
  | lookup i =>
    obtain ⟨found, hd⟩ := h.lookup hstep
    exact h.dispatch hd
  | load i => exact h.load hstep
  | send i =>
    simp only [Dispatching.step] at hstep
    split at hstep
    next => exact h.dispatch hstep
    next => cases hstep
  | finish i => exact h.dispatch hstep

/-- No attempt finds a delivery that the lookup of its own task missed. -/
def AttemptAsLookedUp (s : Dispatching) (a : DispatchingAction) (_ : Dispatching) : Prop :=
  match a with
  | .load i => ∀ k ∈ s.dispatcher.tasks.get i, k.phase = .admitted none →
      s.deliveries.get k.message.deliveryId = none
  | _ => True

instance (s : Dispatching) (a : DispatchingAction) (t : Dispatching) :
    Decidable (AttemptAsLookedUp s a t) :=
  match a with
  | .load i => inferInstanceAs
      (Decidable (∀ k ∈ s.dispatcher.tasks.get i, k.phase = .admitted none → _ = none))
  | .fanOut .. | .commitFanOut .. | .rollbackFanOut .. | .enqueue .. | .deleteEndpoint ..
  | .read .. | .start | .lookup .. | .send .. | .finish .. => isTrue trivial

/-- A task with an attempt holds a permit of an endpoint. -/
def Permitted (s : Dispatching) : Prop :=
  ∀ k ∈ s.dispatcher.tasks.rows, s.attempts k.id ≠ none → k.phase.gate? ≠ none

theorem Permitted.dispatch (h : Inv cfg s) (hp : s.Permitted)
    (hd : s.dispatch cfg d = some t) : t.Permitted := by
  obtain ⟨u, hu, rfl⟩ := dispatch_eq_some.mp hd
  intro k hk hattempt
  rcases h.gated.tasks_step hu hk with ⟨k₀, hk₀, hid, -, hmove⟩ | ⟨-, hid, -⟩
  · have hgate := hp k₀ hk₀ (hid ▸ hattempt)
    generalize k.phase = phase at hmove
    cases hmove with
    | stay => exact hgate
    | looked hphase => simp [hphase, TaskPhase.gate?] at hgate
    | woken hphase => simp [hphase, TaskPhase.gate?] at hgate
    | send _ hphase =>
      rw [hphase] at hgate
      exact hgate
  · exact absurd (h.fresh k.id hid.ge) hattempt

theorem Permitted.step (h : Inv cfg s) (hp : s.Permitted) (hR : AttemptAsLookedUp s a t)
    (hstep : step cfg s a = some t) : t.Permitted := by
  cases a with
  | fanOut relay d correlationId =>
    simp only [Dispatching.step] at hstep
    split at hstep
    next =>
      obtain rfl := Option.some.inj hstep
      exact hp
    next => cases hstep
  | commitFanOut relay =>
    obtain ⟨deliveries, -, rfl⟩ := Option.map_eq_some_iff.mp hstep
    exact hp
  | rollbackFanOut relay => exact Option.some.inj hstep ▸ hp
  | enqueue deliveryId correlationId => exact Option.some.inj hstep ▸ hp
  | deleteEndpoint endpointId => exact Option.some.inj hstep ▸ hp
  | read count => exact hp.dispatch h hstep
  | start => exact hp.dispatch h hstep
  | lookup i =>
    obtain ⟨found, hd⟩ := h.lookup hstep
    exact hp.dispatch h hd
  | load i =>
    obtain ⟨k, hk, rfl, gate, hphase, ⟨r, hr, rfl⟩ | ⟨-, hfinish⟩⟩ := load_cases hstep
    · intro k' hk' hattempt
      by_cases hid : k'.id = k.id
      · obtain rfl := s.dispatcher.tasks.key_inj hk' hk hid
        cases gate with
        | none =>
          rw [hR k' (Table.get_of_mem hk) hphase] at hr
          cases hr
        | some e => simp [hphase, TaskPhase.gate?]
      · simp only [Function.update_of_ne hid] at hattempt
        exact hp k' hk' hattempt
    · exact hp.dispatch h hfinish
  | send i =>
    simp only [Dispatching.step] at hstep
    split at hstep
    next => exact hp.dispatch h hstep
    next => cases hstep
  | finish i => exact hp.dispatch h hstep

theorem Inv.sends_le (h : Inv cfg s) : s.sends ≤ cfg.concurrency := by
  have hpermits := h.gated.permits
  have hcount : s.sends ≤ s.dispatcher.tasks.rows.length := List.countP_le_length
  omega

/-- Every send to an endpoint holds one of its permits. -/
theorem Permitted.sendsTo_le (h : Inv cfg s) (hp : s.Permitted) (e : UUID) :
    s.sendsTo e ≤ cfg.perEndpointConcurrency := by
  have hheld : s.sendsTo e ≤ s.dispatcher.holders e := by
    refine List.countP_mono_left fun k hk hsend => ?_
    rw [Bool.and_eq_true, decide_eq_true_eq] at hsend
    obtain ⟨e', hgate⟩ := Option.ne_none_iff_exists'.mp (hp k hk (by simp [hsend.2]))
    have hown : k.phase.endpoint? = some e' := by
      cases hphase : k.phase <;> simp [hphase, TaskPhase.gate?, TaskPhase.endpoint?] at hgate ⊢
      · exact hgate
      · exact hgate
    have he' := h.gated.own k hk e' hown
    have he := h.attempts k hk e hsend.2
    simp [hgate, he', he]
  have hgates := h.gated.gates e
  omega

/-- The total cap holds in every run; an endpoint's cap does in those whose attempts find no
delivery that their task's lookup missed. -/
theorem send_caps_hold (cfg : DispatcherConfig) {s t : Dispatching} {as : List DispatchingAction}
    (hs : Init cfg s) (h : run cfg s as = some t) :
    t.sends ≤ cfg.concurrency ∧
      (Transition.Always (step cfg) AttemptAsLookedUp s as →
        ∀ e, t.sendsTo e ≤ cfg.perEndpointConcurrency) := by
  constructor
  · exact (Transition.run_invariant (fun _ _ _ hu hstep => hu.step hstep) hs.inv h).sends_le
  · intro hR e
    have hinit : Inv cfg s ∧ s.Permitted := ⟨hs.inv, fun k hk hne => absurd (hs.attempts k.id) hne⟩
    obtain ⟨hinv, hp⟩ := Transition.Always.invariant
      (I := fun u => Inv cfg u ∧ u.Permitted)
      (fun u a v hu hRu hstep => ⟨hu.1.step hstep, hu.2.step hu.1 hRu hstep⟩) hinit hR h
    exact hp.sendsTo_le hinv e

/-- Two places in the pool, one for the endpoint 0, to which every delivery goes. -/
def sampleCaps : DispatcherConfig := ⟨2, 1, fun _ => 0⟩

def idle : Dispatching := ⟨Dispatcher.init sampleCaps [], .empty, fun _ => [], fun _ => none⟩

def firstDelivery : Delivery := ⟨3, 7, 0, .pending, 0, 0, none⟩

def secondDelivery : Delivery := ⟨4, 8, 0, .pending, 0, 0, none⟩

/-- The rows are committed between the two lookups: the first task ends without a send. -/
def lateLookup : List DispatchingAction :=
  [.fanOut 0 firstDelivery none, .fanOut 0 secondDelivery none, .read 2, .start, .start,
    .lookup 0, .load 0, .commitFanOut 0, .lookup 1, .load 1, .send 1]

theorem idle_init : Init sampleCaps idle :=
  ⟨⟨[], rfl⟩, fun _ hd => (List.not_mem_nil hd).elim, fun _ => rfl, fun _ => rfl⟩

theorem send_caps_sample :
    ∃ t, run sampleCaps idle lateLookup = some t ∧ t.sendsTo 0 = 1 ∧ t.sends ≤ 2 ∧
      t.sendsTo 0 ≤ 1 := by
  have hrun : (run sampleCaps idle lateLookup).map (fun t => t.sendsTo 0) = some 1 := by
    decide +kernel
  obtain ⟨t, ht, hsends⟩ := Option.map_eq_some_iff.mp hrun
  obtain ⟨htotal, hcap⟩ := send_caps_hold sampleCaps idle_init ht
  exact ⟨t, ht, hsends, htotal, hcap (by decide +kernel) 0⟩

/-- Both lookups come before the commit and both attempts after it: two sends at once to an
endpoint whose cap is one. -/
theorem ungated_sends :
    Init sampleCaps idle ∧ ∃ t, run sampleCaps idle
        [.fanOut 0 firstDelivery none, .fanOut 0 secondDelivery none, .read 2, .start, .start,
          .lookup 0, .lookup 1, .commitFanOut 0, .load 0, .load 1, .send 0, .send 1] = some t ∧
      t.sendsTo 0 = 2 ∧ ¬ t.sendsTo 0 ≤ sampleCaps.perEndpointConcurrency := by
  refine ⟨idle_init, ?_⟩
  have hrun : (run sampleCaps idle
      [.fanOut 0 firstDelivery none, .fanOut 0 secondDelivery none, .read 2, .start, .start,
        .lookup 0, .lookup 1, .commitFanOut 0, .load 0, .load 1, .send 0, .send 1]).map
      (fun t => t.sendsTo 0) = some 2 := by
    decide +kernel
  obtain ⟨t, ht, hsends⟩ := Option.map_eq_some_iff.mp hrun
  exact ⟨t, ht, hsends, by rw [hsends]; decide⟩

end Dispatching
end RelayWebhooks
