import RelayWebhooks.Pipeline.Frames
import RelayWebhooks.Pipeline.FanOutTx

/-! The passes of a relay over the outbox, as its loop runs them, and the schedules of the pipeline
they are. -/
namespace RelayWebhooks

namespace Relay
open Pipeline

/-- The store as the transaction of a pass sees it, the stream, and the keys that were generated. -/
structure Pass where
  db : Db
  stream : DeliveryStream
  issued : List UUID

/-- `claim_due`: locks the oldest pending rows that nobody has locked, and counts the claim. -/
def claimed (s : Pipeline) (now : ℤ) (limit : ℕ) : List OutboxEntry :=
  (s.dueEntries limit).map fun o => { o with lockedAt := some now, attempts := o.attempts + 1 }

def claimDue (s : Pipeline) (now : ℤ) (limit : ℕ) : Pass where
  db := { s.db with outbox := (claimed s now limit).foldl Table.update s.db.outbox }
  stream := s.stream
  issued := s.issued

def markProcessed (id : UUID) (p : Pass) : Except Pass Pass :=
  match p.db.markProcessed id with
  | .ok db => .ok { p with db }
  | .error _ => .error p

/-- What the pass is answered: `keys` is the key the store generates for a new row, `now()` the
start of the transaction, and a call of Redis or the commit may raise. -/
structure Generator where
  keys : List UUID → UUID
  now : ℤ
  xaddRaises : List UUID → Bool := fun _ => false
  commitRaises : Bool := false

/-- A row and a message for each target. An exception leaves the messages that were sent. -/
def fanOut (gen : Generator) (ev : Event) : List Endpoint → Pass → Except Pass Pass
  | [], p => .ok p
  | e :: es, p =>
    match p.db.createDelivery (gen.keys p.issued) ev.id e.id gen.now with
    | .ok (db, d) =>
      let issued := gen.keys p.issued :: p.issued
      if gen.xaddRaises issued then .error { p with issued }
      else fanOut gen ev es { db, stream := p.stream.enqueueDelivery d.id ev.correlationId, issued }
    | .error _ => .error p

/-- `_process_entry`. -/
def processEntry (gen : Generator) (o : OutboxEntry) (p : Pass) : Except Pass Pass :=
  match p.db.events.get o.eventId with
  | none => markProcessed o.id p
  | some ev =>
    (fanOut gen ev (p.db.listActiveSubscribed ev.tenantId ev.type) p).bind (markProcessed o.id)

def processAll (gen : Generator) : List OutboxEntry → Pass → Except Pass Pass
  | [], p => .ok p
  | o :: os, p => (processEntry gen o p).bind (processAll gen os)

/-- `run_once`: the unit of work commits at its end, or is rolled back by an exception. -/
def runOnce (gen : Generator) (now : ℤ) (limit : ℕ) (s : Pipeline) : Pipeline :=
  match processAll gen (claimed s now limit) (claimDue s now limit) with
  | .ok p =>
    if gen.commitRaises then { s with stream := p.stream, issued := p.issued }
    else { s with db := p.db, stream := p.stream, issued := p.issued }
  | .error p => { s with stream := p.stream, issued := p.issued }

/-- The store generates keys that it has not generated before, as long as there are any. -/
def Fresh (keys : List UUID → UUID) : Prop :=
  ∀ issued, issued.length < 2 ^ 128 → keys issued ∉ issued

variable {le : RetryMember → RetryMember → Bool} {gen : Generator} {s t : Pipeline} {tx : RelayTx}
  {p q : Pass} {ev : Event} {o : OutboxEntry} {r : ℕ}

/-- The pipeline in the middle of a pass. -/
structure Sim (s : Pipeline) (p : Pass) (tx : RelayTx) (t : Pipeline) : Prop where
  state : t = { s with stream := p.stream, issued := p.issued, relays := t.relays }
  opened : t.relays.get tx.id = some tx
  others : t.relays.deleteWhere (fun x => x.id = tx.id) = s.relays
  db : p.db = { s.db with
    outbox := tx.claimed.foldl Table.update s.db.outbox, deliveries := p.db.deliveries }
  created : s.db.deliveries.insertAll tx.created = some p.db.deliveries
  keyed : ∀ d ∈ tx.created, d.id ∈ p.issued

/-- The rows that the pass has locked are stored, and it has only such rows to process. -/
structure Locked (s : Pipeline) (tx : RelayTx) : Prop where
  nodup : (tx.claimed.map (·.id)).Nodup
  stored : ∀ c ∈ tx.claimed, (s.db.outbox.get c.id).isSome
  queue : ∀ o ∈ tx.queue, o.id ∈ tx.claimed.map (·.id)

theorem Sim.outbox (h : Sim s p tx t) :
    tx.claimed.foldl Table.update s.db.outbox = p.db.outbox := by
  have hdb := congrArg Db.outbox h.db
  exact hdb.symm

/-- The transaction moves on, and writes outbox rows. -/
theorem Sim.setTx (h : Sim s p tx t) {tx' : RelayTx} (hid : tx'.id = tx.id)
    (hcreated : tx'.created = tx.created)
    (hq : q = { p with
      db := { p.db with outbox := tx'.claimed.foldl Table.update s.db.outbox } }) :
    Sim s q tx' (t.setTx tx') where
  state := by
    rw [hq, h.state]
    rfl
  opened := Table.get_update_self (x := tx) (by rw [RelayTx.key_eq, hid, h.opened])
  others := by
    rw [hid]
    refine (Table.deleteWhere_update _ fun x hx => ?_).trans h.others
    exact decide_eq_true (hx.trans hid)
  db := by rw [hq, h.db]
  created := by
    rw [hcreated, hq]
    exact h.created
  keyed := by
    rw [hcreated, hq]
    exact h.keyed

/-- The transaction moves on and writes nothing. -/
theorem Sim.next (h : Sim s p tx t) {tx' : RelayTx} (hid : tx'.id = tx.id)
    (hclaimed : tx'.claimed = tx.claimed) (hcreated : tx'.created = tx.created) :
    Sim s p tx' (t.setTx tx') :=
  h.setTx hid hcreated (by rw [hclaimed, h.outbox])

/-- The transaction is rolled back; what was sent stays on the stream. -/
theorem Sim.dropTx (h : Sim s p tx t) :
    t.dropTx tx.id = { s with stream := p.stream, issued := p.issued } := by
  have hrest := h.others
  rw [Pipeline.dropTx, hrest, h.state]

/-- The pass begins. -/
theorem sim_claimDue (hr : s.relays.get r = none) (now : ℤ) (limit : ℕ) :
    ∃ t, s.claimDue r now limit = some t ∧
      Sim s (claimDue s now limit) ⟨r, claimed s now limit, claimed s now limit, .between, []⟩ t ∧
      Locked s ⟨r, claimed s now limit, claimed s now limit, .between, []⟩ := by
  let tx : RelayTx := ⟨r, claimed s now limit, claimed s now limit, .between, []⟩
  obtain ⟨relays, hins⟩ : ∃ relays, s.relays.insert tx = some relays := by
    cases hins : s.relays.insert tx with
    | some relays => exact ⟨relays, rfl⟩
    | none =>
      obtain ⟨x, hx⟩ := Table.insert_eq_none.mp hins
      cases hr.symm.trans hx
  have hother : ∀ x ∈ s.relays.rows, decide (x.id = r) = false := fun x hx =>
    decide_eq_false (Table.get_eq_none.mp hr x hx)
  refine ⟨{ s with relays }, ?_, ⟨rfl, Table.get_insert_self hins,
    Table.deleteWhere_insert hins (decide_eq_true rfl) hother, rfl, rfl, by simp⟩, ?_⟩
  · exact (congrArg (Option.map fun relays => { s with relays }) hins)
  · have hcol : (claimed s now limit).map (·.id) = (s.dueEntries limit).map (·.id) := by
      rw [claimed, List.map_map]
      rfl
    refine ⟨?_, fun c hc => ?_, fun o ho => List.mem_map_of_mem ho⟩
    · show ((claimed s now limit).map (·.id)).Nodup
      rw [hcol]
      exact Traced.nodup_dueEntries _ limit s.db.outbox.nodup
    · obtain ⟨o, ho, rfl⟩ := List.mem_map.mp hc
      show (s.db.outbox.get o.id).isSome
      rw [← OutboxEntry.key_eq, Table.get_of_mem (Traced.mem_dueEntries ho).1]
      rfl

/-- An entry is marked processed, in the store of the pass and among the claimed rows. -/
theorem Sim.mark (h : Sim s p tx t) (hL : Locked s tx) {id : UUID}
    (hid : id ∈ tx.claimed.map (·.id)) (queue : List OutboxEntry) :
    ∃ q, markProcessed id p = .ok q ∧ q.issued = p.issued ∧
      Sim s q ⟨tx.id, tx.markProcessed id, queue, .between, tx.created⟩
        (t.setTx ⟨tx.id, tx.markProcessed id, queue, .between, tx.created⟩) := by
  obtain ⟨c, hc, rfl⟩ := List.mem_map.mp hid
  have hget : p.db.outbox.get c.id = some c := by
    rw [← h.outbox]
    exact Table.get_foldl_update_of_mem hL.nodup hc (hL.stored c hc)
  have hfold : (tx.markProcessed c.id).foldl Table.update s.db.outbox =
      p.db.outbox.update { c with status := .processed } := by
    rw [← h.outbox]
    exact Table.foldl_update_modify (r := c) (f := fun o => { o with status := .processed })
      s.db.outbox hL.nodup hc fun _ => rfl
  let outbox := p.db.outbox.update { c with status := .processed }
  refine ⟨{ p with db := { p.db with outbox } }, ?_, rfl, h.setTx rfl rfl ?_⟩
  · simp [markProcessed, Db.markProcessed, hget, outbox]
  · dsimp only
    rw [hfold]

theorem Locked.mark (hL : Locked s tx) (id : UUID) {queue : List OutboxEntry}
    (hqueue : ∀ o ∈ queue, o ∈ tx.queue) {created : List Delivery} :
    Locked s ⟨tx.id, tx.markProcessed id, queue, .between, created⟩ := by
  have hcol : (tx.markProcessed id).map (·.id) = tx.claimed.map (·.id) := by
    rw [RelayTx.markProcessed, List.map_map]
    refine List.map_congr_left fun o _ => ?_
    simp only [Function.comp_apply]
    split <;> rfl
  refine ⟨?_, fun c hc => ?_, fun o ho => ?_⟩
  · show ((tx.markProcessed id).map (·.id)).Nodup
    rw [hcol]
    exact hL.nodup
  · have hcid : c.id ∈ tx.claimed.map (·.id) := hcol ▸ List.mem_map_of_mem hc
    obtain ⟨c₀, hc₀, heq⟩ := List.mem_map.mp hcid
    exact heq ▸ hL.stored c₀ hc₀
  · show o.id ∈ (tx.markProcessed id).map (·.id)
    rw [hcol]
    exact hL.queue o (hqueue o ho)

theorem createDelivery_isOk {db : Db} {id eventId endpointId : UUID} {createdAt : ℤ} :
    (∃ r, db.createDelivery id eventId endpointId createdAt = .ok r) ↔
      (db.events.get eventId).isSome ∧ (db.endpoints.get endpointId).isSome ∧
        db.deliveries.get id = none := by
  constructor
  · rintro ⟨⟨db', d⟩, h⟩
    exact (Db.createDelivery_ok h).2
  · rintro ⟨hev, he, hget⟩
    obtain ⟨ev, hev⟩ := Option.isSome_iff_exists.mp hev
    obtain ⟨e, he⟩ := Option.isSome_iff_exists.mp he
    let d : Delivery := { id, eventId, endpointId, state := .pending, attemptCount := 0, createdAt }
    cases hins : db.deliveries.insert d with
    | none =>
      obtain ⟨x, hx⟩ := Table.insert_eq_none.mp hins
      cases hget.symm.trans hx
    | some deliveries =>
      refine ⟨({ db with deliveries }, d), ?_⟩
      simp only [Db.createDelivery, hev, he]
      rw [show db.deliveries.insert _ = some deliveries from hins]

/-- A new key is taken in the store of the pass if it is taken in the committed store. -/
theorem Sim.get_eq_none (h : Sim s p tx t) {id : UUID} (hfresh : id ∉ p.issued) :
    p.db.deliveries.get id = none ↔ s.db.deliveries.get id = none := by
  have hrows := Table.rows_insertAll h.created
  rw [Table.get_eq_none, Table.get_eq_none, hrows]
  constructor
  · exact fun hall d hd => hall d (List.mem_append_left _ hd)
  · intro hall d hd
    rcases List.mem_append.mp hd with hd | hd
    · exact hall d hd
    · exact fun hid => hfresh (hid ▸ h.keyed d hd)

theorem Sim.events (h : Sim s p tx t) : p.db.events = s.db.events := by rw [h.db]

theorem Sim.endpoints (h : Sim s p tx t) : p.db.endpoints = s.db.endpoints := by rw [h.db]

/-- The insert in the store of the pass and the one in the committed store agree. -/
theorem Sim.createDelivery_isOk (h : Sim s p tx t) {id eventId endpointId : UUID} {createdAt : ℤ}
    (hfresh : id ∉ p.issued) :
    (∃ r, p.db.createDelivery id eventId endpointId createdAt = .ok r) ↔
      ∃ r, s.db.createDelivery id eventId endpointId createdAt = .ok r := by
  rw [Relay.createDelivery_isOk, Relay.createDelivery_isOk, h.get_eq_none hfresh, h.events,
    h.endpoints]

/-- The row is inserted: the pass sees it, and so will the store when the transaction commits. -/
theorem Sim.inserted_one {claimed queue : List OutboxEntry} {created : List Delivery} {e : Endpoint}
    {es : List Endpoint} {db : Db} {d : Delivery} {createdAt : ℤ} {id : UUID}
    (h : Sim s p ⟨r, claimed, queue, .fanOut o ev (e :: es), created⟩ t) (hfresh : id ∉ p.issued)
    (hd : p.db.createDelivery id ev.id e.id createdAt = .ok (db, d)) :
    t.step le (.createDelivery r id createdAt) =
        some { t.setTx ⟨r, claimed, queue, .publishing o ev es d, created⟩ with
               issued := id :: p.issued } := by
  obtain ⟨rfl, -⟩ := Db.createDelivery_ok hd
  obtain ⟨⟨db₁, d₁⟩, hd₁⟩ := (h.createDelivery_isOk hfresh).mp ⟨_, hd⟩
  obtain ⟨rfl, -⟩ := Db.createDelivery_ok hd₁
  have hissued : t.issued = p.issued := by rw [h.state]
  have hdb : t.db = s.db := by rw [h.state]
  show t.createDelivery r id createdAt = _
  rw [Pipeline.createDelivery, h.opened, hdb, hissued]
  dsimp only
  rw [if_neg hfresh, hd₁]

/-- The XADD raises: the row goes with the transaction, and its key stays used. -/
theorem Sim.unsent_one (le : RetryMember → RetryMember → Bool)
    {claimed queue : List OutboxEntry} {created : List Delivery} {e : Endpoint}
    {es : List Endpoint} {db : Db} {d : Delivery} {createdAt : ℤ} {id : UUID}
    (h : Sim s p ⟨r, claimed, queue, .fanOut o ev (e :: es), created⟩ t) (hfresh : id ∉ p.issued)
    (hd : p.db.createDelivery id ev.id e.id createdAt = .ok (db, d)) :
    Transition.run (step le) t [.createDelivery r id createdAt, .rollback r] =
      some { s with stream := p.stream, issued := id :: p.issued } := by
  let tx : RelayTx := ⟨r, claimed, queue, .publishing o ev es d, created⟩
  let t₁ : Pipeline := { t.setTx tx with issued := id :: p.issued }
  have hcreate : t.step le (.createDelivery r id createdAt) = some t₁ :=
    h.inserted_one hfresh hd
  have hopened : t₁.relays.get r = some tx := Table.get_update_self (x := _) h.opened
  have hothers : t₁.relays.deleteWhere (fun x => x.id = r) = s.relays :=
    (Table.deleteWhere_update _ fun x hx => decide_eq_true hx).trans h.others
  have hrollback : t₁.step le (.rollback r) =
      some { s with stream := p.stream, issued := id :: p.issued } := by
    show t₁.rollback r = _
    rw [Pipeline.rollback, hopened]
    show some (t₁.dropTx r) = _
    rw [Pipeline.dropTx, hothers]
    simp only [t₁, Pipeline.setTx]
    rw [h.state]
  exact Transition.run_trans (Transition.run_one hcreate) (Transition.run_one hrollback)

/-- The row is inserted and its message sent. -/
theorem Sim.created_one (le : RetryMember → RetryMember → Bool)
    {claimed queue : List OutboxEntry} {created : List Delivery} {e : Endpoint}
    {es : List Endpoint} {db : Db} {d : Delivery} {createdAt : ℤ} {id : UUID}
    (h : Sim s p ⟨r, claimed, queue, .fanOut o ev (e :: es), created⟩ t) (hfresh : id ∉ p.issued)
    (hd : p.db.createDelivery id ev.id e.id createdAt = .ok (db, d)) :
    ∃ t', Transition.run (step le) t [.createDelivery r id createdAt, .publish r] = some t' ∧
      Sim s ⟨db, p.stream.enqueueDelivery d.id ev.correlationId, id :: p.issued⟩
        ⟨r, claimed, queue, .fanOut o ev es, created ++ [d]⟩ t' := by
  let tx₁ : RelayTx := ⟨r, claimed, queue, .publishing o ev es d, created⟩
  let tx₂ : RelayTx := ⟨r, claimed, queue, .fanOut o ev es, created ++ [d]⟩
  let t₁ : Pipeline := { t.setTx tx₁ with issued := id :: p.issued }
  let t₂ : Pipeline := (t₁.setTx tx₂).enqueue d.id ev.correlationId
  have hcreate : t.step le (.createDelivery r id createdAt) = some t₁ :=
    h.inserted_one hfresh hd
  obtain ⟨hrow, -⟩ := Db.createDelivery_ok hd
  obtain ⟨deliveries, hins, rfl⟩ := Db.createDelivery_insert hd
  have hopened : t₁.relays.get r = some tx₁ :=
    Table.get_update_self (x := _) h.opened
  have hpublish : t₁.step le (.publish r) = some t₂ := by
    show t₁.publish r = some t₂
    rw [Pipeline.publish, hopened]
  refine ⟨t₂, ?_, ?_⟩
  · exact Transition.run_trans (Transition.run_one hcreate) (Transition.run_one hpublish)
  · constructor
    · show t₂ = _
      simp only [t₂, t₁, Pipeline.enqueue, Pipeline.setTx]
      rw [h.state]
    · exact Table.get_update_self hopened
    · have hgone : ∀ x : RelayTx, x.id = r → decide (x.id = r) = true := fun x hx =>
        decide_eq_true hx
      exact (Table.deleteWhere_update _ hgone).trans
        ((Table.deleteWhere_update _ hgone).trans h.others)
    · show { p.db with deliveries } = _
      rw [h.db]
    · show s.db.deliveries.insertAll (created ++ [d]) = some deliveries
      rw [Table.insertAll_append h.created, Table.insertAll, hins]
      rfl
    · intro c hc
      rcases List.mem_append.mp hc with hc | hc
      · exact List.mem_cons_of_mem _ (h.keyed c hc)
      · rw [List.mem_singleton.mp hc, hrow]
        exact List.mem_cons_self

/-- What the pipeline makes of a part of the pass: the transaction goes on from a place, with `n`
keys generated, or it is rolled back. -/
def Comes (le : RetryMember → RetryMember → Bool) (s t : Pipeline) (place : RelayTx → Prop)
    (n : ℕ) : Except Pass Pass → Prop
  | .ok q => ∃ as t' tx, Transition.run (step le) t as = some t' ∧ Sim s q tx t' ∧ Locked s tx ∧
      place tx ∧ q.issued.length = n
  | .error q => ∃ as, Transition.run (step le) t as =
      some { s with stream := q.stream, issued := q.issued }

theorem Comes.prepend {u : Pipeline} {place : RelayTx → Prop} {n : ℕ} {result : Except Pass Pass}
    {as : List PipelineAction} (hrun : Transition.run (step le) t as = some u)
    (h : Comes le s u place n result) : Comes le s t place n result := by
  cases result with
  | ok q =>
    obtain ⟨bs, t', tx, hbs, h⟩ := h
    exact ⟨as ++ bs, t', tx, Transition.run_trans hrun hbs, h⟩
  | error q =>
    obtain ⟨bs, hbs⟩ := h
    exact ⟨as ++ bs, Transition.run_trans hrun hbs⟩

/-- Two parts, one after the other. -/
theorem Comes.bind {place place' : RelayTx → Prop} {n n' : ℕ} {result : Except Pass Pass}
    {f : Pass → Except Pass Pass} (h : Comes le s t place n result)
    (hf : ∀ q tx t', Sim s q tx t' → Locked s tx → place tx → q.issued.length = n →
      Comes le s t' place' n' (f q)) : Comes le s t place' n' (result.bind f) := by
  cases result with
  | ok q =>
    obtain ⟨as, t', tx, hrun, hsim, hL, hplace, hlen⟩ := h
    exact (hf q tx t' hsim hL hplace hlen).prepend hrun
  | error q => exact h

theorem Sim.fanOut (le : RetryMember → RetryMember → Bool) (hg : Fresh gen.keys)
    {claimed queue : List OutboxEntry} {targets : List Endpoint} {created : List Delivery}
    (h : Sim s p ⟨r, claimed, queue, .fanOut o ev targets, created⟩ t)
    (hL : Locked s ⟨r, claimed, queue, .fanOut o ev targets, created⟩)
    (hroom : p.issued.length + targets.length ≤ 2 ^ 128) :
    Comes le s t (fun tx => ∃ created, tx = ⟨r, claimed, queue, .fanOut o ev [], created⟩)
      (p.issued.length + targets.length) (Relay.fanOut gen ev targets p) := by
  induction targets generalizing p t created with
  | nil => exact ⟨[], t, _, rfl, h, hL, ⟨created, rfl⟩, rfl⟩
  | cons e es ih =>
    rw [List.length_cons] at hroom
    have hfresh : gen.keys p.issued ∉ p.issued := hg _ (by omega)
    rw [Relay.fanOut]
    cases hd : p.db.createDelivery (gen.keys p.issued) ev.id e.id gen.now with
    | ok res =>
      obtain ⟨db, d⟩ := res
      dsimp only
      split
      next => exact ⟨_, h.unsent_one le hfresh hd⟩
      obtain ⟨t', hrun, hsim⟩ := h.created_one le hfresh hd
      have hnext := ih hsim ⟨hL.nodup, hL.stored, hL.queue⟩ (by
        rw [List.length_cons]
        omega)
      have hlen : (gen.keys p.issued :: p.issued).length + es.length =
          p.issued.length + (e :: es).length := by
        rw [List.length_cons, List.length_cons]
        omega
      exact hlen ▸ hnext.prepend hrun
    | error err =>
      have hnone : ∀ x, s.db.createDelivery (gen.keys p.issued) ev.id e.id gen.now ≠ .ok x := by
        intro x hx
        obtain ⟨y, hy⟩ := (h.createDelivery_isOk hfresh).mpr ⟨x, hx⟩
        rw [hd] at hy
        cases hy
      have hdrop : t.step le (.createDelivery r (gen.keys p.issued) gen.now) =
          some (t.dropTx r) := by
        have hissued : t.issued = p.issued := by rw [h.state]
        have hdb : t.db = s.db := by rw [h.state]
        show t.createDelivery r (gen.keys p.issued) gen.now = _
        rw [Pipeline.createDelivery, h.opened, hdb, hissued]
        dsimp only
        rw [if_neg hfresh]
        split
        next hok => exact (hnone _ hok).elim
        next => rfl
      rw [h.dropTx] at hdrop
      exact ⟨[_], Transition.run_one hdrop⟩

/-- The targets of an entry, as a transaction reads them. -/
def entryTargets (db : Db) (o : OutboxEntry) : List Endpoint :=
  match db.events.get o.eventId with
  | none => []
  | some ev => db.listActiveSubscribed ev.tenantId ev.type

theorem Sim.processEntry (hg : Fresh gen.keys) {claimed queue : List OutboxEntry}
    {created : List Delivery}
    (h : Sim s p ⟨r, claimed, o :: queue, .between, created⟩ t)
    (hL : Locked s ⟨r, claimed, o :: queue, .between, created⟩)
    (hroom : p.issued.length + (entryTargets s.db o).length ≤ 2 ^ 128) :
    Comes le s t (fun tx => ∃ claimed created, tx = ⟨r, claimed, queue, .between, created⟩)
      (p.issued.length + (entryTargets s.db o).length) (Relay.processEntry gen o p) := by
  have hdb : t.db = s.db := by rw [h.state]
  have hid : o.id ∈ claimed.map (·.id) := hL.queue o List.mem_cons_self
  have hqueue : ∀ x ∈ queue, x ∈ o :: queue := fun x hx => List.mem_cons_of_mem _ hx
  rw [Relay.processEntry, h.events]
  cases hev : s.db.events.get o.eventId with
  | none =>
    obtain ⟨q, hq, hlen, hsim⟩ := h.mark hL hid queue
    have hstep : t.step le (.openEntry r) = some (t.setTx ⟨r,
        RelayTx.markProcessed ⟨r, claimed, o :: queue, .between, created⟩ o.id, queue, .between,
        created⟩) := by
      show t.openEntry r = _
      rw [Pipeline.openEntry, h.opened]
      dsimp only
      rw [hdb, hev]
      rfl
    dsimp only
    rw [hq]
    refine ⟨[.openEntry r], _, _, Transition.run_one hstep, hsim,
      hL.mark o.id hqueue, ⟨_, _, rfl⟩, ?_⟩
    simp [hlen, entryTargets, hev]
  | some ev =>
    have htargets : entryTargets s.db o = s.db.listActiveSubscribed ev.tenantId ev.type := by
      simp [entryTargets, hev]
    have hlist : p.db.listActiveSubscribed ev.tenantId ev.type =
        s.db.listActiveSubscribed ev.tenantId ev.type := by
      rw [Db.listActiveSubscribed, h.endpoints]
      rfl
    rw [htargets] at hroom ⊢
    dsimp only
    rw [hlist]
    have hstep : t.step le (.openEntry r) = some (t.setTx ⟨r, claimed, queue,
        .fanOut o ev (s.db.listActiveSubscribed ev.tenantId ev.type), created⟩) := by
      show t.openEntry r = _
      rw [Pipeline.openEntry, h.opened]
      dsimp only
      rw [hdb, hev]
    have hsim : Sim s p ⟨r, claimed, queue,
        .fanOut o ev (s.db.listActiveSubscribed ev.tenantId ev.type), created⟩ (t.setTx _) :=
      h.next rfl rfl rfl
    have hfan := hsim.fanOut le hg
      ⟨hL.nodup, hL.stored, fun x hx => hL.queue x (hqueue x hx)⟩ hroom
    refine Comes.bind (hfan.prepend (Transition.run_one hstep)) ?_
    rintro q tx t' hsim' hL' ⟨created', rfl⟩ hlen
    obtain ⟨q', hq', hlen', hsim''⟩ := hsim'.mark hL' hid queue
    have hclose : t'.step le (.closeEntry r) = some (t'.setTx ⟨r,
        RelayTx.markProcessed ⟨r, claimed, queue, .fanOut o ev [], created'⟩ o.id, queue, .between,
        created'⟩) := by
      show t'.closeEntry r = _
      rw [Pipeline.closeEntry, hsim'.opened]
      rfl
    rw [hq']
    exact ⟨[.closeEntry r], _, _, Transition.run_one hclose, hsim'',
      hL'.mark o.id fun _ hx => hx, ⟨_, _, rfl⟩, hlen' ▸ hlen⟩

/-- The deliveries that a pass over the entries creates. -/
def targetCount (db : Db) (os : List OutboxEntry) : ℕ :=
  (os.map fun o => (entryTargets db o).length).sum

theorem Sim.processAll (le : RetryMember → RetryMember → Bool) (hg : Fresh gen.keys)
    {claimed queue : List OutboxEntry} {created : List Delivery}
    (h : Sim s p ⟨r, claimed, queue, .between, created⟩ t)
    (hL : Locked s ⟨r, claimed, queue, .between, created⟩)
    (hroom : p.issued.length + targetCount s.db queue ≤ 2 ^ 128) :
    Comes le s t (fun tx => ∃ claimed created, tx = ⟨r, claimed, [], .between, created⟩)
      (p.issued.length + targetCount s.db queue) (Relay.processAll gen queue p) := by
  induction queue generalizing p t claimed created with
  | nil => exact ⟨[], t, _, rfl, h, hL, ⟨claimed, created, rfl⟩, rfl⟩
  | cons o queue ih =>
    have hsum : targetCount s.db (o :: queue) =
        (entryTargets s.db o).length + targetCount s.db queue := by
      simp [targetCount]
    rw [hsum] at hroom ⊢
    refine (h.processEntry hg hL (by omega)).bind ?_
    rintro q tx t' hsim hL' ⟨claimed', created', rfl⟩ hlen
    have hnext := ih hsim hL' (by omega)
    rwa [hlen, Nat.add_assoc] at hnext

/-- The unit of work commits. -/
theorem Sim.commitRelay {claimed : List OutboxEntry} {created : List Delivery}
    (h : Sim s p ⟨r, claimed, [], .between, created⟩ t) :
    t.step le (.commitRelay r) =
      some { s with db := p.db, stream := p.stream, issued := p.issued } := by
  have hdb : t.db = s.db := by rw [h.state]
  have hdrop : t.dropTx r = { s with stream := p.stream, issued := p.issued } := h.dropTx
  show t.commitRelay r = _
  rw [Pipeline.commitRelay, h.opened, hdb, hdrop, h.db]
  dsimp only
  rw [h.created, h.outbox]
  rfl

/-- The unit of work is rolled back. -/
theorem Sim.rollback (h : Sim s p tx t) :
    t.step le (.rollback tx.id) = some { s with stream := p.stream, issued := p.issued } := by
  show t.rollback tx.id = _
  rw [Pipeline.rollback, h.opened, ← h.dropTx]
  rfl

/-- A pass of a relay that nobody interrupts is a schedule of the pipeline, also when an exception
rolls it back. -/
theorem run_runOnce (le : RetryMember → RetryMember → Bool) (gen : Generator)
    (hg : Fresh gen.keys) (now : ℤ) (limit : ℕ) (s : Pipeline) (r : ℕ) (hr : s.relays.get r = none)
    (hroom : s.issued.length + targetCount s.db (claimed s now limit) ≤ 2 ^ 128) :
    ∃ as, Transition.run (step le) s as = some (runOnce gen now limit s) := by
  obtain ⟨t, hclaim, hsim, hL⟩ := sim_claimDue hr now limit
  have hopen : Transition.run (step le) s [.claimDue r now limit] = some t :=
    Transition.run_one hclaim
  have hall := hsim.processAll le hg hL hroom
  unfold runOnce
  cases hres : processAll gen (claimed s now limit) (claimDue s now limit) with
  | ok q =>
    rw [hres] at hall
    obtain ⟨as, t', tx, hrun, hsim', -, ⟨claimed', created', rfl⟩, -⟩ := hall
    have hrun := Transition.run_trans hopen hrun
    dsimp only
    split
    next => exact ⟨_, Transition.run_trans hrun (Transition.run_one hsim'.rollback)⟩
    next => exact ⟨_, Transition.run_trans hrun (Transition.run_one hsim'.commitRelay)⟩
  | error q =>
    rw [hres] at hall
    obtain ⟨as, hrun⟩ := hall
    exact ⟨_, Transition.run_trans hopen hrun⟩

end Relay

end RelayWebhooks
