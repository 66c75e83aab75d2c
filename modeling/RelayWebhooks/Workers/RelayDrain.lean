import RelayWebhooks.Workers.Relay

/-! The passes of one relay empty the outbox: every pending entry is processed, and fanned out to
exactly the endpoints that are subscribed to its event. -/
namespace RelayWebhooks

namespace Relay
open Pipeline

variable {gen : Generator} {s t u : Pipeline} {p q : Pass} {ev : Event} {o : OutboxEntry}
  {new : List Delivery}

/-- The message of a delivery, under the correlation id of its event. -/
def message (db : Db) (d : Delivery) : DeliveryMessage :=
  ⟨d.id, (db.events.get d.eventId).bind (·.correlationId)⟩

/-- A row that nobody has worked on. -/
def Untouched (d : Delivery) : Prop :=
  d.state = .pending ∧ d.attemptCount = 0 ∧ d.nextRetryAt = none

/-- Neither Redis nor the store raises. -/
structure Generator.Answers (gen : Generator) : Prop where
  xadd : ∀ issued, gen.xaddRaises issued = false
  commit : gen.commitRaises = false

/-- The keys of the new rows had not been generated before. -/
structure FreshKeys (issued issued' : List UUID) (new : List Delivery) : Prop where
  used : ∀ x ∈ issued, x ∈ issued'
  fresh : ∀ d ∈ new, d.id ∉ issued

theorem FreshKeys.refl (issued : List UUID) : FreshKeys issued issued [] :=
  ⟨fun _ hx => hx, by simp⟩

theorem FreshKeys.trans {issued issued' issued'' : List UUID} {new' : List Delivery}
    (h : FreshKeys issued issued' new) (h' : FreshKeys issued' issued'' new') :
    FreshKeys issued issued'' (new ++ new') := by
  refine ⟨fun x hx => h'.used x (h.used x hx), fun d hd => ?_⟩
  rcases List.mem_append.mp hd with hd | hd
  · exact h.fresh d hd
  · exact fun hx => h'.fresh d hd (h.used _ hx)

/-- New rows and their messages, in the same order; all that is not the outbox stays as it is. -/
structure Brings (p q : Pass) (new : List Delivery) : Prop where
  events : q.db.events = p.db.events
  endpoints : q.db.endpoints = p.db.endpoints
  log : q.db.deliveryAttempts = p.db.deliveryAttempts
  group : q.stream.delivered = p.stream.delivered ∧ q.stream.pending = p.stream.pending
  rows : q.db.deliveries.rows = p.db.deliveries.rows ++ new
  entries : q.stream.entries = p.stream.entries ++ new.map (message p.db)
  untouched : ∀ d ∈ new, Untouched d
  keyed : ∀ d ∈ q.db.deliveries.rows, d.id ∈ q.issued
  issued : q.issued.length = p.issued.length + new.length
  freshKeys : FreshKeys p.issued q.issued new

theorem Brings.refl (h : ∀ d ∈ p.db.deliveries.rows, d.id ∈ p.issued) : Brings p p [] where
  events := rfl
  endpoints := rfl
  log := rfl
  group := ⟨rfl, rfl⟩
  rows := by rw [List.append_nil]
  entries := by rw [List.map_nil, List.append_nil]
  untouched := by simp
  keyed := h
  issued := rfl
  freshKeys := .refl _

theorem message_congr {db db' : Db} (h : db'.events = db.events) : message db' = message db := by
  funext d
  rw [message, h]
  rfl

theorem Brings.trans {r : Pass} {new' : List Delivery} (h : Brings p q new) (h' : Brings q r new') :
    Brings p r (new ++ new') where
  events := h'.events.trans h.events
  endpoints := h'.endpoints.trans h.endpoints
  log := h'.log.trans h.log
  group := ⟨h'.group.1.trans h.group.1, h'.group.2.trans h.group.2⟩
  rows := by rw [h'.rows, h.rows, List.append_assoc]
  entries := by
    rw [h'.entries, h.entries, message_congr h.events, List.map_append, List.append_assoc]
  untouched d hd := by
    rcases List.mem_append.mp hd with hd | hd
    · exact h.untouched d hd
    · exact h'.untouched d hd
  keyed := h'.keyed
  issued := by
    rw [h'.issued, h.issued, List.length_append]
    omega
  freshKeys := h.freshKeys.trans h'.freshKeys

theorem Brings.setOutbox (h : Brings p q new) (outbox : Table OutboxEntry) :
    Brings p { q with db := { q.db with outbox } } new :=
  ⟨h.events, h.endpoints, h.log, h.group, h.rows, h.entries, h.untouched, h.keyed, h.issued,
    h.freshKeys⟩

/-- The event and the endpoint of a delivery. -/
def pair (d : Delivery) : UUID × UUID := (d.eventId, d.endpointId)

/-- The outbox rows that are written keep their keys, and those under `ids` are processed. -/
def Settles (ids : List UUID) (t u : Table OutboxEntry) : Prop :=
  ∃ g : OutboxEntry → OutboxEntry, u.rows = t.rows.map g ∧
    ∀ x, (g x).id = x.id ∧ (x.id ∈ ids → (g x).status = .processed) ∧ (x.id ∉ ids → g x = x)

theorem Settles.refl (t : Table OutboxEntry) : Settles [] t t :=
  ⟨id, by simp, fun x => ⟨rfl, by simp, fun _ => rfl⟩⟩

theorem Settles.trans {ids ids' : List UUID} {t u v : Table OutboxEntry} (h : Settles ids t u)
    (h' : Settles ids' u v) : Settles (ids ++ ids') t v := by
  obtain ⟨g, hrows, hg⟩ := h
  obtain ⟨g', hrows', hg'⟩ := h'
  refine ⟨g' ∘ g, by rw [hrows', hrows, List.map_map], fun x => ?_⟩
  obtain ⟨hid, hin, hout⟩ := hg x
  obtain ⟨hid', hin', hout'⟩ := hg' (g x)
  rw [hid] at hin' hout' hid'
  refine ⟨hid', fun hx => ?_, fun hx => ?_⟩
  · by_cases hx' : x.id ∈ ids'
    · exact hin' hx'
    · rw [Function.comp_apply, hout' hx']
      exact hin ((List.mem_append.mp hx).resolve_right hx')
  · rw [List.mem_append, not_or] at hx
    rw [Function.comp_apply, hout' hx.2, hout hx.1]

theorem Settles.isSome {ids : List UUID} {t u : Table OutboxEntry} (h : Settles ids t u)
    (k : UUID) : (u.get k).isSome = (t.get k).isSome := by
  obtain ⟨g, hrows, hg⟩ := h
  unfold Table.get
  rw [hrows, List.find?_map, Option.isSome_map]
  congr 2
  funext x
  simp only [Function.comp_apply, OutboxEntry.key_eq, (hg x).1]

theorem fanOut_ok (hg : Fresh gen.keys) (ha : gen.Answers) {targets : List Endpoint}
    (hkeyed : ∀ d ∈ p.db.deliveries.rows, d.id ∈ p.issued)
    (hev : p.db.events.get ev.id = some ev)
    (htargets : ∀ e ∈ targets, (p.db.endpoints.get e.id).isSome)
    (hroom : p.issued.length + targets.length ≤ 2 ^ 128) :
    ∃ q new, fanOut gen ev targets p = .ok q ∧ Brings p q new ∧ q.db.outbox = p.db.outbox ∧
      new.map pair = targets.map fun e => (ev.id, e.id) := by
  induction targets generalizing p with
  | nil => exact ⟨p, [], rfl, .refl hkeyed, rfl, rfl⟩
  | cons e es ih =>
    rw [List.length_cons] at hroom
    rw [List.forall_mem_cons] at htargets
    have hfresh : gen.keys p.issued ∉ p.issued := hg _ (by omega)
    obtain ⟨⟨db, d⟩, hd⟩ := (@createDelivery_isOk p.db (gen.keys p.issued) ev.id e.id gen.now).mpr
      ⟨by rw [hev]; rfl, htargets.1, Table.get_eq_none.mpr fun d hd hid =>
        hfresh (hid ▸ hkeyed d hd)⟩
    obtain ⟨hrow, -⟩ := Db.createDelivery_ok hd
    obtain ⟨deliveries, hins, rfl⟩ := Db.createDelivery_insert hd
    have hrows := (Table.insert_eq_some.mp hins).2
    let p₁ : Pass :=
      { db := { p.db with deliveries }
        stream := p.stream.enqueueDelivery d.id ev.correlationId
        issued := gen.keys p.issued :: p.issued }
    have hone : Brings p p₁ [d] := by
      refine ⟨rfl, rfl, rfl, ⟨rfl, rfl⟩, hrows, ?_, fun c hc => ?_, fun c hc => ?_, rfl,
        fun x hx => List.mem_cons_of_mem _ hx, fun c hc => ?_⟩
      · have hmsg : message p.db d = ⟨d.id, ev.correlationId⟩ := by
          rw [message, hrow]
          dsimp only
          rw [hev]
          rfl
        rw [List.map_singleton, hmsg]
        rfl
      · rw [List.mem_singleton.mp hc, hrow]
        exact ⟨rfl, rfl, rfl⟩
      · have hc : c ∈ deliveries.rows := hc
        rw [hrows] at hc
        rcases List.mem_append.mp hc with hc | hc
        · exact List.mem_cons_of_mem _ (hkeyed c hc)
        · rw [List.mem_singleton.mp hc, hrow]
          exact List.mem_cons_self
      · rw [List.mem_singleton.mp hc, hrow]
        exact hfresh
    obtain ⟨q, new, hq, hbrings, hout, hpairs⟩ := @ih p₁ hone.keyed hev htargets.2 (by
      rw [List.length_cons]
      omega)
    refine ⟨q, [d] ++ new, ?_, hone.trans hbrings, hout, ?_⟩
    · rw [fanOut, hd]
      dsimp only
      rw [ha.xadd, if_neg Bool.false_ne_true]
      exact hq
    · rw [List.map_append, List.map_singleton, hpairs, pair, hrow]
      rfl

theorem markProcessed_ok {id : UUID} (h : (p.db.outbox.get id).isSome) :
    ∃ outbox, markProcessed id p = .ok { p with db := { p.db with outbox } } ∧
      Settles [id] p.db.outbox outbox := by
  obtain ⟨o, ho⟩ := Option.isSome_iff_exists.mp h
  have hid : o.id = id := Table.key_of_get ho
  refine ⟨p.db.outbox.update { o with status := .processed }, ?_,
    fun x => if x.id = id then { x with status := .processed } else x, ?_, fun x => ?_⟩
  · simp [markProcessed, Db.markProcessed, ho]
  · refine List.map_congr_left fun x hx => ?_
    by_cases hk : x.id = id
    · obtain rfl : x = o := p.db.outbox.key_inj hx (Table.mem_of_get ho) (hk.trans hid.symm)
      simp [hk]
    · have hne : x.id ≠ o.id := fun heq => hk (heq.trans hid)
      simp [hk, hne]
  · by_cases hk : x.id = id
    · simp [hk]
    · simp [hk]

/-- The event and the endpoint of each delivery that an entry comes to. -/
def entryPairs (db : Db) (o : OutboxEntry) : List (UUID × UUID) :=
  (entryTargets db o).map fun e => (o.eventId, e.id)

theorem processEntry_ok (hg : Fresh gen.keys) (ha : gen.Answers)
    (hkeyed : ∀ d ∈ p.db.deliveries.rows, d.id ∈ p.issued)
    (ho : (p.db.outbox.get o.id).isSome)
    (hroom : p.issued.length + (entryTargets p.db o).length ≤ 2 ^ 128) :
    ∃ q new, processEntry gen o p = .ok q ∧ Brings p q new ∧
      Settles [o.id] p.db.outbox q.db.outbox ∧ new.map pair = entryPairs p.db o := by
  rw [processEntry]
  cases hev : p.db.events.get o.eventId with
  | none =>
    obtain ⟨outbox, hq, hset⟩ := markProcessed_ok ho
    exact ⟨_, [], hq, (Brings.refl hkeyed).setOutbox outbox, hset,
      by simp [entryPairs, entryTargets, hev]⟩
  | some ev =>
    have hid : ev.id = o.eventId := Table.key_of_get hev
    have htargets : entryTargets p.db o = p.db.listActiveSubscribed ev.tenantId ev.type := by
      simp [entryTargets, hev]
    rw [htargets] at hroom
    obtain ⟨q, new, hq, hbrings, hout, hpairs⟩ := fanOut_ok hg ha hkeyed (hid ▸ hev)
      (fun e he => by
        rw [← Endpoint.key_eq, Table.get_of_mem (List.mem_filter.mp he).1]
        rfl) hroom
    obtain ⟨outbox, hq', hset⟩ := @markProcessed_ok q o.id (hout.symm ▸ ho)
    refine ⟨_, new, ?_, hbrings.setOutbox outbox, ?_, ?_⟩
    · dsimp only
      rw [hq]
      exact hq'
    · rw [← hout]
      exact hset
    · rw [hpairs, entryPairs, htargets, hid]

theorem processAll_ok (hg : Fresh gen.keys) (ha : gen.Answers) {os : List OutboxEntry}
    (hkeyed : ∀ d ∈ p.db.deliveries.rows, d.id ∈ p.issued)
    (hos : ∀ o ∈ os, (p.db.outbox.get o.id).isSome)
    (hroom : p.issued.length + targetCount p.db os ≤ 2 ^ 128) :
    ∃ q new, processAll gen os p = .ok q ∧ Brings p q new ∧
      Settles (os.map (·.id)) p.db.outbox q.db.outbox ∧
      new.map pair = os.flatMap (entryPairs p.db) := by
  induction os generalizing p with
  | nil => exact ⟨p, [], rfl, .refl hkeyed, .refl _, rfl⟩
  | cons o os ih =>
    rw [List.forall_mem_cons] at hos
    have hsum : targetCount p.db (o :: os) =
        (entryTargets p.db o).length + targetCount p.db os := by
      simp [targetCount]
    rw [hsum] at hroom
    obtain ⟨q, new, hq, hbrings, hset, hpairs⟩ := processEntry_ok hg ha hkeyed hos.1 (by omega)
    have hlen : new.length = (entryTargets p.db o).length := by
      rw [← @List.length_map _ _ new pair, hpairs, entryPairs, List.length_map]
    have htargets : ∀ x, entryTargets q.db x = entryTargets p.db x := by
      intro x
      rw [entryTargets, entryTargets, hbrings.events]
      cases p.db.events.get x.eventId with
      | none => rfl
      | some ev =>
        simp only [Db.listActiveSubscribed]
        rw [hbrings.endpoints]
    have hcount : targetCount q.db os = targetCount p.db os := by
      simp only [targetCount, htargets]
    obtain ⟨q', new', hq', hbrings', hset', hpairs'⟩ := ih hbrings.keyed
      (fun x hx => (hset.isSome _).trans (hos.2 x hx)) (by
        rw [hcount, hbrings.issued, hlen]
        omega)
    refine ⟨q', new ++ new', ?_, hbrings.trans hbrings', hset.trans hset', ?_⟩
    · rw [processAll, hq]
      exact hq'
    · have hsame : entryPairs q.db = entryPairs p.db := by
        funext x
        simp only [entryPairs, htargets]
      rw [List.map_append, hpairs, hpairs', List.flatMap_cons, hsame]

/-- The entries that wait for a relay. -/
def waiting (db : Db) : List OutboxEntry := db.outbox.select fun o => o.status = .pending

theorem Settles.of_claim {c : List OutboxEntry} {t u : Table OutboxEntry}
    (hnd : (c.map (·.id)).Nodup) (h : Settles (c.map (·.id)) (c.foldl Table.update t) u) :
    Settles (c.map (·.id)) t u := by
  obtain ⟨g, hrows, hg⟩ := h
  let lock : OutboxEntry → OutboxEntry := fun x => (c.find? fun r => r.id = x.id).getD x
  have hlock : ∀ x, (lock x).id = x.id ∧ (x.id ∉ c.map (·.id) → lock x = x) := by
    intro x
    cases hfind : c.find? (fun r => r.id = x.id) with
    | none => simp [lock, hfind]
    | some y =>
      have hy : y.id = x.id := by simpa using List.find?_some hfind
      refine ⟨by simp [lock, hfind, hy], fun hx => (hx ?_).elim⟩
      exact List.mem_map.mpr ⟨y, List.mem_of_find?_eq_some hfind, hy⟩
  refine ⟨g ∘ lock, ?_, fun x => ?_⟩
  · rw [hrows, Table.rows_foldl_update hnd, List.map_map]
    rfl
  · obtain ⟨hid, hin, hout⟩ := hg (lock x)
    obtain ⟨hlid, hlout⟩ := hlock x
    rw [hlid] at hid hin hout
    refine ⟨hid, hin, fun hx => ?_⟩
    rw [Function.comp_apply, hout hx, hlout hx]

/-- The entries that still wait are those that did and were not settled. -/
theorem Settles.select {ids : List UUID} {t u : Table OutboxEntry} (h : Settles ids t u) :
    u.select (fun o => o.status = .pending) =
      (t.select fun o => o.status = .pending).filter fun o => o.id ∉ ids := by
  obtain ⟨g, hrows, hg⟩ := h
  have hp : ∀ x, decide ((g x).status = .pending) =
      (decide (x.id ∉ ids) && decide (x.status = .pending)) := by
    intro x
    by_cases hx : x.id ∈ ids
    · simp [hx, (hg x).2.1 hx]
    · simp [hx, (hg x).2.2 hx]
  unfold Table.select
  rw [hrows, List.filter_map, List.filter_filter]
  have hfilter : t.rows.filter ((fun o : OutboxEntry => decide (o.status = .pending)) ∘ g) =
      t.rows.filter fun x => decide (x.id ∉ ids) && decide (x.status = .pending) :=
    List.filter_congr fun x _ => hp x
  rw [hfilter]
  refine (List.map_congr_left fun x hx => ?_).trans (List.map_id _)
  have hx := (List.mem_filter.mp hx).2
  exact (hg x).2.2 (of_decide_eq_true (Bool.and_eq_true_iff.mp hx).1)

/-- What the passes of a relay come to. -/
structure Relayed (s t : Pipeline) (os : List OutboxEntry) (new : List Delivery) : Prop where
  events : t.db.events = s.db.events
  endpoints : t.db.endpoints = s.db.endpoints
  log : t.db.deliveryAttempts = s.db.deliveryAttempts
  group : t.stream.delivered = s.stream.delivered ∧ t.stream.pending = s.stream.pending
  zset : t.zset = s.zset
  rows : t.db.deliveries.rows = s.db.deliveries.rows ++ new
  entries : t.stream.entries = s.stream.entries ++ new.map (message s.db)
  untouched : ∀ d ∈ new, Untouched d
  freshKeys : FreshKeys s.issued t.issued new
  pairs : new.map pair = os.flatMap (entryPairs s.db)

/-- With no transaction open, a pass claims the oldest entries that wait. -/
theorem dueEntries_eq (hr : s.relays.rows = []) (limit : ℕ) :
    s.dueEntries limit =
      ((waiting s.db).insertionSort fun x y => x.createdAt ≤ y.createdAt).take limit := by
  have hlocked : ∀ o, s.locked o = false := by
    intro o
    rw [Pipeline.locked, hr]
    rfl
  simp only [Pipeline.dueEntries, waiting, hlocked, Bool.not_false, Bool.and_true]

theorem flatMap_claimed (now : ℤ) (limit : ℕ) {β : Type} (f : OutboxEntry → List β)
    (hf : ∀ o : OutboxEntry, f { o with lockedAt := some now, attempts := o.attempts + 1 } = f o) :
    (claimed s now limit).flatMap f = (s.dueEntries limit).flatMap f := by
  rw [claimed, List.flatMap_map]
  exact List.flatMap_congr fun o _ => hf o

theorem targetCount_claimed (now : ℤ) (limit : ℕ) :
    targetCount s.db (claimed s now limit) = targetCount s.db (s.dueEntries limit) := by
  unfold targetCount claimed
  rw [List.map_map]
  rfl

theorem runOnce_ok (hg : Fresh gen.keys) (ha : gen.Answers) (now : ℤ) (limit : ℕ)
    (hr : s.relays.rows = [])
    (hkeyed : ∀ d ∈ s.db.deliveries.rows, d.id ∈ s.issued)
    (hroom : s.issued.length + targetCount s.db (s.dueEntries limit) ≤ 2 ^ 128) :
    ∃ new, Relayed s (runOnce gen now limit s) (s.dueEntries limit) new ∧
      (runOnce gen now limit s).relays.rows = [] ∧
      (∀ d ∈ (runOnce gen now limit s).db.deliveries.rows, d.id ∈
        (runOnce gen now limit s).issued) ∧
      (runOnce gen now limit s).issued.length = s.issued.length + new.length ∧
      waiting (runOnce gen now limit s).db =
        (waiting s.db).filter fun o => o.id ∉ (s.dueEntries limit).map (·.id) := by
  have hcol : (claimed s now limit).map (·.id) = (s.dueEntries limit).map (·.id) := by
    rw [claimed, List.map_map]
    rfl
  have hnd : ((claimed s now limit).map (·.id)).Nodup := by
    rw [hcol]
    exact Traced.nodup_dueEntries _ limit s.db.outbox.nodup
  have hstored : ∀ o ∈ claimed s now limit,
      ((claimDue s now limit).db.outbox.get o.id).isSome := by
    intro o ho
    obtain ⟨x, hx, rfl⟩ := List.mem_map.mp ho
    refine (Table.isSome_get_foldl_update ..).trans ?_
    show (s.db.outbox.get x.id).isSome
    rw [← OutboxEntry.key_eq, Table.get_of_mem (Traced.mem_dueEntries hx).1]
    rfl
  obtain ⟨q, new, hq, hbrings, hset, hpairs⟩ := @processAll_ok gen (claimDue s now limit) hg
    ha (claimed s now limit) hkeyed hstored (by
      show s.issued.length + targetCount s.db (claimed s now limit) ≤ _
      rwa [targetCount_claimed])
  have hrun : runOnce gen now limit s =
      { s with db := q.db, stream := q.stream, issued := q.issued } := by
    rw [runOnce, hq]
    dsimp only
    rw [ha.commit, if_neg Bool.false_ne_true]
  rw [hrun]
  refine ⟨new, ⟨hbrings.events, hbrings.endpoints, hbrings.log, hbrings.group, rfl,
    hbrings.rows, hbrings.entries, hbrings.untouched, hbrings.freshKeys, ?_⟩, hr,
    hbrings.keyed, hbrings.issued, ?_⟩
  · rw [hpairs]
    exact flatMap_claimed now limit _ fun _ => rfl
  · rw [← hcol]
    exact (hset.of_claim hnd).select

/-- The passes of a relay that keeps going, each answered by Redis and the store, with the times at
which it begins in the store and in the relay. -/
def passes (keys : List UUID → UUID) (limit : ℕ) (times : List (ℤ × ℤ)) (s : Pipeline) :
    Pipeline :=
  times.foldl (fun s τ => runOnce { keys, now := τ.1 } τ.2 limit s) s

theorem Relayed.targets {os : List OutboxEntry} (h : Relayed s t os new) :
    entryTargets t.db = entryTargets s.db := by
  funext o
  rw [entryTargets, entryTargets, h.events]
  cases s.db.events.get o.eventId with
  | none => rfl
  | some ev =>
    simp only [Db.listActiveSubscribed]
    rw [h.endpoints]

theorem Relayed.trans {os os' : List OutboxEntry} {new' : List Delivery}
    (h : Relayed s t os new) (h' : Relayed t u os' new') :
    Relayed s u (os ++ os') (new ++ new') where
  events := h'.events.trans h.events
  endpoints := h'.endpoints.trans h.endpoints
  log := h'.log.trans h.log
  group := ⟨h'.group.1.trans h.group.1, h'.group.2.trans h.group.2⟩
  zset := h'.zset.trans h.zset
  rows := by rw [h'.rows, h.rows, List.append_assoc]
  entries := by
    rw [h'.entries, h.entries, message_congr h.events, List.map_append, List.append_assoc]
  untouched d hd := by
    rcases List.mem_append.mp hd with hd | hd
    · exact h.untouched d hd
    · exact h'.untouched d hd
  freshKeys := h.freshKeys.trans h'.freshKeys
  pairs := by
    have hsame : entryPairs t.db = entryPairs s.db := by
      funext o
      rw [entryPairs, entryPairs, h.targets]
    rw [List.map_append, List.flatMap_append, h.pairs, h'.pairs, hsame]

theorem Relayed.targetCount_eq {os : List OutboxEntry} (h : Relayed s t os new)
    (l : List OutboxEntry) : targetCount t.db l = targetCount s.db l := by
  rw [targetCount, targetCount, h.targets]

theorem Relayed.length {os : List OutboxEntry} (h : Relayed s t os new) :
    new.length = targetCount s.db os := by
  rw [← @List.length_map _ _ new pair, h.pairs, List.length_flatMap, targetCount]
  simp only [entryPairs, List.length_map]

/-- What a pass claims and what it leaves are together what waited. -/
theorem perm_waiting (hr : s.relays.rows = []) (limit : ℕ) :
    (s.dueEntries limit ++ (waiting s.db).filter fun o =>
      o.id ∉ (s.dueEntries limit).map (·.id)).Perm (waiting s.db) := by
  have hnd : ((waiting s.db).map (·.id)).Nodup :=
    s.db.outbox.nodup.sublist (List.filter_sublist.map _)
  have hsort := List.perm_insertionSort (fun x y : OutboxEntry => x.createdAt ≤ y.createdAt)
    (waiting s.db)
  rw [dueEntries_eq hr]
  generalize (waiting s.db).insertionSort (fun x y => x.createdAt ≤ y.createdAt) = l at hsort
  have hl : (l.map (·.id)).Nodup := (hsort.map _).nodup_iff.mpr hnd
  have hrest : l.filter (fun o => o.id ∉ (l.take limit).map (·.id)) = l.drop limit := by
    have hsplit := List.take_append_drop limit l
    generalize l.take limit = a at hsplit
    generalize l.drop limit = b at hsplit
    subst hsplit
    rw [List.map_append, List.nodup_append] at hl
    rw [List.filter_append, List.filter_eq_nil_iff.mpr fun o ho => ?_,
      List.filter_eq_self.mpr fun o ho => ?_, List.nil_append]
    · simp only [decide_not, Bool.not_eq_true', decide_eq_false_iff_not]
      intro hmem
      exact hl.2.2 o.id hmem o.id (List.mem_map_of_mem ho) rfl
    · simpa using ⟨o, ho, rfl⟩
  have hfilter := hsort.filter fun o => o.id ∉ (l.take limit).map (·.id)
  rw [hrest] at hfilter
  refine (hfilter.symm.append_left _).trans ?_
  rw [List.take_append_drop]
  exact hsort

theorem passes_drain (le : RetryMember → RetryMember → Bool) {keys : List UUID → UUID}
    (hg : Fresh keys) {limit : ℕ} {times : List (ℤ × ℤ)} (hr : s.relays.rows = [])
    (hkeyed : ∀ d ∈ s.db.deliveries.rows, d.id ∈ s.issued)
    (hroom : s.issued.length + targetCount s.db (waiting s.db) ≤ 2 ^ 128)
    (hpasses : (waiting s.db).length ≤ times.length * limit) :
    ∃ os new, Relayed s (passes keys limit times s) os new ∧ os.Perm (waiting s.db) ∧
      waiting (passes keys limit times s).db = [] ∧
      ∃ as, Transition.run (step le) s as = some (passes keys limit times s) := by
  induction times generalizing s with
  | nil =>
    rw [List.length_nil, Nat.zero_mul, Nat.le_zero, List.length_eq_zero_iff] at hpasses
    refine ⟨[], [], ⟨rfl, rfl, rfl, ⟨rfl, rfl⟩, rfl, ?_, ?_, by simp, .refl _,
      rfl⟩, by rw [hpasses], hpasses, [], rfl⟩
    · exact (List.append_nil _).symm
    · exact (List.append_nil _).symm
  | cons τ times ih =>
    have hperm := perm_waiting hr limit
    have hcount := (hperm.map fun o => (entryTargets s.db o).length).sum_eq
    rw [List.map_append, List.sum_append] at hcount
    have hroom₁ : s.issued.length + targetCount s.db (s.dueEntries limit) ≤ 2 ^ 128 := by
      unfold targetCount at hroom ⊢
      omega
    obtain ⟨new, hone, hr₁, hkeyed₁, hissued, hwait⟩ :=
      @runOnce_ok { keys, now := τ.1 } s hg ⟨fun _ => rfl, rfl⟩ τ.2 limit hr hkeyed hroom₁
    obtain ⟨as, hrun⟩ := run_runOnce le { keys, now := τ.1 } hg τ.2 limit s 0
      (Table.get_eq_none.mpr (by simp [hr])) (by rwa [targetCount_claimed])
    have hlen : (s.dueEntries limit).length = min limit (waiting s.db).length := by
      rw [dueEntries_eq hr, List.length_take, List.length_insertionSort]
    have hsplit := hperm.length_eq
    rw [List.length_append, ← hwait, hlen] at hsplit
    rw [List.length_cons, Nat.succ_mul] at hpasses
    obtain ⟨os', new', hrest, hos', hnone, as', hrun'⟩ :=
      @ih (runOnce { keys, now := τ.1 } τ.2 limit s) hr₁ hkeyed₁ (by
        rw [hone.targetCount_eq, hwait, hissued, hone.length]
        unfold targetCount at hroom ⊢
        omega) (by omega)
    refine ⟨_, _, hone.trans hrest, ?_, hnone, _, Transition.run_trans hrun hrun'⟩
    exact (hos'.append_left _).trans (hwait ▸ hperm)

/-- Enough passes of a relay, one after the other, empty the outbox from every reachable state in
which no relay is at work: every entry is processed, every event comes to exactly one new delivery
for each endpoint that is subscribed to it, and each of these has one message, the first to name
it, with the correlation id of its event. -/
theorem outbox_drains (le : RetryMember → RetryMember → Bool) (keys : List UUID → UUID)
    (hg : Fresh keys) (s : Pipeline) (hs : Transition.Reachable (step le) Init s)
    (hr : s.relays.rows = []) (limit : ℕ) (times : List (ℤ × ℤ))
    (hroom : s.issued.length + targetCount s.db (waiting s.db) ≤ 2 ^ 128)
    (hpasses : (waiting s.db).length ≤ times.length * limit) :
    (∀ o ∈ (passes keys limit times s).db.outbox.rows, o.status = .processed) ∧
      (∃ new, (passes keys limit times s).db.deliveries.rows = s.db.deliveries.rows ++ new ∧
        (passes keys limit times s).stream.entries =
          s.stream.entries ++ new.map (message s.db) ∧
        (new.map pair).Perm ((waiting s.db).flatMap (entryPairs s.db)) ∧
        ∀ d ∈ new, Untouched d ∧ ∀ m ∈ s.stream.entries, m.deliveryId ≠ d.id) ∧
      Transition.Reachable (step le) Init (passes keys limit times s) := by
  obtain ⟨hI, hN⟩ : Inv s [] ∧ Named s :=
    hs.invariant (I := fun s => Inv s [] ∧ Named s) (fun _ h => ⟨inv_init h, named_init h⟩)
      fun _ _ _ hI h => ⟨hI.1.step h, named_step hI.1 hI.2 h⟩
  obtain ⟨os, new, hrel, hos, hnone, as, hrun⟩ :=
    passes_drain le hg hr hI.issued hroom hpasses
  have hfirst : ∀ d ∈ new, ∀ m ∈ s.stream.entries, m.deliveryId ≠ d.id :=
    fun d hd m hm heq => hrel.freshKeys.fresh d hd (heq ▸ hN m.deliveryId m.correlationId (.inl hm))
  refine ⟨fun o ho => ?_, ⟨new, hrel.rows, hrel.entries, ?_,
    fun d hd => ⟨hrel.untouched d hd, hfirst d hd⟩⟩, ?_⟩
  · cases hst : o.status with
    | processed => rfl
    | pending =>
      have hmem : o ∈ waiting (passes keys limit times s).db :=
        List.mem_filter.mpr ⟨ho, decide_eq_true hst⟩
      rw [hnone] at hmem
      cases hmem
  · rw [hrel.pairs]
    exact hos.flatMap_right _
  · obtain ⟨s₀, bs, hinit, hbs⟩ := hs
    exact ⟨s₀, bs ++ as, hinit, Transition.run_trans hbs hrun⟩

theorem exists_fresh : ∃ keys, Fresh keys := by
  have hkey : ∀ l : List UUID, ∃ k, l.length < 2 ^ 128 → k ∉ l := by
    intro l
    by_contra hall
    push Not at hall
    have hlt : l.length < 2 ^ 128 := (hall 0).1
    have hle := Fintype.card_le_of_injective
      (fun i : Fin (2 ^ 128) => (⟨BitVec.ofFin i, List.mem_toFinset.mpr (hall _).2⟩ : l.toFinset))
      fun i j h => congrArg BitVec.toFin (congrArg Subtype.val h)
    rw [Fintype.card_fin, Fintype.card_coe] at hle
    exact absurd (hle.trans (List.toFinset_card_le l)) (Nat.not_le.mpr hlt)
  choose keys hkeys using hkey
  exact ⟨keys, hkeys⟩

theorem outbox_drains_sample :
    ∃ keys, Fresh keys ∧
      (passes keys 50 [(0, 0)] samplePipeline).db.deliveries.rows.map pair = [(1, 2)] := by
  obtain ⟨keys, hkeys⟩ := exists_fresh
  have hreach : Transition.Reachable (step fun _ _ => true) Init samplePipeline :=
    ⟨samplePipeline, [], ⟨rfl, rfl, rfl, rfl, rfl⟩, rfl⟩
  obtain ⟨-, ⟨new, hrows, -, hperm, -⟩, -⟩ := outbox_drains (fun _ _ => true) keys hkeys
    samplePipeline hreach rfl 50 [(0, 0)] (by decide) (by decide)
  have hpairs : (waiting samplePipeline.db).flatMap (entryPairs samplePipeline.db) = [(1, 2)] :=
    rfl
  rw [hpairs, List.perm_singleton] at hperm
  refine ⟨keys, hkeys, ?_⟩
  rw [hrows, List.map_append, hperm]
  rfl

end Relay

end RelayWebhooks
