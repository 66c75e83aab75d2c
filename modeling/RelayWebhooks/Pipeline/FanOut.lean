import RelayWebhooks.Pipeline.Carrier
import RelayWebhooks.Pipeline.FanOutTx

/-! Exactness of the fan-out, over any number of relays. -/
namespace RelayWebhooks

namespace Traced
open Pipeline DeliveryAttemptService

variable {db : Db} {rds : List Reading} {claimed : List OutboxEntry} {o : OutboxEntry}
  {d : Delivery} {created : List Delivery} {s t : Pipeline} {readings : ℕ → List Reading}
  {commits : List RelayCommit}

/-- What the open transactions keep. -/
structure OpenOk (s : Pipeline) (readings : ℕ → List Reading) : Prop where
  txs : ∀ tx ∈ s.relays.rows, TxOk s.db (readings tx.id) tx
  apart : ∀ tx ∈ s.relays.rows, ∀ tx' ∈ s.relays.rows, tx.id ≠ tx'.id →
    ∀ c ∈ tx.claimed, ∀ c' ∈ tx'.claimed, c.id ≠ c'.id
  announced : ∀ tx ∈ s.relays.rows, ∀ d ∈ tx.created, ∃ m ∈ s.stream.entries, m.deliveryId = d.id

/-- What the committed state keeps. -/
structure CommittedOk (s : Pipeline) (commits : List RelayCommit) : Prop where
  unique : (s.db.outbox.rows.map (·.eventId)).Nodup
  parent : ∀ o ∈ s.db.outbox.rows, (s.db.events.get o.eventId).isSome
  home : ∀ d ∈ s.db.deliveries.rows, (s.db.events.get d.eventId).isSome
  pending : ∀ o ∈ s.db.outbox.rows, o.status = .pending →
    ∀ d ∈ s.db.deliveries.rows, d.eventId ≠ o.eventId
  processed : ∀ o ∈ s.db.outbox.rows, o.status = .processed → ∃ c ∈ commits,
    (∃ rd, c.FansOut o rd) ∧ ∀ d ∈ s.db.deliveries.rows, d.eventId = o.eventId → c.Brought d
  committed : ∀ d ∈ s.db.deliveries.rows, ∃ c ∈ commits, c.Brought d ∧ c.Announced d

structure Inv (x : Traced) : Prop where
  opened : OpenOk x.pipeline x.readings
  committed : CommittedOk x.pipeline x.commits

theorem inv_init {x : Traced} (h : Init x) : Inv x := by
  obtain ⟨⟨hd, -, -, hr, -⟩, hc, hpend, hpar, huniq⟩ := h
  have hnotx : ∀ tx, tx ∉ x.pipeline.relays.rows := by
    intro tx htx
    rw [hr] at htx
    cases htx
  have hnod : ∀ d, d ∉ x.pipeline.db.deliveries.rows := by
    intro d hmem
    rw [hd] at hmem
    cases hmem
  constructor
  · constructor
    · exact fun tx htx => (hnotx tx htx).elim
    · exact fun tx htx => (hnotx tx htx).elim
    · exact fun tx htx => (hnotx tx htx).elim
  · constructor
    · exact huniq
    · exact hpar
    · exact fun d hd => (hnod d hd).elim
    · exact fun _ _ _ d hd => (hnod d hd).elim
    · intro o ho hst
      rw [hpend o ho] at hst
      cases hst
    · exact fun d hd => (hnod d hd).elim

theorem OpenOk.quiet (h : OpenOk s readings) (hq : Quiet s t) : OpenOk t readings where
  txs tx htx := by
    refine (h.txs tx (hq.relays ▸ htx)).mono (fun c _ => by rw [hq.outbox]) fun k ev hk => ?_
    rwa [hq.events]
  apart tx htx tx' htx' := h.apart tx (hq.relays ▸ htx) tx' (hq.relays ▸ htx')
  announced tx htx d hd := by
    obtain ⟨m, hm, hid⟩ := h.announced tx (hq.relays ▸ htx) d hd
    exact ⟨m, hq.entries m hm, hid⟩

theorem CommittedOk.quiet (h : CommittedOk s commits) (hq : Quiet s t) :
    CommittedOk t commits where
  unique := by
    rw [hq.outbox]
    exact h.unique
  parent o ho := by
    rw [hq.events]
    exact h.parent o (hq.outbox ▸ ho)
  home d hd := by
    obtain ⟨d₀, hd₀, -, hev, -⟩ := hq.deliveries d hd
    rw [hq.events, ← hev]
    exact h.home d₀ hd₀
  pending o ho hst d hd := by
    obtain ⟨d₀, hd₀, -, hev, -⟩ := hq.deliveries d hd
    rw [← hev]
    exact h.pending o (hq.outbox ▸ ho) hst d₀ hd₀
  processed o ho hst := by
    obtain ⟨c, hc, hfan, hbr⟩ := h.processed o (hq.outbox ▸ ho) hst
    refine ⟨c, hc, hfan, fun d hd hde => ?_⟩
    obtain ⟨d₀, hd₀, hid, hev, hend⟩ := hq.deliveries d hd
    have hbr₀ := hbr d₀ hd₀ (hev.trans hde)
    rwa [RelayCommit.Brought, hid, hev, hend] at hbr₀
  committed d hd := by
    obtain ⟨d₀, hd₀, hid, hev, hend⟩ := hq.deliveries d hd
    obtain ⟨c, hc, hbr, hann⟩ := h.committed d₀ hd₀
    rw [RelayCommit.Brought, hid, hev, hend] at hbr
    rw [RelayCommit.Announced, hid] at hann
    exact ⟨c, hc, hbr, hann⟩

theorem Inv.ingest {x : Traced} (hI : Inv x) {event : Event} {outboxId : UUID} {createdAt : ℤ}
    (h : x.pipeline.ingest event outboxId createdAt = some t) :
    Inv { x with pipeline := t } := by
  unfold Pipeline.ingest at h
  split at h
  next events db o hev ho =>
    have hst : o.status = .pending ∧ ∀ o' ∈ x.pipeline.db.outbox.rows, o'.eventId ≠ event.id := by
      unfold Db.createOutboxEntry at ho
      dsimp only at ho
      split at ho
      next => cases ho
      next hany =>
        split at ho
        next =>
          cases ho
          refine ⟨rfl, fun o' ho' heq => hany ?_⟩
          exact List.any_eq_true.mpr ⟨o', ho', decide_eq_true heq⟩
        next => cases ho
    obtain ⟨outbox, hout, rfl, hoe⟩ := Db.createOutboxEntry_ok ho
    obtain rfl := Option.some.inj h
    have hnone : x.pipeline.db.events.get event.id = none := (Table.insert_eq_some.mp hev).1
    obtain ⟨-, hrows⟩ := Table.insert_eq_some.mp hout
    have hkeep : ∀ k ev, x.pipeline.db.events.get k = some ev → events.get k = some ev :=
      fun k ev => Table.get_insert_of_get hev
    have hsome : ∀ k, (x.pipeline.db.events.get k).isSome → (events.get k).isSome := by
      intro k hk
      obtain ⟨ev, hev⟩ := Option.isSome_iff_exists.mp hk
      exact Option.isSome_iff_exists.mpr ⟨ev, hkeep k ev hev⟩
    have hmem : ∀ o' ∈ outbox.rows, o' ∈ x.pipeline.db.outbox.rows ∨ o' = o := by
      intro o' ho'
      rw [hrows] at ho'
      simpa using ho'
    have hC := hI.committed
    constructor
    · refine ⟨fun tx htx => ?_, hI.opened.apart, hI.opened.announced⟩
      refine (hI.opened.txs tx htx).mono (fun c hc => ?_) hkeep
      obtain ⟨o', ho', -⟩ := (hI.opened.txs tx htx).claimed c hc
      exact (Table.get_insert_of_get hout ho').trans ho'.symm
    · constructor
      · show (outbox.rows.map (·.eventId)).Nodup
        rw [hrows, List.map_append, List.map_singleton, hoe]
        refine hC.unique.append (List.nodup_singleton _) fun k hk hk' => ?_
        obtain ⟨o', ho', rfl⟩ := List.mem_map.mp hk
        exact hst.2 o' ho' (List.mem_singleton.mp hk')
      · intro o' ho'
        rcases hmem o' ho' with ho' | rfl
        · exact hsome _ (hC.parent o' ho')
        · rw [hoe]
          exact Option.isSome_iff_exists.mpr ⟨event, Table.get_insert_self hev⟩
      · exact fun d hd => hsome _ (hC.home d hd)
      · intro o' ho' hp d hd heq
        rcases hmem o' ho' with ho' | rfl
        · exact hC.pending o' ho' hp d hd heq
        · have hhome := hC.home d hd
          rw [heq, hoe, hnone] at hhome
          cases hhome
      · intro o' ho' hp
        rcases hmem o' ho' with ho' | rfl
        · exact hC.processed o' ho' hp
        · rw [hst.1] at hp
          cases hp
      · exact hC.committed
  next => cases h

theorem CommittedOk.of_db (h : CommittedOk s commits) (hdb : t.db = s.db) :
    CommittedOk t commits := by
  obtain ⟨hu, hp, hh, hpe, hpr, hc⟩ := h
  rw [← hdb] at hu hp hh hpe hpr hc
  exact ⟨hu, hp, hh, hpe, hpr, hc⟩

/-- One transaction moves on. -/
theorem OpenOk.setTx {readings' : ℕ → List Reading} {tx₀ tx : RelayTx} {r : ℕ}
    (h : OpenOk s readings) (hr : s.relays.get r = some tx₀) (hid : tx.id = r)
    (hok : TxOk s.db (readings' r) tx) (hne : ∀ j, j ≠ r → readings' j = readings j)
    (hclaimed : ∀ c ∈ tx.claimed, ∃ c₀ ∈ tx₀.claimed, c₀.id = c.id)
    (hcreated : ∀ d ∈ tx.created,
      d ∈ tx₀.created ∨ ∃ m ∈ t.stream.entries, m.deliveryId = d.id)
    (hdb : t.db = s.db) (hrel : t.relays = s.relays.update tx)
    (hentries : ∀ m ∈ s.stream.entries, m ∈ t.stream.entries) : OpenOk t readings' := by
  obtain ⟨hmem₀, hid₀⟩ := Table.get_eq_some.mp hr
  have hrows : ∀ y ∈ t.relays.rows, y = tx ∨ y ∈ s.relays.rows ∧ y.id ≠ r := by
    intro y hy
    rw [hrel] at hy
    rcases Table.mem_update hy with hy | ⟨hy, hk⟩
    · exact .inl hy
    · exact .inr ⟨hy, hid ▸ hk⟩
  constructor
  · intro y hy
    rw [hdb]
    rcases hrows y hy with rfl | ⟨hy, hk⟩
    · exact hid ▸ hok
    · rw [hne _ hk]
      exact h.txs y hy
  · intro y hy y' hy' hyy c hc c' hc'
    rcases hrows y hy with rfl | ⟨hy, hk⟩
    · rcases hrows y' hy' with rfl | ⟨hy', hk'⟩
      · exact (hyy rfl).elim
      · obtain ⟨c₀, hc₀, hcid⟩ := hclaimed c hc
        rw [← hcid]
        exact h.apart tx₀ hmem₀ y' hy' (fun heq => hk' (heq ▸ hid₀)) c₀ hc₀ c' hc'
    · rcases hrows y' hy' with rfl | ⟨hy', hk'⟩
      · obtain ⟨c₀, hc₀, hcid⟩ := hclaimed c' hc'
        rw [← hcid]
        exact h.apart y hy tx₀ hmem₀ (fun heq => hk (heq.trans hid₀)) c hc c₀ hc₀
      · exact h.apart y hy y' hy' hyy c hc c' hc'
  · have hold : ∀ y ∈ s.relays.rows, ∀ d ∈ y.created,
        ∃ m ∈ t.stream.entries, m.deliveryId = d.id := by
      intro y hy d hd
      obtain ⟨m, hm, hmd⟩ := h.announced y hy d hd
      exact ⟨m, hentries m hm, hmd⟩
    intro y hy d hd
    rcases hrows y hy with rfl | ⟨hy, -⟩
    · rcases hcreated d hd with hd | hd
      · exact hold tx₀ hmem₀ d hd
      · exact hd
    · exact hold y hy d hd

theorem OpenOk.dropTx (h : OpenOk s readings) (r : ℕ) : OpenOk (s.dropTx r) readings := by
  have hrows : ∀ y ∈ (s.dropTx r).relays.rows, y ∈ s.relays.rows :=
    fun y hy => (List.mem_filter.mp hy).1
  exact ⟨fun y hy => h.txs y (hrows y hy),
    fun y hy y' hy' => h.apart y (hrows y hy) y' (hrows y' hy'),
    fun y hy => h.announced y (hrows y hy)⟩

/-- A new transaction claims entries that no other one has claimed. -/
theorem OpenOk.insertTx {tx : RelayTx} {relays : Table RelayTx} (h : OpenOk s readings)
    (hins : s.relays.insert tx = some relays) (hok : TxOk s.db [] tx)
    (hfree : ∀ y ∈ s.relays.rows, ∀ c ∈ y.claimed, ∀ c' ∈ tx.claimed, c.id ≠ c'.id)
    (hcreated : tx.created = []) :
    OpenOk { s with relays } (Function.update readings tx.id []) := by
  obtain ⟨hnone, hrows⟩ := Table.insert_eq_some.mp hins
  have hfresh : ∀ y ∈ s.relays.rows, y.id ≠ tx.id := Table.get_eq_none.mp hnone
  have hmem : ∀ y ∈ relays.rows, y ∈ s.relays.rows ∨ y = tx := by
    intro y hy
    rw [hrows] at hy
    simpa only [List.mem_append, List.mem_singleton] using hy
  constructor
  · intro y hy
    rcases hmem y hy with hy | rfl
    · rw [Function.update_of_ne (hfresh y hy)]
      exact h.txs y hy
    · rw [Function.update_self]
      exact hok
  · intro y hy y' hy' hyy c hc c' hc'
    rcases hmem y hy with hy | rfl
    · rcases hmem y' hy' with hy' | rfl
      · exact h.apart y hy y' hy' hyy c hc c' hc'
      · exact hfree y hy c hc c' hc'
    · rcases hmem y' hy' with hy' | rfl
      · exact (hfree y' hy' c' hc' c hc).symm
      · exact (hyy rfl).elim
  · intro y hy d hd
    rcases hmem y hy with hy | rfl
    · exact h.announced y hy d hd
    · rw [hcreated] at hd
      cases hd

theorem Inv.claimDue {x : Traced} (hI : Inv x) {r : ℕ} {now : ℤ} {limit : ℕ}
    (h : x.pipeline.claimDue r now limit = some t) :
    Inv { x with pipeline := t, readings := Function.update x.readings r [] } := by
  obtain ⟨relays, hins, rfl⟩ := Option.map_eq_some_iff.mp h
  refine ⟨hI.opened.insertTx hins ?_ (fun y hy c hc c' hc' heq => ?_) rfl,
    hI.committed.of_db rfl⟩
  · exact .claimDue r now limit hI.committed.unique rfl
  · obtain ⟨o, ho, rfl⟩ := List.mem_map.mp hc'
    obtain ⟨-, -, hlock⟩ := mem_dueEntries ho
    have hlocked : x.pipeline.locked o = true :=
      List.any_eq_true.mpr ⟨y, hy, List.any_eq_true.mpr ⟨c, hc, decide_eq_true heq⟩⟩
    rw [hlock] at hlocked
    cases hlocked

theorem Inv.openEntry {x : Traced} (hI : Inv x) {r : ℕ} (h : x.pipeline.openEntry r = some t) :
    Inv { x with pipeline := t, readings :=
      Function.update x.readings r (x.readings r ++ nextReading x.pipeline r) } := by
  unfold Pipeline.openEntry at h
  split at h
  next j claimed o queue created hr =>
    have hj : j = r := Table.key_of_get hr
    have hok : TxOk x.pipeline.db (x.readings r) ⟨j, claimed, o :: queue, .between, created⟩ :=
      hj ▸ hI.opened.txs _ (Table.mem_of_get hr)
    obtain ⟨⟨c, hc, -, hce⟩, -⟩ := hok.queued o List.mem_cons_self
    obtain ⟨o₀, ho₀, -, hoe⟩ := hok.claimed c hc
    have hpar := hI.committed.parent o₀ (Table.mem_of_get ho₀)
    rw [hoe, hce] at hpar
    split at h
    next hnone =>
      -- the event of an outbox entry is never missing
      rw [hnone] at hpar
      cases hpar
    next ev hev =>
      obtain rfl := Option.some.inj h
      have hread : nextReading x.pipeline r = [⟨ev, x.pipeline.db⟩] := by
        simp [nextReading, hr, hev]
      rw [hread]
      have hok' : TxOk x.pipeline.db
          (Function.update x.readings r (x.readings r ++ [⟨ev, x.pipeline.db⟩]) r)
          ⟨j, claimed, queue, .fanOut o ev
            (x.pipeline.db.listActiveSubscribed ev.tenantId ev.type), created⟩ := by
        rw [Function.update_self]
        exact hok.openEntry hev
      refine ⟨?_, hI.committed.of_db rfl⟩
      exact hI.opened.setTx hr hj hok' (fun k hk => Function.update_of_ne hk ..)
        (fun c hc => ⟨c, hc, rfl⟩) (fun d hd => .inl hd) rfl rfl fun _ hm => hm
  next => cases h

theorem Inv.createDelivery {x : Traced} (hI : Inv x) {r : ℕ} {id : UUID} {createdAt : ℤ}
    (h : x.pipeline.createDelivery r id createdAt = some t) :
    Inv { x with pipeline := t } := by
  unfold Pipeline.createDelivery at h
  split at h
  next j claimed queue o ev e targets created hr =>
    have hj : j = r := Table.key_of_get hr
    have hok : TxOk x.pipeline.db (x.readings r)
        ⟨j, claimed, queue, .fanOut o ev (e :: targets), created⟩ :=
      hj ▸ hI.opened.txs _ (Table.mem_of_get hr)
    split at h
    next => cases h
    next =>
      split at h
      next db d hd =>
        obtain rfl := Option.some.inj h
        obtain ⟨hdeq, -⟩ := Db.createDelivery_ok hd
        refine ⟨?_, hI.committed.of_db rfl⟩
        exact hI.opened.setTx hr hj (hok.createDelivery (by rw [hdeq]) (by rw [hdeq]))
          (fun _ _ => rfl) (fun c hc => ⟨c, hc, rfl⟩) (fun d hd => .inl hd) rfl rfl
          fun _ hm => hm
      next =>
        obtain rfl := Option.some.inj h
        exact ⟨hI.opened.dropTx r, hI.committed.of_db rfl⟩
  next => cases h

theorem Inv.publish {x : Traced} (hI : Inv x) {r : ℕ} (h : x.pipeline.publish r = some t) :
    Inv { x with pipeline := t } := by
  unfold Pipeline.publish at h
  split at h
  next j claimed queue o ev targets d created hr =>
    have hj : j = r := Table.key_of_get hr
    have hok : TxOk x.pipeline.db (x.readings r)
        ⟨j, claimed, queue, .publishing o ev targets d, created⟩ :=
      hj ▸ hI.opened.txs _ (Table.mem_of_get hr)
    obtain rfl := Option.some.inj h
    refine ⟨?_, hI.committed.of_db rfl⟩
    refine hI.opened.setTx hr hj hok.publish (fun _ _ => rfl) (fun c hc => ⟨c, hc, rfl⟩)
      (fun d' hd' => ?_) rfl rfl fun _ hm => mem_entries_enqueue hm
    rcases List.mem_append.mp hd' with hd' | hd'
    · exact .inl hd'
    · rw [List.mem_singleton.mp hd']
      exact .inr ⟨⟨d.id, ev.correlationId⟩, List.mem_append_right _ (by simp), rfl⟩
  next => cases h

theorem Inv.closeEntry {x : Traced} (hI : Inv x) {r : ℕ}
    (h : x.pipeline.closeEntry r = some t) : Inv { x with pipeline := t } := by
  unfold Pipeline.closeEntry at h
  split at h
  next j claimed queue o ev created hr =>
    have hj : j = r := Table.key_of_get hr
    have hok : TxOk x.pipeline.db (x.readings r)
        ⟨j, claimed, queue, .fanOut o ev [], created⟩ :=
      hj ▸ hI.opened.txs _ (Table.mem_of_get hr)
    obtain rfl := Option.some.inj h
    refine ⟨?_, hI.committed.of_db rfl⟩
    refine hI.opened.setTx hr hj hok.closeEntry (fun _ _ => rfl) (fun c' hc' => ?_)
      (fun d hd => .inl hd) rfl rfl fun _ hm => hm
    obtain ⟨c, hc, rfl⟩ := List.mem_map.mp hc'
    refine ⟨c, hc, ?_⟩
    split <;> rfl
  next => cases h

/-- Two entries of the outbox for one event are the same row. -/
theorem CommittedOk.entry_eq (h : CommittedOk s commits) {o o' : OutboxEntry}
    (ho : o ∈ s.db.outbox.rows) (ho' : o' ∈ s.db.outbox.rows) (heq : o.eventId = o'.eventId) :
    o = o' :=
  List.inj_on_of_nodup_map h.unique ho ho' heq

/-- The deliveries a transaction inserted for an event it has finished. -/
theorem TxOk.finished (h : TxOk db rds ⟨j, claimed, [], .between, created⟩) {rd : Reading}
    (hrd : rd ∈ rds) :
    (created.filter fun d => d.eventId = rd.event.id).map (·.endpointId) = rd.targets := by
  have hex := h.exact rd hrd
  simpa [RelayTx.todo, RelayTx.inserted] using hex

/-- What a commit writes. -/
structure Committed (s : Pipeline) (r : ℕ) (claimed : List OutboxEntry) (created : List Delivery)
    (t : Pipeline) : Prop where
  rows : t.db.deliveries.rows = s.db.deliveries.rows ++ created
  fresh : ∀ d ∈ created, s.db.deliveries.get d.id = none
  outbox : t.db.outbox = claimed.foldl Table.update s.db.outbox
  events : t.db.events = s.db.events
  relays : t.relays = (s.dropTx r).relays
  stream : t.stream = s.stream

theorem commitRelay_ok {r : ℕ} (h : s.commitRelay r = some t) :
    ∃ claimed created, s.relays.get r = some ⟨r, claimed, [], .between, created⟩ ∧
      Committed s r claimed created t := by
  unfold Pipeline.commitRelay at h
  split at h
  next j claimed created hr =>
    obtain rfl : j = r := Table.key_of_get hr
    obtain ⟨deliveries, hall, rfl⟩ := Option.map_eq_some_iff.mp h
    exact ⟨claimed, created, hr, Table.rows_insertAll hall,
      fun d hd => Table.get_eq_none_of_insertAll hall hd, rfl, rfl, rfl, rfl⟩
  next => cases h

section Commit

variable {r : ℕ} (hok : TxOk s.db rds ⟨r, claimed, [], .between, created⟩)
  (hC : CommittedOk s commits) (hw : Committed s r claimed created t)

include hok in
/-- Every row that the commit brings belongs to an entry that it marks processed. -/
theorem processed_of_created (hd : d ∈ created) :
    ∃ c ∈ claimed, c.eventId = d.eventId ∧ c.status = .processed ∧
      (s.db.events.get d.eventId).isSome := by
  obtain ⟨rd, hrd, hde⟩ := hok.rows d hd
  obtain ⟨c, hc, hce, hst⟩ := hok.opened rd hrd
  refine ⟨c, hc, hce.trans hde, hst.resolve_right ?_, ?_⟩
  · rintro ⟨o, hcur⟩
    cases hcur
  · rw [← hde, hok.events rd hrd]
    rfl

include hok hC hw in
theorem entry_cases (ho : o ∈ t.db.outbox.rows) :
    o ∈ claimed ∨ o ∈ s.db.outbox.rows ∧ ∀ c ∈ claimed, c.eventId ≠ o.eventId := by
  rw [hw.outbox] at ho
  refine (Table.mem_foldl_update hok.distinct ho).imp_right fun ⟨hrow, hfree⟩ => ?_
  refine ⟨hrow, fun c hc hce => hfree c hc ?_⟩
  obtain ⟨c₀, hc₀, -, hc₀e⟩ := hok.claimed c hc
  obtain ⟨hc₀, hid⟩ := Table.get_eq_some.mp hc₀
  have hsame := hC.entry_eq hc₀ hrow (hc₀e.trans hce)
  exact hid.symm.trans (hsame ▸ rfl)

include hok hC in
/-- Two claimed entries for one event are the same row. -/
theorem claimed_eq {c c' : OutboxEntry} (hc : c ∈ claimed) (hc' : c' ∈ claimed)
    (heq : c.eventId = c'.eventId) : c = c' := by
  obtain ⟨x, hx, -, hxe⟩ := hok.claimed c hc
  obtain ⟨y, hy, -, hye⟩ := hok.claimed c' hc'
  obtain ⟨hx, hxid⟩ := Table.get_eq_some.mp hx
  obtain ⟨hy, hyid⟩ := Table.get_eq_some.mp hy
  have hsame := hC.entry_eq hx hy (hxe.trans (heq.trans hye.symm))
  have hid : c.id = c'.id := hxid.symm.trans ((congrArg Keyed.key hsame).trans hyid)
  exact List.inj_on_of_nodup_map hok.distinct hc hc' hid

include hok hC in
/-- No delivery of a claimed entry's event was committed before. -/
theorem noneBefore_of_claimed {c : OutboxEntry} (hc : c ∈ claimed) :
    ∀ d ∈ s.db.deliveries.rows, d.eventId ≠ c.eventId := by
  obtain ⟨o, ho, hop, hoe⟩ := hok.claimed c hc
  rw [← hoe]
  exact hC.pending o (Table.mem_of_get ho) hop

include hw in
theorem brought_of_created (hd : d ∈ created) : RelayCommit.Brought ⟨s, t, rds⟩ d := by
  refine ⟨hw.fresh d hd, d, Table.get_of_mem ?_, rfl, rfl⟩
  show d ∈ t.db.deliveries.rows
  rw [hw.rows]
  exact List.mem_append_right _ hd

include hok hC hw in
/-- The commit fans out every entry it marks processed. -/
theorem fansOut_of_processed {c : OutboxEntry} (hc : c ∈ claimed) (hst : c.status = .processed) :
    ∃ rd, RelayCommit.FansOut ⟨s, t, rds⟩ c rd := by
  obtain ⟨rd, hrd, hce⟩ := hok.closed c hc hst
  obtain ⟨o, ho, hop, -⟩ := hok.claimed c hc
  have hbefore := noneBefore_of_claimed hok hC hc
  have hafter : ∀ d ∈ t.db.deliveries.rows, d.eventId = c.eventId →
      d ∈ created.filter fun d => d.eventId = rd.event.id := by
    intro d hd hde
    rw [hw.rows] at hd
    rcases List.mem_append.mp hd with hd | hd
    · exact (hbefore d hd hde).elim
    · exact List.mem_filter.mpr ⟨hd, by simpa using hde.trans hce.symm⟩
  have hfin := hok.finished hrd
  refine ⟨rd, hrd, hce ▸ hok.events rd hrd, ?_, ?_, hbefore, fun k hk => ?_, fun d hd hde => ?_⟩
  · show (s.db.outbox.get c.id).map (·.status) = _
    rw [ho, Option.map_some, hop]
  · have hget : t.db.outbox.get c.id = some c := by
      rw [hw.outbox]
      exact Table.get_foldl_update_of_mem hok.distinct hc (Option.isSome_iff_exists.mpr ⟨o, ho⟩)
    show (t.db.outbox.get c.id).map (·.status) = _
    rw [hget, Option.map_some, hst]
  · have hmem : k ∈ rd.targets := Reading.mem_targets.mpr hk
    rw [← hfin] at hmem
    obtain ⟨d, hd, rfl⟩ := List.mem_map.mp hmem
    obtain ⟨hdc, hde⟩ := List.mem_filter.mp hd
    refine ⟨d, ⟨?_, (of_decide_eq_true hde).trans hce, rfl⟩, fun d' ⟨hd', hde', hend'⟩ => ?_⟩
    · show d ∈ t.db.deliveries.rows
      rw [hw.rows]
      exact List.mem_append_right _ hdc
    · have hnd := rd.nodup_targets
      rw [← hfin] at hnd
      exact List.inj_on_of_nodup_map hnd (hafter d' hd' hde') hd hend'
  · rw [← Reading.mem_targets, ← hfin]
    exact List.mem_map_of_mem (hafter d hd hde)

include hok hC hw in
theorem committedOk_commit (hann : ∀ d ∈ created, ∃ m ∈ s.stream.entries, m.deliveryId = d.id) :
    CommittedOk t (commits ++ [⟨s, t, rds⟩]) := by
  have hcol : t.db.outbox.rows.map (·.eventId) = s.db.outbox.rows.map (·.eventId) := by
    rw [hw.outbox]
    refine Table.map_foldl_update _ fun c hc => ?_
    obtain ⟨o, ho, -, hoe⟩ := hok.claimed c hc
    exact ⟨o, ho, hoe⟩
  have hdeliv : ∀ d ∈ t.db.deliveries.rows, d ∈ s.db.deliveries.rows ∨ d ∈ created :=
    fun d hd => List.mem_append.mp (hw.rows ▸ hd)
  constructor
  · rw [hcol]
    exact hC.unique
  · intro o ho
    have hmem : o.eventId ∈ t.db.outbox.rows.map (·.eventId) := List.mem_map_of_mem ho
    rw [hcol] at hmem
    obtain ⟨o₀, ho₀, hoe⟩ := List.mem_map.mp hmem
    rw [hw.events, ← hoe]
    exact hC.parent o₀ ho₀
  · intro d hd
    rw [hw.events]
    rcases hdeliv d hd with hd | hd
    · exact hC.home d hd
    · obtain ⟨-, -, -, -, hev⟩ := processed_of_created hok hd
      exact hev
  · intro o ho hp d hd heq
    rcases hdeliv d hd with hd | hd
    · rcases entry_cases hok hC hw ho with hoc | ⟨hoo, -⟩
      · exact noneBefore_of_claimed hok hC hoc d hd heq
      · exact hC.pending o hoo hp d hd heq
    · -- the delivery belongs to a processed entry, and an event has one entry
      obtain ⟨c, hc, hce, hst, -⟩ := processed_of_created hok hd
      rcases entry_cases hok hC hw ho with hoc | ⟨-, hfree⟩
      · rw [claimed_eq hok hC hc hoc (hce.trans heq), hp] at hst
        cases hst
      · exact hfree c hc (hce.trans heq)
  · intro o ho hst
    rcases entry_cases hok hC hw ho with hoc | ⟨hoo, hfree⟩
    · refine ⟨_, List.mem_append_right _ (List.mem_singleton_self _),
        fansOut_of_processed hok hC hw hoc hst, fun d hd hde => ?_⟩
      rcases hdeliv d hd with hd | hd
      · exact (noneBefore_of_claimed hok hC hoc d hd hde).elim
      · exact brought_of_created hw hd
    · obtain ⟨c, hc, hfan, hbr⟩ := hC.processed o hoo hst
      refine ⟨c, List.mem_append_left _ hc, hfan, fun d hd hde => ?_⟩
      rcases hdeliv d hd with hd | hd
      · exact hbr d hd hde
      · obtain ⟨c', hc', hce', -⟩ := processed_of_created hok hd
        exact (hfree c' hc' (hce'.trans hde)).elim
  · intro d hd
    rcases hdeliv d hd with hd | hd
    · obtain ⟨c, hc, hbr⟩ := hC.committed d hd
      exact ⟨c, List.mem_append_left _ hc, hbr⟩
    · exact ⟨_, List.mem_append_right _ (List.mem_singleton_self _),
        brought_of_created hw hd, hann d hd⟩

end Commit

theorem Inv.commitRelay {x : Traced} (hI : Inv x) {r : ℕ}
    (h : x.pipeline.commitRelay r = some t) :
    Inv { x with pipeline := t, commits := x.commits ++ [⟨x.pipeline, t, x.readings r⟩] } := by
  obtain ⟨claimed, created, hr, hw⟩ := commitRelay_ok h
  have hmem := Table.mem_of_get hr
  have hok : TxOk x.pipeline.db (x.readings r) ⟨r, claimed, [], .between, created⟩ :=
    hI.opened.txs _ hmem
  refine ⟨?_, committedOk_commit hok hI.committed hw (hI.opened.announced _ hmem)⟩
  have hrows : ∀ tx ∈ t.relays.rows, tx ∈ x.pipeline.relays.rows ∧ tx.id ≠ r := by
    intro tx htx
    rw [hw.relays] at htx
    obtain ⟨htx, hne⟩ := List.mem_filter.mp htx
    exact ⟨htx, by simpa using hne⟩
  constructor
  · intro tx htx
    obtain ⟨htx, hne⟩ := hrows tx htx
    refine (hI.opened.txs tx htx).mono (fun c hc => ?_) fun k ev hk => ?_
    · show t.db.outbox.get c.id = _
      rw [hw.outbox]
      exact Table.get_foldl_update_of_ne fun c' hc' =>
        hI.opened.apart _ hmem tx htx hne.symm c' hc' c hc
    · show t.db.events.get k = some ev
      rw [hw.events, hk]
  · intro tx htx tx' htx'
    exact hI.opened.apart tx (hrows tx htx).1 tx' (hrows tx' htx').1
  · intro tx htx d hd
    show ∃ m ∈ t.stream.entries, m.deliveryId = d.id
    rw [hw.stream]
    exact hI.opened.announced tx (hrows tx htx).1 d hd

theorem Inv.quiet {x : Traced} (hI : Inv x) (hq : Quiet x.pipeline t) :
    Inv { x with pipeline := t } :=
  ⟨hI.opened.quiet hq, hI.committed.quiet hq⟩

theorem Inv.step {le : RetryMember → RetryMember → Bool} {x y : Traced} {a : PipelineAction}
    (hI : Inv x) (h : x.step le a = some y) : Inv y := by
  obtain ⟨t, ht, rfl⟩ := Option.map_eq_some_iff.mp h
  cases a with
  | ingest => exact hI.ingest ht
  | claimDue => exact hI.claimDue ht
  | openEntry => exact hI.openEntry ht
  | createDelivery => exact hI.createDelivery ht
  | publish => exact hI.publish ht
  | closeEntry => exact hI.closeEntry ht
  | commitRelay => exact hI.commitRelay ht
  | rollback r =>
    obtain ⟨tx, -, rfl⟩ := Option.map_eq_some_iff.mp ht
    exact ⟨hI.opened.dropTx r, hI.committed.of_db rfl⟩
  | _ => exact hI.quiet (quiet_step ht rfl)

/-- In every reachable state: the event of a pending entry has no delivery; the event of a
processed entry got, in the commit that marked the entry, one delivery for each target its
fan-out had read and no other, and has no delivery from anywhere else; and every delivery was
announced on the stream before the commit that brought it. -/
theorem fan_out_exact (le : RetryMember → RetryMember → Bool) (x : Traced)
    (hx : Transition.Reachable (step le) Init x) :
    (∀ o ∈ x.pipeline.db.outbox.rows, o.status = .pending →
      ∀ d ∈ x.pipeline.db.deliveries.rows, d.eventId ≠ o.eventId) ∧
    (∀ o ∈ x.pipeline.db.outbox.rows, o.status = .processed →
      ∃ c ∈ x.commits, (∃ rd, c.FansOut o rd) ∧
        ∀ d ∈ x.pipeline.db.deliveries.rows, d.eventId = o.eventId → c.Brought d) ∧
    ∀ d ∈ x.pipeline.db.deliveries.rows, ∃ c ∈ x.commits, c.Brought d ∧ c.Announced d := by
  have hI : Inv x := hx.invariant (fun _ => inv_init) fun _ _ _ hI h => hI.step h
  exact ⟨hI.committed.pending, hI.committed.processed, hI.committed.committed⟩

/-- The sample pipeline before its run. -/
def sample : Traced := ⟨samplePipeline, fun _ => [], []⟩

theorem sample_init : Init sample where
  pipeline := ⟨rfl, rfl, rfl, rfl, rfl⟩
  commits := rfl
  pending := by decide
  parent := by decide
  unique := by decide

/-- The commit of the sample fan-out brings one announced delivery. -/
theorem fan_out_exact_sample :
    ∃ x d, Transition.run (step fun _ _ => true) sample (sampleRun.take 6) = some x ∧
      x.pipeline.db.deliveries.rows = [d] ∧ d.eventId = 1 ∧
      ∃ c ∈ x.commits, c.Brought d ∧ c.Announced d := by
  obtain ⟨x, hx⟩ : ∃ x, Transition.run (step fun _ _ => true) sample (sampleRun.take 6) = some x :=
    ⟨_, rfl⟩
  have hrows : (Transition.run (step fun _ _ => true) sample (sampleRun.take 6)).map
      (fun x => x.pipeline.db.deliveries.rows) = some [sampleDelivery] := rfl
  rw [hx] at hrows
  have hrows : x.pipeline.db.deliveries.rows = [sampleDelivery] := Option.some.inj hrows
  have hreach : Transition.Reachable (step fun _ _ => true) Init x :=
    ⟨sample, sampleRun.take 6, sample_init, hx⟩
  exact ⟨x, _, hx, hrows, rfl,
    (fan_out_exact (fun _ _ => true) x hreach).2.2 _ (hrows ▸ List.mem_singleton_self _)⟩

end Traced

end RelayWebhooks
