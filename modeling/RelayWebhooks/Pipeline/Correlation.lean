import RelayWebhooks.Pipeline.FanOut
import RelayWebhooks.Pipeline.Tags

/-! How far the correlation id of an event follows its deliveries. A run is taken together with
the event of every delivery it creates, which stays known when the row goes. -/
namespace RelayWebhooks

/-- A state of the pipeline and the event each delivery was created for. -/
structure Attributed where
  pipeline : Pipeline
  eventOf : UUID → Option Event

namespace Attributed
open Pipeline

/-- The event of the delivery that a relay has just inserted. -/
def inserting (t : Pipeline) (r : ℕ) : Option Event :=
  match t.relays.get r with
  | some ⟨_, _, _, .publishing _ ev _ _, _⟩ => some ev
  | _ => none

def record (x : Attributed) (t : Pipeline) : PipelineAction → Attributed
  | .createDelivery r id _ =>
    ⟨t, (inserting t r).elim x.eventOf fun ev => Function.update x.eventOf id (some ev)⟩
  | _ => ⟨t, x.eventOf⟩

def step (le : RetryMember → RetryMember → Bool) (x : Attributed) (a : PipelineAction) :
    Option Attributed :=
  (x.pipeline.step le a).map fun t => x.record t a

def Init (x : Attributed) : Prop := x.pipeline.Init ∧ x.eventOf = fun _ => none

@[simp] theorem record_pipeline (x : Attributed) (t : Pipeline) (a : PipelineAction) :
    (x.record t a).pipeline = t := by
  cases a <;> rfl

/-- The pipeline runs as it does without the record. -/
theorem run_pipeline (le : RetryMember → RetryMember → Bool) (x : Attributed)
    (as : List PipelineAction) :
    (Transition.run (step le) x as).map (·.pipeline) =
      Transition.run (Pipeline.step le) x.pipeline as :=
  Transition.run_map (fun x a => by simp [step, Function.comp_def]) x as

/-- The delivery belongs to the recorded event. -/
def Home (x : Attributed) (d : Delivery) : Prop :=
  ∃ ev, x.eventOf d.id = some ev ∧ x.pipeline.db.events.get d.eventId = some ev

/-- Every stream entry and every retry member names a delivery, under exactly the correlation id
of the event it was created for. -/
structure Correlated (x : Attributed) : Prop where
  entries : ∀ m ∈ x.pipeline.stream.entries,
    ∃ ev, x.eventOf m.deliveryId = some ev ∧ m.correlationId = ev.correlationId
  members : ∀ r ∈ x.pipeline.zset.rows, ∀ d, parseMember r.member = some d →
    ∃ ev, x.eventOf d.deliveryId = some ev ∧ d.correlationId = ev.correlationId

variable {le : RetryMember → RetryMember → Bool} {x y : Attributed} {a : PipelineAction}
  {t : Pipeline}

theorem correlated_iff : x.Correlated ↔ ∀ id c, x.pipeline.Tagged id c →
    ∃ ev, x.eventOf id = some ev ∧ c = ev.correlationId := by
  constructor
  · rintro h id c (hm | ⟨r, hr, hparse⟩)
    · exact h.entries _ hm
    · exact h.members r hr _ hparse
  · intro h
    exact ⟨fun m hm => h _ _ (.inl hm), fun r hr d hparse => h _ _ (.inr ⟨r, hr, hparse⟩)⟩

/-- The point of a transaction: its event is in the store, and the row it is about to publish
belongs to that event. -/
def PointOk (x : Attributed) : RelayPoint → Prop
  | .between => True
  | .fanOut _ ev _ => x.pipeline.db.events.get ev.id = some ev
  | .publishing _ ev _ d => x.pipeline.db.events.get ev.id = some ev ∧ d.eventId = ev.id ∧
      x.eventOf d.id = some ev

structure TxOk (x : Attributed) (tx : RelayTx) : Prop where
  point : x.PointOk tx.point
  created : ∀ d ∈ tx.created, x.Home d

structure Inv (x : Attributed) : Prop where
  carrier : Pipeline.Inv x.pipeline []
  txs : ∀ tx ∈ x.pipeline.relays.rows, x.TxOk tx
  rows : ∀ d ∈ x.pipeline.db.deliveries.rows, x.Home d
  fresh : ∀ id, x.eventOf id ≠ none → id ∈ x.pipeline.issued

/-- No event is forgotten, and no delivery changes its event. -/
structure Extends (x y : Attributed) : Prop where
  eventOf : ∀ id ev, x.eventOf id = some ev → y.eventOf id = some ev
  events : ∀ id ev, x.pipeline.db.events.get id = some ev → y.pipeline.db.events.get id = some ev

theorem Home.mono (h : Extends x y) {d d₀ : Delivery} (hd : x.Home d₀) (hid : d₀.id = d.id)
    (hev : d₀.eventId = d.eventId) : y.Home d := by
  obtain ⟨ev, hof, hget⟩ := hd
  exact ⟨ev, h.eventOf _ _ (hid ▸ hof), h.events _ _ (hev ▸ hget)⟩

theorem TxOk.mono (h : Extends x y) {tx : RelayTx} (htx : x.TxOk tx) : y.TxOk tx := by
  refine ⟨?_, fun d hd => (htx.created d hd).mono h rfl rfl⟩
  have hpoint := htx.point
  cases hp : tx.point with
  | between => trivial
  | fanOut o ev targets =>
    rw [hp] at hpoint
    exact h.events _ _ hpoint
  | publishing o ev targets d =>
    rw [hp] at hpoint
    exact ⟨h.events _ _ hpoint.1, hpoint.2.1, h.eventOf _ _ hpoint.2.2⟩

/-- Every row of the next state was there before, or is accounted for. -/
theorem Inv.extend (hI : Inv x) (hcarrier : Pipeline.Inv y.pipeline []) (h : Extends x y)
    (htxs : ∀ tx ∈ y.pipeline.relays.rows, tx ∈ x.pipeline.relays.rows ∨ y.TxOk tx)
    (hrows : ∀ d ∈ y.pipeline.db.deliveries.rows,
      (∃ d₀ ∈ x.pipeline.db.deliveries.rows, d₀.id = d.id ∧ d₀.eventId = d.eventId) ∨ y.Home d)
    (hfresh : ∀ id, y.eventOf id ≠ none → id ∈ y.pipeline.issued) : Inv y := by
  refine ⟨hcarrier, fun tx htx => ?_, fun d hd => ?_, hfresh⟩
  · rcases htxs tx htx with htx | htx
    · exact (hI.txs tx htx).mono h
    · exact htx
  · rcases hrows d hd with ⟨d₀, hd₀, hid, hev⟩ | hd
    · exact (hI.rows d₀ hd₀).mono h hid hev
    · exact hd

theorem Init.inv (h : Init x) : Inv x := by
  obtain ⟨⟨hdeliveries, hstream, hzset, hrelays, hhandlers⟩, heventOf⟩ := h
  refine ⟨inv_init ⟨hdeliveries, hstream, hzset, hrelays, hhandlers⟩, ?_, ?_, ?_⟩
  · simp [hrelays, Table.empty]
  · simp [hdeliveries, Table.empty]
  · simp [heventOf]

/-- A step that leaves the open transactions and the events alone. -/
theorem Inv.quiet (hI : Inv x) (hcarrier : Pipeline.Inv t []) (hq : Quiet x.pipeline t)
    (hissued : ∀ id ∈ x.pipeline.issued, id ∈ t.issued) : Inv ⟨t, x.eventOf⟩ := by
  refine hI.extend hcarrier ⟨fun _ _ h => h, fun id ev h => ?_⟩ (fun tx htx => ?_)
    (fun d hd => ?_) fun id hid => hissued id (hI.fresh id hid)
  · show t.db.events.get id = some ev
    rw [hq.events]
    exact h
  · exact .inl (hq.relays ▸ htx)
  · obtain ⟨d₀, hd₀, hid, hev, -⟩ := hq.deliveries d hd
    exact .inl ⟨d₀, hd₀, hid, hev⟩

/-- A step of one open transaction; its rows become visible or go with it. -/
theorem Inv.relay (hI : Inv x) (hcarrier : Pipeline.Inv t [])
    (hevents : t.db.events = x.pipeline.db.events)
    (htxs : ∀ tx ∈ t.relays.rows, tx ∈ x.pipeline.relays.rows ∨ x.TxOk tx)
    (hrows : ∀ d ∈ t.db.deliveries.rows, d ∈ x.pipeline.db.deliveries.rows ∨ x.Home d)
    (hissued : ∀ id ∈ x.pipeline.issued, id ∈ t.issued) : Inv ⟨t, x.eventOf⟩ := by
  have hext : Extends x ⟨t, x.eventOf⟩ := by
    refine ⟨fun _ _ h => h, fun id ev h => ?_⟩
    show t.db.events.get id = some ev
    rw [hevents]
    exact h
  refine hI.extend hcarrier hext (fun tx htx => (htxs tx htx).imp_right fun h => h.mono hext)
    (fun d hd => ?_) fun id hid => hissued id (hI.fresh id hid)
  rcases hrows d hd with hd | hd
  · exact .inl ⟨d, hd, rfl, rfl⟩
  · exact .inr (hd.mono hext rfl rfl)

/-- One open transaction moves on, without a commit. -/
theorem Inv.setTx (hI : Inv x) (hcarrier : Pipeline.Inv t []) {tx : RelayTx}
    (hdb : t.db = x.pipeline.db) (hrelays : t.relays = x.pipeline.relays.update tx)
    (hissued : t.issued = x.pipeline.issued) (htx : x.TxOk tx) : Inv ⟨t, x.eventOf⟩ := by
  refine hI.relay hcarrier (by rw [hdb]) (fun tx' htx' => ?_) (fun d hd => .inl (hdb ▸ hd))
    fun id hid => hissued ▸ hid
  rw [hrelays] at htx'
  rcases Table.mem_update htx' with rfl | ⟨htx', -⟩
  · exact .inr htx
  · exact .inl htx'

theorem Inv.dropTx (hI : Inv x) (r : ℕ) (hcarrier : Pipeline.Inv (x.pipeline.dropTx r) []) :
    Inv ⟨x.pipeline.dropTx r, x.eventOf⟩ :=
  hI.relay hcarrier rfl (fun _ htx => .inl (List.mem_of_mem_filter htx)) (fun _ hd => .inl hd)
    fun _ hx => hx

theorem Inv.ingest (hI : Inv x) (hcarrier : Pipeline.Inv t []) {event : Event} {outboxId : UUID}
    {createdAt : ℤ} (h : x.pipeline.ingest event outboxId createdAt = some t) :
    Inv ⟨t, x.eventOf⟩ := by
  unfold Pipeline.ingest at h
  split at h
  next events db o hev ho =>
    obtain ⟨outbox, -, rfl, -⟩ := Db.createOutboxEntry_ok ho
    obtain rfl := Option.some.inj h
    exact hI.extend hcarrier ⟨fun _ _ h => h, fun _ _ => Table.get_insert_of_get hev⟩
      (fun _ htx => .inl htx) (fun d hd => .inl ⟨d, hd, rfl, rfl⟩) hI.fresh
  next => cases h

theorem Inv.claimDue (hI : Inv x) (hcarrier : Pipeline.Inv t []) {r : ℕ} {now : ℤ} {limit : ℕ}
    (h : x.pipeline.claimDue r now limit = some t) : Inv ⟨t, x.eventOf⟩ := by
  obtain ⟨relays, hins, rfl⟩ := Option.map_eq_some_iff.mp h
  refine hI.relay hcarrier rfl (fun tx htx => ?_) (fun _ hd => .inl hd) fun _ hx => hx
  simp only [(Table.insert_eq_some.mp hins).2, List.mem_append, List.mem_singleton] at htx
  rcases htx with htx | rfl
  · exact .inl htx
  · exact .inr ⟨trivial, fun _ hd => (List.not_mem_nil hd).elim⟩

/-- The fan-out of an entry is of the event that the store has for it. -/
theorem Inv.openEntry (hI : Inv x) (hcarrier : Pipeline.Inv t []) {r : ℕ}
    (h : x.pipeline.openEntry r = some t) : Inv ⟨t, x.eventOf⟩ := by
  unfold Pipeline.openEntry at h
  split at h
  next j claimed o queue created hr =>
    have hcreated := (hI.txs _ (Table.mem_of_get hr)).created
    split at h
    next =>
      obtain rfl := Option.some.inj h
      exact hI.setTx hcarrier rfl rfl rfl ⟨trivial, hcreated⟩
    next ev hev =>
      obtain rfl := Option.some.inj h
      have hid : ev.id = o.eventId := Table.key_of_get hev
      exact hI.setTx hcarrier rfl rfl rfl ⟨(congrArg _ hid).trans hev, hcreated⟩
  next => cases h

/-- A published row belongs to the event of its fan-out. -/
theorem Inv.publish (hI : Inv x) (hcarrier : Pipeline.Inv t []) {r : ℕ}
    (h : x.pipeline.publish r = some t) : Inv ⟨t, x.eventOf⟩ := by
  unfold Pipeline.publish at h
  split at h
  next j claimed queue o ev targets d created hr =>
    obtain ⟨⟨hev, hdev, hof⟩, hcreated⟩ := hI.txs _ (Table.mem_of_get hr)
    obtain rfl := Option.some.inj h
    refine hI.setTx hcarrier rfl rfl rfl ⟨hev, fun d' hd' => ?_⟩
    rcases List.mem_append.mp hd' with hd' | hd'
    · exact hcreated d' hd'
    · rw [List.mem_singleton.mp hd']
      exact ⟨ev, hof, by rw [hdev, hev]⟩
  next => cases h

theorem Inv.closeEntry (hI : Inv x) (hcarrier : Pipeline.Inv t []) {r : ℕ}
    (h : x.pipeline.closeEntry r = some t) : Inv ⟨t, x.eventOf⟩ := by
  unfold Pipeline.closeEntry at h
  split at h
  next hr =>
    have hcreated := (hI.txs _ (Table.mem_of_get hr)).created
    obtain rfl := Option.some.inj h
    exact hI.setTx hcarrier rfl rfl rfl ⟨trivial, hcreated⟩
  next => cases h

theorem Inv.commitRelay (hI : Inv x) (hcarrier : Pipeline.Inv t []) {r : ℕ}
    (h : x.pipeline.commitRelay r = some t) (hissued : ∀ id ∈ x.pipeline.issued, id ∈ t.issued) :
    Inv ⟨t, x.eventOf⟩ := by
  obtain ⟨claimed, created, hr, hw⟩ := Traced.commitRelay_ok h
  have hcreated := (hI.txs _ (Table.mem_of_get hr)).created
  refine hI.relay hcarrier hw.events (fun tx htx => ?_) (fun d hd => ?_) hissued
  · rw [hw.relays] at htx
    exact .inl (List.mem_of_mem_filter htx)
  · rw [hw.rows] at hd
    exact (List.mem_append.mp hd).imp_right (hcreated d)

/-- A new row has a fresh key and belongs to the event of the fan-out, or the transaction ends. -/
theorem createDelivery_cases {s : Pipeline} {r : ℕ} {id : UUID} {createdAt : ℤ}
    (h : s.createDelivery r id createdAt = some t) :
    (∃ j claimed queue o ev e targets created d,
      s.relays.get r = some ⟨j, claimed, queue, .fanOut o ev (e :: targets), created⟩ ∧
        id ∉ s.issued ∧ d.id = id ∧ d.eventId = ev.id ∧ t.db = s.db ∧
        t.relays = s.relays.update ⟨j, claimed, queue, .publishing o ev targets d, created⟩ ∧
        t.issued = id :: s.issued) ∨
      t = s.dropTx r := by
  unfold Pipeline.createDelivery at h
  split at h
  next j claimed queue o ev e targets created hr =>
    split at h
    next => cases h
    next hnew =>
      split at h
      next db d hd =>
        obtain rfl := Option.some.inj h
        obtain ⟨rfl, -⟩ := Db.createDelivery_ok hd
        exact .inl ⟨j, claimed, queue, o, ev, e, targets, created, _, hr, hnew, rfl, rfl, rfl, rfl,
          rfl⟩
      next => exact .inr (Option.some.inj h).symm
  next => cases h

theorem inserting_dropTx (s : Pipeline) (r : ℕ) : inserting (s.dropTx r) r = none := by
  have hgone : (s.dropTx r).relays.get r = none := by
    refine Table.get_eq_none.mpr fun tx htx hid => ?_
    have hkept := (List.mem_filter.mp htx).2
    have hid : tx.id = r := hid
    simp [hid] at hkept
  rw [inserting, hgone]

/-- A fresh key takes the event of no other delivery. -/
theorem Inv.eventOf_record (hI : Inv x) (ht : x.pipeline.step le a = some t) {id : UUID}
    {ev : Event} (hof : x.eventOf id = some ev) : (x.record t a).eventOf id = some ev := by
  cases a with
  | createDelivery r id' createdAt =>
    cases hins : inserting t r with
    | none => simp [record, hins, hof]
    | some ev' =>
      have hne : id ≠ id' := by
        rintro rfl
        rcases createDelivery_cases ht with ⟨_, _, _, _, _, _, _, _, _, -, hnew, -⟩ | rfl
        · exact hnew (hI.fresh id (by simp [hof]))
        · rw [inserting_dropTx] at hins
          cases hins
      simp [record, hins, Function.update_of_ne hne, hof]
  | _ => exact hof

/-- The new key is on record for the event of the fan-out. -/
theorem Inv.createDelivery (hI : Inv x) (hcarrier : Pipeline.Inv t []) {r : ℕ} {id : UUID}
    {createdAt : ℤ} (h : x.pipeline.createDelivery r id createdAt = some t) :
    Inv (x.record t (.createDelivery r id createdAt)) := by
  have hstep : x.pipeline.step (fun _ _ => true) (.createDelivery r id createdAt) = some t := h
  have hof : ∀ id' ev', x.eventOf id' = some ev' →
      (x.record t (.createDelivery r id createdAt)).eventOf id' = some ev' :=
    fun _ _ => hI.eventOf_record hstep
  rcases createDelivery_cases h with
    ⟨j, claimed, queue, o, ev, e, targets, created, d, hr, -, rfl, hdev, hdb, hrelays, hissued⟩ |
      rfl
  · obtain rfl : j = r := Table.key_of_get hr
    obtain ⟨hev, hcreated⟩ := hI.txs _ (Table.mem_of_get hr)
    have hinserting : inserting t j = some ev := by
      have hget := Table.get_update_of_get (t := x.pipeline.relays) (k := j)
        (r := ⟨j, claimed, queue, .publishing o ev targets d, created⟩) rfl hr
      rw [inserting, hrelays, hget]
    rw [record, hinserting, Option.elim_some] at hof ⊢
    have hext : Extends x ⟨t, Function.update x.eventOf d.id (some ev)⟩ := by
      refine ⟨hof, fun id' ev' hget => ?_⟩
      show t.db.events.get id' = some ev'
      rw [hdb]
      exact hget
    refine hI.extend hcarrier hext (fun tx htx => ?_)
      (fun d' hd' => .inl ⟨d', hdb ▸ hd', rfl, rfl⟩) fun id' hid' => ?_
    · have htx : tx ∈ t.relays.rows := htx
      rw [hrelays] at htx
      rcases Table.mem_update htx with rfl | ⟨htx, -⟩
      · refine .inr ⟨⟨hext.events _ _ hev, hdev, ?_⟩, fun d' hd' => ?_⟩
        · exact Function.update_self ..
        · exact (hcreated d' hd').mono hext rfl rfl
      · exact .inl htx
    · show id' ∈ t.issued
      rw [hissued]
      by_cases hne : id' = d.id
      · exact hne ▸ List.mem_cons_self
      · simp only [Function.update_of_ne hne] at hid'
        exact List.mem_cons_of_mem _ (hI.fresh id' hid')
  · rw [record, inserting_dropTx, Option.elim_none]
    exact hI.dropTx r hcarrier

theorem Inv.step (hI : Inv x) (h : x.step le a = some y) : Inv y := by
  obtain ⟨t, ht, rfl⟩ := Option.map_eq_some_iff.mp h
  have hcarrier := hI.carrier.step ht
  have hissued := (tags_step hI.carrier ht).issued
  cases a with
  | ingest => exact hI.ingest hcarrier ht
  | claimDue => exact hI.claimDue hcarrier ht
  | openEntry => exact hI.openEntry hcarrier ht
  | createDelivery => exact hI.createDelivery hcarrier ht
  | publish => exact hI.publish hcarrier ht
  | closeEntry => exact hI.closeEntry hcarrier ht
  | commitRelay => exact hI.commitRelay hcarrier ht hissued
  | rollback r =>
    obtain ⟨tx, -, rfl⟩ := Option.map_eq_some_iff.mp ht
    exact hI.dropTx r hcarrier
  | _ => exact hI.quiet hcarrier (quiet_step ht rfl) hissued

/-- A replay is of a delivery whose event has no correlation id. -/
def ReplaysUncorrelated (x : Attributed) (a : PipelineAction) (_ : Attributed) : Prop :=
  match a with
  | .replay id _ => ∀ d ∈ x.pipeline.db.deliveries.get id,
      ∀ ev ∈ x.pipeline.db.events.get d.eventId, ev.correlationId = none
  | _ => True

theorem Inv.eventOf_of_get (hI : Inv x) {id : UUID} {d : Delivery} {ev : Event}
    (hd : x.pipeline.db.deliveries.get id = some d)
    (hev : x.pipeline.db.events.get d.eventId = some ev) : x.eventOf id = some ev := by
  have hid : d.id = id := Table.key_of_get hd
  obtain ⟨ev', hof, hev'⟩ := hI.rows d (Table.mem_of_get hd)
  obtain rfl : ev' = ev := Option.some.inj (hev'.symm.trans hev)
  exact hid ▸ hof

theorem Correlated.step (hI : Inv x) (hx : x.Correlated) (hR : ReplaysUncorrelated x a y)
    (h : x.step le a = some y) : y.Correlated := by
  obtain ⟨t, ht, rfl⟩ := Option.map_eq_some_iff.mp h
  refine correlated_iff.mpr fun id c htag => ?_
  rw [record_pipeline] at htag
  suffices hof : ∃ ev, x.eventOf id = some ev ∧ c = ev.correlationId by
    obtain ⟨ev, hof, hc⟩ := hof
    exact ⟨ev, hI.eventOf_record ht hof, hc⟩
  rcases (tags_step hI.carrier ht).tagged id c htag with hold | hnew
  · exact correlated_iff.mp hx id c hold
  · cases hnew with
    | publish htx hpoint hid hc =>
      have hok := (hI.txs _ htx).point
      rw [hpoint] at hok
      exact ⟨_, hid ▸ hok.2.2, hc.symm⟩
    | replay hc =>
      obtain ⟨d, ev, -, hd, hev, -⟩ := replay_some ht
      exact ⟨ev, hI.eventOf_of_get hd hev, by rw [hc, hR d hd ev hev]⟩

/-- An entry on the stream and a recorded event stay to the end of the run. -/
theorem Inv.run_keeps {as : List PipelineAction} {m : DeliveryMessage} {id : UUID} {ev : Event}
    (hI : Inv x) (hm : m ∈ x.pipeline.stream.entries) (hof : x.eventOf id = some ev)
    (h : Transition.run (Attributed.step le) x as = some y) :
    m ∈ y.pipeline.stream.entries ∧ y.eventOf id = some ev := by
  have hkeep := Transition.run_invariant
    (I := fun z => Inv z ∧ m ∈ z.pipeline.stream.entries ∧ z.eventOf id = some ev)
    (fun u a v ⟨hu, hm, hof⟩ hstep => by
      obtain ⟨t, ht, rfl⟩ := Option.map_eq_some_iff.mp hstep
      refine ⟨hu.step hstep, ?_, hu.eventOf_record ht hof⟩
      rw [record_pipeline]
      exact (tags_step hu.carrier ht).entries m hm)
    ⟨hI, hm, hof⟩ h
  exact hkeep.2

/-- The entry of a replay stays on the stream, so a replay that loses an id is seen at the end. -/
theorem Correlated.always (hI : Inv x) {as : List PipelineAction} (hy : y.Correlated)
    (h : Transition.run (Attributed.step le) x as = some y) :
    Transition.Always (Attributed.step le) ReplaysUncorrelated x as := by
  refine Transition.always_of_run (I := Inv) (fun x a u as hI hu hrun => ⟨?_, hI.step hu⟩) hI h
  obtain ⟨t, ht, rfl⟩ := Option.map_eq_some_iff.mp hu
  cases a with
  | replay id tenantId =>
    intro d hd ev hev
    have hof := hI.eventOf_of_get hd hev
    have hm : ⟨id, none⟩ ∈ t.stream.entries := by
      obtain ⟨_, _, row, -, -, -, rfl, rfl⟩ := replay_some ht
      exact List.mem_append_right _ (List.mem_singleton_self _)
    obtain ⟨hm, hof⟩ := Inv.run_keeps (hI.step hu) hm hof hrun
    obtain ⟨ev', hof', hc⟩ := hy.entries _ hm
    obtain rfl : ev' = ev := Option.some.inj (hof'.symm.trans hof)
    exact hc.symm
  | _ => trivial

/-- In every run, every row belongs to the recorded event of its delivery; and the stream and the
ZSET carry its correlation id, if and only if no replay was of a delivery whose event has one. -/
theorem correlation_follows_iff (le : RetryMember → RetryMember → Bool) {x y : Attributed}
    {as : List PipelineAction} (hx : Init x)
    (h : Transition.run (Attributed.step le) x as = some y) :
    (∀ d ∈ y.pipeline.db.deliveries.rows, y.Home d) ∧
      (y.Correlated ↔ Transition.Always (Attributed.step le) ReplaysUncorrelated x as) := by
  constructor
  · exact (Transition.run_invariant (fun _ _ _ hu hstep => hu.step hstep) hx.inv h).rows
  · constructor
    · exact fun hy => hy.always hx.inv h
    · intro hR
      have hstart : x.Correlated := by
        obtain ⟨⟨-, hstream, hzset, -, -⟩, -⟩ := hx
        constructor
        · simp [hstream, ConsumerGroup.empty]
        · simp [hzset, Table.empty]
      exact (Transition.Always.invariant (I := fun z => Inv z ∧ z.Correlated)
        (fun u a v hu hRu hstep => ⟨hu.1.step hstep, hu.2.step hu.1 hRu hstep⟩)
        ⟨hx.inv, hstart⟩ hR h).2

/-- The event of the sample pipeline under a correlation id. -/
def correlatedEvent : Event :=
  { DeliveryAttemptService.sampleEvent with correlationId := some [0x61] }

def correlatedSample : Attributed where
  pipeline := { samplePipeline with
    db := { samplePipeline.db with events := .singleton correlatedEvent } }
  eventOf _ := none

theorem correlatedSample_init : Init correlatedSample := ⟨⟨rfl, rfl, rfl, rfl, rfl⟩, rfl⟩

/-- The first attempt fails, and the scheduler fires its retry. -/
theorem correlation_follows_sample :
    ∃ y, Transition.run (step fun _ _ => true) correlatedSample
        (sampleRun ++ [.tick 1000000000 100]) = some y ∧
      y.pipeline.stream.entries = [⟨3, some [0x61]⟩, ⟨3, some [0x61]⟩] ∧ y.Correlated := by
  have hrun : (Transition.run (step fun _ _ => true) correlatedSample
      (sampleRun ++ [.tick 1000000000 100])).map (fun y => y.pipeline.stream.entries) =
        some [⟨3, some [0x61]⟩, ⟨3, some [0x61]⟩] := by
    with_unfolding_all rfl
  obtain ⟨y, hy, hentries⟩ := Option.map_eq_some_iff.mp hrun
  refine ⟨y, hy, hentries, ?_⟩
  refine (correlation_follows_iff _ correlatedSample_init hy).2.mpr ?_
  have hother : ∀ a ∈ sampleRun ++ [.tick 1000000000 100], ∀ x y : Attributed,
      ReplaysUncorrelated x a y := by
    simp [sampleRun, ReplaysUncorrelated]
  exact (Transition.always_of_mem hother).mono fun x a y h => h x y

/-- The only attempt is answered with a 500, and the dead delivery is replayed. -/
def replayRun : List PipelineAction :=
  [.claimDue 0 0 50, .openEntry 0, .createDelivery 0 3 0, .publish 0, .closeEntry 0,
    .commitRelay 0, .read 1 10, .beginAttempt 0,
    .commitAttempt 0 { DeliveryAttemptService.sampleEnv with
      settings := { deliveryMaxAttempts := 1 } } fun _ => { latencyMs := 5, statusCode := some 500 },
    .scheduleRetry 0, .ack 0, .replay 3 9]

/-- The replay's entry names the delivery without the correlation id of its event. -/
theorem replay_loses_correlation :
    Init correlatedSample ∧
    ∃ y, Transition.run (step fun _ _ => true) correlatedSample replayRun = some y ∧
      y.pipeline.stream.entries = [⟨3, some [0x61]⟩, ⟨3, none⟩] ∧
      (y.eventOf 3).map (·.correlationId) = some (some [0x61]) ∧ ¬ y.Correlated := by
  refine ⟨correlatedSample_init, ?_⟩
  have hrun : (Transition.run (step fun _ _ => true) correlatedSample replayRun).map
      (fun y => (y.pipeline.stream.entries, (y.eventOf 3).map (·.correlationId))) =
        some ([⟨3, some [0x61]⟩, ⟨3, none⟩], some (some [0x61])) := by
    with_unfolding_all rfl
  obtain ⟨y, hy, hyeq⟩ := Option.map_eq_some_iff.mp hrun
  obtain ⟨hentries, hof⟩ := Prod.mk.inj hyeq
  refine ⟨y, hy, hentries, hof, fun h => ?_⟩
  obtain ⟨ev, hev, hc⟩ := h.entries ⟨3, none⟩ (by rw [hentries]; simp)
  have hev : y.eventOf 3 = some ev := hev
  rw [hev, Option.map_some, ← hc] at hof
  cases hof

end Attributed
end RelayWebhooks
