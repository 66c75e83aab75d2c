import RelayWebhooks.Pipeline.State

/-! At-least-once delivery: every delivery that is still owed has a carrier. An unacked entry
counts as a carrier only while its handler has not passed the point from which it acks without a
further look at the delivery. -/
namespace RelayWebhooks

/-- The delivery still has to be sent. -/
def DeliveryState.Owed (s : DeliveryState) : Prop := s = pending ∨ s = retrying

/-- The returned row makes the worker schedule a retry. -/
def Delivery.NeedsRetry (d : Delivery) : Prop := d.state = .retrying ∧ d.nextRetryAt.isSome

/-- The handler will come back to the delivery, or leave the entry pending. -/
def Handler.Safe (h : Handler) : Prop :=
  match h.phase with
  | .claimed | .attempting _ _ _ => True
  | .attempted row => row.NeedsRetry
  | .acking => False

namespace Pipeline
open DeliveryAttemptService

variable {le : RetryMember → RetryMember → Bool} {s t : Pipeline} {pend : List UUID}

def Inserted (s : Pipeline) (r : ℕ) (d : Delivery) : Prop :=
  ∃ tx ∈ s.relays.rows, tx.id = r ∧ d ∈ tx.inserted

def Published (s : Pipeline) (d : Delivery) : Prop := ∃ tx ∈ s.relays.rows, d ∈ tx.created

theorem RelayTx.mem_inserted_of_created {tx : RelayTx} {d : Delivery} (h : d ∈ tx.created) :
    d ∈ tx.inserted := by
  unfold RelayTx.inserted
  split
  next => exact List.mem_append_left _ h
  next => exact h

theorem inserted_of_published {d : Delivery} (h : s.Published d) : ∃ r, s.Inserted r d := by
  obtain ⟨tx, htx, hd⟩ := h
  exact ⟨tx.id, tx, htx, rfl, RelayTx.mem_inserted_of_created hd⟩

/-- The rows a delivery refers to exist. -/
def Parents (db : Db) (d : Delivery) : Prop :=
  (db.events.get d.eventId).isSome ∧ (db.endpoints.get d.endpointId).isSome

/-- The delivery is committed and still owed, or an open transaction has published it. -/
def Owed (s : Pipeline) (id : UUID) : Prop :=
  (∃ d, s.db.deliveries.get id = some d ∧ d.state.Owed) ∨ ∃ d, s.Published d ∧ d.id = id

/-- An unacked entry names the delivery, and nobody is about to ack it. -/
def SafeEntry (s : Pipeline) (id : UUID) (i : ℕ) : Prop :=
  (∃ m, s.stream.entries[i]? = some m ∧ m.deliveryId = id) ∧ s.stream.Unacked i ∧
    ∀ h, s.handlers i = some h → h.Safe

def Carried (s : Pipeline) (id : UUID) : Prop :=
  s.zset.Carries id ∨ ∃ i, s.SafeEntry id i

/-- What the position of a handler says about the store. While an attempt is open, its delivery
keeps its endpoint and no open transaction inserts it again. -/
def HandlerOk (s : Pipeline) (id : UUID) (p : HandlerPhase) : Prop :=
  match p with
  | .claimed | .acking => True
  | .attempting d _ e =>
    d.id = id ∧ e.id = d.endpointId ∧ d.id ∈ s.issued ∧
      (∀ c, s.db.deliveries.get d.id = some c → c.endpointId = d.endpointId) ∧
      ∀ r c, s.Inserted r c → c.id ≠ d.id
  | .attempted row => row.id = id

/-- The invariant. `pend` lists the deliveries that a running action has still to publish. -/
structure Inv (s : Pipeline) (pend : List UUID) : Prop where
  parents : ∀ d ∈ s.db.deliveries.rows, Parents s.db d
  issued : ∀ d ∈ s.db.deliveries.rows, d.id ∈ s.issued
  inserted : ∀ r d, s.Inserted r d →
    Parents s.db d ∧ d.id ∈ s.issued ∧ s.db.deliveries.get d.id = none
  apart : ∀ r r' d d', s.Inserted r d → s.Inserted r' d' → d.id = d'.id → r = r'
  handlers : ∀ i h, s.handlers i = some h →
    (∃ m, s.stream.entries[i]? = some m ∧ s.HandlerOk m.deliveryId h.phase) ∧ s.stream.Unacked i
  members : ∀ x ∈ s.zset.rows, (parseMember x.member).isSome
  carried : ∀ id, s.Owed id → s.Carried id ∨ id ∈ pend

theorem inv_init (h : Init s) : Inv s [] := by
  obtain ⟨hd, hstream, hz, hr, hh⟩ := h
  have hno : ∀ r d, ¬s.Inserted r d := by
    rintro r d ⟨tx, htx, -⟩
    rw [hr] at htx
    cases htx
  refine ⟨fun d hmem => ?_, fun d hmem => ?_, fun r d hi => (hno r d hi).elim,
    fun r _ d _ hi => (hno r d hi).elim, fun i h hi => ?_, fun x hx => ?_, ?_⟩
  · rw [hd] at hmem
    cases hmem
  · rw [hd] at hmem
    cases hmem
  · rw [hh] at hi
    cases hi
  · rw [hz] at hx
    cases hx
  · rintro id (⟨d, hget, -⟩ | ⟨d, hp, -⟩)
    · rw [hd] at hget
      cases hget
    · obtain ⟨r, hi⟩ := inserted_of_published hp
      exact (hno r d hi).elim

/-- An open attempt keeps its facts when deliveries keep their endpoint, appear only from an open
transaction, and new rows take fresh keys. -/
theorem HandlerOk.mono {id : UUID} {p : HandlerPhase} (h : s.HandlerOk id p)
    (hissued : ∀ x ∈ s.issued, x ∈ t.issued)
    (hrows : ∀ x c, t.db.deliveries.get x = some c →
      (∃ c₀, s.db.deliveries.get x = some c₀ ∧ c.endpointId = c₀.endpointId) ∨
        ∃ r, s.Inserted r c)
    (hins : ∀ r c, t.Inserted r c → s.Inserted r c ∨ c.id ∉ s.issued) : t.HandlerOk id p := by
  cases p with
  | claimed | acking => trivial
  | attempted row => exact h
  | attempting d ev e =>
    obtain ⟨hid, he, hiss, hend, hfresh⟩ := h
    refine ⟨hid, he, hissued _ hiss, fun c hc => ?_, fun r c hc hcid => ?_⟩
    · rcases hrows _ c hc with ⟨c₀, hc₀, hce⟩ | ⟨r, hi⟩
      · rw [hce, hend c₀ hc₀]
      · have hcid : c.id = d.id := Table.key_of_get hc
        exact (hfresh r c hi hcid).elim
    · rcases hins r c hc with hi | hnew
      · exact hfresh r c hi hcid
      · exact hnew (hcid ▸ hiss)

/-- The facts of an open attempt do not depend on the stream, the schedule or other handlers. -/
theorem HandlerOk.frame {id : UUID} {p : HandlerPhase} (h : s.HandlerOk id p)
    (hissued : t.issued = s.issued) (hdel : t.db.deliveries = s.db.deliveries)
    (hins : ∀ r c, t.Inserted r c → s.Inserted r c) : t.HandlerOk id p := by
  refine h.mono (fun x hx => hissued ▸ hx) (fun x c hc => .inl ⟨c, ?_, rfl⟩)
    fun r c hi => .inl (hins r c hi)
  rw [← hdel]
  exact hc

/-- The other tables change, and no row that a delivery refers to goes away. -/
theorem Inv.setDb (hI : Inv s pend) {db : Db} (hd : db.deliveries = s.db.deliveries)
    (hp : ∀ d, Parents s.db d → Parents db d) : Inv { s with db } pend := by
  refine ⟨fun d hmem => ?_, fun d hmem => ?_, fun r d hi => ?_, hI.apart, fun i h hh => ?_,
    hI.members, fun id ho => ?_⟩
  · exact hp d (hI.parents d (hd ▸ hmem))
  · exact hI.issued d (hd ▸ hmem)
  · obtain ⟨hpar, hiss, hnone⟩ := hI.inserted r d hi
    exact ⟨hp d hpar, hiss, by simpa only [hd] using hnone⟩
  · obtain ⟨⟨m, hm, hok⟩, hun⟩ := hI.handlers i h hh
    exact ⟨⟨m, hm, hok.frame rfl hd fun _ _ hi => hi⟩, hun⟩
  · refine hI.carried id (ho.imp_left ?_)
    rintro ⟨d, hget, hs⟩
    exact ⟨d, by simpa only [hd] using hget, hs⟩

theorem Inv.ingest (hI : Inv s pend) {event : Event} {outboxId : UUID} {createdAt : ℤ}
    (h : s.ingest event outboxId createdAt = some t) : Inv t pend := by
  unfold Pipeline.ingest at h
  split at h
  next events db o hev ho =>
    obtain ⟨outbox, -, rfl, -⟩ := Db.createOutboxEntry_ok ho
    obtain rfl := Option.some.inj h
    refine hI.setDb rfl fun d ⟨hevd, hend⟩ => ⟨?_, hend⟩
    obtain ⟨ev, hget⟩ := Option.isSome_iff_exists.mp hevd
    exact Option.isSome_iff_exists.mpr ⟨ev, Table.get_insert_of_get hev hget⟩
  next => cases h

theorem Inv.putEndpoint (hI : Inv s pend) (e : Endpoint) : Inv (s.putEndpoint e) pend := by
  unfold Pipeline.putEndpoint
  split
  next endpoints he =>
    refine hI.setDb rfl fun d ⟨hev, hend⟩ => ⟨hev, ?_⟩
    obtain ⟨e₀, he₀⟩ := Option.isSome_iff_exists.mp hend
    exact Option.isSome_iff_exists.mpr ⟨e₀, Table.get_insert_of_get he he₀⟩
  next =>
    refine hI.setDb rfl fun d ⟨hev, hend⟩ => ⟨hev, ?_⟩
    exact (Table.isSome_get_update ..).trans hend

/-- The cascade removes the deliveries of the endpoint, and no open transaction refers to it. -/
theorem Inv.deleteEndpoint (hI : Inv s pend) {id : UUID} (h : s.deleteEndpoint id = some t) :
    Inv t pend := by
  unfold Pipeline.deleteEndpoint at h
  split at h
  next => cases h
  next hfree =>
    obtain rfl := Option.some.inj h
    have hins : ∀ r d, s.Inserted r d → d.endpointId ≠ id := by
      rintro r d ⟨tx, htx, -, hd⟩ heq
      refine hfree (List.any_eq_true.mpr ⟨tx, htx, List.any_eq_true.mpr ⟨d, hd, ?_⟩⟩)
      exact decide_eq_true heq
    have hpar : ∀ d, Parents s.db d → d.endpointId ≠ id → Parents (s.db.deleteEndpoint id) d := by
      rintro d ⟨hev, hend⟩ hne
      refine ⟨hev, ?_⟩
      have hkeep : ((s.db.deleteEndpoint id).endpoints.get d.endpointId) =
          s.db.endpoints.get d.endpointId := Table.get_deleteWhere_ne _ hne
      rw [hkeep]
      exact hend
    have hget : ∀ x c, (s.db.deleteEndpoint id).deliveries.get x = some c →
        s.db.deliveries.get x = some c := by
      intro x c hc
      have hfilter : (s.db.deleteEndpoint id).deliveries.get x =
          (s.db.deliveries.get x).filter fun d => !decide (d.endpointId = id) :=
        Table.get_deleteWhere _ _ _
      rw [hfilter] at hc
      exact (Option.filter_eq_some_iff.mp hc).1
    refine ⟨fun d hmem => ?_, fun d hmem => ?_, fun r d hi => ?_, hI.apart, fun i h hh => ?_,
      hI.members, fun x ho => ?_⟩
    · obtain ⟨hmem, hne⟩ := List.mem_filter.mp hmem
      exact hpar d (hI.parents d hmem) (by simpa using hne)
    · exact hI.issued d (List.mem_filter.mp hmem).1
    · obtain ⟨hp, hiss, hnone⟩ := hI.inserted r d hi
      refine ⟨hpar d hp (hins r d hi), hiss, ?_⟩
      cases hc : (s.db.deleteEndpoint id).deliveries.get d.id with
      | none => rfl
      | some c =>
        have hsome := hget d.id c hc
        rw [hnone] at hsome
        cases hsome
    · obtain ⟨⟨m, hm, hok⟩, hun⟩ := hI.handlers i h hh
      exact ⟨⟨m, hm, hok.mono (fun _ hx => hx) (fun x c hc => .inl ⟨c, hget x c hc, rfl⟩)
        fun _ _ hi => .inl hi⟩, hun⟩
    · exact hI.carried x (ho.imp_left fun ⟨d, hd, hs⟩ => ⟨d, hget x d hd, hs⟩)

/-- The open transactions change without a new insert or a new message. -/
theorem Inv.setRelays (hI : Inv s pend) {relays : Table RelayTx}
    (hins : ∀ r d, Inserted { s with relays } r d → s.Inserted r d)
    (hpub : ∀ d, Published { s with relays } d → s.Published d) : Inv { s with relays } pend := by
  refine ⟨hI.parents, hI.issued, fun r d hi => hI.inserted r d (hins r d hi),
    fun r r' d d' hi hi' => hI.apart r r' d d' (hins r d hi) (hins r' d' hi'),
    fun i h hh => ?_, hI.members, fun x ho => ?_⟩
  · obtain ⟨⟨m, hm, hok⟩, hun⟩ := hI.handlers i h hh
    exact ⟨⟨m, hm, hok.frame rfl rfl hins⟩, hun⟩
  · exact hI.carried x (ho.imp_right fun ⟨d, hd, hid⟩ => ⟨d, hpub d hd, hid⟩)

theorem Inv.dropTx (hI : Inv s pend) (r : ℕ) : Inv (s.dropTx r) pend := by
  refine hI.setRelays (fun r' d hi => ?_) fun d hp => ?_
  · obtain ⟨tx, htx, hid, hd⟩ := hi
    exact ⟨tx, (List.mem_filter.mp htx).1, hid, hd⟩
  · obtain ⟨tx, htx, hd⟩ := hp
    exact ⟨tx, (List.mem_filter.mp htx).1, hd⟩

theorem inserted_setTx {tx : RelayTx} {r : ℕ} {d : Delivery}
    (h : (s.setTx tx).Inserted r d) : (r = tx.id ∧ d ∈ tx.inserted) ∨ s.Inserted r d := by
  obtain ⟨tx', htx, rfl, hd⟩ := h
  rcases Table.mem_update htx with rfl | ⟨htx, -⟩
  · exact .inl ⟨rfl, hd⟩
  · exact .inr ⟨tx', htx, rfl, hd⟩

theorem published_setTx {tx : RelayTx} {d : Delivery} (h : (s.setTx tx).Published d) :
    d ∈ tx.created ∨ s.Published d := by
  obtain ⟨tx', htx, hd⟩ := h
  rcases Table.mem_update htx with rfl | ⟨htx, -⟩
  · exact .inl hd
  · exact .inr ⟨tx', htx, hd⟩

/-- A transaction moves on without a new insert or a new message. -/
theorem Inv.setTx (hI : Inv s pend) {tx₀ tx : RelayTx} {r : ℕ}
    (h : s.relays.get r = some tx₀) (hid : tx.id = tx₀.id)
    (hins : ∀ d ∈ tx.inserted, d ∈ tx₀.inserted) (hcr : ∀ d ∈ tx.created, d ∈ tx₀.created) :
    Inv (s.setTx tx) pend := by
  have hmem := Table.mem_of_get h
  refine hI.setRelays (fun r' d hi => ?_) fun d hp => ?_
  · rcases inserted_setTx hi with ⟨rfl, hd⟩ | hi
    · exact ⟨tx₀, hmem, hid.symm, hins d hd⟩
    · exact hi
  · rcases published_setTx hp with hd | hp
    · exact ⟨tx₀, hmem, hcr d hd⟩
    · exact hp

theorem Inv.claimDue (hI : Inv s pend) {r : ℕ} {now : ℤ} {limit : ℕ}
    (h : s.claimDue r now limit = some t) : Inv t pend := by
  obtain ⟨relays, hins, rfl⟩ := Option.map_eq_some_iff.mp h
  obtain ⟨-, hrows⟩ := Table.insert_eq_some.mp hins
  refine hI.setRelays (fun r' d hi => ?_) fun d hp => ?_
  · obtain ⟨tx, htx, hid, hd⟩ := hi
    rw [hrows, List.mem_append, List.mem_singleton] at htx
    rcases htx with htx | rfl
    · exact ⟨tx, htx, hid, hd⟩
    · cases hd
  · obtain ⟨tx, htx, hd⟩ := hp
    rw [hrows, List.mem_append, List.mem_singleton] at htx
    rcases htx with htx | rfl
    · exact ⟨tx, htx, hd⟩
    · cases hd

theorem Inv.openEntry (hI : Inv s pend) {r : ℕ} (h : s.openEntry r = some t) : Inv t pend := by
  unfold Pipeline.openEntry at h
  split at h
  next hr =>
    split at h
    next =>
      obtain rfl := Option.some.inj h
      exact hI.setTx hr rfl (fun _ hd => hd) fun _ hd => hd
    next =>
      obtain rfl := Option.some.inj h
      exact hI.setTx hr rfl (fun _ hd => hd) fun _ hd => hd
  next => cases h

theorem Inv.closeEntry (hI : Inv s pend) {r : ℕ} (h : s.closeEntry r = some t) : Inv t pend := by
  unfold Pipeline.closeEntry at h
  split at h
  next hr =>
    obtain rfl := Option.some.inj h
    exact hI.setTx hr rfl (fun _ hd => hd) fun _ hd => hd
  next => cases h

theorem Inv.rollback (hI : Inv s pend) {r : ℕ} (h : s.rollback r = some t) : Inv t pend := by
  obtain ⟨tx, -, rfl⟩ := Option.map_eq_some_iff.mp h
  exact hI.dropTx r

/-- A new row has a key that no row and no open attempt has. -/
theorem Inv.createDelivery (hI : Inv s pend) {r : ℕ} {id : UUID} {createdAt : ℤ}
    (h : s.createDelivery r id createdAt = some t) : Inv t pend := by
  unfold Pipeline.createDelivery at h
  split at h
  next j claimed queue o ev e targets created hr =>
    split at h
    next => cases h
    next hfresh =>
      split at h
      next db d hd =>
        obtain rfl := Option.some.inj h
        obtain ⟨hdeq, hev, hend, hnone⟩ := Db.createDelivery_ok hd
        have hdid : d.id = id := by rw [hdeq]
        have hpar : Parents s.db d := by
          rw [hdeq]
          exact ⟨hev, hend⟩
        have hmem := Table.mem_of_get hr
        have hins : ∀ r' d', Inserted { s.setTx ⟨j, claimed, queue,
            .publishing o ev targets d, created⟩ with issued := id :: s.issued } r' d' →
            (r' = j ∧ d' = d) ∨ s.Inserted r' d' := by
          intro r' d' hi
          rcases inserted_setTx hi with ⟨rfl, hd'⟩ | hi
          · rcases List.mem_append.mp hd' with hd' | hd'
            · exact .inr ⟨_, hmem, rfl, hd'⟩
            · exact .inl ⟨rfl, List.mem_singleton.mp hd'⟩
          · exact .inr hi
        refine ⟨hI.parents, fun c hc => List.mem_cons_of_mem _ (hI.issued c hc), fun r' d' hi => ?_,
          fun r₁ r₂ d₁ d₂ h₁ h₂ heq => ?_, fun i hd hh => ?_, hI.members, fun x ho => ?_⟩
        · rcases hins r' d' hi with ⟨-, rfl⟩ | hi
          · exact ⟨hpar, by simp [hdid], hdid ▸ hnone⟩
          · obtain ⟨hp, hiss, hn⟩ := hI.inserted r' d' hi
            exact ⟨hp, List.mem_cons_of_mem _ hiss, hn⟩
        · rcases hins r₁ d₁ h₁ with ⟨hr₁, hd₁⟩ | hs₁ <;>
            rcases hins r₂ d₂ h₂ with ⟨hr₂, hd₂⟩ | hs₂
          · exact hr₁.trans hr₂.symm
          · have hiss := (hI.inserted r₂ d₂ hs₂).2.1
            rw [← heq, hd₁, hdid] at hiss
            exact (hfresh hiss).elim
          · have hiss := (hI.inserted r₁ d₁ hs₁).2.1
            rw [heq, hd₂, hdid] at hiss
            exact (hfresh hiss).elim
          · exact hI.apart r₁ r₂ d₁ d₂ hs₁ hs₂ heq
        · obtain ⟨⟨m, hm, hok⟩, hun⟩ := hI.handlers i hd hh
          refine ⟨⟨m, hm, hok.mono (fun _ hx => List.mem_cons_of_mem _ hx)
            (fun x c hc => .inl ⟨c, hc, rfl⟩) fun r' c hi => ?_⟩, hun⟩
          rcases hins r' c hi with ⟨-, rfl⟩ | hi
          · exact .inr (hdid ▸ hfresh)
          · exact .inl hi
        · refine hI.carried x (ho.imp_right fun ⟨c, hc, hid⟩ => ⟨c, ?_, hid⟩)
          rcases published_setTx hc with hc | hc
          · exact ⟨_, hmem, hc⟩
          · exact hc
      next =>
        obtain rfl := Option.some.inj h
        exact hI.dropTx r
  next => cases h

/-- The message goes out before the row it names is committed. -/
theorem Inv.enqueue {id : UUID} (hI : Inv s (id :: pend)) (correlationId : Option PyText) :
    Inv (s.enqueue id correlationId) pend := by
  refine ⟨hI.parents, hI.issued, hI.inserted, hI.apart, fun i h hh => ?_, hI.members,
    fun x ho => ?_⟩
  · obtain ⟨⟨m, hm, hok⟩, hun⟩ := hI.handlers i h hh
    exact ⟨⟨m, ConsumerGroup.entries_xadd_of_some hm _, hok.frame rfl rfl fun _ _ hi => hi⟩,
      hun.xadd _⟩
  · have hnew : (s.enqueue id correlationId).SafeEntry id s.stream.entries.length := by
      refine ⟨⟨_, s.stream.entries_xadd_length _, rfl⟩, s.stream.unacked_xadd _, ?_⟩
      intro h hh
      obtain ⟨⟨m, hm, -⟩, -⟩ := hI.handlers _ h hh
      have hlt := (List.getElem?_eq_some_iff.mp hm).1
      exact (Nat.lt_irrefl _ hlt).elim
    rcases hI.carried x ho with (hz | ⟨i, ⟨m, hm, hid⟩, hun, hsafe⟩) | hp
    · exact .inl (.inl hz)
    · exact .inl (.inr ⟨i, ⟨m, ConsumerGroup.entries_xadd_of_some hm _, hid⟩, hun.xadd _, hsafe⟩)
    · rcases List.mem_cons.mp hp with rfl | hp
      · exact .inl (.inr ⟨_, hnew⟩)
      · exact .inr hp

theorem Inv.publish (hI : Inv s pend) {r : ℕ} (h : s.publish r = some t) : Inv t pend := by
  unfold Pipeline.publish at h
  split at h
  next j claimed queue o ev targets d created hr =>
    obtain rfl := Option.some.inj h
    have hmem := Table.mem_of_get hr
    refine Inv.enqueue ?_ _
    have hins : ∀ r' d', (s.setTx ⟨j, claimed, queue, .fanOut o ev targets,
        created ++ [d]⟩).Inserted r' d' → s.Inserted r' d' := by
      intro r' d' hi
      rcases inserted_setTx hi with ⟨rfl, hd'⟩ | hi
      · exact ⟨_, hmem, rfl, hd'⟩
      · exact hi
    refine ⟨hI.parents, hI.issued, fun r' d' hi => hI.inserted r' d' (hins r' d' hi),
      fun r₁ r₂ d₁ d₂ h₁ h₂ => hI.apart r₁ r₂ d₁ d₂ (hins r₁ d₁ h₁) (hins r₂ d₂ h₂),
      fun i hd hh => ?_, hI.members, fun x ho => ?_⟩
    · obtain ⟨⟨m, hm, hok⟩, hun⟩ := hI.handlers i hd hh
      exact ⟨⟨m, hm, hok.frame rfl rfl hins⟩, hun⟩
    · have hcases : s.Owed x ∨ x = d.id := by
        rcases ho with ho | ⟨c, hc, rfl⟩
        · exact .inl (.inl ho)
        · rcases published_setTx hc with hc | hc
          · rcases List.mem_append.mp hc with hc | hc
            · exact .inl (.inr ⟨c, ⟨_, hmem, hc⟩, rfl⟩)
            · exact .inr (by rw [List.mem_singleton.mp hc])
          · exact .inl (.inr ⟨c, hc, rfl⟩)
      rcases hcases with ho | rfl
      · exact (hI.carried x ho).imp_right (List.mem_cons_of_mem _)
      · exact .inr List.mem_cons_self
  next => cases h

/-- The rows an open transaction has published become visible; each of them has its carrier. -/
theorem Inv.commitRelay (hI : Inv s pend) {r : ℕ} (h : s.commitRelay r = some t) :
    Inv t pend := by
  unfold Pipeline.commitRelay at h
  split at h
  next j claimed created hr =>
    obtain ⟨deliveries, hall, rfl⟩ := Option.map_eq_some_iff.mp h
    have hj : j = r := Table.key_of_get hr
    have hmem := Table.mem_of_get hr
    have hrows := Table.rows_insertAll hall
    have hcreated : ∀ c ∈ created, s.Inserted r c := fun c hc => ⟨_, hmem, hj, hc⟩
    have hother : ∀ r' d, (s.dropTx r).Inserted r' d → s.Inserted r' d ∧ r' ≠ r := by
      rintro r' d ⟨tx, htx, rfl, hd⟩
      obtain ⟨htx, hne⟩ := List.mem_filter.mp htx
      exact ⟨⟨tx, htx, rfl, hd⟩, by simpa using hne⟩
    have hget : ∀ x c, deliveries.get x = some c →
        s.db.deliveries.get x = some c ∨ c ∈ created := by
      intro x c hc
      obtain ⟨hc, hx⟩ := Table.get_eq_some.mp hc
      rw [hrows] at hc
      rcases List.mem_append.mp hc with hc | hc
      · exact .inl (Table.get_eq_some.mpr ⟨hc, hx⟩)
      · exact .inr hc
    refine ⟨fun d hd => ?_, fun d hd => ?_, fun r' d hi => ?_,
      fun r₁ r₂ d₁ d₂ h₁ h₂ => hI.apart r₁ r₂ d₁ d₂ (hother r₁ d₁ h₁).1 (hother r₂ d₂ h₂).1,
      fun i hd hh => ?_, hI.members, fun x ho => ?_⟩
    · rcases List.mem_append.mp (hrows ▸ hd) with hd | hd
      · exact hI.parents d hd
      · exact (hI.inserted r d (hcreated d hd)).1
    · rcases List.mem_append.mp (hrows ▸ hd) with hd | hd
      · exact hI.issued d hd
      · exact (hI.inserted r d (hcreated d hd)).2.1
    · obtain ⟨hi, hne⟩ := hother r' d hi
      obtain ⟨hp, hiss, hnone⟩ := hI.inserted r' d hi
      refine ⟨hp, hiss, Table.get_eq_none.mpr fun c hc hcid => ?_⟩
      rcases List.mem_append.mp (hrows ▸ hc) with hc | hc
      · exact Table.get_eq_none.mp hnone c hc hcid
      · exact hne (hI.apart r' r d c hi (hcreated c hc) hcid.symm)
    · obtain ⟨⟨m, hm, hok⟩, hun⟩ := hI.handlers i hd hh
      refine ⟨⟨m, hm, hok.mono (fun _ hx => hx) (fun x c hc => ?_)
        fun r' c hi => .inl (hother r' c hi).1⟩, hun⟩
      rcases hget x c hc with hc | hc
      · exact .inl ⟨c, hc, rfl⟩
      · exact .inr ⟨r, hcreated c hc⟩
    · refine hI.carried x ?_
      rcases ho with ⟨d, hd, hs⟩ | ⟨d, ⟨tx, htx, hd⟩, hid⟩
      · have hdx : d.id = x := Table.key_of_get hd
        rcases hget x d hd with hd | hd
        · exact .inl ⟨d, hd, hs⟩
        · exact .inr ⟨d, ⟨_, hmem, hd⟩, hdx⟩
      · exact .inr ⟨d, ⟨tx, (List.mem_filter.mp htx).1, hd⟩, hid⟩
  next => cases h

/-- Handing entries to a worker keeps them unacked and safe. -/
theorem Inv.handOut (hI : Inv s pend) {stream : DeliveryStream} {taken : List ℕ} {h₀ : Handler}
    (h₀c : h₀.phase = .claimed) (hentries : stream.entries = s.stream.entries)
    (hun : ∀ i, stream.Unacked i ↔ s.stream.Unacked i) (htaken : ∀ i ∈ taken, s.stream.Unacked i) :
    Inv { s with stream, handlers := fun i => if i ∈ taken then some h₀ else s.handlers i }
      pend := by
  have hsafe₀ : h₀.Safe := by
    rw [Handler.Safe, h₀c]
    trivial
  refine ⟨hI.parents, hI.issued, hI.inserted, hI.apart, fun i h hh => ?_, hI.members,
    fun x ho => (hI.carried x ho).imp_left fun hc => ?_⟩
  · dsimp only at hh ⊢
    rw [hentries, hun i]
    split at hh
    next hi =>
      obtain rfl := Option.some.inj hh
      have hlt := (htaken i hi).1
      refine ⟨⟨s.stream.entries[i], List.getElem?_eq_getElem hlt, ?_⟩, htaken i hi⟩
      rw [h₀c]
      trivial
    next =>
      obtain ⟨⟨m, hm, hok⟩, hu⟩ := hI.handlers i h hh
      exact ⟨⟨m, hm, hok.frame rfl rfl fun _ _ hi => hi⟩, hu⟩
  · refine hc.imp_right fun ⟨i, hm, hu, hs⟩ => ⟨i, ?_, (hun i).mpr hu, fun h hh => ?_⟩
    · dsimp only
      rw [hentries]
      exact hm
    · dsimp only at hh
      split at hh
      next => exact Option.some.inj hh ▸ hsafe₀
      next => exact hs h hh

theorem Inv.read (hI : Inv s pend) (worker count : ℕ) : Inv (s.read worker count) pend :=
  hI.handOut rfl rfl (fun _ => ConsumerGroup.unacked_xreadgroup) fun _ =>
    ConsumerGroup.unacked_of_mem_unread

theorem Inv.autoclaim (hI : Inv s pend) (worker : ℕ) (idle : List ℕ) (count : ℕ) :
    Inv (s.autoclaim worker idle count) pend :=
  hI.handOut rfl rfl (fun _ => ConsumerGroup.unacked_xautoclaim) fun _ =>
    ConsumerGroup.unacked_of_mem_stalePending

/-- One handler moves on. Unless its entry stays safe, the delivery the entry carried has another
carrier. -/
theorem Inv.setHandler (hI : Inv s pend) {i : ℕ} {h' : Option Handler}
    (hok : ∀ h, h' = some h → (∃ m, s.stream.entries[i]? = some m ∧
      s.HandlerOk m.deliveryId h.phase) ∧ s.stream.Unacked i)
    (hsafe : (∀ h, h' = some h → h.Safe) ∨
      ∀ x, s.SafeEntry x i → s.Owed x → s.zset.Carries x) : Inv (s.setHandler i h') pend := by
  refine ⟨hI.parents, hI.issued, hI.inserted, hI.apart, fun j h hh => ?_, hI.members,
    fun x ho => ?_⟩
  · have hmono : ∀ {m : DeliveryMessage} {p : HandlerPhase}, s.HandlerOk m.deliveryId p →
        (s.setHandler i h').HandlerOk m.deliveryId p := fun hok =>
      hok.frame rfl rfl fun _ _ hi => hi
    by_cases hj : j = i
    · subst hj
      rw [setHandler_self] at hh
      obtain ⟨⟨m, hm, hp⟩, hu⟩ := hok h hh
      exact ⟨⟨m, hm, hmono hp⟩, hu⟩
    · rw [setHandler_ne _ _ hj] at hh
      obtain ⟨⟨m, hm, hp⟩, hu⟩ := hI.handlers j h hh
      exact ⟨⟨m, hm, hmono hp⟩, hu⟩
  · rcases hI.carried x ho with (hz | ⟨j, hm, hu, hs⟩) | hp
    · exact .inl (.inl hz)
    · by_cases hj : j = i
      · subst hj
        rcases hsafe with hsafe | hother
        · refine .inl (.inr ⟨j, hm, hu, fun h hh => hsafe h ?_⟩)
          rwa [setHandler_self] at hh
        · exact .inl (.inl (hother x ⟨hm, hu, hs⟩ ho))
      · refine .inl (.inr ⟨j, hm, hu, fun h hh => hs h ?_⟩)
        rwa [setHandler_ne _ _ hj] at hh
    · exact .inr hp

/-- A delivery that cannot be found, outside of a fan-out transaction that is still open, is not
owed. -/
theorem not_owed_of_gone {x : UUID} (hget : s.db.deliveries.get x = none)
    (hopen : ∀ r c, s.Inserted r c → c.id ≠ x) : ¬s.Owed x := by
  rintro (⟨d, hd, -⟩ | ⟨d, hp, hid⟩)
  · rw [hget] at hd
    cases hd
  · obtain ⟨r, hi⟩ := inserted_of_published hp
    exact hopen r d hi hid

/-- An exception leaves the entry pending, or a reaper drops the entry of a delivery that is
gone. -/
theorem Inv.afterError (hI : Inv s pend) {i : ℕ} {h : Handler} {err : Raised}
    (hh : s.handlers i = some h)
    (hgone : h.kind = .reaper → err.isNotFound = true → ∀ x, s.SafeEntry x i → ¬s.Owed x) :
    Inv (s.setHandler i (Pipeline.afterError h err)) pend := by
  unfold Pipeline.afterError
  split
  next hdrop =>
    refine hI.setHandler (fun h' heq => ?_) (.inr fun x hx ho => ?_)
    · obtain rfl := Option.some.inj heq
      obtain ⟨⟨m, hm, -⟩, hu⟩ := hI.handlers i h hh
      exact ⟨⟨m, hm, trivial⟩, hu⟩
    · exact (hgone hdrop.1 hdrop.2 x hx ho).elim
  next => exact hI.setHandler (fun h' heq => by cases heq) (.inl fun h' heq => by cases heq)

theorem Inv.fail (hI : Inv s pend) (i : ℕ) : Inv (s.fail i) pend :=
  hI.setHandler (fun h heq => by cases heq) (.inl fun h heq => by cases heq)

theorem Inv.crash (hI : Inv s pend) (worker : ℕ) : Inv (s.crash worker) pend := by
  have hkeep : ∀ i h, (s.crash worker).handlers i = some h → s.handlers i = some h :=
    fun i h hh => (Option.filter_eq_some_iff.mp hh).1
  refine ⟨hI.parents, hI.issued, hI.inserted, hI.apart, fun i h hh => ?_, hI.members,
    fun x ho => (hI.carried x ho).imp_left fun hc => ?_⟩
  · obtain ⟨⟨m, hm, hok⟩, hu⟩ := hI.handlers i h (hkeep i h hh)
    exact ⟨⟨m, hm, hok.frame rfl rfl fun _ _ hi => hi⟩, hu⟩
  · exact hc.imp_right fun ⟨i, hm, hu, hs⟩ => ⟨i, hm, hu, fun h hh => hs h (hkeep i h hh)⟩

theorem not_inserted_of_not_fanOutOpen {x : UUID} (h : s.fanOutOpen x = false) {r : ℕ}
    {c : Delivery} (hi : s.Inserted r c) : c.id ≠ x := by
  obtain ⟨tx, htx, -, hc⟩ := hi
  intro hid
  have hopen : s.fanOutOpen x = true :=
    List.any_eq_true.mpr ⟨tx, htx, List.any_eq_true.mpr ⟨c, hc, decide_eq_true hid⟩⟩
  rw [h] at hopen
  cases hopen

/-- The rows that a committed delivery refers to exist, so `attempt` raises for want of a row only
if the delivery itself is missing. -/
theorem get_none_of_loadRows_error (hI : Inv s pend) {x : UUID} {err : Raised}
    (h : loadRows s.db x = .error err) : s.db.deliveries.get x = none := by
  unfold loadRows at h
  split at h
  next hd => exact hd
  next d hd =>
    obtain ⟨hev, hend⟩ := hI.parents d (Table.mem_of_get hd)
    split at h
    next hnone =>
      rw [hnone] at hev
      cases hev
    next =>
      split at h
      next hnone =>
        rw [hnone] at hend
        cases hend
      next => cases h

theorem Inv.beginAttempt (hI : Inv s pend) {i : ℕ} (h : s.beginAttempt i = some t) :
    Inv t pend := by
  unfold Pipeline.beginAttempt at h
  split at h
  next w kind m hh hm =>
    obtain ⟨⟨m', hm', -⟩, hu⟩ := hI.handlers i _ hh
    obtain rfl : m = m' := Option.some.inj (hm.symm.trans hm')
    split at h
    next => cases h
    next hopen =>
      split at h
      next d ev e hload =>
        obtain rfl := Option.some.inj h
        obtain ⟨hd, -, he⟩ := loadRows_ok hload
        have hdid : d.id = m.deliveryId := Table.key_of_get hd
        have heid : e.id = d.endpointId := Table.key_of_get he
        have hmem := Table.mem_of_get hd
        refine hI.setHandler (fun h' heq => ?_) (.inl fun h' heq => ?_)
        · obtain rfl := Option.some.inj heq
          refine ⟨⟨m, hm, hdid, heid, hI.issued d hmem, fun c hc => ?_, fun r c hi hcid => ?_⟩, hu⟩
          · rw [hdid, hd] at hc
            rw [Option.some.inj hc]
          · have hnone := (hI.inserted r c hi).2.2
            rw [hcid, hdid, hd] at hnone
            cases hnone
        · obtain rfl := Option.some.inj heq
          trivial
      next err hload =>
        obtain rfl := Option.some.inj h
        refine hI.afterError hh fun hkind _ x hx => ?_
        obtain ⟨⟨m', hm', rfl⟩, -⟩ := hx
        obtain rfl : m = m' := Option.some.inj (hm.symm.trans hm')
        have hclosed : ¬s.fanOutOpen m.deliveryId := fun hf => hopen ⟨hkind, hf⟩
        exact not_owed_of_gone (get_none_of_loadRows_error hI hload) fun r c hi =>
          not_inserted_of_not_fanOutOpen (Bool.eq_false_iff.mpr hclosed) hi
  next => cases h

/-- An outcome that leaves the delivery owed asks for a retry. -/
theorem needsRetry_of_owed {w : DeliveryWrite} (hw : IsOutcome w) (d : Delivery)
    (ho : (w.apply d).state.Owed) : (w.apply d).NeedsRetry := by
  cases w with
  | markRetrying | reschedule => exact ⟨rfl, rfl⟩
  | resetForReplay => exact (hw rfl).elim
  | markDelivered | markDead =>
    rcases ho with ho | ho <;> cases ho

/-- A committed row is rewritten in its place, and no row that a delivery refers to goes away. -/
theorem Inv.rewrite (hI : Inv s pend) {db : Db} {d₀ row : Delivery}
    (hd₀ : s.db.deliveries.get row.id = some d₀) (hev : row.eventId = d₀.eventId)
    (hend : row.endpointId = d₀.endpointId)
    (hdel : db.deliveries = s.db.deliveries.update row)
    (hp : ∀ d, Parents s.db d → Parents db d) : Inv { s with db } (row.id :: pend) := by
  have hid₀ : d₀.id = row.id := Table.key_of_get hd₀
  have hget : ∀ x c, db.deliveries.get x = some c →
      s.db.deliveries.get x = some c ∨ x = row.id ∧ c = row := by
    intro x c hc
    rw [hdel, Table.get_update] at hc
    split at hc
    next hx =>
      obtain ⟨-, -, rfl⟩ := Option.map_eq_some_iff.mp hc
      exact .inr ⟨hx, rfl⟩
    next => exact .inl hc
  refine ⟨fun d hd => ?_, fun d hd => ?_, fun r d hi => ?_, hI.apart, fun i h hh => ?_,
    hI.members, fun x ho => ?_⟩
  · rcases Table.mem_update (hdel ▸ hd) with rfl | ⟨hd, -⟩
    · obtain ⟨hev₀, hend₀⟩ := hI.parents d₀ (Table.mem_of_get hd₀)
      exact hp d ⟨hev ▸ hev₀, hend ▸ hend₀⟩
    · exact hp d (hI.parents d hd)
  · rcases Table.mem_update (hdel ▸ hd) with rfl | ⟨hd, -⟩
    · exact hid₀ ▸ hI.issued d₀ (Table.mem_of_get hd₀)
    · exact hI.issued d hd
  · obtain ⟨hpar, hiss, hnone⟩ := hI.inserted r d hi
    refine ⟨hp d hpar, hiss, ?_⟩
    cases hc : db.deliveries.get d.id with
    | none => rfl
    | some c =>
      rcases hget _ c hc with hc | ⟨hrow, -⟩
      · rw [hnone] at hc
        cases hc
      · rw [← hrow, hnone] at hd₀
        cases hd₀
  · obtain ⟨⟨m, hm, hok⟩, hu⟩ := hI.handlers i h hh
    refine ⟨⟨m, hm, hok.mono (fun _ hx => hx) (fun x c hc => .inl ?_) fun _ _ hi => .inl hi⟩, hu⟩
    rcases hget x c hc with hc | ⟨rfl, rfl⟩
    · exact ⟨c, hc, rfl⟩
    · exact ⟨d₀, hd₀, hend⟩
  · by_cases hx : x = row.id
    · exact .inr (hx ▸ List.mem_cons_self)
    · refine (hI.carried x ?_).imp_right (List.mem_cons_of_mem _)
      rcases ho with ⟨d, hd, hs⟩ | ho
      · rcases hget x d hd with hd | ⟨hrow, -⟩
        · exact .inl ⟨d, hd, hs⟩
        · exact (hx hrow).elim
      · exact .inr ho

theorem Inv.settle {x : UUID} (hI : Inv s (x :: pend)) (hx : s.Owed x → s.Carried x) :
    Inv s pend := by
  refine ⟨hI.parents, hI.issued, hI.inserted, hI.apart, hI.handlers, hI.members, fun y ho => ?_⟩
  rcases hI.carried y ho with hc | hmem
  · exact .inl hc
  · rcases List.mem_cons.mp hmem with rfl | hmem
    · exact .inl (hx ho)
    · exact .inr hmem

/-- The entry stays with its handler, and keeps its delivery safe if the new row needs a retry. -/
theorem Inv.attempted (hI : Inv s pend) {i : ℕ} {db : Db} {m : DeliveryMessage} {w : ℕ}
    {kind : WorkerKind} {row : Delivery} (hm : s.stream.entries[i]? = some m)
    (hid : row.id = m.deliveryId) (hu : s.stream.Unacked i)
    (hfresh : ∀ r c, s.Inserted r c → c.id ≠ row.id) (hfin : Finished s.db row.id db row) :
    Inv { s.setHandler i (some ⟨w, kind, .attempted row⟩) with db := db } pend := by
  obtain ⟨write, d₀, hw, hd₀, hrow⟩ := hfin.written
  have hpar : ∀ d, Parents s.db d → Parents db d := by
    rintro d ⟨hev, hend⟩
    exact ⟨hfin.events ▸ hev, (hfin.endpoints _).trans hend⟩
  have hI₁ : Inv { s with db } (row.id :: pend) :=
    hI.rewrite hd₀ (by rw [hrow, DeliveryWrite.apply_eventId])
      (by rw [hrow, DeliveryWrite.apply_endpointId]) hfin.deliveries hpar
  have hneeds : Owed { s with db } row.id → row.NeedsRetry := by
    rintro (⟨d, hd, hs⟩ | ⟨d, hpub, hdid⟩)
    · have hself : db.deliveries.get row.id = some row := by
        rw [hfin.deliveries]
        exact Table.get_update_self hd₀
      obtain rfl : d = row := Option.some.inj (hd.symm.trans hself)
      rw [hrow] at hs ⊢
      exact needsRetry_of_owed hw d₀ hs
    · obtain ⟨r, hi⟩ := inserted_of_published hpub
      exact (hfresh r d hi hdid).elim
  have hI₂ : Inv (Pipeline.setHandler { s with db } i (some ⟨w, kind, .attempted row⟩))
      (row.id :: pend) := by
    refine hI₁.setHandler (fun h heq => ?_) ?_
    · obtain rfl := Option.some.inj heq
      exact ⟨⟨m, hm, hid⟩, hu⟩
    · by_cases hneed : row.NeedsRetry
      · refine .inl fun h heq => ?_
        obtain rfl := Option.some.inj heq
        exact hneed
      · refine .inr fun x hx ho => ?_
        obtain ⟨⟨m', hm', rfl⟩, -⟩ := hx
        obtain rfl : m = m' := Option.some.inj (hm.symm.trans hm')
        exact (hneed (hneeds (hid ▸ ho))).elim
  refine hI₂.settle fun ho => .inr ⟨i, ⟨m, hm, hid.symm⟩, hu, fun h heq => ?_⟩
  rw [setHandler_self] at heq
  obtain rfl := Option.some.inj heq
  exact hneeds ho

theorem Inv.commitAttempt (hI : Inv s pend) {i : ℕ} {env : AttemptEnv}
    {send : OutboundRequest → OutboundHttpResult} (h : s.commitAttempt i env send = some t) :
    Inv t pend := by
  unfold Pipeline.commitAttempt at h
  split at h
  next w kind d ev e hh =>
    obtain ⟨⟨m, hm, hid, he, -, hend, hfresh⟩, hu⟩ := hI.handlers i _ hh
    split at h
    next db row hfin =>
      obtain rfl := Option.some.inj h
      have hfin := finishAttempt_ok hfin
      have hrow : row.id = d.id := by
        obtain ⟨write, d₀, -, hd₀, hrow⟩ := hfin.written
        have hd₀id : d₀.id = d.id := Table.key_of_get hd₀
        rw [hrow, DeliveryWrite.apply_id, hd₀id]
      rw [← hrow] at hfin hid hfresh
      exact hI.attempted hm hid hu hfresh hfin
    next err hfin =>
      obtain rfl := Option.some.inj h
      refine hI.afterError hh fun _ herr x hx => ?_
      obtain ⟨⟨m', hm', rfl⟩, -⟩ := hx
      obtain rfl : m = m' := Option.some.inj (hm.symm.trans hm')
      have hgone : s.db.deliveries.get d.id = none := by
        rcases finishAttempt_notFound hfin herr with hnone | hnone
        · exact hnone
        · cases hc : s.db.deliveries.get d.id with
          | none => rfl
          | some c =>
            have hpar := (hI.parents c (Table.mem_of_get hc)).2
            rw [hend c hc, ← he, hnone] at hpar
            cases hpar
      exact not_owed_of_gone (hid ▸ hgone) fun r c hi hcid => hfresh r c hi (hcid.trans hid.symm)
  next => cases h

/-- Members are added to the ZSET and none is removed. -/
theorem Inv.setZset (hI : Inv s pend) {zset : RetryZset}
    (hmem : ∀ x ∈ zset.rows, (parseMember x.member).isSome)
    (hkeep : ∀ id, s.zset.Carries id → zset.Carries id) : Inv { s with zset } pend := by
  refine ⟨hI.parents, hI.issued, hI.inserted, hI.apart, fun i h hh => ?_, hmem,
    fun x ho => (hI.carried x ho).imp_left fun hc => hc.imp_left (hkeep x)⟩
  obtain ⟨⟨m, hm, hok⟩, hu⟩ := hI.handlers i h hh
  exact ⟨⟨m, hm, hok.frame rfl rfl fun _ _ hi => hi⟩, hu⟩

/-- The retry is on the ZSET before the entry becomes unsafe. -/
theorem Inv.scheduleRetry (hI : Inv s pend) {i : ℕ} (h : s.scheduleRetry i = some t) :
    Inv t pend := by
  unfold Pipeline.scheduleRetry at h
  split at h
  next w kind row m hh hm =>
    obtain ⟨⟨m', hm', hid⟩, hu⟩ := hI.handlers i _ hh
    obtain rfl : m = m' := Option.some.inj (hm.symm.trans hm')
    dsimp only at h
    split at h
    next t hstate hnext =>
      obtain rfl := Option.some.inj h
      have hI₁ : Inv { s with zset := s.zset.scheduleRetry row.id t m.correlationId } pend :=
        hI.setZset (RetryZset.forall_scheduleRetry hI.members) fun _ hc => hc.scheduleRetry
      refine hI₁.setHandler (fun h heq => ?_) (.inr fun x hx _ => ?_)
      · obtain rfl := Option.some.inj heq
        exact ⟨⟨m, hm, trivial⟩, hu⟩
      · obtain ⟨⟨m', hm', rfl⟩, -⟩ := hx
        obtain rfl : m = m' := Option.some.inj (hm.symm.trans hm')
        rw [← hid]
        exact RetryZset.carries_scheduleRetry ..
    next hno =>
      obtain rfl := Option.some.inj h
      refine hI.setHandler (fun h heq => ?_) (.inr fun x hx _ => ?_)
      · obtain rfl := Option.some.inj heq
        exact ⟨⟨m, hm, trivial⟩, hu⟩
      · obtain ⟨hstate, hnext⟩ : row.NeedsRetry := hx.2.2 _ hh
        obtain ⟨t, ht⟩ := Option.isSome_iff_exists.mp hnext
        exact (hno t hstate ht).elim
  next => cases h

/-- Only an entry that is no longer safe is acked. -/
theorem Inv.ack (hI : Inv s pend) {i : ℕ} (h : s.ack i = some t) : Inv t pend := by
  unfold Pipeline.ack at h
  split at h
  next w kind hh =>
    obtain rfl := Option.some.inj h
    have hne : ∀ j, s.SafeEntry j i → False := fun _ hx => hx.2.2 _ hh
    refine ⟨hI.parents, hI.issued, hI.inserted, hI.apart, fun j h hj => ?_, hI.members,
      fun x ho => (hI.carried x ho).imp_left fun hc => ?_⟩
    · have hji : j ≠ i := by
        rintro rfl
        rw [setHandler_self] at hj
        cases hj
      rw [setHandler_ne _ _ hji] at hj
      obtain ⟨⟨m, hm, hok⟩, hu⟩ := hI.handlers j h hj
      exact ⟨⟨m, hm, hok.frame rfl rfl fun _ _ hi => hi⟩,
        (ConsumerGroup.unacked_xack_ne hji).mpr hu⟩
    · refine hc.imp_right fun ⟨j, hm, hu, hs⟩ => ?_
      have hji : j ≠ i := by
        rintro rfl
        exact hs _ hh
      refine ⟨j, hm, (ConsumerGroup.unacked_xack_ne hji).mpr hu, fun h hj => hs h ?_⟩
      rwa [setHandler_ne _ _ hji] at hj
  next => cases h

theorem Inv.enqueueAll {due : List PoppedRetry}
    (hI : Inv s (due.map (·.retry.deliveryId) ++ pend)) :
    Inv (due.foldl (fun s p => s.enqueue p.retry.deliveryId p.retry.correlationId) s) pend := by
  induction due generalizing s with
  | nil => exact hI
  | cons p due ih => exact ih (Inv.enqueue hI _)

/-- Every member parses, so what is popped is enqueued. -/
theorem Inv.tick (hI : Inv s pend) (now : ℤ) (limit : ℕ) : Inv (s.tick le now limit) pend := by
  obtain ⟨due, hdue⟩ : ∃ due, parseMembers (SortedSet.popDue le s.zset now limit).1 = some due :=
    Option.isSome_iff_exists.mp (parseMembers_isSome.mpr fun x hx =>
      hI.members x (SortedSet.rangeByScore_subset hx).1)
  have htick : s.tick le now limit =
      due.foldl (fun s p => s.enqueue p.retry.deliveryId p.retry.correlationId)
        { s with zset := (SortedSet.popDue le s.zset now limit).2 } := by
    simp only [Pipeline.tick, RetryZset.popDueRetries, hdue]
  rw [htick]
  refine Inv.enqueueAll ⟨hI.parents, hI.issued, hI.inserted, hI.apart, fun i h hh => ?_,
    fun x hx => hI.members x (List.mem_filter.mp hx).1, fun x ho => ?_⟩
  · obtain ⟨⟨m, hm, hok⟩, hu⟩ := hI.handlers i h hh
    exact ⟨⟨m, hm, hok.frame rfl rfl fun _ _ hi => hi⟩, hu⟩
  · rcases hI.carried x ho with (⟨k, r, hr, d, hparse, hid⟩ | hc) | hp
    · have hk : r.member = k := Table.key_of_get hr
      rcases SortedSet.popDue_cases hr with hr | hr
      · exact .inl (.inl ⟨k, r, hr, d, hparse, hid⟩)
      · rw [← parseMembers_scored hdue] at hr
        obtain ⟨p, hp, rfl⟩ := List.mem_map.mp hr
        have hretry : p.retry = d := Option.some.inj (p.parsed.symm.trans (hk ▸ hparse))
        refine .inr (List.mem_append_left _ (List.mem_map.mpr ⟨p, hp, ?_⟩))
        rw [hretry, hid]
    · exact .inl (.inr hc)
    · exact .inr (List.mem_append_right _ hp)

theorem Inv.replay (hI : Inv s pend) {id tenantId : UUID} (h : s.replay id tenantId = some t) :
    Inv t pend := by
  obtain ⟨d, ev, row, hd, -, hrow, hid, rfl⟩ := replay_some h
  have hI₁ : Inv { s with db := { s.db with deliveries := s.db.deliveries.update row } }
      (row.id :: pend) :=
    hI.rewrite (hid.symm ▸ hd) (by rw [hrow, DeliveryWrite.apply_eventId])
      (by rw [hrow, DeliveryWrite.apply_endpointId]) rfl fun _ hp => hp
  exact hI₁.enqueue _

theorem Inv.step {a : PipelineAction} (hI : Inv s pend) (h : s.step le a = some t) :
    Inv t pend := by
  cases a with
  | ingest => exact hI.ingest h
  | putEndpoint e => exact Option.some.inj h ▸ hI.putEndpoint e
  | deleteEndpoint => exact hI.deleteEndpoint h
  | claimDue => exact hI.claimDue h
  | openEntry => exact hI.openEntry h
  | createDelivery => exact hI.createDelivery h
  | publish => exact hI.publish h
  | closeEntry => exact hI.closeEntry h
  | commitRelay => exact hI.commitRelay h
  | rollback => exact hI.rollback h
  | read worker count => exact Option.some.inj h ▸ hI.read worker count
  | autoclaim worker idle count => exact Option.some.inj h ▸ hI.autoclaim worker idle count
  | beginAttempt => exact hI.beginAttempt h
  | commitAttempt => exact hI.commitAttempt h
  | scheduleRetry => exact hI.scheduleRetry h
  | ack => exact hI.ack h
  | fail i => exact Option.some.inj h ▸ hI.fail i
  | crash worker => exact Option.some.inj h ▸ hI.crash worker
  | tick now limit => exact Option.some.inj h ▸ hI.tick now limit
  | replay => exact hI.replay h

theorem carries_of_safeEntry {x : UUID} {i : ℕ} (h : s.SafeEntry x i) :
    DeliveryStream.Carries s.stream x := by
  obtain ⟨⟨m, hm, hid⟩, hu, -⟩ := h
  exact ⟨i, m, hm, hid, hu⟩

/-- In every reachable state, a delivery whose committed state is pending or retrying is named by
a member of the retry ZSET or by an unacked stream entry. -/
theorem owed_delivery_carried (le : RetryMember → RetryMember → Bool) (t : Pipeline)
    (ht : Transition.Reachable (step le) Init t) (id : UUID) (d : Delivery)
    (hd : t.db.deliveries.get id = some d) (ho : d.state.Owed) :
    t.zset.Carries id ∨ DeliveryStream.Carries t.stream id := by
  have hI : Inv t [] := ht.invariant (fun _ => inv_init) fun _ _ _ hI h => hI.step h
  rcases hI.carried id (.inl ⟨d, hd, ho⟩) with (hz | ⟨i, hi⟩) | hp
  · exact .inl hz
  · exact .inr (carries_of_safeEntry hi)
  · cases hp

/-- An ingested event that waits for its fan-out. -/
def samplePipeline : Pipeline where
  db := { Db.single sampleEvent sampleEndpoint sampleDelivery with
          deliveries := .empty
          outbox := .singleton { id := 5, eventId := 1, createdAt := 0 } }
  stream := .empty
  zset := .empty
  relays := .empty
  handlers _ := none
  issued := []

/-- The fan-out, and an attempt that is answered with a 500. -/
def sampleRun : List PipelineAction :=
  [.claimDue 0 0 50, .openEntry 0, .createDelivery 0 3 0, .publish 0, .closeEntry 0,
    .commitRelay 0, .read 1 10, .beginAttempt 0,
    .commitAttempt 0 sampleEnv fun _ => { latencyMs := 5, statusCode := some 500 },
    .scheduleRetry 0, .ack 0]

theorem owed_delivery_carried_sample :
    ∃ t d, Transition.run (step fun _ _ => true) samplePipeline sampleRun = some t ∧
      t.db.deliveries.get 3 = some d ∧ d.state = .retrying ∧
      (t.zset.Carries 3 ∨ DeliveryStream.Carries t.stream 3) := by
  obtain ⟨t, ht⟩ : ∃ t, Transition.run (step fun _ _ => true) samplePipeline sampleRun = some t :=
    ⟨_, rfl⟩
  have hget : (Transition.run (step fun _ _ => true) samplePipeline sampleRun).map
      (fun t => (t.db.deliveries.get 3).map (·.state)) = some (some .retrying) := rfl
  rw [ht] at hget
  obtain ⟨d, hd, hs⟩ := Option.map_eq_some_iff.mp (Option.some.inj hget)
  have hreach : Transition.Reachable (step fun _ _ => true) Init t :=
    ⟨samplePipeline, sampleRun, ⟨rfl, rfl, rfl, rfl, rfl⟩, ht⟩
  exact ⟨t, d, ht, hd, hs, owed_delivery_carried (fun _ _ => true) t hreach 3 d hd (.inr hs)⟩

end Pipeline

end RelayWebhooks
