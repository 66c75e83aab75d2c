import RelayWebhooks.Pipeline.Carrier
import RelayWebhooks.Pipeline.History

/-! The correlation ids on the stream and in the retry ZSET: every step passes on those it has
read, and only a relay and a replay write one of their own. -/
namespace RelayWebhooks

namespace Pipeline

variable {le : RetryMember → RetryMember → Bool} {s t : Pipeline} {a : PipelineAction}
  {id : UUID} {c : Option PyText}

/-- A stream entry or a retry member names the delivery under this correlation id. -/
def Tagged (s : Pipeline) (id : UUID) (c : Option PyText) : Prop :=
  ⟨id, c⟩ ∈ s.stream.entries ∨ ∃ x ∈ s.zset.rows, parseMember x.member = some ⟨id, c⟩

/-- What a step does to the stream, the ZSET and the keys, when all new tags satisfy `P`. -/
structure Tags (P : UUID → Option PyText → Prop) (s t : Pipeline) : Prop where
  issued : ∀ x ∈ s.issued, x ∈ t.issued
  entries : ∀ m ∈ s.stream.entries, m ∈ t.stream.entries
  tagged : ∀ id c, t.Tagged id c → s.Tagged id c ∨ P id c

variable {P : UUID → Option PyText → Prop}

theorem Tags.of_eq (hissued : t.issued = s.issued)
    (hentries : t.stream.entries = s.stream.entries) (hzset : t.zset = s.zset) : Tags P s t where
  issued x hx := by rwa [hissued]
  entries m hm := by rwa [hentries]
  tagged id c h := by
    rw [Tagged, hentries, hzset] at h
    exact .inl h

theorem Tags.enqueue (h : Tags P s t) (hP : P id c) : Tags P s (t.enqueue id c) where
  issued := h.issued
  entries m hm := mem_entries_enqueue (h.entries m hm)
  tagged id' c' ht := by
    rcases ht with ht | ht
    · rcases List.mem_append.mp ht with ht | ht
      · exact h.tagged id' c' (.inl ht)
      · cases List.mem_singleton.mp ht
        exact .inr hP
    · exact h.tagged id' c' (.inr ht)

theorem tags_setHandler (s : Pipeline) (i : ℕ) (h : Option Handler) :
    Tags P s (s.setHandler i h) := .of_eq rfl rfl rfl

/-- The producers that write a tag of their own: a relay that publishes, and a replay. -/
inductive Produces (s : Pipeline) (id : UUID) (c : Option PyText) : PipelineAction → Prop
  | publish {r : ℕ} {tx : RelayTx} {o : OutboxEntry} {ev : Event} {targets : List Endpoint}
    {d : Delivery} (htx : tx ∈ s.relays.rows) (hpoint : tx.point = .publishing o ev targets d)
    (hid : d.id = id) (hc : ev.correlationId = c) : Produces s id c (.publish r)
  | replay {tenantId : UUID} (hc : c = none) : Produces s id c (.replay id tenantId)

/-- The retry is scheduled under the id of the entry in hand. -/
theorem tags_scheduleRetry (hI : Inv s []) {i : ℕ} (h : s.scheduleRetry i = some t) :
    Tags P s t := by
  unfold Pipeline.scheduleRetry at h
  split at h
  next w kind row m hh hm =>
    obtain ⟨⟨m', hm', hid⟩, -⟩ := hI.handlers i _ hh
    obtain rfl : m = m' := Option.some.inj (hm.symm.trans hm')
    have hid : row.id = m.deliveryId := hid
    dsimp only at h
    split at h
    next =>
      obtain rfl := Option.some.inj h
      refine ⟨fun _ hx => hx, fun _ hm => hm, fun id c ht => ?_⟩
      rcases ht with ht | ⟨x, hx, hparse⟩
      · exact .inl (.inl ht)
      · rcases SortedSet.mem_zadd hx with rfl | hx
        · cases hparse
          rw [hid]
          exact .inl (.inl (List.mem_of_getElem? hm))
        · exact .inl (.inr ⟨x, hx, hparse⟩)
    next =>
      obtain rfl := Option.some.inj h
      exact tags_setHandler ..
  next => cases h

theorem Tags.enqueueAll {due : List PoppedRetry} (h : Tags P s t)
    (hP : ∀ p ∈ due, P p.retry.deliveryId p.retry.correlationId) :
    Tags P s (due.foldl
      (fun s p => s.enqueue p.retry.deliveryId p.retry.correlationId) t) := by
  induction due generalizing t with
  | nil => exact h
  | cons p due ih =>
    rw [List.forall_mem_cons] at hP
    exact ih (h.enqueue hP.1) hP.2

/-- Members leave the ZSET. -/
theorem tags_setZset {zset : RetryZset} (hzset : ∀ x ∈ zset.rows, x ∈ s.zset.rows) :
    Tags P s { s with zset } where
  issued _ hx := hx
  entries _ hm := hm
  tagged id c ht := by
    rcases ht with ht | ⟨x, hx, hparse⟩
    · exact .inl (.inl ht)
    · exact .inl (.inr ⟨x, hzset x hx, hparse⟩)

/-- The scheduler fires a retry under the id of its member. -/
theorem tags_tick (s : Pipeline) (now : ℤ) (limit : ℕ) : Tags P s (s.tick le now limit) := by
  have hpopped : ∀ x ∈ (SortedSet.popDue le s.zset now limit).2.rows, x ∈ s.zset.rows :=
    fun x hx => List.mem_of_mem_filter hx
  unfold Pipeline.tick
  split
  next due zset hpop =>
    simp only [RetryZset.popDueRetries, Prod.mk.injEq] at hpop
    obtain ⟨hdue, rfl⟩ := hpop
    have hmember : ∀ p ∈ due, s.Tagged p.retry.deliveryId p.retry.correlationId := by
      intro p hp
      have hscored := List.mem_map_of_mem (f := PoppedRetry.scored) hp
      rw [parseMembers_scored hdue] at hscored
      exact .inr ⟨p.scored, (SortedSet.rangeByScore_subset hscored).1, p.parsed⟩
    have hall := (tags_setZset hpopped).enqueueAll hmember
    refine ⟨hall.issued, hall.entries, fun id c ht => .inl ?_⟩
    exact (hall.tagged id c ht).elim (fun h => h) fun h => h
  next zset hpop =>
    simp only [RetryZset.popDueRetries, Prod.mk.injEq] at hpop
    obtain ⟨-, rfl⟩ := hpop
    exact tags_setZset hpopped

theorem tags_publish {r : ℕ} (h : s.publish r = some t) :
    Tags (fun id c => s.Produces id c (.publish r)) s t := by
  unfold Pipeline.publish at h
  split at h
  next hr =>
    obtain rfl := Option.some.inj h
    refine Tags.enqueue (.of_eq rfl rfl rfl) ?_
    exact Produces.publish (Table.mem_of_get hr) rfl rfl rfl
  next => cases h

theorem tags_replay {tenantId : UUID} (h : s.replay id tenantId = some t) :
    Tags (fun id' c => s.Produces id' c (.replay id tenantId)) s t := by
  obtain ⟨d, ev, row, -, -, -, hid, rfl⟩ := replay_some h
  refine Tags.enqueue (.of_eq rfl rfl rfl) ?_
  rw [hid]
  exact Produces.replay rfl

/-- A new key, and no message yet. -/
theorem tags_createDelivery {r : ℕ} {createdAt : ℤ} (h : s.createDelivery r id createdAt = some t) :
    Tags P s t := by
  unfold Pipeline.createDelivery at h
  split at h
  next =>
    split at h
    next => cases h
    next =>
      split at h
      next =>
        obtain rfl := Option.some.inj h
        exact ⟨fun _ hx => List.mem_cons_of_mem _ hx, fun _ hm => hm, fun _ _ ht => .inl ht⟩
      next => exact Option.some.inj h ▸ .of_eq rfl rfl rfl
  next => cases h

/-- A step writes no tag but its own as a producer and those it has read. -/
theorem tags_step (hI : Inv s []) (h : s.step le a = some t) :
    Tags (fun id c => s.Produces id c a) s t := by
  cases a with
  | ingest event outboxId createdAt =>
    simp only [step, Pipeline.ingest] at h
    split at h
    next =>
      obtain rfl := Option.some.inj h
      exact .of_eq rfl rfl rfl
    next => cases h
  | putEndpoint e =>
    obtain rfl := Option.some.inj h
    unfold Pipeline.putEndpoint
    split
    next => exact .of_eq rfl rfl rfl
    next => exact .of_eq rfl rfl rfl
  | deleteEndpoint id =>
    simp only [step, Pipeline.deleteEndpoint] at h
    split at h
    next => cases h
    next =>
      obtain rfl := Option.some.inj h
      exact .of_eq rfl rfl rfl
  | claimDue r now limit =>
    obtain ⟨relays, -, rfl⟩ := Option.map_eq_some_iff.mp h
    exact .of_eq rfl rfl rfl
  | openEntry r =>
    simp only [step, Pipeline.openEntry] at h
    split at h
    next =>
      split at h
      next => exact Option.some.inj h ▸ .of_eq rfl rfl rfl
      next => exact Option.some.inj h ▸ .of_eq rfl rfl rfl
    next => cases h
  | createDelivery r id createdAt => exact tags_createDelivery h
  | publish r => exact tags_publish h
  | closeEntry r =>
    simp only [step, Pipeline.closeEntry] at h
    split at h
    next => exact Option.some.inj h ▸ .of_eq rfl rfl rfl
    next => cases h
  | commitRelay r =>
    simp only [step, Pipeline.commitRelay] at h
    split at h
    next =>
      obtain ⟨deliveries, -, rfl⟩ := Option.map_eq_some_iff.mp h
      exact .of_eq rfl rfl rfl
    next => cases h
  | rollback r =>
    obtain ⟨tx, -, rfl⟩ := Option.map_eq_some_iff.mp h
    exact .of_eq rfl rfl rfl
  | read worker count => exact Option.some.inj h ▸ .of_eq rfl rfl rfl
  | autoclaim worker idle count => exact Option.some.inj h ▸ .of_eq rfl rfl rfl
  | beginAttempt i =>
    simp only [step, Pipeline.beginAttempt] at h
    split at h
    next =>
      split at h
      next => cases h
      next =>
        split at h
        next => exact Option.some.inj h ▸ tags_setHandler ..
        next => exact Option.some.inj h ▸ tags_setHandler ..
    next => cases h
  | commitAttempt i env send =>
    simp only [step, Pipeline.commitAttempt] at h
    split at h
    next =>
      split at h
      next => exact Option.some.inj h ▸ .of_eq rfl rfl rfl
      next => exact Option.some.inj h ▸ tags_setHandler ..
    next => cases h
  | scheduleRetry i => exact tags_scheduleRetry hI h
  | ack i =>
    simp only [step, Pipeline.ack] at h
    split at h
    next => exact Option.some.inj h ▸ .of_eq rfl rfl rfl
    next => cases h
  | fail i => exact Option.some.inj h ▸ tags_setHandler ..
  | crash worker => exact Option.some.inj h ▸ .of_eq rfl rfl rfl
  | tick now limit => exact Option.some.inj h ▸ tags_tick s now limit
  | replay id tenantId => exact tags_replay h

end Pipeline
end RelayWebhooks
