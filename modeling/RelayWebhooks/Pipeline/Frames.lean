import RelayWebhooks.Pipeline.Correlation
import RelayWebhooks.Services.DeliveryLedger

/-! What each action of the pipeline leaves alone: the batches of the scheduler, the actions on the
store and the open transactions, and the worker that has an entry in hand. -/
namespace RelayWebhooks

namespace Pipeline
open DeliveryAttemptService

variable {le : RetryMember → RetryMember → Bool} {s t : Pipeline} {a : PipelineAction}
  {id : UUID}

/-- The frame of a batch of messages. -/
theorem enqueueAll_frame (due : List PoppedRetry) (s : Pipeline) :
    let u := due.foldl (fun s p => s.enqueue p.retry.deliveryId p.retry.correlationId) s
    u.handlers = s.handlers ∧ u.db = s.db ∧ u.relays = s.relays ∧ u.zset = s.zset := by
  induction due generalizing s with
  | nil => exact ⟨rfl, rfl, rfl, rfl⟩
  | cons p due ih => exact ih (s.enqueue p.retry.deliveryId p.retry.correlationId)

theorem tick_frame (le : RetryMember → RetryMember → Bool) (s : Pipeline) (now : ℤ) (limit : ℕ) :
    (s.tick le now limit).handlers = s.handlers ∧ (s.tick le now limit).db = s.db ∧
      (s.tick le now limit).relays = s.relays ∧
      (s.tick le now limit).zset = (SortedSet.popDue le s.zset now limit).2 := by
  unfold Pipeline.tick
  split
  next due zset hpop =>
    obtain rfl : (SortedSet.popDue le s.zset now limit).2 = zset := congrArg Prod.snd hpop
    obtain ⟨hh, hdb, hrel, hz⟩ := enqueueAll_frame due
      { s with zset := (SortedSet.popDue le s.zset now limit).2 }
    exact ⟨hh, hdb, hrel, hz⟩
  next zset hpop =>
    obtain rfl : (SortedSet.popDue le s.zset now limit).2 = zset := congrArg Prod.snd hpop
    exact ⟨rfl, rfl, rfl, rfl⟩

/-- An open transaction has inserted the row and not yet sent its message. -/
def Publishing (s : Pipeline) (d : Delivery) : Prop :=
  ∃ tx ∈ s.relays.rows, ∃ o ev targets, tx.point = .publishing o ev targets d

theorem inserted_of_publishing {d : Delivery} (h : s.Publishing d) : ∃ r, s.Inserted r d := by
  obtain ⟨tx, htx, o, ev, targets, hpoint⟩ := h
  exact ⟨tx.id, tx, htx, rfl, by simp [RelayTx.inserted, hpoint]⟩

theorem publishing_setTx {tx : RelayTx} {d : Delivery} (h : (s.setTx tx).Publishing d) :
    (∃ o ev targets, tx.point = .publishing o ev targets d) ∨ s.Publishing d := by
  obtain ⟨tx', htx, hpoint⟩ := h
  rcases Table.mem_update htx with rfl | ⟨htx, -⟩
  · exact .inl hpoint
  · exact .inr ⟨tx', htx, hpoint⟩

/-- The store and the open transactions move on: the rows that appear were inserted by a relay,
and those a relay inserts are new ones under a fresh key. -/
structure OffStream (s t : Pipeline) : Prop where
  stream : t.stream = s.stream
  zset : t.zset = s.zset
  handlers : t.handlers = s.handlers
  rows : ∀ id d, t.db.deliveries.get id = some d →
    s.db.deliveries.get id = some d ∨ ∃ r, s.Inserted r d
  log : ∀ d ∈ t.db.deliveries.rows, t.db.attemptsOf d.id = s.db.attemptsOf d.id
  publishing : ∀ d, t.Publishing d → s.Publishing d ∨ d.id ∉ s.issued
  inserted : ∀ r d, t.Inserted r d → (∃ r, s.Inserted r d) ∨
    ∃ id eventId endpointId createdAt, id ∉ s.issued ∧
      d = { id, eventId, endpointId, state := .pending, attemptCount := 0, createdAt }

theorem OffStream.setDb {db : Db} (hrows : ∀ d ∈ db.deliveries.rows, d ∈ s.db.deliveries.rows)
    (hlog : ∀ d ∈ db.deliveries.rows, db.attemptsOf d.id = s.db.attemptsOf d.id) :
    OffStream s { s with db } where
  stream := rfl
  zset := rfl
  handlers := rfl
  rows _ d h := .inl (Table.get_eq_some.mpr ((Table.get_eq_some.mp h).imp_left (hrows d)))
  log := hlog
  publishing _ h := .inl h
  inserted r _ h := .inl ⟨r, h⟩

theorem OffStream.setRelays {relays : Table RelayTx}
    (h : ∀ tx ∈ relays.rows, tx ∈ s.relays.rows ∨ tx.point = .between ∧ tx.created = []) :
    OffStream s { s with relays } where
  stream := rfl
  zset := rfl
  handlers := rfl
  rows _ _ h := .inl h
  log _ _ := rfl
  publishing d hd := by
    obtain ⟨tx, htx, o, ev, targets, hpoint⟩ := hd
    rcases h tx htx with htx | ⟨hb, -⟩
    · exact .inl ⟨tx, htx, o, ev, targets, hpoint⟩
    · rw [hb] at hpoint
      cases hpoint
  inserted r d hd := by
    obtain ⟨tx, htx, rfl, hd⟩ := hd
    rcases h tx htx with htx | ⟨hb, hcr⟩
    · exact .inl ⟨tx.id, tx, htx, rfl, hd⟩
    · rw [RelayTx.inserted, hb, hcr] at hd
      cases hd

/-- A transaction that is not about to publish moves on with the rows it has inserted. -/
theorem OffStream.setTx {r : ℕ} {tx₀ tx : RelayTx} (h : s.relays.get r = some tx₀)
    (hpoint : ∀ o ev targets d, tx.point ≠ .publishing o ev targets d)
    (hins : ∀ d ∈ tx.inserted, d ∈ tx₀.inserted) : OffStream s (s.setTx tx) where
  stream := rfl
  zset := rfl
  handlers := rfl
  rows _ _ h := .inl h
  log _ _ := rfl
  publishing d hd := by
    rcases publishing_setTx hd with ⟨o, ev, targets, hp⟩ | hd
    · exact (hpoint o ev targets d hp).elim
    · exact .inl hd
  inserted r' d hd := by
    rcases inserted_setTx hd with ⟨-, hd⟩ | hd
    · exact .inl ⟨tx₀.id, tx₀, Table.mem_of_get h, rfl, hins d hd⟩
    · exact .inl ⟨r', hd⟩

/-- The row is inserted before its message is sent, so sending it leaves the transaction the same
rows. -/
theorem offStream_published {r j : ℕ} {claimed queue : List OutboxEntry} {o : OutboxEntry}
    {ev : Event} {targets : List Endpoint} {d : Delivery} {created : List Delivery}
    (h : s.relays.get r = some ⟨j, claimed, queue, .publishing o ev targets d, created⟩) :
    OffStream s (s.setTx ⟨j, claimed, queue, .fanOut o ev targets, created ++ [d]⟩) :=
  .setTx h (fun _ _ _ _ heq => by cases heq) fun _ hd => hd

theorem offStream_dropTx (s : Pipeline) (r : ℕ) : OffStream s (s.dropTx r) :=
  .setRelays fun _ htx => .inl (List.mem_filter.mp htx).1

theorem offStream_createDelivery {r : ℕ} {createdAt : ℤ}
    (h : s.createDelivery r id createdAt = some t) : OffStream s t := by
  unfold Pipeline.createDelivery at h
  split at h
  next j claimed queue o ev e targets created hr =>
    split at h
    next => cases h
    next hfresh =>
      split at h
      next db d hd =>
        obtain rfl := Option.some.inj h
        obtain ⟨rfl, -⟩ := Db.createDelivery_ok hd
        refine ⟨rfl, rfl, rfl, fun _ _ h => .inl h, fun _ _ => rfl, fun d hd => ?_,
          fun r' d hd => ?_⟩
        · rcases publishing_setTx hd with ⟨o, ev, targets, hp⟩ | hd
          · cases hp
            exact .inr hfresh
          · exact .inl hd
        · rcases inserted_setTx hd with ⟨-, hd⟩ | hd
          · rcases List.mem_append.mp hd with hd | hd
            · exact .inl ⟨j, _, Table.mem_of_get hr, rfl, hd⟩
            · exact .inr ⟨id, ev.id, e.id, createdAt, hfresh, List.mem_singleton.mp hd⟩
          · exact .inl ⟨r', hd⟩
      next => exact Option.some.inj h ▸ offStream_dropTx ..
  next => cases h

theorem offStream_commitRelay {r : ℕ} (h : s.commitRelay r = some t) : OffStream s t := by
  unfold Pipeline.commitRelay at h
  split at h
  next j claimed created hr =>
    obtain ⟨deliveries, hall, rfl⟩ := Option.map_eq_some_iff.mp h
    have hdrop := offStream_dropTx s r
    refine ⟨rfl, rfl, rfl, fun id d hd => ?_, fun _ _ => rfl, hdrop.publishing, hdrop.inserted⟩
    obtain ⟨hmem, hid⟩ := Table.get_eq_some.mp hd
    rw [Table.rows_insertAll hall] at hmem
    rcases List.mem_append.mp hmem with hmem | hmem
    · exact .inl (Table.get_eq_some.mpr ⟨hmem, hid⟩)
    · exact .inr ⟨j, _, Table.mem_of_get hr, rfl, hmem⟩
  next => cases h

/-- The cascade takes the attempt rows of the deliveries that go with the endpoint. -/
theorem attemptsOf_deleteEndpoint {db : Db} {d : Delivery}
    (h : d ∈ (db.deleteEndpoint id).deliveries.rows) :
    (db.deleteEndpoint id).attemptsOf d.id = db.attemptsOf d.id := by
  obtain ⟨hd, hkept⟩ := List.mem_filter.mp h
  refine (Table.select_deleteWhere ..).trans (List.filter_eq_self.mpr fun a ha => ?_)
  have hid : a.deliveryId = d.id := by simpa using (List.mem_filter.mp ha).2
  have hget : db.deliveries.get d.id = some d := Table.get_of_mem hd
  rw [hid, hget]
  simpa using hkept

/-- The actions on the store and on the open transactions. -/
def offStream : PipelineAction → Bool
  | .ingest .. | .putEndpoint .. | .deleteEndpoint .. | .claimDue .. | .openEntry ..
  | .createDelivery .. | .closeEntry .. | .commitRelay .. | .rollback .. => true
  | _ => false

theorem offStream_step (h : s.step le a = some t) (ha : offStream a = true) : OffStream s t := by
  cases a with
  | ingest event outboxId createdAt =>
    simp only [step, Pipeline.ingest] at h
    split at h
    next events db o hev ho =>
      obtain ⟨outbox, -, rfl, -⟩ := Db.createOutboxEntry_ok ho
      exact Option.some.inj h ▸ .setDb (fun _ hd => hd) fun _ _ => rfl
    next => cases h
  | putEndpoint e =>
    obtain rfl := Option.some.inj h
    unfold Pipeline.putEndpoint
    split
    next => exact .setDb (fun _ hd => hd) fun _ _ => rfl
    next => exact .setDb (fun _ hd => hd) fun _ _ => rfl
  | deleteEndpoint id =>
    simp only [step, Pipeline.deleteEndpoint] at h
    split at h
    next => cases h
    next =>
      obtain rfl := Option.some.inj h
      refine .setDb (fun d hd => (List.mem_filter.mp hd).1) fun d hd => ?_
      exact attemptsOf_deleteEndpoint hd
  | claimDue r now limit =>
    obtain ⟨relays, hins, rfl⟩ := Option.map_eq_some_iff.mp h
    refine .setRelays fun tx htx => ?_
    rw [(Table.insert_eq_some.mp hins).2, List.mem_append, List.mem_singleton] at htx
    rcases htx with htx | rfl
    · exact .inl htx
    · exact .inr ⟨rfl, rfl⟩
  | openEntry r =>
    simp only [step, Pipeline.openEntry] at h
    split at h
    next hr =>
      split at h
      next =>
        obtain rfl := Option.some.inj h
        exact .setTx hr (fun _ _ _ _ heq => by cases heq) fun _ hd => hd
      next =>
        obtain rfl := Option.some.inj h
        exact .setTx hr (fun _ _ _ _ heq => by cases heq) fun _ hd => hd
    next => cases h
  | createDelivery r id createdAt => exact offStream_createDelivery h
  | closeEntry r =>
    simp only [step, Pipeline.closeEntry] at h
    split at h
    next hr =>
      obtain rfl := Option.some.inj h
      exact .setTx hr (fun _ _ _ _ heq => by cases heq) fun _ hd => hd
    next => cases h
  | commitRelay r => exact offStream_commitRelay h
  | rollback r =>
    obtain ⟨tx, -, rfl⟩ := Option.map_eq_some_iff.mp h
    exact offStream_dropTx s r
  | _ => cases ha

/-- The action takes the worker of the entry one phase further. -/
inductive Advances (i : ℕ) (k₀ k : Handler) : PipelineAction → Prop
  | begin : Advances i k₀ k (.beginAttempt i)
  | commit (env : AttemptEnv) (send : OutboundRequest → OutboundHttpResult) :
      Advances i k₀ k (.commitAttempt i env send)
  | schedule {row : Delivery} (h₀ : k₀.phase = .attempted row) (h : k.phase = .acking) :
      Advances i k₀ k (.scheduleRetry i)

/-- How a worker comes to have the entry in hand after a step. -/
inductive Holds (s : Pipeline) (i : ℕ) (k : Handler) : PipelineAction → Prop
  | kept {a : PipelineAction} (h : s.handlers i = some k) : Holds s i k a
  | moved {a : PipelineAction} {k₀ : Handler} (h : s.handlers i = some k₀)
      (hkind : k.kind = k₀.kind) (ha : Advances i k₀ k a) : Holds s i k a
  | read {w n : ℕ} (hi : i ∈ s.stream.unread n) (hk : k = ⟨w, .dispatcher, .claimed⟩) :
      Holds s i k (.read w n)
  | claimed {w n : ℕ} {idle : List ℕ}
      (hi : i ∈ s.stream.stalePending (fun i => i ∈ idle && (s.handlers i).isNone) n)
      (hk : k = ⟨w, .reaper, .claimed⟩) : Holds s i k (.autoclaim w idle n)

/-- One handler changes; whoever has another entry in hand keeps it. -/
theorem holds_setHandler {i j : ℕ} {k₀ k : Handler} {h' : Option Handler}
    (hh : s.handlers j = some k₀)
    (hself : ∀ k, h' = some k → k.kind = k₀.kind ∧ Advances j k₀ k a)
    (hi : (s.setHandler j h').handlers i = some k) : Holds s i k a := by
  by_cases hj : i = j
  · subst hj
    rw [setHandler_self] at hi
    obtain ⟨hkind, ha⟩ := hself k hi
    exact .moved hh hkind ha
  · rw [setHandler_ne _ _ hj] at hi
    exact .kept hi

theorem afterError_kind {h k : Handler} {err : Raised} (heq : afterError h err = some k) :
    k.kind = h.kind := by
  unfold afterError at heq
  split at heq
  next =>
    obtain rfl := Option.some.inj heq
    rfl
  next => cases heq

theorem holds_step (h : s.step le a = some t) {i : ℕ} {k : Handler}
    (hi : t.handlers i = some k) : Holds s i k a := by
  by_cases hoff : offStream a = true
  · rw [(offStream_step h hoff).handlers] at hi
    exact .kept hi
  cases a with
  | publish r =>
    simp only [step, Pipeline.publish] at h
    split at h
    next =>
      obtain rfl := Option.some.inj h
      exact .kept hi
    next => cases h
  | read w n =>
    obtain rfl := Option.some.inj h
    dsimp only [Pipeline.read] at hi
    split at hi
    next hu => exact .read hu (Option.some.inj hi).symm
    next => exact .kept hi
  | autoclaim w idle n =>
    obtain rfl := Option.some.inj h
    dsimp only [Pipeline.autoclaim] at hi
    split at hi
    next hu => exact .claimed hu (Option.some.inj hi).symm
    next => exact .kept hi
  | beginAttempt j =>
    simp only [step, Pipeline.beginAttempt] at h
    split at h
    next w kind m hh hm =>
      split at h
      next => cases h
      next =>
        split at h
        next =>
          obtain rfl := Option.some.inj h
          refine holds_setHandler hh (fun k hk => ?_) hi
          obtain rfl := Option.some.inj hk
          exact ⟨rfl, .begin⟩
        next =>
          obtain rfl := Option.some.inj h
          exact holds_setHandler hh (fun k hk => ⟨afterError_kind hk, .begin⟩) hi
    next => cases h
  | commitAttempt j env send =>
    simp only [step, Pipeline.commitAttempt] at h
    split at h
    next w kind d ev e hh =>
      split at h
      next =>
        obtain rfl := Option.some.inj h
        refine holds_setHandler hh (fun k hk => ?_) hi
        obtain rfl := Option.some.inj hk
        exact ⟨rfl, .commit env send⟩
      next =>
        obtain rfl := Option.some.inj h
        exact holds_setHandler hh (fun k hk => ⟨afterError_kind hk, .commit env send⟩) hi
    next => cases h
  | scheduleRetry j =>
    simp only [step, Pipeline.scheduleRetry] at h
    split at h
    next w kind row m hh hm =>
      have hself : ∀ k, some ⟨w, kind, .acking⟩ = some k →
          k.kind = kind ∧ Advances j ⟨w, kind, .attempted row⟩ k (.scheduleRetry j) := by
        intro k hk
        obtain rfl := Option.some.inj hk
        exact ⟨rfl, .schedule rfl rfl⟩
      split at h
      next =>
        obtain rfl := Option.some.inj h
        exact holds_setHandler hh hself hi
      next =>
        obtain rfl := Option.some.inj h
        exact holds_setHandler hh hself hi
    next => cases h
  | ack j =>
    simp only [step, Pipeline.ack] at h
    split at h
    next w kind hh =>
      obtain rfl := Option.some.inj h
      exact holds_setHandler hh (fun k hk => by cases hk) hi
    next => cases h
  | fail j =>
    obtain rfl := Option.some.inj h
    by_cases hj : i = j
    · subst hj
      rw [Pipeline.fail, setHandler_self] at hi
      cases hi
    · exact .kept ((setHandler_ne s none hj).symm.trans hi)
  | crash worker =>
    obtain rfl := Option.some.inj h
    exact .kept (Option.filter_eq_some_iff.mp hi).1
  | tick now limit =>
    obtain rfl := Option.some.inj h
    rw [(tick_frame le s now limit).1] at hi
    exact .kept hi
  | replay id tenantId =>
    obtain ⟨d, ev, row, -, -, -, -, rfl⟩ := replay_some h
    exact .kept hi
  | _ => exact absurd rfl hoff

/-- Everything on the stream and on the ZSET names a delivery whose key was generated. -/
def Named (s : Pipeline) : Prop := ∀ id corr, s.Tagged id corr → id ∈ s.issued

theorem named_init (h : Init s) : Named s := by
  obtain ⟨-, hstream, hz, -⟩ := h
  rintro id corr (hm | ⟨x, hx, -⟩)
  · rw [hstream] at hm
    cases hm
  · rw [hz] at hx
    cases hx

theorem named_step (hI : Inv s []) (hN : Named s) (h : s.step le a = some t) : Named t := by
  have htags := tags_step hI h
  intro id corr ht
  rcases htags.tagged id corr ht with hs | hP
  · exact htags.issued id (hN id corr hs)
  · refine htags.issued id ?_
    cases hP with
    | publish htx hpoint hid _ =>
      obtain ⟨r, hi⟩ := inserted_of_publishing ⟨_, htx, _, _, _, hpoint⟩
      exact hid ▸ (hI.inserted r _ hi).2.1
    | replay hc =>
      obtain ⟨d, -, -, hd, -⟩ := replay_some h
      have hid : d.id = id := Table.key_of_get hd
      exact hid ▸ hI.issued d (Table.mem_of_get hd)

/-- A row that is not yet committed is a new one. -/
def InsertedPending (s : Pipeline) : Prop := ∀ r d, s.Inserted r d → d.state = .pending

theorem OffStream.insertedPending (ho : OffStream s t) (hP : InsertedPending s) :
    InsertedPending t := by
  intro r d hd
  rcases ho.inserted r d hd with ⟨r', hd⟩ | ⟨_, _, _, _, -, rfl⟩
  · exact hP r' d hd
  · rfl

theorem InsertedPending.quiet (hP : InsertedPending s) (hq : Quiet s t) : InsertedPending t := by
  intro r d hd
  unfold Inserted at hd
  rw [hq.relays] at hd
  exact hP r d hd

theorem insertedPending_step (hP : InsertedPending s) (h : s.step le a = some t) :
    InsertedPending t := by
  by_cases hoff : offStream a = true
  · exact (offStream_step h hoff).insertedPending hP
  by_cases hout : onOutbox a = true
  · cases a with
    | publish r =>
      simp only [step, Pipeline.publish] at h
      split at h
      next j claimed queue o ev targets d created hr =>
        obtain rfl := Option.some.inj h
        exact (offStream_published hr).insertedPending hP
      next => cases h
    | _ => first | exact absurd rfl hoff | cases hout
  · exact hP.quiet (quiet_step h (by simpa using hout))

/-- A worker has only entries in hand that the group has handed out. -/
def HandedOut (s : Pipeline) : Prop := ∀ i h, s.handlers i = some h → i < s.stream.delivered

/-- Entries only come, and the group hands out none. -/
structure Grows (s t : Pipeline) : Prop where
  entries : ∃ new, t.stream.entries = s.stream.entries ++ new
  delivered : t.stream.delivered = s.stream.delivered

theorem Grows.of_eq (hentries : t.stream.entries = s.stream.entries)
    (hdelivered : t.stream.delivered = s.stream.delivered) : Grows s t :=
  ⟨⟨[], by rw [hentries, List.append_nil]⟩, hdelivered⟩

theorem Grows.trans {u : Pipeline} (h : Grows s t) (h' : Grows t u) : Grows s u := by
  obtain ⟨new, hnew⟩ := h.entries
  obtain ⟨new', hnew'⟩ := h'.entries
  exact ⟨⟨new ++ new', by rw [hnew', hnew, List.append_assoc]⟩, h'.delivered.trans h.delivered⟩

theorem grows_enqueue (s : Pipeline) (id : UUID) (corr : Option PyText) :
    Grows s (s.enqueue id corr) := ⟨⟨[⟨id, corr⟩], rfl⟩, rfl⟩

theorem grows_enqueueAll (due : List PoppedRetry) (s : Pipeline) :
    Grows s (due.foldl (fun s p => s.enqueue p.retry.deliveryId p.retry.correlationId) s) := by
  induction due generalizing s with
  | nil => exact .of_eq rfl rfl
  | cons p due ih => exact (grows_enqueue ..).trans (ih _)

/-- Only a read moves the group on. -/
theorem grows_step (h : s.step le a = some t) (ha : ∀ w n, a ≠ .read w n) : Grows s t := by
  by_cases hoff : offStream a = true
  · have hstream := (offStream_step h hoff).stream
    exact .of_eq (by rw [hstream]) (by rw [hstream])
  cases a with
  | read w n => exact (ha w n rfl).elim
  | publish r =>
    simp only [step, Pipeline.publish] at h
    split at h
    next => exact Option.some.inj h ▸ ⟨⟨[_], rfl⟩, rfl⟩
    next => cases h
  | autoclaim => exact Option.some.inj h ▸ .of_eq rfl rfl
  | beginAttempt i =>
    simp only [step, Pipeline.beginAttempt] at h
    split at h
    next =>
      split at h
      next => cases h
      next =>
        split at h
        next => exact Option.some.inj h ▸ .of_eq rfl rfl
        next => exact Option.some.inj h ▸ .of_eq rfl rfl
    next => cases h
  | commitAttempt i env send =>
    simp only [step, Pipeline.commitAttempt] at h
    split at h
    next =>
      split at h
      next => exact Option.some.inj h ▸ .of_eq rfl rfl
      next => exact Option.some.inj h ▸ .of_eq rfl rfl
    next => cases h
  | scheduleRetry i =>
    simp only [step, Pipeline.scheduleRetry] at h
    split at h
    next =>
      split at h
      next => exact Option.some.inj h ▸ .of_eq rfl rfl
      next => exact Option.some.inj h ▸ .of_eq rfl rfl
    next => cases h
  | ack i =>
    simp only [step, Pipeline.ack] at h
    split at h
    next => exact Option.some.inj h ▸ .of_eq rfl rfl
    next => cases h
  | fail => exact Option.some.inj h ▸ .of_eq rfl rfl
  | crash => exact Option.some.inj h ▸ .of_eq rfl rfl
  | tick now limit =>
    obtain rfl := Option.some.inj h
    unfold Pipeline.tick
    split
    next due zset _ =>
      obtain ⟨hentries, hdelivered⟩ := grows_enqueueAll due { s with zset }
      exact ⟨hentries, hdelivered⟩
    next => exact .of_eq rfl rfl
  | replay id tenantId =>
    obtain ⟨d, ev, row, -, -, -, -, rfl⟩ := replay_some h
    exact ⟨⟨[_], rfl⟩, rfl⟩
  | _ => exact absurd rfl hoff

theorem delivered_step (h : s.step le a = some t) :
    s.stream.delivered ≤ t.stream.delivered := by
  by_cases ha : ∀ w n, a ≠ .read w n
  · exact (grows_step h ha).delivered.ge
  · simp only [not_forall, not_not] at ha
    obtain ⟨w, n, rfl⟩ := ha
    exact Option.some.inj h ▸ Nat.le_add_right ..

theorem handedOut_step (hH : HandedOut s) (h : s.step le a = some t) : HandedOut t := by
  intro i k hi
  have hmono := delivered_step h
  cases holds_step h hi with
  | kept hk => exact Nat.lt_of_lt_of_le (hH i k hk) hmono
  | moved hk => exact Nat.lt_of_lt_of_le (hH i _ hk) hmono
  | read hu =>
    obtain rfl := Option.some.inj h
    exact (ConsumerGroup.mem_unread.mp hu).2
  | claimed hu =>
    have hr := (List.mem_filter.mp (List.mem_of_mem_take hu)).1
    exact Nat.lt_of_lt_of_le (List.mem_range.mp hr) hmono

end Pipeline
end RelayWebhooks
