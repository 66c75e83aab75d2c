import RelayWebhooks.Workers.Passes

/-! The workers together bring everything to its end: with enough passes of each, in whatever order,
nothing waits in the outbox, on the ZSET or on the stream, and every delivery is settled. -/
namespace RelayWebhooks

namespace Workers
open Pipeline DeliveryAttemptService

variable {le : RetryMember → RetryMember → Bool} {kind : WorkerKind} {c : Circumstances}
  {send : OutboundRequest → OutboundHttpResult} {s t : Pipeline} {i w : ℕ}

/-- What the work on an entry leaves when the destination accepts: the reaper's entry is acked, and
a row that is written is delivered. -/
structure Served (kind : WorkerKind) (taken : List ℕ) (s t : Pipeline) : Prop where
  outbox : t.db.outbox = s.db.outbox
  zset : t.zset = s.zset
  log : t.db.deliveryAttempts.rows.length ≤ s.db.deliveryAttempts.rows.length + taken.length
  rows : ∀ d ∈ t.db.deliveries.rows, d.state = .delivered ∨ d ∈ s.db.deliveries.rows
  acked : kind = .reaper → ∀ i ∈ taken, t.stream.pending i = none

theorem leave_pending (i : ℕ) (s : Pipeline) : (leave i true s).stream.pending i = none :=
  Function.update_self ..

/-- The delivery of the entry is gone. -/
theorem handle_missing {m : DeliveryMessage} (hm : s.stream.entries[i]? = some m)
    (hfault : c.fault = none) (hd : s.db.deliveries.get m.deliveryId = none) :
    handle kind c send i s = .ok (leave i (kind = .reaper) s) := by
  have hload : loadRows s.db m.deliveryId = .error (.deliveryNotFound m.deliveryId) := by
    simp [loadRows, hd]
  have hattempt := attempt_eq_finishAttempt c.env send s.db m.deliveryId
  rw [hload] at hattempt
  have hprocess : processDeliveryMessage c send s m =
      (s, .error (.raised (.deliveryNotFound m.deliveryId))) := by
    rw [processDeliveryMessage, if_neg (by simp [hfault]), hattempt]
    rfl
  unfold handle
  rw [hm]
  dsimp only
  rw [hprocess]
  show caught kind c i s (.raised (.deliveryNotFound m.deliveryId)) = _
  rw [caught, if_neg (show ¬c.fault = some .ack by simp [hfault])]
  have hgone : (WorkError.raised (.deliveryNotFound m.deliveryId)).isNotFound = true := rfl
  rw [hgone, Bool.and_true]
  cases kind <;> rfl

/-- The delivery of the entry is there, and the destination accepts. -/
theorem handle_accepted (hI : Inv s []) (hsend : Accepts send) {m : DeliveryMessage} {d : Delivery}
    (hm : s.stream.entries[i]? = some m) (hd : s.db.deliveries.get m.deliveryId = some d)
    (hfault : c.fault = none)
    (hallow : ∀ e ∈ s.db.endpoints.rows, Allows c.env.settings c.env.now e)
    (hfresh : s.db.deliveryAttempts.get c.env.rowId = none) :
    ∃ db row, handle kind c send i s = .ok (leave i true { s with db }) ∧
      row.state = .delivered ∧ db.deliveries = s.db.deliveries.update row ∧
      db.outbox = s.db.outbox ∧
      db.deliveryAttempts.rows.length = s.db.deliveryAttempts.rows.length + 1 := by
  obtain ⟨hev, hend⟩ := hI.parents d (Table.mem_of_get hd)
  obtain ⟨ev, hev⟩ := Option.isSome_iff_exists.mp hev
  obtain ⟨e, he⟩ := Option.isSome_iff_exists.mp hend
  have hload := loadRows_eq hd hev he
  obtain ⟨db, row, hfin, hstate, hdel, -, hlog⟩ :=
    finishAttempt_accepts hsend hload (hallow e (Table.mem_of_get he)) hfresh
  have hattempt := attempt_eq_finishAttempt c.env send s.db m.deliveryId
  rw [hload] at hattempt
  have hprocess : processDeliveryMessage c send s m = ({ s with db }, .ok ()) := by
    rw [processDeliveryMessage, if_neg (by simp [hfault]), hattempt]
    simp only [Except.bind, hfin, hstate]
  refine ⟨db, row, ?_, hstate, hdel, (finishAttempt_ok hfin).outbox, hlog⟩
  unfold handle
  rw [hm]
  dsimp only
  rw [hprocess, hfault]
  rfl

theorem served_handle (hI : Inv s []) (hsend : Accepts send) {m : DeliveryMessage}
    (hm : s.stream.entries[i]? = some m) (hfault : c.fault = none)
    (hallow : ∀ e ∈ s.db.endpoints.rows, Allows c.env.settings c.env.now e)
    (hfresh : s.db.deliveryAttempts.get c.env.rowId = none) :
    ∃ t, handle kind c send i s = .ok t ∧ Served kind [i] s t := by
  cases hd : s.db.deliveries.get m.deliveryId with
  | none =>
    have hdb : ∀ acked, (leave i acked s).db = s.db ∧ (leave i acked s).zset = s.zset := by
      intro acked
      cases acked <;> exact ⟨rfl, rfl⟩
    obtain ⟨hdb, hz⟩ := hdb (kind = .reaper)
    refine ⟨_, handle_missing hm hfault hd, by rw [hdb], hz,
      by rw [hdb]; exact Nat.le_add_right .., fun d hd => ?_, ?_⟩
    · exact .inr (hdb ▸ hd)
    · rintro rfl j hj
      rw [List.mem_singleton.mp hj]
      exact leave_pending i s
  | some d =>
    obtain ⟨db, row, heq, hstate, hdel, hout, hlog⟩ :=
      @handle_accepted kind c send s i hI hsend m d hm hd hfault hallow hfresh
    refine ⟨_, heq, hout, rfl, hlog.le, fun c hc => ?_, fun _ j hj => ?_⟩
    · have hc : c ∈ db.deliveries.rows := hc
      rw [hdel] at hc
      rcases Table.mem_update hc with rfl | ⟨hc, -⟩
      · exact .inl hstate
      · exact .inr hc
    · rw [List.mem_singleton.mp hj]
      exact leave_pending i { s with db }

/-- No call fails, and what an attempt takes from outside lets it through, under a key the store
has not used. -/
def Suits (env : Environment) : Prop :=
  ∀ s i, (env s i).fault = none ∧
    (∀ e ∈ s.db.endpoints.rows, Allows (env s i).env.settings (env s i).env.now e) ∧
    (s.db.deliveryAttempts.rows.length < 2 ^ 128 →
      s.db.deliveryAttempts.get (env s i).env.rowId = none)

theorem served_handleAll (le : RetryMember → RetryMember → Bool) {env : Environment}
    (hsuits : Suits env) (hsend : Accepts send) {entries : List ℕ} (hI : Inv s [])
    (hnd : entries.Nodup) (hh : ∀ i ∈ entries, s.handlers i = some ⟨w, kind, .claimed⟩)
    (hlt : ∀ i ∈ entries, i < s.stream.entries.length)
    (hopen : kind = .reaper → s.relays.rows = [])
    (hroom : s.db.deliveryAttempts.rows.length + entries.length ≤ 2 ^ 128) :
    Served kind entries s (handleAll kind env send entries s) := by
  induction entries generalizing s with
  | nil => exact ⟨rfl, rfl, le_rfl, fun _ hd => .inr hd, fun _ _ hi => by cases hi⟩
  | cons i entries ih =>
    obtain ⟨hi, hnd⟩ := List.nodup_cons.mp hnd
    rw [List.forall_mem_cons] at hh hlt
    rw [List.length_cons] at hroom
    obtain ⟨m, hm⟩ : ∃ m, s.stream.entries[i]? = some m := ⟨_, List.getElem?_eq_getElem hlt.1⟩
    obtain ⟨hfault, hallow, hfresh⟩ := hsuits s i
    obtain ⟨t, ht, hone⟩ := @served_handle kind (env s i) send s i hI hsend m hm hfault hallow
      (hfresh (by omega))
    have hleft : Left i s (after (handle kind (env s i) send i s)) := left_handle kind _ send hm
    obtain ⟨as, has⟩ := @run_handle le kind (env s i) send s i w hh.1 hopen
    rw [ht] at hleft has
    have hleft : Left i s t := hleft
    have hI' : Inv t [] :=
      Transition.run_invariant (I := fun s => Inv s []) (fun _ _ _ hI h => hI.step h) hI has
    have hlog := hone.log
    rw [List.length_singleton] at hlog
    have hlt' : ∀ j ∈ entries, j < t.stream.entries.length := hleft.entries ▸ hlt.2
    have hclaimed : ∀ j ∈ entries, t.handlers j = some ⟨w, kind, .claimed⟩ := by
      intro j hj
      have hne : j ≠ i := fun heq => hi (heq ▸ hj)
      rw [hleft.handlers, Function.update_of_ne hne]
      exact hh.2 j hj
    have hrest := ih hI' hnd hclaimed hlt' (hleft.relays ▸ hopen) (by omega)
    have hothers := allLeft_handleAll kind env send hlt'
    rw [handleAll, ht]
    refine ⟨hrest.outbox.trans hone.outbox, hrest.zset.trans hone.zset, ?_, fun d hd => ?_,
      fun hkind j hj => ?_⟩
    · refine hrest.log.trans ?_
      rw [List.length_cons]
      omega
    · rcases hrest.rows d hd with hd | hd
      · exact .inl hd
      · exact hone.rows d hd
    · rcases List.mem_cons.mp hj with rfl | hj
      · exact (hothers.pending j hi).trans (hone.acked hkind j List.mem_cons_self)
      · exact hrest.acked hkind j hj

/-- Nobody asks for anything new, no call fails, and what the workers send is accepted. -/
def Serves (s : Pipeline) : Pass → Prop
  | .relay gen now limit => Room s (.relay gen now limit) ∧ gen.Answers
  | .schedule .. => True
  | .dispatch _ _ env send | .reap _ _ _ env send => Suits env ∧ Accepts send
  | _ => False

theorem Serves.room {a : Pass} (h : Serves s a) : Room s a := by
  cases a with
  | relay => exact h.1
  | _ => trivial

/-- The attempts that a pass may make. -/
def Pass.attempts : Pass → ℕ
  | .dispatch _ count _ _ | .reap _ _ count _ _ => count
  | _ => 0

/-- The store has room for the rows of the pass. -/
def Fits (s : Pipeline) (a : Pass) : Prop :=
  Serves s a ∧ s.db.deliveryAttempts.rows.length + a.attempts ≤ 2 ^ 128

/-- The outbox entries that a pass may claim. -/
def Pass.claims : Pass → ℕ
  | .relay _ _ limit => limit
  | _ => 0

/-- The retries that a pass may fire, when all are due by the horizon. -/
def Pass.fires (horizon : ℤ) : Pass → ℕ
  | .schedule now limit => if horizon ≤ now then limit else 0
  | _ => 0

/-- The new messages that a pass may read. -/
def Pass.reads : Pass → ℕ
  | .dispatch _ count _ _ => count
  | _ => 0

/-- The messages that a pass may take over, when all that were handed out have been idle. -/
def Pass.takesOver (delivered : ℕ) : Pass → ℕ
  | .reap _ idle count _ _ => if ∀ i < delivered, i ∈ idle then count else 0
  | _ => 0

/-- What a pass takes off each place where work waits, and what it leaves there. -/
structure Eases (s : Pipeline) (a : Pass) (t : Pipeline) : Prop where
  waiting : (Relay.waiting t.db).length = (Relay.waiting s.db).length - a.claims
  zset : ∀ x ∈ t.zset.rows, x ∈ s.zset.rows
  log : t.db.deliveryAttempts.rows.length ≤ s.db.deliveryAttempts.rows.length + a.attempts
  fired : ∀ horizon, (∀ x ∈ s.zset.rows, x.score ≤ horizon) →
    t.zset.rows.length ≤ s.zset.rows.length - a.fires horizon
  entries : Relay.waiting s.db = [] → s.zset.rows = [] → t.stream.entries = s.stream.entries
  delivered : t.stream.delivered =
    s.stream.delivered + min a.reads (s.stream.entries.length - s.stream.delivered)
  pending : s.stream.delivered = s.stream.entries.length →
    t.stream.xpending ≤ s.stream.xpending - a.takesOver s.stream.delivered
  rows : ∀ d ∈ t.db.deliveries.rows,
    d.state = .delivered ∨ d.state = .pending ∨ d ∈ s.db.deliveries.rows

theorem eases_relay (hI : Inv s []) (hs : Idle s) {gen : Relay.Generator} {now : ℤ} {limit : ℕ}
    (hroom : Room s (.relay gen now limit)) (ha : gen.Answers) :
    Eases s (.relay gen now limit) (Relay.runOnce gen now limit s) := by
  obtain ⟨new, hrel, -, -, -, hwait⟩ :=
    @Relay.runOnce_ok gen s hroom.1 ha now limit hs.relays hI.issued hroom.2
  have hsplit := (Relay.perm_waiting hs.relays limit).length_eq
  have hclaimed : (s.dueEntries limit).length = min limit (Relay.waiting s.db).length := by
    rw [Relay.dueEntries_eq hs.relays, List.length_take, List.length_insertionSort]
  rw [List.length_append, ← hwait, hclaimed] at hsplit
  refine ⟨?_, fun x hx => hrel.zset ▸ hx, ?_, fun _ _ => ?_, fun hnone _ => ?_, ?_,
    fun _ => ?_, fun d hd => ?_⟩
  · show _ = _ - limit
    omega
  · rw [hrel.log]
    exact Nat.le_add_right ..
  · rw [hrel.zset]
    exact le_rfl
  · have hnew : new = [] := by
      rw [hnone, List.length_nil, Nat.min_zero, List.length_eq_zero_iff] at hclaimed
      have hlen := hrel.length
      rw [hclaimed] at hlen
      exact List.length_eq_zero_iff.mp hlen
    rw [hrel.entries, hnew, List.map_nil, List.append_nil]
  · show _ = s.stream.delivered + min 0 _
    rw [hrel.group.1, Nat.zero_min, Nat.add_zero]
  · exact ConsumerGroup.xpending_le hrel.group.1 fun i hi => hrel.group.2 ▸ hi
  · rw [hrel.rows] at hd
    rcases List.mem_append.mp hd with hd | hd
    · exact .inr (.inr hd)
    · exact .inr (.inl (hrel.untouched d hd).1)

theorem enqueueAll_group (due : List PoppedRetry) (s : Pipeline) :
    let u := due.foldl (fun s p => s.enqueue p.retry.deliveryId p.retry.correlationId) s
    u.stream.delivered = s.stream.delivered ∧ u.stream.pending = s.stream.pending := by
  induction due generalizing s with
  | nil => exact ⟨rfl, rfl⟩
  | cons p due ih => exact ih (s.enqueue p.retry.deliveryId p.retry.correlationId)

theorem tick_group (le : RetryMember → RetryMember → Bool) (s : Pipeline) (now : ℤ) (limit : ℕ) :
    (s.tick le now limit).stream.delivered = s.stream.delivered ∧
      (s.tick le now limit).stream.pending = s.stream.pending := by
  unfold Pipeline.tick
  split
  next due zset _ => exact enqueueAll_group due { s with zset }
  next => exact ⟨rfl, rfl⟩

/-- With nothing on the ZSET there is nothing to fire. -/
theorem tick_idle (le : RetryMember → RetryMember → Bool) (h : s.zset.rows = []) (now : ℤ)
    (limit : ℕ) : (s.tick le now limit).stream.entries = s.stream.entries := by
  have hnone : (SortedSet.popDue le s.zset now limit).1 = [] := by
    have hperm := SortedSet.popDue_perm le s.zset now limit
    rw [h] at hperm
    exact (List.append_eq_nil_iff.mp hperm.eq_nil).2
  unfold Pipeline.tick RetryZset.popDueRetries
  rw [hnone]
  rfl

theorem eases_tick (le : RetryMember → RetryMember → Bool) (s : Pipeline) (now : ℤ) (limit : ℕ) :
    Eases s (.schedule now limit) (s.tick le now limit) := by
  obtain ⟨-, hdb, -, hz⟩ := tick_frame le s now limit
  obtain ⟨hdel, hpend⟩ := tick_group le s now limit
  have hsub : ∀ x ∈ (s.tick le now limit).zset.rows, x ∈ s.zset.rows := by
    rw [hz]
    exact fun x hx => (List.mem_filter.mp hx).1
  refine ⟨?_, hsub, ?_, fun horizon hall => ?_, fun _ hnone => tick_idle le hnone now limit, ?_,
    fun _ => ?_, fun d hd => ?_⟩
  · rw [hdb]
    rfl
  · rw [hdb]
    exact Nat.le_add_right ..
  · rw [hz, Pass.fires]
    split
    next hle => exact (SortedSet.length_popDue le (fun x hx => (hall x hx).trans hle) limit).le
    next => exact List.length_filter_le ..
  · show _ = s.stream.delivered + min 0 _
    rw [hdel, Nat.zero_min, Nat.add_zero]
  · exact ConsumerGroup.xpending_le hdel fun i hi => hpend ▸ hi
  · exact .inr (.inr (hdb ▸ hd))

theorem eases_dispatch (hI : Inv s []) (worker count : ℕ) {env : Environment}
    (hsuits : Suits env) (hsend : Accepts send)
    (hroom : s.db.deliveryAttempts.rows.length + count ≤ 2 ^ 128) :
    Eases s (.dispatch worker count env send) (dispatch worker count env send s) := by
  have hlen : (s.stream.unread count).length ≤ count := by
    rw [ConsumerGroup.unread, List.length_range']
    exact Nat.min_le_left ..
  have hread : (s.read worker count).db.deliveryAttempts.rows.length =
      s.db.deliveryAttempts.rows.length := rfl
  have hserved : Served .dispatcher (s.stream.unread count) (s.read worker count)
      (dispatch worker count env send s) :=
    served_handleAll (fun _ _ => true) hsuits hsend (hI.read worker count) List.nodup_range'
      (fun i hi => if_pos hi)
      (fun i hi => (lt_of_mem_unread hi : i < s.stream.entries.length)) nofun (by omega)
  have hleft := allLeft_dispatch worker count env send s
  refine ⟨?_, fun x hx => hserved.zset ▸ hx, ?_, fun _ _ => ?_, fun _ _ => hleft.entries,
    hleft.delivered, fun hdone => ?_, fun d hd => ?_⟩
  · show _ = (Relay.waiting s.db).length - 0
    rw [Relay.waiting, hserved.outbox]
    rfl
  · exact hserved.log.trans (Nat.add_le_add_left hlen _)
  · rw [hserved.zset]
    exact le_rfl
  · have hnone : s.stream.unread count = [] := by
      rw [ConsumerGroup.unread, hdone, Nat.sub_self, Nat.min_zero]
      rfl
    have hdel : (dispatch worker count env send s).stream.delivered = s.stream.delivered := by
      rw [hleft.delivered]
      show s.stream.delivered + min count _ = _
      rw [hdone, Nat.sub_self, Nat.min_zero, Nat.add_zero]
    refine ConsumerGroup.xpending_le hdel fun i hi => ?_
    rw [hleft.pending i (by rw [hnone]; exact List.not_mem_nil)] at hi
    have hi : (if i ∈ s.stream.unread count then some worker else s.stream.pending i).isSome :=
      hi
    rwa [hnone, if_neg List.not_mem_nil] at hi
  · rcases hserved.rows d hd with hd | hd
    · exact .inl hd
    · exact .inr (.inr hd)

theorem eases_reap (hI : Inv s []) (hs : Idle s) (worker : ℕ) (idle : List ℕ) (count : ℕ)
    {env : Environment} (hsuits : Suits env) (hsend : Accepts send)
    (hroom : s.db.deliveryAttempts.rows.length + count ≤ 2 ^ 128) :
    Eases s (.reap worker idle count env send) (reap worker idle count env send s) := by
  have hlen : (reclaimable idle count s).length ≤ count := List.length_take_le ..
  have hclaim : (s.autoclaim worker idle count).db.deliveryAttempts.rows.length =
      s.db.deliveryAttempts.rows.length := rfl
  have hserved : Served .reaper (reclaimable idle count s) (s.autoclaim worker idle count)
      (reap worker idle count env send s) :=
    served_handleAll (fun _ _ => true) hsuits hsend (hI.autoclaim worker idle count)
      ((List.nodup_range.filter _).sublist (List.take_sublist ..)) (fun i hi => if_pos hi)
      (fun i hi => (lt_of_mem_reclaimable hi : i < s.stream.entries.length)) (fun _ => hs.relays)
      (by omega)
  have hleft := allLeft_reap worker idle count env send s
  have hdel : (reap worker idle count env send s).stream.delivered = s.stream.delivered :=
    hleft.delivered
  have hout : ∀ i, i ∉ reclaimable idle count s →
      (reap worker idle count env send s).stream.pending i = s.stream.pending i := by
    intro i hi
    rw [hleft.pending i hi]
    exact if_neg hi
  refine ⟨?_, fun x hx => hserved.zset ▸ hx, ?_, fun _ _ => ?_, fun _ _ => hleft.entries, ?_,
    fun _ => ?_, fun d hd => ?_⟩
  · show _ = (Relay.waiting s.db).length - 0
    rw [Relay.waiting, hserved.outbox]
    rfl
  · exact hserved.log.trans (Nat.add_le_add_left hlen _)
  · rw [hserved.zset]
    exact le_rfl
  · show _ = s.stream.delivered + min 0 _
    rw [hdel, Nat.zero_min, Nat.add_zero]
  · show _ ≤ s.stream.xpending - ite _ _ _
    split
    next hidle =>
      refine (ConsumerGroup.xpending_settled hdel (fun i hi => ?_) (hserved.acked rfl) hout).le
      obtain ⟨c, hc⟩ := Option.isSome_iff_exists.mp hi
      simp [hidle i (s.stream.pending_lt i c hc), hs.handlers i]
    next =>
      refine ConsumerGroup.xpending_le hdel fun i hi => ?_
      by_cases hmem : i ∈ reclaimable idle count s
      · rw [hserved.acked rfl i hmem] at hi
        cases hi
      · rwa [hout i hmem] at hi
  · rcases hserved.rows d hd with hd | hd
    · exact .inl hd
    · exact .inr (.inr hd)

/-- One pass. -/
theorem passStep_eases (le : RetryMember → RetryMember → Bool)
    (hI : Inv s []) (hs : Idle s) {a : Pass} (hfits : Fits s a)
    (h : passStep le s a = some t) : Eases s a t ∧ Inv t [] ∧ Idle t := by
  obtain ⟨ha, hroom⟩ := hfits
  obtain ⟨⟨as, has⟩, hidle⟩ := passStep_refines le hs ha.room h
  have hI' : Inv t [] :=
    Transition.run_invariant (I := fun s => Inv s []) (fun _ _ _ hI h => hI.step h) hI has
  refine ⟨?_, hI', hidle⟩
  cases a with
  | relay gen now limit => exact Option.some.inj h ▸ eases_relay hI hs ha.1 ha.2
  | dispatch worker count env send =>
    exact Option.some.inj h ▸ eases_dispatch hI worker count ha.1 ha.2 hroom
  | reap worker idle count env send =>
    exact Option.some.inj h ▸ eases_reap hI hs worker idle count ha.1 ha.2 hroom
  | schedule now limit => exact Option.some.inj h ▸ eases_tick le s now limit
  | _ => exact ha.elim

/-- Nothing is on its way to the stream. -/
structure Calm (s : Pipeline) : Prop where
  inv : Inv s []
  idle : Idle s
  waiting : Relay.waiting s.db = []
  zset : s.zset.rows = []

theorem Calm.step (hs : Calm s) {a : Pass} (ha : Fits s a)
    (h : passStep le s a = some t) : Calm t ∧ Eases s a t := by
  obtain ⟨heases, hI, hidle⟩ := passStep_eases le hs.inv hs.idle ha h
  refine ⟨⟨hI, hidle, ?_, ?_⟩, heases⟩
  · rw [← List.length_eq_zero_iff, heases.waiting, hs.waiting, List.length_nil, Nat.zero_sub]
  · refine List.eq_nil_iff_forall_not_mem.mpr fun x hx => ?_
    have hx := heases.zset x hx
    rw [hs.zset] at hx
    cases hx

/-- Room for all attempts of a run is room for those of each pass. -/
theorem always_fits (hI : Inv s []) (hs : Idle s) {as : List Pass}
    (ha : Transition.Always (passStep le) (fun s a _ => Serves s a) s as)
    (hroom : s.db.deliveryAttempts.rows.length + (as.map Pass.attempts).sum ≤ 2 ^ 128) :
    Transition.Always (passStep le) (fun s a _ => Fits s a) s as := by
  induction as generalizing s with
  | nil => trivial
  | cons a as ih =>
    intro t ht
    rw [List.map_cons, List.sum_cons] at hroom
    obtain ⟨ha, hrest⟩ := ha.cons ht
    have hfits : Fits s a := ⟨ha, by omega⟩
    obtain ⟨heases, hI, hidle⟩ := passStep_eases le hI hs hfits ht
    have hlog := heases.log
    exact ⟨hfits, ih hI hidle hrest (by omega)⟩

/-- Enough passes of the relay and enough ticks leave nothing on its way to the stream. -/
theorem calm_run (hI : Inv s []) (hs : Idle s) {as : List Pass}
    (ha : Transition.Always (passStep le) (fun s a _ => Fits s a) s as)
    (h : Transition.run (passStep le) s as = some t)
    (hclaims : (Relay.waiting s.db).length ≤ (as.map Pass.claims).sum) {horizon : ℤ}
    (hdue : ∀ x ∈ s.zset.rows, x.score ≤ horizon)
    (hfires : s.zset.rows.length ≤ (as.map (Pass.fires horizon)).sum) : Calm t := by
  obtain ⟨⟨hI', hidle⟩, hwait⟩ := ha.budget (fun s => (Relay.waiting s.db).length)
    Pass.claims (I := fun s => Inv s [] ∧ Idle s) (fun s a t hs ha h => by
      obtain ⟨heases, hI, hidle⟩ := passStep_eases le hs.1 hs.2 ha h
      exact ⟨⟨hI, hidle⟩, heases.waiting.le⟩) ⟨hI, hs⟩ h
  obtain ⟨-, hz⟩ := ha.budget (fun s => s.zset.rows.length) (Pass.fires horizon)
    (I := fun s => Inv s [] ∧ Idle s ∧ ∀ x ∈ s.zset.rows, x.score ≤ horizon)
    (fun s a t hs ha h => by
      obtain ⟨heases, hI, hidle⟩ := passStep_eases le hs.1 hs.2.1 ha h
      exact ⟨⟨hI, hidle, fun x hx => hs.2.2 x (heases.zset x hx)⟩, heases.fired horizon hs.2.2⟩)
    ⟨hI, hs, hdue⟩ h
  refine ⟨hI', hidle, List.length_eq_zero_iff.mp ?_, List.length_eq_zero_iff.mp ?_⟩
  · omega
  · omega

/-- Enough batches of the dispatchers hand out every message. -/
theorem Calm.read (hs : Calm s) {as : List Pass}
    (ha : Transition.Always (passStep le) (fun s a _ => Fits s a) s as)
    (h : Transition.run (passStep le) s as = some t)
    (hreads : s.stream.entries.length - s.stream.delivered ≤ (as.map Pass.reads).sum) :
    Calm t ∧ t.stream.delivered = t.stream.entries.length := by
  obtain ⟨hcalm, hleft⟩ := ha.budget
    (fun s => s.stream.entries.length - s.stream.delivered) Pass.reads (I := Calm)
    (fun s a t hs ha h => by
      obtain ⟨hcalm, heases⟩ := hs.step ha h
      refine ⟨hcalm, ?_⟩
      rw [heases.entries hs.waiting hs.zset, heases.delivered]
      omega) hs h
  have hle := t.stream.delivered_le
  exact ⟨hcalm, by omega⟩

/-- Enough sweeps of the reapers ack what the dispatchers left. -/
theorem Calm.sweep (hs : Calm s)
    (hread : s.stream.delivered = s.stream.entries.length) {as : List Pass}
    (ha : Transition.Always (passStep le) (fun s a _ => Fits s a) s as)
    (h : Transition.run (passStep le) s as = some t)
    (hsweeps : s.stream.xpending ≤ (as.map (Pass.takesOver s.stream.delivered)).sum) :
    Calm t ∧ ∀ i, ¬t.stream.Unacked i := by
  obtain ⟨⟨hcalm, hread', hdel⟩, hleft⟩ := ha.budget
    (fun u => u.stream.xpending) (Pass.takesOver s.stream.delivered)
    (I := fun u => Calm u ∧ u.stream.delivered = u.stream.entries.length ∧
      u.stream.delivered = s.stream.delivered)
    (fun u a v hu ha h => by
      obtain ⟨hcalm, heases⟩ := hu.1.step ha h
      have hdel := heases.delivered
      rw [hu.2.1, Nat.sub_self, Nat.min_zero, Nat.add_zero, ← hu.2.1] at hdel
      refine ⟨⟨hcalm, ?_, hdel.trans hu.2.2⟩, ?_⟩
      · rw [heases.entries hu.1.waiting hu.1.zset, hdel, hu.2.1]
      · have hpending := heases.pending hu.2.1
        rwa [hu.2.2] at hpending) ⟨hs, hread, rfl⟩ h
  refine ⟨hcalm, fun i hi => ?_⟩
  have hnone : t.stream.xpending = 0 := by omega
  have hlt : i < t.stream.delivered := hread' ▸ hi.1
  exact absurd (hi.2 hlt) (List.countP_eq_zero.mp hnone i (List.mem_range.mpr hlt))

/-- The rows that are neither delivered nor new are those that were there. -/
theorem rows_run (hI : Inv s []) (hs : Idle s) {as : List Pass}
    (ha : Transition.Always (passStep le) (fun s a _ => Fits s a) s as)
    (h : Transition.run (passStep le) s as = some t) :
    ∀ d ∈ t.db.deliveries.rows,
      d.state = .delivered ∨ d.state = .pending ∨ d ∈ s.db.deliveries.rows := by
  refine (ha.invariant (I := fun u => (Inv u [] ∧ Idle u) ∧ ∀ d ∈ u.db.deliveries.rows,
    d.state = .delivered ∨ d.state = .pending ∨ d ∈ s.db.deliveries.rows)
    (fun u a v hu ha h => ?_) ⟨⟨hI, hs⟩, fun d hd => .inr (.inr hd)⟩ h).2
  obtain ⟨heases, hI, hidle⟩ := passStep_eases le hu.1.1 hu.1.2 ha h
  refine ⟨⟨hI, hidle⟩, fun d hd => ?_⟩
  rcases heases.rows d hd with hd | hd | hd
  · exact .inl hd
  · exact .inr (.inl hd)
  · exact hu.2 d hd

/-- With nothing on its way and nothing unacked, nothing is owed. -/
theorem Calm.not_owed (hs : Calm s) (hacked : ∀ i, ¬s.stream.Unacked i) (id : UUID) :
    ¬s.Owed id := by
  intro ho
  rcases hs.inv.carried id ho with (⟨k, x, hx, -⟩ | ⟨i, -, hi, -⟩) | hp
  · have hmem := Table.mem_of_get hx
    rw [hs.zset] at hmem
    cases hmem
  · exact hacked i hi
  · cases hp

/-- From every reachable state in which nobody is at work, the passes of the workers, one at a time
and in whatever order, settle everything once there were enough of each and no call fails: relays
and ticks for what waits to go on the stream, then dispatchers for what is on it, then reapers for
what these have left. Nothing waits then, and every delivery is delivered, or was dead before. Such
a state is reached by runs whose ticks and replays are not interrupted and whose reapers take over
only what nobody works on. -/
theorem all_settled (le : RetryMember → RetryMember → Bool) (s t u v : Pipeline)
    (hs : Transition.Reachable (step le) Init s) (hidle : Idle s) (as bs cs : List Pass)
    (hserves : Transition.Always (passStep le) (fun s a _ => Serves s a) s (as ++ bs ++ cs))
    (ht : Transition.run (passStep le) s as = some t)
    (hu : Transition.run (passStep le) t bs = some u)
    (hv : Transition.run (passStep le) u cs = some v)
    (hroom : s.db.deliveryAttempts.rows.length +
      ((as ++ bs ++ cs).map Pass.attempts).sum ≤ 2 ^ 128) (horizon : ℤ)
    (hdue : ∀ x ∈ s.zset.rows, x.score ≤ horizon)
    (hclaims : (Relay.waiting s.db).length ≤ (as.map Pass.claims).sum)
    (hfires : s.zset.rows.length ≤ (as.map (Pass.fires horizon)).sum)
    (hreads : t.stream.entries.length - t.stream.delivered ≤ (bs.map Pass.reads).sum)
    (hsweeps : u.stream.xpending ≤ (cs.map (Pass.takesOver u.stream.delivered)).sum) :
    (∀ o ∈ v.db.outbox.rows, o.status = .processed) ∧ v.zset.rows = [] ∧
      (∀ i, ¬v.stream.Unacked i) ∧
      ∀ d ∈ v.db.deliveries.rows,
        d.state = .delivered ∨ d.state = .dead ∧ d ∈ s.db.deliveries.rows := by
  have hI : Inv s [] := hs.invariant (fun _ => inv_init) fun _ _ _ hI h => hI.step h
  have hfits := always_fits hI hidle hserves hroom
  obtain ⟨hbefore, hcs⟩ := hfits.append (Transition.run_trans ht hu)
  obtain ⟨has, hbs⟩ := hbefore.append ht
  have hcalm : Calm t := calm_run hI hidle has ht hclaims hdue hfires
  obtain ⟨hcalm, hread⟩ := hcalm.read hbs hu hreads
  obtain ⟨hcalm, hacked⟩ := hcalm.sweep hread hcs hv hsweeps
  refine ⟨fun o ho => ?_, hcalm.zset, hacked, fun d hd => ?_⟩
  · cases hst : o.status with
    | processed => rfl
    | pending =>
      have hmem : o ∈ Relay.waiting v.db := List.mem_filter.mpr ⟨ho, decide_eq_true hst⟩
      rw [hcalm.waiting] at hmem
      cases hmem
  · have hsettled : ¬d.state.Owed := fun ho =>
      hcalm.not_owed hacked d.id (.inl ⟨d, Table.get_of_mem hd, ho⟩)
    rcases rows_run hI hidle hfits (Transition.run_trans (Transition.run_trans ht hu) hv) d hd
      with hst | hst | hmem
    · exact .inl hst
    · exact (hsettled (.inl hst)).elim
    · cases hst : d.state with
      | pending => exact (hsettled (.inl hst)).elim
      | retrying => exact (hsettled (.inr hst)).elim
      | delivered => exact .inl rfl
      | dead => exact .inr ⟨rfl, hmem⟩

/-- There are such surroundings. -/
theorem exists_suits : ∃ env, Suits env := by
  have hnow : ∀ s : Pipeline, ∃ now, ∀ e ∈ s.db.endpoints.rows, Allows {} now e := by
    intro s
    obtain ⟨now, hnow⟩ := (s.db.endpoints.rows.map fun e =>
      e.openedAt.getD 0 + ({} : Settings).breakerCooldown).toFinset.exists_le
    refine ⟨now, fun e he => ?_⟩
    have hle := hnow _ (List.mem_toFinset.mpr (List.mem_map_of_mem he))
    cases ht : e.openedAt with
    | none => simp [Allows, shouldSkipForOpenBreaker, ht]
    | some v =>
      rw [ht, Option.getD_some] at hle
      have hpast : ({} : Settings).breakerCooldown ≤ now - v := by omega
      simpa [Allows, shouldSkipForOpenBreaker, ht] using fun _ => hpast
  have hkey : ∀ s : Pipeline, ∃ k : UUID,
      s.db.deliveryAttempts.rows.length < 2 ^ 128 → s.db.deliveryAttempts.get k = none := by
    intro s
    by_cases hlt : s.db.deliveryAttempts.rows.length < 2 ^ 128
    · obtain ⟨k, hk⟩ := s.db.deliveryAttempts.exists_get_eq_none fin_injective hlt
      exact ⟨k, fun _ => hk⟩
    · exact ⟨0, fun h => (hlt h).elim⟩
  choose now hnow using hnow
  choose key hkey using hkey
  exact ⟨fun s _ => { env := { sampleEnv with settings := {}, now := now s, rowId := key s } },
    fun s _ => ⟨rfl, hnow s, hkey s⟩⟩

theorem all_settled_sample :
    ∃ le as v, Transition.run (passStep le) samplePipeline as = some v ∧
      ∀ d ∈ v.db.deliveries.rows, d.state = .delivered := by
  obtain ⟨keys, hkeys⟩ := Relay.exists_fresh
  obtain ⟨env, henv⟩ := exists_suits
  let send : OutboundRequest → OutboundHttpResult :=
    fun _ => { latencyMs := 5, statusCode := some 200 }
  have hsend : Accepts send := fun _ => ⟨rfl, fun _ h => by cases h⟩
  let le : RetryMember → RetryMember → Bool := fun _ _ => true
  let as : List Pass := [.relay { keys, now := 0 } 0 50, .schedule 0 100]
  let bs : List Pass := [.dispatch 1 10 env send]
  let cs : List Pass := [.reap 2 [0] 50 env send]
  obtain ⟨t, ht, hentries, hdel⟩ : ∃ t, Transition.run (passStep le) samplePipeline as =
      some t ∧ t.stream.entries.length = 1 ∧ t.stream.delivered = 0 := ⟨_, rfl, rfl, rfl⟩
  let u := dispatch 1 10 env send t
  have hread : u.stream.delivered = 1 := by
    rw [(allLeft_dispatch 1 10 env send t).delivered]
    show t.stream.delivered + min 10 (t.stream.entries.length - t.stream.delivered) = 1
    rw [hentries, hdel]
    rfl
  have hsweeps : u.stream.xpending ≤ (cs.map (Pass.takesOver u.stream.delivered)).sum := by
    have hle : u.stream.xpending ≤ u.stream.delivered := by
      rw [ConsumerGroup.xpending, List.countP_eq_length_filter]
      exact (List.length_filter_le ..).trans_eq List.length_range
    have hsum : (cs.map (Pass.takesOver 1)).sum = 50 := rfl
    rw [hread] at hle ⊢
    omega
  have hfirst : Serves samplePipeline (.relay { keys, now := 0 } 0 50) := by
    refine ⟨⟨hkeys, ?_⟩, fun _ => rfl, rfl⟩
    show _ ≤ _
    decide
  have hclaims : (Relay.waiting samplePipeline.db).length ≤ (as.map Pass.claims).sum := by
    have hsum : (as.map Pass.claims).sum = 50 := rfl
    have hwaiting : (Relay.waiting samplePipeline.db).length = 1 := rfl
    omega
  have hreads : t.stream.entries.length - t.stream.delivered ≤ (bs.map Pass.reads).sum := by
    have hsum : (bs.map Pass.reads).sum = 10 := rfl
    omega
  have hroom : samplePipeline.db.deliveryAttempts.rows.length +
      ((as ++ bs ++ cs).map Pass.attempts).sum ≤ 2 ^ 128 := by
    have hsum : samplePipeline.db.deliveryAttempts.rows.length +
      ((as ++ bs ++ cs).map Pass.attempts).sum = 60 := rfl
    omega
  have hserves : Transition.Always (passStep le) (fun s a _ => Serves s a) samplePipeline
      (as ++ bs ++ cs) :=
    fun _ _ => ⟨hfirst, fun _ _ => ⟨trivial, fun _ _ => ⟨⟨henv, hsend⟩, fun _ _ =>
      ⟨⟨henv, hsend⟩, trivial⟩⟩⟩⟩
  obtain ⟨-, -, -, hall⟩ := all_settled le samplePipeline t u _
    ⟨samplePipeline, [], ⟨rfl, rfl, rfl, rfl, rfl⟩, rfl⟩ ⟨rfl, fun _ => rfl⟩ as bs cs hserves ht
    rfl rfl hroom 0 (fun x hx => by cases hx) hclaims (Nat.zero_le _) hreads hsweeps
  refine ⟨le, as ++ bs ++ cs, _, Transition.run_trans (Transition.run_trans ht rfl) rfl,
    fun d hd => ?_⟩
  rcases hall d hd with hd | ⟨-, hd⟩
  · exact hd
  · cases hd

end Workers

end RelayWebhooks
