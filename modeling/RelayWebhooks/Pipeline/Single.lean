import RelayWebhooks.Pipeline.Frames

/-! At most one carrier: in a run in which no worker stops between the end of its work on a
delivery and the XACK, no delivery is carried twice, and none that is settled is carried. -/
namespace RelayWebhooks

/-- What can still bring a delivery to an attempt: an entry of the stream, or a member of the
retry ZSET. -/
inductive Carrier where
  | entry (i : ℕ)
  | member (m : RetryMember)
  deriving DecidableEq

namespace Pipeline
open DeliveryAttemptService

variable {le : RetryMember → RetryMember → Bool} {s t : Pipeline} {a : PipelineAction}
  {id x : UUID} {c c₀ : Carrier}

def CarriedBy (s : Pipeline) (id : UUID) : Carrier → Prop
  | .entry i => s.SafeEntry id i
  | .member m => (∃ x ∈ s.zset.rows, x.member = m) ∧
      ∃ r, parseMember m = some r ∧ r.deliveryId = id

theorem carried_iff : s.Carried id ↔ ∃ c, s.CarriedBy id c := by
  constructor
  · rintro (⟨m, x, hx, r, hr⟩ | ⟨i, hi⟩)
    · exact ⟨.member m, ⟨x, Table.mem_of_get hx, Table.key_of_get hx⟩, r, hr⟩
    · exact ⟨.entry i, hi⟩
  · rintro ⟨c, hc⟩
    cases c with
    | entry i => exact .inr ⟨i, hc⟩
    | member m =>
      obtain ⟨⟨x, hx, rfl⟩, r, hr⟩ := hc
      exact .inl ⟨x.member, x, Table.get_of_mem hx, r, hr⟩

theorem CarriedBy.tagged (h : s.CarriedBy id c) : ∃ corr, s.Tagged id corr := by
  cases c with
  | entry i =>
    obtain ⟨⟨m, hm, rfl⟩, -⟩ := h
    exact ⟨m.correlationId, .inl (List.mem_of_getElem? hm)⟩
  | member m =>
    obtain ⟨⟨x, hx, rfl⟩, r, hr, rfl⟩ := h
    exact ⟨r.correlationId, .inr ⟨x, hx, hr⟩⟩

/-- The carriers depend on the stream, the ZSET and the handlers alone. -/
theorem carriedBy_congr (hstream : t.stream = s.stream) (hzset : t.zset = s.zset)
    (hhandlers : t.handlers = s.handlers) : t.CarriedBy id c ↔ s.CarriedBy id c := by
  cases c with
  | entry i => simp only [CarriedBy, SafeEntry, hstream, hhandlers]
  | member m => simp only [CarriedBy, hzset]

/-- A handler whose entry was safe moves on: no entry becomes a carrier. -/
theorem CarriedBy.of_setHandler {i : ℕ} {h' : Option Handler}
    (hsafe : ∀ h, s.handlers i = some h → h.Safe) (hc : (s.setHandler i h').CarriedBy id c) :
    s.CarriedBy id c := by
  cases c with
  | member m => exact hc
  | entry j =>
    obtain ⟨hm, hu, hs⟩ := hc
    refine ⟨hm, hu, fun h hh => ?_⟩
    by_cases hj : j = i
    · exact hsafe h (hj ▸ hh)
    · exact hs h (by rwa [setHandler_ne _ _ hj])

/-- No delivery has two carriers, and neither a settled one nor one that is yet to be published
has any. -/
structure Single (s : Pipeline) : Prop where
  one : ∀ id c c', s.CarriedBy id c → s.CarriedBy id c' → c = c'
  settled : ∀ id d, s.db.deliveries.get id = some d → ¬d.state.Owed → ∀ c, ¬s.CarriedBy id c
  unsent : ∀ d, s.Publishing d → ∀ c, ¬s.CarriedBy d.id c

/-- The delivery may get a carrier. -/
structure Ready (s : Pipeline) (id : UUID) : Prop where
  none : ∀ c, ¬s.CarriedBy id c
  owed : ∀ d, s.db.deliveries.get id = some d → d.state.Owed
  closed : ∀ d, s.Publishing d → d.id ≠ id

/-- Whoever stops leaves an entry that still has to be worked on: no worker stops once it has
committed the end of a delivery or scheduled its retry. -/
def Prompt (s : Pipeline) : PipelineAction → Prop
  | .fail i => ∀ h, s.handlers i = some h → h.Safe
  | .crash worker => ∀ i h, s.handlers i = some h → h.worker = worker → h.Safe
  | _ => True

/-- Carriers only go, and what is settled or unsent and was not so before has none. -/
theorem Single.keep (hS : Single s) (hc : ∀ id c, t.CarriedBy id c → s.CarriedBy id c)
    (hset : ∀ id d, t.db.deliveries.get id = some d → ¬d.state.Owed →
      (∃ d₀, s.db.deliveries.get id = some d₀ ∧ ¬d₀.state.Owed) ∨ ∀ c, ¬t.CarriedBy id c)
    (hpub : ∀ d, t.Publishing d → s.Publishing d ∨ ∀ c, ¬t.CarriedBy d.id c) : Single t where
  one id c c' h h' := hS.one id c c' (hc id c h) (hc id c' h')
  settled id d hd ho c h := by
    rcases hset id d hd ho with ⟨d₀, hd₀, ho₀⟩ | hnone
    · exact hS.settled id d₀ hd₀ ho₀ c (hc id c h)
    · exact hnone c h
  unsent d hd c h := by
    rcases hpub d hd with hd | hnone
    · exact hS.unsent d hd c (hc _ c h)
    · exact hnone c h

/-- The only new carrier is one of a delivery that may get it. -/
theorem Single.add (hS : Single s) (hr : Ready s x)
    (hc : ∀ id c, t.CarriedBy id c → s.CarriedBy id c ∨ id = x ∧ c = c₀)
    (hdb : t.db.deliveries = s.db.deliveries) (hrel : t.relays = s.relays) : Single t where
  one id c c' h h' := by
    rcases hc id c h with h | ⟨rfl, rfl⟩
    · rcases hc id c' h' with h' | ⟨rfl, rfl⟩
      · exact hS.one id c c' h h'
      · exact (hr.none c h).elim
    · rcases hc id c' h' with h' | ⟨-, rfl⟩
      · exact (hr.none c' h').elim
      · rfl
  settled id d hd ho c h := by
    rw [hdb] at hd
    rcases hc id c h with h | ⟨rfl, -⟩
    · exact hS.settled id d hd ho c h
    · exact ho (hr.owed d hd)
  unsent d hd c h := by
    have hd : s.Publishing d := by
      unfold Publishing at hd
      rwa [hrel] at hd
    rcases hc d.id c h with h | ⟨hid, -⟩
    · exact hS.unsent d hd c h
    · exact hr.closed d hd hid

/-- Another delivery keeps its place when one gets a carrier. -/
theorem Ready.add (hr : Ready s id) (hne : id ≠ x)
    (hc : ∀ id c, t.CarriedBy id c → s.CarriedBy id c ∨ id = x ∧ c = c₀)
    (hdb : t.db.deliveries = s.db.deliveries) (hrel : t.relays = s.relays) : Ready t id where
  none c h := by
    rcases hc id c h with h | ⟨rfl, -⟩
    · exact hr.none c h
    · exact hne rfl
  owed d hd := hr.owed d (hdb ▸ hd)
  closed d hd := by
    unfold Publishing at hd
    rw [hrel] at hd
    exact hr.closed d hd

theorem CarriedBy.of_enqueue {corr : Option PyText} (h : (s.enqueue x corr).CarriedBy id c) :
    s.CarriedBy id c ∨ id = x ∧ c = .entry s.stream.entries.length := by
  cases c with
  | member m => exact .inl h
  | entry i =>
    obtain ⟨⟨m, hm, rfl⟩, hu, hs⟩ := h
    have hm : (s.stream.entries ++ [⟨x, corr⟩])[i]? = some m := hm
    rcases Nat.lt_or_ge i s.stream.entries.length with hi | hi
    · rw [List.getElem?_append_left hi] at hm
      exact .inl ⟨⟨m, hm, rfl⟩, ⟨hi, hu.2⟩, hs⟩
    · have hlt : i < (s.enqueue x corr).stream.entries.length := hu.1
      have hlen : (s.enqueue x corr).stream.entries.length = s.stream.entries.length + 1 := by
        simp [enqueue, DeliveryStream.enqueueDelivery]
      obtain rfl : i = s.stream.entries.length := by omega
      rw [List.getElem?_concat_length] at hm
      obtain rfl := Option.some.inj hm
      exact .inr ⟨rfl, rfl⟩

theorem Single.enqueue (hS : Single s) (hr : Ready s x) (corr : Option PyText) :
    Single (s.enqueue x corr) :=
  hS.add hr (fun _ _ => CarriedBy.of_enqueue) rfl rfl

/-- Distinct deliveries, each of them ready, are all sent. -/
theorem Single.enqueueAll {due : List PoppedRetry} (hS : Single s)
    (hr : ∀ p ∈ due, Ready s p.retry.deliveryId)
    (hnd : (due.map (·.retry.deliveryId)).Nodup) :
    Single (due.foldl (fun s p => s.enqueue p.retry.deliveryId p.retry.correlationId) s) := by
  induction due generalizing s with
  | nil => exact hS
  | cons p due ih =>
    obtain ⟨hp, hnd⟩ := List.nodup_cons.mp hnd
    rw [List.forall_mem_cons] at hr
    refine ih (hS.enqueue hr.1 _) (fun q hq => ?_) hnd
    have hne : q.retry.deliveryId ≠ p.retry.deliveryId := by
      intro heq
      exact hp (List.mem_map.mpr ⟨q, hq, heq⟩)
    exact (hr.2 q hq).add hne (fun _ _ => CarriedBy.of_enqueue) rfl rfl

theorem OffStream.single (ho : OffStream s t) (hP : InsertedPending s) (hN : Named s)
    (hS : Single s) : Single t := by
  have hc : ∀ id c, t.CarriedBy id c → s.CarriedBy id c := fun _ _ =>
    (carriedBy_congr ho.stream ho.zset ho.handlers).mp
  refine hS.keep hc (fun id d hd hset => ?_) fun d hd => ?_
  · rcases ho.rows id d hd with hd | ⟨r, hd⟩
    · exact .inl ⟨d, hd, hset⟩
    · exact (hset (.inl (hP r d hd))).elim
  · refine (ho.publishing d hd).imp_right fun hfresh c hcar => ?_
    obtain ⟨corr, ht⟩ := (hc _ c hcar).tagged
    exact hfresh (hN _ corr ht)

/-- What the runs keep in which whoever stops leaves an entry to work on. -/
structure Sole (s : Pipeline) : Prop where
  carrier : Inv s []
  named : Named s
  handedOut : HandedOut s
  fresh : InsertedPending s
  single : Single s

theorem Sole.publish (hs : Sole s) {r : ℕ} (h : s.publish r = some t) : Single t := by
  unfold Pipeline.publish at h
  split at h
  next j claimed queue o ev targets d created hr =>
    obtain rfl := Option.some.inj h
    have hmem := Table.mem_of_get hr
    have ho := offStream_published hr
    have hd : s.Publishing d := ⟨_, hmem, o, ev, targets, rfl⟩
    have hins : s.Inserted j d := ⟨_, hmem, rfl, List.mem_append_right _ List.mem_cons_self⟩
    refine (ho.single hs.fresh hs.named hs.single).enqueue ⟨fun c hc => ?_, fun d' hd' => ?_,
      fun d' hd' heq => ?_⟩ _
    · exact hs.single.unsent d hd c ((carriedBy_congr rfl rfl rfl).mp hc)
    · have hnone := (hs.carrier.inserted j d hins).2.2
      have hd' : s.db.deliveries.get d.id = some d' := hd'
      rw [hnone] at hd'
      cases hd'
    · obtain ⟨tx, htx, o', ev', targets', hpoint⟩ := hd'
      rcases Table.mem_update htx with rfl | ⟨htx, hne⟩
      · cases hpoint
      · have hins' : s.Inserted tx.id d' := ⟨tx, htx, rfl, by simp [RelayTx.inserted, hpoint]⟩
        exact hne (hs.carrier.apart _ _ d' d hins' hins heq)
  next => cases h

/-- Entries that nobody has in hand are handed to a worker. -/
theorem Single.handOut (hS : Single s) {stream : DeliveryStream} {taken : List ℕ} {h₀ : Handler}
    (hentries : stream.entries = s.stream.entries)
    (hun : ∀ i, stream.Unacked i ↔ s.stream.Unacked i)
    (hfree : ∀ i ∈ taken, s.handlers i = none) :
    Single { s with stream, handlers := fun i => if i ∈ taken then some h₀ else s.handlers i } := by
  refine hS.keep (fun id c hc => ?_) (fun id d hd ho => .inl ⟨d, hd, ho⟩) fun d hd => .inl hd
  cases c with
  | member m => exact hc
  | entry i =>
    obtain ⟨hm, hu, hsafe⟩ := hc
    dsimp only at hm hsafe
    rw [hentries] at hm
    refine ⟨hm, (hun i).mp hu, fun h hh => ?_⟩
    by_cases hi : i ∈ taken
    · rw [hfree i hi] at hh
      cases hh
    · exact hsafe h (by rwa [if_neg hi])

theorem Sole.read (hs : Sole s) (worker count : ℕ) : Single (s.read worker count) := by
  refine hs.single.handOut rfl (fun _ => ConsumerGroup.unacked_xreadgroup) fun i hi => ?_
  cases hh : s.handlers i with
  | none => rfl
  | some h =>
    have hlt := hs.handedOut i h hh
    have hge := (ConsumerGroup.mem_unread.mp hi).1
    omega

theorem Sole.autoclaim (hs : Sole s) (worker : ℕ) (idle : List ℕ) (count : ℕ) :
    Single (s.autoclaim worker idle count) := by
  refine hs.single.handOut rfl (fun _ => ConsumerGroup.unacked_xautoclaim) fun i hi => ?_
  have hstale := (List.mem_filter.mp (List.mem_of_mem_take hi)).2
  simp only [Bool.and_eq_true, Option.isNone_iff_eq_none] at hstale
  exact hstale.2.2

/-- A handler that is still safe moves on, whatever becomes of its entry. -/
theorem Single.setHandler (hS : Single s) {i : ℕ}
    (hsafe : ∀ h, s.handlers i = some h → h.Safe) (h' : Option Handler) :
    Single (s.setHandler i h') :=
  hS.keep (fun _ _ hc => hc.of_setHandler hsafe) (fun _ d hd ho => .inl ⟨d, hd, ho⟩)
    fun _ hd => .inl hd

theorem Single.setHandler_of (hS : Single s) {i : ℕ} {h : Handler} (hh : s.handlers i = some h)
    (hsafe : h.Safe) (h' : Option Handler) : Single (s.setHandler i h') :=
  hS.setHandler (fun k hk => by rwa [← Option.some.inj (hh.symm.trans hk)]) h'

theorem Sole.beginAttempt (hs : Sole s) {i : ℕ} (h : s.beginAttempt i = some t) : Single t := by
  unfold Pipeline.beginAttempt at h
  split at h
  next w kind m hh hm =>
    split at h
    next => cases h
    next =>
      split at h
      next =>
        obtain rfl := Option.some.inj h
        exact hs.single.setHandler_of hh trivial _
      next =>
        obtain rfl := Option.some.inj h
        exact hs.single.setHandler_of hh trivial _
  next => cases h

/-- The entry of an open attempt carries the delivery. -/
theorem carriedBy_attempting (hI : Inv s []) {i w : ℕ} {kind : WorkerKind} {d : Delivery}
    {ev : Event} {e : Endpoint} (hh : s.handlers i = some ⟨w, kind, .attempting d ev e⟩) :
    s.CarriedBy d.id (.entry i) := by
  obtain ⟨⟨m, hm, hid, -⟩, hu⟩ := hI.handlers i _ hh
  refine ⟨⟨m, hm, hid.symm⟩, hu, fun h heq => ?_⟩
  obtain rfl := Option.some.inj (hh.symm.trans heq)
  trivial

/-- The entry in hand is the only carrier of its delivery, and it is none once the delivery has
come to its end. -/
theorem Sole.commitAttempt (hs : Sole s) {i : ℕ} {env : AttemptEnv}
    {send : OutboundRequest → OutboundHttpResult} (h : s.commitAttempt i env send = some t) :
    Single t := by
  unfold Pipeline.commitAttempt at h
  split at h
  next w kind d ev e hh =>
    have hentry := carriedBy_attempting hs.carrier hh
    have hsafe : ∀ h, s.handlers i = some h → h.Safe := hentry.2.2
    split at h
    next db row hfin =>
      obtain rfl := Option.some.inj h
      have hfin := finishAttempt_ok hfin
      obtain ⟨write, d₀, hw, hd₀, hrow⟩ := hfin.written
      have hrowid : row.id = d.id := by
        have hd₀id : d₀.id = d.id := Table.key_of_get hd₀
        rw [hrow, DeliveryWrite.apply_id, hd₀id]
      let t : Pipeline := { s.setHandler i (some ⟨w, kind, .attempted row⟩) with db := db }
      have hc : ∀ id c, t.CarriedBy id c → s.CarriedBy id c := fun id c hc =>
        ((carriedBy_congr rfl rfl rfl).mp hc).of_setHandler hsafe
      refine hs.single.keep hc (fun id d' hd' ho => ?_) fun d hd => .inl hd
      have hd' : db.deliveries.get id = some d' := hd'
      rw [hfin.deliveries] at hd'
      by_cases hx : id = row.id
      · right
        intro c hcar
        subst hx
        have hself : (s.db.deliveries.update row).get row.id = some row :=
          Table.get_update_of_get rfl (hrowid ▸ hd₀)
        obtain rfl := Option.some.inj (hself.symm.trans hd')
        have hcs := hc _ c hcar
        rw [hrowid] at hcs
        obtain rfl := hs.single.one _ c _ hcs hentry
        obtain ⟨-, -, hneeds⟩ := hcar
        have hneeds := hneeds ⟨w, kind, .attempted row⟩ (setHandler_self ..)
        exact ho (.inr hneeds.1)
      · rw [Table.get_update_ne _ hx] at hd'
        exact .inl ⟨d', hd', ho⟩
    next =>
      obtain rfl := Option.some.inj h
      exact hs.single.setHandler hsafe _
  next => cases h

/-- The retry takes the place of the entry. -/
theorem Sole.scheduleRetry (hs : Sole s) {i : ℕ} (h : s.scheduleRetry i = some t) :
    Single t := by
  unfold Pipeline.scheduleRetry at h
  split at h
  next w kind row m hh hm =>
    obtain ⟨⟨m', hm', hid⟩, hu⟩ := hs.carrier.handlers i _ hh
    obtain rfl : m = m' := Option.some.inj (hm.symm.trans hm')
    dsimp only at h
    split at h
    next u hstate hnext =>
      obtain rfl := Option.some.inj h
      have hneeds : Handler.Safe ⟨w, kind, .attempted row⟩ := ⟨hstate, by rw [hnext]; rfl⟩
      have hsafe : ∀ h, s.handlers i = some h → h.Safe := by
        intro h heq
        rwa [← Option.some.inj (hh.symm.trans heq)]
      have hentry : s.CarriedBy row.id (.entry i) := ⟨⟨m, hm, hid.symm⟩, hu, hsafe⟩
      have hready : Ready (s.setHandler i (some ⟨w, kind, .acking⟩)) row.id := by
        refine ⟨fun c hc => ?_, fun d hd => ?_, fun d hd heq => ?_⟩
        · obtain rfl := hs.single.one _ c _ (hc.of_setHandler hsafe) hentry
          exact hc.2.2 _ (setHandler_self ..)
        · by_contra ho
          exact hs.single.settled _ d hd ho _ hentry
        · exact hs.single.unsent d hd _ (heq ▸ hentry)
      have hnew : ∀ id c, CarriedBy { s.setHandler i (some ⟨w, kind, .acking⟩) with
          zset := s.zset.scheduleRetry row.id u m.correlationId } id c →
          (s.setHandler i (some ⟨w, kind, .acking⟩)).CarriedBy id c ∨
            id = row.id ∧ c = .member (.envelope row.id m.correlationId) := by
        intro id c hc
        cases c with
        | entry j => exact .inl hc
        | member k =>
          obtain ⟨⟨x, hx, rfl⟩, r, hr, rfl⟩ := hc
          rcases SortedSet.mem_zadd hx with rfl | hx
          · cases hr
            exact .inr ⟨rfl, rfl⟩
          · exact .inl ⟨⟨x, hx, rfl⟩, r, hr, rfl⟩
      exact (hs.single.setHandler hsafe _).add hready hnew rfl rfl
    next hno =>
      obtain rfl := Option.some.inj h
      refine hs.single.keep (fun id c hc => ?_) (fun id d hd ho => .inl ⟨d, hd, ho⟩)
        fun d hd => .inl hd
      cases c with
      | member k => exact hc
      | entry j =>
        obtain ⟨hm, hu, hsafe⟩ := hc
        have hj : j ≠ i := by
          rintro rfl
          exact hsafe _ (setHandler_self ..)
        exact ⟨hm, hu, fun h hh => hsafe h (by rwa [setHandler_ne _ _ hj])⟩
  next => cases h

theorem Sole.ack (hs : Sole s) {i : ℕ} (h : s.ack i = some t) : Single t := by
  unfold Pipeline.ack at h
  split at h
  next w kind hh =>
    obtain rfl := Option.some.inj h
    refine hs.single.keep (fun id c hc => ?_) (fun id d hd ho => .inl ⟨d, hd, ho⟩)
      fun d hd => .inl hd
    cases c with
    | member k => exact hc
    | entry j =>
      obtain ⟨hm, hu, hsafe⟩ := hc
      obtain ⟨-, hui⟩ := hs.carrier.handlers i _ hh
      have hlt := hs.handedOut i _ hh
      have hj : j ≠ i := by
        rintro rfl
        have hpend := hu.2 hlt
        simp [ConsumerGroup.xack] at hpend
      refine ⟨hm, (ConsumerGroup.unacked_xack_ne hj).mp hu, fun h hh => hsafe h ?_⟩
      exact (setHandler_ne _ _ hj).trans hh
  next => cases h

theorem Sole.crash (hs : Sole s) {worker : ℕ} (hp : Prompt s (.crash worker)) :
    Single (s.crash worker) := by
  refine hs.single.keep (fun id c hc => ?_) (fun id d hd ho => .inl ⟨d, hd, ho⟩)
    fun d hd => .inl hd
  cases c with
  | member k => exact hc
  | entry j =>
    obtain ⟨hm, hu, hsafe⟩ := hc
    refine ⟨hm, hu, fun h hh => ?_⟩
    by_cases hw : h.worker = worker
    · exact hp j h hh hw
    · refine hsafe h (Option.filter_eq_some_iff.mpr ⟨hh, decide_eq_true hw⟩)

/-- Each due member is the only carrier of its delivery, and its message takes its place. -/
theorem Sole.tick (hs : Sole s) (now : ℤ) (limit : ℕ) : Single (s.tick le now limit) := by
  obtain ⟨due, hdue⟩ : ∃ due, parseMembers (SortedSet.popDue le s.zset now limit).1 = some due :=
    Option.isSome_iff_exists.mp (parseMembers_isSome.mpr fun x hx =>
      hs.carrier.members x (SortedSet.rangeByScore_subset hx).1)
  have htick : s.tick le now limit =
      due.foldl (fun s p => s.enqueue p.retry.deliveryId p.retry.correlationId)
        { s with zset := (SortedSet.popDue le s.zset now limit).2 } := by
    simp only [Pipeline.tick, RetryZset.popDueRetries, hdue]
  have hpopped : ∀ p ∈ due, p.scored ∈ (SortedSet.popDue le s.zset now limit).1 := by
    intro p hp
    rw [← parseMembers_scored hdue]
    exact List.mem_map_of_mem hp
  have hmember : ∀ p ∈ due, s.CarriedBy p.retry.deliveryId (.member p.scored.member) :=
    fun p hp => ⟨⟨p.scored, (SortedSet.rangeByScore_subset (hpopped p hp)).1, rfl⟩,
      p.retry, p.parsed, rfl⟩
  have hleft : ∀ id c, CarriedBy { s with zset := (SortedSet.popDue le s.zset now limit).2 } id c →
      s.CarriedBy id c := by
    intro id c hc
    cases c with
    | entry j => exact hc
    | member m =>
      obtain ⟨⟨x, hx, hm⟩, hr⟩ := hc
      exact ⟨⟨x, (List.mem_filter.mp hx).1, hm⟩, hr⟩
  rw [htick]
  refine Single.enqueueAll (hs.single.keep hleft (fun id d hd ho => .inl ⟨d, hd, ho⟩)
    fun d hd => .inl hd) (fun p hp => ⟨fun c hc => ?_, fun d hd => ?_, fun d hd heq => ?_⟩) ?_
  · obtain rfl := hs.single.one _ c _ (hleft _ c hc) (hmember p hp)
    obtain ⟨⟨x, hx, hm⟩, -⟩ := hc
    obtain ⟨hx, hkept⟩ := List.mem_filter.mp hx
    have hsame : x = p.scored :=
      s.zset.key_inj hx (SortedSet.rangeByScore_subset (hpopped p hp)).1 hm
    simp only [hsame, Bool.not_eq_eq_eq_not, Bool.not_true, decide_eq_false_iff_not] at hkept
    exact hkept (hpopped p hp)
  · by_contra ho
    exact hs.single.settled _ d hd ho _ (hmember p hp)
  · exact hs.single.unsent d hd _ (heq ▸ hmember p hp)
  · have hnd : (due.map PoppedRetry.scored).Nodup := by
      rw [parseMembers_scored hdue]
      exact SortedSet.rangeByScore_nodup ..
    refine List.Nodup.map_on (fun p hp q hq heq => ?_) hnd.of_map
    have hone := hs.single.one _ _ _ (hmember p hp) (heq ▸ hmember q hq)
    have hscored : p.scored = q.scored :=
      s.zset.key_inj (SortedSet.rangeByScore_subset (hpopped p hp)).1
        (SortedSet.rangeByScore_subset (hpopped q hq)).1 (Carrier.member.inj hone)
    exact List.inj_on_of_nodup_map hnd hp hq hscored

/-- A dead delivery has no carrier, and gets one. -/
theorem Sole.replay (hs : Sole s) {tenantId : UUID} (h : s.replay id tenantId = some t) :
    Single t := by
  unfold Pipeline.replay at h
  split at h
  next db row hrep =>
    obtain ⟨d, ev, hd, hdead, -, -, hrow, rfl⟩ := ReplayService.replay_ok hrep
    obtain rfl := Option.some.inj h
    have hdid : d.id = id := Table.key_of_get hd
    have hid : row.id = id := by rw [hrow, DeliveryWrite.apply_id, hdid]
    have hself : (s.db.deliveries.update row).get row.id = some row :=
      Table.get_update_of_get rfl (hid.symm ▸ hd)
    have hnone : ∀ c, ¬s.CarriedBy row.id c := by
      refine hs.single.settled _ d (hid.symm ▸ hd) ?_
      rw [hdead]
      rintro (ho | ho) <;> cases ho
    have hkeep :
        Single { s with db := { s.db with deliveries := s.db.deliveries.update row } } := by
      refine hs.single.keep (fun id c hc => (carriedBy_congr rfl rfl rfl).mp hc)
        (fun k d' hd' ho => ?_) fun d hd => .inl hd
      have hd' : (s.db.deliveries.update row).get k = some d' := hd'
      by_cases hk : k = row.id
      · subst hk
        exact .inr fun c hc => hnone c ((carriedBy_congr rfl rfl rfl).mp hc)
      · rw [Table.get_update_ne _ hk] at hd'
        exact .inl ⟨d', hd', ho⟩
    refine hkeep.enqueue ⟨fun c hc => ?_, fun d' hd' => ?_, fun d' hd' heq => ?_⟩ none
    · exact hnone c ((carriedBy_congr rfl rfl rfl).mp hc)
    · obtain rfl := Option.some.inj (hself.symm.trans hd')
      rw [hrow]
      exact .inl rfl
    · obtain ⟨r, hi⟩ := inserted_of_publishing hd'
      have hfresh := (hs.carrier.inserted r d' hi).2.2
      rw [heq, hid, hd] at hfresh
      cases hfresh
  next => cases h

theorem not_carriedBy_init (h : Init s) {c : Carrier} : ¬s.CarriedBy id c := by
  obtain ⟨-, hstream, hz, -⟩ := h
  intro hc
  obtain ⟨corr, hm | ⟨x, hx, -⟩⟩ := hc.tagged
  · rw [hstream] at hm
    cases hm
  · rw [hz] at hx
    cases hx

theorem sole_init (h : Init s) : Sole s := by
  refine ⟨inv_init h, named_init h, fun i k hi => ?_, fun r d hi => ?_,
    fun id c c' hc => (not_carriedBy_init h hc).elim, fun _ _ _ _ _ => not_carriedBy_init h,
    fun _ _ _ => not_carriedBy_init h⟩
  · rw [h.2.2.2.2] at hi
    cases hi
  · obtain ⟨tx, htx, -⟩ := hi
    rw [h.2.2.2.1] at htx
    cases htx

theorem Sole.step (hs : Sole s) (hp : Prompt s a) (h : s.step le a = some t) : Sole t := by
  refine ⟨hs.carrier.step h, named_step hs.carrier hs.named h, handedOut_step hs.handedOut h,
    insertedPending_step hs.fresh h, ?_⟩
  by_cases hoff : offStream a = true
  · exact (offStream_step h hoff).single hs.fresh hs.named hs.single
  cases a with
  | publish => exact hs.publish h
  | read worker count => exact Option.some.inj h ▸ hs.read worker count
  | autoclaim worker idle count => exact Option.some.inj h ▸ hs.autoclaim worker idle count
  | beginAttempt => exact hs.beginAttempt h
  | commitAttempt => exact hs.commitAttempt h
  | scheduleRetry => exact hs.scheduleRetry h
  | ack => exact hs.ack h
  | fail => exact Option.some.inj h ▸ hs.single.setHandler hp none
  | crash => exact Option.some.inj h ▸ hs.crash hp
  | tick now limit => exact Option.some.inj h ▸ hs.tick now limit
  | replay => exact hs.replay h
  | _ => exact absurd rfl hoff

theorem sole_run {as : List PipelineAction} (hs : Init s)
    (hp : Transition.Always (step le) (fun s a _ => Prompt s a) s as)
    (h : Transition.run (step le) s as = some t) : Sole t :=
  hp.invariant (fun _ _ _ hs hp h => hs.step hp h) (sole_init hs) h

/-- In every run in which no worker stops between the end of its work on a delivery and the XACK, no
tick or replay is interrupted, and the reaper claims only what nobody has in hand and examines
nothing whose fan-out is open, an owed delivery has exactly one carrier in every state reached, and
a settled delivery has none. An entry of which only the XACK is left carries nothing. -/
theorem exactly_one_carrier (le : RetryMember → RetryMember → Bool) (s t : Pipeline)
    (as : List PipelineAction) (hs : Init s)
    (hp : Transition.Always (step le) (fun s a _ => Prompt s a) s as)
    (h : Transition.run (step le) s as = some t) (id : UUID) (d : Delivery)
    (hd : t.db.deliveries.get id = some d) :
    (d.state.Owed → ∃! c, t.CarriedBy id c) ∧ (¬d.state.Owed → ∀ c, ¬t.CarriedBy id c) := by
  have hsole := sole_run hs hp h
  refine ⟨fun ho => ?_, hsole.single.settled id d hd⟩
  rcases hsole.carrier.carried id (.inl ⟨d, hd, ho⟩) with hc | hp
  · obtain ⟨c, hc⟩ := carried_iff.mp hc
    exact ⟨c, hc, fun c' hc' => hsole.single.one id c' c hc' hc⟩
  · cases hp

theorem prompt_sampleRun (s : Pipeline) :
    Transition.Always (step fun _ _ => true) (fun s a _ => Prompt s a) s sampleRun := by
  have hall : ∀ a ∈ sampleRun, ∀ s, Prompt s a := by
    intro a ha s
    simp only [sampleRun, List.mem_cons, List.not_mem_nil, or_false] at ha
    rcases ha with rfl | rfl | rfl | rfl | rfl | rfl | rfl | rfl | rfl | rfl | rfl <;> trivial
  exact (Transition.always_of_mem hall).mono fun s a _ h => h s

theorem exactly_one_carrier_sample :
    ∃ t, Transition.run (step fun _ _ => true) samplePipeline sampleRun = some t ∧
      ∃! c, t.CarriedBy 3 c := by
  obtain ⟨t, ht⟩ : ∃ t, Transition.run (step fun _ _ => true) samplePipeline sampleRun = some t :=
    ⟨_, rfl⟩
  have hget : (Transition.run (step fun _ _ => true) samplePipeline sampleRun).map
      (fun t => (t.db.deliveries.get 3).map (·.state)) = some (some .retrying) := rfl
  rw [ht] at hget
  obtain ⟨d, hd, hs⟩ := Option.map_eq_some_iff.mp (Option.some.inj hget)
  exact ⟨t, ht, (exactly_one_carrier (fun _ _ => true) samplePipeline t sampleRun
    ⟨rfl, rfl, rfl, rfl, rfl⟩ (prompt_sampleRun _) ht 3 d hd).1 (.inr hs)⟩

end Pipeline
end RelayWebhooks
