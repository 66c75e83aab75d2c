import RelayWebhooks.Pipeline.Single

/-! The delivery ledger under concurrency: while an attempt is open nobody else writes its
delivery, so the row of each delivery agrees with its attempt rows in every interleaving of the
workers, the relays, the replays and the endpoint writers. -/
namespace RelayWebhooks

namespace DeliveryAttemptService

/-- What a committed second half of an attempt writes, over rows that may be stale. -/
theorem finishAttempt_cases {env : AttemptEnv} {send : OutboundRequest → OutboundHttpResult}
    {db db' : Db} {d row : Delivery} {ev : Event} {e : Endpoint}
    (h : finishAttempt env send db d ev e = .ok (db', row)) :
    ∃ d₀, db.deliveries.get d.id = some d₀ ∧
      ((∃ u, row = DeliveryWrite.apply (.reschedule u) d₀ ∧
          db'.deliveryAttempts = db.deliveryAttempts) ∨
        ∃ result w a, deliveryOutcome env.settings env.now env.draw d.attemptCount result = .ok w ∧
          row = w.apply d₀ ∧ db'.deliveryAttempts.rows = db.deliveryAttempts.rows ++ [a] ∧
          a.deliveryId = d.id ∧ a.attemptNo = d.attemptCount + 1 ∧
          a.succeeded = result.succeeded) := by
  unfold finishAttempt at h
  split at h
  next u _ =>
    obtain ⟨d₀, hd, hrow, rfl⟩ := Db.writeDelivery_ok h
    exact ⟨d₀, hd, .inl ⟨u, hrow, rfl⟩⟩
  next =>
    obtain ⟨⟨db₁, e₁⟩, hflip, h⟩ := bind_ok h
    obtain ⟨request, -, h⟩ := bind_ok h
    obtain ⟨⟨db₂, e₂⟩, hrec, h⟩ := bind_ok h
    obtain ⟨⟨db₃, a⟩, hlog, h⟩ := bind_ok h
    obtain ⟨w, hw, h⟩ := bind_ok h
    obtain ⟨endpoints, rfl, -, -⟩ := flipIfOpen_cases hflip
    obtain ⟨e₀, -, rfl⟩ := Db.writeEndpoint_ok hrec
    obtain ⟨hstatus, hclass⟩ := Db.createDeliveryAttempt_result hlog
    obtain ⟨log, hins, rfl, hid, hno⟩ := Db.createDeliveryAttempt_ok hlog
    obtain ⟨d₀, hd, hrow, rfl⟩ := Db.writeDelivery_ok h
    refine ⟨d₀, hd, .inr ⟨send request, w, a, hw, hrow, (Table.insert_eq_some.mp hins).2, hid, hno,
      ?_⟩⟩
    rw [DeliveryAttempt.succeeded, hstatus, hclass]
    rfl

end DeliveryAttemptService

namespace Pipeline
open DeliveryAttemptService DeliveryLedger

variable {le : RetryMember → RetryMember → Bool} {s t : Pipeline} {a : PipelineAction}
  {maxAttempts : ℕ}

/-- The row an open attempt has read is the stored one, unless it was deleted. -/
def RowsRead (s : Pipeline) : Prop :=
  ∀ i w kind d ev e, s.handlers i = some ⟨w, kind, .attempting d ev e⟩ →
    ∀ c, s.db.deliveries.get d.id = some c → c = d

/-- Every attempt is made under the same limit. -/
def Limited (maxAttempts : ℕ) : PipelineAction → Prop
  | .commitAttempt _ env _ => env.settings.deliveryMaxAttempts = maxAttempts
  | _ => True

/-- The last attempt rows of each delivery are its chain. -/
structure Chains (maxAttempts : ℕ) (s : Pipeline) : Prop where
  rows : ∀ d ∈ s.db.deliveries.rows, ∃ past chain,
    s.db.attemptsOf d.id = past ++ chain ∧ ChainOk maxAttempts d chain
  inserted : ∀ r d, s.Inserted r d → ChainOk maxAttempts d []

/-- Open attempts go on, and the rows they have read stay as they are. -/
theorem RowsRead.mono (hR : RowsRead s)
    (hh : ∀ i w kind d ev e, t.handlers i = some ⟨w, kind, .attempting d ev e⟩ →
      s.handlers i = some ⟨w, kind, .attempting d ev e⟩ ∧
        ∀ c, t.db.deliveries.get d.id = some c → s.db.deliveries.get d.id = some c) :
    RowsRead t := by
  intro i w kind d ev e hi c hc
  obtain ⟨hi, hrow⟩ := hh i w kind d ev e hi
  exact hR i w kind d ev e hi c (hrow c hc)

theorem RowsRead.setHandler (hR : RowsRead s) {i : ℕ} {h' : Option Handler}
    (hnew : ∀ w kind d ev e, h' = some ⟨w, kind, .attempting d ev e⟩ →
      ∀ c, s.db.deliveries.get d.id = some c → c = d) : RowsRead (s.setHandler i h') := by
  intro j w kind d ev e hj c hc
  by_cases hji : j = i
  · subst hji
    rw [setHandler_self] at hj
    exact hnew w kind d ev e hj c hc
  · rw [setHandler_ne _ _ hji] at hj
    exact hR j w kind d ev e hj c hc

/-- What an exception leaves of a handler is no open attempt. -/
theorem afterError_ne_attempting (h : Handler) (err : Raised) {w : ℕ} {kind : WorkerKind}
    {d : Delivery} {ev : Event} {e : Endpoint} :
    afterError h err ≠ some ⟨w, kind, .attempting d ev e⟩ := by
  unfold afterError
  split
  next =>
    intro heq
    cases congrArg Handler.phase (Option.some.inj heq)
  next => exact nofun

theorem OffStream.rowsRead (ho : OffStream s t) (hI : Inv s []) (hR : RowsRead s) :
    RowsRead t := by
  refine hR.mono fun i w kind d ev e hi => ?_
  rw [ho.handlers] at hi
  refine ⟨hi, fun c hc => ?_⟩
  rcases ho.rows _ c hc with hc | ⟨r, hins⟩
  · exact hc
  · obtain ⟨⟨m, -, -, -, -, -, hfresh⟩, -⟩ := hI.handlers i _ hi
    exact (hfresh r c hins (Table.key_of_get hc)).elim

/-- The rewritten row belongs to no other open attempt. -/
theorem RowsRead.rewrite (hR : RowsRead s) {row : Delivery}
    (hdel : t.db.deliveries = s.db.deliveries.update row)
    (hh : ∀ i w kind d ev e, t.handlers i = some ⟨w, kind, .attempting d ev e⟩ →
      s.handlers i = some ⟨w, kind, .attempting d ev e⟩ ∧ d.id ≠ row.id) : RowsRead t := by
  refine hR.mono fun i w kind d ev e hi => ?_
  obtain ⟨hi, hne⟩ := hh i w kind d ev e hi
  refine ⟨hi, fun c hc => ?_⟩
  rwa [hdel, Table.get_update_ne _ hne] at hc

theorem Chains.frame (hC : Chains maxAttempts s) (hdel : t.db.deliveries = s.db.deliveries)
    (hlog : t.db.deliveryAttempts = s.db.deliveryAttempts) (hrel : t.relays = s.relays) :
    Chains maxAttempts t where
  rows d hd := by
    obtain ⟨past, chain, hchain, hok⟩ := hC.rows d (hdel ▸ hd)
    refine ⟨past, chain, ?_, hok⟩
    rw [← hchain, Db.attemptsOf, hlog]
    rfl
  inserted r d hd := by
    unfold Inserted at hd
    rw [hrel] at hd
    exact hC.inserted r d hd

/-- A row that appears begins its chain. -/
theorem OffStream.chains (ho : OffStream s t) (hC : Chains maxAttempts s) :
    Chains maxAttempts t where
  rows d hd := by
    rw [ho.log d hd]
    rcases ho.rows d.id d (Table.get_of_mem hd) with hget | ⟨r, hins⟩
    · exact hC.rows d (Table.mem_of_get hget)
    · exact ⟨s.db.attemptsOf d.id, [], (List.append_nil _).symm, hC.inserted r d hins⟩
  inserted r d hd := by
    rcases ho.inserted r d hd with ⟨r', hins⟩ | ⟨id, eventId, endpointId, createdAt, -, rfl⟩
    · exact hC.inserted r' d hins
    · exact chainOk_fresh id eventId endpointId createdAt

/-- One row is rewritten, and its chain extended or begun anew; the other chains stay. -/
theorem Chains.rewrite (hC : Chains maxAttempts s) {row : Delivery}
    (hdel : t.db.deliveries = s.db.deliveries.update row) (hrel : t.relays = s.relays)
    (hother : ∀ k, k ≠ row.id → t.db.attemptsOf k = s.db.attemptsOf k)
    (hself : ∃ past chain, t.db.attemptsOf row.id = past ++ chain ∧
      ChainOk maxAttempts row chain) : Chains maxAttempts t where
  rows d hd := by
    rw [hdel] at hd
    rcases Table.mem_update hd with rfl | ⟨hd, hne⟩
    · exact hself
    · rw [hother d.id hne]
      exact hC.rows d hd
  inserted r d hd := by
    unfold Inserted at hd
    rw [hrel] at hd
    exact hC.inserted r d hd

/-- The outcome is computed from the row that it overwrites. -/
theorem Chains.commitAttempt (hC : Chains maxAttempts s) (hR : RowsRead s) {i : ℕ}
    {env : AttemptEnv} {send : OutboundRequest → OutboundHttpResult}
    (hmax : env.settings.deliveryMaxAttempts = maxAttempts)
    (h : s.commitAttempt i env send = some t) : Chains maxAttempts t := by
  subst hmax
  unfold Pipeline.commitAttempt at h
  split at h
  next w kind d ev e hh =>
    split at h
    next db row hfin =>
      obtain rfl := Option.some.inj h
      obtain ⟨d₀, hd₀, hcases⟩ := finishAttempt_cases hfin
      have hdel := (finishAttempt_ok hfin).deliveries
      obtain rfl : d₀ = d := hR i w kind d ev e hh d₀ hd₀
      obtain ⟨past, chain, hchain, hok⟩ := hC.rows d₀ (Table.mem_of_get hd₀)
      rcases hcases with ⟨u, rfl, hlog⟩ | ⟨result, write, a, hw, rfl, hlog, hown, hno, hs⟩
      · have hsame : ∀ k, db.attemptsOf k = s.db.attemptsOf k := fun k => by
          rw [Db.attemptsOf, hlog]
          rfl
        exact hC.rewrite hdel rfl (fun k _ => hsame k)
          ⟨past, chain, (hsame _).trans hchain, hok.reschedule u⟩
      · have hid : (write.apply d₀).id = d₀.id := DeliveryWrite.apply_id write d₀
        refine hC.rewrite hdel rfl (fun k hk => ?_) ⟨past, chain ++ [a], ?_, hok.record hw hno hs⟩
        · have hne : ¬a.deliveryId = k := fun heq => hk (heq.symm.trans (hown.trans hid.symm))
          show db.attemptsOf k = s.db.attemptsOf k
          rw [attemptsOf_append hlog, if_neg hne, List.append_nil]
        · show db.attemptsOf _ = _
          rw [hid, attemptsOf_append hlog, if_pos hown, hchain, List.append_assoc]
    next =>
      obtain rfl := Option.some.inj h
      exact hC.frame rfl rfl rfl
  next => cases h

theorem Chains.replay (hC : Chains maxAttempts s) {id tenantId : UUID}
    (h : s.replay id tenantId = some t) : Chains maxAttempts t := by
  obtain ⟨d, ev, row, hd, -, hrow, hid, rfl⟩ := replay_some h
  refine @Chains.rewrite _ _ _ hC row rfl rfl (fun _ _ => rfl) ⟨s.db.attemptsOf row.id, [], ?_, ?_⟩
  · exact (List.append_nil _).symm
  · rw [hrow]
    exact chainOk_replay d

/-- What holds in every state while whoever stops leaves an entry to work on. -/
structure Serial (maxAttempts : ℕ) (s : Pipeline) : Prop where
  sole : Sole s
  read : RowsRead s
  chains : Chains maxAttempts s

theorem serial_init (h : Init s) : Serial maxAttempts s := by
  have hs := sole_init h
  obtain ⟨hd, -, -, hr, hh⟩ := h
  refine ⟨hs, fun i w kind d ev e hi => ?_, fun d hmem => ?_, fun r d hi => ?_⟩
  · rw [hh] at hi
    cases hi
  · rw [hd] at hmem
    cases hmem
  · obtain ⟨tx, htx, -⟩ := hi
    rw [hr] at htx
    cases htx

/-- No other open attempt is on a delivery that the entry in hand carries. -/
theorem Serial.rowsRead_commitAttempt (hS : Serial maxAttempts s) {i : ℕ} {env : AttemptEnv}
    {send : OutboundRequest → OutboundHttpResult} (h : s.commitAttempt i env send = some t) :
    RowsRead t := by
  unfold Pipeline.commitAttempt at h
  split at h
  next w kind d ev e hh =>
    split at h
    next db row hfin =>
      obtain rfl := Option.some.inj h
      obtain ⟨d₀, hd₀, -⟩ := finishAttempt_cases hfin
      have hfin := finishAttempt_ok hfin
      have hrow : row.id = d.id := by
        obtain ⟨write, d₀, -, hd₀, hrow⟩ := hfin.written
        have hid : d₀.id = d.id := Table.key_of_get hd₀
        rw [hrow, DeliveryWrite.apply_id, hid]
      refine hS.read.rewrite hfin.deliveries fun j w' kind' d' ev' e' hj => ?_
      have hji : j ≠ i := by
        rintro rfl
        have hself : (s.setHandler j (some ⟨w, kind, .attempted row⟩)).handlers j =
            some ⟨w', kind', .attempting d' ev' e'⟩ := hj
        rw [setHandler_self] at hself
        cases congrArg Handler.phase (Option.some.inj hself)
      have hj : s.handlers j = some ⟨w', kind', .attempting d' ev' e'⟩ :=
        (setHandler_ne s _ hji).symm.trans hj
      refine ⟨hj, fun heq => hji ?_⟩
      have hother := carriedBy_attempting hS.sole.carrier hj
      rw [heq, hrow] at hother
      exact Carrier.entry.inj
        (hS.sole.single.one _ _ _ hother (carriedBy_attempting hS.sole.carrier hh))
    next err _ =>
      obtain rfl := Option.some.inj h
      exact hS.read.setHandler fun _ _ _ _ _ heq => (afterError_ne_attempting _ _ heq).elim
  next => cases h

/-- A dead delivery is on nobody's hands. -/
theorem Serial.rowsRead_replay (hS : Serial maxAttempts s) {id tenantId : UUID}
    (h : s.replay id tenantId = some t) : RowsRead t := by
  unfold Pipeline.replay at h
  split at h
  next db row hrep =>
    obtain ⟨d, ev, hd, hdead, -, -, hrow, rfl⟩ := ReplayService.replay_ok hrep
    obtain rfl := Option.some.inj h
    have hdid : d.id = id := Table.key_of_get hd
    have hid : row.id = id := by rw [hrow, DeliveryWrite.apply_id, hdid]
    refine @RowsRead.rewrite _ _ hS.read row rfl fun j w kind d' ev e hj => ⟨hj, fun heq => ?_⟩
    have hcar := carriedBy_attempting hS.sole.carrier hj
    rw [heq, hid] at hcar
    refine hS.sole.single.settled id d hd ?_ _ hcar
    rw [hdead]
    rintro (ho | ho) <;> cases ho
  next => cases h

/-- The actions that write neither the deliveries nor their attempt rows. -/
def leavesDb : PipelineAction → Bool
  | .publish .. | .read .. | .autoclaim .. | .beginAttempt .. | .scheduleRetry .. | .ack ..
  | .fail .. | .crash .. | .tick .. => true
  | _ => false

theorem db_of_leavesDb (h : s.step le a = some t) (ha : leavesDb a = true) : t.db = s.db := by
  cases a with
  | publish r =>
    simp only [step, Pipeline.publish] at h
    split at h
    next => exact Option.some.inj h ▸ rfl
    next => cases h
  | read => exact Option.some.inj h ▸ rfl
  | autoclaim => exact Option.some.inj h ▸ rfl
  | beginAttempt i =>
    simp only [step, Pipeline.beginAttempt] at h
    split at h
    next =>
      split at h
      next => cases h
      next =>
        split at h
        next => exact Option.some.inj h ▸ rfl
        next => exact Option.some.inj h ▸ rfl
    next => cases h
  | scheduleRetry i =>
    simp only [step, Pipeline.scheduleRetry] at h
    split at h
    next =>
      split at h
      next => exact Option.some.inj h ▸ rfl
      next => exact Option.some.inj h ▸ rfl
    next => cases h
  | ack i =>
    simp only [step, Pipeline.ack] at h
    split at h
    next => exact Option.some.inj h ▸ rfl
    next => cases h
  | fail => exact Option.some.inj h ▸ rfl
  | crash => exact Option.some.inj h ▸ rfl
  | tick now limit => exact Option.some.inj h ▸ (tick_frame le s now limit).2.1
  | _ => cases ha

/-- An attempt opens with the row that it has just read. -/
theorem RowsRead.beginAttempt (hR : RowsRead s) {i : ℕ} (h : s.beginAttempt i = some t) :
    RowsRead t := by
  unfold Pipeline.beginAttempt at h
  split at h
  next w kind m hh hm =>
    split at h
    next => cases h
    next =>
      split at h
      next d ev e hload =>
        obtain rfl := Option.some.inj h
        obtain ⟨hd, -, -⟩ := loadRows_ok hload
        refine hR.setHandler fun w' kind' d' ev' e' heq c hc => ?_
        cases heq
        have hid : d.id = m.deliveryId := Table.key_of_get hd
        rw [hid, hd] at hc
        exact (Option.some.inj hc).symm
      next =>
        obtain rfl := Option.some.inj h
        exact hR.setHandler fun _ _ _ _ _ heq => (afterError_ne_attempting _ _ heq).elim
  next => cases h

/-- The other actions open no attempt. -/
theorem rowsRead_of_leavesDb (hR : RowsRead s) (h : s.step le a = some t)
    (ha : leavesDb a = true) : RowsRead t := by
  by_cases hbegin : ∃ i, a = .beginAttempt i
  · obtain ⟨i, rfl⟩ := hbegin
    exact hR.beginAttempt h
  have hdb := db_of_leavesDb h ha
  refine hR.mono fun i w kind d ev e hi => ⟨?_, fun c hc => by rwa [← hdb]⟩
  cases holds_step h hi with
  | kept hk => exact hk
  | moved hk hkind hadv =>
    cases hadv with
    | begin => exact (hbegin ⟨i, rfl⟩).elim
    | commit => cases ha
    | schedule _ hphase => cases hphase
  | read _ hk => cases congrArg Handler.phase hk
  | claimed _ hk => cases congrArg Handler.phase hk

theorem Chains.publish (hC : Chains maxAttempts s) {r : ℕ} (h : s.publish r = some t) :
    Chains maxAttempts t := by
  unfold Pipeline.publish at h
  split at h
  next j claimed queue o ev targets d created hr =>
    obtain rfl := Option.some.inj h
    have ho := offStream_published hr
    have hC := ho.chains hC
    exact ⟨hC.rows, hC.inserted⟩
  next => cases h

theorem Serial.step (hS : Serial maxAttempts s) (hp : Prompt s a) (hn : Limited maxAttempts a)
    (h : s.step le a = some t) : Serial maxAttempts t := by
  refine ⟨hS.sole.step hp h, ?_, ?_⟩
  · by_cases hoff : offStream a = true
    · exact (offStream_step h hoff).rowsRead hS.sole.carrier hS.read
    by_cases hdb : leavesDb a = true
    · exact rowsRead_of_leavesDb hS.read h hdb
    cases a with
    | commitAttempt => exact hS.rowsRead_commitAttempt h
    | replay => exact hS.rowsRead_replay h
    | _ => first | exact absurd rfl hoff | exact absurd rfl hdb
  · by_cases hoff : offStream a = true
    · exact (offStream_step h hoff).chains hS.chains
    by_cases hout : onOutbox a = true
    · cases a with
      | publish => exact hS.chains.publish h
      | _ => first | exact absurd rfl hoff | cases hout
    by_cases hdb : leavesDb a = true
    · have hsame := db_of_leavesDb h hdb
      have hquiet : Quiet s t := quiet_step h (by simpa using hout)
      exact hS.chains.frame (by rw [hsame]) (by rw [hsame]) hquiet.relays
    cases a with
    | commitAttempt => exact hS.chains.commitAttempt hS.read hn h
    | replay => exact hS.chains.replay h
    | _ => first | exact absurd rfl hoff | exact absurd rfl hdb

/-- In every run in which all attempts are made under the same limit, no worker stops between the
end of its work on a delivery and the XACK, no tick or replay is interrupted, and the reaper claims
only what nobody has in hand and examines nothing whose fan-out is open, an open attempt holds the
row that is stored, and the last attempt rows of each delivery are numbered from one up to its count
and account for its state. -/
theorem ledger_of_prompt_run (le : RetryMember → RetryMember → Bool) (maxAttempts : ℕ)
    (s t : Pipeline) (as : List PipelineAction) (hs : Init s)
    (hp : Transition.Always (step le) (fun s a _ => Prompt s a) s as)
    (hn : ∀ a ∈ as, Limited maxAttempts a) (h : Transition.run (step le) s as = some t) :
    (∀ d ∈ t.db.deliveries.rows, ∃ past chain,
      t.db.attemptsOf d.id = past ++ chain ∧ ChainOk maxAttempts d chain) ∧
    ∀ i w kind d ev e, t.handlers i = some ⟨w, kind, .attempting d ev e⟩ →
      ∀ c, t.db.deliveries.get d.id = some c → c = d := by
  have hall := hp.and (Transition.always_of_mem hn)
  have hS : Serial maxAttempts t :=
    hall.invariant (fun _ _ _ hS hR h => hS.step hR.1 hR.2 h) (serial_init hs) h
  exact ⟨hS.chains.rows, hS.read⟩

theorem ledger_of_prompt_run_sample :
    ∃ t d past chain, Transition.run (step fun _ _ => true) samplePipeline sampleRun = some t ∧
      t.db.deliveries.get 3 = some d ∧ d.state = .retrying ∧
      t.db.attemptsOf 3 = past ++ chain ∧ ChainOk 8 d chain := by
  obtain ⟨t, ht⟩ : ∃ t, Transition.run (step fun _ _ => true) samplePipeline sampleRun = some t :=
    ⟨_, rfl⟩
  have hget : (Transition.run (step fun _ _ => true) samplePipeline sampleRun).map
      (fun t => (t.db.deliveries.get 3).map (·.state)) = some (some .retrying) := rfl
  rw [ht] at hget
  obtain ⟨d, hd, hs⟩ := Option.map_eq_some_iff.mp (Option.some.inj hget)
  have hid : d.id = 3 := Table.key_of_get hd
  have hlimit : ∀ a ∈ sampleRun, Limited 8 a := by
    intro a ha
    simp only [sampleRun, List.mem_cons, List.not_mem_nil, or_false] at ha
    rcases ha with rfl | rfl | rfl | rfl | rfl | rfl | rfl | rfl | rfl | rfl | rfl <;> trivial
  obtain ⟨past, chain, hchain, hok⟩ := (ledger_of_prompt_run (fun _ _ => true) 8 samplePipeline t
    sampleRun ⟨rfl, rfl, rfl, rfl, rfl⟩ (prompt_sampleRun _) hlimit ht).1 d (Table.mem_of_get hd)
  exact ⟨t, d, past, chain, ht, hd, hs, hid ▸ hchain, hok⟩

end Pipeline
end RelayWebhooks
