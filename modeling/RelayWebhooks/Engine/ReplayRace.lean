import RelayWebhooks.Engine.Replay

/-! Any number of concurrent replays of one dead delivery, none of them interrupted. The check of
a call is made on the row it read, so two calls that read the dead row both start a chain. -/
namespace RelayWebhooks

/-- The call holds a row it read dead and has not committed. -/
def ReplayPhase.readDead : ReplayPhase → Bool
  | read d _ => d.state = .dead
  | checked _ | loaded _ _ => true
  | _ => false

/-- The call is past its check, or will pass it. -/
def ReplayPhase.winning : ReplayPhase → Bool
  | committed _ | replayed => true
  | p => p.readDead

/-- The call that takes the action. -/
def Action.caller : Action → Option ℕ
  | .readReplay j _ _ | .checkReplay j | .loadReplay j _ | .commitReplay j | .enqueueReplay j
  | .interruptReplay j => some j
  | _ => none

namespace Engine
open DeliveryAttemptService

variable {cfg : EngineConfig} {s t : Engine} {a : Action}

/-- The action belongs to some call of `replay` for the delivery and the tenant; no call is
interrupted. -/
def OfReplays (id tenantId : UUID) : Action → Prop
  | .readReplay _ id' tenantId' => id' = id ∧ tenantId' = tenantId
  | .checkReplay _ | .loadReplay _ _ | .commitReplay _ | .enqueueReplay _ => True
  | _ => False

instance (id tenantId : UUID) : DecidablePred (OfReplays id tenantId)
  | .readReplay _ _ _ => inferInstanceAs (Decidable (_ ∧ _))
  | .checkReplay _ | .loadReplay _ _ | .commitReplay _ | .enqueueReplay _ =>
    inferInstanceAs (Decidable True)
  | .readDelivery _ _ | .readEndpoint _ _ | .loadDeferral _ _ | .commitDeferral _
  | .loadFlip _ _ | .flip _ | .send _ _ | .loadOutcome _ _ | .writeOutcome _
  | .loadDelivery _ _ | .commit _ _ _ _ | .failAttempt _ | .interruptReplay _ =>
    inferInstanceAs (Decidable False)

/-- Exactly one call succeeds and adds one entry; the others raise and change nothing. -/
def OneChain (db : Db) (stream : DeliveryStream) (d : Delivery) (t : Engine) : Prop :=
  ∃ j, t.replays j = some .replayed ∧
    (∀ k p, k ≠ j → t.replays k = some p → ∃ state, p = .raised (.deliveryNotDead d.id state)) ∧
    t.db = { db with deliveries := resetRows db d } ∧
    t.stream = stream.enqueueDelivery d.id

/-- The condition on the state before a call reads the delivery: if the row is dead, no other call
that read it dead has yet to commit. -/
def ReplayGuard (s : Engine) : Action → Prop
  | .readReplay _ id _ => ∀ d, s.db.deliveries.get id = some d → d.state = .dead →
      ∀ k p, s.replays k = some p → p.readDead = false
  | _ => True

/-- What a call holds always belongs to the delivery `d` and the tenant. -/
def CallOk (d : Delivery) (tenantId : UUID) : ReplayPhase → Prop
  | .read c u => c.id = d.id ∧ c.eventId = d.eventId ∧ u = tenantId
  | .checked c | .loaded c _ => c.id = d.id
  | .committed id => id = d.id
  | .replayed => True
  | .raised e => ∃ state, e = .deliveryNotDead d.id state
  | .interrupted _ => False

structure RaceInv (db : Db) (d : Delivery) (tenantId : UUID) (s : Engine) : Prop where
  events : s.db.events = db.events
  row : ∃ c, s.db.deliveries.get d.id = some c ∧ c.eventId = d.eventId
  calls : ∀ j p, s.replays j = some p → CallOk d tenantId p

theorem replays_setReplay {j k : ℕ} {p q : ReplayPhase} (h : (s.setReplay j p).replays k = some q) :
    (k = j ∧ q = p) ∨ (k ≠ j ∧ s.replays k = some q) := by
  by_cases hk : k = j
  · subst hk
    rw [setReplay_self] at h
    exact .inl ⟨rfl, (Option.some.inj h).symm⟩
  · rw [setReplay_ne _ _ hk] at h
    exact .inr ⟨hk, h⟩

section Race

variable {db : Db} {d : Delivery} {ev : Event} {tenantId : UUID}

/-- The check passes a row that was read dead and turns any other one down by its state. -/
theorem afterCheckReplay_eq (hI : RaceInv db d tenantId s)
    (hev : db.events.get d.eventId = some ev) (hT : ev.tenantId = tenantId) {c : Delivery}
    {u : UUID} (hc : CallOk d tenantId (.read c u)) :
    s.afterCheckReplay c u =
      if c.state = .dead then .checked c else .raised (.deliveryNotDead d.id c.state) := by
  obtain ⟨hid, hevent, rfl⟩ := hc
  unfold afterCheckReplay
  rw [hI.events, hevent, hev]
  simp only [hT, ne_eq, not_true_eq_false, if_false, ite_not, hid]

theorem RaceInv.step (hI : RaceInv db d tenantId s) (hev : db.events.get d.eventId = some ev)
    (hT : ev.tenantId = tenantId) (ha : OfReplays d.id tenantId a)
    (h : step cfg s a = some t) : RaceInv db d tenantId t := by
  have hset : ∀ {j : ℕ} {p : ReplayPhase}, CallOk d tenantId p →
      ∀ k q, (s.setReplay j p).replays k = some q → CallOk d tenantId q := by
    intro j p hp k q hq
    rcases replays_setReplay hq with ⟨-, rfl⟩ | ⟨-, hq⟩
    · exact hp
    · exact hI.calls k q hq
  obtain ⟨c, hc, hcev⟩ := hI.row
  cases steps_of_step h with
  | readReplay hj hget =>
    obtain ⟨rfl, rfl⟩ := ha
    obtain rfl := Option.some.inj (hc.symm.trans hget)
    exact ⟨hI.events, ⟨c, hc, hcev⟩, hset ⟨Table.key_of_get hc, hcev, rfl⟩⟩
  | readReplayMissing hj hget =>
    obtain ⟨rfl, rfl⟩ := ha
    rw [hc] at hget
    cases hget
  | checkReplay hj =>
    refine ⟨hI.events, ⟨c, hc, hcev⟩, hset ?_⟩
    have hok := hI.calls _ _ hj
    rw [afterCheckReplay_eq hI hev hT hok]
    split
    · exact hok.1
    · exact ⟨_, rfl⟩
  | loadReplay hj hrow =>
    have hid : _ = d.id := hI.calls _ _ hj
    exact ⟨hI.events, ⟨c, hc, hcev⟩, hset hid⟩
  | commitReplay hj hget =>
    have hid : _ = d.id := hI.calls _ _ hj
    rw [hid] at hget
    obtain rfl := Option.some.inj (hc.symm.trans hget)
    have hkey : c.id = d.id := Table.key_of_get hc
    exact ⟨hI.events, ⟨_, Table.get_update_of_get hkey hc, hcev⟩, hset hid⟩
  | enqueueReplay hj => exact ⟨hI.events, ⟨c, hc, hcev⟩, hset trivial⟩
  | _ => exact ha.elim

/-- A call that read the delivery dead goes on to succeed. -/
theorem winning_step (hI : RaceInv db d tenantId s) (hev : db.events.get d.eventId = some ev)
    (hT : ev.tenantId = tenantId) (ha : OfReplays d.id tenantId a)
    (h : step cfg s a = some t) {j : ℕ} (hj : (s.replays j).any ReplayPhase.winning = true) :
    (t.replays j).any ReplayPhase.winning = true := by
  have hset : ∀ {k : ℕ} {p : ReplayPhase}, (j = k → p.winning = true) →
      ((s.setReplay k p).replays j).any ReplayPhase.winning = true := by
    intro k p hp
    by_cases hk : j = k
    · subst hk
      simpa using hp rfl
    · rwa [setReplay_ne _ _ hk]
  cases steps_of_step h with
  | readReplay hk =>
    refine hset fun he => ?_
    subst he
    rw [hk] at hj
    cases hj
  | readReplayMissing hk =>
    refine hset fun he => ?_
    subst he
    rw [hk] at hj
    cases hj
  | checkReplay hk =>
    refine hset fun he => ?_
    subst he
    rw [hk] at hj
    have hdead : _ = DeliveryState.dead := of_decide_eq_true hj
    rw [afterCheckReplay_eq hI hev hT (hI.calls _ _ hk), if_pos hdead]
    rfl
  | loadReplay | commitReplay | enqueueReplay => exact hset fun _ => rfl
  | _ => exact ha.elim

/-- A call that read the delivery after its reset. -/
def Lost (d : Delivery) (tenantId : UUID) (p : ReplayPhase) : Prop :=
  CallOk d tenantId p ∧ p.winning = false

/-- No call has started, or one call is on its way and every other one has lost. -/
def SoleInv (db : Db) (stream : DeliveryStream) (d : Delivery) (tenantId : UUID) (s : Engine) :
    Prop :=
  ((∀ j, s.replays j = none) ∧ s.db = db ∧ s.stream = stream) ∨
    ∃ j p, s.replays j = some p ∧ CallInv db stream d tenantId s (some p) ∧
      ∀ k q, k ≠ j → s.replays k = some q → Lost d tenantId q

theorem step_replays_ne (h : step cfg s a = some t) {k : ℕ} (hk : a.caller ≠ some k) :
    t.replays k = s.replays k := by
  cases steps_of_step h with
  | readReplay | readReplayMissing | checkReplay | loadReplay | commitReplay | enqueueReplay
  | interruptCommitted | interruptReplay =>
    have hne : k ≠ _ := fun hj => hk (congrArg some hj.symm)
    exact setReplay_ne s _ hne
  | flip | writeOutcome =>
    simp only [setAttempt, lockFor]
    split <;> rfl
  | _ => rfl

/-- A call that no action of the schedule belongs to stays where it was. -/
theorem run_replays_ne {as : List Action} {k : ℕ} (has : ∀ a ∈ as, a.caller ≠ some k)
    (h : Transition.run (step cfg) s as = some t) : t.replays k = s.replays k := by
  refine Transition.Always.invariant (I := fun u => u.replays k = s.replays k) ?_ rfl
    (Transition.always_of_mem has) h
  intro u a v hu ha hv
  rw [step_replays_ne hv ha, hu]

theorem step_replays_caller (h : step cfg s a = some t) {j : ℕ} (hj : a.caller = some j) :
    ∃ p, t.replays j = some p := by
  cases steps_of_step h with
  | readReplay | readReplayMissing | checkReplay | loadReplay | commitReplay | enqueueReplay
  | interruptCommitted | interruptReplay =>
    obtain rfl := Option.some.inj hj
    exact ⟨_, setReplay_self ..⟩
  | _ => cases hj

theorem ofCall_of_caller {j : ℕ} (ha : OfReplays d.id tenantId a) (hj : a.caller = some j) :
    OfCall j d.id tenantId a := by
  cases a with
  | readReplay => exact ⟨Option.some.inj hj, ha.1, ha.2⟩
  | checkReplay | loadReplay | commitReplay | enqueueReplay => exact Option.some.inj hj
  | _ => exact ha.elim

/-- Next to a call on its way, another call can only read the reset row and lose. -/
theorem lost_step {stream : DeliveryStream} {j k : ℕ} {p : ReplayPhase}
    (hR : RaceInv db d tenantId s) (hd : db.deliveries.get d.id = some d)
    (hdead : d.state = .dead) (hev : db.events.get d.eventId = some ev)
    (hT : ev.tenantId = tenantId) (ha : OfReplays d.id tenantId a) (hg : ReplayGuard s a)
    (hj : s.replays j = some p) (hp : CallInv db stream d tenantId s (some p))
    (hlost : ∀ q, s.replays k = some q → Lost d tenantId q) (hk : a.caller = some k)
    (h : step cfg s a = some t) :
    t.db = s.db ∧ t.stream = s.stream ∧ ∀ q, t.replays k = some q → Lost d tenantId q := by
  cases steps_of_step h with
  | readReplay hnone hget =>
    obtain ⟨rfl, rfl⟩ := ha
    obtain rfl := Option.some.inj hk
    refine ⟨rfl, rfl, fun q hq => ?_⟩
    rw [setReplay_self] at hq
    obtain rfl := Option.some.inj hq
    obtain ⟨c, hc, hcev⟩ := hR.row
    obtain rfl := Option.some.inj (hc.symm.trans hget)
    have hid : c.id = d.id := Table.key_of_get hc
    refine ⟨⟨hid, hcev, rfl⟩, ?_⟩
    -- The guard leaves only a winner that has committed its reset.
    have hreset : s.db = { db with deliveries := resetRows db d } → c.state = .pending := by
      intro hdb
      rw [hdb] at hc
      have hself : (resetRows db d).get d.id = some (DeliveryWrite.resetForReplay.apply d) :=
        Table.get_update_of_get rfl hd
      obtain rfl := Option.some.inj (hself.symm.trans hc)
      rfl
    have hpending : c.state = .pending := by
      have hguard := fun hcd => hg c hc hcd j p hj
      cases p with
      | read =>
        obtain ⟨⟨rfl, -⟩, hdb, -⟩ := hp
        rw [hdb, hd] at hc
        obtain rfl := Option.some.inj hc
        simp [ReplayPhase.readDead, hdead] at hguard
      | checked =>
        obtain ⟨rfl, hdb, -⟩ := hp
        rw [hdb, hd] at hc
        obtain rfl := Option.some.inj hc
        cases hguard hdead
      | loaded =>
        obtain ⟨⟨rfl, -⟩, hdb, -⟩ := hp
        rw [hdb, hd] at hc
        obtain rfl := Option.some.inj hc
        cases hguard hdead
      | committed => exact hreset hp.2.1
      | replayed => exact hreset hp.1
      | raised => exact hp.elim
      | interrupted => exact (hR.calls _ _ hj).elim
    show decide (c.state = .dead) = false
    rw [hpending]
    rfl
  | readReplayMissing hnone hget =>
    obtain ⟨rfl, rfl⟩ := ha
    obtain ⟨c, hc, -⟩ := hR.row
    rw [hc] at hget
    cases hget
  | checkReplay hs =>
    obtain rfl := Option.some.inj hk
    refine ⟨rfl, rfl, fun q hq => ?_⟩
    rw [setReplay_self] at hq
    obtain rfl := Option.some.inj hq
    obtain ⟨hok, hwin⟩ := hlost _ hs
    have hnd : ¬_ = DeliveryState.dead := of_decide_eq_false hwin
    rw [afterCheckReplay_eq hR hev hT hok, if_neg hnd]
    exact ⟨⟨_, rfl⟩, rfl⟩
  | loadReplay hs | commitReplay hs | enqueueReplay hs =>
    obtain rfl := Option.some.inj hk
    cases (hlost _ hs).2
  | _ => exact ha.elim

theorem SoleInv.step {stream : DeliveryStream} (hI : SoleInv db stream d tenantId s)
    (hR : RaceInv db d tenantId s) (hd : db.deliveries.get d.id = some d)
    (hdead : d.state = .dead) (hev : db.events.get d.eventId = some ev)
    (hT : ev.tenantId = tenantId) (ha : OfReplays d.id tenantId a) (hg : ReplayGuard s a)
    (h : step cfg s a = some t) : SoleInv db stream d tenantId t := by
  obtain ⟨k, hk⟩ : ∃ k, a.caller = some k := by
    cases a with
    | readReplay | checkReplay | loadReplay | commitReplay | enqueueReplay => exact ⟨_, rfl⟩
    | _ => exact ha.elim
  obtain ⟨pk, hpk⟩ := step_replays_caller h hk
  have hother : ∀ j, j ≠ k → t.replays j = s.replays j := fun j hj =>
    step_replays_ne h fun he => hj (Option.some.inj (he.symm.trans hk))
  rcases hI with ⟨hnone, hdb, hstream⟩ | ⟨j, p, hj, hp, hlost⟩
  · have hstart : CallInv db stream d tenantId s (s.replays k) := by
      rw [hnone k]
      exact ⟨hdb, hstream⟩
    have hcall := callInv_step hd hdead hev hT (ofCall_of_caller ha hk) h hstart
    rw [hpk] at hcall
    refine .inr ⟨k, pk, hpk, hcall, fun i q hi hq => ?_⟩
    rw [hother i hi, hnone i] at hq
    cases hq
  · by_cases hjk : j = k
    · subst hjk
      have hcall := callInv_step hd hdead hev hT (ofCall_of_caller ha hk) h (hj ▸ hp)
      rw [hpk] at hcall
      refine .inr ⟨j, pk, hpk, hcall, fun i q hi hq => ?_⟩
      rw [hother i hi] at hq
      exact hlost i q hi hq
    · obtain ⟨hdb, hstream, hk'⟩ := lost_step hR hd hdead hev hT ha hg hj hp
        (fun q => hlost k q (Ne.symm hjk)) hk h
      refine .inr ⟨j, p, by rw [hother j hjk, hj], ?_, fun i q hi hq => ?_⟩
      · cases p with
        | interrupted => exact (hR.calls _ _ hj).elim
        | raised => exact hp.elim
        | _ => simpa only [CallInv, hdb, hstream] using hp
      · by_cases hik : i = k
        · subst hik
          exact hk' q hq
        · rw [hother i hik] at hq
          exact hlost i q hi hq

theorem raceInv_init {stream : DeliveryStream} (hd : db.deliveries.get d.id = some d) :
    RaceInv db d tenantId (init db stream) :=
  ⟨rfl, ⟨d, hd, rfl⟩, fun _ _ h => by cases h⟩

/-- A winner of some state is a winner of every later one. -/
theorem winning_run (hI : RaceInv db d tenantId s) (hev : db.events.get d.eventId = some ev)
    (hT : ev.tenantId = tenantId) {as : List Action} (has : ∀ a ∈ as, OfReplays d.id tenantId a)
    (h : Transition.run (step cfg) s as = some t) {j : ℕ}
    (hj : (s.replays j).any ReplayPhase.winning = true) :
    RaceInv db d tenantId t ∧ (t.replays j).any ReplayPhase.winning = true := by
  refine Transition.Always.invariant
    (I := fun s => RaceInv db d tenantId s ∧ (s.replays j).any ReplayPhase.winning = true)
    ?_ ⟨hI, hj⟩ (Transition.always_of_mem has) h
  rintro s a t ⟨hI, hj⟩ ha hst
  exact ⟨hI.step hev hT ha hst, winning_step hI hev hT ha hst hj⟩

/-- Once every call is over, a winner has replayed the delivery. -/
theorem replayed_of_winning (hI : RaceInv db d tenantId s)
    (hover : ∀ j p, s.replays j = some p → p.isOver = true) {j : ℕ}
    (hj : (s.replays j).any ReplayPhase.winning = true) : s.replays j = some .replayed := by
  cases hp : s.replays j with
  | none =>
    rw [hp] at hj
    cases hj
  | some p =>
    rw [hp] at hj
    have ho := hover j p hp
    have hok := hI.calls j p hp
    cases p with
    | replayed => rfl
    | read | checked | loaded | committed => cases ho
    | raised => cases hj
    | interrupted => exact hok.elim

/-- The guard holds at every read when one call ends up as the only winner. -/
theorem always_replayGuard {j₀ : ℕ} {as : List Action} (hI : RaceInv db d tenantId s)
    (hev : db.events.get d.eventId = some ev) (hT : ev.tenantId = tenantId)
    (has : ∀ a ∈ as, OfReplays d.id tenantId a)
    (h : Transition.run (step cfg) s as = some t)
    (hover : ∀ j p, t.replays j = some p → p.isOver = true)
    (hone : ∀ j, t.replays j = some .replayed → j = j₀) :
    Transition.Always (step cfg) (fun s a _ => ReplayGuard s a) s as := by
  induction as generalizing s with
  | nil => trivial
  | cons a as ih =>
    intro u hu
    obtain ⟨u', hu', hrun⟩ := Transition.run_cons_eq_some.mp h
    obtain rfl := Option.some.inj (hu.symm.trans hu')
    have ha := has a List.mem_cons_self
    have htail : ∀ b ∈ as, OfReplays d.id tenantId b := fun b hb =>
      has b (List.mem_cons_of_mem _ hb)
    have hIu := hI.step hev hT ha hu
    refine ⟨?_, ih hIu htail hrun⟩
    -- Two calls that both read the row dead both win in the end.
    have hwins : ∀ i, (u.replays i).any ReplayPhase.winning = true → i = j₀ := by
      intro i hi
      obtain ⟨hIt, hwin⟩ := winning_run hIu hev hT htail hrun hi
      exact hone i (replayed_of_winning hIt hover hwin)
    cases steps_of_step hu with
    | @readReplay j _ _ c hnone hget =>
      intro c' hc' hdead k p hk
      obtain rfl := Option.some.inj (hget.symm.trans hc')
      by_contra hread
      have hkj : k ≠ j := by
        rintro rfl
        rw [hnone] at hk
        cases hk
      have hjwin : j = j₀ := by
        refine hwins j ?_
        rw [setReplay_self]
        exact decide_eq_true hdead
      have hkwin : k = j₀ := by
        refine hwins k ?_
        rw [setReplay_ne _ _ hkj, hk]
        cases p with
        | read => exact Bool.eq_true_of_not_eq_false hread
        | checked | loaded => rfl
        | committed | replayed | raised | interrupted => exact absurd rfl hread
      exact hkj (hkwin.trans hjwin.symm)
    | readReplayMissing hnone hget =>
      intro c' hc'
      rw [hget] at hc'
      cases hc'
    | _ => trivial

/-- Without two calls that both read the dead row, the first one to read it is the only one that
succeeds. -/
theorem oneChain_of_soleInv {stream : DeliveryStream} (hS : SoleInv db stream d tenantId s)
    (hR : RaceInv db d tenantId s) (hover : ∀ j p, s.replays j = some p → p.isOver = true)
    (hcall : ∃ j p, s.replays j = some p) : OneChain db stream d s := by
  rcases hS with ⟨hnone, -, -⟩ | ⟨j, p, hj, hp, hlost⟩
  · obtain ⟨j, p, hj⟩ := hcall
    rw [hnone j] at hj
    cases hj
  · have ho := hover j p hj
    have hok := hR.calls j p hj
    cases p with
    | read | checked | loaded | committed => cases ho
    | raised => exact hp.elim
    | interrupted => exact hok.elim
    | replayed =>
      refine ⟨j, hj, fun k q hk hq => ?_, hp.1, hp.2⟩
      obtain ⟨hokq, hwin⟩ := hlost k q hk hq
      have hoq := hover k q hq
      cases q with
      | read | checked | loaded | committed => cases hoq
      | replayed => cases hwin
      | interrupted => exact hokq.elim
      | raised e =>
        obtain ⟨state, rfl⟩ := hokq
        exact ⟨state, rfl⟩

end Race

/-- Any number of concurrent replays of one dead delivery, none of them interrupted, start
exactly one chain if and only if no call reads the dead row while another call that read it has
not committed. -/
theorem one_chain_iff (cfg : EngineConfig) (db : Db) (stream : DeliveryStream) (d : Delivery)
    (ev : Event) (tenantId : UUID) (hd : db.deliveries.get d.id = some d)
    (hdead : d.state = .dead) (hev : db.events.get d.eventId = some ev)
    (hT : ev.tenantId = tenantId) (as : List Action) (has : ∀ a ∈ as, OfReplays d.id tenantId a)
    (t : Engine) (ht : Transition.run (step cfg) (init db stream) as = some t)
    (hover : ∀ j p, t.replays j = some p → p.isOver = true)
    (hcall : ∃ j p, t.replays j = some p) :
    OneChain db stream d t ↔
      Transition.Always (step cfg) (fun s a _ => ReplayGuard s a) (init db stream) as := by
  have hinit : RaceInv db d tenantId (init db stream) := raceInv_init hd
  constructor
  · rintro ⟨j, -, hothers, -⟩
    have hone : ∀ k, t.replays k = some .replayed → k = j := by
      intro k hk
      by_contra hkj
      obtain ⟨state, hstate⟩ := hothers k _ hkj hk
      cases hstate
    exact always_replayGuard hinit hev hT has ht hover hone
  · intro hguard
    have hI : RaceInv db d tenantId t ∧ SoleInv db stream d tenantId t := by
      refine Transition.Always.invariant
        (I := fun s => RaceInv db d tenantId s ∧ SoleInv db stream d tenantId s) ?_
        ⟨hinit, .inl ⟨fun _ => rfl, rfl, rfl⟩⟩ ((Transition.always_of_mem has).and hguard) ht
      rintro s a u ⟨hR, hS⟩ ⟨ha, hg⟩ hst
      exact ⟨hR.step hev hT ha hst, hS.step hR hd hdead hev hT ha hg hst⟩
    exact oneChain_of_soleInv hI.2 hI.1 hover hcall

/-- The second call reads the row after the first one reset it. -/
theorem one_chain_sample :
    ∃ t, Transition.run (step sampleConfig) (init deadDb .empty)
        (soloReplay 0 3 9 ++ [.readReplay 1 3 9, .checkReplay 1]) = some t ∧
      OneChain deadDb .empty deadDelivery t := by
  obtain ⟨t, ht⟩ : ∃ t, Transition.run (step sampleConfig) (init deadDb .empty)
      (soloReplay 0 3 9 ++ [.readReplay 1 3 9, .checkReplay 1]) = some t := ⟨_, rfl⟩
  have hends : (Transition.run (step sampleConfig) (init deadDb .empty)
      (soloReplay 0 3 9 ++ [.readReplay 1 3 9, .checkReplay 1])).map
        (fun t => (t.replays 0, t.replays 1)) =
      some (some .replayed, some (.raised (.deliveryNotDead 3 .pending))) := rfl
  rw [ht, Option.map_some, Option.some.injEq, Prod.mk.injEq] at hends
  refine ⟨t, ht, ?_⟩
  refine (one_chain_iff sampleConfig deadDb .empty deadDelivery sampleEvent 9 rfl rfl rfl rfl
    (soloReplay 0 3 9 ++ [.readReplay 1 3 9, .checkReplay 1]) (by decide) t ht ?_
    ⟨0, _, hends.1⟩).mpr ?_
  · intro j p hp
    by_cases hj : j = 0 ∨ j = 1
    · rcases hj with rfl | rfl
      · obtain rfl := Option.some.inj (hends.1.symm.trans hp)
        rfl
      · obtain rfl := Option.some.inj (hends.2.symm.trans hp)
        rfl
    · have hother : ∀ a ∈ soloReplay 0 3 9 ++ [.readReplay 1 3 9, .checkReplay 1],
          a.caller ≠ some j := by
        simp only [soloReplay, Action.caller, List.forall_mem_append, List.forall_mem_cons]
        simp
        omega
      rw [run_replays_ne hother ht] at hp
      cases hp
  · intro s₁ h₁
    obtain rfl := Option.some.inj (show some _ = some s₁ from h₁)
    refine ⟨?_, ?_⟩
    · intro _ _ _ _ _ hk
      cases hk
    intro s₂ h₂
    obtain rfl := Option.some.inj (show some _ = some s₂ from h₂)
    refine ⟨trivial, ?_⟩
    intro s₃ h₃
    obtain rfl := Option.some.inj (show some _ = some s₃ from h₃)
    refine ⟨trivial, ?_⟩
    intro s₄ h₄
    obtain rfl := Option.some.inj (show some _ = some s₄ from h₄)
    refine ⟨trivial, ?_⟩
    intro s₅ h₅
    obtain rfl := Option.some.inj (show some _ = some s₅ from h₅)
    refine ⟨trivial, ?_⟩
    intro s₆ h₆
    obtain rfl := Option.some.inj (show some _ = some s₆ from h₆)
    refine ⟨?_, fun _ _ => ⟨trivial, trivial⟩⟩
    rintro d hd hdead
    obtain rfl := Option.some.inj (show some _ = some d from hd)
    cases hdead

/-- Two calls that read the dead row before either commits both succeed and publish two
entries. -/
theorem concurrent_replays_both_start :
    ∃ t, Transition.run (step sampleConfig) (init deadDb .empty)
        [.readReplay 0 3 9, .readReplay 1 3 9, .checkReplay 0, .checkReplay 1,
          .loadReplay 0 false, .commitReplay 0, .loadReplay 1 true, .commitReplay 1,
          .enqueueReplay 0, .enqueueReplay 1] = some t ∧
      t.replays 0 = some .replayed ∧ t.replays 1 = some .replayed ∧
      t.stream.entries = [⟨3, none⟩, ⟨3, none⟩] ∧ ¬OneChain deadDb .empty deadDelivery t := by
  refine ⟨_, rfl, rfl, rfl, rfl, ?_⟩
  rintro ⟨j, -, -, -, hstream⟩
  have hlen := congrArg (fun g : DeliveryStream => g.entries.length) hstream
  cases hlen

end Engine

end RelayWebhooks
