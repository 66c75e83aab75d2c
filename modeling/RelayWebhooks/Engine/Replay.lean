import RelayWebhooks.Engine.Terminal

/-! Replays of one dead delivery: one call that may stop anywhere, and any number of calls at
once. The commit comes before the publish, and the check that the delivery is dead is made on an
earlier, unlocked read. -/
namespace RelayWebhooks.Engine
open DeliveryAttemptService

variable {cfg : EngineConfig} {s t : Engine} {a : Action}

/-- The action belongs to call `j` of `replay` for the delivery and the tenant. -/
def OfCall (j : ℕ) (id tenantId : UUID) : Action → Prop
  | .readReplay k id' tenantId' => k = j ∧ id' = id ∧ tenantId' = tenantId
  | .checkReplay k | .loadReplay k _ | .commitReplay k | .enqueueReplay k
  | .interruptReplay k => k = j
  | _ => False

instance (j : ℕ) (id tenantId : UUID) : DecidablePred (OfCall j id tenantId)
  | .readReplay _ _ _ => inferInstanceAs (Decidable (_ ∧ _ ∧ _))
  | .checkReplay _ | .loadReplay _ _ | .commitReplay _ | .enqueueReplay _
  | .interruptReplay _ => inferInstanceAs (Decidable (_ = _))
  | .readDelivery _ _ | .readEndpoint _ _ | .loadDeferral _ _ | .commitDeferral _
  | .loadFlip _ _ | .flip _ | .send _ _ | .loadOutcome _ _ | .writeOutcome _
  | .loadDelivery _ _ | .commit _ _ _ _ | .failAttempt _ => inferInstanceAs (Decidable False)

/-- The actions of one call that nothing interrupts. -/
def soloReplay (j : ℕ) (id tenantId : UUID) : List Action :=
  [.readReplay j id tenantId, .checkReplay j, .loadReplay j false, .commitReplay j,
    .enqueueReplay j]

/-- The deliveries after the reset of the dead row `d`. -/
def resetRows (db : Db) (d : Delivery) : Table Delivery :=
  db.deliveries.update (DeliveryWrite.resetForReplay.apply d)

/-- Where a call of `replay` for the dead delivery `d` stands, and what it has done by then. -/
def CallInv (db : Db) (stream : DeliveryStream) (d : Delivery) (tenantId : UUID) (s : Engine) :
    Option ReplayPhase → Prop
  | none => s.db = db ∧ s.stream = stream
  | some (.read c u) => (c = d ∧ u = tenantId) ∧ s.db = db ∧ s.stream = stream
  | some (.checked c) => c = d ∧ s.db = db ∧ s.stream = stream
  | some (.loaded c row) => (c = d ∧ row = d) ∧ s.db = db ∧ s.stream = stream
  | some (.committed id) =>
    id = d.id ∧ s.db = { db with deliveries := resetRows db d } ∧ s.stream = stream
  | some .replayed =>
    s.db = { db with deliveries := resetRows db d } ∧ s.stream = stream.enqueueDelivery d.id
  | some (.raised _) => False
  | some (.interrupted false) => s.db = db ∧ s.stream = stream
  | some (.interrupted true) =>
    s.db = { db with deliveries := resetRows db d } ∧ s.stream = stream

theorem afterCheckReplay_dead {d : Delivery} {ev : Event} {tenantId : UUID}
    (hev : s.db.events.get d.eventId = some ev) (hT : ev.tenantId = tenantId)
    (hdead : d.state = .dead) : s.afterCheckReplay d tenantId = .checked d := by
  simp [afterCheckReplay, hev, hT, hdead]

theorem callInv_step {db : Db} {stream : DeliveryStream} {d : Delivery} {ev : Event}
    {tenantId : UUID} {j : ℕ} (hd : db.deliveries.get d.id = some d) (hdead : d.state = .dead)
    (hev : db.events.get d.eventId = some ev) (hT : ev.tenantId = tenantId)
    (ha : OfCall j d.id tenantId a) (h : step cfg s a = some t)
    (hI : CallInv db stream d tenantId s (s.replays j)) :
    CallInv db stream d tenantId t (t.replays j) := by
  cases steps_of_step h with
  | readReplay hj hget =>
    obtain ⟨rfl, rfl, rfl⟩ := ha
    rw [hj] at hI
    obtain ⟨hdb, hstream⟩ := hI
    rw [hdb, hd] at hget
    obtain rfl := Option.some.inj hget
    simp only [setReplay, Function.update_self]
    exact ⟨⟨rfl, rfl⟩, hdb, hstream⟩
  | readReplayMissing hj hget =>
    obtain ⟨rfl, rfl, rfl⟩ := ha
    rw [hj] at hI
    rw [hI.1, hd] at hget
    cases hget
  | checkReplay hj =>
    obtain rfl := ha
    rw [hj] at hI
    obtain ⟨⟨rfl, rfl⟩, hdb, hstream⟩ := hI
    have hchk := afterCheckReplay_dead (s := s) (by rw [hdb, hev]) hT hdead
    simp only [setReplay, Function.update_self, hchk]
    exact ⟨rfl, hdb, hstream⟩
  | loadReplay hj hrow =>
    obtain rfl := ha
    rw [hj] at hI
    obtain ⟨rfl, hdb, hstream⟩ := hI
    rw [hdb, hd, ite_self] at hrow
    obtain rfl := Option.some.inj hrow
    simp only [setReplay, Function.update_self]
    exact ⟨⟨rfl, rfl⟩, hdb, hstream⟩
  | commitReplay hj hc =>
    obtain rfl := ha
    rw [hj] at hI
    obtain ⟨⟨rfl, rfl⟩, hdb, hstream⟩ := hI
    rw [hdb, hd] at hc
    obtain rfl := Option.some.inj hc
    simp only [setReplay, Function.update_self]
    refine ⟨rfl, ?_, hstream⟩
    rw [hdb, DeliveryPatch.ofWrite_apply]
    rfl
  | enqueueReplay hj =>
    obtain rfl := ha
    rw [hj] at hI
    obtain ⟨rfl, hdb, hstream⟩ := hI
    simp only [setReplay, Function.update_self]
    exact ⟨hdb, by rw [hstream]⟩
  | interruptCommitted hj =>
    obtain rfl := ha
    rw [hj] at hI
    simp only [setReplay, Function.update_self]
    exact hI.2
  | @interruptReplay _ p hj hp hc =>
    obtain rfl := ha
    rw [hj] at hI
    simp only [setReplay, Function.update_self]
    cases p with
    | read | checked | loaded => exact hI.2
    | committed id => exact absurd rfl (hc id)
    | replayed | raised | interrupted => cases hp
  | _ => exact ha.elim

/-- The delivery starts a fresh chain. -/
def FreshChain (s : Engine) (id : UUID) : Prop :=
  ∃ d, s.db.deliveries.get id = some d ∧ d.state = .pending ∧ d.attemptCount = 0 ∧
    d.nextRetryAt = none

theorem freshChain_resetRows {db : Db} {d : Delivery} (hd : db.deliveries.get d.id = some d)
    (hs : s.db = { db with deliveries := resetRows db d }) : FreshChain s d.id := by
  refine ⟨DeliveryWrite.resetForReplay.apply d, ?_, rfl, rfl, rfl⟩
  rw [hs]
  exact Table.get_update_of_get rfl hd

/-- A call that nothing interrupts replays a dead delivery, from any state. -/
theorem soloReplay_run {d : Delivery} {ev : Event} {tenantId : UUID} {k : ℕ}
    (hk : s.replays k = none) (hd : s.db.deliveries.get d.id = some d) (hdead : d.state = .dead)
    (hev : s.db.events.get d.eventId = some ev) (hT : ev.tenantId = tenantId) :
    ∃ t, Transition.run (step cfg) s (soloReplay k d.id tenantId) = some t ∧
      FreshChain t d.id ∧ DeliveryStream.Carries t.stream d.id := by
  have hrun : Transition.run (step cfg) s (soloReplay k d.id tenantId) = some
      { s with
        db := { s.db with deliveries := resetRows s.db d }
        stream := s.stream.enqueueDelivery d.id
        replays := Function.update s.replays k (some .replayed) } := by
    simp [soloReplay, Transition.run_cons, step, hk, hd, setReplay, afterCheckReplay, hev, hT,
      hdead, DeliveryPatch.ofWrite_apply, resetRows]
  exact ⟨_, hrun, freshChain_resetRows hd rfl, DeliveryStream.carries_enqueueDelivery _ _ _⟩

theorem mem_deadDeliveries {db : Db} {d : Delivery} {ev : Event} {tenantId : UUID}
    (hd : db.deliveries.get d.id = some d) (hdead : d.state = .dead)
    (hev : db.events.get d.eventId = some ev) (hT : ev.tenantId = tenantId) :
    d ∈ db.deadDeliveries tenantId := by
  refine List.mem_filter.mpr ⟨Table.mem_of_get hd, ?_⟩
  simp [hdead, hev, hT]

/-- The step stops call `j` between its commit and the publish. -/
def StopsUnpublished (j : ℕ) (s : Engine) : Action → Prop
  | .interruptReplay k => k = j ∧ ∃ id, s.replays j = some (.committed id)
  | _ => False

/-- A call that is over takes no step, and only the stop between the commit and the publish ends
it committed and interrupted. -/
theorem stopsUnpublished_iff {j : ℕ} {id tenantId : UUID} (ha : OfCall j id tenantId a)
    (h : step cfg s a = some t) :
    StopsUnpublished j s a ↔ t.replays j = some (.interrupted true) := by
  cases steps_of_step h with
  | readReplay | readReplayMissing =>
    obtain ⟨rfl, rfl, rfl⟩ := ha
    simp [StopsUnpublished, setReplay]
  | @checkReplay _ d u hj =>
    obtain rfl := ha
    have hchk : s.afterCheckReplay d u ≠ .interrupted true := by
      unfold afterCheckReplay
      split
      · nofun
      · split_ifs <;> nofun
    simp [StopsUnpublished, setReplay, hchk]
  | loadReplay | commitReplay | enqueueReplay =>
    obtain rfl := ha
    simp [StopsUnpublished, setReplay]
  | interruptCommitted hj =>
    obtain rfl := ha
    simp [StopsUnpublished, setReplay, hj]
  | interruptReplay hj hp hc =>
    obtain rfl := ha
    simp [StopsUnpublished, setReplay, hj, hc]
  | _ => exact ha.elim

theorem step_of_interrupted {j : ℕ} {id tenantId : UUID} (ha : OfCall j id tenantId a)
    (hj : s.replays j = some (.interrupted true)) : step cfg s a = none := by
  cases a with
  | readReplay =>
    obtain ⟨rfl, rfl, rfl⟩ := ha
    simp [step, hj]
  | checkReplay | loadReplay | commitReplay | enqueueReplay =>
    obtain rfl := ha
    simp [step, hj]
  | interruptReplay =>
    obtain rfl := ha
    simp [step, hj, ReplayPhase.isOver]
  | _ => exact ha.elim

/-- The end of a call tells whether a step stopped it between its commit and the publish. -/
theorem always_published_iff {j : ℕ} {id tenantId : UUID} {as : List Action}
    (has : ∀ a ∈ as, OfCall j id tenantId a) (hs : s.replays j ≠ some (.interrupted true))
    (h : Transition.run (step cfg) s as = some t) :
    Transition.Always (step cfg) (fun s a _ => ¬StopsUnpublished j s a) s as ↔
      t.replays j ≠ some (.interrupted true) := by
  induction as generalizing s with
  | nil =>
    obtain rfl := Option.some.inj h
    simp [hs]
  | cons a as ih =>
    obtain ⟨u, hu, h⟩ := Transition.run_cons_eq_some.mp h
    have ha := has a List.mem_cons_self
    have hstop := stopsUnpublished_iff ha hu
    have hrest : ∀ b ∈ as, OfCall j id tenantId b := fun b hb => has b (List.mem_cons_of_mem _ hb)
    by_cases hend : u.replays j = some (.interrupted true)
    · have hlast : as = [] := by
        cases as with
        | nil => rfl
        | cons b bs =>
          obtain ⟨v, hv, -⟩ := Transition.run_cons_eq_some.mp h
          rw [step_of_interrupted (hrest b List.mem_cons_self) hend] at hv
          cases hv
      subst hlast
      obtain rfl := Option.some.inj h
      exact ⟨fun hall => absurd (hstop.mpr hend) (hall.cons hu).1, fun hne => absurd hend hne⟩
    · rw [← ih hrest hend h]
      constructor
      · exact fun hall => (hall.cons hu).2
      · intro hall v hv
        obtain rfl := Option.some.inj (hu.symm.trans hv)
        exact ⟨fun hstops => hend (hstop.mp hstops), hall⟩

/-- How a call that was made on a dead delivery ends. Nothing has happened: the delivery is still
dead, listed, and the next call replays it. Or it starts a fresh chain and an unacked entry names
it. Or the call stopped between its commit and the publish, and the fresh chain has no entry from
it. -/
theorem call_outcomes {db : Db} {stream : DeliveryStream} {tenantId : UUID} {d : Delivery}
    {ev : Event} (hd : db.deliveries.get d.id = some d) (hdead : d.state = .dead)
    (hev : db.events.get d.eventId = some ev) (hT : ev.tenantId = tenantId) {p : ReplayPhase}
    (hover : p.isOver = true) (hI : CallInv db stream d tenantId t (some p)) :
    (p ≠ .interrupted true ∧
      ((t.db = db ∧ t.stream = stream ∧ d ∈ t.db.deadDeliveries tenantId ∧
        ∀ k, t.replays k = none →
          ∃ u, Transition.run (step cfg) t (soloReplay k d.id tenantId) = some u ∧
            FreshChain u d.id ∧ DeliveryStream.Carries u.stream d.id) ∨
      (FreshChain t d.id ∧ DeliveryStream.Carries t.stream d.id))) ∨
    (p = .interrupted true ∧ FreshChain t d.id ∧ t.stream = stream) := by
  cases p with
  | read | checked | loaded | committed => cases hover
  | raised => exact hI.elim
  | replayed =>
    obtain ⟨hdb, hstream⟩ := hI
    refine .inl ⟨nofun, .inr ⟨freshChain_resetRows hd hdb, ?_⟩⟩
    rw [hstream]
    exact DeliveryStream.carries_enqueueDelivery _ _ _
  | interrupted committed =>
    cases committed with
    | false =>
      obtain ⟨hdb, hstream⟩ := hI
      refine .inl ⟨nofun, .inl ⟨hdb, hstream, ?_, fun k hk => ?_⟩⟩
      · rw [hdb]
        exact mem_deadDeliveries hd hdead hev hT
      · exact soloReplay_run hk (by rw [hdb, hd]) hdead (by rw [hdb, hev]) hT
    | true =>
      obtain ⟨hdb, hstream⟩ := hI
      exact .inr ⟨rfl, freshChain_resetRows hd hdb, hstream⟩

/-- However a call ends that was made on a dead delivery, either nothing has happened (the delivery
is still dead, listed, and the next call replays it) or it starts a fresh chain and an unacked entry
names it: exactly when no step of the call stopped it between its commit and the publish, or an
unacked entry named the delivery before the call. -/
theorem replay_all_or_nothing (cfg : EngineConfig) (db : Db) (stream : DeliveryStream) (j : ℕ)
    (tenantId : UUID) (d : Delivery) (ev : Event) (hd : db.deliveries.get d.id = some d)
    (hdead : d.state = .dead) (hev : db.events.get d.eventId = some ev)
    (hT : ev.tenantId = tenantId) (as : List Action) (has : ∀ a ∈ as, OfCall j d.id tenantId a)
    (t : Engine) (ht : Transition.run (step cfg) (init db stream) as = some t)
    (p : ReplayPhase) (hp : t.replays j = some p) (hover : p.isOver = true) :
    ((t.db = db ∧ t.stream = stream ∧ d ∈ t.db.deadDeliveries tenantId ∧
      ∀ k, t.replays k = none →
        ∃ u, Transition.run (step cfg) t (soloReplay k d.id tenantId) = some u ∧
          FreshChain u d.id ∧ DeliveryStream.Carries u.stream d.id) ∨
    (FreshChain t d.id ∧ DeliveryStream.Carries t.stream d.id)) ↔
      (Transition.Always (step cfg) (fun s a _ => ¬StopsUnpublished j s a) (init db stream) as ∨
        DeliveryStream.Carries stream d.id) := by
  have hinit : CallInv db stream d tenantId (init db stream) none := ⟨rfl, rfl⟩
  have hI : CallInv db stream d tenantId t (t.replays j) := by
    refine Transition.Always.invariant
      (I := fun s => CallInv db stream d tenantId s (s.replays j)) ?_ hinit
      (Transition.always_of_mem has) ht
    intro s a u hI ha hst
    exact callInv_step hd hdead hev hT ha hst hI
  have hstopped := always_published_iff has (s := init db stream) nofun ht
  rw [hp] at hI hstopped
  rw [hstopped]
  rcases @call_outcomes cfg t db stream tenantId d ev hd hdead hev hT p hover hI with
    ⟨hne, h⟩ | ⟨rfl, hfresh, hstream⟩
  · exact ⟨fun _ => .inl fun he => hne (Option.some.inj he), fun _ => h⟩
  · rw [hstream]
    constructor
    · rintro (⟨hdb, -⟩ | ⟨-, hcarries⟩)
      · obtain ⟨d', hd', hpending, -⟩ := hfresh
        rw [hdb, hd] at hd'
        obtain rfl := Option.some.inj hd'
        rw [hdead] at hpending
        cases hpending
      · exact .inr hcarries
    · rintro (hne | hcarries)
      · exact absurd rfl hne
      · exact .inr ⟨hfresh, hcarries⟩

def deadDelivery : Delivery := { sampleDelivery with state := .dead, attemptCount := 8 }

def deadDb : Db := .single sampleEvent sampleEndpoint deadDelivery

/-- A call that stops right after its read leaves a dead delivery that the next call replays. -/
theorem replay_all_or_nothing_sample :
    ∃ t, Transition.run (step sampleConfig) (init deadDb .empty)
        [.readReplay 0 3 9, .interruptReplay 0] = some t ∧
      (deadDelivery ∈ t.db.deadDeliveries 9 ∨ FreshChain t 3) := by
  have has : ∀ a ∈ [.readReplay 0 3 9, .interruptReplay 0], OfCall 0 3 9 a := by decide
  obtain ⟨t, ht, hover⟩ : ∃ t, Transition.run (step sampleConfig) (init deadDb .empty)
      [.readReplay 0 3 9, .interruptReplay 0] = some t ∧
      t.replays 0 = some (.interrupted false) := ⟨_, rfl, rfl⟩
  have hpublished := (always_published_iff has (s := init deadDb .empty) nofun ht).mpr
    (by rw [hover]; nofun)
  refine ⟨t, ht, ?_⟩
  rcases (replay_all_or_nothing sampleConfig deadDb .empty 0 9 deadDelivery sampleEvent rfl rfl rfl
    rfl _ has t ht _ hover rfl).mpr (.inl hpublished) with h | h
  · exact .inl h.2.2.1
  · exact .inr h.1

/-- The publish fails after the commit: the delivery is pending with no stream entry. -/
theorem replay_interrupted_after_commit :
    ∃ t, Transition.run (step sampleConfig) (init deadDb .empty)
        [.readReplay 0 3 9, .checkReplay 0, .loadReplay 0 false, .commitReplay 0,
          .interruptReplay 0] = some t ∧
      (t.db.deliveries.get 3).map (·.state) = some .pending ∧ t.stream.entries = [] ∧
      ¬DeliveryStream.Carries t.stream 3 := by
  refine ⟨_, rfl, rfl, rfl, ?_⟩
  rintro ⟨i, m, hi, -⟩
  cases hi

end RelayWebhooks.Engine
