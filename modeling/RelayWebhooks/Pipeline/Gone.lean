import RelayWebhooks.Pipeline.Frames

/-! The entries a reaper drops: their deliveries do not exist, and never will again. -/
namespace RelayWebhooks

namespace Pipeline
open DeliveryAttemptService

variable {le : RetryMember → RetryMember → Bool} {s t u : Pipeline} {a : PipelineAction}
  {id : UUID}

/-- The key was generated, and neither a stored row nor one of an open transaction has it. -/
structure Gone (s : Pipeline) (id : UUID) : Prop where
  issued : id ∈ s.issued
  absent : s.db.deliveries.get id = none
  closed : ∀ r d, s.Inserted r d → d.id ≠ id

/-- A key is generated once, so what is gone stays gone. -/
theorem Gone.step (hG : Gone s id) (hI : Inv s []) (h : s.step le a = some t) : Gone t id := by
  have hissued := (tags_step hI h).issued id hG.issued
  by_cases hoff : offStream a = true
  · have ho := offStream_step h hoff
    refine ⟨hissued, Table.get_eq_none.mpr fun d hd hid => ?_, fun r d hd hid => ?_⟩
    · have hid : d.id = id := hid
      rcases ho.rows d.id d (Table.get_of_mem hd) with hget | ⟨r, hins⟩
      · rw [hid, hG.absent] at hget
        cases hget
      · exact hG.closed r d hins hid
    · rcases ho.inserted r d hd with ⟨r', hins⟩ | ⟨k, _, _, _, hfresh, rfl⟩
      · exact hG.closed r' d hins hid
      · have hk : k = id := hid
        exact hfresh (hk ▸ hG.issued)
  by_cases hout : onOutbox a = true
  · cases a with
    | publish r =>
      simp only [step, Pipeline.publish] at h
      split at h
      next j claimed queue o ev targets d created hr =>
        obtain rfl := Option.some.inj h
        refine ⟨hissued, hG.absent, fun r' d' hd' => ?_⟩
        rcases inserted_setTx hd' with ⟨-, hd'⟩ | hd'
        · exact hG.closed j d' ⟨_, Table.mem_of_get hr, rfl, hd'⟩
        · exact hG.closed r' d' hd'
      next => cases h
    | _ => first | exact absurd rfl hoff | cases hout
  have hquiet : Quiet s t := quiet_step h (by simpa using hout)
  refine ⟨hissued, Table.get_eq_none.mpr fun d hd hid => ?_, fun r d hd => ?_⟩
  · obtain ⟨d₀, hd₀, hd₀id, -⟩ := hquiet.deliveries d hd
    exact Table.get_eq_none.mp hG.absent d₀ hd₀ (hd₀id.trans hid)
  · unfold Inserted at hd
    rw [hquiet.relays] at hd
    exact hG.closed r d hd

theorem Gone.run {as : List PipelineAction} (hG : Gone s id) (hI : Inv s [])
    (h : Transition.run (Pipeline.step le) s as = some t) : Gone t id := by
  have hboth : Gone t id ∧ Inv t [] :=
    Transition.run_invariant (I := fun s => Gone s id ∧ Inv s [])
      (fun _ _ _ hs h => ⟨hs.1.step hs.2 h, hs.2.step h⟩) ⟨hG, hI⟩ h
  exact hboth.1

/-- The worker has still to look at the delivery, or to commit its attempt. -/
def Working (h : Handler) : Prop := h.phase = .claimed ∨ ∃ d ev e, h.phase = .attempting d ev e

/-- An exception makes a worker drop its entry only if it is a reaper that misses a row. -/
theorem afterError_acking {h h' : Handler} {err : Raised} (heq : afterError h err = some h') :
    h.kind = .reaper ∧ err.isNotFound = true := by
  unfold afterError at heq
  split at heq
  next hdrop => exact hdrop
  next => cases heq

/-- The steps that take a worker straight to the XACK. -/
theorem drop_cases {i : ℕ} {h h' : Handler} (hh : s.handlers i = some h) (hw : Working h)
    (ha : s.step le a = some t) (hh' : t.handlers i = some h') (hdrop : h'.phase = .acking) :
    a = .beginAttempt i ∨ ∃ env send, a = .commitAttempt i env send := by
  cases holds_step ha hh' with
  | kept hk =>
    obtain rfl := Option.some.inj (hh.symm.trans hk)
    rcases hw with hw | ⟨d, ev, e, hw⟩ <;> rw [hw] at hdrop <;> cases hdrop
  | moved hk hkind hadv =>
    obtain rfl := Option.some.inj (hh.symm.trans hk)
    cases hadv with
    | begin => exact .inl rfl
    | commit env send => exact .inr ⟨env, send, rfl⟩
    | schedule hrow =>
      rcases hw with hw | ⟨d, ev, e, hw⟩ <;> rw [hrow] at hw <;> cases hw
  | read _ hk =>
    rw [hk] at hdrop
    cases hdrop
  | claimed _ hk =>
    rw [hk] at hdrop
    cases hdrop

/-- What a worker drops unworked is gone. -/
theorem gone_of_drop (hI : Inv s []) (hN : Named s) {i : ℕ} {h h' : Handler} {m : DeliveryMessage}
    (hh : s.handlers i = some h) (hw : Working h) (hm : s.stream.entries[i]? = some m)
    (ha : s.step le a = some t) (hh' : t.handlers i = some h') (hdrop : h'.phase = .acking) :
    Gone s m.deliveryId := by
  have hissued : m.deliveryId ∈ s.issued :=
    hN _ m.correlationId (.inl (List.mem_of_getElem? hm))
  obtain ⟨⟨m', hm', hok⟩, -⟩ := hI.handlers i h hh
  obtain rfl : m = m' := Option.some.inj (hm.symm.trans hm')
  rcases drop_cases hh hw ha hh' hdrop with rfl | ⟨env, send, rfl⟩
  · simp only [step, Pipeline.beginAttempt] at ha
    split at ha
    next w kind m' hh₁ hm₁ =>
      obtain rfl : m = m' := Option.some.inj (hm.symm.trans hm₁)
      split at ha
      next => cases ha
      next hopen =>
        split at ha
        next =>
          obtain rfl := Option.some.inj ha
          rw [setHandler_self] at hh'
          obtain rfl := Option.some.inj hh'
          cases hdrop
        next err hload =>
          obtain rfl := Option.some.inj ha
          rw [setHandler_self] at hh'
          obtain ⟨hkind, -⟩ := afterError_acking hh'
          have hclosed : ¬s.fanOutOpen m.deliveryId := fun hf => hopen ⟨hkind, hf⟩
          exact ⟨hissued, get_none_of_loadRows_error hI hload, fun r c hi =>
            not_inserted_of_not_fanOutOpen (Bool.eq_false_iff.mpr hclosed) hi⟩
    next => cases ha
  · simp only [step, Pipeline.commitAttempt] at ha
    split at ha
    next w kind d ev e hh₁ =>
      obtain rfl := Option.some.inj (hh.symm.trans hh₁)
      obtain ⟨hid, he, -, hend, hfresh⟩ := hok
      split at ha
      next =>
        obtain rfl := Option.some.inj ha
        have hself := (setHandler_self s i _).symm.trans hh'
        obtain rfl := Option.some.inj hself
        cases hdrop
      next err hfin =>
        obtain rfl := Option.some.inj ha
        rw [setHandler_self] at hh'
        obtain ⟨-, herr⟩ := afterError_acking hh'
        refine ⟨hissued, hid ▸ ?_, fun r c hi hcid => hfresh r c hi (hcid.trans hid.symm)⟩
        rcases finishAttempt_notFound hfin herr with hnone | hnone
        · exact hnone
        · cases hc : s.db.deliveries.get d.id with
          | none => rfl
          | some c =>
            have hpar := (hI.parents c (Table.mem_of_get hc)).2
            rw [hend c hc, ← he, hnone] at hpar
            cases hpar
    next => cases ha

/-- When a worker that has not committed an attempt goes straight to the XACK of its entry, the
delivery of the entry is in no later state of any run, as long as the reaper examines no entry whose
fan-out is open and claims only what nobody has in hand. -/
theorem dropped_delivery_never_returns (le : RetryMember → RetryMember → Bool) (s t u : Pipeline)
    (hs : Transition.Reachable (step le) Init s) (i : ℕ) (h h' : Handler) (m : DeliveryMessage)
    (hh : s.handlers i = some h) (hw : Working h) (hm : s.stream.entries[i]? = some m)
    (a : PipelineAction) (ha : s.step le a = some t) (hh' : t.handlers i = some h')
    (hdrop : h'.phase = .acking) (as : List PipelineAction)
    (hrun : Transition.run (step le) t as = some u) :
    u.db.deliveries.get m.deliveryId = none := by
  have hboth : Inv s [] ∧ Named s :=
    hs.invariant (I := fun s => Inv s [] ∧ Named s) (fun _ h => ⟨inv_init h, named_init h⟩)
      fun _ _ _ hs h => ⟨hs.1.step h, named_step hs.1 hs.2 h⟩
  have hgone := gone_of_drop hboth.1 hboth.2 hh hw hm ha hh' hdrop
  exact ((hgone.step hboth.1 ha).run (hboth.1.step ha) hrun).absent

/-- The endpoint is deleted while the entry of its delivery waits for another worker. -/
def deletedRun : List PipelineAction :=
  [.claimDue 0 0 50, .openEntry 0, .createDelivery 0 3 0, .publish 0, .closeEntry 0,
    .commitRelay 0, .read 1 10, .crash 1, .deleteEndpoint 2, .autoclaim 2 [0] 50]

theorem dropped_delivery_never_returns_sample :
    ∃ s t u, Transition.run (step fun _ _ => true) samplePipeline deletedRun = some s ∧
      s.step (fun _ _ => true) (.beginAttempt 0) = some t ∧
      Transition.run (step fun _ _ => true) t [.ack 0] = some u ∧
      u.db.deliveries.get 3 = none := by
  obtain ⟨s, hs⟩ : ∃ s, Transition.run (step fun _ _ => true) samplePipeline deletedRun = some s :=
    ⟨_, rfl⟩
  have hboth : ((Transition.run (step fun _ _ => true) samplePipeline deletedRun).map fun s =>
      (s.handlers 0, s.stream.entries[0]?)) = some (some ⟨2, .reaper, .claimed⟩, some ⟨3, none⟩) :=
    rfl
  have hbegin : ((Transition.run (step fun _ _ => true) samplePipeline deletedRun).bind fun s =>
      (s.step (fun _ _ => true) (.beginAttempt 0)).map fun t => t.handlers 0) =
      some (some ⟨2, .reaper, .acking⟩) := rfl
  have hack : ((Transition.run (step fun _ _ => true) samplePipeline deletedRun).bind fun s =>
      (s.step (fun _ _ => true) (.beginAttempt 0)).bind fun t =>
        Transition.run (step fun _ _ => true) t [.ack 0]).isSome = true := rfl
  rw [hs] at hboth hbegin hack
  obtain ⟨hh, hm⟩ := Prod.mk.inj (Option.some.inj hboth)
  obtain ⟨t, ht, hh'⟩ := Option.map_eq_some_iff.mp hbegin
  rw [Option.bind_some, ht, Option.bind_some] at hack
  obtain ⟨u, hu⟩ := Option.isSome_iff_exists.mp hack
  have hreach : Transition.Reachable (step fun _ _ => true) Init s :=
    ⟨samplePipeline, deletedRun, ⟨rfl, rfl, rfl, rfl, rfl⟩, hs⟩
  exact ⟨s, t, u, hs, ht, hu, dropped_delivery_never_returns (fun _ _ => true) s t u hreach 0 _ _ _
    hh (.inl rfl) hm _ ht hh' rfl _ hu⟩

end Pipeline
end RelayWebhooks
