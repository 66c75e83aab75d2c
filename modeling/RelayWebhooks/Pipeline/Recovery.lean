import RelayWebhooks.Pipeline.Frames
import Mathlib.Data.Finset.Order

/-! Recovery: from every reachable state, whatever has stopped before, the workers can bring every
owed delivery to its end. -/
namespace RelayWebhooks

namespace Pipeline
open DeliveryAttemptService

variable {le : RetryMember → RetryMember → Bool} {s t u : Pipeline} {id : UUID}

/-- The actions of dispatchers, reapers and the scheduler, with what the destinations answer. -/
def Works (send : OutboundRequest → OutboundHttpResult) : PipelineAction → Prop
  | .read .. | .autoclaim .. | .beginAttempt .. | .scheduleRetry .. | .ack .. | .fail ..
  | .tick .. => True
  | .commitAttempt _ _ send' => send' = send
  | _ => False

/-- The destination accepts every request, with an answer that can be stored. -/
def Accepts (send : OutboundRequest → OutboundHttpResult) : Prop :=
  ∀ request, (send request).succeeded = true ∧
    ∀ text, (send request).responseSnippet = some text → storable text = true

/-- A schedule of the workers leads from one state to the other. -/
def Leads (le : RetryMember → RetryMember → Bool) (send : OutboundRequest → OutboundHttpResult)
    (s t : Pipeline) : Prop :=
  ∃ as, (∀ a ∈ as, Works send a) ∧ Transition.run (step le) s as = some t

variable {send : OutboundRequest → OutboundHttpResult}

theorem Leads.refl (s : Pipeline) : Leads le send s s := ⟨[], by simp, rfl⟩

theorem Leads.trans (h : Leads le send s t) (h' : Leads le send t u) : Leads le send s u := by
  obtain ⟨as, has, hrun⟩ := h
  obtain ⟨bs, hbs, hrun'⟩ := h'
  refine ⟨as ++ bs, fun a ha => ?_, Transition.run_trans hrun hrun'⟩
  exact (List.mem_append.mp ha).elim (has a) (hbs a)

theorem Leads.step {a : PipelineAction} (ha : Works send a) (h : s.step le a = some t) :
    Leads le send s t :=
  ⟨[a], by simpa using ha, Transition.run_cons_eq_some.mpr ⟨t, h, rfl⟩⟩

theorem Leads.inv (hI : Inv s []) (h : Leads le send s t) : Inv t [] := by
  obtain ⟨as, -, hrun⟩ := h
  exact Transition.run_invariant (I := fun s => Inv s []) (fun _ _ _ hI h => hI.step h) hI hrun

theorem fin_injective : Function.Injective (BitVec.ofFin : Fin (2 ^ 128) → UUID) :=
  fun _ _ h => congrArg BitVec.toFin h

/-- An attempt whose request is accepted marks the delivery delivered. -/
theorem finishAttempt_accepts {env : AttemptEnv} (hsend : Accepts send) {db : Db} {d : Delivery}
    {ev : Event} {e : Endpoint} (hload : loadRows db id = .ok (d, ev, e))
    (hallow : Allows env.settings env.now e) (hfresh : db.deliveryAttempts.get env.rowId = none) :
    ∃ db' row, finishAttempt env send db d ev e = .ok (db', row) ∧ row.state = .delivered ∧
      db'.deliveries = db.deliveries.update row ∧ row.id = id ∧
      db'.deliveryAttempts.rows.length = db.deliveryAttempts.rows.length + 1 := by
  obtain ⟨hd, hev, he⟩ := loadRows_ok hload
  have hdid : d.id = id := Table.key_of_get hd
  have heid : e.id = d.endpointId := Table.key_of_get he
  obtain ⟨e', request, he'id, -, hstorable, heq⟩ :=
    @attempt_eq_recordOutcome env db d ev e send id hd hev he hallow
  have hself : (db.endpoints.update e').get e'.id = some e' :=
    Table.get_update_of_get rfl (he'id.symm ▸ heid.symm ▸ he)
  obtain ⟨hok, htext⟩ := hsend request
  let db₁ : Db := { db with endpoints := db.endpoints.update e' }
  have hd₁ : db₁.deliveries.get d.id = some d := hdid.symm ▸ hd
  have hfresh₁ : db₁.deliveryAttempts.get env.rowId = none := hfresh
  have hrecord : ∃ r, recordOutcome env db₁ d e' request (send request) = .ok r :=
    (recordOutcome_isOk hd₁ hself hfresh₁ hstorable).mpr ⟨htext, .inl hok⟩
  obtain ⟨⟨db', row⟩, hrow⟩ := hrecord
  have hattempt : attempt env send db id = .ok (db', row) := heq.trans hrow
  obtain ⟨d₁, ev₁, e₁, hload₁, hcases⟩ := attempt_cases hattempt
  obtain ⟨rfl, rfl, rfl⟩ : d = d₁ ∧ ev = ev₁ ∧ e = e₁ := by
    simpa using Except.ok.inj (hload.symm.trans hload₁)
  rcases hcases with ⟨u, hdef, -⟩ | ⟨-, request', -, hsent⟩
  · rw [deferral_eq_none.mpr hallow] at hdef
    cases hdef
  obtain ⟨w, hw, hdel⟩ := hsent.write
  obtain ⟨a, hlog, -⟩ := hsent.log
  have hfin : finishAttempt env send db d ev e = .ok (db', row) := by
    rw [attempt_eq_finishAttempt, hload] at hattempt
    exact hattempt
  have hfinished := finishAttempt_ok hfin
  obtain ⟨w', d₀, -, hd₀, hrow'⟩ := hfinished.written
  have hrowid : row.id = d.id := by
    have hd₀id : d₀.id = d.id := Table.key_of_get hd₀
    rw [hrow', DeliveryWrite.apply_id, hd₀id]
  have hsame : row = w.apply d := by
    have hget : db'.deliveries.get d.id = some row := by
      rw [hfinished.deliveries]
      exact Table.get_update_of_get hrowid hd₀
    rw [hdel, Table.get_update_of_get (DeliveryWrite.apply_id w d) hd₀] at hget
    exact (Option.some.inj hget).symm
  rw [deliveryOutcome, if_pos (hsend request').1] at hw
  obtain rfl := Except.ok.inj hw
  refine ⟨db', row, hfin, by rw [hsame]; rfl, hfinished.deliveries, hrowid.trans hdid, ?_⟩
  rw [hlog, List.length_append, List.length_singleton]

theorem commitAttempt_of_finish {i w : ℕ} {kind : WorkerKind} {d row : Delivery} {ev : Event}
    {e : Endpoint} {env : AttemptEnv} {db : Db}
    (hh : s.handlers i = some ⟨w, kind, .attempting d ev e⟩)
    (hfin : finishAttempt env send s.db d ev e = .ok (db, row)) :
    s.commitAttempt i env send =
      some { s.setHandler i (some ⟨w, kind, .attempted row⟩) with db := db } := by
  simp [commitAttempt, hh, hfin]

theorem ack_of_acking {i w : ℕ} {kind : WorkerKind}
    (hh : s.handlers i = some ⟨w, kind, .acking⟩) :
    s.ack i = some { s.setHandler i none with stream := s.stream.xack i } := by
  simp [ack, hh]

end Pipeline
end RelayWebhooks
