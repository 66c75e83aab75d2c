import RelayWebhooks.Repositories.Db

/-! One replay executed on its own, up to its commit. -/
namespace RelayWebhooks.ReplayService

/-- The committed database and the delivery to publish. -/
def replay (db : Db) (deliveryId tenantId : UUID) : Except Raised (Db × Delivery) :=
  match db.deliveries.get deliveryId with
  | none => .error (.deliveryNotFound deliveryId)
  | some d =>
    match db.events.get d.eventId with
    | none => .error (.deliveryNotFoundForTenant tenantId deliveryId)
    | some event =>
      if event.tenantId ≠ tenantId then .error (.deliveryNotFoundForTenant tenantId deliveryId)
      else if d.state ≠ .dead then .error (.deliveryNotDead deliveryId d.state)
      else db.resetForReplay deliveryId

/-- A replay that succeeds found a dead delivery and resets it. -/
theorem replay_ok {db db' : Db} {id tenantId : UUID} {d' : Delivery}
    (h : replay db id tenantId = .ok (db', d')) :
    ∃ d ev, db.deliveries.get id = some d ∧ d.state = .dead ∧
      db.events.get d.eventId = some ev ∧ ev.tenantId = tenantId ∧
      d' = DeliveryWrite.resetForReplay.apply d ∧
      db' = { db with deliveries := db.deliveries.update d' } := by
  unfold replay at h
  split at h
  next => cases h
  next d hd =>
    split at h
    next => cases h
    next ev hev =>
      split at h
      next => cases h
      next hT =>
        split at h
        next => cases h
        next hdead =>
          rw [Db.resetForReplay, Db.writeDelivery_of_get _ hd] at h
          simp only [Except.ok.injEq, Prod.mk.injEq] at h
          obtain ⟨rfl, rfl⟩ := h
          exact ⟨d, ev, hd, not_not.mp hdead, hev, not_not.mp hT, rfl, rfl⟩

end RelayWebhooks.ReplayService
