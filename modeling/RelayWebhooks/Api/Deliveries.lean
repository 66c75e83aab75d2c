import RelayWebhooks.Api.Errors
import RelayWebhooks.Repositories.TenantRows
import RelayWebhooks.Services.Replay

/-! `POST /v1/deliveries/{id}/replay` as a tenant sees it. -/
namespace RelayWebhooks

structure DeliveryRead where
  id : UUID
  eventId : UUID
  endpointId : UUID
  state : DeliveryState
  attemptCount : ℕ
  nextRetryAt : Option ℤ
  createdAt : ℤ
  deriving DecidableEq

def DeliveryRead.fromDomain (d : Delivery) : DeliveryRead where
  id := d.id
  eventId := d.eventId
  endpointId := d.endpointId
  state := d.state
  attemptCount := d.attemptCount
  nextRetryAt := d.nextRetryAt
  createdAt := d.createdAt

def acceptedReplay (replayed : Delivery) : Response DeliveryRead where
  status := 202
  headers := [("Location", PyText.ofString "/v1/deliveries/" ++ uuidText replayed.id)]
  body := .content (.fromDomain replayed)

section
variable (isPrintable : ℕ → Bool) (path : PyText) (published : Bool)

/-- The response to an authenticated tenant. The entry is published after the commit;
`published` is false when Redis fails. -/
def replayDelivery (db : Db) (deliveryId tenantId : UUID) : Response DeliveryRead :=
  match ReplayService.replay db deliveryId tenantId with
  | .error exc => exceptionResponse isPrintable path exc
  | .ok (_, replayed) =>
    if published then acceptedReplay replayed else unhandledExceptionHandler path

/-- The response about a delivery of the tenant's own. -/
def respondOwn (d : Delivery) : Response DeliveryRead :=
  if d.state ≠ .dead then exceptionResponse isPrintable path (.deliveryNotDead d.id d.state)
  else if published then acceptedReplay (DeliveryWrite.resetForReplay.apply d)
  else unhandledExceptionHandler path

variable {isPrintable path published} {db db' : Db} {deliveryId tenantId : UUID}

/-- A delivery the tenant owns is answered from its row alone. -/
theorem replayDelivery_own {d : Delivery}
    (h : (db.tenantRows tenantId).delivery deliveryId = some d) :
    replayDelivery isPrintable path published db deliveryId tenantId =
      respondOwn isPrintable path published d := by
  obtain ⟨hd, howns⟩ := Db.tenantRows_delivery_eq_some.mp h
  obtain ⟨e, he, hT⟩ := Db.ownsEvent_iff.mp howns
  have hid : d.id = deliveryId := Table.key_of_get hd
  have hreset := Db.writeDelivery_of_get .resetForReplay hd
  unfold replayDelivery respondOwn ReplayService.replay
  simp only [hd, he, hT, ne_eq, not_true_eq_false, if_false]
  by_cases hdead : d.state = .dead
  · simp only [hdead, not_true_eq_false, if_false, Db.resetForReplay, hreset]
  · simp only [hdead, not_false_eq_true, if_true, hid]

/-- Any other delivery id is answered with a 404 whose text tells whether the row exists. -/
theorem replayDelivery_foreign
    (h : (db.tenantRows tenantId).delivery deliveryId = none) :
    replayDelivery isPrintable path published db deliveryId tenantId =
      exceptionResponse isPrintable path
        (if (db.deliveries.get deliveryId).isSome then
          .deliveryNotFoundForTenant tenantId deliveryId
        else .deliveryNotFound deliveryId) := by
  rw [Db.tenantRows_delivery] at h
  unfold replayDelivery ReplayService.replay
  cases hd : db.deliveries.get deliveryId with
  | none => rfl
  | some d =>
    have hnot : ¬db.ownsEvent tenantId d.eventId = true := by
      intro howns
      simp [hd, Option.filter, howns] at h
    simp only [Option.isSome_some, if_true]
    cases he : db.events.get d.eventId with
    | none => rfl
    | some e =>
      have hT : e.tenantId ≠ tenantId := fun hT => hnot (Db.ownsEvent_iff.mpr ⟨e, he, hT⟩)
      simp only [ne_eq, hT, not_false_eq_true, if_true]

/-- The two texts of the 404 part at their nineteenth character. -/
theorem notFound_responses_ne :
    exceptionResponse (α := DeliveryRead) isPrintable path (.deliveryNotFound deliveryId) ≠
      exceptionResponse isPrintable path (.deliveryNotFoundForTenant tenantId deliveryId) := by
  intro h
  have htext := congrArg (List.take 20) (problemResponse_inj path h).2
  have hlong : (PyText.ofString "delivery not found: ").length = 20 := by decide
  have hlong' : 20 ≤ (PyText.ofString "delivery not found for tenant ").length := by decide
  rw [List.append_assoc, List.append_assoc, List.take_append_of_le_length hlong.ge,
    List.take_append_of_le_length hlong'] at htext
  exact absurd htext (by decide)

/-- What other tenants have never changes the status of the response. -/
theorem replayDelivery_status_eq (h : Db.AgreeOn tenantId db db') :
    (replayDelivery isPrintable path published db deliveryId tenantId).status =
      (replayDelivery isPrintable path published db' deliveryId tenantId).status := by
  have hforeign : ∀ {db : Db}, (db.tenantRows tenantId).delivery deliveryId = none →
      (replayDelivery isPrintable path published db deliveryId tenantId).status = 404 := by
    intro db hnone
    rw [replayDelivery_foreign hnone]
    split <;> rfl
  cases hd : (db.tenantRows tenantId).delivery deliveryId with
  | none => rw [hforeign hd, hforeign (h ▸ hd)]
  | some d => rw [replayDelivery_own hd, replayDelivery_own (h ▸ hd)]

end

/-- Two databases that agree on a tenant's rows answer its replay alike exactly if the id names
a delivery in both or in neither. -/
theorem replayDelivery_conceals_iff (isPrintable : ℕ → Bool) (path : PyText) (published : Bool)
    (db db' : Db) (deliveryId tenantId : UUID) (h : Db.AgreeOn tenantId db db') :
    replayDelivery isPrintable path published db deliveryId tenantId =
        replayDelivery isPrintable path published db' deliveryId tenantId ↔
      (db.deliveries.get deliveryId).isSome = (db'.deliveries.get deliveryId).isSome := by
  cases hd : (db.tenantRows tenantId).delivery deliveryId with
  | some d =>
    have hd' : (db'.tenantRows tenantId).delivery deliveryId = some d := h ▸ hd
    rw [replayDelivery_own hd, replayDelivery_own hd', (Db.tenantRows_delivery_eq_some.mp hd).1,
      (Db.tenantRows_delivery_eq_some.mp hd').1]
    simp only
  | none =>
    have hd' : (db'.tenantRows tenantId).delivery deliveryId = none := h ▸ hd
    rw [replayDelivery_foreign hd, replayDelivery_foreign hd']
    cases (db.deliveries.get deliveryId).isSome with
    | false =>
      cases (db'.deliveries.get deliveryId).isSome with
      | false => simp
      | true => simpa using notFound_responses_ne
    | true =>
      cases (db'.deliveries.get deliveryId).isSome with
      | false => simpa using notFound_responses_ne.symm
      | true => simp

def othersPath : PyText :=
  PyText.ofString "/v1/deliveries/00000000-0000-0000-0000-000000000003/replay"

theorem replayDelivery_conceals_state :
    replayDelivery (fun _ => false) othersPath true (Db.othersDb .dead) 3 8 =
      replayDelivery (fun _ => false) othersPath true (Db.othersDb .pending) 3 8 :=
  (replayDelivery_conceals_iff _ _ _ _ _ 3 8 rfl).mpr rfl

/-- Tenant 8 learns from the response whether tenant 9 has the delivery. -/
theorem replayDelivery_reveals_existence :
    Db.AgreeOn 8 (Db.othersDb .dead) .empty ∧
      replayDelivery (fun _ => false) othersPath true (Db.othersDb .dead) 3 8 ≠
        replayDelivery (fun _ => false) othersPath true .empty 3 8 := by
  have hreads : replayDelivery (fun _ => false) othersPath true (Db.othersDb .dead) 3 8 =
      exceptionResponse (fun _ => false) othersPath (.deliveryNotFoundForTenant 8 3) :=
    replayDelivery_foreign rfl
  refine ⟨rfl, ?_⟩
  rw [hreads]
  exact notFound_responses_ne.symm

end RelayWebhooks
