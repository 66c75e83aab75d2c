import RelayWebhooks.Api.Errors
import RelayWebhooks.Repositories.ForgedCursor
import RelayWebhooks.Services.Deliveries

/-! `GET /v1/endpoints` and `GET /v1/dlq`, and how they answer any cursor. -/
namespace RelayWebhooks

structure EndpointRead where
  id : UUID
  url : PyText
  subscribedEventTypes : List PyText
  status : EndpointStatus
  breakerState : BreakerState
  createdAt : ℤ

def EndpointRead.fromDomain (e : Endpoint) : EndpointRead where
  id := e.id
  url := e.url
  subscribedEventTypes := e.subscribedEventTypes.mergeSort (· ≤ ·)
  status := e.status
  breakerState := e.breakerState
  createdAt := e.createdAt

structure DeliveryAttemptRead where
  id : UUID
  attemptNo : ℕ
  latencyMs : ℤ
  responseStatus : Option ℤ
  errorClass : Option AttemptErrorClass
  requestSnippet : Option PgText
  responseSnippet : Option PgText
  requestHeaders : Option (List (PyText × PyText))
  createdAt : ℤ

def DeliveryAttemptRead.fromDomain (a : DeliveryAttempt) : DeliveryAttemptRead where
  id := a.id
  attemptNo := a.attemptNo
  latencyMs := a.latencyMs
  responseStatus := a.responseStatus
  errorClass := a.errorClass
  requestSnippet := a.requestSnippet
  responseSnippet := a.responseSnippet
  requestHeaders := a.requestHeaders
  createdAt := a.createdAt

structure DeadDeliveryRead where
  id : UUID
  eventId : UUID
  endpointId : UUID
  state : DeliveryState
  attemptCount : ℕ
  createdAt : ℤ
  attempts : List DeliveryAttemptRead

def DeadDeliveryRead.fromDetail (detail : DeadDeliveryDetail) : DeadDeliveryRead where
  id := detail.delivery.id
  eventId := detail.delivery.eventId
  endpointId := detail.delivery.endpointId
  state := detail.delivery.state
  attemptCount := detail.delivery.attemptCount
  createdAt := detail.delivery.createdAt
  attempts := detail.attempts.map .fromDomain

/-- The limits the query parameter takes. -/
def ListLimit := { limit : ℤ // 1 ≤ limit ∧ limit ≤ 200 }

section
variable (isPrintable : ℕ → Bool) (path : PyText) (readers : CursorReaders)

/-- A page, or the problem of an invalid query. -/
def Response.PageOr422 {α : Type} (r : Response α) : Prop := r.status = 200 ∨ r.status = 422

instance {α : Type} (r : Response α) : Decidable r.PageOr422 :=
  inferInstanceAs (Decidable (_ ∨ _))

def pageResponse {α : Type} (result : Except Raised (Page α)) : Response (Page α) :=
  match result with
  | .ok page => { status := 200, body := .content page }
  | .error exc => exceptionResponse isPrintable path exc

/-- `GET /v1/endpoints`, authenticated. -/
def listEndpoints (db : Db) (tenantId : UUID) (cursor : Option PyText) (limit : ListLimit) :
    Response (Page EndpointRead) :=
  pageResponse isPrintable path
    ((db.listEndpoints readers tenantId cursor limit.1).map (·.mapItems .fromDomain))

/-- `GET /v1/dlq`, authenticated. -/
def listDeadDeliveries (db : Db) (tenantId : UUID) (cursor : Option PyText) (limit : ListLimit) :
    Response (Page DeadDeliveryRead) :=
  pageResponse isPrintable path
    ((DlqService.listDead db readers tenantId cursor limit.1).map (·.mapItems .fromDetail))

end

section
variable {readers : CursorReaders} {token : PyText} {ρ : Type} (createdAt : ρ → ℤ)
  (id : ρ → UUID) (rows : List ρ)

theorem keysetPage_some (limit : ℤ) :
    keysetPage createdAt id readers rows (some token) limit =
      decodeCursor readers token >>= fun cursor =>
        rowsAfter createdAt id rows (some cursor) >>= fun matching =>
          limitRows (orderByPosition createdAt id matching) (limit + 1) >>= fun read =>
            .ok (toPage createdAt id read limit) := by
  unfold keysetPage
  cases h : decodeCursor readers token <;> simp [h] <;> rfl

/-- A page is read for a cursor the driver takes; any other is rejected here or by the driver. -/
theorem keysetPage_token (limit : ListLimit) :
    (readCursor readers token = none ∧
      keysetPage createdAt id readers rows (some token) limit.1 =
        .error (.cursorDecode token)) ∨
    (∃ cursor, readCursor readers token = some cursor ∧ cursor.1.timestamptz = none ∧
      keysetPage createdAt id readers rows (some token) limit.1 = .error .database) ∨
    ∃ cursor page, readCursor readers token = some cursor ∧ cursor.1.timestamptz.isSome ∧
      keysetPage createdAt id readers rows (some token) limit.1 = .ok page := by
  obtain ⟨limit, hlow, hhigh⟩ := limit
  dsimp only
  rw [keysetPage_some]
  unfold decodeCursor
  cases readCursor readers token with
  | none => exact .inl ⟨rfl, rfl⟩
  | some cursor =>
    obtain ⟨t, u⟩ := cursor
    right
    cases ht : t.timestamptz with
    | none =>
      have hrefused : rowsAfter createdAt id rows (some (t, u)) = .error .database := by
        simp only [rowsAfter, ht]
      refine .inl ⟨_, rfl, ht, ?_⟩
      simp only [bind, Except.bind, hrefused]
    | some utc =>
      have htaken : rowsAfter createdAt id rows (some (t, u)) = .ok (rows.filter fun r =>
          position utc u < position (createdAt r) (id r)) := by
        simp only [rowsAfter, ht]
      have hlimit : 0 ≤ limit + 1 ∧ limit + 1 ≤ bigintMax := by
        unfold bigintMax
        omega
      refine .inr ⟨(t, u), ?_⟩
      simp only [bind, Except.bind, htaken, limitRows, if_pos hlimit, ht]
      simp

variable (isPrintable : ℕ → Bool) (path : PyText)

/-- Only a cursor that the driver refuses is answered with anything but a page or a 422. -/
theorem pageResponse_keysetPage_iff {α : Type} (f : Page ρ → Page α) (limit : ListLimit) :
    (pageResponse isPrintable path
      ((keysetPage createdAt id readers rows (some token) limit.1).map f)).PageOr422 ↔
      ¬∃ cursor, readCursor readers token = some cursor ∧ cursor.1.timestamptz = none := by
  rcases @keysetPage_token readers token ρ createdAt id rows limit with
    ⟨hread, hpage⟩ | ⟨cursor, hread, hrefused, hpage⟩ | ⟨cursor, page, hread, htaken, hpage⟩
  · have hstatus : (exceptionResponse (α := Page α) isPrintable path (.cursorDecode token)).status =
        422 := rfl
    rw [hpage]
    simp [Except.map, pageResponse, Response.PageOr422, hstatus, hread]
  · have hstatus : (exceptionResponse (α := Page α) isPrintable path .database).status = 500 := rfl
    rw [hpage]
    simp [Except.map, pageResponse, Response.PageOr422, hstatus, hread, hrefused]
  · obtain ⟨utc, hutc⟩ := Option.isSome_iff_exists.mp htaken
    rw [hpage]
    simp [Except.map, pageResponse, Response.PageOr422, hread, hutc]

end

section
variable (asciiOf : ℕ → ℕ) (isPrintable : ℕ → Bool) (path : PyText) (db : Db) (tenantId : UUID)
  (token : PyText) (limit : ListLimit)

/-- The driver refuses exactly the naive cursors and those out of its range. -/
theorem refused_iff :
    (¬∃ cursor, readCursor (stdlibReaders asciiOf) token = some cursor ∧
      cursor.1.timestamptz = none) ↔
    ¬ForgesNaive asciiOf token ∧ ¬ForgesOutOfRange asciiOf token := by
  rw [← not_or, forgesNaive_iff, forgesOutOfRange_iff, not_iff_not]
  constructor
  · rintro ⟨⟨createdAt, id⟩, hread, hrefused⟩
    cases hoffset : createdAt.utcoffset with
    | none => exact .inl ⟨createdAt, id, hread, hoffset⟩
    | some offset => exact .inr ⟨createdAt, id, hread, by simp [hoffset], hrefused⟩
  · rintro (⟨createdAt, id, hread, hnaive⟩ | ⟨createdAt, id, hread, -, hrefused⟩)
    · exact ⟨(createdAt, id), hread, by simp [PyDatetime.timestamptz, hnaive]⟩
    · exact ⟨(createdAt, id), hread, hrefused⟩

theorem listEndpoints_status_iff :
    (listEndpoints isPrintable path (stdlibReaders asciiOf) db tenantId (some token)
      limit).PageOr422 ↔
      ¬ForgesNaive asciiOf token ∧ ¬ForgesOutOfRange asciiOf token := by
  rw [← refused_iff]
  exact pageResponse_keysetPage_iff Endpoint.createdAt Endpoint.id
    (db.endpoints.select fun e => e.tenantId = tenantId) isPrintable path _ limit

theorem listDeadDeliveries_status_iff :
    (listDeadDeliveries isPrintable path (stdlibReaders asciiOf) db tenantId (some token)
      limit).PageOr422 ↔
      ¬ForgesNaive asciiOf token ∧ ¬ForgesOutOfRange asciiOf token := by
  have hmap : ∀ result : Except Raised (Page Delivery),
      ((result >>= fun page => return page.mapItems fun d => ⟨d, db.listForDelivery d.id⟩) :
        Except Raised (Page DeadDeliveryDetail)).map (·.mapItems DeadDeliveryRead.fromDetail) =
      result.map fun page => (page.mapItems fun d =>
        (⟨d, db.listForDelivery d.id⟩ : DeadDeliveryDetail)).mapItems .fromDetail := by
    intro result
    cases result <;> rfl
  rw [← refused_iff, listDeadDeliveries, DlqService.listDead, hmap]
  exact pageResponse_keysetPage_iff Delivery.createdAt Delivery.id (db.deadDeliveries tenantId)
    isPrintable path _ limit

end

/-- A token is rejected or decodes to an aware `datetime` unless it forges a naive one; and the
lists answer it with a page or a 422 unless it forges one the driver refuses. -/
theorem forged_cursor_iff (asciiOf : ℕ → ℕ) (isPrintable : ℕ → Bool) (path : PyText)
    (token : PyText) :
    ((decodeCursor (stdlibReaders asciiOf) token = .error (.cursorDecode token) ∨
        ∃ createdAt id, decodeCursor (stdlibReaders asciiOf) token = .ok (createdAt, id) ∧
          createdAt.utcoffset.isSome) ↔
      ¬ForgesNaive asciiOf token) ∧
    ∀ (db : Db) (tenantId : UUID) (limit : ListLimit),
      ((listEndpoints isPrintable path (stdlibReaders asciiOf) db tenantId (some token)
          limit).PageOr422 ↔
        ¬ForgesNaive asciiOf token ∧ ¬ForgesOutOfRange asciiOf token) ∧
      ((listDeadDeliveries isPrintable path (stdlibReaders asciiOf) db tenantId (some token)
          limit).PageOr422 ↔
        ¬ForgesNaive asciiOf token ∧ ¬ForgesOutOfRange asciiOf token) := by
  refine ⟨decodeCursor_aware_iff, ?_⟩
  intro db tenantId limit
  constructor
  · exact listEndpoints_status_iff asciiOf isPrintable path db tenantId token limit
  · exact listDeadDeliveries_status_iff asciiOf isPrintable path db tenantId token limit

/-- The URL-safe base64 of `2024-01-01|` and the nil id. -/
def naiveToken : PyText :=
  PyText.ofString "MjAyNC0wMS0wMXwwMDAwMDAwMC0wMDAwLTAwMDAtMDAwMC0wMDAwMDAwMDAwMDA="

theorem naive_cursor_not_rejected :
    ¬∀ token : PyText,
      (decodeCursor (stdlibReaders fun _ => 0x3f) token = .error (.cursorDecode token) ∨
        ∃ createdAt id, decodeCursor (stdlibReaders fun _ => 0x3f) token = .ok (createdAt, id) ∧
          createdAt.utcoffset.isSome) ∧
      ∀ (db : Db) (tenantId : UUID) (limit : ListLimit),
        (listEndpoints (fun _ => true) [] (stdlibReaders fun _ => 0x3f) db tenantId (some token)
          limit).PageOr422 := by
  intro h
  exact absurd ((h naiveToken).2 .empty 9 ⟨50, by decide⟩) (by decide +kernel)

end RelayWebhooks
