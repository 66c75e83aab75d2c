import RelayWebhooks.Domain.Errors
import RelayWebhooks.Py.Number

/-! The one place where exceptions become responses. Every error is answered with a problem
body; its random `trace_id` is left out. -/
namespace RelayWebhooks

/-- `status` is repeated in the body; `path` is its `instance`. -/
structure Problem where
  type : String
  title : String
  status : ℕ
  detail : PyText
  path : PyText
  deriving DecidableEq

inductive ResponseBody (α : Type) where
  | content (content : α)
  | problem (problem : Problem)
  deriving DecidableEq

/-- The response of a route whose response model is `α`. -/
structure Response (α : Type) where
  status : ℕ
  headers : List (String × PyText) := []
  body : ResponseBody α
  deriving DecidableEq

def typeByStatus : ℕ → String
  | 401 => "/problems/unauthorized"
  | 403 => "/problems/forbidden"
  | 404 => "/problems/not-found"
  | 409 => "/problems/conflict"
  | 422 => "/problems/validation-error"
  | 413 => "/problems/payload-too-large"
  | 429 => "/problems/rate-limited"
  | 500 => "/problems/internal-error"
  | _ => "about:blank"

def titleByStatus : ℕ → String
  | 401 => "Unauthorized"
  | 403 => "Forbidden"
  | 404 => "Not Found"
  | 409 => "Conflict"
  | 413 => "Payload Too Large"
  | 422 => "Validation Error"
  | 429 => "Too Many Requests"
  | 500 => "Internal Server Error"
  | _ => "Error"

/-- The subclasses of `DomainError`. -/
inductive DomainErrorClass where
  | notFound
  | conflict
  | validation
  | rateLimitExceeded
  | payloadTooLarge
  | sandboxQuotaExceeded
  | ssrfBlocked
  deriving DecidableEq

/-- `RateLimitExceeded` is not in the list: its response needs a header. -/
def domainErrorStatus : List (DomainErrorClass × ℕ) :=
  [(.notFound, 404), (.conflict, 409), (.payloadTooLarge, 413), (.sandboxQuotaExceeded, 403),
    (.ssrfBlocked, 422), (.validation, 422)]

/-- No listed status falls back to the default type or title. -/
theorem domainErrorStatus_named :
    ∀ p ∈ domainErrorStatus,
      typeByStatus p.2 ≠ "about:blank" ∧ titleByStatus p.2 ≠ "Error" := by
  decide

def EndpointRejection.message (isPrintable : ℕ → Bool) : EndpointRejection → PyText
  | urlNotHttps url =>
    PyText.ofString "endpoint url must be https: " ++ textRepr isPrintable url
  | urlWithoutHost url =>
    PyText.ofString "endpoint url must have a host: " ++ textRepr isPrintable url
  | noEventTypes => PyText.ofString "subscribed_event_types must not be empty"
  | blankEventType => PyText.ofString "subscribed_event_types must not contain blank entries"

/-- The class of a `DomainError` and its text; `none` for any other exception. -/
def Raised.domainError (isPrintable : ℕ → Bool) : Raised → Option (DomainErrorClass × PyText)
  | notFound message => some (.notFound, message)
  | deliveryNotDead id state => some (.conflict, deliveryNotDeadMessage id state)
  | idempotencyKeyConflict tenantId key =>
    some (.conflict, PyText.ofString "idempotency key conflict for tenant " ++
      uuidRepr tenantId ++ PyText.ofString ": " ++ textRepr isPrintable key)
  | differingBodyConflict tenantId key =>
    some (.conflict, PyText.ofString "idempotency key reused with a differing body for tenant " ++
      uuidRepr tenantId ++ PyText.ofString ": " ++ textRepr isPrintable key)
  | validation rejection => some (.validation, rejection.message isPrintable)
  | rateLimitExceeded retryAfterSeconds =>
    some (.rateLimitExceeded, PyText.ofString "rate limit exceeded, retry after " ++
      fixedTwo retryAfterSeconds ++ PyText.ofString "s")
  | payloadTooLarge actualBytes maxBytes =>
    some (.payloadTooLarge, PyText.ofString "payload too large: " ++ natText actualBytes ++
      PyText.ofString " bytes, max " ++ natText maxBytes)
  | sandboxQuotaExceeded resource limit =>
    some (.sandboxQuotaExceeded, PyText.ofString "sandbox quota exceeded: max " ++
      natText limit ++ PyText.ofString " " ++ resource)
  | cursorDecode token =>
    some (.validation, PyText.ofString "invalid cursor: " ++ textRepr isPrintable token)
  | conflictWithoutRow .. | backoff _ | unicodeEncode | valueError | database => none

section
variable {α : Type} (isPrintable : ℕ → Bool) (path : PyText)

def problemResponse (status : ℕ) (detail : PyText) (headers : List (String × PyText) := []) :
    Response α where
  status := status
  headers := headers
  body := .problem ⟨typeByStatus status, titleByStatus status, status, detail, path⟩

/-- `Retry-After` rounds up to whole seconds. -/
def retryAfterHeader (retryAfterSeconds : ℚ) : String × PyText :=
  ("Retry-After", intText (max 1 ⌈retryAfterSeconds⌉))

def domainErrorHandler (exc : Raised) (errorType : DomainErrorClass) (text : PyText) : Response α :=
  match exc with
  | .rateLimitExceeded retryAfterSeconds =>
    problemResponse path 429 text [retryAfterHeader retryAfterSeconds]
  | _ =>
    match domainErrorStatus.find? fun p => p.1 = errorType with
    | some (_, status) => problemResponse path status text
    | none => problemResponse path 500 (PyText.ofString "internal error")

def unhandledExceptionHandler : Response α :=
  problemResponse path 500 (PyText.ofString "internal server error")

/-- The handler Starlette finds for an exception. -/
def exceptionResponse (exc : Raised) : Response α :=
  match exc.domainError isPrintable with
  | some (errorType, text) => domainErrorHandler path exc errorType text
  | none => unhandledExceptionHandler path

@[simp] theorem exceptionResponse_notFound (message : PyText) :
    exceptionResponse (α := α) isPrintable path (.notFound message) =
      problemResponse path 404 message := rfl

theorem problemResponse_inj {status status' : ℕ} {detail detail' : PyText}
    (h : problemResponse (α := α) path status detail = problemResponse path status' detail') :
    status = status' ∧ detail = detail' := by
  simp only [problemResponse, Response.mk.injEq, ResponseBody.problem.injEq,
    Problem.mk.injEq] at h
  exact ⟨h.1, h.2.2.2.2.2.1⟩

end

end RelayWebhooks
