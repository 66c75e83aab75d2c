import RelayWebhooks.Domain.Deliveries

/-! Endpoint entities and the circuit breaker's transition rules. -/
namespace RelayWebhooks

inductive EndpointStatus where
  | active
  | disabled
  deriving DecidableEq, Repr

/-- `opened` is the state the code calls `OPEN`. -/
inductive BreakerState where
  | closed
  | opened
  | halfOpen
  deriving DecidableEq, Repr

def BreakerState.value : BreakerState → String
  | closed => "closed"
  | opened => "open"
  | halfOpen => "half_open"

/-- A signing secret, drawn by `secrets.token_urlsafe`. -/
structure Secret where
  text : PyText
  printable : text.Printable
  deriving DecidableEq

/-- The breaker columns of an endpoint row. -/
structure BreakerTransition where
  state : BreakerState
  consecutiveFailures : ℕ
  openedAt : Option ℤ
  deriving DecidableEq, Repr

structure Endpoint where
  id : UUID
  tenantId : UUID
  url : PyText
  secret : Secret
  subscribedEventTypes : List PyText
  createdAt : ℤ
  status : EndpointStatus := .active
  breakerState : BreakerState := .closed
  openedAt : Option ℤ := none
  consecutiveFailures : ℕ := 0
  deriving DecidableEq

instance : Keyed Endpoint UUID := ⟨Endpoint.id⟩

namespace Endpoint

@[simp] theorem key_eq (e : Endpoint) : Keyed.key e = e.id := rfl

def isActive (e : Endpoint) : Bool := e.status = .active

def isSubscribedTo (e : Endpoint) (eventType : PyText) : Bool :=
  eventType ∈ e.subscribedEventTypes

def breaker (e : Endpoint) : BreakerTransition :=
  ⟨e.breakerState, e.consecutiveFailures, e.openedAt⟩

def withBreaker (e : Endpoint) (b : BreakerTransition) : Endpoint :=
  { e with breakerState := b.state, consecutiveFailures := b.consecutiveFailures,
           openedAt := b.openedAt }

@[simp] theorem withBreaker_id (e : Endpoint) (b : BreakerTransition) :
    (e.withBreaker b).id = e.id := rfl

@[simp] theorem withBreaker_breaker (e : Endpoint) (b : BreakerTransition) :
    (e.withBreaker b).breaker = b := rfl

@[simp] theorem withBreaker_self (e : Endpoint) : e.withBreaker e.breaker = e := rfl

end Endpoint

def shouldSkipForOpenBreaker (state : BreakerState) (openedAt : Option ℤ) (now cooldown : ℤ) :
    Bool :=
  if state ≠ .opened then false
  else
    match openedAt with
    | none => false
    | some openedAt => now - openedAt < cooldown

def nextBreakerState (currentState : BreakerState) (consecutiveFailures : ℕ) (now : ℤ)
    (success : Bool) (failureThreshold : ℕ) : BreakerTransition :=
  if success then ⟨.closed, 0, none⟩
  else
    let failures := consecutiveFailures + 1
    if currentState = .halfOpen then ⟨.opened, failures, some now⟩
    else if failureThreshold ≤ failures then ⟨.opened, failures, some now⟩
    else ⟨.closed, failures, none⟩

theorem shouldSkip_eq_true {state : BreakerState} {openedAt : Option ℤ}
    {now cooldown : ℤ} :
    shouldSkipForOpenBreaker state openedAt now cooldown = true ↔
      state = .opened ∧ ∃ t, openedAt = some t ∧ now - t < cooldown := by
  unfold shouldSkipForOpenBreaker
  split
  next h => simp [h]
  next h =>
    cases openedAt with
    | none => simp
    | some t => simpa using fun _ => not_not.mp h

/-- An open breaker that lets an attempt through has cooled down. -/
theorem cooled_of_not_skip {openedAt : Option ℤ} {t now cooldown : ℤ}
    (h : shouldSkipForOpenBreaker .opened openedAt now cooldown = false)
    (ht : openedAt = some t) : t + cooldown ≤ now := by
  subst ht
  have hc : ¬now - t < cooldown := by simpa [shouldSkipForOpenBreaker] using h
  omega

theorem nextBreakerState_success (s : BreakerState) (n : ℕ) (now : ℤ) (threshold : ℕ) :
    nextBreakerState s n now true threshold = ⟨.closed, 0, none⟩ := rfl

theorem nextBreakerState_failures (s : BreakerState) (n : ℕ) (now : ℤ) (threshold : ℕ) :
    (nextBreakerState s n now false threshold).consecutiveFailures = n + 1 := by
  simp only [nextBreakerState, Bool.false_eq_true, if_false]
  split_ifs <;> rfl

theorem nextBreakerState_opened_of_threshold {s : BreakerState} {n : ℕ} {now : ℤ}
    {threshold : ℕ} (h : threshold ≤ n + 1) :
    (nextBreakerState s n now false threshold).state = .opened := by
  simp only [nextBreakerState, Bool.false_eq_true, if_false, if_pos h]
  split_ifs <;> rfl

end RelayWebhooks
