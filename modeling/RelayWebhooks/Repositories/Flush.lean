import RelayWebhooks.Repositories.Db

/-! What a flush writes. The UPDATE of a changed row sets the columns that differ from the
values the row was loaded with, and leaves the others to whatever the row holds by then. -/
namespace RelayWebhooks

/-- The new value of a column, when the flush writes it. -/
def changed {α : Type} [DecidableEq α] (loaded new : α) : Option α :=
  if new = loaded then none else some new

theorem getD_changed {α : Type} [DecidableEq α] {loaded new current : α}
    (h : new = loaded → current = loaded) : (changed loaded new).getD current = new := by
  unfold changed
  split
  next hn => simp [h hn, hn]
  next => rfl

/-- The breaker columns an UPDATE of an endpoint sets. -/
structure BreakerPatch where
  state : Option BreakerState := none
  consecutiveFailures : Option ℕ := none
  openedAt : Option (Option ℤ) := none
  deriving DecidableEq

namespace BreakerPatch

def diff (loaded new : BreakerTransition) : BreakerPatch where
  state := changed loaded.state new.state
  consecutiveFailures := changed loaded.consecutiveFailures new.consecutiveFailures
  openedAt := changed loaded.openedAt new.openedAt

def apply (p : BreakerPatch) (b : BreakerTransition) : BreakerTransition where
  state := p.state.getD b.state
  consecutiveFailures := p.consecutiveFailures.getD b.consecutiveFailures
  openedAt := p.openedAt.getD b.openedAt

/-- Both UPDATEs of one transaction, the later one last. -/
def andThen (p q : BreakerPatch) : BreakerPatch where
  state := q.state.or p.state
  consecutiveFailures := q.consecutiveFailures.or p.consecutiveFailures
  openedAt := q.openedAt.or p.openedAt

/-- No UPDATE is sent. -/
def IsEmpty (p : BreakerPatch) : Prop := p = {}

instance (p : BreakerPatch) : Decidable p.IsEmpty := inferInstanceAs (Decidable (_ = _))

/-- The row as the transaction that wrote the columns sees it. -/
def view (p : BreakerPatch) (e : Endpoint) : Endpoint := e.withBreaker (p.apply e.breaker)

@[simp] theorem empty_apply (b : BreakerTransition) : ({} : BreakerPatch).apply b = b := rfl

@[simp] theorem empty_view (e : Endpoint) : ({} : BreakerPatch).view e = e := rfl

@[simp] theorem view_id (p : BreakerPatch) (e : Endpoint) : (p.view e).id = e.id := rfl

@[simp] theorem view_breaker (p : BreakerPatch) (e : Endpoint) :
    (p.view e).breaker = p.apply e.breaker := rfl

theorem andThen_apply (p q : BreakerPatch) (b : BreakerTransition) :
    (p.andThen q).apply b = q.apply (p.apply b) := by
  simp only [andThen, apply, BreakerTransition.mk.injEq]
  refine ⟨?_, ?_, ?_⟩
  · cases q.state <;> rfl
  · cases q.consecutiveFailures <;> rfl
  · cases q.openedAt <;> rfl

/-- Over the row it was computed from, an UPDATE leaves exactly the new values. -/
theorem diff_apply (loaded new : BreakerTransition) : (diff loaded new).apply loaded = new := by
  simp only [diff, apply, getD_changed fun _ => rfl]

end BreakerPatch

/-- The columns an UPDATE of a delivery sets. -/
structure DeliveryPatch where
  state : Option DeliveryState
  attemptCount : Option ℕ
  nextRetryAt : Option (Option ℤ)
  deriving DecidableEq

namespace DeliveryPatch

/-- The UPDATE a writer sends after it loaded the row. -/
def ofWrite (w : DeliveryWrite) (loaded : Delivery) : DeliveryPatch where
  state := changed loaded.state (w.apply loaded).state
  attemptCount := changed loaded.attemptCount (w.apply loaded).attemptCount
  nextRetryAt := changed loaded.nextRetryAt (w.apply loaded).nextRetryAt

def apply (p : DeliveryPatch) (d : Delivery) : Delivery :=
  { d with
    state := p.state.getD d.state
    attemptCount := p.attemptCount.getD d.attemptCount
    nextRetryAt := p.nextRetryAt.getD d.nextRetryAt }

@[simp] theorem apply_id (p : DeliveryPatch) (d : Delivery) : (p.apply d).id = d.id := rfl

@[simp] theorem apply_endpointId (p : DeliveryPatch) (d : Delivery) :
    (p.apply d).endpointId = d.endpointId := rfl

/-- The state stays only where the write would not change the row it loaded. -/
theorem ofWrite_state (w : DeliveryWrite) (loaded d : Delivery) :
    ((ofWrite w loaded).apply d).state = if w.state = loaded.state then d.state else w.state := by
  simp only [apply, ofWrite, changed, DeliveryWrite.apply_state]
  split <;> rfl

/-- Over the row it was computed from, an UPDATE is the write itself. -/
theorem ofWrite_apply (w : DeliveryWrite) (d : Delivery) : (ofWrite w d).apply d = w.apply d := by
  simp only [apply, ofWrite, getD_changed fun _ => rfl]
  cases w <;> rfl

end DeliveryPatch

end RelayWebhooks
