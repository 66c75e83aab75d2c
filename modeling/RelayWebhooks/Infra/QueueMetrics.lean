import RelayWebhooks.Infra.Streams
import RelayWebhooks.Lib.Transition
import RelayWebhooks.Lib.WorkQueue

/-! The gauges the dispatcher samples from the delivery stream. -/
namespace RelayWebhooks

/-- The calls on the delivery stream. An entry is named by its position, and `stale` tells which
pending ones have been idle long enough. The client refuses a count below 1. -/
inductive StreamCall where
  | enqueueDelivery (deliveryId : UUID) (correlationId : Option PyText)
  | readDeliveries (consumer : ℕ) (count : ℤ)
  | ackDelivery (messageId : ℕ)
  | claimStaleDeliveries (consumer : ℕ) (stale : ℕ → Bool) (count : ℤ)

namespace DeliveryStream

/-- `stream_depth`. -/
def streamDepth (s : DeliveryStream) : ℕ := s.xlen

def pendingCount (s : DeliveryStream) : ℕ := s.xpending

end DeliveryStream

namespace StreamCall

def apply (s : DeliveryStream) : StreamCall → DeliveryStream
  | enqueueDelivery deliveryId correlationId => s.enqueueDelivery deliveryId correlationId
  | readDeliveries consumer count => s.xreadgroup consumer count.toNat
  | ackDelivery messageId => s.xack messageId
  | claimStaleDeliveries consumer stale count => s.xautoclaim consumer stale count.toNat

/-- What the call does to the queue the stream is used as. -/
def applyQueue (q : WorkQueue) : StreamCall → WorkQueue
  | enqueueDelivery .. => q.enqueue
  | readDeliveries _ count => q.take count.toNat
  | ackDelivery messageId => q.ack messageId
  | claimStaleDeliveries .. => q

/-- The never-delivered entries the call hands to a consumer. -/
def handedOut (s : DeliveryStream) : StreamCall → List ℕ
  | readDeliveries _ count => s.unread count.toNat
  | enqueueDelivery .. | ackDelivery _ | claimStaleDeliveries .. => []

def step (s : DeliveryStream) (a : StreamCall) : Option DeliveryStream := some (a.apply s)

def stepQueue (q : WorkQueue) (a : StreamCall) : Option WorkQueue := some (a.applyQueue q)

variable {s t : DeliveryStream} {q : WorkQueue} {a : StreamCall} {as : List StreamCall}

theorem keeps_apply (h : s.Keeps q) (a : StreamCall) : (a.apply s).Keeps (a.applyQueue q) := by
  cases a with
  | enqueueDelivery deliveryId correlationId => exact h.xadd _
  | readDeliveries consumer count => exact h.xreadgroup consumer count.toNat
  | ackDelivery messageId => exact h.xack messageId
  | claimStaleDeliveries consumer stale count => exact h.xautoclaim consumer stale count.toNat

theorem delivered_apply (s : DeliveryStream) (a : StreamCall) :
    (a.apply s).delivered = s.delivered + (a.handedOut s).length := by
  cases a with
  | readDeliveries consumer count =>
    simp [apply, handedOut, ConsumerGroup.xreadgroup, ConsumerGroup.unread]
  | enqueueDelivery | ackDelivery | claimStaleDeliveries => rfl

theorem delivered_le_run (h : Transition.run step s as = some t) : s.delivered ≤ t.delivered := by
  refine Transition.run_invariant (I := fun u => s.delivered ≤ u.delivered) ?_ le_rfl h
  intro u a v hle hstep
  obtain rfl := Option.some.inj hstep
  rw [delivered_apply]
  omega

/-- A run that ends with as many delivered entries as it began with handed none out. -/
theorem delivered_eq_iff (h : Transition.run step s as = some t) :
    t.delivered = s.delivered ↔
      Transition.Always step (fun s a _ => a.handedOut s = []) s as := by
  induction as generalizing s with
  | nil =>
    obtain rfl := Option.some.inj h
    simp
  | cons a as ih =>
    obtain ⟨u, hu, h⟩ := Transition.run_cons_eq_some.mp h
    obtain rfl := Option.some.inj hu
    have hmono := delivered_le_run h
    have hstep := delivered_apply s a
    constructor
    · intro heq v hv
      obtain rfl := Option.some.inj hv
      exact ⟨List.length_eq_zero_iff.mp (by omega), (ih h).mp (by omega)⟩
    · intro hall
      obtain ⟨hnone, hrest⟩ := hall _ rfl
      have heq := (ih h).mpr hrest
      rw [hnone, List.length_nil] at hstep
      omega

end StreamCall

/-- In every run the pending count is the number of entries in flight, and the stream depth the
number of waiting ones plus all that were ever handed out: it is the backlog exactly as long as
no read has returned an entry. -/
theorem queue_metrics_iff (calls : List StreamCall) :
    ∃ s q, Transition.run StreamCall.step .empty calls = some s ∧
      Transition.run StreamCall.stepQueue .empty calls = some q ∧
      s.pendingCount = q.inFlight.card ∧
      s.streamDepth = q.waiting.length + s.delivered ∧
      (s.streamDepth = q.waiting.length ↔
        Transition.Always StreamCall.step (fun s a _ => a.handedOut s = []) .empty calls) := by
  obtain ⟨s, hs⟩ := Transition.exists_run (fun s a => ⟨StreamCall.apply s a, rfl⟩) .empty calls
  have hsim : ∀ (s : DeliveryStream) (q : WorkQueue) (a : StreamCall) (t : DeliveryStream),
      s.Keeps q → True → StreamCall.step s a = some t →
        ∃ v, StreamCall.stepQueue q a = some v ∧ t.Keeps v := by
    intro s q a t hkeeps _ ht
    obtain rfl := Option.some.inj ht
    exact ⟨_, rfl, StreamCall.keeps_apply hkeeps a⟩
  obtain ⟨q, hq, hkeeps⟩ := Transition.run_simulates (P := fun _ => True) hsim
    ConsumerGroup.keeps_empty (by simp) hs
  have hdepth : s.streamDepth = q.waiting.length + s.delivered := hkeeps.xlen_eq
  refine ⟨s, q, hs, hq, hkeeps.xpending_eq, hdepth, ?_⟩
  rw [← StreamCall.delivered_eq_iff hs, hdepth]
  constructor
  · intro h
    show s.delivered = 0
    omega
  · intro h
    change s.delivered = 0 at h
    omega

/-- One entry is enqueued, read and acked: nothing waits, and the stream depth is 1. -/
theorem stream_depth_counts_acked :
    ¬∀ (calls : List StreamCall) (s : DeliveryStream) (q : WorkQueue),
      Transition.run StreamCall.step .empty calls = some s →
      Transition.run StreamCall.stepQueue .empty calls = some q →
      s.streamDepth = q.waiting.length := by
  intro h
  have hdepth := h [.enqueueDelivery 3 none, .readDeliveries 1 10, .ackDelivery 0] _ _ rfl rfl
  exact absurd hdepth (by decide)

end RelayWebhooks
