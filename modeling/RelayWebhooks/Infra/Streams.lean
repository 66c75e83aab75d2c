import RelayWebhooks.Lib.ConsumerGroup
import RelayWebhooks.Py.Text

/-! The delivery stream and its consumer group. A consumer is named by a number. -/
namespace RelayWebhooks

structure DeliveryMessage where
  deliveryId : UUID
  correlationId : Option PyText
  deriving DecidableEq, Repr

abbrev DeliveryStream := ConsumerGroup DeliveryMessage ℕ

namespace DeliveryStream

def enqueueDelivery (s : DeliveryStream) (deliveryId : UUID)
    (correlationId : Option PyText := none) : DeliveryStream :=
  s.xadd ⟨deliveryId, correlationId⟩

/-- An unacked entry names the delivery. -/
def Carries (s : DeliveryStream) (deliveryId : UUID) : Prop :=
  ∃ i m, s.entries[i]? = some m ∧ m.deliveryId = deliveryId ∧ s.Unacked i

theorem carries_enqueueDelivery (s : DeliveryStream) (id : UUID) (c : Option PyText) :
    Carries (enqueueDelivery s id c) id :=
  ⟨s.entries.length, ⟨id, c⟩, s.entries_xadd_length _, rfl, s.unacked_xadd _⟩

end DeliveryStream

end RelayWebhooks
