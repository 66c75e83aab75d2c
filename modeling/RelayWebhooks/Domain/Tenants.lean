import RelayWebhooks.Lib.Table
import RelayWebhooks.Py.Text

/-! Tenants. -/
namespace RelayWebhooks

structure Tenant where
  id : UUID
  name : PyText
  createdAt : ℤ
  deletedAt : Option ℤ := none
  isSandbox : Bool := false
  deriving DecidableEq

instance : Keyed Tenant UUID := ⟨Tenant.id⟩

namespace Tenant

@[simp] theorem key_eq (t : Tenant) : Keyed.key t = t.id := rfl

def isDeleted (t : Tenant) : Bool := t.deletedAt.isSome

end Tenant

end RelayWebhooks
