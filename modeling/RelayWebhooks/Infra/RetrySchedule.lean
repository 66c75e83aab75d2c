import RelayWebhooks.Lib.SortedSet
import RelayWebhooks.Infra.Streams

/-! The retry ZSET: deliveries that wait for their next attempt, scored by its time. -/
namespace RelayWebhooks

structure DueRetry where
  deliveryId : UUID
  correlationId : Option PyText
  deriving DecidableEq, Repr

/-- A member is the JSON envelope `schedule_retry` writes, a bare id from before the envelope
existed, or any other text, with what `_parse_member` makes of it; `none` if it raises. -/
inductive RetryMember where
  | envelope (deliveryId : UUID) (correlationId : Option PyText)
  | bare (deliveryId : UUID)
  | other (text : PyText) (parsed : Option DueRetry)
  deriving DecidableEq, Repr

def parseMember : RetryMember → Option DueRetry
  | .envelope deliveryId correlationId => some ⟨deliveryId, correlationId⟩
  | .bare deliveryId => some ⟨deliveryId, none⟩
  | .other _ parsed => parsed

abbrev RetryZset := SortedSet RetryMember

/-- A due member as it was popped, with what it says. -/
structure PoppedRetry where
  scored : Scored RetryMember
  retry : DueRetry
  parsed : parseMember scored.member = some retry
  deriving DecidableEq

/-- The list the scheduler gets; one member that cannot be parsed raises for all of them. -/
def parseMembers : List (Scored RetryMember) → Option (List PoppedRetry)
  | [] => some []
  | x :: xs =>
    match h : parseMember x.member, parseMembers xs with
    | some r, some ps => some (⟨x, r, h⟩ :: ps)
    | _, _ => none

namespace RetryZset

def scheduleRetry (z : RetryZset) (deliveryId : UUID) (nextRetryAt : ℤ)
    (correlationId : Option PyText := none) : RetryZset :=
  SortedSet.zadd z (.envelope deliveryId correlationId) nextRetryAt

/-- Pops the due members in one script, then parses them. `le` is the order of the members'
texts. -/
def popDueRetries (le : RetryMember → RetryMember → Bool) (z : RetryZset) (now : ℤ)
    (limit : ℕ) : Option (List PoppedRetry) × RetryZset :=
  (parseMembers (SortedSet.popDue le z now limit).1, (SortedSet.popDue le z now limit).2)

/-- A member names the delivery. -/
def Carries (z : RetryZset) (deliveryId : UUID) : Prop :=
  ∃ x r, z.get x = some r ∧ ∃ d, parseMember x = some d ∧ d.deliveryId = deliveryId

theorem carries_scheduleRetry (z : RetryZset) (id : UUID) (t : ℤ) (c : Option PyText) :
    (z.scheduleRetry id t c).Carries id :=
  ⟨.envelope id c, _, SortedSet.get_zadd_self z _ t, ⟨id, c⟩, rfl, rfl⟩

/-- A member may only move to a new score. -/
theorem Carries.scheduleRetry {z : RetryZset} {id id' : UUID} {t : ℤ} {c : Option PyText}
    (h : z.Carries id) : (z.scheduleRetry id' t c).Carries id := by
  obtain ⟨k, r, hr, d, hparse, hid⟩ := h
  by_cases hk : k = .envelope id' c
  · subst hk
    exact ⟨_, _, SortedSet.get_zadd_self z _ t, d, hparse, hid⟩
  · exact ⟨k, r, (SortedSet.get_zadd_ne z t hk).trans hr, d, hparse, hid⟩

/-- What `schedule_retry` writes can be parsed. -/
theorem forall_scheduleRetry {z : RetryZset} {id : UUID} {t : ℤ} {c : Option PyText}
    (h : ∀ x ∈ z.rows, (parseMember x.member).isSome) :
    ∀ x ∈ (z.scheduleRetry id t c).rows, (parseMember x.member).isSome := by
  intro x hx
  rcases SortedSet.mem_zadd hx with rfl | hx
  · rfl
  · exact h x hx

end RetryZset

theorem parseMembers_scored {xs : List (Scored RetryMember)} {ps : List PoppedRetry}
    (h : parseMembers xs = some ps) : ps.map PoppedRetry.scored = xs := by
  induction xs generalizing ps with
  | nil =>
    obtain rfl : [] = ps := Option.some.inj h
    rfl
  | cons x xs ih =>
    unfold parseMembers at h
    split at h
    next r qs hr hqs =>
      obtain rfl := Option.some.inj h
      rw [List.map_cons, ih hqs]
    next => cases h

theorem parseMembers_isSome {xs : List (Scored RetryMember)} :
    (parseMembers xs).isSome ↔ ∀ x ∈ xs, (parseMember x.member).isSome := by
  induction xs with
  | nil => simp [parseMembers]
  | cons x xs ih =>
    rw [List.forall_mem_cons, ← ih]
    rw [parseMembers]
    split
    next hr hqs => simp [hr, hqs]
    next hn =>
      constructor
      · intro h
        cases h
      rintro ⟨hx, hxs⟩
      obtain ⟨r, hr⟩ := Option.isSome_iff_exists.mp hx
      obtain ⟨qs, hqs⟩ := Option.isSome_iff_exists.mp hxs
      exact absurd hqs (hn r qs hr)

end RelayWebhooks
