import RelayWebhooks.Lib.ConsumerGroup
import Mathlib.Data.Finset.Card

/-! Work queues: items are named in the order they arrive, wait until they are taken and are in
flight until they are acknowledged. A consumer group keeps such a queue on its stream. -/

structure WorkQueue where
  issued : ℕ
  waiting : List ℕ
  inFlight : Finset ℕ

namespace WorkQueue

def empty : WorkQueue := ⟨0, [], ∅⟩

def enqueue (q : WorkQueue) : WorkQueue where
  issued := q.issued + 1
  waiting := q.waiting ++ [q.issued]
  inFlight := q.inFlight

/-- The oldest `n` waiting items are handed out. -/
def take (q : WorkQueue) (n : ℕ) : WorkQueue where
  issued := q.issued
  waiting := q.waiting.drop n
  inFlight := q.inFlight ∪ (q.waiting.take n).toFinset

def ack (q : WorkQueue) (i : ℕ) : WorkQueue where
  issued := q.issued
  waiting := q.waiting
  inFlight := q.inFlight.erase i

end WorkQueue

namespace ConsumerGroup
variable {μ κ : Type*}

/-- The entries not yet handed out wait, the pending ones are in flight. -/
structure Keeps (g : ConsumerGroup μ κ) (q : WorkQueue) : Prop where
  issued : q.issued = g.entries.length
  waiting : q.waiting = List.range' g.delivered (g.entries.length - g.delivered)
  inFlight : ∀ i, i ∈ q.inFlight ↔ (g.pending i).isSome

theorem keeps_empty : (empty : ConsumerGroup μ κ).Keeps .empty where
  issued := rfl
  waiting := rfl
  inFlight i := by simp [WorkQueue.empty, empty]

variable {g : ConsumerGroup μ κ} {q : WorkQueue}

theorem Keeps.xadd (h : g.Keeps q) (m : μ) : (g.xadd m).Keeps q.enqueue := by
  have hle := g.delivered_le
  constructor
  · simp [WorkQueue.enqueue, h.issued]
  · have hlength : (g.entries ++ [m]).length - g.delivered =
        g.entries.length - g.delivered + 1 := by
      rw [List.length_append, List.length_singleton]
      omega
    simp only [WorkQueue.enqueue, xadd_entries, xadd_delivered]
    rw [hlength, List.range'_1_concat, h.waiting, h.issued]
    congr 2
    omega
  · exact h.inFlight

/-- A read of up to `n` entries takes the oldest ones. -/
theorem Keeps.take_waiting (h : g.Keeps q) (n : ℕ) : q.waiting.take n = g.unread n := by
  rw [h.waiting, unread]
  rcases le_or_gt n (g.entries.length - g.delivered) with hn | hn
  · rw [List.take_range'_of_length_ge hn, min_eq_left hn]
  · rw [List.take_range'_of_length_le hn.le, min_eq_right hn.le]

theorem Keeps.xreadgroup (h : g.Keeps q) (c : κ) (n : ℕ) :
    (g.xreadgroup c n).Keeps (q.take n) := by
  constructor
  · exact h.issued
  · simp only [WorkQueue.take, ConsumerGroup.xreadgroup]
    rw [h.waiting, List.drop_range']
    rcases le_or_gt n (g.entries.length - g.delivered) with hn | hn
    · rw [min_eq_left hn, Nat.mul_one]
      congr 1
      omega
    · rw [min_eq_right hn.le, show g.entries.length - g.delivered - n = 0 by omega,
        show g.entries.length - (g.delivered + (g.entries.length - g.delivered)) = 0 by omega]
      rfl
  · intro i
    simp only [WorkQueue.take, ConsumerGroup.xreadgroup, Finset.mem_union, List.mem_toFinset,
      h.take_waiting, h.inFlight]
    by_cases hi : i ∈ g.unread n
    · simp [hi]
    · simp [hi]

theorem Keeps.xack (h : g.Keeps q) (i : ℕ) : (g.xack i).Keeps (q.ack i) := by
  constructor
  · exact h.issued
  · exact h.waiting
  · intro j
    simp only [WorkQueue.ack, ConsumerGroup.xack, Finset.mem_erase, h.inFlight,
      Function.update_apply]
    by_cases hj : j = i
    · simp [hj]
    · simp [hj]

/-- Claiming a pending entry keeps it in flight. -/
theorem Keeps.xautoclaim (h : g.Keeps q) (c : κ) (stale : ℕ → Bool) (n : ℕ) :
    (g.xautoclaim c stale n).Keeps q := by
  constructor
  · exact h.issued
  · exact h.waiting
  · intro i
    simp only [ConsumerGroup.xautoclaim, h.inFlight]
    split
    next hi =>
      have hp := (List.mem_filter.mp (List.mem_of_mem_take hi)).2
      simp [(Bool.and_eq_true_iff.mp hp).1]
    next => rfl

/-- What is stored is what waits and everything that was ever handed out. -/
theorem Keeps.xlen_eq (h : g.Keeps q) : g.xlen = q.waiting.length + g.delivered := by
  have hle := g.delivered_le
  rw [xlen, h.waiting, List.length_range']
  omega

theorem Keeps.xpending_eq (h : g.Keeps q) : g.xpending = q.inFlight.card := by
  have hset : q.inFlight =
      ((List.range g.delivered).filter fun i => (g.pending i).isSome).toFinset := by
    ext i
    rw [h.inFlight, List.mem_toFinset, List.mem_filter, List.mem_range]
    refine (and_iff_right_of_imp fun hi => ?_).symm
    obtain ⟨c, hc⟩ := Option.isSome_iff_exists.mp hi
    exact g.pending_lt i c hc
  rw [xpending, List.countP_eq_length_filter, hset,
    List.toFinset_card_of_nodup (List.nodup_range.filter _)]

end ConsumerGroup
