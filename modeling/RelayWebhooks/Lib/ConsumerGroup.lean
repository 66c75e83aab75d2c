import Mathlib.Logic.Function.Basic
import Mathlib.Data.List.Basic
import Mathlib.Data.List.Nodup

/-! An append-only stream read by one consumer group. An entry is named by its position;
the group hands entries out in order and keeps each one pending until it is acknowledged. -/

structure ConsumerGroup (μ κ : Type*) where
  entries : List μ
  /-- The number of entries some consumer of the group was handed. -/
  delivered : ℕ
  /-- The consumer that holds a pending entry. -/
  pending : ℕ → Option κ
  delivered_le : delivered ≤ entries.length
  pending_lt : ∀ i c, pending i = some c → i < delivered

namespace ConsumerGroup

variable {μ κ : Type*}

def empty : ConsumerGroup μ κ := ⟨[], 0, fun _ => none, Nat.le_refl _, by simp⟩

def xadd (g : ConsumerGroup μ κ) (m : μ) : ConsumerGroup μ κ where
  entries := g.entries ++ [m]
  delivered := g.delivered
  pending := g.pending
  delivered_le := by simpa using Nat.le_succ_of_le g.delivered_le
  pending_lt := g.pending_lt

/-- The entries one read of up to `count` never-delivered entries returns. -/
def unread (g : ConsumerGroup μ κ) (count : ℕ) : List ℕ :=
  List.range' g.delivered (min count (g.entries.length - g.delivered))

def xreadgroup (g : ConsumerGroup μ κ) (c : κ) (count : ℕ) : ConsumerGroup μ κ where
  entries := g.entries
  delivered := g.delivered + min count (g.entries.length - g.delivered)
  pending i := if i ∈ g.unread count then some c else g.pending i
  delivered_le := by
    have := g.delivered_le
    omega
  pending_lt i c' h := by
    split at h
    next hi => simpa [unread] using (List.mem_range'_1.mp hi).2
    next => exact Nat.lt_of_lt_of_le (g.pending_lt i c' h) (Nat.le_add_right _ _)

def xack (g : ConsumerGroup μ κ) (i : ℕ) : ConsumerGroup μ κ where
  entries := g.entries
  delivered := g.delivered
  pending := Function.update g.pending i none
  delivered_le := g.delivered_le
  pending_lt j c h := by
    rw [Function.update_apply] at h
    split at h
    next => exact absurd h (by simp)
    next => exact g.pending_lt j c h

/-- The pending entries one claim of up to `count` stale entries hands over, oldest first. -/
def stalePending (g : ConsumerGroup μ κ) (stale : ℕ → Bool) (count : ℕ) : List ℕ :=
  ((List.range g.delivered).filter fun i => (g.pending i).isSome && stale i).take count

def xautoclaim (g : ConsumerGroup μ κ) (c : κ) (stale : ℕ → Bool) (count : ℕ) :
    ConsumerGroup μ κ where
  entries := g.entries
  delivered := g.delivered
  pending i := if i ∈ g.stalePending stale count then some c else g.pending i
  delivered_le := g.delivered_le
  pending_lt i c' h := by
    split at h
    next hi => simpa using (List.mem_filter.mp (List.mem_of_mem_take hi)).1
    next => exact g.pending_lt i c' h

/-- The entries the stream stores: an acknowledgement removes none. -/
def xlen (g : ConsumerGroup μ κ) : ℕ := g.entries.length

/-- The pending entries of all consumers. -/
def xpending (g : ConsumerGroup μ κ) : ℕ :=
  (List.range g.delivered).countP fun i => (g.pending i).isSome

/-- The entry is on the stream and was not acknowledged: not yet delivered, or pending. -/
def Unacked (g : ConsumerGroup μ κ) (i : ℕ) : Prop :=
  i < g.entries.length ∧ (i < g.delivered → (g.pending i).isSome)

instance (g : ConsumerGroup μ κ) (i : ℕ) : Decidable (g.Unacked i) :=
  inferInstanceAs (Decidable (_ ∧ _))

@[simp] theorem xadd_entries (g : ConsumerGroup μ κ) (m : μ) :
    (g.xadd m).entries = g.entries ++ [m] := rfl

@[simp] theorem xadd_delivered (g : ConsumerGroup μ κ) (m : μ) :
    (g.xadd m).delivered = g.delivered := rfl

@[simp] theorem xreadgroup_entries (g : ConsumerGroup μ κ) (c : κ) (n : ℕ) :
    (g.xreadgroup c n).entries = g.entries := rfl

@[simp] theorem xack_entries (g : ConsumerGroup μ κ) (i : ℕ) :
    (g.xack i).entries = g.entries := rfl

@[simp] theorem xautoclaim_entries (g : ConsumerGroup μ κ) (c : κ) (stale : ℕ → Bool) (n : ℕ) :
    (g.xautoclaim c stale n).entries = g.entries := rfl

@[simp] theorem xautoclaim_delivered (g : ConsumerGroup μ κ) (c : κ) (stale : ℕ → Bool)
    (n : ℕ) : (g.xautoclaim c stale n).delivered = g.delivered := rfl

theorem mem_unread {g : ConsumerGroup μ κ} {n i : ℕ} :
    i ∈ g.unread n ↔ g.delivered ≤ i ∧ i < g.delivered + min n (g.entries.length - g.delivered) :=
  List.mem_range'_1

theorem Unacked.xadd {g : ConsumerGroup μ κ} {i : ℕ} (h : g.Unacked i) (m : μ) :
    (g.xadd m).Unacked i :=
  ⟨by simpa using Nat.lt_succ_of_lt h.1, h.2⟩

/-- A fresh entry starts out unacked. -/
theorem unacked_xadd (g : ConsumerGroup μ κ) (m : μ) :
    (g.xadd m).Unacked g.entries.length := by
  refine ⟨by simp, fun h => ?_⟩
  exact absurd h (Nat.not_lt.mpr g.delivered_le)

theorem entries_xadd_of_some {g : ConsumerGroup μ κ} {i : ℕ} {x : μ} (h : g.entries[i]? = some x)
    (m : μ) : (g.xadd m).entries[i]? = some x := by
  rw [xadd_entries, List.getElem?_append_left (List.getElem?_eq_some_iff.mp h).1, h]

theorem entries_xadd_length (g : ConsumerGroup μ κ) (m : μ) :
    (g.xadd m).entries[g.entries.length]? = some m := by simp

theorem unacked_of_mem_unread {g : ConsumerGroup μ κ} {n i : ℕ} (h : i ∈ g.unread n) :
    g.Unacked i := by
  have hi := mem_unread.mp h
  refine ⟨by omega, fun hlt => ?_⟩
  omega

theorem unacked_of_mem_stalePending {g : ConsumerGroup μ κ} {stale : ℕ → Bool} {n i : ℕ}
    (h : i ∈ g.stalePending stale n) : g.Unacked i := by
  obtain ⟨hi, hp⟩ := List.mem_filter.mp (List.mem_of_mem_take h)
  have hlt : i < g.delivered := List.mem_range.mp hi
  exact ⟨Nat.lt_of_lt_of_le hlt g.delivered_le, fun _ => (Bool.and_eq_true_iff.mp hp).1⟩

/-- What is not among the first of distinct elements. -/
theorem countP_notMem_take {α : Type*} [DecidableEq α] {l : List α} (hl : l.Nodup) (n : ℕ) :
    l.countP (fun x => x ∉ l.take n) = l.length - n := by
  have htake : l.countP (fun x => x ∈ l.take n) = (l.take n).length := by
    rw [List.countP_eq_length_filter]
    conv_rhs => rw [hl.take_eq_filter_mem]
    congr 1
    refine List.filter_congr fun x _ => ?_
    simp
  have hsum := @List.length_eq_countP_add_countP _ (fun x => decide (x ∈ l.take n)) l
  simp only [decide_not]
  rw [List.length_take] at htake
  simp only [Bool.decide_eq_true, decide_not] at hsum
  omega

/-- Fewer entries are pending when none becomes pending. -/
theorem xpending_le {g g' : ConsumerGroup μ κ} (hd : g'.delivered = g.delivered)
    (hp : ∀ i, (g'.pending i).isSome → (g.pending i).isSome) : g'.xpending ≤ g.xpending := by
  unfold xpending
  rw [hd]
  exact List.countP_mono_left fun i _ => hp i

/-- Acking all that a claim takes, when every pending entry is stale. -/
theorem xpending_settled {g g' : ConsumerGroup μ κ} {stale : ℕ → Bool} {n : ℕ}
    (hd : g'.delivered = g.delivered) (hstale : ∀ i, (g.pending i).isSome → stale i = true)
    (hin : ∀ i ∈ g.stalePending stale n, g'.pending i = none)
    (hout : ∀ i, i ∉ g.stalePending stale n → g'.pending i = g.pending i) :
    g'.xpending = g.xpending - n := by
  let l := (List.range g.delivered).filter fun i => (g.pending i).isSome
  have hl : l.Nodup := List.nodup_range.filter _
  have htaken : g.stalePending stale n = l.take n := by
    unfold stalePending
    congr 1
    refine List.filter_congr fun i _ => ?_
    by_cases hi : (g.pending i).isSome
    · simp [hi, hstale i hi]
    · simp [hi]
  have hleft : g'.xpending = l.countP fun i => i ∉ l.take n := by
    unfold xpending
    rw [hd, List.countP_filter]
    refine List.countP_congr fun i _ => ?_
    rw [← htaken]
    by_cases hi : i ∈ g.stalePending stale n
    · simp [hi, hin i hi]
    · simp [hi, hout i hi]
  rw [hleft, countP_notMem_take hl, ← List.countP_eq_length_filter]
  rfl

theorem unacked_xreadgroup {g : ConsumerGroup μ κ} {c : κ} {n i : ℕ} :
    (g.xreadgroup c n).Unacked i ↔ g.Unacked i := by
  unfold Unacked
  refine and_congr_right fun hi => ?_
  by_cases hu : i ∈ g.unread n
  · simp only [xreadgroup, hu, if_true, Option.isSome_some, implies_true, true_iff]
    intro h
    exact absurd h (Nat.not_lt.mpr (mem_unread.mp hu).1)
  · have hlt : i < (g.xreadgroup c n).delivered ↔ i < g.delivered := by
      rw [mem_unread] at hu
      simp only [xreadgroup]
      omega
    rw [hlt]
    simp [xreadgroup, hu]

theorem unacked_xack_ne {g : ConsumerGroup μ κ} {i j : ℕ} (h : j ≠ i) :
    (g.xack i).Unacked j ↔ g.Unacked j := by
  simp [Unacked, xack, Function.update_of_ne h]

theorem unacked_xautoclaim {g : ConsumerGroup μ κ} {c : κ} {stale : ℕ → Bool} {n i : ℕ} :
    (g.xautoclaim c stale n).Unacked i ↔ g.Unacked i := by
  unfold Unacked
  refine and_congr_right fun _ => ?_
  by_cases hs : i ∈ g.stalePending stale n
  · have hp := (List.mem_filter.mp (List.mem_of_mem_take hs)).2
    simp only [xautoclaim, hs, if_true, Option.isSome_some, implies_true, true_iff]
    exact fun _ => (Bool.and_eq_true_iff.mp hp).1
  · simp [xautoclaim, hs]

end ConsumerGroup
