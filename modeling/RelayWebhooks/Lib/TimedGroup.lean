import RelayWebhooks.Lib.ConsumerGroup
import Mathlib.Data.List.Basic
import Mathlib.Data.List.Perm.Subperm
import Mathlib.Algebra.Order.Ring.Int

/-! A consumer group that knows when it last handed out each entry. A claim examines the oldest
pending entries and takes those that have been idle long enough. -/

structure TimedGroup (μ κ : Type*) where
  group : ConsumerGroup μ κ
  /-- When the entry was last handed out. -/
  since : ℕ → ℤ

namespace TimedGroup

variable {μ κ : Type*} {g : TimedGroup μ κ} {minIdle now : ℤ} {count i j : ℕ}

/-- The pending entries, oldest first. -/
def pendingEntries (g : TimedGroup μ κ) : List ℕ :=
  (List.range g.group.delivered).filter fun i => (g.group.pending i).isSome

/-- No minimum asks for no idle time at all. -/
def idle (g : TimedGroup μ κ) (minIdle now : ℤ) (i : ℕ) : Bool :=
  minIdle = 0 || minIdle ≤ now - g.since i

/-- A claim gives up after it has examined ten entries for each one it may take. -/
def scanFactor : ℕ := 10

/-- The entries one claim takes, from the oldest pending entry on. -/
def claimable (g : TimedGroup μ κ) (minIdle now : ℤ) (count : ℕ) : List ℕ :=
  ((g.pendingEntries.take (scanFactor * count)).filter (g.idle minIdle now)).take count

def xadd (g : TimedGroup μ κ) (m : μ) : TimedGroup μ κ := { g with group := g.group.xadd m }

def xreadgroup (g : TimedGroup μ κ) (c : κ) (count : ℕ) (now : ℤ) : TimedGroup μ κ where
  group := g.group.xreadgroup c count
  since i := if i ∈ g.group.unread count then now else g.since i

def xack (g : TimedGroup μ κ) (i : ℕ) : TimedGroup μ κ := { g with group := g.group.xack i }

def xautoclaim (g : TimedGroup μ κ) (c : κ) (minIdle now : ℤ) (count : ℕ) : TimedGroup μ κ where
  group := g.group.xautoclaim c (fun i => i ∈ g.claimable minIdle now count) count
  since i := if i ∈ g.claimable minIdle now count then now else g.since i

theorem mem_pendingEntries :
    i ∈ g.pendingEntries ↔ i < g.group.delivered ∧ (g.group.pending i).isSome := by
  simp [pendingEntries]

theorem sorted_pendingEntries (g : TimedGroup μ κ) : g.pendingEntries.Pairwise (· < ·) :=
  List.pairwise_lt_range.filter _

theorem mem_of_mem_claimable (h : i ∈ g.claimable minIdle now count) :
    i ∈ g.pendingEntries ∧ g.idle minIdle now i = true := by
  obtain ⟨hi, hidle⟩ := List.mem_filter.mp (List.mem_of_mem_take h)
  exact ⟨List.mem_of_mem_take hi, hidle⟩

/-- The claim takes exactly these entries of the group. -/
theorem mem_stalePending_claimable :
    i ∈ g.group.stalePending (fun i => i ∈ g.claimable minIdle now count) count ↔
      i ∈ g.claimable minIdle now count := by
  have hfilter : ∀ j ∈ (List.range g.group.delivered).filter (fun i =>
      (g.group.pending i).isSome && decide (i ∈ g.claimable minIdle now count)),
      j ∈ g.claimable minIdle now count := by
    intro j hj
    simpa using (Bool.and_eq_true_iff.mp (List.mem_filter.mp hj).2).2
  have hnodup : ((List.range g.group.delivered).filter (fun i =>
      (g.group.pending i).isSome && decide (i ∈ g.claimable minIdle now count))).Nodup :=
    List.nodup_range.filter _
  have hlength := (List.subperm_of_subset hnodup hfilter).length_le
  have hcount : (g.claimable minIdle now count).length ≤ count := List.length_take_le ..
  unfold ConsumerGroup.stalePending
  rw [List.take_of_length_le (hlength.trans hcount)]
  constructor
  · exact hfilter i
  · intro h
    obtain ⟨hp, -⟩ := mem_of_mem_claimable h
    obtain ⟨hlt, hsome⟩ := mem_pendingEntries.mp hp
    exact List.mem_filter.mpr ⟨List.mem_range.mpr hlt, by simp [hsome, h]⟩

/-- In an increasing list, the entries of a prefix are those with few entries below them. -/
theorem mem_take_iff {l : List ℕ} (hl : l.Pairwise (· < ·)) (n : ℕ) :
    i ∈ l.take n ↔ i ∈ l ∧ (l.filter (· < i)).length < n := by
  induction l generalizing n with
  | nil => simp
  | cons x l ih =>
    obtain ⟨hx, hl⟩ := List.pairwise_cons.mp hl
    cases n with
    | zero => simp
    | succ n =>
      rw [List.take_succ_cons, List.mem_cons, List.mem_cons, ih hl]
      by_cases hix : i = x
      · subst hix
        have hnone : (i :: l).filter (· < i) = [] := by
          rw [List.filter_eq_nil_iff]
          intro j hj
          rcases List.mem_cons.mp hj with rfl | hj
          · simp
          · simpa using Nat.le_of_lt (hx j hj)
        simp [hnone]
      · constructor
        · rintro (h | ⟨hi, hlen⟩)
          · exact (hix h).elim
          · have hlt := hx i hi
            refine ⟨.inr hi, ?_⟩
            rw [List.filter_cons_of_pos (by simpa using hlt), List.length_cons]
            omega
        · rintro ⟨h | hi, hlen⟩
          · exact (hix h).elim
          · have hlt := hx i hi
            rw [List.filter_cons_of_pos (by simpa using hlt), List.length_cons] at hlen
            exact .inr ⟨hi, by omega⟩

/-- The pending entries that come before an entry. -/
def older (g : TimedGroup μ κ) (i : ℕ) : List ℕ := g.pendingEntries.filter (· < i)

/-- Among idle entries, a claim takes an entry if it takes more entries than come before it. -/
theorem mem_claimable_iff (hi : i ∈ g.pendingEntries)
    (hidle : ∀ j ∈ g.pendingEntries, j ≤ i → g.idle minIdle now j = true) :
    i ∈ g.claimable minIdle now count ↔ (g.older i).length < count := by
  have hsorted := g.sorted_pendingEntries
  have hscan : (g.pendingEntries.take (scanFactor * count)).Pairwise (· < ·) :=
    hsorted.sublist (List.take_sublist ..)
  have holder : i ∈ g.pendingEntries.take (scanFactor * count) →
      ((g.pendingEntries.take (scanFactor * count)).filter (g.idle minIdle now)).filter (· < i) =
        g.older i := by
    intro htake
    have hdrop : (g.pendingEntries.drop (scanFactor * count)).filter (· < i) = [] := by
      rw [← List.take_append_drop (scanFactor * count) g.pendingEntries] at hsorted
      refine List.filter_eq_nil_iff.mpr fun j hj => ?_
      simpa using Nat.le_of_lt ((List.pairwise_append.mp hsorted).2.2 i htake j hj)
    have hsplit : g.older i = (g.pendingEntries.take (scanFactor * count)).filter (· < i) := by
      rw [older, ← List.take_append_drop (scanFactor * count) g.pendingEntries,
        List.filter_append, hdrop, List.append_nil, List.take_append_drop]
    rw [hsplit, List.filter_filter]
    refine List.filter_congr fun j hj => ?_
    by_cases hji : j < i
    · simp [hji, hidle j (List.mem_of_mem_take hj) (Nat.le_of_lt hji)]
    · simp [hji]
  unfold claimable
  rw [mem_take_iff (hscan.filter _), List.mem_filter]
  constructor
  · rintro ⟨⟨htake, -⟩, hlen⟩
    rwa [holder htake] at hlen
  · intro hlen
    have htake : i ∈ g.pendingEntries.take (scanFactor * count) := by
      refine (mem_take_iff hsorted _).mpr ⟨hi, Nat.lt_of_lt_of_le hlen ?_⟩
      simp only [scanFactor]
      omega
    exact ⟨⟨htake, hidle i hi (Nat.le_refl _)⟩, by rwa [holder htake]⟩

theorem older_eq (h : i ≤ g.group.delivered) :
    g.older i = (List.range i).filter fun j => (g.group.pending j).isSome := by
  obtain ⟨k, hk⟩ := Nat.exists_eq_add_of_le h
  unfold older pendingEntries
  rw [List.filter_filter, hk, List.range_add, List.filter_append]
  have hrest : ((List.range k).map (i + ·)).filter
      (fun j => decide (j < i) && (g.group.pending j).isSome) = [] := by
    refine List.filter_eq_nil_iff.mpr fun j hj => ?_
    obtain ⟨x, -, rfl⟩ := List.mem_map.mp hj
    simp
  rw [hrest, List.append_nil]
  refine List.filter_congr fun j hj => ?_
  simp [List.mem_range.mp hj]

/-- Commands that keep what is pending before an entry keep the entries that come before it. -/
theorem older_congr {g' : TimedGroup μ κ} (h : i ≤ g.group.delivered)
    (h' : i ≤ g'.group.delivered)
    (hp : ∀ j < i, (g'.group.pending j).isSome = (g.group.pending j).isSome) :
    g'.older i = g.older i := by
  rw [older_eq h, older_eq h']
  exact List.filter_congr fun j hj => hp j (List.mem_range.mp hj)

/-- A claim hands pending entries over, and leaves all of them pending. -/
theorem isSome_pending_xautoclaim (g : TimedGroup μ κ) (c : κ) (minIdle now : ℤ) (count i : ℕ) :
    ((g.xautoclaim c minIdle now count).group.pending i).isSome = (g.group.pending i).isSome := by
  simp only [xautoclaim, ConsumerGroup.xautoclaim, mem_stalePending_claimable]
  split
  next h =>
    have hp := (mem_pendingEntries.mp (mem_of_mem_claimable h).1).2
    simp [hp]
  next => rfl

/-- A read leaves what was handed out before as it is. -/
theorem pending_xreadgroup (c : κ) (h : i < g.group.delivered) :
    (g.xreadgroup c count now).group.pending i = g.group.pending i ∧
      (g.xreadgroup c count now).since i = g.since i := by
  have hi : i ∉ g.group.unread count := fun hi =>
    absurd (ConsumerGroup.mem_unread.mp hi).1 (Nat.not_le.mpr h)
  exact ⟨if_neg hi, if_neg hi⟩

theorem pending_xack_ne (h : i ≠ j) : (g.xack j).group.pending i = g.group.pending i :=
  Function.update_of_ne h ..

/-- Acknowledging several entries. -/
def xackAll (g : TimedGroup μ κ) (l : List ℕ) : TimedGroup μ κ := l.foldl xack g

@[simp] theorem xackAll_delivered (g : TimedGroup μ κ) (l : List ℕ) :
    (g.xackAll l).group.delivered = g.group.delivered := by
  induction l generalizing g with
  | nil => rfl
  | cons j l ih => exact ih (g.xack j)

@[simp] theorem xackAll_since (g : TimedGroup μ κ) (l : List ℕ) :
    (g.xackAll l).since = g.since := by
  induction l generalizing g with
  | nil => rfl
  | cons j l ih => exact ih (g.xack j)

theorem pending_xackAll {l : List ℕ} (h : i ∉ l) :
    (g.xackAll l).group.pending i = g.group.pending i := by
  induction l generalizing g with
  | nil => rfl
  | cons j l ih =>
    obtain ⟨hj, hl⟩ := not_or.mp (List.mem_cons.not.mp h)
    exact (@ih (g.xack j) hl).trans (pending_xack_ne hj)

end TimedGroup
