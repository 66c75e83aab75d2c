import RelayWebhooks.Lib.Table
import Mathlib.Data.List.Sort
import Mathlib.Algebra.Order.Ring.Int

/-! Sorted sets of scored members, with the atomic read-then-remove of the due ones. -/

/-- A member of a sorted set under its score. -/
structure Scored (μ : Type*) where
  member : μ
  score : ℤ
  deriving DecidableEq, Repr

instance (μ : Type*) : Keyed (Scored μ) μ := ⟨Scored.member⟩

abbrev SortedSet (μ : Type*) := Table (Scored μ)

namespace SortedSet
open Keyed

variable {μ : Type*}

@[simp] theorem key_eq (x : Scored μ) : key x = x.member := rfl

/-- The members with a score up to `now`, the lowest first, ties in the order `le`; at most
`limit` of them. -/
def rangeByScore (le : μ → μ → Bool) (z : SortedSet μ) (now : ℤ) (limit : ℕ) :
    List (Scored μ) :=
  ((z.select fun x => x.score ≤ now).insertionSort fun x y =>
    x.score < y.score ∨ x.score = y.score ∧ le x.member y.member).take limit

theorem rangeByScore_subset {le : μ → μ → Bool} {z : SortedSet μ} {now : ℤ} {limit : ℕ}
    {x : Scored μ} (h : x ∈ rangeByScore le z now limit) : x ∈ z.rows ∧ x.score ≤ now := by
  have h := List.mem_of_mem_take h
  rw [(List.perm_insertionSort _ _).mem_iff] at h
  simpa [Table.select] using h

theorem rangeByScore_nodup (le : μ → μ → Bool) (z : SortedSet μ) (now : ℤ) (limit : ℕ) :
    (rangeByScore le z now limit).Nodup := by
  refine List.Nodup.sublist (List.take_sublist _ _) ?_
  rw [(List.perm_insertionSort _ _).nodup_iff]
  exact (List.Nodup.of_map _ z.nodup).filter _

variable [DecidableEq μ]

/-- Adds the member, or moves it to the new score. -/
def zadd (z : SortedSet μ) (member : μ) (score : ℤ) : SortedSet μ :=
  match z.insert ⟨member, score⟩ with
  | some z => z
  | none => z.update ⟨member, score⟩

def zrem (z : SortedSet μ) (xs : List (Scored μ)) : SortedSet μ := z.deleteWhere (· ∈ xs)

/-- Reads the due members and removes them, as one command. -/
def popDue (le : μ → μ → Bool) (z : SortedSet μ) (now : ℤ) (limit : ℕ) :
    List (Scored μ) × SortedSet μ :=
  (rangeByScore le z now limit, zrem z (rangeByScore le z now limit))

theorem get_zadd_self (z : SortedSet μ) (m : μ) (t : ℤ) :
    (zadd z m t).get m = some ⟨m, t⟩ := by
  unfold zadd
  split
  next u h => exact Table.get_insert_self h
  next h =>
    obtain ⟨x, hx⟩ := Table.insert_eq_none.mp h
    exact Table.get_update_self hx

theorem get_zadd_ne (z : SortedSet μ) {m k : μ} (t : ℤ) (h : k ≠ m) :
    (zadd z m t).get k = z.get k := by
  unfold zadd
  split
  next u hu => exact (Table.get_insert hu k).trans (if_neg h)
  next => exact Table.get_update_ne z h

theorem mem_zadd {z : SortedSet μ} {m : μ} {t : ℤ} {x : Scored μ} (h : x ∈ (zadd z m t).rows) :
    x = ⟨m, t⟩ ∨ x ∈ z.rows := by
  unfold zadd at h
  split at h
  next u hu =>
    rw [(Table.insert_eq_some.mp hu).2, List.mem_append, List.mem_singleton] at h
    exact h.symm
  next => exact (Table.mem_update h).imp_right And.left

/-- What the pop returns and what it leaves are together what was there. -/
theorem popDue_perm (le : μ → μ → Bool) (z : SortedSet μ) (now : ℤ) (limit : ℕ) :
    ((popDue le z now limit).2.rows ++ (popDue le z now limit).1).Perm z.rows := by
  have hz : z.rows.Nodup := List.Nodup.of_map _ z.nodup
  refine (List.perm_ext_iff_of_nodup ?_ hz).mpr fun x => ?_
  · refine (hz.filter _).append (rangeByScore_nodup le z now limit) ?_
    intro x hx hp
    have hn : x ∉ rangeByScore le z now limit := by simpa using (List.mem_filter.mp hx).2
    exact hn hp
  · simp only [popDue, zrem, Table.deleteWhere, List.mem_append, List.mem_filter,
      Bool.not_eq_eq_eq_not, Bool.not_true, decide_eq_false_iff_not]
    constructor
    · rintro (h | h)
      · exact h.1
      · exact (rangeByScore_subset h).1
    · intro h
      by_cases hp : x ∈ rangeByScore le z now limit
      · exact .inr hp
      · exact .inl ⟨h, hp⟩

theorem get_popDue_of_notDue {le : μ → μ → Bool} {z : SortedSet μ} {now : ℤ} {limit : ℕ}
    {k : μ} {x : Scored μ} (h : z.get k = some x) (hx : now < x.score) :
    (popDue le z now limit).2.get k = some x := by
  simp only [popDue, zrem, Table.get_deleteWhere, h, Option.filter]
  have hp : x ∉ rangeByScore le z now limit := fun hp =>
    absurd (rangeByScore_subset hp).2 (not_le.mpr hx)
  simp [hp]

/-- A member the pop does not leave in the set is one it returns. -/
theorem popDue_cases {le : μ → μ → Bool} {z : SortedSet μ} {now : ℤ} {limit : ℕ}
    {k : μ} {x : Scored μ} (h : z.get k = some x) :
    (popDue le z now limit).2.get k = some x ∨ x ∈ (popDue le z now limit).1 := by
  by_cases hp : x ∈ rangeByScore le z now limit
  · exact .inr hp
  · left
    simp [popDue, zrem, Table.get_deleteWhere, h, Option.filter, hp]

/-- A pop at a time past every score takes as many members as it may. -/
theorem length_popDue (le : μ → μ → Bool) {z : SortedSet μ} {now : ℤ}
    (h : ∀ x ∈ z.rows, x.score ≤ now) (limit : ℕ) :
    (popDue le z now limit).2.rows.length = z.rows.length - limit := by
  have hselect : z.select (fun x => x.score ≤ now) = z.rows :=
    List.filter_eq_self.mpr fun x hx => decide_eq_true (h x hx)
  have hpopped : (popDue le z now limit).1.length = min limit z.rows.length := by
    show (rangeByScore le z now limit).length = _
    rw [rangeByScore, hselect, List.length_take, List.length_insertionSort]
  have hsum := (popDue_perm le z now limit).length_eq
  rw [List.length_append, hpopped] at hsum
  omega

end SortedSet
