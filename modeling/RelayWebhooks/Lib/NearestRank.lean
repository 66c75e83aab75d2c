import Mathlib.Algebra.Order.Floor.Semiring
import Mathlib.Data.List.Count
import Mathlib.Data.Rat.Floor
import Mathlib.Tactic.Linarith
import Mathlib.Tactic.Positivity

/-! Nearest-rank percentiles: the rank of a fraction, the element it selects of a sorted list, and
what selecting by truncation does instead. -/
namespace NearestRank

/-- The rank, from 1 on, of the fraction `p` among `n` elements. -/
def rank (p : ℚ) (n : ℕ) : ℕ := ⌈p * n⌉₊

variable {α : Type*} {p : ℚ} {l : List α} {n : ℕ}

theorem rank_pos (hp : 0 < p) (hn : 0 < n) : 0 < rank p n := by
  have hn' : (0 : ℚ) < n := by exact_mod_cast hn
  exact Nat.ceil_pos.mpr (mul_pos hp hn')

theorem rank_le (hp : p ≤ 1) : rank p n ≤ n := by
  have hn : (0 : ℚ) ≤ n := Nat.cast_nonneg n
  exact Nat.ceil_le.mpr (by nlinarith)

/-- The truncated product, kept below the length, is the index of the rank, except that it is one
too far where the product is an integer less than the length. -/
theorem min_floor_eq (hp : 0 < p) (hp' : p ≤ 1) (hn : 0 < n) :
    min (n - 1) ⌊p * n⌋₊ =
      if ∃ k < n, p * n = (k : ℕ) then rank p n else rank p n - 1 := by
  have hn' : (0 : ℚ) < n := by exact_mod_cast hn
  have hpos : 0 < p * n := mul_pos hp hn'
  have hle : p * n ≤ n := by nlinarith
  have hfloor := Nat.floor_le hpos.le
  have hlt := Nat.lt_floor_add_one (p * n)
  have hceil := rank_le (n := n) hp'
  split
  next h =>
    obtain ⟨k, hk, heq⟩ := h
    rw [rank, heq, Nat.floor_natCast, Nat.ceil_natCast]
    omega
  next h =>
    by_cases hint : p * n = (⌊p * n⌋₊ : ℕ)
    · have hall : n ≤ ⌊p * n⌋₊ := by
        by_contra hless
        exact h ⟨_, by omega, hint⟩
      have hrank : rank p n = n := by
        apply le_antisymm hceil
        rw [rank, hint, Nat.ceil_natCast]
        exact hall
      omega
    · have hrank : rank p n = ⌊p * n⌋₊ + 1 := by
        rw [rank, Nat.ceil_eq_iff (by omega)]
        constructor
        · rw [Nat.add_sub_cancel]
          exact lt_of_le_of_ne hfloor (Ne.symm hint)
        · push_cast
          exact hlt.le
      omega

/-- Where the product is an integer less than the length, the next element is the same. -/
def TruncationAgrees (p : ℚ) (l : List α) : Prop :=
  ∀ k < l.length, p * l.length = (k : ℕ) → l[k - 1]? = l[k]?

instance [DecidableEq α] (p : ℚ) (l : List α) : Decidable (TruncationAgrees p l) :=
  inferInstanceAs (Decidable (∀ k < l.length, _))

/-- Truncation selects the element at the rank exactly where the two neighbours agree. -/
theorem truncated_eq_iff (hp : 0 < p) (hp' : p ≤ 1) (hne : l ≠ []) :
    l[min (l.length - 1) ⌊p * l.length⌋₊]? = l[rank p l.length - 1]? ↔ TruncationAgrees p l := by
  rw [min_floor_eq hp hp' (List.length_pos_iff.mpr hne)]
  unfold TruncationAgrees
  split
  next h =>
    obtain ⟨k, hk, heq⟩ := h
    have hrank : rank p l.length = k := by rw [rank, heq, Nat.ceil_natCast]
    rw [hrank]
    constructor
    · intro hsame k' hk' heq'
      obtain rfl : k = k' := by exact_mod_cast heq.symm.trans heq'
      exact hsame.symm
    · intro hsame
      exact (hsame k hk heq).symm
  next h =>
    constructor
    · intro _ k hk heq
      exact absurd ⟨k, hk, heq⟩ h
    · intro _
      rfl

/-- The elements between the rank and position `i`, or the last one, are all the same. -/
def LevelTo (p : ℚ) (l : List α) (i : ℕ) : Prop :=
  ∀ k < l.length, min (rank p l.length - 1) i ≤ k → k ≤ max (rank p l.length - 1) i →
    l[k]? = l[rank p l.length - 1]?

/-- One position past the rank, only the neighbour counts. -/
theorem levelTo_rank_iff (hp : 0 < p) (hne : l ≠ []) :
    LevelTo p l (rank p l.length) ↔
      (rank p l.length < l.length → l[rank p l.length - 1]? = l[rank p l.length]?) := by
  have hpos := rank_pos hp (List.length_pos_iff.mpr hne)
  constructor
  · intro h hlt
    exact (h _ hlt (by omega) (by omega)).symm
  · intro h k hk hlow hhigh
    rcases (show k = rank p l.length - 1 ∨ k = rank p l.length by omega) with rfl | rfl
    · rfl
    · exact (h hk).symm

theorem levelTo_pred_rank : LevelTo p l (rank p l.length - 1) := by
  intro k hk hlow hhigh
  obtain rfl : k = rank p l.length - 1 := by omega
  rfl

variable [LinearOrder α]

/-- The least element of the list that the fraction `p` of the list does not exceed. -/
structure IsPercentile (p : ℚ) (l : List α) (v : α) : Prop where
  mem : v ∈ l
  enough : p * l.length ≤ l.countP (· ≤ v)
  least : ∀ w ∈ l, p * l.length ≤ l.countP (· ≤ w) → v ≤ w

variable {l' : List α} {i : ℕ} {v w : α}

theorem IsPercentile.unique (hv : IsPercentile p l v) (hw : IsPercentile p l w) : v = w :=
  le_antisymm (hv.least w hw.mem hw.enough) (hw.least v hv.mem hv.enough)

theorem IsPercentile.perm (h : IsPercentile p l v) (hl : l.Perm l') : IsPercentile p l' v := by
  have hcount (x : α) : l'.countP (· ≤ x) = l.countP (· ≤ x) := (hl.countP_eq _).symm
  constructor
  · exact hl.subset h.mem
  · rw [hcount, ← hl.length_eq]
    exact h.enough
  · intro w hw hle
    rw [hcount, ← hl.length_eq] at hle
    exact h.least w (hl.mem_iff.mpr hw) hle

theorem countP_eq_zero_of_lt (h : ∀ x ∈ l, w < x) : l.countP (· ≤ w) = 0 := by
  rw [List.countP_eq_zero]
  intro x hx
  simpa using h x hx

/-- The element at index `i` and those before it do not exceed it. -/
theorem lt_countP_of_getElem? (hl : l.Pairwise (· ≤ ·)) (hv : l[i]? = some v) :
    i < l.countP (· ≤ v) := by
  induction l generalizing i with
  | nil => simp at hv
  | cons a l ih =>
    have hsorted := List.pairwise_cons.mp hl
    cases i with
    | zero =>
      simp only [List.getElem?_cons_zero, Option.some.injEq] at hv
      simp [hv]
    | succ i =>
      have hle : a ≤ v := hsorted.1 v (List.mem_of_getElem? hv)
      have hrest := ih hsorted.2 hv
      simp only [List.countP_cons, hle, decide_true, if_true]
      omega

/-- Only the elements before index `i` can be below the one at `i`. -/
theorem countP_le_of_getElem? (hl : l.Pairwise (· ≤ ·)) (hv : l[i]? = some v) (hw : w < v) :
    l.countP (· ≤ w) ≤ i := by
  induction l generalizing i with
  | nil => simp at hv
  | cons a l ih =>
    have hsorted := List.pairwise_cons.mp hl
    cases i with
    | zero =>
      simp only [List.getElem?_cons_zero, Option.some.injEq] at hv
      subst hv
      have habove : ∀ x ∈ a :: l, w < x := by
        intro x hx
        rcases List.mem_cons.mp hx with rfl | hx
        · exact hw
        · exact hw.trans_le (hsorted.1 x hx)
      rw [countP_eq_zero_of_lt habove]
    | succ i =>
      have hrest := ih hsorted.2 hv
      rw [List.countP_cons]
      split <;> omega

/-- The element at the rank is the percentile. -/
theorem isPercentile_of_rank (hl : l.Pairwise (· ≤ ·)) (hp : 0 < p)
    (hv : l[rank p l.length - 1]? = some v) : IsPercentile p l v := by
  have hlt := lt_countP_of_getElem? hl hv
  have hmem := List.mem_of_getElem? hv
  have hpos := rank_pos hp (List.length_pos_of_mem hmem)
  constructor
  · exact hmem
  · apply Nat.ceil_le.mp
    show rank p l.length ≤ _
    omega
  · intro w _ hle
    by_contra hwv
    have hfew := countP_le_of_getElem? hl hv (not_le.mp hwv)
    have hmany : rank p l.length ≤ l.countP (· ≤ w) := Nat.ceil_le.mpr hle
    omega

theorem isPercentile_iff (hl : l.Pairwise (· ≤ ·)) (hp : 0 < p) (hp' : p ≤ 1) :
    IsPercentile p l v ↔ l[rank p l.length - 1]? = some v := by
  constructor
  · intro h
    have hpos := rank_pos hp (List.length_pos_of_mem h.mem)
    have hle := rank_le (p := p) (n := l.length) hp'
    have hget : l[rank p l.length - 1]? = some l[rank p l.length - 1] :=
      List.getElem?_eq_getElem (by omega)
    rw [hget, (isPercentile_of_rank hl hp hget).unique h]
  · exact isPercentile_of_rank hl hp

/-- Selecting by position `i` selects the element at the rank exactly where the list is level
between the two. -/
theorem selected_eq_iff (hl : l.Pairwise (· ≤ ·)) (hp' : p ≤ 1) (hne : l ≠ []) :
    l[min (l.length - 1) i]? = l[rank p l.length - 1]? ↔ LevelTo p l i := by
  have hlength := List.length_pos_iff.mpr hne
  have hrank := rank_le (n := l.length) hp'
  have hmono {j k : ℕ} (hj : j < l.length) (hk : k < l.length) (hjk : j ≤ k) : l[j] ≤ l[k] := by
    rcases eq_or_lt_of_le hjk with rfl | hlt
    · exact le_rfl
    · exact List.pairwise_iff_getElem.mp hl j k hj hk hlt
  constructor
  · intro h k hk hlow hhigh
    rw [List.getElem?_eq_getElem (by omega), List.getElem?_eq_getElem (by omega),
      Option.some.injEq] at h
    rw [List.getElem?_eq_getElem hk, List.getElem?_eq_getElem (by omega), Option.some.injEq]
    rcases le_total (rank p l.length - 1) i with hle | hle
    · exact le_antisymm (h ▸ hmono hk (by omega) (by omega)) (hmono (by omega) hk (by omega))
    · exact le_antisymm (hmono hk (by omega) (by omega)) (h ▸ hmono (by omega) hk (by omega))
  · intro h
    exact h _ (by omega) (by omega) (by omega)

end NearestRank
