import RelayWebhooks.Py.Text
import Mathlib.Data.Int.Log
import Mathlib.Data.Rat.Floor
import Mathlib.Tactic.Linarith
import Mathlib.Tactic.NormNum
import Mathlib.Tactic.Positivity
import Mathlib.Tactic.Ring

/-! Rounding: to integers, to two decimals and to the doubles of Python's `float`. -/
namespace RelayWebhooks

/-- The nearest integer, halves to the even neighbour. -/
def roundHalfEven (x : ℚ) : ℤ :=
  let below := ⌊x⌋
  if x - below < 1 / 2 then below
  else if 1 / 2 < x - below then below + 1
  else if below % 2 = 0 then below else below + 1

/-- `f"{x:.2f}"`. -/
def fixedTwo (x : ℚ) : PyText :=
  let hundredths := (roundHalfEven (|x| * 100)).toNat
  (if x < 0 then [0x2d] else []) ++ natText (hundredths / 100) ++
    [0x2e, digitChar (hundredths / 10 % 10), digitChar (hundredths % 10)]

/-- The double nearest to a number in the normal range: 53 significant bits, halves to the even
neighbour. -/
def roundDouble (x : ℚ) : ℚ :=
  if x = 0 then 0
  else
    let ulp : ℚ := 2 ^ (Int.log 2 |x| - 52)
    roundHalfEven (x / ulp) * ulp

/-- The product of an integer by a float: the integer is converted first. -/
def intTimesFloat (n : ℤ) (x : ℚ) : ℚ := roundDouble (roundDouble n * x)

theorem roundHalfEven_eq {x : ℚ} {k : ℤ} (h : |x - k| < 1 / 2) : roundHalfEven x = k := by
  obtain ⟨hlow, hhigh⟩ := abs_lt.mp h
  unfold roundHalfEven
  rcases lt_or_ge x k with hlt | hge
  · have hfloor : ⌊x⌋ = k - 1 := by
      rw [Int.floor_eq_iff]
      push_cast
      constructor <;> linarith
    simp only [hfloor]
    push_cast
    rw [if_neg (by linarith), if_pos (by linarith)]
    omega
  · have hfloor : ⌊x⌋ = k := by
      rw [Int.floor_eq_iff]
      constructor <;> linarith
    simp only [hfloor]
    rw [if_pos (by linarith)]

theorem abs_roundHalfEven_sub_le (x : ℚ) : |roundHalfEven x - x| ≤ 1 / 2 := by
  have hlow := Int.floor_le x
  have hhigh := Int.lt_floor_add_one x
  unfold roundHalfEven
  rw [abs_le]
  dsimp only
  split_ifs <;> push_cast <;> constructor <;> linarith

/-- The unit in the last place of a number in the normal range. -/
def ulp (x : ℚ) : ℚ := 2 ^ (Int.log 2 |x| - 52)

theorem ulp_pos (x : ℚ) : 0 < ulp x := zpow_pos (by norm_num) _

theorem roundDouble_of_ne_zero {x : ℚ} (hx : x ≠ 0) :
    roundDouble x = roundHalfEven (x / ulp x) * ulp x := if_neg hx

/-- The unit is between `2 ^ -53` and `2 ^ -52` of the number. -/
theorem ulp_bounds {x : ℚ} (hx : x ≠ 0) : |x| < 2 ^ 53 * ulp x ∧ 2 ^ 52 * ulp x ≤ |x| := by
  have hpos : 0 < |x| := abs_pos.mpr hx
  have hlow := Int.zpow_log_le_self (b := 2) (by norm_num) hpos
  have hhigh := Int.lt_zpow_succ_log_self (b := 2) (by norm_num) |x|
  have hulp : ulp x = 2 ^ Int.log 2 |x| / 2 ^ 52 := by
    rw [ulp, zpow_sub₀ (by norm_num)]
    norm_cast
  rw [zpow_add_one₀ (by norm_num)] at hhigh
  push_cast at hlow hhigh
  rw [hulp]
  constructor <;> linarith

theorem abs_roundDouble_sub_le {x : ℚ} (hx : x ≠ 0) : |roundDouble x - x| ≤ ulp x / 2 := by
  have hpos := ulp_pos x
  have hround := abs_roundHalfEven_sub_le (x / ulp x)
  have hscale : roundDouble x - x = (roundHalfEven (x / ulp x) - x / ulp x) * ulp x := by
    rw [roundDouble_of_ne_zero hx, sub_mul, div_mul_cancel₀ _ hpos.ne']
  rw [hscale, abs_mul, abs_of_pos hpos]
  nlinarith

/-- An integer is a whole number of units of any number below `2 ^ 53`. -/
theorem exists_intCast_div_ulp {x : ℚ} (hx : x ≠ 0) (hbound : |x| < 2 ^ 53) :
    ∃ d : ℕ, ∀ k : ℤ, (k : ℚ) / ulp x = ((k * 2 ^ d : ℤ) : ℚ) := by
  have hlog : Int.log 2 |x| < 53 := by
    rw [← Int.lt_zpow_iff_log_lt (by norm_num) (abs_pos.mpr hx)]
    exact_mod_cast hbound
  obtain ⟨d, hd⟩ : ∃ d : ℕ, Int.log 2 |x| - 52 = -(d : ℤ) :=
    ⟨(52 - Int.log 2 |x|).toNat, by omega⟩
  have hunit : ulp x * 2 ^ d = 1 := by
    rw [ulp, hd, zpow_neg, zpow_natCast]
    exact inv_mul_cancel₀ (by positivity)
  refine ⟨d, fun k => ?_⟩
  rw [div_eq_iff (ulp_pos x).ne']
  push_cast
  rw [mul_assoc, mul_comm (2 ^ d), hunit, mul_one]

/-- A number rounds to an integer that is nearer than half a unit, if the unit is no more
than 1. -/
theorem roundDouble_eq_intCast {x : ℚ} {k : ℤ} (hx : x ≠ 0) (hbound : |x| < 2 ^ 53)
    (h : |x - k| < ulp x / 2) : roundDouble x = k := by
  have hpos := ulp_pos x
  obtain ⟨d, hdiv⟩ := exists_intCast_div_ulp hx hbound
  have hdiv := hdiv k
  have hnear : |x / ulp x - ((k * 2 ^ d : ℤ) : ℚ)| < 1 / 2 := by
    rw [← hdiv, ← sub_div, abs_div, abs_of_pos hpos, div_lt_iff₀ hpos]
    linarith
  rw [roundDouble_of_ne_zero hx, roundHalfEven_eq hnear, ← hdiv, div_mul_cancel₀ _ hpos.ne']

theorem roundDouble_intCast {n : ℤ} (h : |n| < 2 ^ 53) : roundDouble n = n := by
  by_cases hn : n = 0
  · simp [hn, roundDouble]
  · have hbound : |(n : ℚ)| < 2 ^ 53 := by exact_mod_cast h
    apply roundDouble_eq_intCast (by exact_mod_cast hn) hbound
    simpa using ulp_pos n

theorem roundHalfEven_le {x : ℚ} {k : ℤ} (h : x ≤ k) : roundHalfEven x ≤ k := by
  have hround := (abs_le.mp (abs_roundHalfEven_sub_le x)).2
  have hlt : (roundHalfEven x : ℚ) < (k + 1 : ℤ) := by
    push_cast
    linarith
  exact Int.lt_add_one_iff.mp (by exact_mod_cast hlt)

theorem le_roundHalfEven {x : ℚ} {k : ℤ} (h : k ≤ x) : k ≤ roundHalfEven x := by
  have hround := (abs_le.mp (abs_roundHalfEven_sub_le x)).1
  have hlt : ((k - 1 : ℤ) : ℚ) < roundHalfEven x := by
    push_cast
    linarith
  have hlt : k - 1 < roundHalfEven x := by exact_mod_cast hlt
  omega

theorem roundHalfEven_nonneg {x : ℚ} (h : 0 ≤ x) : 0 ≤ roundHalfEven x :=
  le_roundHalfEven (by exact_mod_cast h)

/-- Rounding does not go below an integer that is below the number. -/
theorem intCast_le_roundDouble {x : ℚ} {k : ℤ} (hx : x ≠ 0) (hbound : |x| < 2 ^ 53) (h : k ≤ x) :
    k ≤ roundDouble x := by
  have hpos := ulp_pos x
  obtain ⟨d, hdiv⟩ := exists_intCast_div_ulp hx hbound
  have hle : ((k * 2 ^ d : ℤ) : ℚ) ≤ x / ulp x := by
    rw [← hdiv k]
    exact div_le_div_of_nonneg_right h hpos.le
  rw [roundDouble_of_ne_zero hx, ← div_le_iff₀ hpos, hdiv k]
  exact_mod_cast le_roundHalfEven hle

/-- The number is a double. -/
def IsDouble (x : ℚ) : Prop := roundDouble x = x

instance (x : ℚ) : Decidable (IsDouble x) := inferInstanceAs (Decidable (_ = _))

theorem roundDouble_nonneg {x : ℚ} (h : 0 ≤ x) : 0 ≤ roundDouble x := by
  by_cases hx : x = 0
  · simp [hx, roundDouble]
  · have hpos := ulp_pos x
    have hround : (0 : ℚ) ≤ roundHalfEven (x / ulp x) := by
      exact_mod_cast roundHalfEven_nonneg (by positivity)
    rw [roundDouble_of_ne_zero hx]
    positivity

/-- No double lies between a number and what it is rounded to. -/
theorem roundDouble_le {x y : ℚ} (hx : 0 ≤ x) (hxy : x ≤ y) (hy : IsDouble y) :
    roundDouble x ≤ y := by
  rcases eq_or_lt_of_le hx with rfl | hpos
  · simpa [roundDouble] using hxy
  · have hypos : 0 < y := hpos.trans_le hxy
    have hulp := ulp_pos x
    -- The units of the larger number are whole numbers of units of the smaller one.
    obtain ⟨d, hd⟩ : ∃ d : ℕ, Int.log 2 |y| = Int.log 2 |x| + d := by
      have hmono : Int.log 2 |x| ≤ Int.log 2 |y| :=
        Int.log_mono_right (abs_pos.mpr hpos.ne') (by rwa [abs_of_pos hpos, abs_of_pos hypos])
      exact ⟨(Int.log 2 |y| - Int.log 2 |x|).toNat, by omega⟩
    have hunit : ulp y = 2 ^ d * ulp x := by
      rw [ulp, ulp, hd, ← zpow_natCast, ← zpow_add₀ (by norm_num)]
      congr 1
      ring
    have hwhole : y = (roundHalfEven (y / ulp y) * 2 ^ d : ℤ) * ulp x := by
      have hy' : roundHalfEven (y / ulp y) * ulp y = y :=
        (roundDouble_of_ne_zero hypos.ne').symm.trans hy
      push_cast
      rw [mul_assoc, ← hunit, hy']
    rw [roundDouble_of_ne_zero hpos.ne', hwhole]
    apply mul_le_mul_of_nonneg_right _ hulp.le
    exact_mod_cast roundHalfEven_le (by rw [div_le_iff₀ hulp]; exact hxy.trans_eq hwhole)

theorem IsDouble.mul_two_pow {x : ℚ} (h : IsDouble x) (n : ℕ) : IsDouble (x * 2 ^ n) := by
  by_cases hx : x = 0
  · simp [IsDouble, hx, roundDouble]
  · have hunit : ulp (x * 2 ^ n) = ulp x * 2 ^ n := by
      have hpos : (0 : ℚ) < 2 ^ n := by positivity
      have hlog : Int.log 2 |x * 2 ^ n| = Int.log 2 |x| + n := by
        have hx' : 0 < |x| := abs_pos.mpr hx
        have hlow := Int.zpow_log_le_self (b := 2) (by norm_num) hx'
        have hhigh := Int.lt_zpow_succ_log_self (b := 2) (by norm_num) |x|
        push_cast at hlow hhigh
        rw [abs_mul, abs_of_pos hpos]
        apply le_antisymm
        · rw [← Int.lt_add_one_iff, ← Int.lt_zpow_iff_log_lt (by norm_num) (by positivity)]
          push_cast
          rw [add_right_comm, zpow_add₀ (by norm_num), zpow_natCast]
          exact mul_lt_mul_of_pos_right hhigh hpos
        · rw [← Int.zpow_le_iff_le_log (by norm_num) (by positivity)]
          push_cast
          rw [zpow_add₀ (by norm_num), zpow_natCast]
          exact mul_le_mul_of_nonneg_right hlow hpos.le
      rw [ulp, ulp, hlog, add_sub_right_comm, zpow_add₀ (by norm_num), zpow_natCast]
    have hpow : x * 2 ^ n ≠ 0 := by positivity
    rw [IsDouble, roundDouble_of_ne_zero hpow, hunit, mul_div_mul_right _ _ (by positivity),
      ← mul_assoc, ← roundDouble_of_ne_zero hx, h]

end RelayWebhooks
