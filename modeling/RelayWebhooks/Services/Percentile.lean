import RelayWebhooks.Lib.NearestRank
import RelayWebhooks.Services.Deliveries
import Mathlib.Algebra.Order.Floor.Semifield
import Mathlib.Data.List.Sort

/-! The percentile of the metrics snapshot against the nearest rank. -/
namespace RelayWebhooks
open NearestRank (IsPercentile TruncationAgrees LevelTo rank)

section
variable {fraction : ℚ} {sortedValues : List ℤ} (hne : sortedValues ≠ [])
  (hsorted : sortedValues.Pairwise (· ≤ ·)) (hp : 0 < fraction) (hp' : fraction ≤ 1)
include hne hsorted hp hp'

omit hp in
/-- Whatever position an index function selects. -/
theorem percentile_eq_rank_iff (scaled : ℕ → ℕ) : percentile scaled sortedValues =
      sortedValues[rank fraction sortedValues.length - 1]? ↔
    LevelTo fraction sortedValues (scaled sortedValues.length) := by
  rw [percentile]
  exact NearestRank.selected_eq_iff hsorted hp' hne

theorem percentile_isPercentile_iff (scaled : ℕ → ℕ) :
    (∃ v, percentile scaled sortedValues = some v ∧ IsPercentile fraction sortedValues v) ↔
      LevelTo fraction sortedValues (scaled sortedValues.length) := by
  have hlength := List.length_pos_iff.mpr hne
  have hrank := NearestRank.rank_le (n := sortedValues.length) hp'
  rw [← percentile_eq_rank_iff hne hsorted hp']
  constructor
  · rintro ⟨v, hv, hnearest⟩
    rw [hv, (NearestRank.isPercentile_iff hsorted hp hp').mp hnearest]
  · intro h
    have hget := List.getElem?_eq_getElem
      (show rank fraction sortedValues.length - 1 < sortedValues.length by omega)
    exact ⟨_, h.trans hget, NearestRank.isPercentile_of_rank hsorted hp hget⟩

end

/-- The float product of a fraction and a length lies at the rank or less than one below. -/
theorem intTimesFloat_bounds {fraction : ℚ} {n : ℕ} (hp : 0 < fraction) (hp' : fraction ≤ 1)
    (hn : 0 < n) (hn' : n < 2 ^ 53) :
    intTimesFloat n fraction ≤ rank fraction n ∧
      ((rank fraction n - 1 : ℕ) : ℚ) ≤ intTimesFloat n fraction := by
  have hexact : roundDouble (n : ℤ) = n := by
    exact_mod_cast roundDouble_intCast (n := (n : ℤ)) (by rw [Nat.abs_cast]; omega)
  have hpos : 0 < (n : ℚ) * fraction := mul_pos (by exact_mod_cast hn) hp
  have hrank := NearestRank.rank_le (n := n) hp'
  have hrank' := NearestRank.rank_pos hp hn
  have hceil : (n : ℚ) * fraction ≤ rank fraction n := by
    rw [mul_comm]
    exact Nat.le_ceil _
  have hrankDouble : IsDouble (rank fraction n) := by
    exact_mod_cast roundDouble_intCast (n := (rank fraction n : ℤ)) (by rw [Nat.abs_cast]; omega)
  unfold intTimesFloat
  rw [hexact]
  constructor
  · exact roundDouble_le hpos.le hceil hrankDouble
  · have hbelow : ((rank fraction n - 1 : ℕ) : ℚ) ≤ n * fraction := by
      rw [mul_comm]
      exact (Nat.lt_ceil.mp (show rank fraction n - 1 < rank fraction n by omega)).le
    have hbound : |(n : ℚ) * fraction| < 2 ^ 53 := by
      rw [abs_of_pos hpos]
      have hn'' : (n : ℚ) < 2 ^ 53 := by exact_mod_cast hn'
      nlinarith
    exact_mod_cast intCast_le_roundDouble (k := (rank fraction n - 1 : ℕ)) hpos.ne' hbound
      (by exact_mod_cast hbelow)

/-- Of a list of less than `2 ^ 53` elements: the code selects the element at the rank
or, where the float product reaches the rank, the one after it. -/
theorem levelTo_scaledBy_iff {fraction : ℚ} {sortedValues : List ℤ} (hne : sortedValues ≠ [])
    (hp : 0 < fraction) (hp' : fraction ≤ 1) (hlength : sortedValues.length < 2 ^ 53) :
    LevelTo fraction sortedValues (scaledBy fraction sortedValues.length) ↔
      (intTimesFloat sortedValues.length fraction = rank fraction sortedValues.length →
        rank fraction sortedValues.length < sortedValues.length →
          sortedValues[rank fraction sortedValues.length - 1]? =
            sortedValues[rank fraction sortedValues.length]?) := by
  obtain ⟨hle, hge⟩ :=
    intTimesFloat_bounds hp hp' (List.length_pos_iff.mpr hne) hlength
  have hrank := NearestRank.rank_pos hp (List.length_pos_iff.mpr hne)
  by_cases hreach : intTimesFloat sortedValues.length fraction =
      rank fraction sortedValues.length
  · have hscaled : scaledBy fraction sortedValues.length = rank fraction sortedValues.length := by
      rw [scaledBy, hreach, Int.floor_natCast, Int.toNat_natCast]
    rw [hscaled, NearestRank.levelTo_rank_iff hp hne]
    simp [hreach]
  · have hscaled : scaledBy fraction sortedValues.length =
        rank fraction sortedValues.length - 1 := by
      have hfloor : ⌊intTimesFloat sortedValues.length fraction⌋ =
          (rank fraction sortedValues.length - 1 : ℕ) := by
        rw [Int.floor_eq_iff]
        refine ⟨by exact_mod_cast hge, ?_⟩
        have hlt := lt_of_le_of_ne hle hreach
        have hsucc : ((rank fraction sortedValues.length - 1 : ℕ) : ℚ) + 1 =
            rank fraction sortedValues.length := by
          exact_mod_cast Nat.sub_add_cancel hrank
        push_cast
        linarith
      rw [scaledBy, hfloor, Int.toNat_natCast]
    rw [hscaled]
    simp [hreach, NearestRank.levelTo_pred_rank]

theorem p95_eq : p95 = 8556839292003942 / 2 ^ 53 := by decide +kernel

/-- The double nearest to 0.95 is below it, by too little to move the index. -/
theorem floor_intTimesFloat_p95 {n : ℕ} (hn : n ≤ 2 ^ 47) :
    ⌊intTimesFloat n p95⌋ = (19 * n / 20 : ℕ) := by
  have hexact : roundDouble (n : ℤ) = n := by
    exact_mod_cast roundDouble_intCast (n := (n : ℤ)) (by rw [Nat.abs_cast]; omega)
  have hn' : (n : ℚ) ≤ 2 ^ 47 := by exact_mod_cast hn
  have hmod := Nat.mod_lt (19 * n) (y := 20) (by omega)
  have hdiv : (20 * (19 * n / 20 : ℕ) + (19 * n % 20 : ℕ) : ℚ) = 19 * n := by
    exact_mod_cast Nat.div_add_mod (19 * n) 20
  generalize 19 * n / 20 = q at hdiv ⊢
  generalize 19 * n % 20 = r at hdiv hmod
  unfold intTimesFloat
  rw [hexact, p95_eq]
  rcases Nat.eq_zero_or_pos n with rfl | hpos
  · have hq : q = 0 := by
      have : (q : ℚ) = 0 := by
        push_cast at hdiv
        linarith [Nat.cast_nonneg (α := ℚ) q, Nat.cast_nonneg (α := ℚ) r]
      exact_mod_cast this
    simp [roundDouble, hq]
  · have hpos' : (1 : ℚ) ≤ n := by exact_mod_cast hpos
    generalize hx : (n : ℚ) * (8556839292003942 / 2 ^ 53) = x
    have hx0 : x ≠ 0 := by
      rw [← hx]
      positivity
    have habs : |x| = x := by
      rw [← hx]
      exact abs_of_pos (by positivity)
    obtain ⟨hulp, hulp'⟩ := ulp_bounds hx0
    rw [habs] at hulp hulp'
    rcases Nat.eq_zero_or_pos r with rfl | hr
    · have hround : roundDouble x = (q : ℤ) := by
        push_cast at hdiv
        apply roundDouble_eq_intCast hx0
        · rw [habs]
          linarith
        · rw [abs_lt]
          push_cast
          constructor <;> linarith
      rw [hround, Int.floor_intCast]
    · have hround := abs_le.mp (abs_roundDouble_sub_le hx0)
      have hr1 : (1 : ℚ) ≤ r := by exact_mod_cast hr
      have hr2 : (r : ℚ) ≤ 19 := by exact_mod_cast Nat.le_of_lt_succ hmod
      rw [Int.floor_eq_iff]
      push_cast
      constructor <;> linarith [hround.1, hround.2]

/-- For any sample that fits in memory, `int(n * 0.95)` is exact. -/
theorem scaledBy_p95 {n : ℕ} (hn : n ≤ 2 ^ 47) : scaledBy p95 n = ⌊(95 / 100 : ℚ) * n⌋₊ := by
  have hdiv : (95 / 100 : ℚ) * n = (19 * n : ℕ) / (20 : ℕ) := by
    push_cast
    ring
  rw [scaledBy, floor_intTimesFloat_p95 hn, hdiv, Nat.floor_div_eq_div, Int.toNat_natCast]

namespace MetricsService
variable {recent : List DeliveryAttempt}

def sortedLatencies (recent : List DeliveryAttempt) : List ℤ :=
  (recent.map (·.latencyMs)).mergeSort (· ≤ ·)

theorem p95_summarize_iff (hlength : recent.length ≤ 2 ^ 47) (queueDepth inFlight : ℕ) :
    (∀ v ∈ (summarize queueDepth inFlight recent).p95LatencyMs,
      IsPercentile (95 / 100) (recent.map (·.latencyMs)) v) ↔
    TruncationAgrees (95 / 100) (sortedLatencies recent) := by
  have hperm : (sortedLatencies recent).Perm (recent.map (·.latencyMs)) := List.mergeSort_perm ..
  have hsorted : (sortedLatencies recent).Pairwise (· ≤ ·) :=
    List.pairwise_mergeSort' (· ≤ ·) (recent.map (·.latencyMs))
  have hcount : (sortedLatencies recent).length ≤ 2 ^ 47 := by
    rw [hperm.length_eq, List.length_map]
    exact hlength
  have hp95 : (summarize queueDepth inFlight recent).p95LatencyMs =
      (sortedLatencies recent)[min ((sortedLatencies recent).length - 1)
        ⌊(95 / 100 : ℚ) * (sortedLatencies recent).length⌋₊]? := by
    rw [← scaledBy_p95 hcount]
    rfl
  rw [hp95]
  by_cases hne : sortedLatencies recent = []
  · simp [hne, TruncationAgrees]
  · rw [← NearestRank.truncated_eq_iff (by norm_num) (by norm_num) hne]
    have hpos := List.length_pos_iff.mpr hne
    have hrank := NearestRank.rank_le (p := 95 / 100) (n := (sortedLatencies recent).length)
      (by norm_num)
    have hget := List.getElem?_eq_getElem (show min ((sortedLatencies recent).length - 1)
      ⌊(95 / 100 : ℚ) * (sortedLatencies recent).length⌋₊ < (sortedLatencies recent).length by omega)
    constructor
    · intro h
      have hnearest := (h _ hget).perm hperm.symm
      rw [hget, (NearestRank.isPercentile_iff hsorted (by norm_num) (by norm_num)).mp hnearest]
    · intro h v hv
      rw [h] at hv
      exact (NearestRank.isPercentile_of_rank hsorted (by norm_num) hv).perm hperm

end MetricsService

/-- `_percentile`, called with the float of a fraction, selects the nearest rank exactly where the
list is level from the rank to the position that the float product truncates to. Of a fraction that
is a double itself, and a list of less than `2 ^ 53` elements: where the float product stays below
the rank, or the next element is the same. The snapshot has the nearest-rank 95th percentile of its
sample exactly where truncating the product does not step past the rank onto a larger element. -/
theorem percentile_nearest_rank_iff (fraction : ℚ) (sortedValues : List ℤ)
    (hne : sortedValues ≠ []) (hsorted : sortedValues.Pairwise (· ≤ ·)) (hp : 0 < fraction)
    (hp' : fraction ≤ 1) :
    (percentile (scaledBy (roundDouble fraction)) sortedValues =
        sortedValues[rank fraction sortedValues.length - 1]? ↔
      LevelTo fraction sortedValues (scaledBy (roundDouble fraction) sortedValues.length)) ∧
    ((∃ v, percentile (scaledBy (roundDouble fraction)) sortedValues = some v ∧
        IsPercentile fraction sortedValues v) ↔
      LevelTo fraction sortedValues (scaledBy (roundDouble fraction) sortedValues.length)) ∧
    (IsDouble fraction → sortedValues.length < 2 ^ 53 →
      (LevelTo fraction sortedValues (scaledBy (roundDouble fraction) sortedValues.length) ↔
        (intTimesFloat sortedValues.length fraction = rank fraction sortedValues.length →
          rank fraction sortedValues.length < sortedValues.length →
            sortedValues[rank fraction sortedValues.length - 1]? =
              sortedValues[rank fraction sortedValues.length]?))) ∧
    ∀ (db : Db) (tenantId : UUID) (sampleSize : ℤ) (recent : List DeliveryAttempt),
      db.recentForTenant tenantId sampleSize = .ok recent → recent.length ≤ 2 ^ 47 →
      ∃ metrics, MetricsService.snapshot db tenantId sampleSize = .ok metrics ∧
        ((∀ v ∈ metrics.p95LatencyMs,
            IsPercentile (95 / 100) (recent.map (·.latencyMs)) v) ↔
          TruncationAgrees (95 / 100) (MetricsService.sortedLatencies recent)) := by
  refine ⟨percentile_eq_rank_iff hne hsorted hp' _,
    percentile_isPercentile_iff hne hsorted hp hp' _, fun hdouble hlength => ?_, ?_⟩
  · rw [show roundDouble fraction = fraction from hdouble]
    exact levelTo_scaledBy_iff hne hp hp' hlength
  · intro db tenantId sampleSize recent hrecent hlength
    unfold MetricsService.snapshot
    rw [hrecent]
    exact ⟨_, rfl, MetricsService.p95_summarize_iff hlength _ _⟩

/-- One delivery of tenant 9 with one attempt. -/
def attemptedDb : Db :=
  { Db.othersDb .delivered with
    deliveryAttempts :=
      .singleton { id := 4, deliveryId := 3, attemptNo := 1, latencyMs := 12, createdAt := 1 } }

/-- The code reads the fourth element for three tenths of ten, and it is the same as the third. -/
theorem percentile_nearest_rank_sample :
    (∃ v, percentile (scaledBy (roundDouble (3 / 10))) [1, 2, 5, 5, 6, 6, 7, 8, 9, 9] = some v ∧
      IsPercentile (3 / 10) [1, 2, 5, 5, 6, 6, 7, 8, 9, 9] v) ∧
    ∃ metrics, MetricsService.snapshot attemptedDb 9 200 = .ok metrics ∧
      ∀ v ∈ metrics.p95LatencyMs, IsPercentile (95 / 100) [12] v := by
  obtain ⟨-, hlist, -, hsnapshot⟩ := percentile_nearest_rank_iff (3 / 10)
    [1, 2, 5, 5, 6, 6, 7, 8, 9, 9] (by simp) (by simp) (by norm_num) (by norm_num)
  constructor
  · refine hlist.mpr fun k hk hlow hhigh => ?_
    have hscaled : scaledBy (roundDouble (3 / 10)) 10 = 3 := by decide +kernel
    have hrank : rank (3 / 10) 10 = 3 := by
      rw [rank, Nat.ceil_eq_iff (by omega)]
      norm_num
    simp only [List.length_cons, List.length_nil, Nat.zero_add, Nat.reduceAdd, hscaled, hrank]
      at hlow hhigh ⊢
    obtain rfl | rfl : k = 2 ∨ k = 3 := by omega
    · rfl
    · rfl
  · obtain ⟨metrics, hmetrics, h⟩ := hsnapshot attemptedDb 9 200
      [{ id := 4, deliveryId := 3, attemptNo := 1, latencyMs := 12, createdAt := 1 }]
      (by with_unfolding_all rfl) (by norm_num)
    exact ⟨metrics, hmetrics, h.mpr (by decide +kernel)⟩

/-- Of the latencies 1 to 200 the 190th is the nearest-rank 95th percentile; the code selects
the 191st. -/
theorem percentile_steps_past_rank :
    ¬∀ (fraction : ℚ) (sortedValues : List ℤ), sortedValues ≠ [] →
      sortedValues.Pairwise (· ≤ ·) → 0 < fraction → fraction ≤ 1 →
      percentile (scaledBy (roundDouble fraction)) sortedValues =
        sortedValues[rank fraction sortedValues.length - 1]? := by
  intro h
  have hsorted : ((List.range 200).map fun i : ℕ => (i : ℤ) + 1).Pairwise (· ≤ ·) := by
    rw [List.pairwise_map]
    apply List.pairwise_lt_range.imp
    intro i j hij
    omega
  have hselected := h (95 / 100) ((List.range 200).map fun i : ℕ => (i : ℤ) + 1) (by decide) hsorted
    (by norm_num) (by norm_num)
  revert hselected
  decide +kernel

end RelayWebhooks
