import RelayWebhooks.Py.Datetime
import Mathlib.Tactic.IntervalCases

/-! The Gregorian calendar of `datetime`: ordinals of dates, and the dates of days. -/
namespace RelayWebhooks

def IsLeap (year : ℕ) : Prop := year % 4 = 0 ∧ (year % 100 ≠ 0 ∨ year % 400 = 0)

instance (year : ℕ) : Decidable (IsLeap year) := inferInstanceAs (Decidable (_ ∧ _))

def daysInMonth (year month : ℕ) : ℕ :=
  if month = 2 then if IsLeap year then 29 else 28
  else if month = 4 ∨ month = 6 ∨ month = 9 ∨ month = 11 then 30
  else 31

def daysBeforeYear (year : ℕ) : ℕ :=
  let y := year - 1
  y * 365 + y / 4 - y / 100 + y / 400

/-- The days of the months before `month`. -/
def daysBeforeMonth (year month : ℕ) : ℕ :=
  [0, 31, 59, 90, 120, 151, 181, 212, 243, 273, 304, 334].getD (month - 1) 365 +
    if 2 < month ∧ IsLeap year then 1 else 0

/-- `toordinal`: 1 is the first day of the year 1. -/
def toordinal (year month day : ℕ) : ℕ :=
  daysBeforeYear year + daysBeforeMonth year month + day

/-- `toordinal` of 1970-01-01. -/
def epochOrdinal : ℕ := 719163

/-- The fields `datetime` takes for a date. -/
def ValidDate (year month day : ℕ) : Prop :=
  (1 ≤ year ∧ year ≤ 9999) ∧ (1 ≤ month ∧ month ≤ 12) ∧ (1 ≤ day ∧ day ≤ daysInMonth year month)

instance (year month day : ℕ) : Decidable (ValidDate year month day) :=
  inferInstanceAs (Decidable (_ ∧ _ ∧ _))

/-- A day of the era as a century, a cycle of four years, a year and a day. Only the last year of a
cycle has 366 days, and not in the last cycle of a century but the fourth. -/
structure EraDay where
  century : ℕ
  cycle : ℕ
  year : ℕ
  day : ℕ
  century_le : century ≤ 3
  cycle_le : cycle ≤ 24
  year_le : year ≤ 3
  day_le : day ≤ 365
  leap : day = 365 → year = 3 ∧ (cycle ≠ 24 ∨ century = 3)

namespace EraDay

def dayOfEra (e : EraDay) : ℕ := 36524 * e.century + 1461 * e.cycle + 365 * e.year + e.day

def yearOfEra (e : EraDay) : ℕ := 100 * e.century + 4 * e.cycle + e.year

theorem exists_dayOfEra {n : ℕ} (h : n < 146097) : ∃ e : EraDay, e.dayOfEra = n := by
  have hcentury : ∃ a r, n = 36524 * a + r ∧ a ≤ 3 ∧ (r < 36524 ∨ a = 3 ∧ r = 36524) := by
    by_cases hlast : n = 146096
    · exact ⟨3, 36524, by omega, by omega, .inr ⟨rfl, rfl⟩⟩
    · exact ⟨n / 36524, n % 36524, by omega, by omega, .inl (by omega)⟩
  obtain ⟨a, r, rfl, ha, hr⟩ := hcentury
  have hyear : ∃ f k, r % 1461 = 365 * f + k ∧ f ≤ 3 ∧ (k < 365 ∨ f = 3 ∧ k = 365) := by
    by_cases hlast : r % 1461 = 1460
    · exact ⟨3, 365, by omega, by omega, .inr ⟨rfl, rfl⟩⟩
    · exact ⟨r % 1461 / 365, r % 1461 % 365, by omega, by omega, .inl (by omega)⟩
  obtain ⟨f, k, hk, hf, hlast⟩ := hyear
  refine ⟨⟨a, r / 1461, f, k, ha, by omega, hf, by omega, fun hleap => ?_⟩, ?_⟩
  · constructor
    · omega
    · by_contra hnot
      push Not at hnot
      omega
  · simp only [dayOfEra]
    omega

/-- Taking off the leap days leaves 365 days for each year. -/
theorem yearOfEra_eq (e : EraDay) :
    (e.dayOfEra - e.dayOfEra / 1460 + e.dayOfEra / 36524 - e.dayOfEra / 146096) / 365 =
      e.yearOfEra := by
  obtain ⟨a, c, f, k, ha, hc, hf, hk, hleap⟩ := e
  simp only [dayOfEra, yearOfEra]
  have h4 : (36524 * a + 1461 * c + 365 * f + k) / 1460 =
      25 * a + c + if 1460 ≤ 24 * a + c + 365 * f + k then 1 else 0 := by
    split_ifs <;> omega
  have h100 : (36524 * a + 1461 * c + 365 * f + k) / 36524 =
      a + if 36524 ≤ 1461 * c + 365 * f + k then 1 else 0 := by
    split_ifs <;> omega
  have h400 : (36524 * a + 1461 * c + 365 * f + k) / 146096 =
      if 146096 ≤ 36524 * a + 1461 * c + 365 * f + k then 1 else 0 := by
    split_ifs <;> omega
  rw [h4, h100, h400]
  split_ifs <;> omega

theorem day_eq (e : EraDay) :
    e.dayOfEra - (365 * e.yearOfEra + e.yearOfEra / 4 - e.yearOfEra / 100) = e.day := by
  obtain ⟨a, c, f, k, ha, hc, hf, hk, hleap⟩ := e
  simp only [dayOfEra, yearOfEra]
  have h4 : (100 * a + 4 * c + f) / 4 = 25 * a + c := by omega
  have h100 : (100 * a + 4 * c + f) / 100 = a := by omega
  omega

end EraDay

theorem div_eq_pred_div {n : ℕ} (d : ℕ) (hn : 1 ≤ n) :
    n / d = (n - 1) / d + if n % d = 0 then 1 else 0 := by
  obtain ⟨m, rfl⟩ : ∃ m, n = m + 1 := ⟨n - 1, by omega⟩
  rw [Nat.succ_div, Nat.add_sub_cancel]
  simp only [Nat.dvd_iff_mod_eq_zero]

theorem daysBeforeYear_add_leap {n : ℕ} (hn : 1 ≤ n) :
    daysBeforeYear n + 365 + (if IsLeap n then 1 else 0) =
      365 * n + n / 4 - n / 100 + n / 400 := by
  have h4 := div_eq_pred_div 4 hn
  have h100 := div_eq_pred_div 100 hn
  have h400 := div_eq_pred_div 400 hn
  simp only [daysBeforeYear]
  by_cases hleap : IsLeap n
  · obtain ⟨hmod4, hmod100⟩ := hleap
    rw [if_pos ⟨hmod4, hmod100⟩]
    rw [if_pos hmod4] at h4
    by_cases hcentury : n % 100 = 0
    · rw [if_pos hcentury] at h100
      rw [if_pos (hmod100.resolve_left (not_not_intro hcentury))] at h400
      omega
    · rw [if_neg hcentury] at h100
      rw [if_neg (by omega)] at h400
      omega
  · rw [if_neg hleap]
    by_cases hmod4 : n % 4 = 0
    · have hmod : n % 100 = 0 ∧ n % 400 ≠ 0 := by
        simp only [IsLeap] at hleap
        omega
      rw [if_pos hmod4] at h4
      rw [if_pos hmod.1] at h100
      rw [if_neg hmod.2] at h400
      omega
    · rw [if_neg hmod4] at h4
      rw [if_neg (by omega)] at h100 h400
      omega

/-- The ordinals of the days from March on, in the years of the era computation. -/
theorem toordinal_march (n month day : ℕ) (hn : 1 ≤ n) (hlow : 3 ≤ month)
    (hhigh : month ≤ 12) :
    toordinal n month day + 306 =
      365 * n + n / 4 - n / 100 + n / 400 + (153 * (month - 3) + 2) / 5 + day := by
  have hyear := daysBeforeYear_add_leap hn
  have hmonth : daysBeforeMonth n month =
      59 + (153 * (month - 3) + 2) / 5 + if IsLeap n then 1 else 0 := by
    clear hyear
    interval_cases month <;> simp [daysBeforeMonth]
  rw [toordinal, hmonth]
  omega

/-- January and February close the year that began in March. -/
theorem toordinal_january (n month day : ℕ) (hlow : 1 ≤ month) (hhigh : month ≤ 2) :
    toordinal (n + 1) month day + 306 =
      365 * n + n / 4 - n / 100 + n / 400 + (153 * (month + 9) + 2) / 5 + day := by
  have hmonth : daysBeforeMonth (n + 1) month + 306 = (153 * (month + 9) + 2) / 5 := by
    interval_cases month <;> simp [daysBeforeMonth]
  simp only [toordinal, daysBeforeYear, Nat.add_sub_cancel]
  omega

namespace EraDay

/-- The month, from March as 0. -/
def month (e : EraDay) : ℕ := (5 * e.day + 2) / 153

def dayOfMonth (e : EraDay) : ℕ := e.day - (153 * e.month + 2) / 5 + 1

theorem month_le (e : EraDay) : e.month ≤ 11 := by
  have hday := e.day_le
  unfold month
  omega

theorem dayOfMonth_add (e : EraDay) : e.dayOfMonth + (153 * e.month + 2) / 5 = e.day + 1 := by
  unfold dayOfMonth month
  omega

theorem dayOfMonth_pos (e : EraDay) : 1 ≤ e.dayOfMonth := Nat.le_add_left _ _

theorem dayOfMonth_lt (e : EraDay) :
    e.dayOfMonth + (153 * e.month + 2) / 5 ≤ (153 * (e.month + 1) + 2) / 5 := by
  rw [e.dayOfMonth_add]
  unfold month
  omega

/-- The day exists in its month of the calendar year `n`, which began in the March before if the
month is one of the last two. -/
theorem dayOfMonth_le (e : EraDay) (n : ℕ) :
    (e.month < 10 → e.dayOfMonth ≤ daysInMonth n (e.month + 3)) ∧
      (10 ≤ e.month → (e.day = 365 → IsLeap n) → e.dayOfMonth ≤ daysInMonth n (e.month - 9)) := by
  have hle := e.month_le
  have hlt := e.dayOfMonth_lt
  have hadd := e.dayOfMonth_add
  have hday := e.day_le
  generalize e.month = month at *
  constructor
  · intro hmarch
    interval_cases month <;> simp [daysInMonth] <;> omega
  · intro hjanuary hleap
    interval_cases month
    · simp [daysInMonth]
      omega
    · by_cases hlast : e.day = 365
      · simp [daysInMonth, hleap hlast]
        omega
      · simp only [daysInMonth]
        split_ifs <;> omega

/-- The 366th day of a year that began in March is the 29 February of a leap year. -/
theorem isLeap_succ (e : EraDay) (era : ℕ) (h : e.day = 365) :
    IsLeap (e.yearOfEra + 400 * era + 1) := by
  obtain ⟨hyear, hcycle⟩ := e.leap h
  have hcentury := e.century_le
  have hle := e.cycle_le
  unfold IsLeap yearOfEra
  omega

/-- The days of the eras and years before, and the day itself. -/
theorem dayOfEra_add (e : EraDay) (era : ℕ) :
    365 * (e.yearOfEra + 400 * era) + (e.yearOfEra + 400 * era) / 4 -
      (e.yearOfEra + 400 * era) / 100 + (e.yearOfEra + 400 * era) / 400 + e.day =
    146097 * era + e.dayOfEra := by
  obtain ⟨a, c, f, k, ha, hc, hf, hk, hleap⟩ := e
  simp only [dayOfEra, yearOfEra]
  have h4 : (100 * a + 4 * c + f + 400 * era) / 4 = 100 * era + 25 * a + c := by omega
  have h100 : (100 * a + 4 * c + f + 400 * era) / 100 = 4 * era + a := by omega
  have h400 : (100 * a + 4 * c + f + 400 * era) / 400 = era := by omega
  omega

/-- The date of a day that lies in the given era. -/
theorem civilDate_eq {days : ℤ} {era : ℕ} {e : EraDay}
    (h : days + 719468 = 146097 * era + e.dayOfEra) (hlt : e.dayOfEra < 146097) :
    civilDate days =
      if e.month < 10 then (((e.yearOfEra + 400 * era : ℕ) : ℤ), e.month + 3, e.dayOfMonth)
      else (((e.yearOfEra + 400 * era + 1 : ℕ) : ℤ), e.month - 9, e.dayOfMonth) := by
  have hdoe : ((days + 719468) % 146097).toNat = e.dayOfEra := by omega
  have hera : (days + 719468) / 146097 = era := by omega
  have hmonth : (5 * e.day + 2) / 153 = e.month := rfl
  have hday : e.day - (153 * e.month + 2) / 5 + 1 = e.dayOfMonth := rfl
  simp only [civilDate, hdoe, hera, e.yearOfEra_eq, e.day_eq, hmonth, hday]
  have hle := e.month_le
  by_cases hmarch : e.month < 10
  · simp only [hmarch, if_true, show ¬e.month + 3 ≤ 2 by omega, if_false]
    push_cast
    ring_nf
  · simp only [hmarch, if_false, show e.month - 9 ≤ 2 by omega, if_true]
    push_cast
    ring_nf

end EraDay

/-- The date of a day is valid, and its ordinal gives the day back. -/
theorem civilDate_spec {days : ℤ} {year : ℤ} {month day : ℕ} (hlow : -719162 ≤ days)
    (hhigh : days ≤ 2932896) (h : civilDate days = (year, month, day)) :
    0 ≤ year ∧ ValidDate year.toNat month day ∧
      (toordinal year.toNat month day : ℤ) = days + epochOrdinal := by
  obtain ⟨era, hera⟩ : ∃ era : ℕ, (days + 719468) / 146097 = era :=
    Int.eq_ofNat_of_zero_le (by omega)
  obtain ⟨e, he⟩ := EraDay.exists_dayOfEra (n := ((days + 719468) % 146097).toNat) (by omega)
  have hlt : e.dayOfEra < 146097 := by omega
  have hdays : days + 719468 = 146097 * era + e.dayOfEra := by omega
  have hadd := e.dayOfMonth_add
  have hyears := e.dayOfEra_add era
  have hmonth := e.month_le
  have hpos := e.dayOfMonth_pos
  have hmonthEnd := e.dayOfMonth_lt
  have hle := e.dayOfMonth_le
  have hleap := e.isLeap_succ era
  rw [EraDay.civilDate_eq hdays hlt] at h
  generalize e.yearOfEra + 400 * era = n at *
  split at h
  next hmarch =>
    cases h
    have hn : 1 ≤ n := by omega
    have hord := toordinal_march n (e.month + 3) e.dayOfMonth hn (by omega) (by omega)
    rw [Int.toNat_natCast]
    refine ⟨by omega, ⟨?_, by omega, hpos, (hle n).1 hmarch⟩, ?_⟩
    · omega
    · rw [epochOrdinal]
      omega
  next hjanuary =>
    cases h
    have hord := toordinal_january n (e.month - 9) e.dayOfMonth (by omega) (by omega)
    rw [Int.toNat_natCast]
    refine ⟨by omega, ⟨?_, by omega, hpos, (hle (n + 1)).2 (by omega) hleap⟩, ?_⟩
    · omega
    · rw [epochOrdinal]
      omega

end RelayWebhooks
