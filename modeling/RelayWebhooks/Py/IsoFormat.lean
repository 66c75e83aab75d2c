import RelayWebhooks.Py.Calendar
import RelayWebhooks.Py.Integer

/-! `datetime.fromisoformat`. -/
namespace RelayWebhooks

def isAsciiDigit (c : ℕ) : Bool := 0x30 ≤ c && c ≤ 0x39

/-- Exactly `n` digits after those of `value`, and the text that follows. -/
def readDigits (value : ℕ) : ℕ → PyText → Option (ℕ × PyText)
  | 0, t => some (value, t)
  | _ + 1, [] => none
  | n + 1, c :: t => if isAsciiDigit c then readDigits (10 * value + (c - 0x30)) n t else none

/-- The text after a character that has to come first. -/
def expectChar (c : ℕ) : PyText → Option PyText
  | [] => none
  | d :: t => if d = c then some t else none

/-- Where the date ends: after `YYYY-MM-DD`, `YYYYMMDD`, `YYYY-Www-D`, `YYYYWwwD`, `YYYY-Www` or
`YYYYWww`. After a week the separator may be a hyphen or a digit. -/
def separatorLocation (t : PyText) : Option ℕ :=
  if t.length = 7 then some 7
  else if t[4]? = some 0x2d then
    if t[5]? = some 0x57 then
      if t[8]? = some 0x2d then
        if t.length = 9 then none else if (t[10]?).any isAsciiDigit then some 8 else some 10
      else some 8
    else some 10
  else if t[4]? = some 0x57 then
    let idx := 7 + ((t.drop 7).takeWhile isAsciiDigit).length
    if idx < 9 then some idx else if idx % 2 = 0 then some 7 else some 8
  else some 8

/-- The ordinal of a day of an ISO week. -/
def isoWeekOrdinal (year week day : ℕ) : Option ℕ :=
  let firstDay := toordinal year 1 1
  -- Monday is 0.
  let firstWeekday := (firstDay + 6) % 7
  let weekOneMonday : ℤ := firstDay - firstWeekday + if 3 < firstWeekday then 7 else 0
  let hasWeek53 := firstDay % 7 = 4 ∨ (firstDay % 7 = 3 ∧ IsLeap year)
  let ordinal := weekOneMonday + (week - 1) * 7 + (day - 1)
  if (1 ≤ year ∧ year ≤ 9999) ∧ ((1 ≤ week ∧ week ≤ 52) ∨ (week = 53 ∧ hasWeek53)) ∧
      (1 ≤ day ∧ day ≤ 7) ∧ (1 ≤ ordinal ∧ ordinal ≤ toordinal 9999 12 31) then
    some ordinal.toNat
  else none

/-- The ordinal of the date. -/
def parseIsoDate (t : PyText) : Option ℕ := do
  let (year, t) ← readDigits 0 4 t
  let hasSep := t.head? = some 0x2d
  let t := if hasSep then t.tail else t
  if t.head? = some 0x57 then
    let (week, t) ← readDigits 0 2 t.tail
    if t = [] then isoWeekOrdinal year week 1
    else
      let t ← if hasSep then expectChar 0x2d t else some t
      let (day, _) ← readDigits 0 1 t
      isoWeekOrdinal year week day
  else
    let (month, t) ← readDigits 0 2 t
    let t ← if hasSep then expectChar 0x2d t else some t
    let (day, _) ← readDigits 0 2 t
    if ValidDate year month day then return toordinal year month day else none

/-- The microseconds of a fraction; digits beyond the sixth are dropped. -/
def parseFraction : PyText → Option ℕ
  | [] => some 0
  | c :: t => do
    if c = 0x2e ∨ c = 0x2c then
      let toParse := min 6 t.length
      let (value, rest) ← readDigits 0 toParse t
      if toParse ≠ 0 ∧ rest.all isAsciiDigit then return value * 10 ^ (6 - toParse) else none
    else none

structure TimeFields where
  hour : ℕ
  minute : ℕ
  second : ℕ
  microsecond : ℕ
  deriving DecidableEq

namespace TimeFields

def microseconds (f : TimeFields) : ℕ :=
  (f.hour * 3600 + f.minute * 60 + f.second) * 1000000 + f.microsecond

/-- The fields `datetime` takes for a time. -/
def Valid (f : TimeFields) : Prop := f.hour < 24 ∧ f.minute < 60 ∧ f.second < 60

instance (f : TimeFields) : Decidable f.Valid := inferInstanceAs (Decidable (_ ∧ _ ∧ _))

end TimeFields

/-- `HH[:?MM[:?SS[{.,}f+]]]`: all separators or none. -/
def parseTimeFields (t : PyText) : Option TimeFields := do
  let (hour, t) ← readDigits 0 2 t
  let hasSep := t.head? = some 0x3a
  if t = [] then return ⟨hour, 0, 0, 0⟩
  else
    let (minute, t) ← readDigits 0 2 (if hasSep then t.tail else t)
    if t = [] then return ⟨hour, minute, 0, 0⟩
    else
      let t ← if hasSep then expectChar 0x3a t else some t
      let (second, t) ← readDigits 0 2 t
      let microsecond ← parseFraction t
      return ⟨hour, minute, second, microsecond⟩

def isZoneStart (c : ℕ) : Bool := c = 0x2b || c = 0x2d || c = 0x5a

def dayMicroseconds : ℤ := 86400000000

/-- The offset of a zone: `Z`, or a sign and a time shorter than a day. -/
def parseZone : PyText → Option ℤ
  | [] => none
  | c :: t => do
    if c = 0x5a then if t = [] then some 0 else none
    else
      let fields ← parseTimeFields t
      let offset : ℤ := if c = 0x2d then -fields.microseconds else fields.microseconds
      if -dayMicroseconds < offset ∧ offset < dayMicroseconds then some offset else none

/-- The microseconds of the day, and the offset if there is one. -/
def parseIsoTime (t : PyText) : Option (ℕ × Option ℤ) := do
  let zone := t.dropWhile fun c => !isZoneStart c
  let fields ← parseTimeFields (t.takeWhile fun c => !isZoneStart c)
  let offset ← if zone = [] then some none else (parseZone zone).map some
  if fields.Valid then return (fields.microseconds, offset) else none

/-- `datetime.fromisoformat` on the forms it documents, `none` when it raises `ValueError`. Any
character may separate the date from the time. CPython also stops at U+0000 and passes over a stray
character before the zone. -/
def fromisoformat (t : PyText) : Option PyDatetime := do
  if t.length < 7 then none
  else
    let location ← separatorLocation t
    let ordinal ← parseIsoDate (t.take location)
    let timeText := t.drop (location + 1)
    let (time, offset) ← if timeText = [] then some (0, none) else parseIsoTime timeText
    return ⟨((ordinal : ℤ) - epochOrdinal) * dayMicroseconds + time, offset⟩

theorem paddedText_succ (width n : ℕ) :
    paddedText (width + 1) n = digitChar (n / 10 ^ width % 10) :: paddedText width n := by
  simp [paddedText, List.range_succ]

theorem digitChar_decimal {d : ℕ} (h : d < 10) :
    isAsciiDigit (digitChar d) = true ∧ digitChar d - 0x30 = d ∧ digitChar d < 0x3a := by
  revert d
  decide

theorem readDigits_paddedText (value width n : ℕ) (t : PyText) :
    readDigits value width (paddedText width n ++ t) =
      some (value * 10 ^ width + n % 10 ^ width, t) := by
  induction width generalizing value with
  | zero => simp [paddedText, readDigits, Nat.mod_one]
  | succ width ih =>
    obtain ⟨hdigit, hvalue, -⟩ := digitChar_decimal (d := n / 10 ^ width % 10) (by omega)
    rw [paddedText_succ, List.cons_append, readDigits, if_pos hdigit, hvalue, ih,
      Nat.mod_pow_succ, pow_succ]
    congr 2
    ring

theorem readDigits_of_lt {n : ℕ} (width : ℕ) (t : PyText) (h : n < 10 ^ width) :
    readDigits 0 width (paddedText width n ++ t) = some (n, t) := by
  rw [readDigits_paddedText, Nat.mod_eq_of_lt h, zero_mul, zero_add]

def dateText (year month day : ℕ) : PyText :=
  paddedText 4 year ++ 0x2d :: (paddedText 2 month ++ 0x2d :: paddedText 2 day)

def fractionText (microsecond : ℕ) : PyText :=
  if microsecond = 0 then [] else 0x2e :: paddedText 6 microsecond

def timeText (f : TimeFields) : PyText :=
  paddedText 2 f.hour ++ 0x3a :: (paddedText 2 f.minute ++ 0x3a ::
    (paddedText 2 f.second ++ fractionText f.microsecond))

theorem head?_paddedText_ne (width n : ℕ) {c : ℕ} (t : PyText) (hc : 0x3a ≤ c ∨ c < 0x30) :
    (paddedText (width + 1) n ++ t).head? ≠ some c := by
  have hlt := (digitChar_decimal (d := n / 10 ^ width % 10) (by omega)).2.2
  have hdigit := (digitChar_cases (d := n / 10 ^ width % 10) (by omega))
  rw [paddedText_succ, List.cons_append, List.head?_cons]
  simp only [ne_eq, Option.some.injEq]
  omega

theorem parseIsoDate_dateText {year month day : ℕ} (h : ValidDate year month day) :
    parseIsoDate (dateText year month day) = some (toordinal year month day) := by
  have hday : day ≤ 31 := by
    refine h.2.2.2.trans ?_
    unfold daysInMonth
    split_ifs <;> omega
  obtain ⟨⟨hy, hy'⟩, ⟨hm, hm'⟩, hd, hd'⟩ := id h
  have hmonth := head?_paddedText_ne 1 month (c := 0x57) (0x2d :: paddedText 2 day)
    (.inl (by omega))
  have hend := readDigits_of_lt 2 [] (show day < 10 ^ 2 by omega)
  rw [List.append_nil] at hend
  unfold parseIsoDate dateText
  rw [readDigits_of_lt _ _ (by omega)]
  simp only [Option.bind_eq_bind, Option.bind_some, List.head?_cons, if_true, List.tail_cons,
    hmonth, if_false]
  rw [readDigits_of_lt _ _ (by omega)]
  simp only [Option.bind_some, expectChar, if_true, hend]
  rw [if_pos h]
  rfl

theorem parseFraction_fractionText {microsecond : ℕ} (h : microsecond < 1000000) :
    parseFraction (fractionText microsecond) = some microsecond := by
  have hend := readDigits_of_lt 6 [] (show microsecond < 10 ^ 6 by omega)
  have hlength : (paddedText 6 microsecond).length = 6 := by simp [paddedText]
  rw [List.append_nil] at hend
  unfold fractionText
  split
  next hzero => rw [hzero, parseFraction]
  next => simp [parseFraction, hlength, hend]

theorem parseTimeFields_timeText {f : TimeFields} (h : f.Valid) (hmicro : f.microsecond < 1000000) :
    parseTimeFields (timeText f) = some f := by
  obtain ⟨hhour, hminute, hsecond⟩ := h
  have hfraction := parseFraction_fractionText hmicro
  unfold parseTimeFields timeText
  rw [readDigits_of_lt _ _ (by omega)]
  simp only [Option.bind_eq_bind, Option.bind_some, List.head?_cons, if_true, List.tail_cons,
    reduceCtorEq, if_false]
  rw [readDigits_of_lt _ _ (by omega)]
  simp only [Option.bind_some, expectChar, if_true, reduceCtorEq, if_false]
  rw [readDigits_of_lt _ _ (by omega)]
  simp only [Option.bind_some, hfraction]
  rfl

/-- The text of a time holds no sign and no `Z`. -/
theorem not_isZoneStart_timeText (f : TimeFields) : ∀ c ∈ timeText f, (!isZoneStart c) = true := by
  have hdigits : ∀ width n, ∀ c ∈ paddedText width n, (!isZoneStart c) = true := by
    intro width n c hc
    obtain ⟨i, -, rfl⟩ := List.mem_map.mp hc
    have hcases := digitChar_cases (d := n / 10 ^ i % 10) (by omega)
    have hlt := (digitChar_decimal (d := n / 10 ^ i % 10) (by omega)).2.2
    simp only [isZoneStart, Bool.not_eq_true', Bool.or_eq_false_iff, decide_eq_false_iff_not]
    omega
  have hfraction : ∀ c ∈ fractionText f.microsecond, (!isZoneStart c) = true := by
    unfold fractionText
    split
    next => simp
    next => exact List.forall_mem_cons.mpr ⟨rfl, hdigits _ _⟩
  simp only [timeText, List.forall_mem_append, List.forall_mem_cons]
  exact ⟨hdigits _ _, rfl, hdigits _ _, rfl, hdigits _ _, hfraction⟩

theorem parseIsoTime_timeText {f : TimeFields} (h : f.Valid) (hmicro : f.microsecond < 1000000) :
    parseIsoTime (timeText f ++ PyText.ofString "+00:00") = some (f.microseconds, some 0) := by
  have hzone : parseZone (PyText.ofString "+00:00") = some 0 := by decide
  have htake : (timeText f ++ PyText.ofString "+00:00").takeWhile (fun c => !isZoneStart c) =
      timeText f := by
    rw [List.takeWhile_append_of_pos (not_isZoneStart_timeText f)]
    exact List.append_nil _
  have hdrop : (timeText f ++ PyText.ofString "+00:00").dropWhile (fun c => !isZoneStart c) =
      PyText.ofString "+00:00" := by
    rw [List.dropWhile_append_of_pos (not_isZoneStart_timeText f)]
    rfl
  have hne : PyText.ofString "+00:00" ≠ [] := by decide
  unfold parseIsoTime
  simp only [htake, hdrop, parseTimeFields_timeText h hmicro, hne, hzone, if_false, h, if_true,
    Option.bind_eq_bind, Option.bind_some, Option.map_some]
  rfl

theorem length_dateText (year month day : ℕ) : (dateText year month day).length = 10 := by
  simp [dateText, paddedText]

theorem separatorLocation_dateText (year month day : ℕ) (t : PyText) :
    separatorLocation (dateText year month day ++ 0x54 :: t) = some 10 := by
  have hlength : (dateText year month day ++ 0x54 :: t).length ≠ 7 := by
    rw [List.length_append, length_dateText]
    omega
  have hdigit := digitChar_cases (d := month / 10 ^ 1 % 10) (by omega)
  have hhyphen : (dateText year month day ++ 0x54 :: t)[4]? = some 0x2d := rfl
  have hmonth : (dateText year month day ++ 0x54 :: t)[5]? =
      some (digitChar (month / 10 ^ 1 % 10)) := rfl
  rw [separatorLocation, if_neg hlength, if_pos hhyphen, if_neg]
  rw [hmonth, Option.some.injEq]
  have hlt := (digitChar_decimal (d := month / 10 ^ 1 % 10) (by omega)).2.2
  omega

theorem isoformat_eq {utc : ℤ} {year : ℤ} {month day : ℕ}
    (h : civilDate (utc / 86400000000) = (year, month, day)) :
    isoformat utc =
      dateText year.toNat month day ++ 0x54 ::
        (timeText ⟨(utc / 1000000 % 86400).toNat / 3600,
            (utc / 1000000 % 86400).toNat / 60 % 60, (utc / 1000000 % 86400).toNat % 60,
            (utc % 1000000).toNat⟩ ++ PyText.ofString "+00:00") := by
  simp [isoformat, h, dateText, timeText, fractionText]

/-- Reading back the ISO text of an instant, with and without a fraction. -/
theorem fromisoformat_isoformat {utc : ℤ} (hlow : datetimeMin ≤ utc) (hhigh : utc ≤ datetimeMax) :
    fromisoformat (isoformat utc) = some ⟨utc, some 0⟩ := by
  unfold datetimeMin at hlow
  unfold datetimeMax at hhigh
  obtain ⟨⟨year, month, day⟩, hdate⟩ : ∃ date, civilDate (utc / 86400000000) = date := ⟨_, rfl⟩
  obtain ⟨-, hvalid, hordinal⟩ := civilDate_spec (by omega) (by omega) hdate
  rw [isoformat_eq hdate]
  generalize hfields : (⟨(utc / 1000000 % 86400).toNat / 3600,
    (utc / 1000000 % 86400).toNat / 60 % 60, (utc / 1000000 % 86400).toNat % 60,
    (utc % 1000000).toNat⟩ : TimeFields) = f
  have htime : f.Valid ∧ f.microsecond < 1000000 ∧
      (f.microseconds : ℤ) = utc % 86400000000 := by
    subst hfields
    simp only [TimeFields.Valid, TimeFields.microseconds]
    omega
  obtain ⟨hf, hmicro, hvalue⟩ := htime
  have hdateLength := length_dateText year.toNat month day
  have hlength : ¬(dateText year.toNat month day ++ 0x54 ::
      (timeText f ++ PyText.ofString "+00:00")).length < 7 := by
    rw [List.length_append, hdateLength]
    omega
  have htake : (dateText year.toNat month day ++ 0x54 ::
      (timeText f ++ PyText.ofString "+00:00")).take 10 = dateText year.toNat month day :=
    List.take_left' hdateLength
  have hdrop : (dateText year.toNat month day ++ 0x54 ::
      (timeText f ++ PyText.ofString "+00:00")).drop (10 + 1) =
        timeText f ++ PyText.ofString "+00:00" := by
    rw [← List.drop_drop, List.drop_left' hdateLength]
    rfl
  have hne : timeText f ++ PyText.ofString "+00:00" ≠ [] := by
    simp [PyText.ofString]
  unfold fromisoformat
  simp only [hlength, if_false, separatorLocation_dateText, htake, hdrop,
    parseIsoDate_dateText hvalid, parseIsoTime_timeText hf hmicro, hne, Option.bind_eq_bind,
    Option.bind_some]
  have hclock : ((toordinal year.toNat month day : ℕ) - (epochOrdinal : ℤ)) * dayMicroseconds +
      f.microseconds = utc := by
    rw [hvalue, hordinal, dayMicroseconds]
    omega
  rw [hclock]
  rfl

end RelayWebhooks
