import RelayWebhooks.Py.Text

/-! `datetime` values and their ISO text. Instants are microseconds since 1970. -/
namespace RelayWebhooks

/-- A clock reading, in microseconds, and the clock's offset from UTC; a naive `datetime` has no
offset. -/
structure PyDatetime where
  clock : ℤ
  utcoffset : Option ℤ
  deriving DecidableEq, Repr

def datetimeMin : ℤ := -62135596800000000
def datetimeMax : ℤ := 253402300799999999

/-- The value the driver sends for a `timestamptz` parameter. It refuses a naive `datetime`, and
one that has no UTC reading in the years 1 to 9999. -/
def PyDatetime.timestamptz (t : PyDatetime) : Option ℤ :=
  match t.utcoffset with
  | none => none
  | some offset =>
    let utc := t.clock - offset
    if datetimeMin ≤ utc ∧ utc ≤ datetimeMax then some utc else none

/-- The year, month and day that lie `days` days after 1970-01-01. A year of the computation
starts in March, an era has 400 years. -/
def civilDate (days : ℤ) : ℤ × ℕ × ℕ :=
  let z := days + 719468
  let dayOfEra := (z % 146097).toNat
  let yearOfEra := (dayOfEra - dayOfEra / 1460 + dayOfEra / 36524 - dayOfEra / 146096) / 365
  let dayOfYear := dayOfEra - (365 * yearOfEra + yearOfEra / 4 - yearOfEra / 100)
  let fromMarch := (5 * dayOfYear + 2) / 153
  let month := if fromMarch < 10 then fromMarch + 3 else fromMarch - 9
  (yearOfEra + z / 146097 * 400 + (if month ≤ 2 then 1 else 0), month,
    dayOfYear - (153 * fromMarch + 2) / 5 + 1)

/-- The last `width` decimal digits of `n`. -/
def paddedText (width n : ℕ) : PyText :=
  (List.range width).reverse.map fun i => digitChar (n / 10 ^ i % 10)

/-- `isoformat` of an instant in UTC. Whole seconds have no fraction. -/
def isoformat (utc : ℤ) : PyText :=
  let (year, month, day) := civilDate (utc / 86400000000)
  let microsecond := (utc % 1000000).toNat
  let second := (utc / 1000000 % 86400).toNat
  paddedText 4 year.toNat ++ 0x2d :: paddedText 2 month ++ 0x2d :: paddedText 2 day ++
    0x54 :: paddedText 2 (second / 3600) ++ 0x3a :: paddedText 2 (second / 60 % 60) ++
    0x3a :: paddedText 2 (second % 60) ++
    (if microsecond = 0 then [] else 0x2e :: paddedText 6 microsecond) ++
    PyText.ofString "+00:00"

theorem paddedText_printable (width n : ℕ) : (paddedText width n).Printable := by
  intro c hc
  obtain ⟨i, -, rfl⟩ := List.mem_map.mp hc
  have hdigit : n / 10 ^ i % 10 < 10 := Nat.mod_lt _ (by omega)
  exact digitChar_printable (by omega)

theorem isoformat_printable (utc : ℤ) : (isoformat utc).Printable := by
  have hoffset : (PyText.ofString "+00:00").Printable := by decide
  unfold isoformat
  simp only
  split <;> simp [paddedText_printable, hoffset]

end RelayWebhooks
