import RelayWebhooks.Repositories.Cursor

/-! What `decode_cursor` makes of a token this API did not issue. -/
namespace RelayWebhooks

/-- Whether the text of a `datetime` has a UTC offset: a sign or `Z` after the separator. -/
def hasOffset (t : PyText) : Bool :=
  match separatorLocation t with
  | none => false
  | some location => (t.drop (location + 1)).any isZoneStart

theorem parseIsoTime_offset {t : PyText} {time : ℕ} {offset : Option ℤ}
    (h : parseIsoTime t = some (time, offset)) : offset.isSome = t.any isZoneStart := by
  unfold parseIsoTime at h
  obtain ⟨fields, -, h⟩ := Option.bind_eq_some_iff.mp h
  dsimp only at h
  by_cases hvalid : fields.Valid
  · simp only [hvalid, if_true] at h
    split at h
    next hnil =>
      have hall : ∀ c ∈ t, isZoneStart c = false := by simpa using hnil
      obtain ⟨-, rfl⟩ := Prod.mk.inj (Option.some.inj h)
      simpa using hall
    next hne =>
      have hsome : ∃ c ∈ t, isZoneStart c = true := by simpa using hne
      obtain ⟨zone, hzone, h⟩ := Option.bind_eq_some_iff.mp h
      obtain ⟨offset', -, rfl⟩ := Option.map_eq_some_iff.mp hzone
      obtain ⟨-, rfl⟩ := Prod.mk.inj (Option.some.inj h)
      simpa using hsome
  · simp [hvalid] at h

/-- A `datetime` that is read is aware exactly if its text has an offset. -/
theorem fromisoformat_utcoffset {t : PyText} {d : PyDatetime} (h : fromisoformat t = some d) :
    d.utcoffset.isSome = hasOffset t := by
  unfold fromisoformat at h
  split at h
  next => cases h
  next =>
    obtain ⟨location, hlocation, h⟩ := Option.bind_eq_some_iff.mp h
    obtain ⟨ordinal, -, h⟩ := Option.bind_eq_some_iff.mp h
    simp only [hasOffset, hlocation]
    dsimp only at h
    split at h
    next hnil =>
      obtain rfl := Option.some.inj h
      simp [hnil]
    next =>
      obtain ⟨⟨time, offset⟩, htime, h⟩ := Option.bind_eq_some_iff.mp h
      obtain rfl := Option.some.inj h
      exact parseIsoTime_offset htime

/-- The two parts of the text a token encodes. -/
def cursorParts (token : PyText) : Option (PyText × PyText) := do
  let bytes ← utf8Encode token
  let raw ← (urlsafeB64decode bytes).bind utf8Decode
  PyText.partition 0x7c raw

section
variable (asciiOf : ℕ → ℕ)

/-- The token encodes a `datetime` and an id, and the `datetime` has this property. -/
def Forges (P : PyText → PyDatetime → Prop) (token : PyText) : Prop :=
  ∃ createdAtRaw idRaw createdAt, cursorParts token = some (createdAtRaw, idRaw) ∧
    fromisoformat createdAtRaw = some createdAt ∧ (uuidOfText asciiOf idRaw).isSome ∧
    P createdAtRaw createdAt

/-- The token encodes a `datetime` without an offset. -/
def ForgesNaive : PyText → Prop := Forges asciiOf fun createdAtRaw _ => hasOffset createdAtRaw = false

/-- The token encodes a `datetime` with an offset that is not in the years 1 to 9999 in UTC. -/
def ForgesOutOfRange : PyText → Prop :=
  Forges asciiOf fun createdAtRaw createdAt => hasOffset createdAtRaw = true ∧
    ∀ offset ∈ createdAt.utcoffset,
      ¬(datetimeMin ≤ createdAt.clock - offset ∧ createdAt.clock - offset ≤ datetimeMax)

variable {asciiOf} {token : PyText} {createdAt : PyDatetime} {id : UUID}

theorem readCursor_eq_some : readCursor (stdlibReaders asciiOf) token = some (createdAt, id) ↔
    ∃ createdAtRaw idRaw, cursorParts token = some (createdAtRaw, idRaw) ∧
      fromisoformat createdAtRaw = some createdAt ∧ uuidOfText asciiOf idRaw = some id := by
  have hread : readCursor (stdlibReaders asciiOf) token = (cursorParts token).bind fun p =>
      (fromisoformat p.1).bind fun createdAt =>
        (uuidOfText asciiOf p.2).bind fun id => some (createdAt, id) := by
    unfold readCursor cursorParts stdlibReaders
    simp only [Option.bind_eq_bind, Option.bind_assoc]
    rfl
  rw [hread, Option.bind_eq_some_iff]
  simp [Option.bind_eq_some_iff]

/-- The `datetime` has no offset exactly if its text has none. -/
theorem forgesNaive_iff : ForgesNaive asciiOf token ↔
    ∃ createdAt id, readCursor (stdlibReaders asciiOf) token = some (createdAt, id) ∧
      createdAt.utcoffset = none := by
  simp only [readCursor_eq_some, ForgesNaive, Forges]
  constructor
  · rintro ⟨createdAtRaw, idRaw, createdAt, hparts, hcreated, hid, hoffset⟩
    obtain ⟨id, hid⟩ := Option.isSome_iff_exists.mp hid
    rw [← fromisoformat_utcoffset hcreated, Option.isSome_eq_false_iff] at hoffset
    exact ⟨createdAt, id, ⟨createdAtRaw, idRaw, hparts, hcreated, hid⟩,
      Option.isNone_iff_eq_none.mp hoffset⟩
  · rintro ⟨createdAt, id, ⟨createdAtRaw, idRaw, hparts, hcreated, hid⟩, hnone⟩
    refine ⟨createdAtRaw, idRaw, createdAt, hparts, hcreated, by rw [hid]; rfl, ?_⟩
    rw [← fromisoformat_utcoffset hcreated, hnone]
    rfl

/-- The driver takes every aware `datetime` but those out of its range. -/
theorem forgesOutOfRange_iff : ForgesOutOfRange asciiOf token ↔
    ∃ createdAt id, readCursor (stdlibReaders asciiOf) token = some (createdAt, id) ∧
      createdAt.utcoffset.isSome ∧ createdAt.timestamptz = none := by
  have hrefuse : ∀ createdAt : PyDatetime, createdAt.utcoffset.isSome →
      (createdAt.timestamptz = none ↔ ∀ offset ∈ createdAt.utcoffset,
        ¬(datetimeMin ≤ createdAt.clock - offset ∧ createdAt.clock - offset ≤ datetimeMax)) := by
    intro createdAt haware
    obtain ⟨offset, hoffset⟩ := Option.isSome_iff_exists.mp haware
    unfold PyDatetime.timestamptz
    simp [hoffset]
  simp only [readCursor_eq_some, ForgesOutOfRange, Forges]
  constructor
  · rintro ⟨createdAtRaw, idRaw, createdAt, hparts, hcreated, hid, hoffset, hrange⟩
    obtain ⟨id, hid⟩ := Option.isSome_iff_exists.mp hid
    rw [← fromisoformat_utcoffset hcreated] at hoffset
    exact ⟨createdAt, id, ⟨createdAtRaw, idRaw, hparts, hcreated, hid⟩, hoffset,
      (hrefuse createdAt hoffset).mpr hrange⟩
  · rintro ⟨createdAt, id, ⟨createdAtRaw, idRaw, hparts, hcreated, hid⟩, hoffset, hnone⟩
    refine ⟨createdAtRaw, idRaw, createdAt, hparts, hcreated, by rw [hid]; rfl, ?_,
      (hrefuse createdAt hoffset).mp hnone⟩
    rw [← fromisoformat_utcoffset hcreated]
    exact hoffset

/-- A token is rejected or decodes to an aware `datetime`, unless it forges a naive one. -/
theorem decodeCursor_aware_iff :
    (decodeCursor (stdlibReaders asciiOf) token = .error (.cursorDecode token) ∨
      ∃ createdAt id, decodeCursor (stdlibReaders asciiOf) token = .ok (createdAt, id) ∧
        createdAt.utcoffset.isSome) ↔ ¬ForgesNaive asciiOf token := by
  rw [forgesNaive_iff]
  unfold decodeCursor
  cases readCursor (stdlibReaders asciiOf) token with
  | none => simp
  | some p =>
    obtain ⟨createdAt, id⟩ := p
    simp [Option.isSome_iff_ne_none]

end
end RelayWebhooks
