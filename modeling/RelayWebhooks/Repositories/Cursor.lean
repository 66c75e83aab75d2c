import RelayWebhooks.Py.Base64
import RelayWebhooks.Py.IsoFormat
import RelayWebhooks.Repositories.Pagination

/-! Cursors read back by the standard library. -/
namespace RelayWebhooks

/-- An instant a `datetime` in UTC can hold. -/
def UtcInstant := { utc : ℤ // datetimeMin ≤ utc ∧ utc ≤ datetimeMax }

/-- `base64`, `datetime` and `uuid`; `asciiOf` reads decimal digits and spaces beyond ASCII. -/
def stdlibReaders (asciiOf : ℕ → ℕ) : CursorReaders where
  urlsafeB64decode := urlsafeB64decode
  fromisoformat := fromisoformat
  uuid := uuidOfText asciiOf

theorem urlsafeB64encode_printable (bs : Bytes) : (urlsafeB64encode bs).Printable := by
  have hpad : ∀ n, PyText.Printable (List.replicate n 0x3d) := by
    intro n c hc
    rw [List.eq_of_mem_replicate hc]
    omega
  simp [urlsafeB64encode, tokenUrlsafe_printable, hpad]

/-- The separator of a cursor does not occur in the text of an instant. -/
theorem bar_notMem_isoformat (utc : ℤ) : 0x7c ∉ isoformat utc := by
  have hpadded : ∀ width n, 0x7c ∉ paddedText width n := by
    intro width n h
    obtain ⟨i, -, hi⟩ := List.mem_map.mp h
    have hlt := (digitChar_decimal (d := n / 10 ^ i % 10) (by omega)).2.2
    omega
  have hoffset : 0x7c ∉ PyText.ofString "+00:00" := by decide
  unfold isoformat
  simp only
  split <;> simp [hpadded, hoffset]

variable (asciiOf : ℕ → ℕ)

theorem readCursor_encodeCursor {createdAt : ℤ} (rowId : UUID) (hlow : datetimeMin ≤ createdAt)
    (hhigh : createdAt ≤ datetimeMax) :
    readCursor (stdlibReaders asciiOf) (encodeCursor createdAt rowId) =
      some (⟨createdAt, some 0⟩, rowId) := by
  have htoken := utf8Encode_printable
    (urlsafeB64encode_printable ((cursorText createdAt rowId).map fun c => UInt8.ofNat c))
  have htext : (cursorText createdAt rowId).Printable := by
    simp [cursorText, isoformat_printable, uuidText_printable]
  have hraw : utf8Decode ((cursorText createdAt rowId).map fun c => UInt8.ofNat c) =
      some (cursorText createdAt rowId) := by
    unfold utf8Decode
    simp only [utf8DecodeReplace_printable htext, utf8Encode_cursorText, if_true]
  have hsplit : PyText.partition 0x7c (cursorText createdAt rowId) =
      some (isoformat createdAt, uuidText rowId) :=
    PyText.partition_append (bar_notMem_isoformat createdAt)
  unfold readCursor encodeCursor
  simp only [stdlibReaders, htoken, urlsafeB64decode_encode, hraw, hsplit,
    fromisoformat_isoformat hlow hhigh, uuidOfText_uuidText, Option.bind_eq_bind, Option.bind_some]
  rfl

theorem decodeCursor_encodeCursor {createdAt : ℤ} (rowId : UUID) (hlow : datetimeMin ≤ createdAt)
    (hhigh : createdAt ≤ datetimeMax) :
    decodeCursor (stdlibReaders asciiOf) (encodeCursor createdAt rowId) =
      .ok (⟨createdAt, some 0⟩, rowId) := by
  rw [decodeCursor, readCursor_encodeCursor asciiOf rowId hlow hhigh]

/-- Every cursor reads back as the pair it was made of, so no two pairs share one. -/
theorem cursor_roundTrip :
    (∀ (t : UtcInstant) (u : UUID), decodeCursor (stdlibReaders asciiOf) (encodeCursor t.1 u) =
      .ok (⟨t.1, some 0⟩, u)) ∧
    Function.Injective fun p : UtcInstant × UUID => encodeCursor p.1.1 p.2 := by
  have hround : ∀ (t : UtcInstant) (u : UUID),
      decodeCursor (stdlibReaders asciiOf) (encodeCursor t.1 u) = .ok (⟨t.1, some 0⟩, u) :=
    fun t u => decodeCursor_encodeCursor asciiOf u t.2.1 t.2.2
  refine ⟨hround, ?_⟩
  rintro ⟨t, u⟩ ⟨t', u'⟩ h
  have heq := congrArg (decodeCursor (stdlibReaders asciiOf)) h
  simp only [hround, Except.ok.injEq, Prod.mk.injEq, PyDatetime.mk.injEq] at heq
  rw [Prod.mk.injEq]
  exact ⟨Subtype.ext heq.1.1, heq.2⟩

end RelayWebhooks
