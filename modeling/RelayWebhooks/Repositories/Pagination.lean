import RelayWebhooks.Domain.Errors
import RelayWebhooks.Py.Codec
import RelayWebhooks.Py.Datetime
import Mathlib.Data.Prod.Lex

/-! Cursors and keyset pages in the order of `(created_at, id)`. -/
namespace RelayWebhooks

structure Page (α : Type) where
  items : List α
  nextCursor : Option PyText
  hasMore : Bool
  deriving DecidableEq

namespace Page

def mapItems {α β : Type} (f : α → β) (p : Page α) : Page β where
  items := p.items.map f
  nextCursor := p.nextCursor
  hasMore := p.hasMore

end Page

/-- The library functions that read a cursor back. Each answers `none` where it raises
`ValueError`. -/
structure CursorReaders where
  urlsafeB64decode : Bytes → Option Bytes
  fromisoformat : PyText → Option PyDatetime
  uuid : PyText → Option UUID

def cursorText (createdAt : ℤ) (rowId : UUID) : PyText :=
  isoformat createdAt ++ 0x7c :: uuidText rowId

theorem utf8Encode_cursorText (createdAt : ℤ) (rowId : UUID) :
    utf8Encode (cursorText createdAt rowId) =
      some ((cursorText createdAt rowId).map fun c => UInt8.ofNat c) := by
  apply utf8Encode_printable
  simp [cursorText, isoformat_printable, uuidText_printable]

/-- The text is ASCII and has one byte for each character. -/
def encodeCursor (createdAt : ℤ) (rowId : UUID) : PyText :=
  urlsafeB64encode ((cursorText createdAt rowId).map fun c => UInt8.ofNat c)

def readCursor (readers : CursorReaders) (token : PyText) : Option (PyDatetime × UUID) := do
  let bytes ← utf8Encode token
  let raw ← (readers.urlsafeB64decode bytes).bind utf8Decode
  let (createdAtRaw, idRaw) ← PyText.partition 0x7c raw
  let createdAt ← readers.fromisoformat createdAtRaw
  let id ← readers.uuid idRaw
  return (createdAt, id)

def decodeCursor (readers : CursorReaders) (token : PyText) :
    Except Raised (PyDatetime × UUID) :=
  match readCursor readers token with
  | some cursor => .ok cursor
  | none => .error (.cursorDecode token)

/-- Where a row stands in the order of the pages. -/
abbrev Position := ℤ ×ₗ ℕ

/-- The store compares ids byte by byte. -/
def position (createdAt : ℤ) (id : UUID) : Position := toLex (createdAt, id.toNat)

/-- `rows[:limit]`. -/
def sliceTo {α : Type} (rows : List α) (limit : ℤ) : List α :=
  if limit < 0 then rows.take (rows.length - limit.natAbs) else rows.take limit.toNat

/-- The largest `LIMIT` the store takes. -/
def bigintMax : ℤ := 9223372036854775807

/-- `LIMIT`; the store takes no negative one and none beyond `bigint`. -/
def limitRows {α : Type} (rows : List α) (limit : ℤ) : Except Raised (List α) :=
  if 0 ≤ limit ∧ limit ≤ bigintMax then .ok (rows.take limit.toNat) else .error .database

section Keyset

variable {ρ : Type} (createdAt : ρ → ℤ) (id : ρ → UUID)

def orderByPosition (rows : List ρ) : List ρ :=
  rows.mergeSort fun r s => position (createdAt r) (id r) ≤ position (createdAt s) (id s)

/-- The rows that come after the cursor. -/
def rowsAfter (rows : List ρ) : Option (PyDatetime × UUID) → Except Raised (List ρ)
  | none => .ok rows
  | some (cursorCreatedAt, cursorId) =>
    match cursorCreatedAt.timestamptz with
    | none => .error .database
    | some t =>
      .ok (rows.filter fun r => position t cursorId < position (createdAt r) (id r))

/-- The page of `limit + 1` rows read. -/
def toPage (rows : List ρ) (limit : ℤ) : Page ρ :=
  let hasMore : Bool := limit < rows.length
  let items := sliceTo rows limit
  { items, hasMore
    nextCursor :=
      if hasMore then items.getLast?.map fun r => encodeCursor (createdAt r) (id r) else none }

/-- The query both repositories build over the rows that match their filter. -/
def keysetPage (readers : CursorReaders) (rows : List ρ) (cursor : Option PyText) (limit : ℤ) :
    Except Raised (Page ρ) := do
  let after ← cursor.mapM (decodeCursor readers)
  let matching ← rowsAfter createdAt id rows after
  let read ← limitRows (orderByPosition createdAt id matching) (limit + 1)
  return toPage createdAt id read limit

variable {createdAt id}

theorem mem_sliceTo {α : Type} {rows : List α} {limit : ℤ} {r : α} (h : r ∈ sliceTo rows limit) :
    r ∈ rows := by
  unfold sliceTo at h
  split at h
  next => exact List.mem_of_mem_take h
  next => exact List.mem_of_mem_take h

theorem mem_limitRows {α : Type} {rows read : List α} {limit : ℤ} {r : α}
    (h : limitRows rows limit = .ok read) (hr : r ∈ read) : r ∈ rows := by
  unfold limitRows at h
  split at h
  next => cases h; exact List.mem_of_mem_take hr
  next => cases h

theorem mem_rowsAfter {rows matching : List ρ} {after : Option (PyDatetime × UUID)} {r : ρ}
    (h : rowsAfter createdAt id rows after = .ok matching) (hr : r ∈ matching) : r ∈ rows := by
  unfold rowsAfter at h
  split at h
  next => cases h; exact hr
  next =>
    split at h
    next => cases h
    next => cases h; exact List.mem_of_mem_filter hr

/-- A page shows only rows that match the filter. -/
theorem mem_keysetPage {readers : CursorReaders} {rows : List ρ} {cursor : Option PyText}
    {limit : ℤ} {page : Page ρ} (h : keysetPage createdAt id readers rows cursor limit = .ok page)
    {r : ρ} (hr : r ∈ page.items) : r ∈ rows := by
  obtain ⟨after, -, h⟩ := bind_ok h
  obtain ⟨matching, hmatching, h⟩ := bind_ok h
  obtain ⟨read, hread, h⟩ := bind_ok h
  cases h
  have hsorted := mem_limitRows hread (mem_sliceTo hr)
  rw [orderByPosition, List.mem_mergeSort] at hsorted
  exact mem_rowsAfter hmatching hsorted

end Keyset

end RelayWebhooks
