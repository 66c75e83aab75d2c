import Mathlib.Data.Nat.Digits.Defs
import Mathlib.Data.List.Basic

/-! Python text as code points, its UTF-8 encoding, and the texts of integers and UUIDs. -/
namespace RelayWebhooks

/-- A Python `str`: a sequence of code points below `0x110000`, lone surrogates included. -/
abbrev PyText := List ℕ

abbrev Bytes := List UInt8

abbrev UUID := BitVec 128

namespace PyText

def ofString (s : String) : PyText := s.toList.map Char.toNat

/-- The code points of printable ASCII. -/
def Printable (t : PyText) : Prop := ∀ c ∈ t, 0x20 ≤ c ∧ c < 0x7f

instance (t : PyText) : Decidable (Printable t) := inferInstanceAs (Decidable (∀ c ∈ t, _))

/-- U+0000 occurs in the text. -/
def HasNul (t : PyText) : Prop := 0 ∈ t

instance (t : PyText) : Decidable (HasNul t) := inferInstanceAs (Decidable (_ ∈ _))

@[simp] theorem printable_nil : Printable [] := by simp [Printable]

@[simp] theorem printable_cons {c : ℕ} {t : PyText} :
    Printable (c :: t) ↔ (0x20 ≤ c ∧ c < 0x7f) ∧ Printable t := by
  simp [Printable]

@[simp] theorem printable_append {t u : PyText} :
    Printable (t ++ u) ↔ Printable t ∧ Printable u := List.forall_mem_append

theorem Printable.take {t : PyText} (h : Printable t) (n : ℕ) : Printable (t.take n) :=
  fun c hc => h c (List.mem_of_mem_take hc)

theorem Printable.drop {t : PyText} (h : Printable t) (n : ℕ) : Printable (t.drop n) :=
  fun c hc => h c (List.mem_of_mem_drop hc)

theorem Printable.not_hasNul {t : PyText} (h : Printable t) : ¬HasNul t := by
  intro hn
  exact absurd (h 0 hn).1 (by decide)

end PyText

/-- The text of one decimal or hexadecimal digit. -/
def digitChar (d : ℕ) : ℕ := if d < 10 then 0x30 + d else 0x57 + d

theorem digitChar_printable {d : ℕ} (h : d < 16) :
    0x20 ≤ digitChar d ∧ digitChar d < 0x7f := by
  unfold digitChar
  split <;> omega

def natText (n : ℕ) : PyText :=
  if n = 0 then [digitChar 0] else (Nat.digits 10 n).reverse.map digitChar

/-- `str` of an integer. -/
def intText (i : ℤ) : PyText :=
  if i < 0 then 0x2d :: natText i.natAbs else natText i.natAbs

theorem natText_printable (n : ℕ) : (natText n).Printable := by
  unfold natText
  split
  · simpa using digitChar_printable (d := 0) (by omega)
  · intro c hc
    obtain ⟨d, hd, rfl⟩ := List.mem_map.mp hc
    have := Nat.digits_lt_base (b := 10) (by omega) (List.mem_reverse.mp hd)
    exact digitChar_printable (by omega)

theorem intText_printable (i : ℤ) : (intText i).Printable := by
  unfold intText
  split
  · exact PyText.printable_cons.mpr ⟨by decide, natText_printable _⟩
  · exact natText_printable _

/-- The `n` lowest hexadecimal digits of `k`, the highest first. -/
def hexText (n k : ℕ) : PyText :=
  (List.range n).reverse.map fun i => digitChar (k / 16 ^ i % 16)

theorem hexText_printable (n k : ℕ) : (hexText n k).Printable := by
  intro c hc
  obtain ⟨i, -, rfl⟩ := List.mem_map.mp hc
  exact digitChar_printable (Nat.mod_lt _ (by omega))

/-- `str` of a UUID: 32 hexadecimal digits in groups of 8, 4, 4, 4 and 12. -/
def uuidText (u : UUID) : PyText :=
  let h := hexText 32 u.toNat
  h.take 8 ++ 0x2d :: (h.drop 8).take 4 ++ 0x2d :: (h.drop 12).take 4 ++
    0x2d :: (h.drop 16).take 4 ++ 0x2d :: h.drop 20

theorem uuidText_printable (u : UUID) : (uuidText u).Printable := by
  have h := hexText_printable 32 u.toNat
  simp [uuidText, h.take, h.drop, (h.drop _).take]

/-- `repr` of a UUID. -/
def uuidRepr (u : UUID) : PyText :=
  PyText.ofString "UUID('" ++ uuidText u ++ PyText.ofString "')"

/-- One character between quotes. `isPrintable` is `str.isprintable` beyond ASCII. -/
def reprChar (isPrintable : ℕ → Bool) (quote c : ℕ) : PyText :=
  if c = quote ∨ c = 0x5c then [0x5c, c]
  else if c = 0x09 then [0x5c, 0x74]
  else if c = 0x0a then [0x5c, 0x6e]
  else if c = 0x0d then [0x5c, 0x72]
  else if c < 0x20 ∨ c = 0x7f then 0x5c :: 0x78 :: hexText 2 c
  else if c < 0x7f ∨ isPrintable c then [c]
  else if c ≤ 0xff then 0x5c :: 0x78 :: hexText 2 c
  else if c ≤ 0xffff then 0x5c :: 0x75 :: hexText 4 c
  else 0x5c :: 0x55 :: hexText 8 c

/-- `repr` of text: in double quotes when only the single quote occurs. -/
def textRepr (isPrintable : ℕ → Bool) (t : PyText) : PyText :=
  let quote := if 0x27 ∈ t ∧ 0x22 ∉ t then 0x22 else 0x27
  quote :: t.flatMap (reprChar isPrintable quote) ++ [quote]

/-- The UTF-8 bytes of one code point; surrogates have none. -/
def utf8EncodeChar (c : ℕ) : Option Bytes :=
  let tail (k : ℕ) : UInt8 := .ofNat (0x80 + c / 64 ^ k % 64)
  if c < 0x80 then some [.ofNat c]
  else if c < 0x800 then some [.ofNat (0xc0 + c / 64), tail 0]
  else if 0xd800 ≤ c ∧ c < 0xe000 then none
  else if c < 0x10000 then some [.ofNat (0xe0 + c / 4096), tail 1, tail 0]
  else if c < 0x110000 then some [.ofNat (0xf0 + c / 262144), tail 2, tail 1, tail 0]
  else none

/-- `str.encode()`. -/
def utf8Encode (t : PyText) : Option Bytes := (t.mapM utf8EncodeChar).map List.flatten

/-- A multi-byte sequence under way: the continuation bytes still to come, the bits read so
far and the range the next byte has to lie in. -/
structure Utf8Partial where
  need : ℕ
  bits : ℕ
  low : ℕ
  high : ℕ

inductive Utf8Start where
  | char (c : ℕ)
  | pending (p : Utf8Partial)

def replacementChar : ℕ := 0xfffd

/-- What a byte does where a character starts. -/
def utf8Start (b : UInt8) : Utf8Start :=
  let n := b.toNat
  if n < 0x80 then .char n
  else if 0xc2 ≤ n ∧ n < 0xe0 then .pending ⟨1, n - 0xc0, 0x80, 0xbf⟩
  else if n = 0xe0 then .pending ⟨2, 0, 0xa0, 0xbf⟩
  else if n = 0xed then .pending ⟨2, 0xd, 0x80, 0x9f⟩
  else if 0xe1 ≤ n ∧ n < 0xf0 then .pending ⟨2, n - 0xe0, 0x80, 0xbf⟩
  else if n = 0xf0 then .pending ⟨3, 0, 0x90, 0xbf⟩
  else if 0xf1 ≤ n ∧ n < 0xf4 then .pending ⟨3, n - 0xf0, 0x80, 0xbf⟩
  else if n = 0xf4 then .pending ⟨3, 4, 0x80, 0x8f⟩
  else .char replacementChar

def utf8DecodeFrom : Option Utf8Partial → Bytes → PyText
  | none, [] => []
  | some _, [] => [replacementChar]
  | none, b :: bs =>
    match utf8Start b with
    | .char c => c :: utf8DecodeFrom none bs
    | .pending p => utf8DecodeFrom (some p) bs
  | some p, b :: bs =>
    if p.low ≤ b.toNat ∧ b.toNat ≤ p.high then
      let bits := p.bits * 64 + b.toNat % 64
      if p.need ≤ 1 then bits :: utf8DecodeFrom none bs
      else utf8DecodeFrom (some ⟨p.need - 1, bits, 0x80, 0xbf⟩) bs
    else
      -- The sequence broke off: one replacement for it, and the byte starts afresh.
      replacementChar ::
        match utf8Start b with
        | .char c => c :: utf8DecodeFrom none bs
        | .pending p => utf8DecodeFrom (some p) bs

/-- `bytes.decode(errors="replace")`. -/
def utf8DecodeReplace (bs : Bytes) : PyText := utf8DecodeFrom none bs

private theorem mapM_encode_printable {t : PyText} (h : t.Printable) :
    t.mapM utf8EncodeChar = some (t.map fun c => [UInt8.ofNat c]) := by
  induction t with
  | nil => rfl
  | cons c t ih =>
    obtain ⟨hc, ht⟩ := PyText.printable_cons.mp h
    have hlt : c < 0x80 := by omega
    rw [List.mapM_cons, ih ht]
    simp [utf8EncodeChar, hlt]

/-- Printable text encodes one byte for one code point. -/
theorem utf8Encode_printable {t : PyText} (h : t.Printable) :
    utf8Encode t = some (t.map fun c => UInt8.ofNat c) := by
  have hf : ∀ u : PyText, (u.map fun c => [UInt8.ofNat c]).flatten =
      u.map fun c => UInt8.ofNat c := by
    intro u
    induction u with
    | nil => rfl
    | cons c u ih => simp [ih]
  rw [utf8Encode, mapM_encode_printable h, Option.map_some, hf]

/-- Decoding reads back a printable text that was encoded. -/
theorem utf8DecodeReplace_printable {t : PyText} (h : t.Printable) :
    utf8DecodeReplace (t.map fun c => UInt8.ofNat c) = t := by
  unfold utf8DecodeReplace
  induction t with
  | nil => rfl
  | cons c t ih =>
    obtain ⟨hc, ht⟩ := PyText.printable_cons.mp h
    have hn : (UInt8.ofNat c).toNat = c := by
      rw [UInt8.toNat_ofNat']
      omega
    have hs : utf8Start (UInt8.ofNat c) = .char c := by
      have hlt : c < 0x80 := by omega
      simp only [utf8Start, hn, hlt, if_true]
    simp only [List.map_cons, utf8DecodeFrom, hs, ih ht]

end RelayWebhooks
