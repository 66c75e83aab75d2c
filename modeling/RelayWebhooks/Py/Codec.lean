import RelayWebhooks.Py.Text
import Mathlib.Data.List.TakeWhile

/-! Splitting text at a separator, bytes as hexadecimal text, and the random tokens of
`secrets.token_urlsafe`. -/
namespace RelayWebhooks

/-- `str.partition` at one character; `none` when it does not occur. -/
def PyText.partition (sep : ℕ) : PyText → Option (PyText × PyText)
  | [] => none
  | c :: t => if c = sep then some ([], t) else (partition sep t).map fun p => (c :: p.1, p.2)

theorem PyText.partition_append {sep : ℕ} {t u : PyText} (h : sep ∉ t) :
    PyText.partition sep (t ++ sep :: u) = some (t, u) := by
  induction t with
  | nil => simp [PyText.partition]
  | cons c t ih =>
    rw [List.mem_cons, not_or] at h
    obtain ⟨hc, ht⟩ := h
    rw [List.cons_append, PyText.partition, if_neg (Ne.symm hc), ih ht]
    rfl

theorem PyText.partition_eq_some {sep : ℕ} {t a b : PyText}
    (h : PyText.partition sep t = some (a, b)) : t = a ++ sep :: b := by
  induction t generalizing a with
  | nil => cases h
  | cons c t ih =>
    unfold PyText.partition at h
    split at h
    next hc => cases h; rw [hc]; rfl
    next =>
      obtain ⟨⟨a', b'⟩, hp, heq⟩ := Option.map_eq_some_iff.mp h
      cases heq
      rw [ih hp]
      rfl

theorem utf8Encode_cons (c : ℕ) (t : PyText) :
    utf8Encode (c :: t) = (utf8EncodeChar c).bind fun x => (utf8Encode t).map (x ++ ·) := by
  unfold utf8Encode
  rw [List.mapM_cons]
  cases utf8EncodeChar c with
  | none => rfl
  | some x => cases t.mapM utf8EncodeChar <;> rfl

theorem toNat_ofNat_ge {n : ℕ} (h : 0x80 ≤ n % 256) : 0x80 ≤ (UInt8.ofNat n).toNat := by
  rw [UInt8.toNat_ofNat']
  exact h

/-- A character is one byte below 128, or starts with a byte from 128 on. -/
theorem utf8EncodeChar_cases {c : ℕ} {bs : Bytes} (h : utf8EncodeChar c = some bs) :
    (c < 0x80 ∧ bs = [UInt8.ofNat c]) ∨ ∃ b rest, bs = b :: rest ∧ 0x80 ≤ b.toNat := by
  unfold utf8EncodeChar at h
  dsimp only at h
  split at h
  next hc => cases h; exact .inl ⟨hc, rfl⟩
  next =>
    right
    split at h
    next hc =>
      cases h
      exact ⟨_, _, rfl, toNat_ofNat_ge (by omega)⟩
    next =>
      split at h
      next => cases h
      next =>
        split at h
        next hc =>
          cases h
          exact ⟨_, _, rfl, toNat_ofNat_ge (by omega)⟩
        next =>
          split at h
          next hc =>
            cases h
            exact ⟨_, _, rfl, toNat_ofNat_ge (by omega)⟩
          next => cases h

/-- Only a printable text itself has its encoding. -/
theorem eq_of_utf8Encode {t u : PyText} (hu : u.Printable)
    (h : utf8Encode t = some (u.map fun c => UInt8.ofNat c)) : t = u := by
  induction t generalizing u with
  | nil =>
    have hnil : u.map (fun c => UInt8.ofNat c) = [] := (Option.some.inj h).symm
    exact (List.map_eq_nil_iff.mp hnil).symm
  | cons c t ih =>
    rw [utf8Encode_cons] at h
    obtain ⟨x, hx, h⟩ := Option.bind_eq_some_iff.mp h
    obtain ⟨y, hy, h⟩ := Option.map_eq_some_iff.mp h
    cases u with
    | nil =>
      obtain ⟨rfl, -⟩ := List.append_eq_nil_iff.mp h
      rcases utf8EncodeChar_cases hx with ⟨-, hnil⟩ | ⟨b, rest, hnil, -⟩ <;> cases hnil
    | cons d u =>
      obtain ⟨hd, htail⟩ := PyText.printable_cons.mp hu
      rcases utf8EncodeChar_cases hx with ⟨hc, rfl⟩ | ⟨b, rest, rfl, hb⟩
      · obtain ⟨hcd, hrest⟩ := List.cons.inj h
        have heq := congrArg UInt8.toNat hcd
        rw [UInt8.toNat_ofNat', UInt8.toNat_ofNat'] at heq
        obtain rfl : c = d := by omega
        rw [ih htail (hy.trans (congrArg some hrest))]
      · obtain ⟨hbd, -⟩ := List.cons.inj h
        rw [hbd, UInt8.toNat_ofNat'] at hb
        omega

/-- `bytes.decode()`, `none` when it raises `UnicodeDecodeError`: the bytes are not the encoding
of any text. -/
def utf8Decode (bs : Bytes) : Option PyText :=
  let t := utf8DecodeReplace bs
  if utf8Encode t = some bs then some t else none

/-- `bytes.hex()`. -/
def bytesHex (bs : Bytes) : PyText :=
  bs.flatMap fun b => [digitChar (b.toNat / 16), digitChar (b.toNat % 16)]

def hexValue (c : ℕ) : Option ℕ :=
  if 0x30 ≤ c ∧ c ≤ 0x39 then some (c - 0x30)
  else if 0x61 ≤ c ∧ c ≤ 0x66 then some (c - 0x57)
  else if 0x41 ≤ c ∧ c ≤ 0x46 then some (c - 0x37)
  else none

def isAsciiSpace (c : ℕ) : Bool := (0x09 ≤ c && c ≤ 0x0d) || c = 0x20

/-- `bytes.fromhex`, `none` when it raises `ValueError`. Blanks may stand between the bytes. -/
def fromHex : PyText → Option Bytes
  | [] => some []
  | [c] => if isAsciiSpace c then some [] else none
  | c :: d :: t =>
    if isAsciiSpace c then fromHex (d :: t)
    else
      match hexValue c, hexValue d with
      | some h, some l => (fromHex t).map fun bs => UInt8.ofNat (16 * h + l) :: bs
      | _, _ => none

theorem hexValue_digitChar {d : ℕ} (h : d < 16) : hexValue (digitChar d) = some d := by
  revert d
  decide

theorem isAsciiSpace_digitChar {d : ℕ} (h : d < 16) : isAsciiSpace (digitChar d) = false := by
  revert d
  decide

theorem fromHex_bytesHex (bs : Bytes) : fromHex (bytesHex bs) = some bs := by
  induction bs with
  | nil => rfl
  | cons b bs ih =>
    have hb : b.toNat < 256 := b.toNat_lt
    have hhigh : b.toNat / 16 < 16 := by omega
    have hlow : b.toNat % 16 < 16 := Nat.mod_lt _ (by omega)
    have hbyte : UInt8.ofNat (16 * (b.toNat / 16) + b.toNat % 16) = b := by
      rw [Nat.div_add_mod, UInt8.ofNat_toNat]
    show fromHex (digitChar (b.toNat / 16) :: digitChar (b.toNat % 16) :: bytesHex bs) = _
    simp only [fromHex, isAsciiSpace_digitChar hhigh, Bool.false_eq_true, if_false,
      hexValue_digitChar hhigh, hexValue_digitChar hlow, ih, Option.map_some, hbyte]

theorem bytesHex_injective : Function.Injective bytesHex := by
  intro a b h
  have heq := congrArg fromHex h
  rw [fromHex_bytesHex, fromHex_bytesHex] at heq
  exact Option.some.inj heq

theorem digitChar_ne_dollar {d : ℕ} (h : d < 16) : digitChar d ≠ 0x24 := by
  revert d
  decide

theorem dollar_notMem_bytesHex (bs : Bytes) : 0x24 ∉ bytesHex bs := by
  intro h
  obtain ⟨b, -, hb⟩ := List.mem_flatMap.mp h
  have hlt : b.toNat < 256 := b.toNat_lt
  rcases List.mem_cons.mp hb with heq | hb
  · exact digitChar_ne_dollar (by omega) heq.symm
  · exact digitChar_ne_dollar (Nat.mod_lt _ (by omega)) (List.mem_singleton.mp hb).symm

/-- The URL-safe base 64 digits. -/
def base64Char (d : ℕ) : ℕ :=
  if d < 26 then 0x41 + d
  else if d < 52 then 0x47 + d
  else if d < 62 then d - 4
  else if d = 62 then 0x2d
  else 0x5f

/-- `token_urlsafe` of the bytes it drew: URL-safe base 64 without the padding. -/
def tokenUrlsafe : Bytes → PyText
  | [] => []
  | [a] => [base64Char (a.toNat / 4), base64Char (a.toNat % 4 * 16)]
  | [a, b] =>
    [base64Char (a.toNat / 4), base64Char (a.toNat % 4 * 16 + b.toNat / 16),
      base64Char (b.toNat % 16 * 4)]
  | a :: b :: c :: bs =>
    base64Char (a.toNat / 4) :: base64Char (a.toNat % 4 * 16 + b.toNat / 16) ::
      base64Char (b.toNat % 16 * 4 + c.toNat / 64) :: base64Char (c.toNat % 64) ::
      tokenUrlsafe bs

/-- `base64.urlsafe_b64encode`: the same digits, padded to groups of four. -/
def urlsafeB64encode (bs : Bytes) : PyText :=
  tokenUrlsafe bs ++ List.replicate ((3 - bs.length % 3) % 3) 0x3d

/-- A printable character that is not the full stop. -/
def IsTokenChar (c : ℕ) : Prop := 0x2d ≤ c ∧ c < 0x7f ∧ c ≠ 0x2e

theorem base64Char_isTokenChar (d : ℕ) : IsTokenChar (base64Char d) := by
  unfold IsTokenChar base64Char
  split_ifs <;> omega

theorem tokenUrlsafe_chars (bs : Bytes) : ∀ c ∈ tokenUrlsafe bs, IsTokenChar c := by
  induction bs using tokenUrlsafe.induct with
  | case1 => nofun
  | case2 a => simp [tokenUrlsafe, base64Char_isTokenChar]
  | case3 a b => simp [tokenUrlsafe, base64Char_isTokenChar]
  | case4 a b c bs ih => simpa [tokenUrlsafe, base64Char_isTokenChar] using ih

theorem tokenUrlsafe_printable (bs : Bytes) : (tokenUrlsafe bs).Printable := by
  intro c hc
  obtain ⟨hlow, hhigh, -⟩ := tokenUrlsafe_chars bs c hc
  omega

theorem dot_notMem_tokenUrlsafe (bs : Bytes) : 0x2e ∉ tokenUrlsafe bs := by
  intro h
  exact (tokenUrlsafe_chars bs _ h).2.2 rfl

theorem tokenUrlsafe_ne_nil {bs : Bytes} (h : bs ≠ []) : tokenUrlsafe bs ≠ [] := by
  cases bs using tokenUrlsafe.induct with
  | case1 => exact absurd rfl h
  | case2 | case3 | case4 => simp [tokenUrlsafe]

end RelayWebhooks
