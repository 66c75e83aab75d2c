import RelayWebhooks.Py.Codec

/-! `base64.urlsafe_b64decode`. -/
namespace RelayWebhooks

/-- The value of a digit, in the URL-safe alphabet or the standard one. -/
def base64Value (c : ℕ) : Option ℕ :=
  if 0x41 ≤ c ∧ c ≤ 0x5a then some (c - 0x41)
  else if 0x61 ≤ c ∧ c ≤ 0x7a then some (c - 0x47)
  else if 0x30 ≤ c ∧ c ≤ 0x39 then some (c + 4)
  else if c = 0x2d ∨ c = 0x2b then some 62
  else if c = 0x5f ∨ c = 0x2f then some 63
  else none

/-- `binascii.a2b_base64` after `quadPos` digits of a group of four: `leftchar` holds the bits not
written yet, `pads` the padding since the last digit. Other characters are skipped. -/
def a2bBase64 (quadPos leftchar pads : ℕ) : Bytes → Option Bytes
  | [] => if quadPos = 0 then some [] else none
  | b :: bs =>
    if b.toNat = 0x3d then
      if 2 ≤ quadPos then
        if 4 ≤ quadPos + (pads + 1) then some [] else a2bBase64 quadPos leftchar (pads + 1) bs
      else a2bBase64 quadPos leftchar pads bs
    else
      match base64Value b.toNat with
      | none => a2bBase64 quadPos leftchar pads bs
      | some v =>
        if quadPos = 0 then a2bBase64 1 v 0 bs
        else if quadPos = 1 then
          (a2bBase64 2 (v % 16) 0 bs).map (UInt8.ofNat (leftchar * 4 + v / 16) :: ·)
        else if quadPos = 2 then
          (a2bBase64 3 (v % 4) 0 bs).map (UInt8.ofNat (leftchar * 16 + v / 4) :: ·)
        else (a2bBase64 0 0 0 bs).map (UInt8.ofNat (leftchar * 64 + v) :: ·)

/-- `base64.urlsafe_b64decode`, `none` when it raises `binascii.Error`. -/
def urlsafeB64decode (bs : Bytes) : Option Bytes := a2bBase64 0 0 0 bs

theorem base64Value_base64Char {d : ℕ} (h : d < 64) :
    base64Value (base64Char d) = some d ∧ base64Char d ≠ 0x3d ∧ base64Char d < 256 := by
  revert d
  decide

section
variable {leftchar pads d : ℕ} (bs : Bytes) (h : d < 64)
include h

theorem toNat_base64Char : (UInt8.ofNat (base64Char d)).toNat = base64Char d := by
  have hlt := (base64Value_base64Char h).2.2
  rw [UInt8.toNat_ofNat']
  omega

theorem a2bBase64_first :
    a2bBase64 0 leftchar pads (UInt8.ofNat (base64Char d) :: bs) = a2bBase64 1 d 0 bs := by
  obtain ⟨hvalue, hpad, -⟩ := base64Value_base64Char h
  simp only [a2bBase64, toNat_base64Char h, hvalue, hpad, if_false, if_true]

theorem a2bBase64_second :
    a2bBase64 1 leftchar pads (UInt8.ofNat (base64Char d) :: bs) =
      (a2bBase64 2 (d % 16) 0 bs).map (UInt8.ofNat (leftchar * 4 + d / 16) :: ·) := by
  obtain ⟨hvalue, hpad, -⟩ := base64Value_base64Char h
  simp [a2bBase64, toNat_base64Char h, hvalue, hpad]

theorem a2bBase64_third :
    a2bBase64 2 leftchar pads (UInt8.ofNat (base64Char d) :: bs) =
      (a2bBase64 3 (d % 4) 0 bs).map (UInt8.ofNat (leftchar * 16 + d / 4) :: ·) := by
  obtain ⟨hvalue, hpad, -⟩ := base64Value_base64Char h
  simp [a2bBase64, toNat_base64Char h, hvalue, hpad]

theorem a2bBase64_fourth :
    a2bBase64 3 leftchar pads (UInt8.ofNat (base64Char d) :: bs) =
      (a2bBase64 0 0 0 bs).map (UInt8.ofNat (leftchar * 64 + d) :: ·) := by
  obtain ⟨hvalue, hpad, -⟩ := base64Value_base64Char h
  simp [a2bBase64, toNat_base64Char h, hvalue, hpad]

end

theorem ofNat_eq_byte {n : ℕ} {b : UInt8} (h : n = b.toNat) : UInt8.ofNat n = b := by
  rw [h, UInt8.ofNat_toNat]

/-- Decoding inverts encoding, whatever padding the length calls for. -/
theorem urlsafeB64decode_encode (bs : Bytes) :
    urlsafeB64decode ((urlsafeB64encode bs).map fun c => UInt8.ofNat c) = some bs := by
  unfold urlsafeB64decode urlsafeB64encode
  induction bs using tokenUrlsafe.induct with
  | case1 => rfl
  | case2 a =>
    have ha : a.toNat < 256 := a.toNat_lt
    have hbyte : UInt8.ofNat (a.toNat / 4 * 4 + a.toNat % 4 * 16 / 16) = a :=
      ofNat_eq_byte (by omega)
    show a2bBase64 0 0 0 (UInt8.ofNat _ :: UInt8.ofNat _ :: [UInt8.ofNat 0x3d, UInt8.ofNat 0x3d]) = _
    rw [a2bBase64_first _ (by omega), a2bBase64_second _ (by omega), hbyte]
    rfl
  | case3 a b =>
    have ha : a.toNat < 256 := a.toNat_lt
    have hb : b.toNat < 256 := b.toNat_lt
    have hfirst : UInt8.ofNat (a.toNat / 4 * 4 + (a.toNat % 4 * 16 + b.toNat / 16) / 16) = a :=
      ofNat_eq_byte (by omega)
    have hsecond : UInt8.ofNat
        ((a.toNat % 4 * 16 + b.toNat / 16) % 16 * 16 + b.toNat % 16 * 4 / 4) = b :=
      ofNat_eq_byte (by omega)
    show a2bBase64 0 0 0
      (UInt8.ofNat _ :: UInt8.ofNat _ :: UInt8.ofNat _ :: [UInt8.ofNat 0x3d]) = _
    rw [a2bBase64_first _ (by omega), a2bBase64_second _ (by omega),
      a2bBase64_third _ (by omega), hfirst, hsecond]
    rfl
  | case4 a b c bs ih =>
    have ha : a.toNat < 256 := a.toNat_lt
    have hb : b.toNat < 256 := b.toNat_lt
    have hc : c.toNat < 256 := c.toNat_lt
    have hfirst : UInt8.ofNat (a.toNat / 4 * 4 + (a.toNat % 4 * 16 + b.toNat / 16) / 16) = a :=
      ofNat_eq_byte (by omega)
    have hsecond : UInt8.ofNat ((a.toNat % 4 * 16 + b.toNat / 16) % 16 * 16 +
        (b.toNat % 16 * 4 + c.toNat / 64) / 4) = b := ofNat_eq_byte (by omega)
    have hthird : UInt8.ofNat ((b.toNat % 16 * 4 + c.toNat / 64) % 4 * 64 + c.toNat % 64) = c :=
      ofNat_eq_byte (by omega)
    have hlength : (a :: b :: c :: bs).length % 3 = bs.length % 3 := by
      simp only [List.length_cons]
      omega
    rw [hlength]
    simp only [tokenUrlsafe, List.cons_append, List.map_cons]
    rw [a2bBase64_first _ (by omega), a2bBase64_second _ (by omega),
      a2bBase64_third _ (by omega), a2bBase64_fourth _ (by omega), ih, hfirst, hsecond, hthird]
    rfl

end RelayWebhooks
