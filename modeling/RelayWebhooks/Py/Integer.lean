import RelayWebhooks.Py.Codec

/-! `int` of text in a base, and `uuid.UUID` of text. -/
namespace RelayWebhooks

section
-- The decimal digit or space in ASCII that a character beyond ASCII stands for, else `?`.
variable (asciiOf : ℕ → ℕ)

def digitValue (c : ℕ) : ℕ :=
  if 0x30 ≤ c ∧ c ≤ 0x39 then c - 0x30
  else if 0x61 ≤ c ∧ c ≤ 0x7a then c - 0x57
  else if 0x41 ≤ c ∧ c ≤ 0x5a then c - 0x37
  else 37

/-- Reads digits; one underscore may stand between two of them. The text after them is returned. -/
def scanDigits (base value : ℕ) (afterDigit : Bool) : PyText → Option (ℕ × PyText)
  | [] => if afterDigit then some (value, []) else none
  | c :: t =>
    if digitValue c < base then scanDigits base (value * base + digitValue c) true t
    else if c = 0x5f then if afterDigit then scanDigits base value false t else none
    else if afterDigit then some (value, c :: t) else none

/-- In base 16 the digits may follow `0x`, and an underscore this prefix. -/
def dropBasePrefix (base : ℕ) (t : PyText) : PyText :=
  match t with
  | 0x30 :: c :: rest =>
    if base = 16 ∧ (c = 0x78 ∨ c = 0x58) then if rest.head? = some 0x5f then rest.tail else rest
    else t
  | _ => t

/-- `int(text, base)`, `none` when it raises `ValueError`. -/
def intOfText (base : ℕ) (t : PyText) : Option ℤ := do
  let text := (t.map fun c => if c < 0x80 then c else asciiOf c).dropWhile isAsciiSpace
  let negative := text.head? = some 0x2d
  let unsigned := if negative ∨ text.head? = some 0x2b then text.tail else text
  let (value, rest) ← scanDigits base 0 false (dropBasePrefix base unsigned)
  if rest.all isAsciiSpace then return if negative then -value else value else none

/-- Removes every occurrence of `pat`; `skip` characters of the last one are still to come. -/
def removeFrom (pat : PyText) (skip : ℕ) : PyText → PyText
  | [] => []
  | c :: t =>
    if skip ≠ 0 then removeFrom pat (skip - 1) t
    else if pat.isPrefixOf (c :: t) then removeFrom pat (pat.length - 1) t
    else c :: removeFrom pat 0 t

/-- `text.replace(pat, "")`. -/
def PyText.remove (t pat : PyText) : PyText := removeFrom pat 0 t

/-- `text.strip("{}")`. -/
def stripBraces (t : PyText) : PyText :=
  ((t.dropWhile fun c => c = 0x7b ∨ c = 0x7d).reverse.dropWhile fun c =>
    c = 0x7b ∨ c = 0x7d).reverse

def uuidBound : ℕ := 340282366920938463463374607431768211456

/-- The range check of `uuid.UUID`. -/
def uuidOfInt (value : ℤ) : Option UUID :=
  if 0 ≤ value ∧ value < uuidBound then some (.ofNat 128 value.toNat) else none

/-- `uuid.UUID(text)`, `none` when it raises `ValueError`. -/
def uuidOfText (t : PyText) : Option UUID := do
  let bare := stripBraces ((t.remove (PyText.ofString "urn:")).remove (PyText.ofString "uuid:"))
  let hex := bare.remove [0x2d]
  if hex.length ≠ 32 then none
  else
    let value ← intOfText asciiOf 16 hex
    uuidOfInt value

end

theorem digitValue_digitChar {d : ℕ} (h : d < 16) : digitValue (digitChar d) = d := by
  revert d
  decide

theorem digitChar_cases {d : ℕ} (h : d < 16) :
    (0x30 ≤ digitChar d ∧ digitChar d ≤ 0x39) ∨ (0x61 ≤ digitChar d ∧ digitChar d ≤ 0x66) := by
  unfold digitChar
  split_ifs <;> omega

section
variable {base : ℕ} {ds : List ℕ} (hbase : base ≤ 16) (hds : ∀ d ∈ ds, d < base)
include hbase hds

theorem scanDigits_map (value : ℕ) :
    scanDigits base value true (ds.map digitChar) =
      some (ds.foldl (fun v d => v * base + d) value, []) := by
  induction ds generalizing value with
  | nil => rfl
  | cons d ds ih =>
    obtain ⟨hd, hds⟩ := List.forall_mem_cons.mp hds
    rw [List.map_cons, scanDigits, digitValue_digitChar (by omega), if_pos hd, ih hds]
    rfl

theorem scanDigits_map_cons (hne : ds ≠ []) :
    scanDigits base 0 false (ds.map digitChar) =
      some (ds.foldl (fun v d => v * base + d) 0, []) := by
  cases ds with
  | nil => exact absurd rfl hne
  | cons d ds =>
    obtain ⟨hd, hds⟩ := List.forall_mem_cons.mp hds
    rw [List.map_cons, scanDigits, digitValue_digitChar (by omega), if_pos hd,
      scanDigits_map hbase hds]
    rfl

theorem map_ascii_digits (asciiOf : ℕ → ℕ) :
    ((ds.map digitChar).map fun c => if c < 0x80 then c else asciiOf c) = ds.map digitChar := by
  rw [List.map_map]
  refine List.map_congr_left fun d hd => ?_
  have hcases := digitChar_cases (d := d) (by have := hds d hd; omega)
  rw [Function.comp, if_pos (by omega)]

theorem dropBasePrefix_digits : dropBasePrefix base (ds.map digitChar) = ds.map digitChar := by
  unfold dropBasePrefix
  split
  next c rest heq =>
    have hc : c ∈ ds.map digitChar := by
      rw [heq]
      simp
    obtain ⟨e, he, rfl⟩ := List.mem_map.mp hc
    have hcases := digitChar_cases (d := e) (by have := hds e he; omega)
    rw [if_neg (by omega)]
  next => rfl

theorem intOfText_digits (asciiOf : ℕ → ℕ) (hne : ds ≠ []) :
    intOfText asciiOf base (ds.map digitChar) =
      some ((ds.foldl (fun v d => v * base + d) 0 : ℕ) : ℤ) := by
  obtain ⟨d, es, rfl⟩ := List.exists_cons_of_ne_nil hne
  have hcases := digitChar_cases (d := d) (by have := hds d (by simp); omega)
  have hspace : isAsciiSpace (digitChar d) = false := by
    simp only [isAsciiSpace, Bool.or_eq_false_iff, Bool.and_eq_false_iff, decide_eq_false_iff_not]
    omega
  have hminus : digitChar d ≠ 0x2d := by omega
  have hplus : digitChar d ≠ 0x2b := by omega
  have hscan := scanDigits_map_cons hbase hds hne
  rw [← dropBasePrefix_digits hbase hds] at hscan
  unfold intOfText
  simp only [map_ascii_digits hbase hds]
  simp only [List.map_cons, List.dropWhile_cons, hspace, List.head?_cons, hminus, hplus,
    Option.some.injEq, or_self, if_false, Bool.false_eq_true] at hscan ⊢
  rw [hscan]
  simp

theorem intOfText_neg_digits (asciiOf : ℕ → ℕ) (hne : ds ≠ []) :
    intOfText asciiOf base (0x2d :: ds.map digitChar) =
      some (-((ds.foldl (fun v d => v * base + d) 0 : ℕ) : ℤ)) := by
  have hscan := scanDigits_map_cons hbase hds hne
  rw [← dropBasePrefix_digits hbase hds] at hscan
  have hspace : isAsciiSpace 0x2d = false := rfl
  unfold intOfText
  rw [List.map_cons, map_ascii_digits hbase hds]
  simp [hspace, hscan]

end

theorem natText_digits (n : ℕ) : ∃ ds : List ℕ, natText n = ds.map digitChar ∧ ds ≠ [] ∧
    (∀ d ∈ ds, d < 10) ∧ ds.foldl (fun v d => v * 10 + d) 0 = n := by
  by_cases hn : n = 0
  · exact ⟨[0], by simp [natText, hn], by simp, by simp, by simp [hn]⟩
  · refine ⟨(Nat.digits 10 n).reverse, by simp [natText, hn], ?_, ?_, ?_⟩
    · simpa [Nat.digits_eq_nil_iff_eq_zero] using hn
    · intro d hd
      exact Nat.digits_lt_base (by omega) (List.mem_reverse.mp hd)
    · have hread := Nat.ofDigits_digits 10 n
      rw [Nat.ofDigits_eq_foldr] at hread
      simpa [List.foldl_reverse, add_comm, mul_comm] using hread

/-- Reading back the decimal text of an integer. -/
theorem intOfText_intText (asciiOf : ℕ → ℕ) (i : ℤ) : intOfText asciiOf 10 (intText i) = some i := by
  obtain ⟨ds, htext, hne, hds, hvalue⟩ := natText_digits i.natAbs
  unfold intText
  rw [htext]
  split
  next hneg =>
    rw [intOfText_neg_digits (by omega) hds asciiOf hne, hvalue]
    congr 1
    omega
  next hpos =>
    rw [intOfText_digits (by omega) hds asciiOf hne, hvalue]
    congr 1
    omega

theorem removeFrom_of_notMem {p : ℕ} {ps t : PyText} (h : p ∉ t) : removeFrom (p :: ps) 0 t = t := by
  induction t with
  | nil => rfl
  | cons c t ih =>
    rw [List.mem_cons, not_or] at h
    simp [removeFrom, List.isPrefixOf, h.1, ih h.2]

theorem remove_char (c : ℕ) (t : PyText) : t.remove [c] = t.filter fun x => x ≠ c := by
  unfold PyText.remove
  induction t with
  | nil => rfl
  | cons d t ih =>
    by_cases h : d = c
    · simp [removeFrom, h, ih]
    · simp [removeFrom, h, Ne.symm h, ih]

/-- The digits of `hexText`. -/
def hexDigits (n k : ℕ) : List ℕ := (List.range n).reverse.map fun i => k / 16 ^ i % 16

theorem hexDigits_lt {n k d : ℕ} (h : d ∈ hexDigits n k) : d < 16 := by
  obtain ⟨i, -, rfl⟩ := List.mem_map.mp h
  exact Nat.mod_lt _ (by omega)

theorem hexText_eq_map (n k : ℕ) : hexText n k = (hexDigits n k).map digitChar := by
  simp [hexText, hexDigits]

theorem foldl_hexDigits (n k v : ℕ) :
    (hexDigits n k).foldl (fun v d => v * 16 + d) v = v * 16 ^ n + k % 16 ^ n := by
  induction n generalizing v with
  | zero => simp [hexDigits, Nat.mod_one]
  | succ n ih =>
    have hsucc : hexDigits (n + 1) k = k / 16 ^ n % 16 :: hexDigits n k := by
      simp [hexDigits, List.range_succ]
    rw [hsucc, List.foldl_cons, ih, Nat.mod_pow_succ, pow_succ]
    ring

theorem mem_hexText {n k c : ℕ} (h : c ∈ hexText n k) :
    (0x30 ≤ c ∧ c ≤ 0x39) ∨ (0x61 ≤ c ∧ c ≤ 0x66) := by
  rw [hexText_eq_map] at h
  obtain ⟨d, hd, rfl⟩ := List.mem_map.mp h
  exact digitChar_cases (hexDigits_lt hd)

theorem mem_uuidText {u : UUID} {c : ℕ} (h : c ∈ uuidText u) :
    c = 0x2d ∨ (0x30 ≤ c ∧ c ≤ 0x39) ∨ (0x61 ≤ c ∧ c ≤ 0x66) := by
  have htake : ∀ i n, c ∈ ((hexText 32 u.toNat).drop i).take n → c ∈ hexText 32 u.toNat :=
    fun i n hc => List.mem_of_mem_drop (List.mem_of_mem_take hc)
  by_cases hdash : c = 0x2d
  · exact .inl hdash
  · right
    apply mem_hexText (n := 32) (k := u.toNat)
    simp only [uuidText, List.mem_append, List.mem_cons, hdash, false_or] at h
    rcases h with ((((h | h) | h) | h) | h)
    · exact htake 0 8 h
    · exact htake 8 4 h
    · exact htake 12 4 h
    · exact htake 16 4 h
    · exact List.mem_of_mem_drop h

/-- The groups joined again. -/
theorem filter_uuidText (u : UUID) :
    (uuidText u).filter (fun c => c ≠ 0x2d) = hexText 32 u.toNat := by
  have hdigits : ∀ t : PyText, (∀ c ∈ t, c ∈ hexText 32 u.toNat) →
      t.filter (fun c => c ≠ 0x2d) = t := by
    intro t ht
    refine List.filter_eq_self.mpr fun c hc => ?_
    have hcases := mem_hexText (ht c hc)
    simp only [decide_eq_true_eq]
    omega
  have htake : ∀ i n c, c ∈ ((hexText 32 u.toNat).drop i).take n → c ∈ hexText 32 u.toNat :=
    fun i n c hc => List.mem_of_mem_drop (List.mem_of_mem_take hc)
  have hjoin : ∀ (t : PyText) (i : ℕ), (t.drop i).take 4 ++ t.drop (i + 4) = t.drop i := by
    intro t i
    rw [← List.drop_drop, List.take_append_drop]
  unfold uuidText
  simp only [List.filter_append, List.filter_cons, ne_eq, not_true_eq_false, decide_false,
    Bool.false_eq_true, if_false] at hdigits ⊢
  rw [hdigits _ fun c => List.mem_of_mem_take, hdigits _ (htake 8 4), hdigits _ (htake 12 4),
    hdigits _ (htake 16 4), hdigits _ fun c => List.mem_of_mem_drop]
  rw [List.append_assoc, List.append_assoc, List.append_assoc, hjoin _ 16, hjoin _ 12, hjoin _ 8,
    List.take_append_drop]

theorem dropWhile_of_forall {t : PyText} {p : ℕ → Bool} (h : ∀ c ∈ t, p c = false) :
    t.dropWhile p = t := by
  cases t with
  | nil => rfl
  | cons c t => simp [h c (by simp)]

theorem toNat_lt_pow (u : UUID) : u.toNat < 16 ^ 32 := by
  have hlt := u.isLt
  norm_num at hlt ⊢
  exact hlt

theorem toNat_lt_uuidBound (u : UUID) : (u.toNat : ℤ) < uuidBound := by
  have hlt := toNat_lt_pow u
  norm_num at hlt
  norm_num [uuidBound]
  exact_mod_cast hlt

theorem remove_uuidText (u : UUID) {c : ℕ} (ps : PyText) (hc : 0x67 ≤ c) :
    (uuidText u).remove (c :: ps) = uuidText u := by
  refine removeFrom_of_notMem fun hmem => ?_
  have hcases := mem_uuidText hmem
  omega

theorem stripBraces_uuidText (u : UUID) : stripBraces (uuidText u) = uuidText u := by
  have hbrace : ∀ c ∈ uuidText u, decide (c = 0x7b ∨ c = 0x7d) = false := by
    intro c hc
    have hcases := mem_uuidText hc
    exact decide_eq_false (by omega)
  have hback : ∀ c ∈ (uuidText u).reverse, decide (c = 0x7b ∨ c = 0x7d) = false := by
    simpa only [List.mem_reverse] using hbrace
  rw [stripBraces, dropWhile_of_forall hbrace, dropWhile_of_forall hback, List.reverse_reverse]

theorem intOfText_hexText (asciiOf : ℕ → ℕ) (u : UUID) :
    intOfText asciiOf 16 (hexText 32 u.toNat) = some (u.toNat : ℤ) := by
  have hne : hexDigits 32 u.toNat ≠ [] := by simp [hexDigits]
  rw [hexText_eq_map, intOfText_digits (by omega) (fun d hd => hexDigits_lt hd) asciiOf hne,
    foldl_hexDigits, Nat.mod_eq_of_lt (toNat_lt_pow u), zero_mul, zero_add]

theorem uuidOfInt_toNat (u : UUID) : uuidOfInt u.toNat = some u := by
  rw [uuidOfInt, if_pos ⟨Int.natCast_nonneg _, toNat_lt_uuidBound u⟩, Int.toNat_natCast,
    BitVec.ofNat_toNat, BitVec.setWidth_eq]

/-- Reading back the text of a UUID. -/
theorem uuidOfText_uuidText (asciiOf : ℕ → ℕ) (u : UUID) :
    uuidOfText asciiOf (uuidText u) = some u := by
  have hlength : (hexText 32 u.toNat).length = 32 := by simp [hexText]
  have hurn : PyText.ofString "urn:" = 0x75 :: PyText.ofString "rn:" := rfl
  have huuid : PyText.ofString "uuid:" = 0x75 :: PyText.ofString "uid:" := rfl
  unfold uuidOfText
  rw [hurn, huuid, remove_uuidText u _ (by omega), remove_uuidText u _ (by omega),
    stripBraces_uuidText]
  show (if ((uuidText u).remove [0x2d]).length ≠ 32 then none
    else (intOfText asciiOf 16 ((uuidText u).remove [0x2d])).bind uuidOfInt) = some u
  rw [remove_char, filter_uuidText, hlength, if_neg (not_not_intro rfl), intOfText_hexText,
    Option.bind_some, uuidOfInt_toNat]

end RelayWebhooks
