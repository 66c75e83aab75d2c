import RelayWebhooks.Py.Json
import RelayWebhooks.Py.IsoFormat

/-! `json.loads` of a text, as far as the tokens of its numbers. -/
namespace RelayWebhooks

/-- What `json.loads` makes of a document: a number is given by its token, an object by its members
in the order of the text. -/
inductive LoadedJson where
  | null
  | bool (b : Bool)
  | number (token : PyText)
  | str (t : PyText)
  | arr (items : List LoadedJson)
  | obj (members : List (PyText × LoadedJson))

def HighSurrogate (c : ℕ) : Prop := 0xd800 ≤ c ∧ c ≤ 0xdbff

def LowSurrogate (c : ℕ) : Prop := 0xdc00 ≤ c ∧ c ≤ 0xdfff

instance (c : ℕ) : Decidable (HighSurrogate c) := inferInstanceAs (Decidable (_ ∧ _))

instance (c : ℕ) : Decidable (LowSurrogate c) := inferInstanceAs (Decidable (_ ∧ _))

/-- The code point a surrogate pair stands for. -/
def joinSurrogates (high low : ℕ) : ℕ := 0x10000 + (high - 0xd800) * 0x400 + (low - 0xdc00)

namespace LoadedJson

def isSpace (c : ℕ) : Bool := c = 0x20 || c = 0x09 || c = 0x0a || c = 0x0d

def skipSpace (t : PyText) : PyText := t.dropWhile isSpace

def backslash : List (ℕ × ℕ) :=
  [(0x22, 0x22), (0x5c, 0x5c), (0x2f, 0x2f), (0x62, 0x08), (0x66, 0x0c), (0x6e, 0x0a),
    (0x72, 0x0d), (0x74, 0x09)]

/-- The four hexadecimal digits of a `\\u` escape, and the text after them. -/
def scanHex4 : PyText → Option (ℕ × PyText)
  | a :: b :: c :: d :: t =>
    if [a, b, c, d].all (digitValue · < 16) then
      some ([a, b, c, d].foldl (fun v x => v * 16 + digitValue x) 0, t)
    else none
  | _ => none

/-- A high surrogate takes the escape of a low one that follows it. -/
def joinEscape (x : ℕ) (t : PyText) : Option (ℕ × PyText) :=
  if HighSurrogate x then
    match t with
    | 0x5c :: 0x75 :: t' =>
      (scanHex4 t').map fun (y, rest) =>
        if LowSurrogate y then (joinSurrogates x y, rest) else (x, t)
    | _ => some (x, t)
  else some (x, t)

/-- The character of an escape, read after the backslash. -/
def scanEscape : PyText → Option (ℕ × PyText)
  | [] => none
  | c :: t =>
    if c = 0x75 then (scanHex4 t).bind fun (x, rest) => joinEscape x rest
    else (backslash.lookup c).map fun x => (x, t)

/-- A string after its opening quote; a unit of fuel for each character and the closing quote. -/
def scanChars : ℕ → PyText → Option (PyText × PyText)
  | 0, _ | _, [] => none
  | n + 1, c :: t =>
    if c = 0x22 then some ([], t)
    else if c = 0x5c then
      (scanEscape t).bind fun (x, rest) => (scanChars n rest).map fun (s, rest) => (x :: s, rest)
    else if c < 0x20 then none
    else (scanChars n t).map fun (s, rest) => (c :: s, rest)

def scanString (t : PyText) : Option (PyText × PyText) := scanChars (t.length + 1) t

section
-- The parts of a number: what the text starts with of each, and the text after it.

def scanInteger (t : PyText) : Option (PyText × PyText) :=
  if t.head? = some 0x30 then some ([0x30], t.tail)
  else if t.takeWhile isAsciiDigit = [] then none
  else some (t.takeWhile isAsciiDigit, t.dropWhile isAsciiDigit)

def scanFraction (t : PyText) : PyText × PyText :=
  if t.head? = some 0x2e ∧ t.tail.takeWhile isAsciiDigit ≠ [] then
    (0x2e :: t.tail.takeWhile isAsciiDigit, t.tail.dropWhile isAsciiDigit)
  else ([], t)

def scanSign (signs : List ℕ) (t : PyText) : PyText × PyText :=
  match t with
  | c :: rest => if c ∈ signs then ([c], rest) else ([], t)
  | [] => ([], [])

def scanExponent (t : PyText) : PyText × PyText :=
  let e := scanSign [0x65, 0x45] t
  let sign := scanSign [0x2b, 0x2d] e.2
  if e.1 ≠ [] ∧ sign.2.takeWhile isAsciiDigit ≠ [] then
    (e.1 ++ sign.1 ++ sign.2.takeWhile isAsciiDigit, sign.2.dropWhile isAsciiDigit)
  else ([], t)

def scanNumber (t : PyText) : Option (PyText × PyText) :=
  let sign := scanSign [0x2d] t
  (scanInteger sign.2).map fun integer =>
    let frac := scanFraction integer.2
    let exp := scanExponent frac.2
    (sign.1 ++ integer.1 ++ frac.1 ++ exp.1, exp.2)

end

def scanWord (words : List (PyText × LoadedJson)) (t : PyText) : Option (LoadedJson × PyText) :=
  words.findSome? fun (word, x) =>
    if word.isPrefixOf t then some (x, t.drop word.length) else none

def words : List (PyText × LoadedJson) :=
  [(.ofString "null", .null), (.ofString "true", .bool true), (.ofString "false", .bool false)]

def constants : List (PyText × LoadedJson) :=
  [PyText.ofString "NaN", .ofString "Infinity", .ofString "-Infinity"].map fun t => (t, .number t)

mutual

/-- The value a text starts with, and the text after it; the fuel bounds the nesting and the length
of arrays and objects. -/
def scanOnce : ℕ → PyText → Option (LoadedJson × PyText)
  | 0, _ | _, [] => none
  | n + 1, c :: t =>
    if c = 0x22 then (scanString t).map fun (s, rest) => (.str s, rest)
    else if c = 0x7b then
      if (skipSpace t).head? = some 0x7d then some (.obj [], (skipSpace t).tail)
      else (scanMembers n (skipSpace t)).map fun (ms, rest) => (.obj ms, rest)
    else if c = 0x5b then
      if (skipSpace t).head? = some 0x5d then some (.arr [], (skipSpace t).tail)
      else (scanItems n (skipSpace t)).map fun (xs, rest) => (.arr xs, rest)
    else
      (scanWord words (c :: t)).or <|
        ((scanNumber (c :: t)).map fun (token, rest) => (.number token, rest)).or <|
          scanWord constants (c :: t)

def scanMembers : ℕ → PyText → Option (List (PyText × LoadedJson) × PyText)
  | 0, _ => none
  | n + 1, t => do
    let (name, t) ← scanString (← expectChar 0x22 t)
    let (x, t) ← scanOnce n (skipSpace (← expectChar 0x3a (skipSpace t)))
    match skipSpace t with
    | 0x7d :: rest => return ([(name, x)], rest)
    | t =>
      let (ms, rest) ← scanMembers n (skipSpace (← expectChar 0x2c t))
      return ((name, x) :: ms, rest)

def scanItems : ℕ → PyText → Option (List LoadedJson × PyText)
  | 0, _ => none
  | n + 1, t => do
    let (x, t) ← scanOnce n t
    match skipSpace t with
    | 0x5d :: rest => return ([x], rest)
    | t =>
      let (xs, rest) ← scanItems n (skipSpace (← expectChar 0x2c t))
      return (x :: xs, rest)

end

/-- `payload.get(name)`: the last member of a name counts. -/
def getMember (members : List (PyText × LoadedJson)) (name : PyText) : Option LoadedJson :=
  members.reverse.lookup name

def orNull (t : Option PyText) : LoadedJson := (t.map str).getD null

/-- `json.loads`, `none` when it raises `JSONDecodeError`. -/
def loads (t : PyText) : Option LoadedJson :=
  if t.head? = some 0xfeff then none
  else
    match scanOnce (t.length + 1) (skipSpace t) with
    | some (x, rest) => if skipSpace rest = [] then some x else none
    | none => none

section
variable {n x y c : ℕ} {t rest : PyText}

theorem scanHex4_map {d₁ d₂ d₃ d₄ : ℕ} (h₁ : d₁ < 16) (h₂ : d₂ < 16) (h₃ : d₃ < 16)
    (h₄ : d₄ < 16) (t : PyText) :
    scanHex4 ([d₁, d₂, d₃, d₄].map digitChar ++ t) =
      some ([d₁, d₂, d₃, d₄].foldl (fun v d => v * 16 + d) 0, t) := by
  simp [scanHex4, digitValue_digitChar, h₁, h₂, h₃, h₄]

theorem scanHex4_hexText (h : x < 0x10000) (t : PyText) :
    scanHex4 (hexText 4 x ++ t) = some (x, t) := by
  have hmod : ∀ k, k % 16 < 16 := fun k => Nat.mod_lt k (by decide)
  have hvalue : (hexDigits 4 x).foldl (fun v d => v * 16 + d) 0 = x := by
    rw [foldl_hexDigits]
    omega
  have hscan : scanHex4 ((hexDigits 4 x).map digitChar ++ t) =
      some ((hexDigits 4 x).foldl (fun v d => v * 16 + d) 0, t) :=
    scanHex4_map (hmod _) (hmod _) (hmod _) (hmod _) t
  rw [hexText_eq_map, hscan, hvalue]

theorem scanEscape_uEscape (h : x < 0x10000) (t : PyText) :
    scanEscape (0x75 :: hexText 4 x ++ t) = joinEscape x t := by
  rw [List.cons_append, scanEscape, if_pos rfl, scanHex4_hexText h]
  rfl

theorem joinEscape_of_not_high (h : ¬HighSurrogate x) : joinEscape x t = some (x, t) := if_neg h

theorem joinEscape_low (hx : HighSurrogate x) (hy : LowSurrogate y) (t : PyText) :
    joinEscape x (Json.uEscape y ++ t) = some (joinSurrogates x y, t) := by
  have hsmall : y < 0x10000 := by
    unfold LowSurrogate at hy
    omega
  simp only [joinEscape, if_pos hx, Json.uEscape, List.cons_append, scanHex4_hexText hsmall,
    Option.map_some, if_pos hy]

theorem joinEscape_uEscape (hsmall : y < 0x10000) (hy : ¬LowSurrogate y) (t : PyText) :
    joinEscape x (Json.uEscape y ++ t) = some (x, Json.uEscape y ++ t) := by
  unfold joinEscape
  split
  next => simp [Json.uEscape, scanHex4_hexText hsmall, hy]
  next => rfl

theorem joinEscape_of_head (hc : c ≠ 0x5c) : joinEscape x (c :: t) = some (x, c :: t) := by
  unfold joinEscape
  split_ifs
  · split
    next heq => exact absurd (List.cons.inj heq).1 hc
    next => rfl
  · rfl

theorem joinEscape_of_simple (hc : c ≠ 0x75) :
    joinEscape x (0x5c :: c :: t) = some (x, 0x5c :: c :: t) := by
  unfold joinEscape
  split_ifs
  · split
    next heq => exact absurd (List.cons.inj (List.cons.inj heq).2).1 hc
    next => rfl
  · rfl

/-- A character is written as an escape of one letter, as itself, or as one or two `\u` escapes. -/
theorem escapeChar_cases (c : ℕ) :
    (∃ e, e ≠ 0x75 ∧ backslash.lookup e = some c ∧ Json.escapeChar c = [0x5c, e]) ∨
    ((0x20 ≤ c ∧ c ≠ 0x22 ∧ c ≠ 0x5c) ∧ Json.escapeChar c = [c]) ∨
    (c < 0x10000 ∧ Json.escapeChar c = Json.uEscape c) ∨
    (0x10000 ≤ c ∧ Json.escapeChar c = Json.uEscape (0xd800 + (c - 0x10000) / 0x400) ++
      Json.uEscape (0xdc00 + (c - 0x10000) % 0x400)) := by
  by_cases hquote : c = 0x22 ∨ c = 0x5c
  · refine .inl ⟨c, by omega, ?_, if_pos hquote⟩
    rcases hquote with rfl | rfl <;> rfl
  by_cases hletter : c = 0x08 ∨ c = 0x0c ∨ c = 0x0a ∨ c = 0x0d ∨ c = 0x09
  · left
    rcases hletter with rfl | rfl | rfl | rfl | rfl
    · exact ⟨0x62, by decide, rfl, rfl⟩
    · exact ⟨0x66, by decide, rfl, rfl⟩
    · exact ⟨0x6e, by decide, rfl, rfl⟩
    · exact ⟨0x72, by decide, rfl, rfl⟩
    · exact ⟨0x74, by decide, rfl, rfl⟩
  have hrest : Json.escapeChar c =
      if 0x20 ≤ c ∧ c < 0x7f then [c]
      else if c < 0x10000 then Json.uEscape c
      else Json.uEscape (0xd800 + (c - 0x10000) / 0x400) ++
        Json.uEscape (0xdc00 + (c - 0x10000) % 0x400) := by
    unfold Json.escapeChar
    rw [if_neg hquote, if_neg (by omega), if_neg (by omega), if_neg (by omega), if_neg (by omega),
      if_neg (by omega)]
  rw [hrest]
  right
  split
  next hplain => exact .inl ⟨by omega, rfl⟩
  next =>
    right
    split
    next hsmall => exact .inl ⟨hsmall, rfl⟩
    next hlarge => exact .inr ⟨not_lt.mp hlarge, rfl⟩

/-- A high surrogate does not take the escape of another character than a low surrogate. -/
theorem joinEscape_escapeChar (hy : ¬LowSurrogate y) (hrange : y < 0x110000) (t : PyText) :
    joinEscape x (Json.escapeChar y ++ t) = some (x, Json.escapeChar y ++ t) := by
  rcases escapeChar_cases y with ⟨e, he, -, htext⟩ | ⟨hplain, htext⟩ | ⟨hsmall, htext⟩ |
    ⟨hlarge, htext⟩ <;> rw [htext]
  · exact joinEscape_of_simple he
  · exact joinEscape_of_head hplain.2.2
  · exact joinEscape_uEscape hsmall hy t
  · rw [List.append_assoc]
    apply joinEscape_uEscape
    · omega
    · unfold LowSurrogate
      omega

theorem scanChars_backslash (n : ℕ) (t : PyText) :
    scanChars (n + 1) (0x5c :: t) =
      (scanEscape t).bind fun (x, rest) => (scanChars n rest).map fun (s, rest) =>
        (x :: s, rest) := by
  simp [scanChars]

theorem scanChars_uEscape (h : x < 0x10000) (n : ℕ) (t : PyText) :
    scanChars (n + 1) (Json.uEscape x ++ t) =
      (joinEscape x t).bind fun (x, rest) => (scanChars n rest).map fun (s, rest) =>
        (x :: s, rest) := by
  rw [Json.uEscape, List.cons_append, scanChars_backslash, scanEscape_uEscape h]

/-- The escapes of a surrogate pair are read as one character. -/
theorem scanChars_pair (hx : HighSurrogate x) (hy : LowSurrogate y) (n : ℕ) (t : PyText) :
    scanChars (n + 1) (Json.uEscape x ++ (Json.uEscape y ++ t)) =
      (scanChars n t).map fun (s, rest) => (joinSurrogates x y :: s, rest) := by
  have hsmall : x < 0x10000 := by
    unfold HighSurrogate at hx
    omega
  rw [scanChars_uEscape hsmall, joinEscape_low hx hy]
  rfl

/-- Any other escape is read as its own character. -/
theorem scanChars_escapeChar (hrange : x < 0x110000) (happart : joinEscape x t = some (x, t))
    (n : ℕ) : scanChars (n + 1) (Json.escapeChar x ++ t) =
      (scanChars n t).map fun (s, rest) => (x :: s, rest) := by
  rcases escapeChar_cases x with ⟨e, he, hlookup, htext⟩ | ⟨hplain, htext⟩ | ⟨hsmall, htext⟩ |
    ⟨hlarge, htext⟩ <;> rw [htext]
  · rw [List.cons_append, scanChars_backslash, List.cons_append, scanEscape, if_neg he, hlookup]
    rfl
  · obtain ⟨hspace, hquote, hslash⟩ := hplain
    rw [List.cons_append, scanChars, if_neg hquote, if_neg hslash, if_neg (not_lt.mpr hspace)]
    rfl
  · rw [scanChars_uEscape hsmall, happart]
    rfl
  · have hhigh : HighSurrogate (0xd800 + (x - 0x10000) / 0x400) := by
      unfold HighSurrogate
      omega
    have hlow : LowSurrogate (0xdc00 + (x - 0x10000) % 0x400) := by
      unfold LowSurrogate
      omega
    have hjoin : joinSurrogates (0xd800 + (x - 0x10000) / 0x400)
        (0xdc00 + (x - 0x10000) % 0x400) = x := by
      unfold joinSurrogates
      omega
    rw [List.append_assoc, scanChars_pair hhigh hlow, hjoin]

end

/-- The text with each high surrogate joined to a low one right after it. -/
def joinPairs : PyText → PyText
  | x :: y :: t =>
    if HighSurrogate x ∧ LowSurrogate y then joinSurrogates x y :: joinPairs t
    else x :: joinPairs (y :: t)
  | t => t

/-- No high surrogate stands right before a low one. -/
def Unpaired (t : PyText) : Prop := t.IsChain fun x y => ¬(HighSurrogate x ∧ LowSurrogate y)

instance (t : PyText) : Decidable (Unpaired t) :=
  inferInstanceAs (Decidable (t.IsChain fun x y => ¬(HighSurrogate x ∧ LowSurrogate y)))

theorem length_joinPairs_le (t : PyText) : (joinPairs t).length ≤ t.length := by
  induction t using joinPairs.induct with
  | case1 x y t h ih =>
    rw [joinPairs, if_pos h, List.length_cons, List.length_cons, List.length_cons]
    omega
  | case2 x y t h ih =>
    rw [joinPairs, if_neg h, List.length_cons, List.length_cons]
    omega
  | case3 t h => rw [joinPairs.eq_2 t h]

theorem joinPairs_eq_self_iff (t : PyText) : joinPairs t = t ↔ Unpaired t := by
  induction t using joinPairs.induct with
  | case1 x y t h ih =>
    have hlength := length_joinPairs_le t
    have hne : joinPairs (x :: y :: t) ≠ x :: y :: t := by
      intro heq
      have := congrArg List.length heq
      rw [joinPairs, if_pos h, List.length_cons, List.length_cons, List.length_cons] at this
      omega
    simp [hne, Unpaired, h]
  | case2 x y t h ih =>
    rw [joinPairs, if_neg h, List.cons_inj_right, ih, Unpaired, Unpaired, List.isChain_cons_cons]
    exact (and_iff_right h).symm
  | case3 t h =>
    rw [joinPairs.eq_2 t h]
    cases t with
    | nil => simp [Unpaired]
    | cons x t =>
      cases t with
      | nil => simp [Unpaired]
      | cons y t => exact absurd rfl (h x y t)

theorem joinPairs_of_not_high {t : PyText} (h : ∀ x ∈ t, ¬HighSurrogate x) : joinPairs t = t := by
  induction t using joinPairs.induct with
  | case1 x y t hxy ih => exact absurd hxy.1 (h x List.mem_cons_self)
  | case2 x y t hxy ih =>
    rw [joinPairs, if_neg hxy, ih (List.forall_mem_cons.mp h).2]
  | case3 t ht => rw [joinPairs.eq_2 t ht]

section
variable {t : PyText} (hrange : ∀ x ∈ t, x < 0x110000)

theorem escapeChar_surrogate {x : ℕ} (h : 0xd800 ≤ x ∧ x ≤ 0xdfff) :
    Json.escapeChar x = Json.uEscape x := by
  unfold Json.escapeChar
  rw [if_neg (by omega), if_neg (by omega), if_neg (by omega), if_neg (by omega),
    if_neg (by omega), if_neg (by omega), if_neg (by omega), if_pos (by omega)]

theorem escapeChar_ne_nil (x : ℕ) : Json.escapeChar x ≠ [] := by
  rcases escapeChar_cases x with ⟨e, -, -, htext⟩ | ⟨-, htext⟩ | ⟨-, htext⟩ | ⟨-, htext⟩ <;>
    simp [htext, Json.uEscape]

theorem length_le_escaped (t : PyText) : t.length ≤ (t.flatMap Json.escapeChar).length := by
  induction t with
  | nil => simp
  | cons x t ih =>
    have := List.length_pos_iff.mpr (escapeChar_ne_nil x)
    rw [List.flatMap_cons, List.length_append, List.length_cons]
    omega

include hrange

/-- Scanning undoes the escapes, and joins what stands for a surrogate pair. -/
theorem scanChars_escaped (n : ℕ) (hn : t.length < n) (rest : PyText) :
    scanChars n (t.flatMap Json.escapeChar ++ 0x22 :: rest) = some (joinPairs t, rest) := by
  induction t using joinPairs.induct generalizing n with
  | case1 x y t h ih =>
    obtain ⟨m, rfl⟩ : ∃ m, n = m + 1 := ⟨n - 1, by omega⟩
    have hx : Json.escapeChar x = Json.uEscape x := by
      apply escapeChar_surrogate
      have := h.1
      unfold HighSurrogate at this
      omega
    have hy : Json.escapeChar y = Json.uEscape y := by
      apply escapeChar_surrogate
      have := h.2
      unfold LowSurrogate at this
      omega
    obtain ⟨-, -, ht⟩ : _ ∧ _ ∧ ∀ z ∈ t, z < 0x110000 := by simpa using hrange
    simp only [List.length_cons] at hn
    rw [List.flatMap_cons, List.flatMap_cons, hx, hy, List.append_assoc, List.append_assoc,
      scanChars_pair h.1 h.2, ih ht m (by omega), joinPairs, if_pos h]
    rfl
  | case2 x y t h ih =>
    obtain ⟨m, rfl⟩ : ∃ m, n = m + 1 := ⟨n - 1, by omega⟩
    obtain ⟨hx, hyt⟩ := List.forall_mem_cons.mp hrange
    have happart : joinEscape x ((y :: t).flatMap Json.escapeChar ++ 0x22 :: rest) =
        some (x, (y :: t).flatMap Json.escapeChar ++ 0x22 :: rest) := by
      by_cases hhigh : HighSurrogate x
      · have hlow : ¬LowSurrogate y := fun hlow => h ⟨hhigh, hlow⟩
        rw [List.flatMap_cons, List.append_assoc]
        exact joinEscape_escapeChar hlow (hyt y List.mem_cons_self) _
      · exact joinEscape_of_not_high hhigh
    simp only [List.length_cons] at hn
    rw [List.flatMap_cons, List.append_assoc, scanChars_escapeChar hx happart,
      ih hyt m (by simpa using hn), joinPairs, if_neg h]
    rfl
  | case3 t h =>
    obtain ⟨m, rfl⟩ : ∃ m, n = m + 1 := ⟨n - 1, by omega⟩
    rw [joinPairs.eq_2 t h]
    cases t with
    | nil => simp [scanChars]
    | cons x t =>
      cases t with
      | nil =>
        obtain ⟨k, rfl⟩ : ∃ k, m = k + 1 := ⟨m - 1, by simp at hn; omega⟩
        have happart : joinEscape x (0x22 :: rest) = some (x, 0x22 :: rest) :=
          joinEscape_of_head (by decide)
        rw [List.flatMap_singleton, scanChars_escapeChar (hrange x List.mem_cons_self) happart]
        simp [scanChars]
      | cons y t => exact absurd rfl (h x y t)

theorem scanString_escaped (rest : PyText) :
    scanString (t.flatMap Json.escapeChar ++ 0x22 :: rest) = some (joinPairs t, rest) := by
  apply scanChars_escaped hrange
  have := length_le_escaped t
  rw [List.length_append]
  omega

theorem scanOnce_quote (n : ℕ) (rest : PyText) :
    scanOnce (n + 1) (Json.quote t ++ rest) = some (.str (joinPairs t), rest) := by
  have hbody : (t.flatMap Json.escapeChar ++ [0x22]) ++ rest =
      t.flatMap Json.escapeChar ++ 0x22 :: rest := by simp
  rw [Json.quote, List.cons_append, hbody, scanOnce, if_pos rfl, scanString_escaped hrange]
  rfl

section
variable {n : ℕ} {text rest : PyText} {x : LoadedJson} (hspace : skipSpace text = text)
include hspace

/-- The name of a member up to its value. -/
theorem scan_name :
    expectChar 0x22 (Json.quote t ++ [0x3a, 0x20] ++ text) =
        some (t.flatMap Json.escapeChar ++ 0x22 :: 0x3a :: 0x20 :: text) ∧
      scanString (t.flatMap Json.escapeChar ++ 0x22 :: 0x3a :: 0x20 :: text) =
        some (joinPairs t, 0x3a :: 0x20 :: text) ∧
      expectChar 0x3a (skipSpace (0x3a :: 0x20 :: text)) = some (0x20 :: text) ∧
      skipSpace (0x20 :: text) = text := by
  refine ⟨?_, scanString_escaped hrange _, ?_, hspace⟩
  · simp [Json.quote, expectChar]
  · simp [skipSpace, isSpace, expectChar]

/-- The last member of an object. -/
theorem scanMembers_last (hx : scanOnce n text = some (x, 0x7d :: rest)) :
    scanMembers (n + 1) (Json.quote t ++ [0x3a, 0x20] ++ text) =
      some ([(joinPairs t, x)], rest) := by
  obtain ⟨hquote, hname, hcolon, hvalue⟩ := scan_name hrange hspace
  have hbrace : skipSpace (0x7d :: rest) = 0x7d :: rest := by simp [skipSpace, isSpace]
  rw [scanMembers, hquote]
  simp only [Option.bind_eq_bind, Option.bind_some, hname, hcolon, hvalue, hx, hbrace]
  rfl

/-- A member with another one after it. -/
theorem scanMembers_more {more : PyText} {ms : List (PyText × LoadedJson)}
    (hx : scanOnce n text = some (x, Json.commaSep ++ more)) (hmore : skipSpace more = more)
    (hms : scanMembers n more = some (ms, rest)) :
    scanMembers (n + 1) (Json.quote t ++ [0x3a, 0x20] ++ text) =
      some ((joinPairs t, x) :: ms, rest) := by
  obtain ⟨hquote, hname, hcolon, hvalue⟩ := scan_name hrange hspace
  have hskip : skipSpace (Json.commaSep ++ more) = 0x2c :: 0x20 :: more := by
    simp [Json.commaSep, skipSpace, isSpace]
  have hcomma : expectChar 0x2c (0x2c :: 0x20 :: more) = some (0x20 :: more) := rfl
  have hnext : skipSpace (0x20 :: more) = more := hmore
  rw [scanMembers, hquote]
  simp only [Option.bind_eq_bind, Option.bind_some, hname, hcolon, hvalue, hx, hskip, hcomma,
    hnext, hms]
  rfl

end

omit hrange in
theorem scanOnce_obj {n : ℕ} {rest : PyText} {ms : List (PyText × LoadedJson)}
    (hspace : skipSpace t = t) (hhead : t.head? ≠ some 0x7d)
    (h : scanMembers n t = some (ms, rest)) :
    scanOnce (n + 1) (0x7b :: t) = some (.obj ms, rest) := by
  rw [scanOnce, if_neg (by decide), if_pos rfl, hspace, if_neg hhead, h]
  rfl

theorem loads_dumps_str : loads (Json.dumps (.str t)) = some (.str (joinPairs t)) := by
  have hscan := scanOnce_quote hrange (Json.quote t).length []
  rw [List.append_nil] at hscan
  have hspace : skipSpace (Json.quote t) = Json.quote t := by simp [Json.quote, skipSpace, isSpace]
  have hmark : (Json.quote t).head? ≠ some 0xfeff := by simp [Json.quote]
  rw [Json.dumps, loads, if_neg hmark, hspace, hscan]
  rfl

/-- `json.loads` inverts `json.dumps` on exactly the strings without a split surrogate pair. -/
theorem loads_dumps_str_iff : loads (Json.dumps (.str t)) = some (.str t) ↔ Unpaired t := by
  rw [loads_dumps_str hrange, ← joinPairs_eq_self_iff]
  simp

end

section
variable {t token rest : PyText}

theorem count_takeWhile_isAsciiDigit (t : PyText) :
    (t.takeWhile isAsciiDigit).count 0x2d = 0 := by
  rw [List.count_eq_zero]
  intro hmem
  exact absurd (List.mem_takeWhile_imp hmem) (by decide)

theorem scanSign_append (signs : List ℕ) (t : PyText) :
    (scanSign signs t).1 ++ (scanSign signs t).2 = t ∧ (scanSign signs t).1.count 0x2d ≤ 1 := by
  cases t with
  | nil => simp [scanSign]
  | cons c t =>
    simp only [scanSign]
    split_ifs
    · exact ⟨rfl, List.count_le_length⟩
    · simp

theorem scanInteger_append (h : scanInteger t = some (token, rest)) :
    token ++ rest = t ∧ token.count 0x2d = 0 := by
  unfold scanInteger at h
  split_ifs at h with hzero
  · cases h
    cases t with
    | nil => cases hzero
    | cons c t =>
      obtain rfl : c = 0x30 := Option.some.inj hzero
      exact ⟨rfl, rfl⟩
  · cases h
    exact ⟨List.takeWhile_append_dropWhile, count_takeWhile_isAsciiDigit t⟩

theorem scanFraction_append (t : PyText) :
    (scanFraction t).1 ++ (scanFraction t).2 = t ∧ (scanFraction t).1.count 0x2d = 0 := by
  unfold scanFraction
  split_ifs with hpoint
  · cases t with
    | nil => cases hpoint.1
    | cons c t =>
      obtain rfl : c = 0x2e := Option.some.inj hpoint.1
      simp [List.takeWhile_append_dropWhile, count_takeWhile_isAsciiDigit]
  · simp

theorem scanExponent_append (t : PyText) :
    (scanExponent t).1 ++ (scanExponent t).2 = t ∧ (scanExponent t).1.count 0x2d ≤ 2 := by
  obtain ⟨he, hecount⟩ := scanSign_append [0x65, 0x45] t
  obtain ⟨hs, hscount⟩ := scanSign_append [0x2b, 0x2d] (scanSign [0x65, 0x45] t).2
  unfold scanExponent
  dsimp only
  split_ifs
  · constructor
    · rw [List.append_assoc, List.append_assoc, List.takeWhile_append_dropWhile, hs, he]
    · rw [List.count_append, List.count_append, count_takeWhile_isAsciiDigit]
      omega
  · simp

/-- A number has at most one hyphen for its sign and one in its exponent. -/
theorem scanNumber_append (h : scanNumber t = some (token, rest)) :
    token ++ rest = t ∧ token.count 0x2d ≤ 3 := by
  obtain ⟨hsign, hcount⟩ := scanSign_append [0x2d] t
  unfold scanNumber at h
  obtain ⟨integer, hinteger, hnumber⟩ := Option.map_eq_some_iff.mp h
  obtain ⟨hi, hicount⟩ := scanInteger_append hinteger
  obtain ⟨hf, hfcount⟩ := scanFraction_append integer.2
  obtain ⟨he, hecount⟩ := scanExponent_append (scanFraction integer.2).2
  obtain ⟨rfl, rfl⟩ := Prod.mk.inj hnumber
  constructor
  · rw [List.append_assoc, List.append_assoc, List.append_assoc, he, hf, hi, hsign]
  · rw [List.count_append, List.count_append, List.count_append]
    omega

theorem scanWord_eq_none {words : List (PyText × LoadedJson)}
    (h : ∀ w ∈ words, ∃ c ∈ w.1, c ∉ t) : scanWord words t = none := by
  unfold scanWord
  rw [List.findSome?_eq_none_iff]
  intro w hw
  obtain ⟨c, hc, hmem⟩ := h w hw
  have hprefix : ¬w.1.isPrefixOf t = true := by
    intro hprefix
    exact hmem ((List.isPrefixOf_iff_prefix.mp hprefix).subset hc)
  exact if_neg hprefix

/-- A text with more hyphens than a number has is no number, and so no document if it starts with
no other value. -/
theorem loads_eq_none {c : ℕ} (hstart : c ≠ 0x22 ∧ c ≠ 0x7b ∧ c ≠ 0x5b ∧ c ≠ 0xfeff)
    (hspace : ∀ d ∈ c :: t, isSpace d = false)
    (hword : ∀ w ∈ words ++ constants, ∃ d ∈ w.1, d ∉ c :: t)
    (hhyphens : 3 < (c :: t).count 0x2d) : loads (c :: t) = none := by
  obtain ⟨hquote, hbrace, hbracket, hmark⟩ := hstart
  obtain ⟨hwords, hconstants⟩ := List.forall_mem_append.mp hword
  have hskip : ∀ u : PyText, (∀ d ∈ u, isSpace d = false) → skipSpace u = u :=
    fun u hu => dropWhile_of_forall hu
  have hscan : scanOnce ((c :: t).length + 1) (c :: t) =
      (scanNumber (c :: t)).map fun (token, rest) => (.number token, rest) := by
    rw [scanOnce, if_neg hquote, if_neg hbrace, if_neg hbracket, scanWord_eq_none hwords,
      scanWord_eq_none hconstants, Option.or_none, Option.none_or]
  rw [loads, if_neg (by simpa using hmark), hskip _ hspace, hscan]
  cases hnumber : scanNumber (c :: t) with
  | none => rfl
  | some number =>
    obtain ⟨happend, hcount⟩ := scanNumber_append hnumber
    have hrest : number.2 ≠ [] := by
      intro hnil
      rw [hnil, List.append_nil] at happend
      rw [happend] at hcount
      omega
    have hrestSpace : skipSpace number.2 = number.2 :=
      hskip _ fun d hd => hspace d (happend ▸ List.mem_append_right _ hd)
    simp [hrestSpace, hrest]

end

end LoadedJson

end RelayWebhooks
