import RelayWebhooks.Py.JsonLoads
import Mathlib.Data.Nat.Digits.Lemmas

/-! `json.loads` of what `json.dumps` writes, for every value. -/
namespace RelayWebhooks

/-- Some digits. -/
def IsDigits (t : PyText) : Prop := t ≠ [] ∧ ∀ c ∈ t, isAsciiDigit c = true

theorem IsDigits.head {t : PyText} (h : IsDigits t) :
    ∃ c u, t = c :: u ∧ isAsciiDigit c = true := by
  obtain ⟨hne, hdigits⟩ := h
  cases t with
  | nil => exact (hne rfl).elim
  | cons c u => exact ⟨c, u, rfl, hdigits c List.mem_cons_self⟩

/-- A number of JSON: a sign, an integer without leading zeros, a fraction and an exponent. -/
structure NumberToken (t : PyText) where
  sign : PyText
  integer : PyText
  fraction : PyText
  exponent : PyText
  token : t = sign ++ (integer ++ (fraction ++ exponent))
  sign_eq : sign = [] ∨ sign = [0x2d]
  integer_eq : integer = [0x30] ∨ IsDigits integer ∧ integer.head? ≠ some 0x30
  fraction_eq : fraction = [] ∨ ∃ ds, IsDigits ds ∧ fraction = 0x2e :: ds
  exponent_eq : exponent = [] ∨ ∃ e s ds, (e = 0x65 ∨ e = 0x45) ∧
    (s = [] ∨ s = [0x2b] ∨ s = [0x2d]) ∧ IsDigits ds ∧ exponent = e :: (s ++ ds)

/-- The text is a number of JSON. -/
def IsNumber (t : PyText) : Prop := Nonempty (NumberToken t)

/-- What follows a value inside a document: nothing, a comma or a closing bracket. -/
def Closes (rest : PyText) : Prop := ∀ c ∈ rest.head?, c = 0x2c ∨ c = 0x5d ∨ c = 0x7d

theorem closes_nil : Closes [] := by simp [Closes]

theorem closes_cons {c : ℕ} {rest : PyText} (h : c = 0x2c ∨ c = 0x5d ∨ c = 0x7d) :
    Closes (c :: rest) := by simpa [Closes] using h

namespace LoadedJson

section
variable {ds rest : PyText} (hds : ∀ c ∈ ds, isAsciiDigit c = true)
  (hrest : ∀ c ∈ rest.head?, isAsciiDigit c = false)
include hds hrest

theorem takeWhile_digits : (ds ++ rest).takeWhile isAsciiDigit = ds := by
  rw [List.takeWhile_append_of_pos hds]
  cases rest with
  | nil => simp
  | cons c rest => simp [hrest c rfl]

theorem dropWhile_digits : (ds ++ rest).dropWhile isAsciiDigit = rest := by
  rw [List.dropWhile_append_of_pos hds]
  cases rest with
  | nil => rfl
  | cons c rest => simp [hrest c rfl]

end

theorem scanInteger_token {t rest : PyText}
    (h : t = [0x30] ∨ IsDigits t ∧ t.head? ≠ some 0x30)
    (hrest : ∀ c ∈ rest.head?, isAsciiDigit c = false) :
    scanInteger (t ++ rest) = some (t, rest) := by
  unfold scanInteger
  rcases h with rfl | ⟨hdigits, hzero⟩
  · rfl
  · obtain ⟨c, u, rfl, -⟩ := hdigits.head
    have hhead : ((c :: u) ++ rest).head? ≠ some 0x30 := hzero
    rw [if_neg hhead, takeWhile_digits hdigits.2 hrest, dropWhile_digits hdigits.2 hrest,
      if_neg hdigits.1]

theorem scanFraction_token {t rest : PyText} (h : t = [] ∨ ∃ ds, IsDigits ds ∧ t = 0x2e :: ds)
    (hrest : ∀ c ∈ rest.head?, isAsciiDigit c = false ∧ c ≠ 0x2e) :
    scanFraction (t ++ rest) = (t, rest) := by
  unfold scanFraction
  rcases h with rfl | ⟨ds, hds, rfl⟩
  · have hpoint : ¬(([] ++ rest : PyText).head? = some 0x2e ∧
        ([] ++ rest : PyText).tail.takeWhile isAsciiDigit ≠ []) :=
      fun hp => (hrest _ hp.1).2 rfl
    rw [if_neg hpoint]
    rfl
  · have hdigit : ∀ c ∈ rest.head?, isAsciiDigit c = false := fun c hc => (hrest c hc).1
    have htail : ((0x2e :: ds) ++ rest).tail = ds ++ rest := rfl
    rw [htail, takeWhile_digits hds.2 hdigit, dropWhile_digits hds.2 hdigit,
      if_pos ⟨rfl, hds.1⟩]

theorem scanSign_none {signs : List ℕ} {t : PyText} (h : ∀ c ∈ t.head?, c ∉ signs) :
    scanSign signs t = ([], t) := by
  cases t with
  | nil => rfl
  | cons c t => exact if_neg (h c rfl)

theorem scanSign_some {signs : List ℕ} {c : ℕ} {t : PyText} (h : c ∈ signs) :
    scanSign signs (c :: t) = ([c], t) := if_pos h

theorem scanExponent_token {t rest : PyText}
    (h : t = [] ∨ ∃ e s ds, (e = 0x65 ∨ e = 0x45) ∧ (s = [] ∨ s = [0x2b] ∨ s = [0x2d]) ∧
      IsDigits ds ∧ t = e :: (s ++ ds))
    (hrest : Closes rest) : scanExponent (t ++ rest) = (t, rest) := by
  have hdigit : ∀ c ∈ rest.head?, isAsciiDigit c = false := by
    intro c hc
    rcases hrest c hc with rfl | rfl | rfl <;> rfl
  unfold scanExponent
  rcases h with rfl | ⟨e, s, ds, he, hs, hds, rfl⟩
  · have hnone : scanSign [0x65, 0x45] rest = ([], rest) := by
      apply scanSign_none
      intro c hc
      rcases hrest c hc with rfl | rfl | rfl <;> decide
    simp only [List.nil_append, hnone, ne_eq, not_true_eq_false, false_and, if_false]
  · have hmark : scanSign [0x65, 0x45] (e :: (s ++ ds) ++ rest) = ([e], s ++ (ds ++ rest)) := by
      rw [List.cons_append, List.append_assoc]
      exact scanSign_some (by simpa using he)
    have hsign : scanSign [0x2b, 0x2d] (s ++ (ds ++ rest)) = (s, ds ++ rest) := by
      rcases hs with rfl | rfl | rfl
      · obtain ⟨c, u, rfl, hc⟩ := hds.head
        apply scanSign_none
        intro d hd
        obtain rfl : c = d := Option.some.inj hd
        rintro hmem
        simp only [List.mem_cons, List.not_mem_nil, or_false] at hmem
        rcases hmem with rfl | rfl <;> cases hc
      · exact scanSign_some (by simp)
      · exact scanSign_some (by simp)
    simp only [hmark, hsign, takeWhile_digits hds.2 hdigit, dropWhile_digits hds.2 hdigit]
    rw [if_pos ⟨by simp, hds.1⟩]
    simp

/-- A number is scanned to its end. -/
theorem scanNumber_token {t rest : PyText} (h : NumberToken t) (hrest : Closes rest) :
    scanNumber (t ++ rest) = some (t, rest) := by
  have hdigit : ∀ c ∈ rest.head?, isAsciiDigit c = false ∧ c ≠ 0x2e := by
    intro c hc
    rcases hrest c hc with rfl | rfl | rfl <;> decide
  have hexponent : ∀ c ∈ (h.exponent ++ rest).head?, isAsciiDigit c = false ∧ c ≠ 0x2e := by
    intro c hc
    rcases h.exponent_eq with heq | ⟨e, s, ds, he, -, -, heq⟩
    · rw [heq] at hc
      exact hdigit c hc
    · rw [heq] at hc
      obtain rfl : e = c := Option.some.inj hc
      rcases he with rfl | rfl <;> decide
  have hfraction : ∀ c ∈ (h.fraction ++ (h.exponent ++ rest)).head?, isAsciiDigit c = false := by
    intro c hc
    rcases h.fraction_eq with heq | ⟨ds, -, heq⟩
    · rw [heq] at hc
      exact (hexponent c hc).1
    · rw [heq] at hc
      obtain rfl : 0x2e = c := Option.some.inj hc
      rfl
  have hinteger := scanInteger_token h.integer_eq hfraction
  have hsign : scanSign [0x2d] (h.sign ++ (h.integer ++ (h.fraction ++ (h.exponent ++ rest)))) =
      (h.sign, h.integer ++ (h.fraction ++ (h.exponent ++ rest))) := by
    rcases h.sign_eq with heq | heq
    · rw [heq]
      apply scanSign_none
      intro c hc hmem
      obtain rfl : c = 0x2d := by simpa using hmem
      rcases h.integer_eq with hint | ⟨hint, -⟩
      · rw [hint] at hc
        cases hc
      · obtain ⟨d, u, hd, hdigit⟩ := hint.head
        rw [hd] at hc
        obtain rfl : d = 0x2d := Option.some.inj hc
        cases hdigit
    · rw [heq]
      exact scanSign_some (by simp)
  have htext : t ++ rest = h.sign ++ (h.integer ++ (h.fraction ++ (h.exponent ++ rest))) := by
    conv_lhs => rw [h.token]
    simp only [List.append_assoc]
  unfold scanNumber
  simp only [htext, hsign, hinteger, Option.map_some, scanFraction_token h.fraction_eq hexponent,
    scanExponent_token h.exponent_eq hrest]
  congr 2
  conv_rhs => rw [h.token]
  simp only [List.append_assoc]

end LoadedJson

theorem isAsciiDigit_digitChar {d : ℕ} (h : d < 10) : isAsciiDigit (digitChar d) = true := by
  unfold isAsciiDigit digitChar
  rw [if_pos h]
  simp only [Bool.and_eq_true, decide_eq_true_eq]
  omega

theorem natText_isInteger (n : ℕ) :
    natText n = [0x30] ∨ IsDigits (natText n) ∧ (natText n).head? ≠ some 0x30 := by
  by_cases hn : n = 0
  · left
    subst hn
    rfl
  · right
    have hdigits : ∀ d ∈ Nat.digits 10 n, d < 10 := fun d => Nat.digits_lt_base (by omega)
    have hne : Nat.digits 10 n ≠ [] := by simpa [Nat.digits_eq_nil_iff_eq_zero] using hn
    have htext : natText n = (Nat.digits 10 n).reverse.map digitChar := if_neg hn
    rw [htext]
    refine ⟨⟨by simpa using hne, fun c hc => ?_⟩, fun hhead => ?_⟩
    · obtain ⟨d, hd, rfl⟩ := List.mem_map.mp hc
      exact isAsciiDigit_digitChar (hdigits d (List.mem_reverse.mp hd))
    · rw [List.head?_map, List.head?_reverse, List.getLast?_eq_getLast_of_ne_nil hne,
        Option.map_some, Option.some.injEq] at hhead
      have hlast := Nat.getLast_digit_ne_zero 10 hn
      have hlt := hdigits _ (List.getLast_mem hne)
      unfold digitChar at hhead
      rw [if_pos hlt] at hhead
      omega

/-- `str` of an integer is a number of JSON. -/
theorem intText_isNumber (i : ℤ) : IsNumber (intText i) := by
  have hint := natText_isInteger i.natAbs
  unfold intText
  split
  · exact ⟨⟨[0x2d], natText i.natAbs, [], [], by simp, .inr rfl, hint, .inl rfl, .inl rfl⟩⟩
  · exact ⟨⟨[], natText i.natAbs, [], [], by simp, .inl rfl, hint, .inl rfl, .inl rfl⟩⟩

namespace Json

mutual

/-- The strings inside are sequences of code points, and the floats are written as JSON has
numbers. -/
def Proper : Json → Prop
  | float x => IsNumber x.repr
  | str t => ∀ c ∈ t, c < 0x110000
  | arr items => ProperItems items
  | obj members => ProperMembers members
  | _ => True

def ProperItems : List Json → Prop
  | [] => True
  | x :: xs => Proper x ∧ ProperItems xs

def ProperMembers : List (PyText × Json) → Prop
  | [] => True
  | (k, x) :: ms => (∀ c ∈ k, c < 0x110000) ∧ Proper x ∧ ProperMembers ms

end

mutual

/-- No string inside has a high surrogate right before a low one. -/
def Unsplit : Json → Prop
  | str t => LoadedJson.Unpaired t
  | arr items => UnsplitItems items
  | obj members => UnsplitMembers members
  | _ => True

def UnsplitItems : List Json → Prop
  | [] => True
  | x :: xs => Unsplit x ∧ UnsplitItems xs

def UnsplitMembers : List (PyText × Json) → Prop
  | [] => True
  | (k, x) :: ms => LoadedJson.Unpaired k ∧ Unsplit x ∧ UnsplitMembers ms

end

mutual

/-- The document of a value, with `f` applied to its strings. -/
def loaded (f : PyText → PyText) : Json → LoadedJson
  | null => .null
  | bool b => .bool b
  | int i => .number (intText i)
  | float x => .number x.repr
  | str t => .str (f t)
  | arr items => .arr (loadedItems f items)
  | obj members => .obj (loadedMembers f members)

def loadedItems (f : PyText → PyText) : List Json → List LoadedJson
  | [] => []
  | x :: xs => loaded f x :: loadedItems f xs

def loadedMembers (f : PyText → PyText) : List (PyText × Json) → List (PyText × LoadedJson)
  | [] => []
  | (k, x) :: ms => (f k, loaded f x) :: loadedMembers f ms

end

end Json

namespace LoadedJson
open Json

mutual

/-- The strings stay as they are if and only if none has a split surrogate pair. -/
theorem loaded_joinPairs_iff : ∀ x : Json, x.loaded joinPairs = x.loaded id ↔ x.Unsplit
  | .null | .bool _ | .int _ | .float _ => by simp [loaded, Unsplit]
  | .str t => by simp [loaded, Unsplit, joinPairs_eq_self_iff]
  | .arr items => by simp [loaded, Unsplit, loadedItems_joinPairs_iff items]
  | .obj members => by simp [loaded, Unsplit, loadedMembers_joinPairs_iff members]

theorem loadedItems_joinPairs_iff :
    ∀ xs : List Json, loadedItems joinPairs xs = loadedItems id xs ↔ UnsplitItems xs
  | [] => by simp [loadedItems, UnsplitItems]
  | x :: xs => by
    simp [loadedItems, UnsplitItems, loaded_joinPairs_iff x, loadedItems_joinPairs_iff xs]

theorem loadedMembers_joinPairs_iff : ∀ ms : List (PyText × Json),
    loadedMembers joinPairs ms = loadedMembers id ms ↔ UnsplitMembers ms
  | [] => by simp [loadedMembers, UnsplitMembers]
  | (k, x) :: ms => by
    simp [loadedMembers, UnsplitMembers, joinPairs_eq_self_iff, loaded_joinPairs_iff x,
      loadedMembers_joinPairs_iff ms, and_assoc]

end

/-- The text starts like a value: with no space and no bracket that closes. -/
def Opens (t : PyText) : Prop :=
  ∃ c u, t = c :: u ∧ isSpace c = false ∧ c ≠ 0x5d ∧ c ≠ 0x7d ∧ c < 0x7f

theorem Opens.append {t : PyText} (h : Opens t) (u : PyText) : Opens (t ++ u) := by
  obtain ⟨c, v, rfl, hc⟩ := h
  exact ⟨c, v ++ u, rfl, hc⟩

theorem Opens.skipSpace {t : PyText} (h : Opens t) : skipSpace t = t := by
  obtain ⟨c, u, rfl, hc, -⟩ := h
  simp [LoadedJson.skipSpace, hc]

theorem IsNumber.head {t : PyText} (h : IsNumber t) :
    ∃ c u, t = c :: u ∧ (c = 0x2d ∨ isAsciiDigit c = true) := by
  obtain ⟨h⟩ := h
  have hint : ∃ c u, h.integer = c :: u ∧ isAsciiDigit c = true := by
    rcases h.integer_eq with heq | ⟨hdigits, -⟩
    · exact ⟨0x30, [], heq, rfl⟩
    · exact hdigits.head
  obtain ⟨c, u, heq, hc⟩ := hint
  rcases h.sign_eq with hs | hs
  · exact ⟨c, u ++ (h.fraction ++ h.exponent), h.token.trans (by rw [hs, heq]; rfl), .inr hc⟩
  · exact ⟨0x2d, h.integer ++ (h.fraction ++ h.exponent), h.token.trans (by rw [hs]; rfl), .inl rfl⟩

theorem opens_number {t : PyText} (h : IsNumber t) : Opens t := by
  obtain ⟨c, u, rfl, hc⟩ := IsNumber.head h
  have hrange : c = 0x2d ∨ 0x30 ≤ c ∧ c ≤ 0x39 := by
    simpa [isAsciiDigit] using hc
  refine ⟨c, u, rfl, ?_, by omega, by omega, by omega⟩
  simp only [isSpace, Bool.or_eq_false_iff, decide_eq_false_iff_not]
  omega

theorem opens_dumps {x : Json} (hx : x.Proper) : Opens x.dumps := by
  cases x with
  | null => exact ⟨0x6e, _, rfl, rfl, by decide, by decide, by decide⟩
  | bool b =>
    cases b with
    | true => exact ⟨0x74, _, rfl, rfl, by decide, by decide, by decide⟩
    | false => exact ⟨0x66, _, rfl, rfl, by decide, by decide, by decide⟩
  | int i => exact opens_number (intText_isNumber i)
  | float x => exact opens_number hx
  | str t => exact ⟨0x22, _, rfl, rfl, by decide, by decide, by decide⟩
  | arr items => exact ⟨0x5b, _, rfl, rfl, by decide, by decide, by decide⟩
  | obj members => exact ⟨0x7b, _, rfl, rfl, by decide, by decide, by decide⟩

theorem opens_dumpsItems {x : Json} (hx : x.Proper) (xs : List Json) :
    Opens (dumpsItems (x :: xs)) := by
  cases xs with
  | nil => exact opens_dumps hx
  | cons y xs =>
    rw [dumpsItems, List.append_assoc]
    exact (opens_dumps hx).append _

theorem opens_dumpsMembers (k : PyText) (x : Json) (ms : List (PyText × Json)) :
    Opens (dumpsMembers ((k, x) :: ms)) := by
  cases ms with
  | nil => exact ⟨0x22, _, rfl, rfl, by decide, by decide, by decide⟩
  | cons m ms => exact ⟨0x22, _, rfl, rfl, by decide, by decide, by decide⟩

/-- No word starts like a number. -/
theorem scanWord_number {c : ℕ} (hc : c = 0x2d ∨ isAsciiDigit c = true) (t : PyText) :
    scanWord words (c :: t) = none := by
  have hrange : c = 0x2d ∨ 0x30 ≤ c ∧ c ≤ 0x39 := by simpa [isAsciiDigit] using hc
  have hn : ¬0x6e = c := by omega
  have ht : ¬0x74 = c := by omega
  have hf : ¬0x66 = c := by omega
  simp [scanWord, words, PyText.ofString, hn, ht, hf]

theorem scanOnce_number {t rest : PyText} (h : IsNumber t) (hrest : Closes rest) (n : ℕ) :
    scanOnce (n + 1) (t ++ rest) = some (.number t, rest) := by
  obtain ⟨c, u, heq, hc⟩ := IsNumber.head h
  obtain ⟨h⟩ := h
  have hscan := scanNumber_token h hrest
  have hrange : c = 0x2d ∨ 0x30 ≤ c ∧ c ≤ 0x39 := by simpa [isAsciiDigit] using hc
  rw [heq, List.cons_append] at hscan ⊢
  rw [scanOnce, if_neg (by omega), if_neg (by omega), if_neg (by omega), scanWord_number hc,
    hscan]
  rfl

theorem scanOnce_word {w : PyText × LoadedJson} (hw : w ∈ words) (rest : PyText) (n : ℕ) :
    scanOnce (n + 1) (w.1 ++ rest) = some (w.2, rest) := by
  simp only [words, List.mem_cons, List.not_mem_nil, or_false] at hw
  rcases hw with rfl | rfl | rfl <;> rfl

/-- An item with another one after it. -/
theorem scanItems_more {n : ℕ} {text more rest : PyText} {x : LoadedJson} {xs : List LoadedJson}
    (hx : scanOnce n (text ++ (Json.commaSep ++ more)) = some (x, Json.commaSep ++ more))
    (hmore : skipSpace more = more) (hxs : scanItems n more = some (xs, rest)) :
    scanItems (n + 1) (text ++ (Json.commaSep ++ more)) = some (x :: xs, rest) := by
  have hskip : skipSpace (Json.commaSep ++ more) = 0x2c :: 0x20 :: more := by
    simp [Json.commaSep, skipSpace, isSpace]
  have hcomma : expectChar 0x2c (0x2c :: 0x20 :: more) = some (0x20 :: more) := rfl
  have hnext : skipSpace (0x20 :: more) = more := hmore
  rw [scanItems]
  simp only [Option.bind_eq_bind, Option.bind_some, hx, hskip, hcomma, hnext, hxs]
  rfl

theorem scanItems_last {n : ℕ} {text rest : PyText} {x : LoadedJson}
    (hx : scanOnce n text = some (x, 0x5d :: rest)) :
    scanItems (n + 1) text = some ([x], rest) := by
  have hbracket : skipSpace (0x5d :: rest) = 0x5d :: rest := by simp [skipSpace, isSpace]
  rw [scanItems]
  simp only [Option.bind_eq_bind, Option.bind_some, hx, hbracket]
  rfl

theorem scanOnce_arr {n : ℕ} {t rest : PyText} {xs : List LoadedJson} (ht : Opens t)
    (h : scanItems n t = some (xs, rest)) :
    scanOnce (n + 1) (0x5b :: t) = some (.arr xs, rest) := by
  obtain ⟨c, u, rfl, hspace, hclose, -⟩ := ht
  have hskip : skipSpace (c :: u) = c :: u := by simp [skipSpace, hspace]
  have hhead : (c :: u).head? ≠ some 0x5d := by simpa using hclose
  rw [scanOnce, if_neg (by decide), if_neg (by decide), if_pos rfl, hskip, if_neg hhead, h]
  rfl

mutual

/-- Every value is scanned to the end of its text, with as much fuel as the text is long. -/
theorem scanOnce_dumps : ∀ (x : Json) (n : ℕ) (rest : PyText), x.Proper → x.dumps.length ≤ n →
    Closes rest → scanOnce n (x.dumps ++ rest) = some (x.loaded joinPairs, rest)
  | x, 0, rest, hx, hn, _ => by
    obtain ⟨c, u, heq, -⟩ := opens_dumps hx
    rw [heq] at hn
    cases hn
  | .null, n + 1, rest, _, _, _ => by
    exact scanOnce_word (w := (.ofString "null", .null)) (by simp [words]) rest n
  | .bool true, n + 1, rest, _, _, _ => by
    exact scanOnce_word (w := (.ofString "true", .bool true)) (by simp [words]) rest n
  | .bool false, n + 1, rest, _, _, _ => by
    exact scanOnce_word (w := (.ofString "false", .bool false)) (by simp [words]) rest n
  | .int i, n + 1, rest, _, _, hrest => by
    rw [dumps, loaded]
    exact scanOnce_number (intText_isNumber i) hrest n
  | .float x, n + 1, rest, hx, _, hrest => by
    rw [dumps, loaded]
    exact scanOnce_number hx hrest n
  | .str t, n + 1, rest, hx, _, _ => by
    rw [dumps, loaded]
    exact scanOnce_quote hx n rest
  | .arr [], n + 1, rest, _, _, _ => by
    rfl
  | .arr (x :: xs), n + 1, rest, hx, hn, _ => by
    have hopens := (opens_dumpsItems hx.1 xs).append (0x5d :: rest)
    have hitems := scanItems_dumps x xs n rest hx (by simpa [dumps] using hn)
    have htext : (Json.arr (x :: xs)).dumps ++ rest =
        0x5b :: (dumpsItems (x :: xs) ++ 0x5d :: rest) := by simp [dumps]
    rw [htext, loaded]
    exact scanOnce_arr hopens hitems
  | .obj [], n + 1, rest, _, _, _ => by
    rfl
  | .obj ((k, x) :: ms), n + 1, rest, hx, hn, _ => by
    have hopens := (opens_dumpsMembers k x ms).append (0x7d :: rest)
    have hmembers := scanMembers_dumps k x ms n rest hx (by simpa [dumps] using hn)
    have htext : (Json.obj ((k, x) :: ms)).dumps ++ rest =
        0x7b :: (dumpsMembers ((k, x) :: ms) ++ 0x7d :: rest) := by simp [dumps]
    have hhead : (dumpsMembers ((k, x) :: ms) ++ 0x7d :: rest).head? ≠ some 0x7d := by
      obtain ⟨c, u, heq, -, -, hclose, -⟩ := hopens
      rw [heq]
      simpa using hclose
    rw [htext, loaded]
    exact scanOnce_obj hopens.skipSpace hhead hmembers

theorem scanItems_dumps : ∀ (x : Json) (xs : List Json) (n : ℕ) (rest : PyText),
    ProperItems (x :: xs) → (dumpsItems (x :: xs)).length + 1 ≤ n →
    scanItems n (dumpsItems (x :: xs) ++ 0x5d :: rest) =
      some (loadedItems joinPairs (x :: xs), rest)
  | x, xs, 0, rest, _, hn => by cases hn
  | x, [], n + 1, rest, hx, hn => by
    rw [dumpsItems, loadedItems, loadedItems]
    rw [dumpsItems] at hn
    exact scanItems_last (scanOnce_dumps x n _ hx.1 (by omega) (closes_cons (by simp)))
  | x, y :: xs, n + 1, rest, hx, hn => by
    simp only [dumpsItems, List.length_append, Json.commaSep, List.length_cons,
      List.length_nil] at hn
    have hopens := (opens_dumpsItems hx.2.1 xs).append (0x5d :: rest)
    have htext : dumpsItems (x :: y :: xs) ++ 0x5d :: rest =
        x.dumps ++ (Json.commaSep ++ (dumpsItems (y :: xs) ++ 0x5d :: rest)) := by
      simp [dumpsItems]
    rw [htext, loadedItems]
    refine scanItems_more (scanOnce_dumps x n _ hx.1 (by omega) ?_) hopens.skipSpace
      (scanItems_dumps y xs n rest hx.2 (by omega))
    exact closes_cons (by simp)

theorem scanMembers_dumps : ∀ (k : PyText) (x : Json) (ms : List (PyText × Json)) (n : ℕ)
    (rest : PyText), ProperMembers ((k, x) :: ms) → (dumpsMembers ((k, x) :: ms)).length + 1 ≤ n →
    scanMembers n (dumpsMembers ((k, x) :: ms) ++ 0x7d :: rest) =
      some (loadedMembers joinPairs ((k, x) :: ms), rest)
  | k, x, ms, 0, rest, _, hn => by cases hn
  | k, x, [], n + 1, rest, hx, hn => by
    simp only [dumpsMembers, List.length_append] at hn
    have hopens := (opens_dumps hx.2.1).append (0x7d :: rest)
    have htext : dumpsMembers [(k, x)] ++ 0x7d :: rest =
        Json.quote k ++ [0x3a, 0x20] ++ (x.dumps ++ 0x7d :: rest) := by simp [dumpsMembers]
    rw [htext, loadedMembers, loadedMembers]
    exact scanMembers_last hx.1 hopens.skipSpace
      (scanOnce_dumps x n _ hx.2.1 (by omega) (closes_cons (by simp)))
  | k, x, m :: ms, n + 1, rest, hx, hn => by
    obtain ⟨k', y⟩ := m
    simp only [dumpsMembers, List.length_append, Json.commaSep, List.length_cons,
      List.length_nil] at hn
    have hopens := (opens_dumps hx.2.1).append
      (Json.commaSep ++ (dumpsMembers ((k', y) :: ms) ++ 0x7d :: rest))
    have hmore := (opens_dumpsMembers k' y ms).append (0x7d :: rest)
    have htext : dumpsMembers ((k, x) :: (k', y) :: ms) ++ 0x7d :: rest =
        Json.quote k ++ [0x3a, 0x20] ++
          (x.dumps ++ (Json.commaSep ++ (dumpsMembers ((k', y) :: ms) ++ 0x7d :: rest))) := by
      simp [dumpsMembers]
    rw [htext, loadedMembers]
    refine scanMembers_more hx.1 hopens.skipSpace (scanOnce_dumps x n _ hx.2.1 (by omega) ?_)
      hmore.skipSpace (scanMembers_dumps k' y ms n rest hx.2.2 (by omega))
    exact closes_cons (by simp)

end

/-- `json.loads` gets back every value that `json.dumps` has written, its strings with split
surrogate pairs joined. -/
theorem loads_dumps {x : Json} (hx : x.Proper) :
    loads x.dumps = some (x.loaded joinPairs) := by
  have hopens := opens_dumps hx
  have hmark : x.dumps.head? ≠ some 0xfeff := by
    obtain ⟨c, u, heq, -, -, -, hlt⟩ := hopens
    rw [heq, List.head?_cons, ne_eq, Option.some.injEq]
    omega
  have hscan := scanOnce_dumps x (x.dumps.length + 1) [] hx (Nat.le_succ _) closes_nil
  rw [List.append_nil] at hscan
  rw [loads, if_neg hmark, hopens.skipSpace, hscan]
  rfl

end LoadedJson
end RelayWebhooks
