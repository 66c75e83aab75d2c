import RelayWebhooks.Py.Text
import Mathlib.Data.Rat.Defs

/-! JSON values as Python holds them, `json.dumps` and the comparison `==`. -/
namespace RelayWebhooks

/-- A finite float: its value and the text `repr` gives it. -/
structure PyFloat where
  value : ℚ
  repr : PyText
  printable : repr.Printable

instance : DecidableEq PyFloat := fun x y =>
  decidable_of_iff (x.value = y.value ∧ x.repr = y.repr) <| by
    cases x
    cases y
    simp only [PyFloat.mk.injEq]

/-- An object lists its members in insertion order. -/
inductive Json where
  | null
  | bool (b : Bool)
  | int (i : ℤ)
  | float (x : PyFloat)
  | str (t : PyText)
  | arr (items : List Json)
  | obj (members : List (PyText × Json))

namespace Json

def uEscape (n : ℕ) : PyText := 0x5c :: 0x75 :: hexText 4 n

/-- The text of one code point inside an ASCII-only JSON string. -/
def escapeChar (c : ℕ) : PyText :=
  if c = 0x22 ∨ c = 0x5c then [0x5c, c]
  else if c = 0x08 then [0x5c, 0x62]
  else if c = 0x0c then [0x5c, 0x66]
  else if c = 0x0a then [0x5c, 0x6e]
  else if c = 0x0d then [0x5c, 0x72]
  else if c = 0x09 then [0x5c, 0x74]
  else if 0x20 ≤ c ∧ c < 0x7f then [c]
  else if c < 0x10000 then uEscape c
  else uEscape (0xd800 + (c - 0x10000) / 0x400) ++ uEscape (0xdc00 + (c - 0x10000) % 0x400)

def quote (t : PyText) : PyText := 0x22 :: (t.flatMap escapeChar ++ [0x22])

def commaSep : PyText := [0x2c, 0x20]

mutual

/-- `json.dumps` with its default separators and `ensure_ascii`. -/
def dumps : Json → PyText
  | null => PyText.ofString "null"
  | bool true => PyText.ofString "true"
  | bool false => PyText.ofString "false"
  | int i => intText i
  | float x => x.repr
  | str t => quote t
  | arr items => 0x5b :: (dumpsItems items ++ [0x5d])
  | obj members => 0x7b :: (dumpsMembers members ++ [0x7d])

def dumpsItems : List Json → PyText
  | [] => []
  | [x] => dumps x
  | x :: y :: xs => dumps x ++ commaSep ++ dumpsItems (y :: xs)

def dumpsMembers : List (PyText × Json) → PyText
  | [] => []
  | [(k, x)] => quote k ++ [0x3a, 0x20] ++ dumps x
  | (k, x) :: m :: ms => quote k ++ [0x3a, 0x20] ++ dumps x ++ commaSep ++ dumpsMembers (m :: ms)

end

/-- A value that may be `None`. -/
def orNull {α : Type} (f : α → Json) (x : Option α) : Json := (x.map f).getD null

/-- The number a value counts as in a comparison: booleans are the integers 0 and 1. -/
def number? : Json → Option ℚ
  | bool b => some (if b then 1 else 0)
  | int i => some i
  | float x => some x.value
  | _ => none

mutual

/-- Python's `==`. -/
def pyEq : Json → Json → Bool
  | null, null => true
  | str t, str u => t = u
  | arr xs, arr ys => pyEqItems xs ys
  | obj ms, obj ns => ms.length == ns.length && pyEqMembers ms ns
  | x, y =>
    match number? x, number? y with
    | some a, some b => a = b
    | _, _ => false

def pyEqItems : List Json → List Json → Bool
  | [], [] => true
  | x :: xs, y :: ys => pyEq x y && pyEqItems xs ys
  | _, _ => false

/-- Every member of the first object is in the second one under the same name. -/
def pyEqMembers : List (PyText × Json) → List (PyText × Json) → Bool
  | [], _ => true
  | (k, x) :: ms, ns =>
    match ns.lookup k with
    | some y => pyEq x y && pyEqMembers ms ns
    | none => false

end

theorem uEscape_printable (n : ℕ) : (uEscape n).Printable := by
  simp [uEscape, hexText_printable]

theorem escapeChar_printable (c : ℕ) : (escapeChar c).Printable := by
  unfold escapeChar
  split_ifs with h₁ h₂ h₃ h₄ h₅ h₆ h₇
  · rcases h₁ with rfl | rfl <;> decide
  · decide
  · decide
  · decide
  · decide
  · decide
  · simpa using h₇
  · exact uEscape_printable _
  · exact PyText.printable_append.mpr ⟨uEscape_printable _, uEscape_printable _⟩

theorem quote_printable (t : PyText) : (quote t).Printable := by
  have ht : PyText.Printable (t.flatMap escapeChar) := by
    intro c hc
    obtain ⟨d, -, hd⟩ := List.mem_flatMap.mp hc
    exact escapeChar_printable d c hd
  simp [quote, ht]

mutual

/-- What `json.dumps` writes is printable ASCII, whatever the strings inside hold. -/
theorem dumps_printable : ∀ x : Json, (dumps x).Printable
  | null => by simp only [dumps]; decide
  | bool true => by simp only [dumps]; decide
  | bool false => by simp only [dumps]; decide
  | int i => by simpa only [dumps] using intText_printable i
  | float x => by simpa only [dumps] using x.printable
  | str t => by simpa only [dumps] using quote_printable t
  | arr items => by simp [dumps, dumpsItems_printable items]
  | obj members => by simp [dumps, dumpsMembers_printable members]

theorem dumpsItems_printable : ∀ xs : List Json, (dumpsItems xs).Printable
  | [] => by simp [dumpsItems]
  | [x] => by simpa only [dumpsItems] using dumps_printable x
  | x :: y :: xs => by
    simp [dumpsItems, commaSep, dumps_printable x, dumpsItems_printable (y :: xs)]

theorem dumpsMembers_printable : ∀ ms : List (PyText × Json), (dumpsMembers ms).Printable
  | [] => by simp [dumpsMembers]
  | [(k, x)] => by simp [dumpsMembers, quote_printable, dumps_printable x]
  | (k, x) :: m :: ms => by
    simp [dumpsMembers, commaSep, quote_printable, dumps_printable x,
      dumpsMembers_printable (m :: ms)]

end

end Json

end RelayWebhooks
