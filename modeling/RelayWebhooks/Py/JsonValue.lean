import RelayWebhooks.Py.Json
import Mathlib.Data.List.Perm.Subperm

/-! JSON values read by place: two values are the same when the same stands at every place, and
Python's `==` compares them that way with `true` and `false` read as 1 and 0. -/
namespace RelayWebhooks

/-- A step into an array or an object. -/
inductive Place where
  | item (i : ℕ)
  | member (name : PyText)
  deriving DecidableEq

/-- What stands at a place of a value. -/
inductive Node where
  | null
  | bool (b : Bool)
  | number (q : ℚ)
  | string (t : PyText)
  | array
  | object
  deriving DecidableEq

/-- A boolean read as the number Python takes it for. -/
def Node.asNumber : Node → Node
  | bool b => number (if b then 1 else 0)
  | n => n

namespace Json

def kind : Json → Node
  | null => .null
  | bool b => .bool b
  | int i => .number i
  | float x => .number x.value
  | str t => .string t
  | arr _ => .array
  | obj _ => .object

def child : Json → Place → Option Json
  | arr items, .item i => items[i]?
  | obj members, .member name => members.lookup name
  | _, _ => none

def node : Json → List Place → Option Node
  | x, [] => some x.kind
  | x, q :: p =>
    match x.child q with
    | some y => y.node p
    | none => none

/-- The same JSON value: the same kind with the same content at every depth, the members of
objects in any order. -/
def Same (x y : Json) : Prop := ∀ p, x.node p = y.node p

/-- The same value once booleans are read as numbers. -/
def SameAsNumbers (x y : Json) : Prop :=
  ∀ p, (x.node p).map Node.asNumber = (y.node p).map Node.asNumber

/-- At some place one value has a boolean and the other a number. -/
def BoolAgainstNumber (x y : Json) : Prop :=
  ∃ p b q, (x.node p = some (.bool b) ∧ y.node p = some (.number q)) ∨
    (x.node p = some (.number q) ∧ y.node p = some (.bool b))

theorem eq_or_of_asNumber {m n : Node} (h : m.asNumber = n.asNumber) :
    m = n ∨ ∃ b q, (m = .bool b ∧ n = .number q) ∨ (m = .number q ∧ n = .bool b) := by
  cases m <;> cases n <;> simp [Node.asNumber] at h ⊢
  case bool.bool b c => revert h; cases b <;> cases c <;> norm_num
  case number.number => exact h
  case string.string => exact h

theorem same_iff {x y : Json} : Same x y ↔ SameAsNumbers x y ∧ ¬BoolAgainstNumber x y := by
  constructor
  · intro h
    constructor
    · intro p
      rw [h p]
    · rintro ⟨p, b, q, ⟨hx, hy⟩ | ⟨hx, hy⟩⟩
      · rw [h p, hy] at hx
        cases hx
      · rw [h p, hy] at hx
        cases hx
  · rintro ⟨h, hclash⟩ p
    have hp := h p
    cases hx : x.node p with
    | none =>
      rw [hx, Option.map_none, eq_comm, Option.map_eq_none_iff] at hp
      exact hp.symm
    | some m =>
      rw [hx, Option.map_some, eq_comm, Option.map_eq_some_iff] at hp
      obtain ⟨n, hy, hmn⟩ := hp
      rcases eq_or_of_asNumber hmn.symm with rfl | ⟨b, q, hbq⟩
      · exact hy.symm
      · refine absurd ⟨p, b, q, ?_⟩ hclash
        rw [hx, hy]
        simpa using hbq

/-- Values are compared at their root and then child by child. -/
theorem sameAsNumbers_iff {x y : Json} : SameAsNumbers x y ↔
    x.kind.asNumber = y.kind.asNumber ∧ ∀ q, Option.Rel SameAsNumbers (x.child q) (y.child q) := by
  constructor
  · intro h
    constructor
    · simpa [node] using h []
    · intro q
      have hq (p : List Place) := h (q :: p)
      simp only [node] at hq
      cases hx : x.child q <;> cases hy : y.child q <;> simp only [hx, hy] at hq ⊢
      · exact .none
      · simpa [node] using hq []
      · simpa [node] using hq []
      · exact .some hq
  · rintro ⟨hkind, hchild⟩ p
    cases p with
    | nil => simp [node, hkind]
    | cons q p =>
      simp only [node]
      have hq := hchild q
      cases hx : x.child q <;> cases hy : y.child q <;> simp only [hx, hy] at hq ⊢
      · cases hq
      · cases hq
      · exact Option.rel_some_some.mp hq p

mutual

/-- No object has two members of one name. -/
def WellFormed : Json → Prop
  | arr items => WellFormedItems items
  | obj members => (members.map Prod.fst).Nodup ∧ WellFormedMembers members
  | _ => True

def WellFormedItems : List Json → Prop
  | [] => True
  | x :: xs => WellFormed x ∧ WellFormedItems xs

def WellFormedMembers : List (PyText × Json) → Prop
  | [] => True
  | (_, x) :: ms => WellFormed x ∧ WellFormedMembers ms

end

theorem WellFormedMembers.lookup {ms : List (PyText × Json)} (h : WellFormedMembers ms)
    {name : PyText} {x : Json} (hx : ms.lookup name = some x) : x.WellFormed := by
  induction ms with
  | nil => cases hx
  | cons m ms ih =>
    obtain ⟨k, y⟩ := m
    rw [WellFormedMembers] at h
    rw [List.lookup_cons] at hx
    split at hx
    · exact Option.some.inj hx ▸ h.1
    · exact ih h.2 hx

theorem lookup_eq_some_of_mem {ms : List (PyText × Json)} (h : (ms.map Prod.fst).Nodup)
    {m : PyText × Json} (hm : m ∈ ms) : ms.lookup m.1 = some m.2 := by
  induction ms with
  | nil => cases hm
  | cons n ms ih =>
    obtain ⟨k, y⟩ := n
    rw [List.map_cons, List.nodup_cons] at h
    rw [List.lookup_cons]
    rcases List.mem_cons.mp hm with rfl | hm
    · simp
    · have hne : (m.1 == k) = false := by
        rw [beq_eq_false_iff_ne]
        exact fun hmk => h.1 (List.mem_map.mpr ⟨m, hm, hmk⟩)
      rw [hne]
      exact ih h.2 hm

theorem lookup_isSome {ms : List (PyText × Json)} {name : PyText} :
    (ms.lookup name).isSome ↔ name ∈ ms.map Prod.fst := by
  rw [List.lookup_isSome_iff, List.mem_map]
  exact exists_congr fun m => and_congr_right fun _ => beq_iff_eq.trans eq_comm

/-- Two objects of one size agree once the members of the first are found in the second. -/
theorem members_agree {R : Json → Json → Prop} {ms ns : List (PyText × Json)}
    (hms : (ms.map Prod.fst).Nodup) (hns : (ns.map Prod.fst).Nodup) :
    (ms.length = ns.length ∧ ∀ m ∈ ms, ∃ y, ns.lookup m.1 = some y ∧ R m.2 y) ↔
      ∀ name, Option.Rel R (ms.lookup name) (ns.lookup name) := by
  constructor
  · rintro ⟨hlen, h⟩ name
    have hsub : ms.map Prod.fst ⊆ ns.map Prod.fst := by
      intro k hk
      obtain ⟨m, hm, rfl⟩ := List.mem_map.mp hk
      obtain ⟨y, hy, -⟩ := h m hm
      exact lookup_isSome.mp (by rw [hy]; rfl)
    have hperm : (ms.map Prod.fst).Perm (ns.map Prod.fst) :=
      (List.subperm_of_subset hms hsub).perm_of_length_le (by simp [hlen])
    cases hx : ms.lookup name with
    | none =>
      have hnone : (ns.lookup name).isSome = false := by
        rw [Bool.eq_false_iff, ne_eq, lookup_isSome, ← hperm.mem_iff, ← lookup_isSome, hx]
        simp
      rw [Option.isSome_eq_false_iff, Option.isNone_iff_eq_none] at hnone
      rw [hnone]
      exact .none
    | some x =>
      obtain ⟨l₁, l₂, rfl, -⟩ := List.lookup_eq_some_iff.mp hx
      obtain ⟨y, hy, hxy⟩ := h (name, x) (by simp)
      rw [hy]
      exact .some hxy
  · intro h
    have hnames (name : PyText) : name ∈ ms.map Prod.fst ↔ name ∈ ns.map Prod.fst := by
      rw [← lookup_isSome, ← lookup_isSome]
      have hname := h name
      cases hx : ms.lookup name <;> cases hy : ns.lookup name <;> simp [hx, hy] at hname ⊢
    constructor
    · simpa using ((List.perm_ext_iff_of_nodup hms hns).mpr hnames).length_eq
    · intro m hm
      have hname := h m.1
      rw [lookup_eq_some_of_mem hms hm] at hname
      cases hy : ns.lookup m.1 with
      | none => simp [hy] at hname
      | some y => exact ⟨y, rfl, by simpa [hy] using hname⟩

mutual

/-- Python's `==` compares values with the booleans read as numbers. -/
theorem pyEq_iff : ∀ {x y : Json}, x.WellFormed → y.WellFormed →
    (pyEq x y = true ↔ SameAsNumbers x y)
  | null, y, _, _ => by
    cases y <;> simp [pyEq, number?, sameAsNumbers_iff, kind, child, Node.asNumber]
  | bool _, y, _, _ => by
    cases y <;> simp [pyEq, number?, sameAsNumbers_iff, kind, child, Node.asNumber]
  | int _, y, _, _ => by
    cases y <;> simp [pyEq, number?, sameAsNumbers_iff, kind, child, Node.asNumber]
  | float _, y, _, _ => by
    cases y <;> simp [pyEq, number?, sameAsNumbers_iff, kind, child, Node.asNumber]
  | str _, y, _, _ => by
    cases y <;> simp [pyEq, number?, sameAsNumbers_iff, kind, child, Node.asNumber]
  | arr xs, y, hx, hy => by
    cases y with
    | arr ys =>
      rw [WellFormed] at hx hy
      rw [pyEq, pyEqItems_iff hx hy, sameAsNumbers_iff]
      constructor
      · intro h
        refine ⟨rfl, fun q => ?_⟩
        cases q with
        | item i => exact h i
        | member name => exact .none
      · intro h i
        exact h.2 (.item i)
    | _ => simp [pyEq, number?, sameAsNumbers_iff, kind, Node.asNumber]
  | obj ms, y, hx, hy => by
    cases y with
    | obj ns =>
      rw [WellFormed] at hx hy
      rw [pyEq, Bool.and_eq_true, beq_iff_eq, pyEqMembers_iff hx.2 hy.2,
        members_agree hx.1 hy.1, sameAsNumbers_iff]
      constructor
      · intro h
        refine ⟨rfl, fun q => ?_⟩
        cases q with
        | item i => exact .none
        | member name => exact h name
      · intro h name
        exact h.2 (.member name)
    | _ => simp [pyEq, number?, sameAsNumbers_iff, kind, Node.asNumber]

theorem pyEqItems_iff : ∀ {xs ys : List Json}, WellFormedItems xs → WellFormedItems ys →
    (pyEqItems xs ys = true ↔ ∀ i : ℕ, Option.Rel SameAsNumbers xs[i]? ys[i]?)
  | [], [], _, _ => by
    simp only [pyEqItems, List.getElem?_nil, true_iff]
    exact fun _ => .none
  | x :: xs, y :: ys, hx, hy => by
    rw [WellFormedItems] at hx hy
    rw [pyEqItems, Bool.and_eq_true, pyEq_iff hx.1 hy.1, pyEqItems_iff hx.2 hy.2]
    constructor
    · rintro ⟨h, hs⟩ i
      cases i with
      | zero => exact .some h
      | succ i => exact hs i
    · intro h
      exact ⟨Option.rel_some_some.mp (h 0), fun i => h (i + 1)⟩
  | [], _ :: _, _, _ => by
    simp only [pyEqItems, Bool.false_eq_true, false_iff]
    intro h
    cases h 0
  | _ :: _, [], _, _ => by
    simp only [pyEqItems, Bool.false_eq_true, false_iff]
    intro h
    cases h 0

theorem pyEqMembers_iff : ∀ {ms ns : List (PyText × Json)}, WellFormedMembers ms →
    WellFormedMembers ns → (pyEqMembers ms ns = true ↔
      ∀ m ∈ ms, ∃ y, ns.lookup m.1 = some y ∧ SameAsNumbers m.2 y)
  | [], _, _, _ => by simp [pyEqMembers]
  | (k, x) :: ms, ns, hm, hn => by
    rw [WellFormedMembers] at hm
    rw [pyEqMembers, List.forall_mem_cons]
    cases hy : ns.lookup k with
    | none => simp
    | some y =>
      simp only [Bool.and_eq_true, pyEq_iff hm.1 (hn.lookup hy), pyEqMembers_iff hm.2 hn,
        Option.some.injEq, exists_eq_left']

end

end Json
end RelayWebhooks
