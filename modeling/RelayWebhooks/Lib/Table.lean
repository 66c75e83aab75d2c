import Mathlib.Data.List.Basic
import Mathlib.Logic.Function.Basic
import Mathlib.Data.List.Nodup
import Mathlib.Data.Fintype.Card

/-! Tables of rows under a primary key. No two rows of a table share their key. -/

/-- The column a row is stored under. -/
class Keyed (ρ : Type*) (κ : outParam Type*) where
  key : ρ → κ

structure Table (ρ : Type*) {κ : Type*} [Keyed ρ κ] where
  rows : List ρ
  nodup : (rows.map Keyed.key).Nodup

namespace Table
open Keyed

variable {ρ κ : Type*} [Keyed ρ κ]

@[ext] theorem ext {t u : Table ρ} (h : t.rows = u.rows) : t = u := by
  cases t
  cases u
  simp only [mk.injEq]
  exact h

instance [DecidableEq ρ] : DecidableEq (Table ρ) := fun t u =>
  decidable_of_iff (t.rows = u.rows) ⟨ext, fun h => h ▸ rfl⟩

def empty : Table ρ := ⟨[], List.nodup_nil⟩

def singleton (r : ρ) : Table ρ := ⟨[r], List.nodup_singleton _⟩

/-- The rows that match a `WHERE` clause, in table order. -/
def select (t : Table ρ) (p : ρ → Bool) : List ρ := t.rows.filter p

def deleteWhere (t : Table ρ) (p : ρ → Bool) : Table ρ where
  rows := t.rows.filter fun r => !p r
  nodup := t.nodup.sublist (List.filter_sublist.map key)

theorem key_inj (t : Table ρ) {r x : ρ} (hr : r ∈ t.rows) (hx : x ∈ t.rows)
    (h : key r = key x) : r = x :=
  List.inj_on_of_nodup_map t.nodup hr hx h

theorem select_deleteWhere (t : Table ρ) (p q : ρ → Bool) :
    (t.deleteWhere q).select p = (t.select p).filter fun r => !q r := by
  simp only [select, deleteWhere, List.filter_filter, Bool.and_comm]

variable [DecidableEq κ]

def get (t : Table ρ) (k : κ) : Option ρ := t.rows.find? fun r => key r = k

private theorem map_key_replace (rows : List ρ) (r : ρ) :
    (rows.map fun x => if key x = key r then r else x).map key = rows.map key := by
  rw [List.map_map]
  refine List.map_congr_left fun x _ => ?_
  simp only [Function.comp_apply]
  split
  next h => exact h.symm
  next => rfl

/-- Overwrites the row stored under the key of `r`; no row is added. -/
def update (t : Table ρ) (r : ρ) : Table ρ where
  rows := t.rows.map fun x => if key x = key r then r else x
  nodup := by
    rw [map_key_replace]
    exact t.nodup

/-- An insert under a key that is already taken breaks the primary key. -/
def insert (t : Table ρ) (r : ρ) : Option (Table ρ) :=
  if h : key r ∈ t.rows.map key then none
  else some ⟨t.rows ++ [r], by
    rw [List.map_append, List.map_singleton]
    exact t.nodup.append (List.nodup_singleton _) (by simpa using h)⟩

@[simp] theorem get_empty (k : κ) : (empty : Table ρ).get k = none := rfl

theorem get_eq_some {t : Table ρ} {k : κ} {r : ρ} :
    t.get k = some r ↔ r ∈ t.rows ∧ key r = k := by
  constructor
  · intro h
    exact ⟨List.mem_of_find?_eq_some h, by simpa using List.find?_some h⟩
  · rintro ⟨hr, rfl⟩
    cases hf : t.get (key r) with
    | none => simpa using List.find?_eq_none.mp hf r hr
    | some x =>
      have hx : key x = key r := by simpa using List.find?_some hf
      rw [t.key_inj (List.mem_of_find?_eq_some hf) hr hx]

theorem get_eq_none {t : Table ρ} {k : κ} : t.get k = none ↔ ∀ r ∈ t.rows, key r ≠ k := by
  simp [get, List.find?_eq_none]

theorem mem_of_get {t : Table ρ} {k : κ} {r : ρ} (h : t.get k = some r) : r ∈ t.rows :=
  (get_eq_some.mp h).1

theorem key_of_get {t : Table ρ} {k : κ} {r : ρ} (h : t.get k = some r) : key r = k :=
  (get_eq_some.mp h).2

theorem get_of_mem {t : Table ρ} {r : ρ} (h : r ∈ t.rows) : t.get (key r) = some r :=
  get_eq_some.mpr ⟨h, rfl⟩

theorem get_update (t : Table ρ) (r : ρ) (k : κ) :
    (t.update r).get k = if k = key r then (t.get k).map fun _ => r else t.get k := by
  have hf : ∀ rows : List ρ,
      (rows.map fun x => if key x = key r then r else x).find? (fun x => key x = k) =
        if k = key r then (rows.find? fun x => key x = k).map fun _ => r
        else rows.find? fun x => key x = k := by
    intro rows
    induction rows with
    | nil => simp
    | cons x rows ih =>
      simp only [List.map_cons, List.find?_cons, ih]
      by_cases hk : k = key r
      · subst hk
        by_cases hx : key x = key r <;> simp [hx]
      · by_cases hx : key x = key r
        · have hrk : key r ≠ k := fun h => hk h.symm
          simp [hx, hk, hrk]
        · simp [hx, hk]
  exact hf t.rows

theorem get_update_self {t : Table ρ} {r x : ρ} (h : t.get (key r) = some x) :
    (t.update r).get (key r) = some r := by
  rw [get_update, if_pos rfl, h]
  rfl

theorem get_update_of_get {t : Table ρ} {r x : ρ} {k : κ} (hk : key r = k)
    (h : t.get k = some x) : (t.update r).get k = some r := by
  subst hk
  exact get_update_self h

theorem get_update_ne (t : Table ρ) {r : ρ} {k : κ} (h : k ≠ key r) :
    (t.update r).get k = t.get k := by
  rw [get_update, if_neg h]

/-- An update adds no key and removes none. -/
theorem isSome_get_update (t : Table ρ) (r : ρ) (k : κ) :
    ((t.update r).get k).isSome = (t.get k).isSome := by
  rw [get_update]
  split
  next => exact Option.isSome_map
  next => rfl

/-- Reading one column of every row after an update of one row. -/
theorem map_get_update {β : Type*} (f : ρ → β) {t : Table ρ} {r x : ρ} {k : κ}
    (hk : key r = k) (h : t.get k = some x) :
    (fun j => ((t.update r).get j).map f) =
      Function.update (fun j => (t.get j).map f) k (some (f r)) := by
  funext j
  by_cases hj : j = k
  · subst hj
    rw [get_update_of_get hk h, Function.update_self, Option.map_some]
  · rw [get_update_ne t (hk ▸ hj), Function.update_of_ne hj]

theorem update_eq_self {t : Table ρ} {r : ρ} (h : t.get (key r) = some r) : t.update r = t := by
  apply ext
  conv_rhs => rw [← List.map_id t.rows]
  refine List.map_congr_left fun x hx => ?_
  split
  next hk => exact t.key_inj (mem_of_get h) hx hk.symm
  next => rfl

/-- The second of two updates under one key is the one that stays. -/
theorem update_update (t : Table ρ) {r r' : ρ} (h : key r = key r') :
    (t.update r).update r' = t.update r' := by
  apply ext
  simp only [update, List.map_map]
  refine List.map_congr_left fun x _ => ?_
  simp only [Function.comp_apply]
  by_cases hx : key x = key r
  · rw [if_pos hx, if_pos h, if_pos (hx.trans h)]
  · rw [if_neg hx]

theorem update_comm (t : Table ρ) {r r' : ρ} (h : key r ≠ key r') :
    (t.update r).update r' = (t.update r').update r := by
  ext1
  simp only [update, List.map_map]
  refine List.map_congr_left fun x _ => ?_
  simp only [Function.comp_apply]
  by_cases hr : key x = key r
  · have hr' : key x ≠ key r' := fun heq => h (hr.symm.trans heq)
    rw [if_pos hr, if_neg h, if_neg hr', if_pos hr]
  · rw [if_neg hr]
    by_cases hr' : key x = key r'
    · rw [if_pos hr', if_neg h.symm]
    · rw [if_neg hr', if_neg hr]

theorem mem_update {t : Table ρ} {r x : ρ} (h : x ∈ (t.update r).rows) :
    x = r ∨ x ∈ t.rows ∧ key x ≠ key r := by
  obtain ⟨y, hy, rfl⟩ := List.mem_map.mp h
  split
  next => exact .inl rfl
  next hk => exact .inr ⟨hy, hk⟩

/-- The row stored under a key, and the rows stored under other keys on both sides of it. -/
theorem split_of_get {t : Table ρ} {k : κ} {x : ρ} (h : t.get k = some x) :
    ∃ l₁ l₂, t.rows = l₁ ++ x :: l₂ ∧ (∀ y ∈ l₁, key y ≠ k) ∧ ∀ y ∈ l₂, key y ≠ k := by
  obtain ⟨hx, rfl⟩ := get_eq_some.mp h
  obtain ⟨l₁, l₂, hrows⟩ := List.append_of_mem hx
  have hnd := t.nodup
  rw [hrows, List.map_append, List.map_cons, List.nodup_append] at hnd
  obtain ⟨-, h₂, hdisj⟩ := hnd
  refine ⟨l₁, l₂, hrows, fun y hy => ?_, fun y hy hyx => ?_⟩
  · exact hdisj (key y) (List.mem_map_of_mem hy) (key x) List.mem_cons_self
  · exact (List.nodup_cons.mp h₂).1 (hyx ▸ List.mem_map_of_mem hy)

/-- An update replaces one row in its place. -/
theorem rows_update {t : Table ρ} {r x : ρ} (h : t.get (key r) = some x) :
    ∃ l₁ l₂, t.rows = l₁ ++ x :: l₂ ∧ (t.update r).rows = l₁ ++ r :: l₂ := by
  obtain ⟨l₁, l₂, hrows, h₁, h₂⟩ := split_of_get h
  have hleft : ∀ y ∈ l₁, (if key y = key r then r else y) = y := fun y hy => if_neg (h₁ y hy)
  have hright : ∀ y ∈ l₂, (if key y = key r then r else y) = y := fun y hy => if_neg (h₂ y hy)
  refine ⟨l₁, l₂, hrows, ?_⟩
  have hr : (t.update r).rows = t.rows.map fun y => if key y = key r then r else y := rfl
  rw [hr, hrows, List.map_append, List.map_cons, if_pos (key_of_get h),
    List.map_congr_left hleft, List.map_congr_left hright, List.map_id', List.map_id']

/-- Deleting under a key removes the one row stored there. -/
theorem perm_deleteWhere {t : Table ρ} {k : κ} {x : ρ} (h : t.get k = some x) :
    (x :: (t.deleteWhere fun r => key r = k).rows).Perm t.rows := by
  obtain ⟨l₁, l₂, hrows, h₁, h₂⟩ := split_of_get h
  have hleft : l₁.filter (fun r => !decide (key r = k)) = l₁ :=
    List.filter_eq_self.mpr fun y hy => by simp [h₁ y hy]
  have hright : l₂.filter (fun r => !decide (key r = k)) = l₂ :=
    List.filter_eq_self.mpr fun y hy => by simp [h₂ y hy]
  have hdel : (t.deleteWhere fun r => key r = k).rows = l₁ ++ l₂ := by
    have hr : (t.deleteWhere fun r => key r = k).rows =
        t.rows.filter fun r => !decide (key r = k) := rfl
    rw [hr, hrows, List.filter_append, List.filter_cons, hleft, hright]
    simp [key_of_get h]
  rw [hdel, hrows]
  exact List.perm_middle.symm

/-- Collecting a partial column after an update: what the new row has comes in, what the old one
had goes out. -/
theorem filterMap_update_perm {β : Type*} (f : ρ → Option β) {t : Table ρ} {r x : ρ}
    (h : t.get (key r) = some x) :
    ((f x).toList ++ (t.update r).rows.filterMap f).Perm
      ((f r).toList ++ t.rows.filterMap f) := by
  obtain ⟨l₁, l₂, hrows, hupd⟩ := rows_update h
  have hcons : ∀ (y : ρ) (l : List ρ),
      (y :: l).filterMap f = (f y).toList ++ l.filterMap f := by
    intro y l
    cases hy : f y <;> simp [hy]
  rw [hrows, hupd, List.filterMap_append, List.filterMap_append, hcons, hcons]
  refine (List.perm_append_comm_assoc ..).trans ?_
  refine List.Perm.trans ?_ (List.perm_append_comm_assoc ..)
  exact (List.perm_append_comm_assoc ..).append_left _

/-- Counting rows after an update: the new row comes in, the old one goes out. -/
theorem countP_update (p : ρ → Bool) {t : Table ρ} {r x : ρ} (h : t.get (key r) = some x) :
    (t.update r).rows.countP p + (p x).toNat = t.rows.countP p + (p r).toNat := by
  obtain ⟨l₁, l₂, hrows, hupd⟩ := rows_update h
  have hcons : ∀ (y : ρ) (l : List ρ), (y :: l).countP p = l.countP p + (p y).toNat := by
    intro y l
    cases hy : p y <;> simp [hy]
  rw [hrows, hupd, List.countP_append, List.countP_append, hcons, hcons]
  omega

theorem insert_eq_some {t u : Table ρ} {r : ρ} :
    t.insert r = some u ↔ t.get (key r) = none ∧ u.rows = t.rows ++ [r] := by
  unfold insert
  split
  next h =>
    obtain ⟨x, hx, hk⟩ := List.mem_map.mp h
    simp only [reduceCtorEq, false_iff, not_and]
    intro hn
    exact absurd hk (get_eq_none.mp hn x hx)
  next h =>
    have hn : t.get (key r) = none :=
      get_eq_none.mpr fun x hx hk => h (List.mem_map.mpr ⟨x, hx, hk⟩)
    simp only [Option.some.injEq, hn, true_and]
    exact ⟨fun hu => hu ▸ rfl, fun hu => ext hu.symm⟩

theorem countP_insert (p : ρ → Bool) {t u : Table ρ} {r : ρ} (h : t.insert r = some u) :
    u.rows.countP p = t.rows.countP p + (p r).toNat := by
  rw [(insert_eq_some.mp h).2, List.countP_append]
  cases hr : p r <;> simp [hr]

theorem insert_eq_none {t : Table ρ} {r : ρ} :
    t.insert r = none ↔ ∃ x, t.get (key r) = some x := by
  have hk : key r ∈ t.rows.map key ↔ ∃ x, t.get (key r) = some x := by
    simp only [List.mem_map, get_eq_some]
  unfold insert
  split
  next h => simpa using hk.mp h
  next h => simpa using fun x hx => h (hk.mpr ⟨x, hx⟩)

theorem get_insert {t u : Table ρ} {r : ρ} (h : t.insert r = some u) (k : κ) :
    u.get k = if k = key r then some r else t.get k := by
  obtain ⟨hn, hu⟩ := insert_eq_some.mp h
  have hf : u.get k = (t.get k).or (if key r = k then some r else none) := by
    simp only [get, hu, List.find?_append, List.find?_cons, List.find?_nil]
    by_cases hk : key r = k <;> simp [hk]
  rw [hf]
  by_cases hk : k = key r
  · subst hk
    simp [hn]
  · simp [hk, Ne.symm hk]

theorem get_insert_self {t u : Table ρ} {r : ρ} (h : t.insert r = some u) :
    u.get (key r) = some r := by
  simp [get_insert h]

theorem get_insert_of_get {t u : Table ρ} {r x : ρ} {k : κ} (h : t.insert r = some u)
    (hx : t.get k = some x) : u.get k = some x := by
  have hk : k ≠ key r := by
    rintro rfl
    simp [(insert_eq_some.mp h).1] at hx
  rw [get_insert h, if_neg hk, hx]

theorem get_deleteWhere (t : Table ρ) (p : ρ → Bool) (k : κ) :
    (t.deleteWhere p).get k = (t.get k).filter fun r => !p r := by
  cases hg : t.get k with
  | none =>
    refine get_eq_none.mpr fun r hr => ?_
    exact get_eq_none.mp hg r (List.mem_of_mem_filter hr)
  | some r =>
    obtain ⟨hr, rfl⟩ := get_eq_some.mp hg
    by_cases hp : p r = true
    · simp only [Option.filter, hp, Bool.not_true, Bool.false_eq_true, if_false]
      refine get_eq_none.mpr fun x hx hk => ?_
      obtain ⟨hx, hpx⟩ := List.mem_filter.mp hx
      rw [t.key_inj hx hr hk, hp] at hpx
      exact absurd hpx (by simp)
    · simp only [Option.filter, hp, Bool.not_false, if_true]
      exact get_of_mem (List.mem_filter.mpr ⟨hr, by simp [hp]⟩)

/-- Looking a key up among the selected rows. -/
theorem find?_select (t : Table ρ) (p : ρ → Bool) (k : κ) :
    ((t.select p).find? fun r => key r = k) = (t.get k).filter p := by
  have h := t.get_deleteWhere (fun r => !p r) k
  simp only [get, deleteWhere, Bool.not_not] at h
  exact h

/-- An update that keeps what the filter reads replaces the row where it was selected. -/
theorem select_update {p : ρ → Bool} {t : Table ρ} {r x : ρ} (h : t.get (key r) = some x)
    (hp : p r = p x) :
    (t.update r).select p = (t.select p).map fun y => if key y = key r then r else y := by
  simp only [select, update, List.filter_map]
  refine congrArg _ (List.filter_congr fun y hy => ?_)
  simp only [Function.comp_apply]
  split
  next hk => rw [hp, t.key_inj (mem_of_get h) hy ((key_of_get h).trans hk.symm)]
  next => rfl

theorem get_deleteWhere_ne (t : Table ρ) {k k' : κ} (h : k' ≠ k) :
    (t.deleteWhere fun r => key r = k).get k' = t.get k' := by
  rw [get_deleteWhere]
  cases hg : t.get k' with
  | none => rfl
  | some r =>
    have hr : key r ≠ k := by
      rw [key_of_get hg]
      exact h
    simp [Option.filter, hr]

/-- A table with fewer rows than there are keys leaves one free. -/
theorem exists_get_eq_none (t : Table ρ) {n : ℕ} {f : Fin n → κ} (hf : Function.Injective f)
    (h : t.rows.length < n) : ∃ k, t.get k = none := by
  have hcard : (t.rows.map key).toFinset.card < (Finset.univ.image f).card := by
    rw [Finset.card_image_of_injective _ hf, Finset.card_univ, Fintype.card_fin]
    refine Nat.lt_of_le_of_lt (List.toFinset_card_le _) ?_
    rwa [List.length_map]
  obtain ⟨k, -, hk⟩ := Finset.exists_mem_notMem_of_card_lt_card hcard
  refine ⟨k, get_eq_none.mpr fun r hr heq => hk ?_⟩
  exact List.mem_toFinset.mpr (List.mem_map.mpr ⟨r, hr, heq⟩)

/-- A row that goes anyway can be overwritten before. -/
theorem deleteWhere_update (t : Table ρ) {p : ρ → Bool} {r : ρ}
    (h : ∀ x, key x = key r → p x = true) : (t.update r).deleteWhere p = t.deleteWhere p := by
  ext1
  simp only [update, deleteWhere]
  induction t.rows with
  | nil => rfl
  | cons x rows ih =>
    rw [List.map_cons]
    by_cases hk : key x = key r
    · rw [if_pos hk, List.filter_cons_of_neg (by simp [h r rfl]),
        List.filter_cons_of_neg (by simp [h x hk]), ih]
    · rw [if_neg hk]
      by_cases hp : p x = true
      · rw [List.filter_cons_of_neg (by simp [hp]), List.filter_cons_of_neg (by simp [hp]), ih]
      · rw [List.filter_cons_of_pos (by simpa using hp), List.filter_cons_of_pos (by simpa using hp),
          ih]

/-- An inserted row that goes again. -/
theorem deleteWhere_insert {t u : Table ρ} {p : ρ → Bool} {r : ρ} (h : t.insert r = some u)
    (hr : p r = true) (hp : ∀ x ∈ t.rows, p x = false) : u.deleteWhere p = t := by
  ext1
  show u.rows.filter (fun x => !p x) = t.rows
  rw [(insert_eq_some.mp h).2, List.filter_append,
    List.filter_eq_self.mpr fun x hx => by simp [hp x hx], List.filter_cons_of_neg (by simp [hr]),
    List.filter_nil, List.append_nil]

def insertAll (t : Table ρ) : List ρ → Option (Table ρ)
  | [] => some t
  | r :: rs => (t.insert r).bind fun u => u.insertAll rs

theorem rows_insertAll {t u : Table ρ} {rs : List ρ} (h : t.insertAll rs = some u) :
    u.rows = t.rows ++ rs := by
  induction rs generalizing t with
  | nil =>
    obtain rfl : t = u := Option.some.inj h
    rw [List.append_nil]
  | cons r rs ih =>
    obtain ⟨v, hv, h⟩ := Option.bind_eq_some_iff.mp h
    rw [ih h, (insert_eq_some.mp hv).2, List.append_assoc, List.singleton_append]

/-- Several inserts need keys that are not taken. -/
theorem get_eq_none_of_insertAll {t u : Table ρ} {rs : List ρ} (h : t.insertAll rs = some u)
    {r : ρ} (hr : r ∈ rs) : t.get (key r) = none := by
  have hnd := u.nodup
  rw [rows_insertAll h, List.map_append, List.nodup_append] at hnd
  refine get_eq_none.mpr fun x hx hk => ?_
  exact hnd.2.2 (key x) (List.mem_map_of_mem hx) (key r) (List.mem_map_of_mem hr) hk

/-- Inserting in two goes. -/
theorem insertAll_append {t u : Table ρ} {rs rs' : List ρ} (h : t.insertAll rs = some u) :
    t.insertAll (rs ++ rs') = u.insertAll rs' := by
  induction rs generalizing t with
  | nil => rw [List.nil_append, ← Option.some.inj h]
  | cons r rs ih =>
    obtain ⟨v, hv, h⟩ := Option.bind_eq_some_iff.mp h
    rw [List.cons_append, insertAll, hv, Option.bind_some, ih h]

theorem isSome_get_foldl_update (t : Table ρ) (rs : List ρ) (k : κ) :
    ((rs.foldl update t).get k).isSome = (t.get k).isSome := by
  induction rs generalizing t with
  | nil => rfl
  | cons r rs ih => exact (ih _).trans (isSome_get_update ..)

theorem get_foldl_update_of_ne {t : Table ρ} {rs : List ρ} {k : κ} (h : ∀ r ∈ rs, key r ≠ k) :
    (rs.foldl update t).get k = t.get k := by
  induction rs generalizing t with
  | nil => rfl
  | cons r rs ih =>
    have hr : k ≠ key r := (h r List.mem_cons_self).symm
    have hrs := ih (t := t.update r) fun x hx => h x (List.mem_cons_of_mem _ hx)
    rw [List.foldl_cons, hrs, get_update_ne t hr]

theorem get_foldl_update_of_mem {t : Table ρ} {rs : List ρ} {r : ρ}
    (hnd : (rs.map key).Nodup) (hr : r ∈ rs) (ht : (t.get (key r)).isSome) :
    (rs.foldl update t).get (key r) = some r := by
  induction rs generalizing t with
  | nil => cases hr
  | cons x rs ih =>
    rw [List.map_cons, List.nodup_cons] at hnd
    rw [List.foldl_cons]
    rcases List.mem_cons.mp hr with rfl | hr
    · have hne : ∀ y ∈ rs, key y ≠ key r := fun y hy heq =>
        hnd.1 (heq ▸ List.mem_map_of_mem hy)
      obtain ⟨y, hy⟩ := Option.isSome_iff_exists.mp ht
      rw [get_foldl_update_of_ne hne, get_update_self hy]
    · exact ih hnd.2 hr ((isSome_get_update ..).trans ht)

/-- A row of the result was written last under its key, or was there before. -/
theorem mem_foldl_update {t : Table ρ} {rs : List ρ} {x : ρ} (hnd : (rs.map key).Nodup)
    (hx : x ∈ (rs.foldl update t).rows) :
    x ∈ rs ∨ x ∈ t.rows ∧ ∀ r ∈ rs, key r ≠ key x := by
  have hget := get_of_mem hx
  by_cases h : ∃ r ∈ rs, key r = key x
  · obtain ⟨r, hr, hk⟩ := h
    have ht : (t.get (key r)).isSome := by
      rw [hk, ← isSome_get_foldl_update t rs, hget]
      rfl
    have hlast := get_foldl_update_of_mem hnd hr ht
    rw [hk, hget] at hlast
    exact .inl (Option.some.inj hlast ▸ hr)
  · have hne : ∀ r ∈ rs, key r ≠ key x := fun r hr hk => h ⟨r, hr, hk⟩
    rw [get_foldl_update_of_ne hne] at hget
    exact .inr ⟨mem_of_get hget, hne⟩

/-- A column that the new rows share with the rows they overwrite does not change. -/
theorem map_foldl_update {β : Type*} (f : ρ → β) {t : Table ρ} {rs : List ρ}
    (h : ∀ r ∈ rs, ∃ x, t.get (key r) = some x ∧ f x = f r) :
    (rs.foldl update t).rows.map f = t.rows.map f := by
  induction rs generalizing t with
  | nil => rfl
  | cons r rs ih =>
    obtain ⟨x, hx, hfx⟩ := h r List.mem_cons_self
    have hcol : (t.update r).rows.map f = t.rows.map f := by
      obtain ⟨l₁, l₂, hrows, hupd⟩ := rows_update hx
      rw [hrows, hupd, List.map_append, List.map_append, List.map_cons, List.map_cons, hfx]
    rw [List.foldl_cons, ih fun r' hr' => ?_, hcol]
    obtain ⟨x', hx', hfx'⟩ := h r' (List.mem_cons_of_mem _ hr')
    by_cases hk : key r' = key r
    · rw [hk, hx] at hx'
      obtain rfl := Option.some.inj hx'
      exact ⟨r, hk ▸ get_update_self hx, hfx.symm.trans hfx'⟩
    · exact ⟨x', (get_update_ne t hk).trans hx', hfx'⟩

/-- The rows of several overwrites, one by one. -/
theorem rows_foldl_update {t : Table ρ} {rs : List ρ} (hnd : (rs.map key).Nodup) :
    (rs.foldl update t).rows =
      t.rows.map fun x => (rs.find? fun r => key r = key x).getD x := by
  induction rs generalizing t with
  | nil => simp
  | cons r rs ih =>
    obtain ⟨hr, hnd⟩ := List.nodup_cons.mp hnd
    rw [List.foldl_cons, ih hnd]
    simp only [update, List.map_map]
    refine List.map_congr_left fun x _ => ?_
    simp only [Function.comp_apply]
    by_cases hk : key x = key r
    · have hnone : rs.find? (fun y => key y = key r) = none := by
        rw [List.find?_eq_none]
        intro y hy heq
        exact hr (of_decide_eq_true heq ▸ List.mem_map_of_mem hy)
      rw [if_pos hk, hnone, List.find?_cons_of_pos (by simpa using hk.symm)]
      rfl
    · rw [if_neg hk, List.find?_cons_of_neg (by simpa using fun h => hk h.symm)]

theorem foldl_update_comm (t : Table ρ) {rs : List ρ} {r : ρ} (h : ∀ x ∈ rs, key x ≠ key r) :
    rs.foldl update (t.update r) = (rs.foldl update t).update r := by
  induction rs generalizing t with
  | nil => rfl
  | cons x rs ih =>
    rw [List.forall_mem_cons] at h
    rw [List.foldl_cons, List.foldl_cons, update_comm t h.1.symm, ih _ h.2]

/-- One of the overwriting rows changes: the last overwrite wins. -/
theorem foldl_update_modify (t : Table ρ) {rs : List ρ} {r : ρ} {f : ρ → ρ}
    (hnd : (rs.map key).Nodup) (hr : r ∈ rs) (hf : ∀ x, key (f x) = key x) :
    (rs.map fun x => if key x = key r then f x else x).foldl update t =
      (rs.foldl update t).update (f r) := by
  induction rs generalizing t with
  | nil => cases hr
  | cons x rs ih =>
    obtain ⟨hx, hnd⟩ := List.nodup_cons.mp hnd
    rw [List.map_cons, List.foldl_cons, List.foldl_cons]
    by_cases hk : key x = key r
    · have hrs : ∀ y ∈ rs, key y ≠ key r := fun y hy heq =>
        hx (hk ▸ heq ▸ List.mem_map_of_mem hy)
      obtain rfl : x = r := by
        rcases List.mem_cons.mp hr with rfl | hr
        · rfl
        · exact (hrs r hr rfl).elim
      have hsame : (rs.map fun y => if key y = key x then f y else y) = rs :=
        (List.map_congr_left fun y hy => if_neg (hrs y hy)).trans (List.map_id rs)
      rw [hsame, if_pos rfl, foldl_update_comm t fun y hy => (hf x).symm ▸ hrs y hy,
        foldl_update_comm t hrs, update_update _ (hf x).symm]
    · have hmem : r ∈ rs := by
        rcases List.mem_cons.mp hr with rfl | hr
        · exact (hk rfl).elim
        · exact hr
      rw [if_neg hk, ih _ hnd hmem]

end Table
