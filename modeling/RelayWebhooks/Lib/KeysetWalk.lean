import Mathlib.Data.List.Sort

/-! Walks over a keyed table, page by page, while the table changes between the pages. -/
namespace RelayWebhooks

namespace Keyset

variable {ρ κ : Type} [LinearOrder κ] (key : ρ → κ)

/-- A key that comes after the cursor; at the start all keys do. -/
def Beyond (after : Option κ) (k : κ) : Prop := ∀ a ∈ after, a < k

instance (after : Option κ) (k : κ) : Decidable (Beyond after k) :=
  inferInstanceAs (Decidable (∀ a ∈ after, a < k))

@[simp] theorem beyond_none (k : κ) : Beyond none k := by simp [Beyond]

@[simp] theorem beyond_some {a k : κ} : Beyond (some a) k ↔ a < k := by simp [Beyond]

/-- The rows beyond the cursor, in the order of their keys. -/
def rowsBeyond (after : Option κ) (table : List ρ) : List ρ :=
  (table.filter fun r => Beyond after (key r)).mergeSort fun r s => key r ≤ key s

/-- The pages read from successive tables, each with whether more rows follow. A page starts after
the last row of the one before. -/
def walk (limit : ℕ) : Option κ → List (List ρ) → List (List ρ × Bool)
  | _, [] => []
  | after, table :: tables =>
    let rows := rowsBeyond key after table
    if limit < rows.length then
      (rows.take limit, true) :: walk limit ((rows.take limit).getLast?.map key) tables
    else [(rows.take limit, false)]

/-- The rows shown by all pages. -/
def shown (pages : List (List ρ × Bool)) : List ρ := pages.flatMap Prod.fst

/-- The walk came to a page that no rows follow. -/
def Finished (pages : List (List ρ × Bool)) : Prop := ∃ p ∈ pages.getLast?, p.2 = false

variable {key}

theorem mem_rowsBeyond {after : Option κ} {table : List ρ} {r : ρ} :
    r ∈ rowsBeyond key after table ↔ r ∈ table ∧ Beyond after (key r) := by
  simp [rowsBeyond]

theorem length_rowsBeyond (after : Option κ) (table : List ρ) :
    (rowsBeyond key after table).length = table.countP fun r => Beyond after (key r) := by
  rw [rowsBeyond, List.length_mergeSort, List.countP_eq_length_filter]

/-- Distinct keys leave no ties in the order. -/
theorem rowsBeyond_pairwise {table : List ρ} (after : Option κ) (h : (table.map key).Nodup) :
    (rowsBeyond key after table).Pairwise fun r s => key r < key s := by
  have hle : (rowsBeyond key after table).Pairwise fun r s => key r ≤ key s := by
    have htrans : ∀ a b c : ρ, decide (key a ≤ key b) = true → decide (key b ≤ key c) = true →
        decide (key a ≤ key c) = true := by
      simp only [decide_eq_true_eq]
      exact fun a b c => le_trans
    have htotal : ∀ a b : ρ, (decide (key a ≤ key b) || decide (key b ≤ key a)) = true := by
      simpa using fun a b => le_total (key a) (key b)
    have hsort := List.pairwise_mergeSort htrans htotal (table.filter fun r => Beyond after (key r))
    simpa only [rowsBeyond, decide_eq_true_eq] using hsort
  have hne : (rowsBeyond key after table).Pairwise fun r s => key r ≠ key s := by
    rw [← List.pairwise_map (f := key) (R := (· ≠ ·))]
    refine ((List.mergeSort_perm _ _).map key).nodup_iff.mpr ?_
    exact h.sublist (List.filter_sublist.map key)
  exact (hle.and hne).imp fun h => lt_of_le_of_ne h.1 h.2

/-- A page that does not show all rows: its last row has the greatest key on it, and the rows left
out have greater ones. -/
theorem exists_last {rows : List ρ} {limit : ℕ} (h : rows.Pairwise fun r s => key r < key s)
    (hpos : 0 < limit) (hlt : limit < rows.length) :
    ∃ last ∈ rows, (rows.take limit).getLast? = some last ∧
      (∀ r ∈ rows.take limit, key r ≤ key last) ∧ ∀ r ∈ rows.drop limit, key last < key r := by
  have hne : rows.take limit ≠ [] := by
    rw [ne_eq, ← List.length_eq_zero_iff, List.length_take]
    omega
  have hlast := List.dropLast_append_getLast hne
  generalize (rows.take limit).getLast hne = last at hlast
  have hmem : last ∈ rows.take limit := by
    rw [← hlast]
    simp
  rw [← List.take_append_drop limit rows] at h
  obtain ⟨htake, -, hcross⟩ := List.pairwise_append.mp h
  refine ⟨last, List.mem_of_mem_take hmem, ?_, ?_, fun r hr => hcross last hmem r hr⟩
  · rw [← hlast, List.getLast?_concat]
  · intro r hr
    rw [← hlast] at htake hr
    rcases List.mem_append.mp hr with hr | hr
    · exact ((List.pairwise_append.mp htake).2.2 r hr last (by simp)).le
    · rw [List.mem_singleton.mp hr]

theorem finished_cons {rows : List ρ} {pages : List (List ρ × Bool)} :
    Finished ((rows, true) :: pages) ↔ Finished pages := by
  cases pages with
  | nil => simp [Finished]
  | cons p ps => simp [Finished, List.getLast?_cons_cons]

/-- The pages for `n` rows; there is one even for none. -/
def pageCount (n limit : ℕ) : ℕ := max 1 ((n + limit - 1) / limit)

theorem pageCount_of_le {n limit : ℕ} (hpos : 0 < limit) (h : n ≤ limit) : pageCount n limit = 1 := by
  have hlt : (n + limit - 1) / limit < 2 := Nat.div_lt_of_lt_mul (by omega)
  unfold pageCount
  omega

theorem pageCount_add {n limit : ℕ} (hpos : 0 < limit) (h : 0 < n) :
    pageCount (n + limit) limit = pageCount n limit + 1 := by
  have hdiv : (n + limit + limit - 1) / limit = (n + limit - 1) / limit + 1 := by
    rw [show n + limit + limit - 1 = n + limit - 1 + limit by omega, Nat.add_div_right _ hpos]
  have hone : 1 ≤ (n + limit - 1) / limit := Nat.div_pos (by omega) hpos
  unfold pageCount
  omega

section Walk
variable {limit : ℕ} {after : Option κ} {tables : List (List ρ)}

theorem walk_cons_of_le {table : List ρ} (h : (rowsBeyond key after table).length ≤ limit) :
    walk key limit after (table :: tables) = [(rowsBeyond key after table, false)] := by
  rw [walk, if_neg (by omega), List.take_of_length_le h]

theorem walk_cons_of_lt {table : List ρ} {last : ρ}
    (h : limit < (rowsBeyond key after table).length)
    (hlast : ((rowsBeyond key after table).take limit).getLast? = some last) :
    walk key limit after (table :: tables) =
      ((rowsBeyond key after table).take limit, true) ::
        walk key limit (some (key last)) tables := by
  rw [walk, if_pos h, hlast, Option.map_some]

/-- The page after a full one has the rows that it left out. -/
theorem length_rowsBeyond_next {table : List ρ} {last : ρ} (hpos : 0 < limit)
    (hkey : (table.map key).Nodup)
    (hlt : limit < (rowsBeyond key after table).length)
    (hlast : ((rowsBeyond key after table).take limit).getLast? = some last) :
    (rowsBeyond key (some (key last)) table).length + limit =
      (rowsBeyond key after table).length := by
  obtain ⟨last', hmem, hlast', hmax, hrest⟩ := exists_last (rowsBeyond_pairwise after hkey) hpos hlt
  obtain rfl : last' = last := Option.some.inj (hlast'.symm.trans hlast)
  have hperm : (rowsBeyond key after table).Perm (table.filter fun r => Beyond after (key r)) :=
    List.mergeSort_perm _ _
  have hfilter : table.countP (fun r => Beyond (some (key last')) (key r)) =
      (table.filter fun r => Beyond after (key r)).countP fun r => key last' < key r := by
    rw [List.countP_filter]
    refine List.countP_congr fun r _ => ?_
    simp only [beyond_some, decide_eq_true_eq, Bool.and_eq_true]
    refine ⟨fun h => ⟨h, fun a ha => ?_⟩, And.left⟩
    exact ((mem_rowsBeyond.mp hmem).2 a ha).trans h
  have htake : ((rowsBeyond key after table).take limit).countP (fun r => key last' < key r) = 0 := by
    refine List.countP_eq_zero.mpr fun r hr => ?_
    simpa using hmax r hr
  have hdrop : ((rowsBeyond key after table).drop limit).countP (fun r => key last' < key r) =
      ((rowsBeyond key after table).drop limit).length := by
    refine List.countP_eq_length.mpr fun r hr => ?_
    simpa using hrest r hr
  rw [length_rowsBeyond, hfilter, ← hperm.countP_eq,
    ← List.take_append_drop limit (rowsBeyond key after table), List.countP_append, htake, hdrop,
    List.length_append, List.length_take, List.length_drop]
  omega

variable (hpos : 0 < limit) (hkeys : ∀ t ∈ tables, (t.map key).Nodup)
include hpos hkeys

/-- A page shows rows of its table beyond the cursor. -/
theorem mem_shown_walk {r : ρ} (h : r ∈ shown (walk key limit after tables)) :
    Beyond after (key r) ∧ ∃ t ∈ tables, r ∈ t := by
  induction tables generalizing after with
  | nil => simp [walk, shown] at h
  | cons table tables ih =>
    obtain ⟨hkey, hkeys⟩ := List.forall_mem_cons.mp hkeys
    rcases Nat.lt_or_ge limit (rowsBeyond key after table).length with hlt | hle
    · obtain ⟨last, hmem, hlast, -, -⟩ := exists_last (rowsBeyond_pairwise after hkey) hpos hlt
      rw [walk_cons_of_lt hlt hlast, shown, List.flatMap_cons, List.mem_append] at h
      rcases h with h | h
      · obtain ⟨htable, hbeyond⟩ := mem_rowsBeyond.mp (List.mem_of_mem_take h)
        exact ⟨hbeyond, table, List.mem_cons_self, htable⟩
      · obtain ⟨hbeyond, t, ht, hr⟩ := ih hkeys h
        refine ⟨fun a ha => ?_, t, List.mem_cons_of_mem _ ht, hr⟩
        exact ((mem_rowsBeyond.mp hmem).2 a ha).trans (beyond_some.mp hbeyond)
    · rw [walk_cons_of_le hle] at h
      simp only [shown, List.flatMap_cons, List.flatMap_nil, List.append_nil] at h
      obtain ⟨htable, hbeyond⟩ := mem_rowsBeyond.mp h
      exact ⟨hbeyond, table, List.mem_cons_self, htable⟩

/-- The rows shown have strictly increasing keys, across all pages. -/
theorem walk_pairwise :
    (shown (walk key limit after tables)).Pairwise fun r s => key r < key s := by
  induction tables generalizing after with
  | nil => simp [walk, shown]
  | cons table tables ih =>
    obtain ⟨hkey, hkeys⟩ := List.forall_mem_cons.mp hkeys
    have hpage : (rowsBeyond key after table).Pairwise fun r s => key r < key s :=
      rowsBeyond_pairwise after hkey
    rcases Nat.lt_or_ge limit (rowsBeyond key after table).length with hlt | hle
    · obtain ⟨last, -, hlast, hmax, -⟩ := exists_last hpage hpos hlt
      rw [walk_cons_of_lt hlt hlast, shown, List.flatMap_cons]
      refine List.pairwise_append.mpr ⟨hpage.sublist (List.take_sublist _ _), ih hkeys, ?_⟩
      intro r hr s hs
      have hbeyond := (mem_shown_walk hpos hkeys hs).1
      exact (hmax r hr).trans_lt (beyond_some.mp hbeyond)
    · rw [walk_cons_of_le hle]
      simpa [shown] using hpage

/-- A finished walk misses no key that was in every table it read. -/
theorem walk_covers {k : κ} (hk : Beyond after k)
    (hfinished : Finished (walk key limit after tables))
    (hall : ∀ t ∈ tables.take (walk key limit after tables).length, ∃ r ∈ t, key r = k) :
    ∃ r ∈ shown (walk key limit after tables), key r = k := by
  induction tables generalizing after with
  | nil => simp [walk, Finished] at hfinished
  | cons table tables ih =>
    obtain ⟨hkey, hkeys⟩ := List.forall_mem_cons.mp hkeys
    have hpage : (rowsBeyond key after table).Pairwise fun r s => key r < key s :=
      rowsBeyond_pairwise after hkey
    rcases Nat.lt_or_ge limit (rowsBeyond key after table).length with hlt | hle
    · obtain ⟨last, -, hlast, -, hrest⟩ := exists_last hpage hpos hlt
      rw [walk_cons_of_lt hlt hlast] at hfinished hall ⊢
      rw [List.length_cons, List.take_succ_cons, List.forall_mem_cons] at hall
      obtain ⟨⟨r, hr, rfl⟩, hall⟩ := hall
      rw [finished_cons] at hfinished
      simp only [shown, List.flatMap_cons, List.mem_append]
      have hrow := mem_rowsBeyond.mpr ⟨hr, hk⟩
      rw [← List.take_append_drop limit (rowsBeyond key after table), List.mem_append] at hrow
      rcases hrow with hrow | hrow
      · exact ⟨r, .inl hrow, rfl⟩
      · obtain ⟨r', hr', heq⟩ := ih hkeys (beyond_some.mpr (hrest r hrow)) hfinished hall
        exact ⟨r', .inr hr', heq⟩
    · rw [walk_cons_of_le hle] at hall ⊢
      obtain ⟨r, hr, rfl⟩ := hall table (by simp)
      exact ⟨r, by simpa [shown] using mem_rowsBeyond.mpr ⟨hr, hk⟩, rfl⟩

/-- Over a table that does not change, a walk that may read enough pages finishes with as many as
the rows need. -/
theorem walk_length {table : List ρ} (hconst : ∀ t ∈ tables, t = table)
    (henough : pageCount (rowsBeyond key after table).length limit ≤ tables.length) :
    (walk key limit after tables).length = pageCount (rowsBeyond key after table).length limit ∧
      Finished (walk key limit after tables) := by
  induction tables generalizing after with
  | nil =>
    have hone : 1 ≤ pageCount (rowsBeyond key after table).length limit := le_max_left _ _
    simp only [List.length_nil] at henough
    omega
  | cons t tables ih =>
    obtain ⟨hkey, hkeys⟩ := List.forall_mem_cons.mp hkeys
    obtain ⟨rfl, hconst⟩ := List.forall_mem_cons.mp hconst
    rcases Nat.lt_or_ge limit (rowsBeyond key after t).length with hlt | hle
    · obtain ⟨last, -, hlast, -, -⟩ := exists_last (rowsBeyond_pairwise after hkey) hpos hlt
      have hnext := length_rowsBeyond_next hpos hkey hlt hlast
      have hcount := pageCount_add hpos
        (show 0 < (rowsBeyond key (some (key last)) t).length by omega)
      rw [hnext] at hcount
      rw [List.length_cons] at henough
      have hrest : pageCount (rowsBeyond key (some (key last)) t).length limit ≤ tables.length := by
        omega
      obtain ⟨hlength, hfinished⟩ := ih hkeys hconst hrest
      rw [walk_cons_of_lt hlt hlast, List.length_cons, finished_cons]
      exact ⟨by omega, hfinished⟩
    · rw [walk_cons_of_le hle, pageCount_of_le hpos hle]
      simp [Finished]

end Walk

end Keyset

end RelayWebhooks
