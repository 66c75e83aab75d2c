import RelayWebhooks.Lib.KeysetWalk
import RelayWebhooks.Repositories.Cursor
import RelayWebhooks.Repositories.Queries

/-! Walks over the lists of endpoints and of dead deliveries. -/
namespace RelayWebhooks
open Keyset (rowsBeyond Beyond)

/-- What a client does that follows `next_cursor` while `has_more`: one page for each of the
states that the pages see. -/
def keysetWalk {σ ρ : Type} (list : σ → Option PyText → Except Raised (Page ρ)) :
    Option PyText → List σ → Except Raised (List (Page ρ))
  | _, [] => .ok []
  | cursor, s :: states => do
    let page ← list s cursor
    if page.hasMore then return page :: (← keysetWalk list page.nextCursor states)
    else return [page]

/-- The rows returned by all pages. -/
def returnedRows {ρ : Type} (pages : List (Page ρ)) : List ρ := pages.flatMap Page.items

section
variable {σ ρ : Type} (createdAt : ρ → ℤ) (id : ρ → UUID)

/-- The rows the pages of a walk can see: `created_at` holds an instant and never changes, nor does
the id. -/
structure SteadyRows (tables : List (List ρ)) : Prop where
  instants : ∀ t ∈ tables, ∀ r ∈ t, datetimeMin ≤ createdAt r ∧ createdAt r ≤ datetimeMax
  fixed : ∀ t ∈ tables, ∀ t' ∈ tables, ∀ r ∈ t, ∀ r' ∈ t', id r = id r' → createdAt r = createdAt r'

/-- The last page read says that no more follow. -/
def FinishedWalk (pages : List (Page ρ)) : Prop := ∃ page ∈ pages.getLast?, page.hasMore = false

/-- No row is skipped or repeated by the pages of a walk over the tables. -/
structure ExactWalk (limit : ℤ) (tables : List (List ρ)) (pages : List (Page ρ)) : Prop where
  increasing : (returnedRows pages).Pairwise fun r s =>
    position (createdAt r) (id r) < position (createdAt s) (id s)
  noneTwice : ((returnedRows pages).map id).Nodup
  exactlyOnce : FinishedWalk pages → ∀ i,
    (∀ t ∈ tables.take pages.length, ∃ r ∈ t, id r = i) →
      (returnedRows pages).countP (fun r => id r = i) = 1
  hasMore_iff : ∀ page ∈ pages, page.hasMore = true ↔ page.nextCursor ≠ none
  pageCount : ∀ table, (∀ t ∈ tables, t = table) →
    Keyset.pageCount table.length limit.toNat ≤ tables.length →
      pages.length = Keyset.pageCount table.length limit.toNat ∧ FinishedWalk pages

/-- Whatever pages are read from the states, they show their rows exactly, and all of them can be
read if the store takes the limit. -/
def ReadsExactly (limit : ℤ) (list : σ → Option PyText → Except Raised (Page ρ))
    (rows : σ → List ρ) (states : List σ) : Prop :=
  (limit < bigintMax → ∃ pages, keysetWalk list none states = .ok pages) ∧
    ∀ pages, keysetWalk list none states = .ok pages →
      ExactWalk createdAt id limit (states.map rows) pages

/-- The key the pages are ordered by. -/
def rowPosition (r : ρ) : Position := position (createdAt r) (id r)

/-- A page as the walk over positions sees it. -/
def pageRows (p : Page ρ) : List ρ × Bool := (p.items, p.hasMore)

variable {createdAt id}

theorem position_injective {t t' : ℤ} {u u' : UUID} (h : position t u = position t' u') :
    t = t' ∧ u = u' := by
  have hpair : (t, u.toNat) = (t', u'.toNat) := toLex.injective h
  rw [Prod.mk.injEq] at hpair
  exact ⟨hpair.1, BitVec.eq_of_toNat_eq hpair.2⟩

theorem rowPosition_nodup {table : List ρ} (h : (table.map id).Nodup) :
    (table.map (rowPosition createdAt id)).Nodup := by
  refine List.Nodup.of_map (fun p => BitVec.ofNat 128 (ofLex p).2) ?_
  rw [List.map_map]
  have hid : (fun p : Position => BitVec.ofNat 128 (ofLex p).2) ∘ rowPosition createdAt id = id := by
    funext r
    simp [rowPosition, position]
  rw [hid]
  exact h

/-- Rows of one id have one position. -/
theorem SteadyRows.position_eq {tables : List (List ρ)} (h : SteadyRows createdAt id tables)
    {t t' : List ρ} (ht : t ∈ tables) (ht' : t' ∈ tables) {r r' : ρ} (hr : r ∈ t) (hr' : r' ∈ t')
    (heq : id r = id r') : rowPosition createdAt id r = rowPosition createdAt id r' := by
  rw [rowPosition, rowPosition, h.fixed t ht t' ht' r hr r' hr' heq, heq]

/-- Rows whose positions increase have different ids. -/
theorem SteadyRows.nodup_ids {tables : List (List ρ)} (h : SteadyRows createdAt id tables)
    {rs : List ρ}
    (hincreasing : rs.Pairwise fun r s => rowPosition createdAt id r < rowPosition createdAt id s)
    (hseen : ∀ r ∈ rs, ∃ t ∈ tables, r ∈ t) : (rs.map id).Nodup := by
  refine List.pairwise_map.mpr (hincreasing.imp_of_mem fun {r s} hr hs hlt heq => ?_)
  obtain ⟨t, ht, hrt⟩ := hseen r hr
  obtain ⟨t', ht', hst⟩ := hseen s hs
  exact hlt.ne (h.position_eq ht ht' hrt hst heq)

variable (createdAt id) in
/-- The cursor that continues after a row. -/
def rowCursor (r : ρ) : PyText := encodeCursor (createdAt r) (id r)

theorem rowsAfter_rowCursor (rows : List ρ) {after : ρ} (hlow : datetimeMin ≤ createdAt after)
    (hhigh : createdAt after ≤ datetimeMax) :
    rowsAfter createdAt id rows (some (⟨createdAt after, some 0⟩, id after)) =
      .ok (rows.filter fun r =>
        Beyond (some (rowPosition createdAt id after)) (rowPosition createdAt id r)) := by
  have htime : (⟨createdAt after, some 0⟩ : PyDatetime).timestamptz = some (createdAt after) := by
    simp [PyDatetime.timestamptz, hlow, hhigh]
  simp only [rowsAfter, htime, Keyset.beyond_some, rowPosition]

variable (createdAt id) in
/-- The page that shows the first of the rows. -/
def firstPage (rows : List ρ) (limit : ℤ) : Page ρ :=
  toPage createdAt id (rows.take (limit + 1).toNat) limit

theorem keysetPage_eq (asciiOf : ℕ → ℕ) {rows : List ρ} {after : Option ρ} {limit : ℤ}
    (hafter : ∀ r ∈ after, datetimeMin ≤ createdAt r ∧ createdAt r ≤ datetimeMax)
    (hlimit : 1 ≤ limit) :
    keysetPage createdAt id (stdlibReaders asciiOf) rows (after.map (rowCursor createdAt id)) limit =
      if limit < bigintMax then
        .ok (firstPage createdAt id
          (rowsBeyond (rowPosition createdAt id) (after.map (rowPosition createdAt id)) rows) limit)
      else .error .database := by
  have hrange : (0 ≤ limit + 1 ∧ limit + 1 ≤ bigintMax) ↔ limit < bigintMax := by
    unfold bigintMax
    omega
  have hread : ∀ matching : List ρ, (do
        let read ← limitRows (orderByPosition createdAt id matching) (limit + 1)
        return toPage createdAt id read limit) =
      if limit < bigintMax then
        Except.ok (firstPage createdAt id (orderByPosition createdAt id matching) limit)
      else .error .database := by
    intro matching
    unfold limitRows
    by_cases hbig : limit < bigintMax
    · rw [if_pos (hrange.mpr hbig), if_pos hbig]
      rfl
    · rw [if_neg (mt hrange.mp hbig), if_neg hbig]
      rfl
  unfold keysetPage
  cases after with
  | none =>
    have hall : rows.filter (fun r => Beyond none (rowPosition createdAt id r)) = rows := by simp
    simp only [Option.map_none, rowsBeyond, hall]
    exact hread rows
  | some r =>
    obtain ⟨hlow, hhigh⟩ := hafter r rfl
    have hdecode : decodeCursor (stdlibReaders asciiOf) (rowCursor createdAt id r) =
        .ok (⟨createdAt r, some 0⟩, id r) := decodeCursor_encodeCursor asciiOf (id r) hlow hhigh
    have hmapM : (some (rowCursor createdAt id r)).mapM (decodeCursor (stdlibReaders asciiOf)) =
        Except.ok (some (⟨createdAt r, some 0⟩, id r)) := by
      rw [Option.mapM_some, hdecode]
      rfl
    simp only [Option.map_some, hmapM]
    show (rowsAfter createdAt id rows _ >>= _) = _
    rw [rowsAfter_rowCursor rows hlow hhigh]
    exact hread _

section
variable {limit : ℤ} (createdAt id) (rows : List ρ) (hlimit : 1 ≤ limit)
include hlimit

theorem firstPage_hasMore :
    (firstPage createdAt id rows limit).hasMore = decide (limit.toNat < rows.length) := by
  simp only [firstPage, toPage, List.length_take]
  congr 1
  rw [eq_iff_iff]
  omega

theorem firstPage_items :
    (firstPage createdAt id rows limit).items = rows.take limit.toNat := by
  have hmin : min limit.toNat (limit + 1).toNat = limit.toNat := by omega
  simp only [firstPage, toPage, sliceTo]
  rw [if_neg (by omega), List.take_take, hmin]

theorem firstPage_nextCursor :
    (firstPage createdAt id rows limit).nextCursor =
      if limit.toNat < rows.length then
        (rows.take limit.toNat).getLast?.map (rowCursor createdAt id) else none := by
  have hmore := firstPage_hasMore createdAt id rows hlimit
  have hitems := firstPage_items createdAt id rows hlimit
  have hnext : (firstPage createdAt id rows limit).nextCursor =
      if (firstPage createdAt id rows limit).hasMore then
        (firstPage createdAt id rows limit).items.getLast?.map (rowCursor createdAt id)
      else none := rfl
  rw [hnext, hmore, hitems]
  simp only [decide_eq_true_eq]

end

variable (createdAt id) in
/-- A page that is not the last hands out the cursor of its last row. -/
theorem firstPage_cursor {limit : ℤ} {rows : List ρ} (hlimit : 1 ≤ limit)
    (hlt : limit.toNat < rows.length) :
    ∃ last ∈ rows, (rows.take limit.toNat).getLast? = some last ∧
      (firstPage createdAt id rows limit).nextCursor = some (rowCursor createdAt id last) := by
  have hne : rows.take limit.toNat ≠ [] := by
    rw [ne_eq, ← List.length_eq_zero_iff, List.length_take]
    omega
  obtain ⟨last, hlast⟩ : ∃ last, (rows.take limit.toNat).getLast? = some last :=
    ⟨_, List.getLast?_eq_some_getLast hne⟩
  refine ⟨last, List.mem_of_mem_take (List.mem_of_getLast? hlast), hlast, ?_⟩
  rw [firstPage_nextCursor createdAt id rows hlimit, if_pos hlt, hlast, Option.map_some]

section
variable {limit : ℤ} (hlimit : 1 ≤ limit) {list : σ → Option PyText → Except Raised (Page ρ)}
  {rows : σ → List ρ} {asciiOf : ℕ → ℕ}
  (hlist : ∀ s cursor, list s cursor =
    keysetPage createdAt id (stdlibReaders asciiOf) (rows s) cursor limit)
  {states : List σ}
include hlimit hlist

section
variable {s : σ} {after : Option ρ} {matching : List ρ}
  (hafter : ∀ r ∈ after, datetimeMin ≤ createdAt r ∧ createdAt r ≤ datetimeMax)
  (hmatching : rowsBeyond (rowPosition createdAt id) (after.map (rowPosition createdAt id))
    (rows s) = matching)
include hafter hmatching

/-- The walk reads its next page, and goes on from its last row if more follow. -/
theorem keysetWalk_cons :
    keysetWalk list (after.map (rowCursor createdAt id)) (s :: states) =
      if limit < bigintMax then
        if limit.toNat < matching.length then
          keysetWalk list (firstPage createdAt id matching limit).nextCursor states >>=
            fun rest => .ok (firstPage createdAt id matching limit :: rest)
        else .ok [firstPage createdAt id matching limit]
      else .error .database := by
  have hmore := firstPage_hasMore createdAt id matching hlimit
  rw [keysetWalk, hlist, keysetPage_eq asciiOf hafter hlimit, hmatching]
  split
  next =>
    show (if (firstPage createdAt id matching limit).hasMore then _ else _) = _
    rw [hmore]
    simp only [decide_eq_true_eq]
    split
    next => rfl
    next => rfl
  next => rfl

omit hlist hafter in
/-- The row the walk goes on from is one of the table. -/
theorem exists_last_page (hlt : limit.toNat < matching.length) :
    ∃ last ∈ rows s, (matching.take limit.toNat).getLast? = some last ∧
      (firstPage createdAt id matching limit).nextCursor =
        (some last).map (rowCursor createdAt id) := by
  obtain ⟨last, hmem, hlast, hcursor⟩ := firstPage_cursor createdAt id hlimit hlt
  rw [← hmatching] at hmem
  exact ⟨last, (Keyset.mem_rowsBeyond.mp hmem).1, hlast, hcursor⟩

end

variable
  (hinstants : ∀ s ∈ states, ∀ r ∈ rows s, datetimeMin ≤ createdAt r ∧ createdAt r ≤ datetimeMax)
include hinstants

/-- The pages are those of the walk over positions. -/
theorem keysetWalk_eq (after : Option ρ) {pages : List (Page ρ)}
    (hafter : ∀ r ∈ after, datetimeMin ≤ createdAt r ∧ createdAt r ≤ datetimeMax)
    (h : keysetWalk list (after.map (rowCursor createdAt id)) states = .ok pages) :
    pages.map pageRows =
        Keyset.walk (rowPosition createdAt id) limit.toNat
          (after.map (rowPosition createdAt id)) (states.map rows) ∧
      ∀ page ∈ pages, page.hasMore = true ↔ page.nextCursor ≠ none := by
  induction states generalizing after pages with
  | nil =>
    cases h
    simp [Keyset.walk]
  | cons s states ih =>
    obtain ⟨hs, hinstants⟩ := List.forall_mem_cons.mp hinstants
    rw [keysetWalk_cons hlimit hlist hafter rfl] at h
    generalize hmatching : rowsBeyond (rowPosition createdAt id)
      (after.map (rowPosition createdAt id)) (rows s) = matching at h
    have hmore := firstPage_hasMore createdAt id matching hlimit
    have hitems := firstPage_items createdAt id matching hlimit
    have hnext := firstPage_nextCursor createdAt id matching hlimit
    split at h
    next =>
      rw [List.map_cons]
      split at h
      next hlt =>
        obtain ⟨last, hrow, hlast, hcursor⟩ := exists_last_page hlimit hmatching hlt
        obtain ⟨rest, hrest, h⟩ := bind_ok h
        cases h
        rw [hcursor] at hrest
        obtain ⟨hwalk, hiff⟩ := ih hinstants (some last)
          (fun r hr => hs r (by cases hr; exact hrow)) hrest
        refine ⟨?_, List.forall_mem_cons.mpr ⟨?_, hiff⟩⟩
        · subst hmatching
          rw [Keyset.walk_cons_of_lt hlt hlast, List.map_cons, hwalk, pageRows, hmore, hitems,
            decide_eq_true hlt]
          rfl
        · simp [hmore, hcursor, hlt]
      next hle =>
        cases h
        subst hmatching
        rw [Keyset.walk_cons_of_le (Nat.not_lt.mp hle)]
        simp [pageRows, hmore, hitems, hnext, hle, List.take_of_length_le (Nat.not_lt.mp hle)]
    next => cases h

/-- The pages can be read if the store takes the limit. -/
theorem keysetWalk_reads (hbig : limit < bigintMax) (after : Option ρ)
    (hafter : ∀ r ∈ after, datetimeMin ≤ createdAt r ∧ createdAt r ≤ datetimeMax) :
    ∃ pages, keysetWalk list (after.map (rowCursor createdAt id)) states = .ok pages := by
  induction states generalizing after with
  | nil => exact ⟨[], rfl⟩
  | cons s states ih =>
    obtain ⟨hs, hinstants⟩ := List.forall_mem_cons.mp hinstants
    rw [keysetWalk_cons hlimit hlist hafter rfl, if_pos hbig]
    split
    next hlt =>
      obtain ⟨last, hrow, -, hcursor⟩ := exists_last_page hlimit rfl hlt
      obtain ⟨rest, hrest⟩ := ih hinstants (some last)
        fun r hr => hs r (by cases hr; exact hrow)
      rw [hcursor, hrest]
      exact ⟨_, rfl⟩
    next => exact ⟨_, rfl⟩

omit hlimit hlist hinstants in
theorem shown_pageRows (pages : List (Page ρ)) :
    Keyset.shown (pages.map pageRows) = returnedRows pages := by
  simp only [Keyset.shown, returnedRows, List.flatMap_map, pageRows]

omit hlimit hlist hinstants in
theorem finished_pageRows (pages : List (Page ρ)) :
    Keyset.Finished (pages.map pageRows) ↔ FinishedWalk pages := by
  simp [Keyset.Finished, FinishedWalk, List.getLast?_map, pageRows]

omit hinstants in
/-- A walk from the start over steady rows is exact. -/
theorem keysetWalk_exact (hsteady : SteadyRows createdAt id (states.map rows))
    (hnodup : ∀ s, ((rows s).map id).Nodup) {pages : List (Page ρ)}
    (h : keysetWalk list none states = .ok pages) :
    ExactWalk createdAt id limit (states.map rows) pages := by
  have hpos : 0 < limit.toNat := by omega
  have hkeys : ∀ t ∈ states.map rows, (t.map (rowPosition createdAt id)).Nodup :=
    List.forall_mem_map.mpr fun s _ => rowPosition_nodup (hnodup s)
  have hinstants : ∀ s ∈ states, ∀ r ∈ rows s,
      datetimeMin ≤ createdAt r ∧ createdAt r ≤ datetimeMax :=
    fun s hs => hsteady.instants _ (List.mem_map_of_mem hs)
  obtain ⟨hwalk, hiff⟩ := keysetWalk_eq hlimit hlist hinstants none nofun h
  have hshown := shown_pageRows pages
  have hfinished := finished_pageRows pages
  have hlength : pages.length = (pages.map pageRows).length := (List.length_map _).symm
  rw [Option.map_none] at hwalk
  rw [hwalk] at hshown hfinished hlength
  have hincreasing : (returnedRows pages).Pairwise fun r s =>
      rowPosition createdAt id r < rowPosition createdAt id s := by
    rw [← hshown]
    exact Keyset.walk_pairwise hpos hkeys
  have hseen : ∀ r ∈ returnedRows pages, ∃ t ∈ states.map rows, r ∈ t := by
    intro r hr
    rw [← hshown] at hr
    exact (Keyset.mem_shown_walk hpos hkeys hr).2
  have htwice := hsteady.nodup_ids hincreasing hseen
  refine ⟨hincreasing, htwice, ?_, hiff, ?_⟩
  · intro hdone i hall
    have hread : (states.map rows).take pages.length ≠ [] := by
      cases states with
      | nil =>
        rw [List.map_nil, Keyset.walk, List.map_eq_nil_iff] at hwalk
        simp [hwalk, FinishedWalk] at hdone
      | cons s states =>
        cases pages with
        | nil => simp [FinishedWalk] at hdone
        | cons page pages => simp
    obtain ⟨t, tables, htables⟩ := List.exists_cons_of_ne_nil hread
    have hmem : ∀ u ∈ (states.map rows).take pages.length, u ∈ states.map rows :=
      fun u => List.mem_of_mem_take
    have ht : t ∈ (states.map rows).take pages.length := by simp [htables]
    obtain ⟨r, hr, rfl⟩ := hall t ht
    have hkey : ∀ u ∈ (states.map rows).take pages.length,
        ∃ r' ∈ u, rowPosition createdAt id r' = rowPosition createdAt id r := by
      intro u hu
      obtain ⟨r', hr', heq⟩ := hall u hu
      exact ⟨r', hr', hsteady.position_eq (hmem u hu) (hmem t ht) hr' hr heq⟩
    rw [hlength] at hkey
    obtain ⟨r', hr', heq⟩ :=
      Keyset.walk_covers hpos hkeys (Keyset.beyond_none _) (hfinished.mpr hdone) hkey
    rw [hshown] at hr'
    have hid : id r ∈ (returnedRows pages).map id :=
      List.mem_map.mpr ⟨r', hr', (position_injective heq).2⟩
    have hcount := List.count_eq_one_of_mem htwice hid
    rw [List.count, List.countP_map] at hcount
    rw [← hcount]
    refine List.countP_congr fun x _ => ?_
    simp
  · intro table hconst henough
    have hall : (rowsBeyond (rowPosition createdAt id) none table).length = table.length := by
      simp [Keyset.length_rowsBeyond]
    rw [← hall] at henough ⊢
    obtain ⟨hcount, hdone⟩ := Keyset.walk_length hpos hkeys hconst henough
    rw [hlength]
    exact ⟨hcount, hfinished.mp hdone⟩

omit hinstants in
theorem readsExactly (hsteady : SteadyRows createdAt id (states.map rows))
    (hnodup : ∀ s, ((rows s).map id).Nodup) :
    ReadsExactly createdAt id limit list rows states := by
  refine ⟨fun hbig => ?_, fun pages h => keysetWalk_exact hlimit hlist hsteady hnodup h⟩
  have hinstants : ∀ s ∈ states, ∀ r ∈ rows s,
      datetimeMin ≤ createdAt r ∧ createdAt r ≤ datetimeMax :=
    fun s hs => hsteady.instants _ (List.mem_map_of_mem hs)
  exact keysetWalk_reads hlimit hlist hinstants hbig none nofun

end

end

namespace Db

/-- The rows `EndpointRepository.list` pages over. -/
def tenantEndpoints (tenantId : UUID) (db : Db) : List Endpoint :=
  db.endpoints.select fun e => e.tenantId = tenantId

end Db

/-- The walks over a tenant's endpoints and over its dead deliveries skip and repeat nothing,
whatever happens to the tables between two pages. -/
theorem list_walks_exact (asciiOf : ℕ → ℕ) (tenantId : UUID) (limit : ℤ) (hlimit : 1 ≤ limit)
    (states : List Db)
    (hendpoints : SteadyRows Endpoint.createdAt Endpoint.id
      (states.map (Db.tenantEndpoints tenantId)))
    (hdeliveries : SteadyRows Delivery.createdAt Delivery.id
      (states.map fun db => db.deadDeliveries tenantId)) :
    ReadsExactly Endpoint.createdAt Endpoint.id limit
        (fun db cursor => db.listEndpoints (stdlibReaders asciiOf) tenantId cursor limit)
        (Db.tenantEndpoints tenantId) states ∧
      ReadsExactly Delivery.createdAt Delivery.id limit
        (fun db cursor => db.listDead (stdlibReaders asciiOf) tenantId cursor limit)
        (fun db => db.deadDeliveries tenantId) states := by
  constructor
  · exact readsExactly hlimit (fun _ _ => rfl) hendpoints
      fun db => db.endpoints.nodup.sublist (List.filter_sublist.map _)
  · exact readsExactly hlimit (fun _ _ => rfl) hdeliveries
      fun db => db.deliveries.nodup.sublist (List.filter_sublist.map _)

/-- Three endpoints of tenant 9, and three deliveries, the second of them in this state. -/
def walkedDb (state : DeliveryState) : Db :=
  let endpoint : UUID → ℤ → Endpoint := fun id createdAt =>
    { id, tenantId := 9, url := PyText.ofString "https://example.com/hook",
      secret := Db.othersSecret, subscribedEventTypes := [[0x74]], createdAt }
  let delivery : UUID → DeliveryState → ℤ → Delivery := fun id state createdAt =>
    { id, eventId := 1, endpointId := 2, state, attemptCount := 0, createdAt }
  { Db.othersDb .dead with
    endpoints := ⟨[endpoint 5 1, endpoint 4 1, endpoint 2 0], by decide⟩
    deliveries := ⟨[delivery 3 .dead 0, delivery 6 state 0, delivery 7 .dead 5],
      by cases state <;> decide⟩ }

/-- The second delivery is replayed before the second page is read, so that this page brings the
third. -/
theorem list_walks_exact_replayed :
    ReadsExactly Endpoint.createdAt Endpoint.id 1
        (fun db cursor => db.listEndpoints (stdlibReaders fun _ => 0x3f) 9 cursor 1)
        (Db.tenantEndpoints 9) [walkedDb .dead, walkedDb .pending, walkedDb .pending] ∧
      ReadsExactly Delivery.createdAt Delivery.id 1
        (fun db cursor => db.listDead (stdlibReaders fun _ => 0x3f) 9 cursor 1)
        (fun db => db.deadDeliveries 9) [walkedDb .dead, walkedDb .pending, walkedDb .pending] :=
  list_walks_exact (fun _ => 0x3f) 9 1 le_rfl [walkedDb .dead, walkedDb .pending, walkedDb .pending]
    ⟨by decide, by decide⟩ ⟨by decide, by decide⟩

end RelayWebhooks
