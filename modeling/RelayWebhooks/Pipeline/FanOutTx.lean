import RelayWebhooks.Pipeline.History

/-! One fan-out transaction: each entry it opens gets one delivery for each endpoint it read. -/
namespace RelayWebhooks

namespace RelayTx

/-- The entry that is being fanned out, and its event. -/
def current (tx : RelayTx) : Option (OutboxEntry × Event) :=
  match tx.point with
  | .between => none
  | .fanOut o ev _ => some (o, ev)
  | .publishing o ev _ _ => some (o, ev)

/-- The endpoints that still wait for a delivery of the event. -/
def todo (tx : RelayTx) (eventId : UUID) : List UUID :=
  match tx.point with
  | .between => []
  | .fanOut _ ev targets => if ev.id = eventId then targets.map (·.id) else []
  | .publishing _ ev targets _ => if ev.id = eventId then targets.map (·.id) else []

end RelayTx

namespace Traced
open Pipeline

/-- An open transaction that has made the readings `rds`. -/
structure TxOk (db : Db) (rds : List Reading) (tx : RelayTx) : Prop where
  claimed : ∀ c ∈ tx.claimed,
    ∃ o, db.outbox.get c.id = some o ∧ o.status = .pending ∧ o.eventId = c.eventId
  distinct : (tx.claimed.map (·.id)).Nodup
  queued : ∀ o ∈ tx.queue, (∃ c ∈ tx.claimed, c.id = o.id ∧ c.eventId = o.eventId) ∧
    ∀ rd ∈ rds, rd.event.id ≠ o.eventId
  queue : (tx.queue.map (·.eventId)).Nodup
  events : ∀ rd ∈ rds, db.events.get rd.event.id = some rd.event
  current : ∀ o ev, tx.current = some (o, ev) →
    (∃ c ∈ tx.claimed, c.id = o.id ∧ c.eventId = ev.id) ∧ ∃ rd ∈ rds, rd.event = ev
  opened : ∀ rd ∈ rds, ∃ c ∈ tx.claimed, c.eventId = rd.event.id ∧
    (c.status = .processed ∨ ∃ o, tx.current = some (o, rd.event))
  closed : ∀ c ∈ tx.claimed, c.status = .processed → ∃ rd ∈ rds, rd.event.id = c.eventId
  rows : ∀ d ∈ tx.inserted, ∃ rd ∈ rds, rd.event.id = d.eventId
  exact : ∀ rd ∈ rds,
    (tx.inserted.filter fun d => d.eventId = rd.event.id).map (·.endpointId) ++
      tx.todo rd.event.id = rd.targets

variable {db : Db} {rds : List Reading} {j : ℕ} {claimed queue : List OutboxEntry}
  {o : OutboxEntry} {ev : Event} {e : Endpoint} {ts : List Endpoint} {d : Delivery}
  {created : List Delivery}

theorem TxOk.mono {db' : Db} {tx : RelayTx} (h : TxOk db rds tx)
    (ho : ∀ c ∈ tx.claimed, db'.outbox.get c.id = db.outbox.get c.id)
    (hev : ∀ k ev, db.events.get k = some ev → db'.events.get k = some ev) : TxOk db' rds tx where
  claimed c hc := by
    rw [ho c hc]
    exact h.claimed c hc
  distinct := h.distinct
  queued := h.queued
  queue := h.queue
  events rd hrd := hev _ _ (h.events rd hrd)
  current := h.current
  opened := h.opened
  closed := h.closed
  rows := h.rows
  exact := h.exact

/-- A claimed entry belongs to the event that the outbox has for its key. -/
theorem TxOk.eventId_eq {tx : RelayTx} (h : TxOk db rds tx) {c c' : OutboxEntry}
    (hc : c ∈ tx.claimed) (hc' : c' ∈ tx.claimed) (hid : c.id = c'.id) :
    c.eventId = c'.eventId := by
  obtain ⟨x, hx, -, hxe⟩ := h.claimed c hc
  obtain ⟨y, hy, -, hye⟩ := h.claimed c' hc'
  rw [hid, hy] at hx
  rw [← hxe, ← hye, Option.some.inj hx]

/-- Opening an entry adds a reading for an event no earlier reading is about. -/
theorem TxOk.openEntry (h : TxOk db rds ⟨j, claimed, o :: queue, .between, created⟩)
    (hev : db.events.get o.eventId = some ev) :
    TxOk db (rds ++ [⟨ev, db⟩]) ⟨j, claimed, queue,
      .fanOut o ev (db.listActiveSubscribed ev.tenantId ev.type), created⟩ := by
  have hid : ev.id = o.eventId := Table.key_of_get hev
  obtain ⟨⟨c, hc, hcid, hce⟩, hnew⟩ := h.queued o List.mem_cons_self
  have hqueue := List.nodup_cons.mp h.queue
  have hmem : ∀ rd ∈ rds ++ [⟨ev, db⟩], rd ∈ rds ∨ rd = ⟨ev, db⟩ := by
    intro rd hrd
    simpa using hrd
  have hrows : ∀ d ∈ created, d.eventId ≠ ev.id := by
    intro d hd heq
    obtain ⟨rd, hrd, hrde⟩ := h.rows d hd
    exact hnew rd hrd (hrde.trans (heq.trans hid))
  constructor
  · exact h.claimed
  · exact h.distinct
  · intro o' ho'
    obtain ⟨hc', hnew'⟩ := h.queued o' (List.mem_cons_of_mem _ ho')
    refine ⟨hc', fun rd hrd heq => ?_⟩
    rcases hmem rd hrd with hrd | rfl
    · exact hnew' rd hrd heq
    · exact hqueue.1 (List.mem_map.mpr ⟨o', ho', heq.symm.trans hid⟩)
  · exact hqueue.2
  · intro rd hrd
    rcases hmem rd hrd with hrd | rfl
    · exact h.events rd hrd
    · exact hid ▸ hev
  · intro o' ev' hcur
    obtain ⟨rfl, rfl⟩ := Prod.mk.inj (Option.some.inj hcur)
    exact ⟨⟨c, hc, hcid, hce.trans hid.symm⟩, ⟨ev, db⟩, by simp, rfl⟩
  · intro rd hrd
    rcases hmem rd hrd with hrd | rfl
    · obtain ⟨c', hc', hce', hst⟩ := h.opened rd hrd
      refine ⟨c', hc', hce', .inl (hst.resolve_right ?_)⟩
      rintro ⟨o', hcur⟩
      cases hcur
    · exact ⟨c, hc, hce.trans hid.symm, .inr ⟨o, rfl⟩⟩
  · intro c' hc' hst
    obtain ⟨rd, hrd, hrde⟩ := h.closed c' hc' hst
    exact ⟨rd, List.mem_append_left _ hrd, hrde⟩
  · intro d hd
    obtain ⟨rd, hrd, hrde⟩ := h.rows d hd
    exact ⟨rd, List.mem_append_left _ hrd, hrde⟩
  · intro rd hrd
    rcases hmem rd hrd with hrd | rfl
    · have hne : ev.id ≠ rd.event.id := fun heq => hnew rd hrd (heq.symm.trans hid)
      have hex := h.exact rd hrd
      simpa [RelayTx.todo, RelayTx.inserted, hne] using hex
    · have hnone : created.filter (fun d => d.eventId = ev.id) = [] :=
        List.filter_eq_nil_iff.mpr fun d hd => by simpa using hrows d hd
      simp [RelayTx.todo, RelayTx.inserted, hnone, Reading.targets]

/-- The next target gets its delivery. -/
theorem TxOk.createDelivery (h : TxOk db rds ⟨j, claimed, queue, .fanOut o ev (e :: ts), created⟩)
    (hd : d.eventId = ev.id) (he : d.endpointId = e.id) :
    TxOk db rds ⟨j, claimed, queue, .publishing o ev ts d, created⟩ := by
  obtain ⟨-, rd₀, hrd₀, hev₀⟩ := h.current o ev rfl
  constructor
  · exact h.claimed
  · exact h.distinct
  · exact h.queued
  · exact h.queue
  · exact h.events
  · exact h.current
  · exact h.opened
  · exact h.closed
  · intro d' hd'
    rcases List.mem_append.mp hd' with hd' | hd'
    · exact h.rows d' hd'
    · rw [List.mem_singleton.mp hd', hd]
      exact ⟨rd₀, hrd₀, by rw [hev₀]⟩
  · intro rd hrd
    have hex := h.exact rd hrd
    by_cases heq : ev.id = rd.event.id
    · simpa [RelayTx.todo, RelayTx.inserted, heq, List.filter_append, hd, he] using hex
    · simpa [RelayTx.todo, RelayTx.inserted, heq, List.filter_append, hd] using hex

/-- Its message goes out. -/
theorem TxOk.publish (h : TxOk db rds ⟨j, claimed, queue, .publishing o ev ts d, created⟩) :
    TxOk db rds ⟨j, claimed, queue, .fanOut o ev ts, created ++ [d]⟩ :=
  ⟨h.claimed, h.distinct, h.queued, h.queue, h.events, h.current, h.opened, h.closed, h.rows,
    h.exact⟩

/-- The entry is marked processed once no target is left. -/
theorem TxOk.closeEntry (h : TxOk db rds ⟨j, claimed, queue, .fanOut o ev [], created⟩) :
    TxOk db rds { (⟨j, claimed, queue, .between, created⟩ : RelayTx) with
      claimed := RelayTx.markProcessed ⟨j, claimed, queue, .between, created⟩ o.id } := by
  obtain ⟨⟨c₀, hc₀, hid₀, hev₀⟩, rd₀, hrd₀, hrdev⟩ := h.current o ev rfl
  have hmark : ∀ c ∈ claimed, ∃ c' ∈ RelayTx.markProcessed
      ⟨j, claimed, queue, .between, created⟩ o.id, c'.id = c.id ∧ c'.eventId = c.eventId ∧
        (c.status = .processed ∨ c.id = o.id → c'.status = .processed) := by
    intro c hc
    refine ⟨_, List.mem_map_of_mem hc, ?_⟩
    split
    next hid => exact ⟨rfl, rfl, fun _ => rfl⟩
    next hid => exact ⟨rfl, rfl, fun hst => hst.resolve_right hid⟩
  have hof : ∀ c' ∈ RelayTx.markProcessed ⟨j, claimed, queue, .between, created⟩ o.id,
      ∃ c ∈ claimed, c.id = c'.id ∧ c.eventId = c'.eventId ∧
        (c'.status = .processed → c.status = .processed ∨ c.id = o.id) := by
    intro c' hc'
    obtain ⟨c, hc, rfl⟩ := List.mem_map.mp hc'
    refine ⟨c, hc, ?_⟩
    split
    next hid => exact ⟨rfl, rfl, fun _ => .inr hid⟩
    next hid => exact ⟨rfl, rfl, .inl⟩
  constructor
  · intro c' hc'
    obtain ⟨c, hc, hid, hce, -⟩ := hof c' hc'
    rw [← hid, ← hce]
    exact h.claimed c hc
  · have hids : (RelayTx.markProcessed ⟨j, claimed, queue, .between, created⟩ o.id).map (·.id) =
        claimed.map (·.id) := by
      rw [RelayTx.markProcessed, List.map_map]
      refine List.map_congr_left fun c _ => ?_
      simp only [Function.comp_apply]
      split <;> rfl
    rw [hids]
    exact h.distinct
  · intro q hq
    obtain ⟨⟨c, hc, hid, hce⟩, hnew⟩ := h.queued q hq
    obtain ⟨c', hc', hid', hce', -⟩ := hmark c hc
    exact ⟨⟨c', hc', hid'.trans hid, hce'.trans hce⟩, hnew⟩
  · exact h.queue
  · exact h.events
  · intro o' ev' hcur
    cases hcur
  · intro rd hrd
    obtain ⟨c, hc, hce, hst⟩ := h.opened rd hrd
    rcases hst with hst | ⟨o', hcur⟩
    · obtain ⟨c', hc', -, hce', hst'⟩ := hmark c hc
      exact ⟨c', hc', hce'.trans hce, .inl (hst' (.inl hst))⟩
    · obtain ⟨-, rfl⟩ := Prod.mk.inj (Option.some.inj hcur)
      obtain ⟨c', hc', -, hce', hst'⟩ := hmark c₀ hc₀
      exact ⟨c', hc', hce'.trans hev₀, .inl (hst' (.inr hid₀))⟩
  · intro c' hc' hst'
    obtain ⟨c, hc, -, hce, hst⟩ := hof c' hc'
    rw [← hce]
    rcases hst hst' with hst | hid
    · exact h.closed c hc hst
    · refine ⟨rd₀, hrd₀, ?_⟩
      rw [hrdev, ← hev₀]
      exact h.eventId_eq hc₀ hc (hid₀.trans hid.symm)
  · exact h.rows
  · intro rd hrd
    have hex := h.exact rd hrd
    simpa [RelayTx.todo, RelayTx.inserted] using hex

theorem mem_dueEntries {s : Pipeline} {limit : ℕ} (h : o ∈ s.dueEntries limit) :
    o ∈ s.db.outbox.rows ∧ o.status = .pending ∧ s.locked o = false := by
  have hsel := (List.perm_insertionSort _ _).subset (List.mem_of_mem_take h)
  obtain ⟨hmem, hp⟩ := List.mem_filter.mp hsel
  simpa [hmem] using hp

/-- A column without repetitions has none among the claimed entries. -/
theorem nodup_dueEntries {s : Pipeline} (f : OutboxEntry → UUID) (limit : ℕ)
    (h : (s.db.outbox.rows.map f).Nodup) : ((s.dueEntries limit).map f).Nodup := by
  have hsel : ((s.db.outbox.select fun o => o.status = .pending && !s.locked o).map f).Nodup :=
    h.sublist (List.filter_sublist.map f)
  have hsort := ((List.perm_insertionSort (fun x y : OutboxEntry => x.createdAt ≤ y.createdAt)
    (s.db.outbox.select fun o => o.status = .pending && !s.locked o)).map f).nodup_iff.mpr hsel
  exact hsort.sublist ((List.take_sublist _ _).map f)

/-- A transaction that has claimed its entries and read nothing yet. -/
theorem TxOk.claimDue {s : Pipeline} (r : ℕ) (now : ℤ) (limit : ℕ)
    (huniq : (s.db.outbox.rows.map (·.eventId)).Nodup)
    (hc : claimed = (s.dueEntries limit).map fun o =>
      { o with lockedAt := some now, attempts := o.attempts + 1 }) :
    TxOk s.db [] ⟨r, claimed, claimed, .between, []⟩ := by
  have hof : ∀ c ∈ claimed, ∃ o ∈ s.dueEntries limit, o.id = c.id ∧ o.eventId = c.eventId ∧
      c.status = .pending := by
    intro c hmem
    obtain ⟨o, ho, rfl⟩ := List.mem_map.mp (hc ▸ hmem)
    exact ⟨o, ho, rfl, rfl, (mem_dueEntries ho).2.1⟩
  have hcol : ∀ f : OutboxEntry → UUID,
      (∀ o : OutboxEntry, f { o with lockedAt := some now, attempts := o.attempts + 1 } = f o) →
      claimed.map f = (s.dueEntries limit).map f := by
    intro f hf
    rw [hc, List.map_map]
    exact List.map_congr_left fun o _ => hf o
  constructor
  · intro c hmem
    obtain ⟨o, ho, hid, hev, -⟩ := hof c hmem
    obtain ⟨hrow, hst, -⟩ := mem_dueEntries ho
    exact ⟨o, hid ▸ Table.get_of_mem hrow, hst, hev⟩
  · show (claimed.map (·.id)).Nodup
    rw [hcol _ fun _ => rfl]
    exact nodup_dueEntries _ limit s.db.outbox.nodup
  · intro q hq
    exact ⟨⟨q, hq, rfl, rfl⟩, by simp⟩
  · show (claimed.map (·.eventId)).Nodup
    rw [hcol _ fun _ => rfl]
    exact nodup_dueEntries _ limit huniq
  · simp
  · intro o' ev' hcur
    cases hcur
  · simp
  · intro c hmem hst
    obtain ⟨o, -, -, -, hp⟩ := hof c hmem
    rw [hp] at hst
    cases hst
  · intro d hd
    cases hd
  · simp

end Traced

end RelayWebhooks
