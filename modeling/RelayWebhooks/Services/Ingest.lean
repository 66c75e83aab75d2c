import RelayWebhooks.Lib.Transition
import RelayWebhooks.Repositories.Db

/-! Concurrent calls of `ingest` over one store. A call reads by its key, inserts the event
inside a savepoint and the outbox row after it, and commits both. Statements are READ COMMITTED;
an insert of a key that another call has inserted and not committed has to wait. -/
namespace RelayWebhooks

/-- The arguments of one call. -/
structure IngestRequest where
  tenantId : UUID
  eventType : PyText
  payload : Json
  idempotencyKey : PyText
  correlationId : Option PyText := none

namespace IngestRequest

/-- The event is stored under the tenant and the key of the request. -/
def Matches (r : IngestRequest) (e : Event) : Prop :=
  e.tenantId = r.tenantId ∧ e.idempotencyKey = r.idempotencyKey

/-- The comparison of `_resolve`. -/
def sameBody (r : IngestRequest) (e : Event) : Bool :=
  e.type = r.eventType && e.payload.pyEq r.payload

end IngestRequest

/-- The columns of the unique constraint. -/
def Event.uniqueKey (e : Event) : UUID × PyText := (e.tenantId, e.idempotencyKey)

inductive IngestPhase where
  /-- The first lookup found no event. -/
  | missing
  | inserted (event : Event)
  | outboxed (event : Event) (entry : OutboxEntry)
  /-- The insert met a committed event; the savepoint is rolled back. -/
  | conflicted
  | committed (event : Event)
  | returned (event : Event) (created : Bool)
  | raised (error : Raised)
  /-- Stopped by a crash or an error the service does not catch, after it committed the event or
  with nothing committed. -/
  | stopped (created : Option Event)

structure IngestCall where
  id : ℕ
  request : IngestRequest
  phase : IngestPhase

instance : Keyed IngestCall ℕ := ⟨IngestCall.id⟩

namespace IngestCall

@[simp] theorem key_eq (c : IngestCall) : Keyed.key c = c.id := rfl

/-- The event row the call's open transaction has inserted. -/
def uncommitted (c : IngestCall) : Option Event :=
  match c.phase with
  | .inserted e | .outboxed e _ => some e
  | _ => none

def uncommittedEntry (c : IngestCall) : Option OutboxEntry :=
  match c.phase with
  | .outboxed _ o => some o
  | _ => none

/-- The call has returned or raised. -/
def isOver (c : IngestCall) : Bool :=
  match c.phase with
  | .returned _ _ | .raised _ => true
  | _ => false

/-- The event row the call has committed. -/
def wrote (c : IngestCall) : Option Event :=
  match c.phase with
  | .committed e | .returned e true => some e
  | .stopped created => created
  | _ => none

end IngestCall

structure Ingest where
  db : Db
  calls : Table IngestCall

/-- `id` and `createdAt` are what the store generates for a new row. -/
inductive IngestAction where
  | lookup (i : ℕ) (request : IngestRequest)
  | insert (i : ℕ) (id : UUID) (createdAt : ℤ)
  | createOutbox (i : ℕ) (id : UUID) (createdAt : ℤ)
  | commit (i : ℕ)
  | relookup (i : ℕ)
  | finish (i : ℕ)
  | stop (i : ℕ)

namespace Ingest

/-- No event is stored and no call has started. -/
def Init (s : Ingest) : Prop :=
  s.db.events.rows = [] ∧ s.db.outbox.rows = [] ∧ s.calls.rows = []

/-- The event rows, committed or not. -/
def live (s : Ingest) : List Event :=
  s.db.events.rows ++ s.calls.rows.filterMap IngestCall.uncommitted

def liveEntries (s : Ingest) : List OutboxEntry :=
  s.db.outbox.rows ++ s.calls.rows.filterMap IngestCall.uncommittedEntry

def setPhase (s : Ingest) (c : IngestCall) (p : IngestPhase) : Ingest :=
  { s with calls := s.calls.update { c with phase := p } }

def resolve (existing : Event) (r : IngestRequest) : IngestPhase :=
  if r.sameBody existing then .returned existing false
  else .raised (.differingBodyConflict r.tenantId r.idempotencyKey)

def afterLookup (s : Ingest) (r : IngestRequest) : IngestPhase :=
  match s.db.getByIdempotencyKey r.tenantId r.idempotencyKey with
  | some existing => resolve existing r
  | none => .missing

/-- The second lookup, after a conflict. -/
def afterConflict (s : Ingest) (r : IngestRequest) : IngestPhase :=
  match s.db.getByIdempotencyKey r.tenantId r.idempotencyKey with
  | some winner => resolve winner r
  | none => .raised (.conflictWithoutRow r.tenantId r.idempotencyKey)

/-- The row `EventRepository.create` adds and reads back. `jsonb` is what a JSONB column gives
back for a value. -/
def newEvent (jsonb : Json → Json) (r : IngestRequest) (id : UUID) (createdAt : ℤ) : Event where
  id := id
  tenantId := r.tenantId
  type := r.eventType
  payload := jsonb r.payload
  idempotencyKey := r.idempotencyKey
  createdAt := createdAt
  correlationId := r.correlationId

/-- Another call holds the key without having committed it. -/
def keyLocked (s : Ingest) (r : IngestRequest) : Bool :=
  s.calls.rows.any fun c => c.uncommitted.any fun e =>
    e.tenantId = r.tenantId && e.idempotencyKey = r.idempotencyKey

/-- One action of one call; `none` when the call is not at that point, or has to wait. A
generated key is one that no row uses. -/
def step (jsonb : Json → Json) (s : Ingest) : IngestAction → Option Ingest
  | .lookup i r =>
    (s.calls.insert ⟨i, r, s.afterLookup r⟩).map fun calls => { s with calls }
  | .insert i id createdAt =>
    match s.calls.get i with
    | some ⟨j, r, .missing⟩ =>
      if s.keyLocked r then none
      else
        match s.db.getByIdempotencyKey r.tenantId r.idempotencyKey with
        | some _ => some (s.setPhase ⟨j, r, .missing⟩ .conflicted)
        | none =>
          if s.live.all fun e => e.id ≠ id then
            some (s.setPhase ⟨j, r, .missing⟩ (.inserted (newEvent jsonb r id createdAt)))
          else none
    | _ => none
  | .createOutbox i id createdAt =>
    match s.calls.get i with
    | some ⟨j, r, .inserted e⟩ =>
      if s.liveEntries.all fun o => o.id ≠ id then
        match s.db.createOutboxEntry id e.id createdAt with
        | .ok (_, o) => some (s.setPhase ⟨j, r, .inserted e⟩ (.outboxed e o))
        | .error err => some (s.setPhase ⟨j, r, .inserted e⟩ (.raised err))
      else none
    | _ => none
  | .commit i =>
    match s.calls.get i with
    | some ⟨j, r, .outboxed e o⟩ =>
      match s.db.events.insert e, s.db.outbox.insert o with
      | some events, some outbox =>
        some { s.setPhase ⟨j, r, .outboxed e o⟩ (.committed e) with
               db := { s.db with events, outbox } }
      | _, _ => none
    | _ => none
  | .relookup i =>
    match s.calls.get i with
    | some ⟨j, r, .conflicted⟩ => some (s.setPhase ⟨j, r, .conflicted⟩ (s.afterConflict r))
    | _ => none
  | .finish i =>
    match s.calls.get i with
    | some ⟨j, r, .committed e⟩ => some (s.setPhase ⟨j, r, .committed e⟩ (.returned e true))
    | _ => none
  | .stop i =>
    match s.calls.get i with
    | some ⟨_, _, .returned _ _⟩ | some ⟨_, _, .raised _⟩ | some ⟨_, _, .stopped _⟩ => none
    | some c => some (s.setPhase c (.stopped c.wrote))
    | none => none

/-- What each action can do, with its guard. -/
inductive Steps (jsonb : Json → Json) (s : Ingest) : IngestAction → Ingest → Prop
  | lookup {i : ℕ} {r : IngestRequest} {calls : Table IngestCall}
      (h : s.calls.insert ⟨i, r, s.afterLookup r⟩ = some calls) :
      Steps jsonb s (.lookup i r) { s with calls }
  | conflict {i j : ℕ} {id : UUID} {createdAt : ℤ} {r : IngestRequest} {winner : Event}
      (h : s.calls.get i = some ⟨j, r, .missing⟩)
      (hw : s.db.getByIdempotencyKey r.tenantId r.idempotencyKey = some winner) :
      Steps jsonb s (.insert i id createdAt) (s.setPhase ⟨j, r, .missing⟩ .conflicted)
  | insert {i j : ℕ} {id : UUID} {createdAt : ℤ} {r : IngestRequest}
      (h : s.calls.get i = some ⟨j, r, .missing⟩) (hlock : s.keyLocked r = false)
      (hnone : s.db.getByIdempotencyKey r.tenantId r.idempotencyKey = none)
      (hid : ∀ e ∈ s.live, e.id ≠ id) :
      Steps jsonb s (.insert i id createdAt)
        (s.setPhase ⟨j, r, .missing⟩ (.inserted (newEvent jsonb r id createdAt)))
  | createOutbox {i j : ℕ} {id : UUID} {createdAt : ℤ} {r : IngestRequest} {e : Event}
      {db : Db} {o : OutboxEntry} (h : s.calls.get i = some ⟨j, r, .inserted e⟩)
      (hid : ∀ o ∈ s.liveEntries, o.id ≠ id)
      (ho : s.db.createOutboxEntry id e.id createdAt = .ok (db, o)) :
      Steps jsonb s (.createOutbox i id createdAt)
        (s.setPhase ⟨j, r, .inserted e⟩ (.outboxed e o))
  | refuseOutbox {i j : ℕ} {id : UUID} {createdAt : ℤ} {r : IngestRequest} {e : Event}
      {err : Raised} (h : s.calls.get i = some ⟨j, r, .inserted e⟩)
      (hid : ∀ o ∈ s.liveEntries, o.id ≠ id)
      (ho : s.db.createOutboxEntry id e.id createdAt = .error err) :
      Steps jsonb s (.createOutbox i id createdAt)
        (s.setPhase ⟨j, r, .inserted e⟩ (.raised err))
  | commit {i j : ℕ} {r : IngestRequest} {e : Event} {o : OutboxEntry} {events : Table Event}
      {outbox : Table OutboxEntry} (h : s.calls.get i = some ⟨j, r, .outboxed e o⟩)
      (he : s.db.events.insert e = some events) (ho : s.db.outbox.insert o = some outbox) :
      Steps jsonb s (.commit i)
        { s.setPhase ⟨j, r, .outboxed e o⟩ (.committed e) with
          db := { s.db with events, outbox } }
  | relookup {i j : ℕ} {r : IngestRequest} (h : s.calls.get i = some ⟨j, r, .conflicted⟩) :
      Steps jsonb s (.relookup i) (s.setPhase ⟨j, r, .conflicted⟩ (s.afterConflict r))
  | finish {i j : ℕ} {r : IngestRequest} {e : Event}
      (h : s.calls.get i = some ⟨j, r, .committed e⟩) :
      Steps jsonb s (.finish i) (s.setPhase ⟨j, r, .committed e⟩ (.returned e true))
  | stop {i : ℕ} {c : IngestCall} (h : s.calls.get i = some c) :
      Steps jsonb s (.stop i) (s.setPhase c (.stopped c.wrote))

theorem steps_of_step {jsonb : Json → Json} {s t : Ingest} {a : IngestAction}
    (h : step jsonb s a = some t) : Steps jsonb s a t := by
  cases a with
  | lookup i r =>
    obtain ⟨calls, hc, rfl⟩ := Option.map_eq_some_iff.mp h
    exact .lookup hc
  | insert i id createdAt =>
    simp only [step] at h
    split at h
    next hi =>
      split at h
      next => cases h
      next hlock =>
        split at h
        next hw => cases h; exact .conflict hi hw
        next hnone =>
          split at h
          next hid =>
            cases h
            exact .insert hi (by simpa using hlock) hnone (by simpa using hid)
          next => cases h
    next => cases h
  | createOutbox i id createdAt =>
    simp only [step] at h
    split at h
    next hi =>
      split at h
      next hid =>
        have hfresh : ∀ o ∈ s.liveEntries, o.id ≠ id := by simpa using hid
        split at h
        next ho => cases h; exact .createOutbox hi hfresh ho
        next ho => cases h; exact .refuseOutbox hi hfresh ho
      next => cases h
    next => cases h
  | commit i =>
    simp only [step] at h
    split at h
    next hi =>
      split at h
      next he ho => cases h; exact .commit hi he ho
      next => cases h
    next => cases h
  | relookup i =>
    simp only [step] at h
    split at h
    next hi => cases h; exact .relookup hi
    next => cases h
  | finish i =>
    simp only [step] at h
    split at h
    next hi => cases h; exact .finish hi
    next => cases h
  | stop i =>
    simp only [step] at h
    split at h
    next => cases h
    next => cases h
    next => cases h
    next hi => cases h; exact .stop hi
    next => cases h

variable {jsonb : Json → Json} {s t : Ingest} {a : IngestAction} {i : ℕ} {c : IngestCall}

/-- What the phase of a call says about the committed events. -/
def CallOk (events : List Event) (c : IngestCall) : Prop :=
  match c.phase with
  | .missing | .stopped _ => True
  | .inserted e => c.request.Matches e
  | .outboxed e o => c.request.Matches e ∧ o.eventId = e.id
  | .conflicted => ∃ e ∈ events, c.request.Matches e
  | .committed e | .returned e true => e ∈ events ∧ c.request.Matches e
  | .returned e false => e ∈ events ∧ c.request.Matches e ∧ c.request.sameBody e = true
  | .raised err =>
    err = .differingBodyConflict c.request.tenantId c.request.idempotencyKey ∧
      ∃ e ∈ events, c.request.Matches e ∧ c.request.sameBody e = false

/-- No two event rows share their key or their id, committed or not; the outbox has one row for
each event; the events are those the calls have committed. -/
structure Inv (s : Ingest) : Prop where
  keys : (s.live.map Event.uniqueKey).Nodup
  ids : (s.live.map Event.id).Nodup
  entries : s.db.outbox.rows.map OutboxEntry.eventId = s.db.events.rows.map Event.id
  wrote : (s.calls.rows.filterMap IngestCall.wrote).Perm s.db.events.rows
  calls : ∀ c ∈ s.calls.rows, CallOk s.db.events.rows c

theorem CallOk.mono {events events' : List Event} (hsub : ∀ e ∈ events, e ∈ events')
    (h : CallOk events c) : CallOk events' c := by
  obtain ⟨_, r, p⟩ := c
  cases p with
  | missing | stopped => trivial
  | inserted | outboxed => exact h
  | conflicted =>
    obtain ⟨e, he, hm⟩ := h
    exact ⟨e, hsub e he, hm⟩
  | committed => exact ⟨hsub _ h.1, h.2⟩
  | returned e created =>
    cases created with
    | true => exact ⟨hsub _ h.1, h.2⟩
    | false => exact ⟨hsub _ h.1, h.2⟩
  | raised err =>
    obtain ⟨herr, e, he, hm⟩ := h
    exact ⟨herr, e, hsub e he, hm⟩

theorem getByIdempotencyKey_some {db : Db} {r : IngestRequest} {e : Event}
    (h : db.getByIdempotencyKey r.tenantId r.idempotencyKey = some e) :
    e ∈ db.events.rows ∧ r.Matches e := by
  refine ⟨List.mem_of_find?_eq_some h, ?_⟩
  simpa [IngestRequest.Matches] using List.find?_some h

theorem getByIdempotencyKey_none {db : Db} {r : IngestRequest}
    (h : db.getByIdempotencyKey r.tenantId r.idempotencyKey = none) {e : Event}
    (he : e ∈ db.events.rows) : ¬r.Matches e := by
  simpa [IngestRequest.Matches] using List.find?_eq_none.mp h e he

theorem not_matches_of_keyLocked {r : IngestRequest} (h : s.keyLocked r = false) {e : Event}
    (he : e ∈ s.calls.rows.filterMap IngestCall.uncommitted) : ¬r.Matches e := by
  obtain ⟨c, hc, hu⟩ := List.mem_filterMap.mp he
  intro hm
  have hany : s.keyLocked r = true :=
    List.any_eq_true.mpr ⟨c, hc, by simpa [hu, IngestRequest.Matches] using hm⟩
  rw [h] at hany
  cases hany

/-- A call that found an event returns it or raises, by the comparison of the bodies. -/
theorem callOk_resolve {events : List Event} {e : Event} {r : IngestRequest} {j : ℕ}
    (he : e ∈ events) (hm : r.Matches e) : CallOk events ⟨j, r, resolve e r⟩ := by
  unfold resolve
  split
  next hs => exact ⟨he, hm, hs⟩
  next hs => exact ⟨rfl, e, he, hm, by simpa using hs⟩

theorem callOk_afterLookup {r : IngestRequest} {j : ℕ} :
    CallOk s.db.events.rows ⟨j, r, s.afterLookup r⟩ := by
  unfold afterLookup
  split
  next e he =>
    obtain ⟨hmem, hm⟩ := getByIdempotencyKey_some he
    exact callOk_resolve hmem hm
  next => trivial

theorem resolve_wrote (e : Event) (r : IngestRequest) (j : ℕ) :
    IngestCall.wrote ⟨j, r, resolve e r⟩ = none ∧
      IngestCall.uncommitted ⟨j, r, resolve e r⟩ = none := by
  unfold resolve
  split <;> exact ⟨rfl, rfl⟩

theorem afterLookup_wrote (s : Ingest) (r : IngestRequest) (j : ℕ) :
    IngestCall.wrote ⟨j, r, s.afterLookup r⟩ = none ∧
      IngestCall.uncommitted ⟨j, r, s.afterLookup r⟩ = none := by
  unfold afterLookup
  split
  next e _ => exact resolve_wrote e r j
  next => exact ⟨rfl, rfl⟩

/-- The winner of a conflict is committed, so the second lookup finds it. -/
theorem afterConflict_eq_resolve {r : IngestRequest}
    (h : ∃ e ∈ s.db.events.rows, r.Matches e) :
    ∃ e ∈ s.db.events.rows, r.Matches e ∧ s.afterConflict r = resolve e r := by
  unfold afterConflict
  split
  next e he =>
    obtain ⟨hmem, hm⟩ := getByIdempotencyKey_some he
    exact ⟨e, hmem, hm, rfl⟩
  next hnone =>
    obtain ⟨e, he, hm⟩ := h
    exact absurd hm (getByIdempotencyKey_none hnone he)

/-- A phase change trades the uncommitted row the call had for the one it has. -/
theorem live_setPhase (h : s.calls.get i = some c) (p : IngestPhase) :
    (c.uncommitted.toList ++ (s.setPhase c p).live).Perm
      ((IngestCall.uncommitted { c with phase := p }).toList ++ s.live) := by
  have hid : c.id = i := Table.key_of_get h
  have hget : s.calls.get (Keyed.key { c with phase := p }) = some c := by
    rw [IngestCall.key_eq, hid, h]
  have hperm := Table.filterMap_update_perm IngestCall.uncommitted hget
  refine (List.perm_append_comm_assoc ..).trans ?_
  refine List.Perm.trans ?_ (List.perm_append_comm_assoc ..)
  exact hperm.append_left _

theorem wrote_setPhase (h : s.calls.get i = some c) (p : IngestPhase) :
    (c.wrote.toList ++ (s.setPhase c p).calls.rows.filterMap IngestCall.wrote).Perm
      ((IngestCall.wrote { c with phase := p }).toList ++
        s.calls.rows.filterMap IngestCall.wrote) :=
  have hid : c.id = i := Table.key_of_get h
  Table.filterMap_update_perm IngestCall.wrote (by rw [IngestCall.key_eq, hid, h])

theorem nodup_live_setPhase {κ : Type*} (f : Event → κ) (h : s.calls.get i = some c)
    {p : IngestPhase} (hp : IngestCall.uncommitted { c with phase := p } = none ∨
      IngestCall.uncommitted { c with phase := p } = c.uncommitted)
    (hnd : (s.live.map f).Nodup) : ((s.setPhase c p).live.map f).Nodup := by
  have hperm := (live_setPhase h p).map f
  rcases hp with hp | hp
  · rw [hp, Option.toList_none, List.nil_append, List.map_append] at hperm
    exact (List.nodup_append.mp (hperm.nodup_iff.mpr hnd)).2.1
  · rw [hp, List.map_append, List.map_append, List.perm_append_left_iff] at hperm
    exact hperm.nodup_iff.mpr hnd

theorem inv_init (h : Init s) : Inv s := by
  obtain ⟨he, ho, hc⟩ := h
  have hlive : s.live = [] := by simp [live, he, hc]
  refine ⟨by simp [hlive], by simp [hlive], by rw [he, ho]; rfl, by simp [he, hc], ?_⟩
  intro c hmem
  rw [hc] at hmem
  cases hmem

/-- A phase change that inserts no row and commits none. -/
theorem Inv.setPhase (hI : Inv s) (h : s.calls.get i = some c) {p : IngestPhase}
    (hu : IngestCall.uncommitted { c with phase := p } = none ∨
      IngestCall.uncommitted { c with phase := p } = c.uncommitted)
    (hw : IngestCall.wrote { c with phase := p } = c.wrote)
    (hok : CallOk s.db.events.rows { c with phase := p }) : Inv (s.setPhase c p) := by
  have hwrote := wrote_setPhase h p
  rw [hw, List.perm_append_left_iff] at hwrote
  refine ⟨nodup_live_setPhase _ h hu hI.keys, nodup_live_setPhase _ h hu hI.ids, hI.entries,
    hwrote.trans hI.wrote, fun c' hc' => ?_⟩
  rcases Table.mem_update hc' with rfl | ⟨hc', -⟩
  · exact hok
  · exact hI.calls c' hc'

theorem Inv.lookup (hI : Inv s) {r : IngestRequest} {calls : Table IngestCall}
    (h : s.calls.insert ⟨i, r, s.afterLookup r⟩ = some calls) : Inv { s with calls } := by
  obtain ⟨-, hrows⟩ := Table.insert_eq_some.mp h
  obtain ⟨hw, hu⟩ := afterLookup_wrote s r i
  have hlive : live { s with calls } = s.live := by simp [live, hrows, hu]
  refine ⟨by rw [hlive]; exact hI.keys, by rw [hlive]; exact hI.ids, hI.entries, ?_, ?_⟩
  · simpa [hrows, hw] using hI.wrote
  · intro c hc
    rw [hrows, List.mem_append, List.mem_singleton] at hc
    rcases hc with hc | rfl
    · exact hI.calls c hc
    · exact callOk_afterLookup

/-- A fresh row under a key that no row has, committed or not. -/
theorem Inv.insert (hI : Inv s) {r : IngestRequest} {j : ℕ} {e : Event}
    (h : s.calls.get i = some ⟨j, r, .missing⟩) (hm : r.Matches e)
    (hkey : ∀ e' ∈ s.live, ¬r.Matches e') (hid : ∀ e' ∈ s.live, e'.id ≠ e.id) :
    Inv (s.setPhase ⟨j, r, .missing⟩ (.inserted e)) := by
  have hlive : (s.setPhase ⟨j, r, .missing⟩ (.inserted e)).live.Perm (e :: s.live) :=
    live_setPhase h (.inserted e)
  have hwrote := wrote_setPhase h (.inserted e)
  refine ⟨?_, ?_, hI.entries, hwrote.trans hI.wrote, fun c hc => ?_⟩
  · refine (hlive.map _).nodup_iff.mpr (List.nodup_cons.mpr ⟨?_, hI.keys⟩)
    intro hmem
    obtain ⟨e', he', hk⟩ := List.mem_map.mp hmem
    have hk : e'.tenantId = e.tenantId ∧ e'.idempotencyKey = e.idempotencyKey := by
      simpa [Event.uniqueKey] using hk
    exact hkey e' he' ⟨hk.1.trans hm.1, hk.2.trans hm.2⟩
  · refine (hlive.map _).nodup_iff.mpr (List.nodup_cons.mpr ⟨?_, hI.ids⟩)
    intro hmem
    obtain ⟨e', he', hk⟩ := List.mem_map.mp hmem
    exact hid e' he' hk
  · rcases Table.mem_update hc with rfl | ⟨hc, -⟩
    · exact hm
    · exact hI.calls c hc

/-- The event and its outbox row become visible together. -/
theorem Inv.commit (hI : Inv s) {r : IngestRequest} {j : ℕ} {e : Event} {o : OutboxEntry}
    {events : Table Event} {outbox : Table OutboxEntry}
    (h : s.calls.get i = some ⟨j, r, .outboxed e o⟩) (he : s.db.events.insert e = some events)
    (ho : s.db.outbox.insert o = some outbox) :
    Inv { s.setPhase ⟨j, r, .outboxed e o⟩ (.committed e) with
          db := { s.db with events, outbox } } := by
  obtain ⟨hm, hoe⟩ : r.Matches e ∧ o.eventId = e.id := hI.calls _ (Table.mem_of_get h)
  obtain ⟨-, hevents⟩ := Table.insert_eq_some.mp he
  obtain ⟨-, houtbox⟩ := Table.insert_eq_some.mp ho
  have hlive : live { s.setPhase ⟨j, r, .outboxed e o⟩ (.committed e) with
      db := { s.db with events, outbox } } |>.Perm s.live := by
    have hperm := live_setPhase h (.committed e)
    refine List.Perm.trans ?_ hperm
    simp only [live, hevents]
    rw [List.append_assoc]
    exact List.perm_append_comm_assoc ..
  have hwrote := wrote_setPhase h (.committed e)
  refine ⟨?_, ?_, ?_, ?_, fun c hc => ?_⟩
  · exact (hlive.map _).nodup_iff.mpr hI.keys
  · exact (hlive.map _).nodup_iff.mpr hI.ids
  · simp only [hevents, houtbox, List.map_append, hI.entries, List.map_cons, List.map_nil, hoe]
  · rw [hevents]
    exact (hwrote.trans (hI.wrote.cons e)).trans (List.perm_append_singleton _ _).symm
  · rcases Table.mem_update hc with rfl | ⟨hc, -⟩
    · exact ⟨by simp [hevents], hm⟩
    · refine (hI.calls c hc).mono fun e' he' => ?_
      simp [hevents, he']

/-- The outbox has no row for an event that is not committed, so its insert cannot fail. -/
theorem createOutbox_ok (hI : Inv s) {r : IngestRequest} {j : ℕ} {e : Event} {id : UUID}
    {createdAt : ℤ} (h : s.calls.get i = some ⟨j, r, .inserted e⟩)
    (hid : ∀ o ∈ s.liveEntries, o.id ≠ id) (err : Raised) :
    s.db.createOutboxEntry id e.id createdAt ≠ .error err := by
  have hmem : e ∈ s.calls.rows.filterMap IngestCall.uncommitted :=
    List.mem_filterMap.mpr ⟨_, Table.mem_of_get h, rfl⟩
  have hnd := hI.ids
  rw [live, List.map_append, List.nodup_append] at hnd
  have hnew : s.db.outbox.rows.any (fun o => o.eventId = e.id) = false := by
    refine List.any_eq_false.mpr fun o ho => ?_
    have hoid : o.eventId ∈ s.db.events.rows.map Event.id :=
      hI.entries ▸ List.mem_map_of_mem ho
    simpa using hnd.2.2 _ hoid _ (List.mem_map_of_mem hmem)
  have hget : s.db.outbox.get id = none :=
    Table.get_eq_none.mpr fun o ho => hid o (List.mem_append_left _ ho)
  unfold Db.createOutboxEntry
  simp only [hnew, Bool.false_eq_true, if_false]
  split
  next => simp
  next hins =>
    obtain ⟨o, ho⟩ := Table.insert_eq_none.mp hins
    have hnone : s.db.outbox.get id = some o := ho
    rw [hget] at hnone
    cases hnone

theorem Inv.step (hI : Inv s) (h : step jsonb s a = some t) : Inv t := by
  cases steps_of_step h with
  | lookup hc => exact hI.lookup hc
  | conflict hi hw =>
    obtain ⟨hmem, hm⟩ := getByIdempotencyKey_some hw
    exact hI.setPhase hi (.inl rfl) rfl ⟨_, hmem, hm⟩
  | insert hi hlock hnone hid =>
    refine hI.insert hi ⟨rfl, rfl⟩ (fun e he => ?_) hid
    rcases List.mem_append.mp he with he | he
    · exact getByIdempotencyKey_none hnone he
    · exact not_matches_of_keyLocked hlock he
  | createOutbox hi hid ho =>
    have hm := hI.calls _ (Table.mem_of_get hi)
    obtain ⟨outbox, -, -, hoe⟩ := Db.createOutboxEntry_ok ho
    exact hI.setPhase hi (.inr rfl) rfl ⟨hm, hoe⟩
  | refuseOutbox hi hid ho => exact absurd ho (createOutbox_ok hI hi hid _)
  | commit hi he ho => exact hI.commit hi he ho
  | @relookup _ j r hi =>
    obtain ⟨e, he, hm, heq⟩ := afterConflict_eq_resolve (hI.calls _ (Table.mem_of_get hi))
    obtain ⟨hw, hu⟩ := resolve_wrote e r j
    rw [heq]
    exact hI.setPhase hi (.inl hu) hw (callOk_resolve he hm)
  | finish hi =>
    have hok := hI.calls _ (Table.mem_of_get hi)
    exact hI.setPhase hi (.inl rfl) rfl hok
  | stop hi => exact hI.setPhase hi (.inl rfl) rfl trivial

/-- The invariant reads the events and the outbox only. -/
theorem Inv.frame (hI : Inv s) {endpoints : Table Endpoint} :
    Inv { s with db := { s.db with endpoints } } :=
  ⟨hI.keys, hI.ids, hI.entries, hI.wrote, hI.calls⟩

/-- Exactly-once ingestion, in one committed state. A call that is over has either committed its
own event or found the stored one, and then it returns that one if the bodies are equal and
raises otherwise. -/
structure ExactlyOnce (s : Ingest) : Prop where
  one_event : ∀ e ∈ s.db.events.rows, ∀ e' ∈ s.db.events.rows,
    e.tenantId = e'.tenantId → e.idempotencyKey = e'.idempotencyKey → e = e'
  one_entry : ∀ e ∈ s.db.events.rows, ∃! o, o ∈ s.db.outbox.rows ∧ o.eventId = e.id
  entry_event : ∀ o ∈ s.db.outbox.rows, ∃ e ∈ s.db.events.rows, o.eventId = e.id
  /-- Every event was committed by exactly one call, and a call that raises commits none. -/
  written : (s.calls.rows.filterMap IngestCall.wrote).Perm s.db.events.rows
  returned : ∀ c ∈ s.calls.rows, ∀ e created, c.phase = .returned e created →
    e ∈ s.db.events.rows ∧ c.request.Matches e
  same_event : ∀ c ∈ s.calls.rows, ∀ c' ∈ s.calls.rows, ∀ e e' created created',
    c.phase = .returned e created → c'.phase = .returned e' created' →
    c.request.tenantId = c'.request.tenantId →
    c.request.idempotencyKey = c'.request.idempotencyKey → e = e'
  differing : ∀ c ∈ s.calls.rows, ∀ e ∈ s.db.events.rows, c.request.Matches e →
    c.wrote ≠ some e → c.isOver = true → c.request.sameBody e = false →
    c.phase = .raised (.differingBodyConflict c.request.tenantId c.request.idempotencyKey)
  raised : ∀ c ∈ s.calls.rows, ∀ err, c.phase = .raised err →
    err = .differingBodyConflict c.request.tenantId c.request.idempotencyKey ∧
      ∃ e ∈ s.db.events.rows, c.request.Matches e ∧ c.request.sameBody e = false

theorem eq_of_matches (hI : Inv s) {r : IngestRequest} {e e' : Event}
    (he : e ∈ s.db.events.rows) (he' : e' ∈ s.db.events.rows) (hm : r.Matches e)
    (hm' : r.Matches e') : e = e' := by
  have hnd : (s.db.events.rows.map Event.uniqueKey).Nodup := by
    have hkeys := hI.keys
    rw [live, List.map_append, List.nodup_append] at hkeys
    exact hkeys.1
  refine List.inj_on_of_nodup_map hnd he he' ?_
  simp [Event.uniqueKey, hm.1, hm.2, hm'.1, hm'.2]

/-- The event a call returns is committed under its tenant and key. -/
theorem mem_of_returned (hI : Inv s) {e : Event} {created : Bool} (hc : c ∈ s.calls.rows)
    (hp : c.phase = .returned e created) : e ∈ s.db.events.rows ∧ c.request.Matches e := by
  have hok := hI.calls c hc
  rw [CallOk, hp] at hok
  cases created with
  | true => exact hok
  | false => exact ⟨hok.1, hok.2.1⟩

theorem exactlyOnce_of_inv (hI : Inv s) : ExactlyOnce s where
  one_event e he e' he' hT hK := eq_of_matches hI
    (r := ⟨e'.tenantId, e'.type, e'.payload, e'.idempotencyKey, none⟩) he he' ⟨hT, hK⟩ ⟨rfl, rfl⟩
  one_entry e he := by
    have hmem : e.id ∈ s.db.outbox.rows.map OutboxEntry.eventId :=
      hI.entries ▸ List.mem_map_of_mem he
    obtain ⟨o, ho, hoe⟩ := List.mem_map.mp hmem
    refine ⟨o, ⟨ho, hoe⟩, fun o' ⟨ho', hoe'⟩ => ?_⟩
    have hnd : (s.db.outbox.rows.map OutboxEntry.eventId).Nodup := hI.entries ▸ s.db.events.nodup
    exact List.inj_on_of_nodup_map hnd ho' ho (hoe'.trans hoe.symm)
  entry_event o ho := by
    have hmem : o.eventId ∈ s.db.events.rows.map Event.id :=
      hI.entries ▸ List.mem_map_of_mem ho
    obtain ⟨e, he, heq⟩ := List.mem_map.mp hmem
    exact ⟨e, he, heq.symm⟩
  written := hI.wrote
  returned c hc e created hp := mem_of_returned hI hc hp
  same_event c hc c' hc' e e' created created' hp hp' hT hK := by
    obtain ⟨he, hm⟩ := mem_of_returned hI hc hp
    obtain ⟨he', hm'⟩ := mem_of_returned hI hc' hp'
    exact eq_of_matches hI he he' hm ⟨hm'.1.trans hT.symm, hm'.2.trans hK.symm⟩
  differing c hc e he hm hw hover hbody := by
    have hok := hI.calls c hc
    obtain ⟨j, r, p⟩ := c
    cases p with
    | missing | inserted | outboxed | conflicted | committed | stopped => cases hover
    | raised err => rw [hok.1]
    | returned e' created =>
      cases created with
      | true =>
        obtain rfl := eq_of_matches hI hok.1 he hok.2 hm
        exact absurd rfl hw
      | false =>
        obtain rfl := eq_of_matches hI hok.1 he hok.2.1 hm
        rw [hok.2.2] at hbody
        cases hbody
  raised c hc err hp := by
    have hok := hI.calls c hc
    rw [CallOk, hp] at hok
    exact hok

/-- Ingestion is exactly-once per key in every state that any number of concurrent calls reach,
whatever calls stop on the way. -/
theorem ingest_exactly_once (jsonb : Json → Json) (t : Ingest)
    (h : Transition.Reachable (step jsonb) Init t) : ExactlyOnce t :=
  exactlyOnce_of_inv (h.invariant (fun _ => inv_init) fun _ _ _ hI hst => hI.step hst)

def sampleRequest (payload : Json) : IngestRequest :=
  { tenantId := 9, eventType := [0x74], payload, idempotencyKey := [0x6b] }

/-- Two calls race for one key with different bodies: the second insert meets the committed
event of the first. -/
def sampleRace : List IngestAction :=
  [.lookup 0 (sampleRequest .null), .lookup 1 (sampleRequest (.bool true)), .insert 0 1 0,
    .createOutbox 0 2 0, .commit 0, .insert 1 3 0, .relookup 1, .finish 0]

theorem ingest_exactly_once_sample :
    ∃ t, Transition.run (step id) ⟨.empty, .empty⟩ sampleRace = some t ∧
      t.db.events.rows.length = 1 ∧ ExactlyOnce t := by
  obtain ⟨t, ht⟩ : ∃ t, Transition.run (step id) ⟨.empty, .empty⟩ sampleRace = some t := ⟨_, rfl⟩
  have hlen : (Transition.run (step id) ⟨.empty, .empty⟩ sampleRace).map
      (fun t => t.db.events.rows.length) = some 1 := rfl
  rw [ht, Option.map_some, Option.some.injEq] at hlen
  exact ⟨t, ht, hlen, ingest_exactly_once id t ⟨_, sampleRace, ⟨rfl, rfl, rfl⟩, ht⟩⟩

end Ingest

end RelayWebhooks
