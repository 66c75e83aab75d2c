import RelayWebhooks.Services.Ingest
import RelayWebhooks.Py.JsonValue
import Mathlib.Data.List.Pairwise

/-! What a second call under a key is answered, once a first one has committed its event. -/
namespace RelayWebhooks
namespace Ingest

variable {jsonb : Json → Json} {s t : Ingest} {a : IngestAction} {c c₁ : IngestCall}

/-- The event a call has inserted is the one its request asks for. -/
def StoresRequest (jsonb : Json → Json) (c : IngestCall) : Prop :=
  ∀ e, c.wrote = some e ∨ c.uncommitted = some e →
    ∃ id createdAt, e = newEvent jsonb c.request id createdAt

theorem storesRequest_of_none {i : ℕ} {r : IngestRequest} {p : IngestPhase}
    (h : IngestCall.wrote ⟨i, r, p⟩ = none ∧ IngestCall.uncommitted ⟨i, r, p⟩ = none) :
    StoresRequest jsonb ⟨i, r, p⟩ := by
  rintro e (he | he)
  · rw [h.1] at he
    cases he
  · rw [h.2] at he
    cases he

theorem storesRequest_setPhase (h : ∀ c ∈ s.calls.rows, StoresRequest jsonb c) {p : IngestPhase}
    (hp : StoresRequest jsonb { c₁ with phase := p }) :
    ∀ c ∈ (s.setPhase c₁ p).calls.rows, StoresRequest jsonb c := by
  intro c hc
  rcases Table.mem_update hc with rfl | ⟨hc, -⟩
  · exact hp
  · exact h c hc

theorem afterConflict_wrote (s : Ingest) (r : IngestRequest) (j : ℕ) :
    IngestCall.wrote ⟨j, r, s.afterConflict r⟩ = none ∧
      IngestCall.uncommitted ⟨j, r, s.afterConflict r⟩ = none := by
  unfold afterConflict
  split
  next e _ => exact resolve_wrote e r j
  next => exact ⟨rfl, rfl⟩

theorem storesRequest_step (h : ∀ c ∈ s.calls.rows, StoresRequest jsonb c)
    (hstep : step jsonb s a = some t) : ∀ c ∈ t.calls.rows, StoresRequest jsonb c := by
  cases steps_of_step hstep with
  | lookup hi =>
    intro c hc
    rw [(Table.insert_eq_some.mp hi).2, List.mem_append, List.mem_singleton] at hc
    rcases hc with hc | rfl
    · exact h c hc
    · exact storesRequest_of_none (afterLookup_wrote ..)
  | conflict hi hw => exact storesRequest_setPhase h (storesRequest_of_none ⟨rfl, rfl⟩)
  | insert hi hlock hnone hid =>
    apply storesRequest_setPhase h
    rintro e (he | he)
    · cases he
    · exact ⟨_, _, (Option.some.inj he).symm⟩
  | createOutbox hi hid ho =>
    apply storesRequest_setPhase h
    rintro e (he | he)
    · cases he
    · exact h _ (Table.mem_of_get hi) e (.inr he)
  | refuseOutbox hi hid ho => exact storesRequest_setPhase h (storesRequest_of_none ⟨rfl, rfl⟩)
  | commit hi he ho =>
    apply storesRequest_setPhase h
    rintro e (he | he)
    · exact h _ (Table.mem_of_get hi) e (.inr he)
    · cases he
  | relookup hi => exact storesRequest_setPhase h (storesRequest_of_none (afterConflict_wrote ..))
  | finish hi =>
    apply storesRequest_setPhase h
    rintro e (he | he)
    · exact h _ (Table.mem_of_get hi) e (.inl he)
    · cases he
  | stop hi =>
    apply storesRequest_setPhase h
    rintro e (he | he)
    · exact h _ (Table.mem_of_get hi) e (.inl he)
    · cases he

/-- The phase a call of the second request ends in: one that starts now, or one that has been
running beside `c₁`. -/
def SecondAnswer (t : Ingest) (c₁ : IngestCall) (r : IngestRequest) (p : IngestPhase) : Prop :=
  p = t.afterLookup r ∨
    ∃ c ∈ t.calls.rows, c.id ≠ c₁.id ∧ c.request = r ∧ c.isOver = true ∧ c.phase = p

/-- The second request is answered by the first one's event if it says the same, and refused
otherwise. -/
structure ReplayedExactly (e : Event) (r₁ r₂ : IngestRequest) (p : IngestPhase) : Prop where
  returns : p = .returned e false ↔
    r₁.eventType = r₂.eventType ∧ r₁.payload.Same r₂.payload
  raises : ¬(r₁.eventType = r₂.eventType ∧ r₁.payload.Same r₂.payload) →
    p = .raised (.differingBodyConflict r₂.tenantId r₂.idempotencyKey)

/-- Two calls have not written one event. -/
theorem eq_of_wrote (hI : Inv s) {e : Event} (hc : c ∈ s.calls.rows) (hc₁ : c₁ ∈ s.calls.rows)
    (hw : c.wrote = some e) (hw₁ : c₁.wrote = some e) : c = c₁ := by
  have hnd : (s.calls.rows.filterMap IngestCall.wrote).Nodup :=
    hI.wrote.nodup_iff.mpr (List.Nodup.of_map Event.id s.db.events.nodup)
  rw [List.Nodup, List.pairwise_filterMap] at hnd
  by_contra hne
  have : Std.Symm fun x y : IngestCall =>
      ∀ b, x.wrote = some b → ∀ b', y.wrote = some b' → b ≠ b' :=
    ⟨fun x y hxy b hb b' hb' heq => hxy b' hb' b hb heq.symm⟩
  exact hnd.forall hc hc₁ hne e hw e hw₁ rfl

theorem mem_of_wrote (hI : Inv s) {e : Event} (hc : c ∈ s.calls.rows) (hw : c.wrote = some e) :
    e ∈ s.db.events.rows :=
  hI.wrote.mem_iff.mp (List.mem_filterMap.mpr ⟨c, hc, hw⟩)

theorem afterLookup_eq_resolve (hI : Inv s) {e : Event} {r : IngestRequest}
    (he : e ∈ s.db.events.rows) (hm : r.Matches e) : s.afterLookup r = resolve e r := by
  unfold afterLookup
  cases hfound : s.db.getByIdempotencyKey r.tenantId r.idempotencyKey with
  | none => exact absurd hm (getByIdempotencyKey_none hfound he)
  | some e' =>
    obtain ⟨he', hm'⟩ := getByIdempotencyKey_some hfound
    rw [eq_of_matches hI he he' hm hm']

/-- Whichever way it gets there, the second call compares with the first one's event. -/
theorem secondAnswer_eq (hI : Inv t) {e : Event} {r : IngestRequest} {p : IngestPhase}
    (hc₁ : c₁ ∈ t.calls.rows) (hw : c₁.wrote = some e) (hm : r.Matches e)
    (hp : SecondAnswer t c₁ r p) : p = resolve e r := by
  have he := mem_of_wrote hI hc₁ hw
  rcases hp with rfl | ⟨c, hc, hid, rfl, hover, rfl⟩
  · exact afterLookup_eq_resolve hI he hm
  · have hok := hI.calls c hc
    obtain ⟨j, r, p⟩ := c
    cases p with
    | missing | inserted | outboxed | conflicted | committed | stopped => cases hover
    | raised err =>
      obtain ⟨herr, e', he', hm', hbody⟩ := hok
      obtain rfl := eq_of_matches hI he he' hm hm'
      rw [resolve, if_neg (by simpa using hbody), herr]
    | returned e' created =>
      cases created with
      | true =>
        obtain rfl := eq_of_matches hI he hok.1 hm hok.2
        exact absurd (congrArg IngestCall.id (eq_of_wrote hI hc hc₁ rfl hw)) hid
      | false =>
        obtain rfl := eq_of_matches hI he hok.1 hm hok.2.1
        exact (if_pos hok.2.2).symm

section
variable (hjsonb : ∀ x : Json, x.WellFormed → (jsonb x).WellFormed ∧ (jsonb x).Same x)
include hjsonb

theorem sameBody_iff {r₁ r₂ : IngestRequest} (hp₁ : r₁.payload.WellFormed)
    (hp₂ : r₂.payload.WellFormed) (id : UUID) (createdAt : ℤ) :
    r₂.sameBody (newEvent jsonb r₁ id createdAt) = true ↔
      r₁.eventType = r₂.eventType ∧ r₁.payload.SameAsNumbers r₂.payload := by
  obtain ⟨hwf, hsame⟩ := hjsonb r₁.payload hp₁
  have hstored : (jsonb r₁.payload).SameAsNumbers r₂.payload ↔
      r₁.payload.SameAsNumbers r₂.payload :=
    forall_congr' fun p => by rw [hsame p]
  rw [IngestRequest.sameBody, Bool.and_eq_true, newEvent, Json.pyEq_iff hwf hp₂, hstored]
  exact and_congr_left' decide_eq_true_iff

/-- A reused key replays the event exactly for the same body, unless the bodies differ only in
that one has booleans where the other has the numbers Python takes them for. -/
theorem replayed_exactly_iff (h : Transition.Reachable (step jsonb) Init t)
    (hc₁ : c₁ ∈ t.calls.rows) {e : Event} (hw : c₁.wrote = some e) {r₂ : IngestRequest}
    (htenant : r₂.tenantId = c₁.request.tenantId)
    (hkey : r₂.idempotencyKey = c₁.request.idempotencyKey)
    (hp₁ : c₁.request.payload.WellFormed) (hp₂ : r₂.payload.WellFormed) {p : IngestPhase}
    (hp : SecondAnswer t c₁ r₂ p) : ReplayedExactly e c₁.request r₂ p ↔
      (c₁.request.eventType = r₂.eventType → c₁.request.payload.SameAsNumbers r₂.payload →
        ¬c₁.request.payload.BoolAgainstNumber r₂.payload) := by
  have hI : Inv t := h.invariant (fun _ => inv_init) fun _ _ _ hI hst => hI.step hst
  have hstores : ∀ c ∈ t.calls.rows, StoresRequest jsonb c :=
    h.invariant (I := fun s => ∀ c ∈ s.calls.rows, StoresRequest jsonb c)
      (fun s hs c hc => by rw [hs.2.2] at hc; cases hc) fun _ _ _ h hst => storesRequest_step h hst
  obtain ⟨id, createdAt, rfl⟩ := hstores c₁ hc₁ e (.inl hw)
  obtain rfl := secondAnswer_eq hI hc₁ hw ⟨htenant.symm, hkey.symm⟩ hp
  have hbody := sameBody_iff hjsonb hp₁ hp₂ id createdAt
  have hsame : c₁.request.payload.Same r₂.payload ↔
      c₁.request.payload.SameAsNumbers r₂.payload ∧
        ¬c₁.request.payload.BoolAgainstNumber r₂.payload := Json.same_iff
  unfold resolve
  constructor
  · intro hexact htype hnumbers
    have hreturned := hexact.returns.mp (if_pos (hbody.mpr ⟨htype, hnumbers⟩))
    exact (hsame.mp hreturned.2).2
  · intro hclear
    have hagree : r₂.sameBody (newEvent jsonb c₁.request id createdAt) = true ↔
        c₁.request.eventType = r₂.eventType ∧ c₁.request.payload.Same r₂.payload := by
      rw [hbody, hsame]
      exact and_congr_right fun htype => (and_iff_left_of_imp (hclear htype)).symm
    constructor
    · rw [← hagree]
      split <;> simp_all
    · rw [← hagree]
      intro hdiffer
      exact if_neg hdiffer

end

/-- A request whose payload has one member. -/
def memberRequest (x : Json) : IngestRequest := sampleRequest (.obj [([0x61], x)])

/-- A second call repeats the key of a first one that has returned. -/
def sampleRepeat (x y : Json) : List IngestAction :=
  [.lookup 0 (memberRequest x), .insert 0 1 0, .createOutbox 0 2 0, .commit 0, .finish 0,
    .lookup 1 (memberRequest y)]

def sampleFirst (x : Json) : IngestCall :=
  ⟨0, memberRequest x, .returned (newEvent id (memberRequest x) 1 0) true⟩

def sampleSecond (x y : Json) : IngestCall :=
  ⟨1, memberRequest y, resolve (newEvent id (memberRequest x) 1 0) (memberRequest y)⟩

theorem sampleRepeat_run (x y : Json) : ∃ t,
    Transition.run (step id) ⟨.empty, .empty⟩ (sampleRepeat x y) = some t ∧
      sampleFirst x ∈ t.calls.rows ∧ sampleSecond x y ∈ t.calls.rows := by
  have hrun : (Transition.run (step id) ⟨.empty, .empty⟩ (sampleRepeat x y)).map
      (fun t => t.calls.rows) = some [sampleFirst x, sampleSecond x y] := rfl
  obtain ⟨t, ht, hrows⟩ := Option.map_eq_some_iff.mp hrun
  exact ⟨t, ht, by simp [hrows], by simp [hrows]⟩

theorem memberRequest_wellFormed {x : Json} (h : x.WellFormed) :
    (memberRequest x).payload.WellFormed := by
  simpa [memberRequest, sampleRequest, Json.WellFormed, Json.WellFormedMembers] using h

theorem replayed_exactly_iff_sample : ∃ t,
    Transition.run (step id) ⟨.empty, .empty⟩ (sampleRepeat (.int 1) (.int 1)) = some t ∧
    ∃ c₁ ∈ t.calls.rows, ∃ c₂ ∈ t.calls.rows, ∃ e, c₁.wrote = some e ∧
      ReplayedExactly e c₁.request c₂.request c₂.phase := by
  obtain ⟨t, ht, h₁, h₂⟩ := sampleRepeat_run (.int 1) (.int 1)
  have hwf : (memberRequest (.int 1)).payload.WellFormed :=
    memberRequest_wellFormed (by simp [Json.WellFormed])
  have hover : (sampleSecond (.int 1) (.int 1)).isOver = true := rfl
  refine ⟨t, ht, _, h₁, _, h₂, _, rfl, ?_⟩
  apply (replayed_exactly_iff (fun x hx => ⟨hx, fun _ => rfl⟩) ⟨_, _, ⟨rfl, rfl, rfl⟩, ht⟩ h₁ rfl
    rfl rfl hwf hwf (.inr ⟨_, h₂, by decide, rfl, hover, rfl⟩)).mpr
  intro _ _
  exact (Json.same_iff.mp fun _ => rfl).2

/-- `true` and 1 are different bodies, and the second is answered with the event of the first. -/
theorem boolean_replayed_for_number : ∃ t,
    Transition.run (step id) ⟨.empty, .empty⟩ (sampleRepeat (.bool true) (.int 1)) = some t ∧
    ∃ c₁ ∈ t.calls.rows, ∃ c₂ ∈ t.calls.rows, ∃ e, c₁.wrote = some e ∧
      c₁.request.payload.WellFormed ∧ c₂.request.payload.WellFormed ∧
      c₂.phase = .returned e false ∧ ¬c₁.request.payload.Same c₂.request.payload := by
  obtain ⟨t, ht, h₁, h₂⟩ := sampleRepeat_run (.bool true) (.int 1)
  refine ⟨t, ht, _, h₁, _, h₂, _, rfl, memberRequest_wellFormed (by simp [Json.WellFormed]),
    memberRequest_wellFormed (by simp [Json.WellFormed]), rfl, fun hsame => ?_⟩
  have hnode := hsame [.member [0x61]]
  simp [sampleFirst, sampleSecond, memberRequest, sampleRequest, Json.node, Json.child,
    Json.kind] at hnode

end Ingest
end RelayWebhooks
