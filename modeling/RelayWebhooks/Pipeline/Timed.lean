import RelayWebhooks.Pipeline.Frames
import RelayWebhooks.Workers.Reaper

/-! The pipeline with the clock of the stream. A reaper claims by idle time alone, and looks up
whatever it has claimed. As long as workers and relays are quicker than the minimum idle time, its
runs are runs of the pipeline. -/
namespace RelayWebhooks

/-- `since` and `added` tell when an entry was last handed out and when it came. -/
structure TimedPipeline where
  pipeline : Pipeline
  now : ℤ
  since : ℕ → ℤ
  added : ℕ → ℤ

/-- `act` takes any action of the pipeline but those of a reaper that `sweep` and `examine`
replace. -/
inductive TimedAction where
  | wait (ms : ℕ)
  | sweep (worker count : ℕ)
  | examine (i : ℕ)
  | act (a : PipelineAction)

namespace TimedPipeline
open Pipeline DeliveryAttemptService

def stream (x : TimedPipeline) : TimedStream := ⟨x.pipeline.stream, x.since⟩

/-- The pipeline goes on to `t` and hands out the entries `taken`. -/
def restamp (x : TimedPipeline) (t : Pipeline) (taken : List ℕ) : TimedPipeline where
  pipeline := t
  now := x.now
  since i := if i ∈ taken then x.now else x.since i
  added i := if i < x.pipeline.stream.entries.length then x.added i else x.now

/-- XAUTOCLAIM by a reaper. The state keeps one worker for each entry, so it follows the code only
while no entry is claimed that a worker still has in hand. -/
def sweep (x : TimedPipeline) (minIdleMs : ℤ) (worker count : ℕ) : TimedPipeline :=
  let claimed := x.stream.claimable minIdleMs x.now count
  x.restamp
    { x.pipeline with
      stream := (x.stream.xautoclaim worker minIdleMs x.now count).group
      handlers := fun i =>
        if i ∈ claimed then some ⟨worker, .reaper, .claimed⟩ else x.pipeline.handlers i }
    claimed

/-- `attempt` reads its rows, whatever transactions are open. -/
def examine (s : Pipeline) (i : ℕ) : Option Pipeline :=
  match s.handlers i, s.stream.entries[i]? with
  | some ⟨w, kind, .claimed⟩, some m =>
    match loadRows s.db m.deliveryId with
    | .ok (d, ev, e) => some (s.setHandler i (some ⟨w, kind, .attempting d ev e⟩))
    | .error err => some (s.setHandler i (afterError ⟨w, kind, .claimed⟩ err))
  | _, _ => none

/-- The entries an action of the pipeline hands out. -/
def taken (s : Pipeline) : PipelineAction → List ℕ
  | .read _ count => s.stream.unread count
  | _ => []

def step (le : RetryMember → RetryMember → Bool) (minIdleMs : ℤ) (x : TimedPipeline) :
    TimedAction → Option TimedPipeline
  | .wait ms => some { x with now := x.now + ms }
  | .sweep worker count => some (x.sweep minIdleMs worker count)
  | .examine i => (examine x.pipeline i).map fun t => x.restamp t []
  | .act a =>
    match a with
    | .autoclaim .. | .beginAttempt .. => none
    | a => (x.pipeline.step le a).map fun t => x.restamp t (taken x.pipeline a)

def Init (x : TimedPipeline) : Prop := x.pipeline.Init

/-- No worker has an entry in hand, and no fan-out transaction stays open behind a message it has
sent, for the minimum idle time. -/
structure Timely (minIdleMs : ℤ) (x : TimedPipeline) : Prop where
  workers : ∀ i h, x.pipeline.handlers i = some h → x.now < x.since i + minIdleMs
  relays : ∀ r d i m, x.pipeline.Inserted r d → x.pipeline.stream.entries[i]? = some m →
    m.deliveryId = d.id → x.now < x.added i + minIdleMs

/-- What the times say about the stream. -/
structure Dated (minIdleMs : ℤ) (x : TimedPipeline) : Prop where
  added : ∀ i < x.pipeline.stream.entries.length, x.added i ≤ x.now
  since : ∀ i < x.pipeline.stream.delivered, x.added i ≤ x.since i ∧ x.since i ≤ x.now
  reapers : ∀ i h, x.pipeline.handlers i = some h → h.kind = .reaper →
    x.added i + minIdleMs ≤ x.since i
  handedOut : HandedOut x.pipeline

variable {le : RetryMember → RetryMember → Bool} {minIdleMs : ℤ} {x y : TimedPipeline}
  {a : TimedAction} {t : Pipeline}

theorem dated_init (h : Init x) : Dated minIdleMs x := by
  obtain ⟨-, hstream, -, -, hh⟩ := h
  refine ⟨fun i hi => ?_, fun i hi => ?_, fun i k hk => ?_, fun i k hk => ?_⟩
  · rw [hstream] at hi
    exact (Nat.not_lt_zero i hi).elim
  · rw [hstream] at hi
    exact (Nat.not_lt_zero i hi).elim
  · rw [hh] at hk
    cases hk
  · rw [hh] at hk
    cases hk

theorem Dated.restamp (hD : Dated minIdleMs x) {taken : List ℕ}
    (hdel : ∀ i < t.stream.delivered, i ∈ taken ∨ i < x.pipeline.stream.delivered)
    (htaken : ∀ i ∈ taken, i < x.pipeline.stream.entries.length)
    (hreap : ∀ i h, t.handlers i = some h → h.kind = .reaper →
      (i ∈ taken → x.added i + minIdleMs ≤ x.now) ∧
        (i ∉ taken → ∃ h₀, x.pipeline.handlers i = some h₀ ∧ h₀.kind = .reaper))
    (hH : HandedOut t) : Dated minIdleMs (x.restamp t taken) where
  added i hi := by
    simp only [TimedPipeline.restamp]
    split
    next hlt => exact hD.added i hlt
    next => exact Int.le_refl _
  since i hi := by
    simp only [TimedPipeline.restamp]
    rcases hdel i hi with htake | hlt
    · rw [if_pos htake, if_pos (htaken i htake)]
      exact ⟨hD.added i (htaken i htake), Int.le_refl _⟩
    · have hlen := x.pipeline.stream.delivered_le
      rw [if_pos (Nat.lt_of_lt_of_le hlt hlen)]
      split
      next => exact ⟨hD.added i (Nat.lt_of_lt_of_le hlt hlen), Int.le_refl _⟩
      next => exact hD.since i hlt
  reapers i h hi hkind := by
    obtain ⟨hnew, hold⟩ := hreap i h hi hkind
    simp only [TimedPipeline.restamp]
    by_cases htake : i ∈ taken
    · rw [if_pos htake, if_pos (htaken i htake)]
      exact hnew htake
    · obtain ⟨h₀, hi₀, hkind₀⟩ := hold htake
      have hlt := Nat.lt_of_lt_of_le (hD.handedOut i h₀ hi₀) x.pipeline.stream.delivered_le
      rw [if_neg htake, if_pos hlt]
      exact hD.reapers i h₀ hi₀ hkind₀
  handedOut := hH

theorem claimable_lt {count i : ℕ} (hi : i ∈ x.stream.claimable minIdleMs x.now count) :
    i < x.pipeline.stream.delivered ∧ (minIdleMs = 0 ∨ minIdleMs ≤ x.now - x.since i) := by
  obtain ⟨hp, hidle⟩ := TimedGroup.mem_of_mem_claimable hi
  refine ⟨(TimedGroup.mem_pendingEntries.mp hp).1, ?_⟩
  exact (Bool.or_eq_true_iff.mp hidle).imp of_decide_eq_true of_decide_eq_true

/-- What has been idle long enough is on nobody's hands. -/
theorem Timely.handlers_claimable (hT : Timely minIdleMs x) (hD : Dated minIdleMs x) {count i : ℕ}
    (hi : i ∈ x.stream.claimable minIdleMs x.now count) : x.pipeline.handlers i = none := by
  obtain ⟨hlt, hidle⟩ := claimable_lt hi
  cases hh : x.pipeline.handlers i with
  | none => rfl
  | some h =>
    have htime := hT.workers i h hh
    have hsince := (hD.since i hlt).2
    omega

theorem sweep_eq (hT : Timely minIdleMs x) (hD : Dated minIdleMs x) (worker count : ℕ) :
    (x.sweep minIdleMs worker count).pipeline =
      x.pipeline.autoclaim worker (x.stream.claimable minIdleMs x.now count) count := by
  have hstale : (fun i => decide (i ∈ x.stream.claimable minIdleMs x.now count) &&
      (x.pipeline.handlers i).isNone) =
        fun i => decide (i ∈ x.stream.claimable minIdleMs x.now count) := by
    funext i
    by_cases hi : i ∈ x.stream.claimable minIdleMs x.now count
    · simp [hi, hT.handlers_claimable hD hi]
    · simp [hi]
  unfold Pipeline.autoclaim
  simp only [hstale]
  have hmem : ∀ i, i ∈ x.pipeline.stream.stalePending
      (fun i => decide (i ∈ x.stream.claimable minIdleMs x.now count)) count ↔
        i ∈ x.stream.claimable minIdleMs x.now count := fun i =>
    @TimedGroup.mem_stalePending_claimable _ _ x.stream minIdleMs x.now count i
  simp only [hmem]
  rfl

theorem examine_eq (hT : Timely minIdleMs x) (hD : Dated minIdleMs x) (i : ℕ) :
    examine x.pipeline i = x.pipeline.beginAttempt i := by
  unfold examine Pipeline.beginAttempt
  cases hh : x.pipeline.handlers i with
  | none => rfl
  | some h =>
    obtain ⟨w, kind, p⟩ := h
    cases p with
    | claimed =>
      cases hm : x.pipeline.stream.entries[i]? with
      | none => rfl
      | some m =>
        have hclosed : ¬(kind = .reaper ∧ x.pipeline.fanOutOpen m.deliveryId = true) := by
          rintro ⟨hkind, hopen⟩
          obtain ⟨tx, htx, hany⟩ := List.any_eq_true.mp hopen
          obtain ⟨d, hd, hid⟩ := List.any_eq_true.mp hany
          have htime := hT.relays tx.id d i m ⟨tx, htx, rfl, hd⟩ hm (of_decide_eq_true hid).symm
          have hreap := hD.reapers i _ hh hkind
          have hsince := (hD.since i (hD.handedOut i _ hh)).2
          omega
        exact (if_neg hclosed).symm
    | _ => rfl

/-- The machine takes a step of the pipeline, or only its clock moves. -/
def Follows (le : RetryMember → RetryMember → Bool) (s t : Pipeline) : Prop :=
  t = s ∨ ∃ b, s.step le b = some t

theorem dated_wait (hD : Dated minIdleMs x) (ms : ℕ) :
    Dated minIdleMs { x with now := x.now + ms } where
  added i hi := by
    have hadded := hD.added i hi
    dsimp only
    omega
  since i hi := by
    have hsince := hD.since i hi
    dsimp only
    omega
  reapers := hD.reapers
  handedOut := hD.handedOut

theorem dated_sweep (hT : Timely minIdleMs x) (hD : Dated minIdleMs x) (worker count : ℕ) :
    Dated minIdleMs (x.sweep minIdleMs worker count) ∧
      Follows le x.pipeline (x.sweep minIdleMs worker count).pipeline := by
  have hstep : x.pipeline.step le
      (.autoclaim worker (x.stream.claimable minIdleMs x.now count) count) =
        some (x.sweep minIdleMs worker count).pipeline :=
    congrArg some (sweep_eq hT hD worker count).symm
  refine ⟨hD.restamp (fun i hi => .inr hi) (fun i hi => ?_) (fun i h hi hkind => ⟨fun hc => ?_,
    fun hc => ?_⟩) (handedOut_step hD.handedOut hstep), .inr ⟨_, hstep⟩⟩
  · exact Nat.lt_of_lt_of_le (claimable_lt hi).1 x.pipeline.stream.delivered_le
  · obtain ⟨hlt, hidle⟩ := claimable_lt hc
    have hsince := hD.since i hlt
    omega
  · exact ⟨h, (if_neg hc).symm.trans hi, hkind⟩

/-- Nobody hands out an entry, and a reaper only goes on with what it has. -/
theorem dated_quiet (hD : Dated minIdleMs x) {b : PipelineAction}
    (hread : ∀ w n, b ≠ .read w n) (hclaim : ∀ w idle n, b ≠ .autoclaim w idle n)
    (h : x.pipeline.step le b = some t) : Dated minIdleMs (x.restamp t []) := by
  have hgrows := grows_step h hread
  refine hD.restamp (fun i hi => .inr (hgrows.delivered ▸ hi)) (fun i hi => ?_)
    (fun i k hk hkind => ⟨fun hi => ?_, fun _ => ?_⟩) (handedOut_step hD.handedOut h)
  · exact (List.not_mem_nil hi).elim
  · exact (List.not_mem_nil hi).elim
  · cases holds_step h hk with
    | kept hk => exact ⟨k, hk, hkind⟩
    | moved hk hsame => exact ⟨_, hk, hsame.symm.trans hkind⟩
    | read => exact (hread _ _ rfl).elim
    | claimed => exact (hclaim _ _ _ rfl).elim

theorem dated_read (hD : Dated minIdleMs x) (worker count : ℕ) :
    Dated minIdleMs
      (x.restamp (x.pipeline.read worker count) (x.pipeline.stream.unread count)) := by
  have hH : HandedOut (x.pipeline.read worker count) :=
    @handedOut_step (fun _ _ => true) _ _ (.read worker count) hD.handedOut rfl
  refine hD.restamp (fun i hi => ?_) (fun i hi => ?_) (fun i k hk hkind => ⟨fun hc => ?_,
    fun hc => ?_⟩) hH
  · rcases Nat.lt_or_ge i x.pipeline.stream.delivered with hlt | hge
    · exact .inr hlt
    · exact .inl (ConsumerGroup.mem_unread.mpr ⟨hge, hi⟩)
  · exact Nat.lt_of_lt_of_le (ConsumerGroup.mem_unread.mp hi).2
      (x.pipeline.read worker count).stream.delivered_le
  · obtain rfl := Option.some.inj ((if_pos hc).symm.trans hk)
    cases hkind
  · exact ⟨k, (if_neg hc).symm.trans hk, hkind⟩

theorem taken_eq_nil {s : Pipeline} {b : PipelineAction} (h : ∀ w n, b ≠ .read w n) :
    taken s b = [] := by
  cases b with
  | read w n => exact (h w n rfl).elim
  | _ => rfl

theorem act_some {b : PipelineAction} (h : x.step le minIdleMs (.act b) = some y) :
    ∃ t, x.pipeline.step le b = some t ∧ y = x.restamp t (taken x.pipeline b) ∧
      ∀ w idle n, b ≠ .autoclaim w idle n := by
  have hclaim : ∀ w idle n, b ≠ .autoclaim w idle n := by
    rintro w idle n rfl
    cases h
  have hmap : (x.pipeline.step le b).map (fun t => x.restamp t (taken x.pipeline b)) = some y := by
    cases b with
    | autoclaim | beginAttempt => cases h
    | _ => exact h
  obtain ⟨t, ht, rfl⟩ := Option.map_eq_some_iff.mp hmap
  exact ⟨t, ht, rfl, hclaim⟩

theorem dated_step (hT : Timely minIdleMs x) (hD : Dated minIdleMs x)
    (h : x.step le minIdleMs a = some y) :
    Dated minIdleMs y ∧ Follows le x.pipeline y.pipeline := by
  cases a with
  | wait ms => exact Option.some.inj h ▸ ⟨dated_wait hD ms, .inl rfl⟩
  | sweep worker count => exact Option.some.inj h ▸ dated_sweep hT hD worker count
  | examine i =>
    obtain ⟨t, ht, rfl⟩ := Option.map_eq_some_iff.mp h
    have hstep : x.pipeline.step le (.beginAttempt i) = some t :=
      (examine_eq hT hD i).symm.trans ht
    exact ⟨dated_quiet hD (fun _ _ heq => by cases heq) (fun _ _ _ heq => by cases heq) hstep,
      .inr ⟨_, hstep⟩⟩
  | act b =>
    obtain ⟨t, ht, rfl, hclaim⟩ := act_some h
    refine ⟨?_, .inr ⟨b, ht⟩⟩
    by_cases hread : ∀ w n, b ≠ .read w n
    · rw [taken_eq_nil hread]
      exact dated_quiet hD hread hclaim ht
    · simp only [not_forall, not_not] at hread
      obtain ⟨worker, count, rfl⟩ := hread
      exact Option.some.inj ht ▸ dated_read hD worker count

/-- While no worker has an entry in hand and no fan-out stays open for the minimum idle time, the
reaper that knows only idle times runs as the pipeline allows: it takes over no entry that a worker
still has in hand, and drops no message whose delivery is about to be committed. -/
theorem timely_run_refines (le : RetryMember → RetryMember → Bool) (minIdleMs : ℤ)
    (x y : TimedPipeline) (as : List TimedAction) (hx : Init x)
    (htimely : Transition.Always (step le minIdleMs) (fun x _ _ => Timely minIdleMs x) x as)
    (hrun : Transition.run (step le minIdleMs) x as = some y) :
    ∃ bs, Transition.run (Pipeline.step le) x.pipeline bs = some y.pipeline := by
  have hboth : Dated minIdleMs y ∧
      ∃ bs, Transition.run (Pipeline.step le) x.pipeline bs = some y.pipeline := by
    refine htimely.invariant (I := fun z => Dated minIdleMs z ∧
      ∃ bs, Transition.run (Pipeline.step le) x.pipeline bs = some z.pipeline)
      (fun z a z' hI hT hstep => ?_) ⟨dated_init hx, [], rfl⟩ hrun
    obtain ⟨hD, bs, hbs⟩ := hI
    obtain ⟨hD', hsame | ⟨b, hb⟩⟩ := dated_step hT hD hstep
    · exact ⟨hD', bs, hsame ▸ hbs⟩
    · exact ⟨hD', bs ++ [b], Transition.run_snoc hbs hb⟩
  exact hboth.2

/-- A check of the entries there are. -/
def OnTime (minIdleMs : ℤ) (x : TimedPipeline) : Prop :=
  (∀ i < x.pipeline.stream.delivered, (x.pipeline.handlers i).isSome →
    x.now < x.since i + minIdleMs) ∧
  (x.pipeline.relays.rows.isEmpty ∨
    ∀ i < x.pipeline.stream.entries.length, x.now < x.added i + minIdleMs)

instance (minIdleMs : ℤ) (x : TimedPipeline) : Decidable (OnTime minIdleMs x) :=
  inferInstanceAs (Decidable (_ ∧ _))

theorem Dated.timely (hD : Dated minIdleMs x) (h : OnTime minIdleMs x) : Timely minIdleMs x where
  workers i k hk := h.1 i (hD.handedOut i k hk) (by rw [hk]; rfl)
  relays r d i m hd hm _ := by
    rcases h.2 with hempty | hadded
    · obtain ⟨tx, htx, -⟩ := hd
      rw [List.isEmpty_iff.mp hempty] at htx
      exact (List.not_mem_nil htx).elim
    · exact hadded i (List.getElem?_eq_some_iff.mp hm).1

theorem Dated.always_timely {as : List TimedAction} (hD : Dated minIdleMs x)
    (h : Transition.Always (step le minIdleMs) (fun x _ _ => OnTime minIdleMs x) x as) :
    Transition.Always (step le minIdleMs) (fun x _ _ => Timely minIdleMs x) x as := by
  induction as generalizing x with
  | nil => trivial
  | cons a as ih =>
    intro y hy
    have hT := hD.timely (h y hy).1
    exact ⟨hT, ih (dated_step hT hD hy).1 (h y hy).2⟩

/-- A worker dies with the message of a fan-out in hand, and a reaper takes it over after the
minimum idle time. -/
def timedRun : List TimedAction :=
  [.act (.claimDue 0 0 50), .act (.openEntry 0), .act (.createDelivery 0 3 0), .act (.publish 0),
    .act (.read 1 10), .wait 200, .act (.closeEntry 0), .act (.commitRelay 0), .act (.crash 1),
    .wait 30000, .sweep 2 50, .examine 0]

theorem timely_run_refines_sample :
    ∃ y bs, Transition.run (step (fun _ _ => true) 30000) ⟨samplePipeline, 0, 0, 0⟩ timedRun =
        some y ∧
      Transition.run (Pipeline.step fun _ _ => true) samplePipeline bs = some y.pipeline := by
  obtain ⟨y, hy⟩ : ∃ y, Transition.run (step (fun _ _ => true) 30000) ⟨samplePipeline, 0, 0, 0⟩
      timedRun = some y := ⟨_, rfl⟩
  have hinit : Init ⟨samplePipeline, 0, 0, 0⟩ := ⟨rfl, rfl, rfl, rfl, rfl⟩
  obtain ⟨bs, hbs⟩ := timely_run_refines (fun _ _ => true) 30000 _ y timedRun hinit
    ((dated_init hinit).always_timely (by decide)) hy
  exact ⟨y, bs, hy, hbs⟩

end TimedPipeline
end RelayWebhooks
