import RelayWebhooks.Workers.Dispatcher

/-! The semaphores of the dispatcher: whatever its tasks find, the permits of an endpoint are never
more than its cap, and a task holds one of its own endpoint only. -/
namespace RelayWebhooks

/-- The endpoint a task waits for or holds a permit of. -/
def TaskPhase.endpoint? : TaskPhase → Option UUID
  | lookingUp => none
  | waiting e => some e
  | admitted gate | sending gate => gate

def TaskPhase.isSending : TaskPhase → Bool
  | sending _ => true
  | lookingUp | waiting _ | admitted _ => false

theorem Semaphore.acquire_cases (g : Semaphore) (i : ℕ) :
    (0 < g.value ∧ g.acquire i = ({ g with value := g.value - 1 }, true)) ∨
      g.acquire i = ({ g with waiters := g.waiters ++ [i] }, false) := by
  unfold acquire
  split
  next h => exact .inl ⟨h.1, rfl⟩
  next => exact .inr rfl

namespace Dispatcher

/-- The tasks that hold a permit of the endpoint's semaphore. -/
def holders (s : Dispatcher) (e : UUID) : ℕ :=
  s.tasks.rows.countP fun k => k.phase.gate? = some e

/-- The permits are accounted for, `held` the endpoint of one that is being handed on. -/
structure Gated (cfg : DispatcherConfig) (held : Option UUID) (s : Dispatcher) : Prop where
  permits : s.permits + s.tasks.rows.length = cfg.concurrency
  gates : ∀ e, (s.gates e).value + s.holders e + (decide (held = some e)).toNat ≤
    cfg.perEndpointConcurrency
  waiters : ∀ e, (s.gates e).waiters.Nodup ∧
    ∀ i ∈ (s.gates e).waiters, ∃ k, s.tasks.get i = some k ∧ k.phase = .waiting e
  own : ∀ k ∈ s.tasks.rows, ∀ e, k.phase.endpoint? = some e →
    e = cfg.endpointOf k.message.deliveryId

variable {cfg : DispatcherConfig} {s t : Dispatcher} {a : DispatcherAction} {k : DispatchTask}
  {held held' : Option UUID} {i : ℕ} {e : UUID}

theorem gated_init (messages : List DeliveryMessage) : Gated cfg none (init cfg messages) := by
  constructor
  · simp [init, Table.empty]
  · simp [init, Table.empty, holders]
  · simp [init]
  · simp [init, Table.empty]

/-- Only a waiting task is in a queue. -/
theorem Gated.notMem_waiters (h : Gated cfg held s) (hk : s.tasks.get i = some k)
    (hp : ∀ e, k.phase ≠ .waiting e) (e : UUID) : i ∉ (s.gates e).waiters := by
  intro hi
  obtain ⟨k', hk', hwaiting⟩ := (h.waiters e).2 i hi
  obtain rfl := Option.some.inj (hk'.symm.trans hk)
  exact hp e hwaiting

/-- A task outside the queues changes its phase; a permit may pass from hand to hand. -/
theorem Gated.setPhase (h : Gated cfg held s) (hk : s.tasks.get i = some k) {p : TaskPhase}
    (hqueue : ∀ e, i ∉ (s.gates e).waiters)
    (hpermit : ∀ e, (decide (held' = some e)).toNat + (decide (p.gate? = some e)).toNat ≤
      (decide (held = some e)).toNat + (decide (k.phase.gate? = some e)).toNat)
    (hown : ∀ e, p.endpoint? = some e → e = cfg.endpointOf k.message.deliveryId) :
    Gated cfg held' (s.setPhase k p) := by
  obtain rfl : k.id = i := Table.key_of_get hk
  constructor
  · have hlen := congrArg List.length (messages_setPhase hk p)
    rw [List.length_map, List.length_map] at hlen
    rw [hlen]
    exact h.permits
  · intro e
    have hcount : (s.setPhase k p).holders e + (decide (k.phase.gate? = some e)).toNat =
        s.holders e + (decide (p.gate? = some e)).toNat :=
      Table.countP_update (fun k : DispatchTask => k.phase.gate? = some e) hk
    have hgates := h.gates e
    have hpass := hpermit e
    show (s.gates e).value + _ + _ ≤ _
    omega
  · intro e
    refine ⟨(h.waiters e).1, fun j hj => ?_⟩
    obtain ⟨k', hk', hwaiting⟩ := (h.waiters e).2 j hj
    have hne : j ≠ k.id := fun heq => hqueue e (heq ▸ hj)
    exact ⟨k', (Table.get_update_ne _ hne).trans hk', hwaiting⟩
  · intro k' hk'
    rcases Table.mem_update hk' with rfl | ⟨hk', -⟩
    · exact hown
    · exact h.own k' hk'

theorem gates_setGate (s : Dispatcher) (e e' : UUID) (g : Semaphore) :
    (s.setGate e g).gates e' = if e' = e then g else s.gates e' :=
  Function.update_apply ..

/-- The semaphore of one endpoint changes. -/
theorem Gated.setGate (h : Gated cfg held s) {g : Semaphore}
    (hvalue : ∀ e', (if e' = e then g else s.gates e').value + (decide (held' = some e')).toNat ≤
      (s.gates e').value + (decide (held = some e')).toNat)
    (hnodup : g.waiters.Nodup)
    (hwaiters : ∀ i ∈ g.waiters, ∃ k, s.tasks.get i = some k ∧ k.phase = .waiting e) :
    Gated cfg held' (s.setGate e g) := by
  refine ⟨h.permits, fun e' => ?_, fun e' => ?_, h.own⟩
  · have hgates := h.gates e'
    have hpass := hvalue e'
    have hsame : (s.setGate e g).holders e' = s.holders e' := rfl
    rw [gates_setGate, hsame]
    omega
  · rw [gates_setGate]
    split
    next he =>
      subst he
      exact ⟨hnodup, hwaiters⟩
    next => exact h.waiters e'

/-- The task takes a permit of its endpoint, or queues up for one. -/
theorem Gated.enterGate (h : Gated cfg none s) (hk : s.tasks.get i = some k)
    (hp : k.phase = .lookingUp) (he : e = cfg.endpointOf k.message.deliveryId) :
    Gated cfg none (s.enterGate k e) := by
  obtain rfl : k.id = i := Table.key_of_get hk
  have hqueue := h.notMem_waiters hk (by rw [hp]; exact fun _ => nofun)
  have hown (p : TaskPhase) (hend : p.endpoint? = some e) :
      ∀ e', p.endpoint? = some e' → e' = cfg.endpointOf k.message.deliveryId := by
    intro e' he'
    rw [hend] at he'
    exact (Option.some.inj he').symm.trans he
  unfold Dispatcher.enterGate
  rcases Semaphore.acquire_cases (s.gates e) k.id with ⟨hfree, hacq⟩ | hacq
  · have htaken : Gated cfg (some e)
        (s.setGate e { s.gates e with value := (s.gates e).value - 1 }) := by
      refine h.setGate (fun e' => ?_) (h.waiters e).1 (h.waiters e).2
      split
      next he' => subst he'; simp; omega
      next he' => simp [Ne.symm he']
    rw [hacq]
    refine htaken.setPhase hk (fun e' => ?_) (fun e' => ?_) (hown _ rfl)
    · rw [gates_setGate]
      split
      next he' => subst he'; exact hqueue e'
      next => exact hqueue e'
    · simp [hp, TaskPhase.gate?]
  · have hwaiting : Gated cfg none (s.setPhase k (.waiting e)) :=
      h.setPhase hk hqueue (fun e' => by simp [TaskPhase.gate?]) (hown _ rfl)
    rw [hacq]
    show Gated cfg none ((s.setPhase k (.waiting e)).setGate e _)
    refine hwaiting.setGate (fun e' => ?_) ?_ ?_
    · split
      next he' => subst he'; simp [Dispatcher.setPhase]
      next => simp [Dispatcher.setPhase]
    · exact List.nodup_append.mpr ⟨(h.waiters e).1, by simp, by
        rintro x hx y hy rfl
        rw [List.mem_singleton] at hy
        exact hqueue e (hy ▸ hx)⟩
    · intro j hj
      rcases List.mem_append.mp hj with hj | hj
      · exact (hwaiting.waiters e).2 j hj
      · rw [List.mem_singleton] at hj
        exact ⟨_, Table.get_update_of_get hj.symm (hj ▸ hk), rfl⟩

/-- A permit in hand goes to the first of its queue, or back to the semaphore. -/
theorem Gated.leaveGate (h : Gated cfg held s) : Gated cfg none (s.leaveGate held) := by
  cases held with
  | none => exact h
  | some e =>
    obtain ⟨hnodup, hwaiters⟩ := h.waiters e
    unfold Dispatcher.leaveGate
    cases hqueue : (s.gates e).waiters with
    | nil =>
      have hrelease : (s.gates e).release =
          ({ s.gates e with value := (s.gates e).value + 1 }, none) := by
        simp [Semaphore.release, hqueue]
      simp only [hrelease, Option.bind_none]
      refine h.setGate (fun e' => ?_) hnodup hwaiters
      split
      next he' => subst he'; simp
      next he' => simp [Ne.symm he']
    | cons i waiters =>
      rw [hqueue, List.nodup_cons] at hnodup
      rw [hqueue, List.forall_mem_cons] at hwaiters
      obtain ⟨⟨k, hk, hp⟩, hrest⟩ := hwaiters
      have hpopped : Gated cfg (some e) (s.setGate e { s.gates e with waiters }) := by
        refine h.setGate (fun e' => ?_) hnodup.2 hrest
        split
        next he' => subst he'; simp
        next => simp
      have hrelease : (s.gates e).release = ({ s.gates e with waiters }, some i) := by
        simp [Semaphore.release, hqueue]
      simp only [hrelease, Option.bind_some, hk]
      refine hpopped.setPhase hk (fun e' => ?_) (fun e' => ?_) (fun e' he' => ?_)
      · rw [gates_setGate]
        split
        next => exact hnodup.1
        next he' =>
          intro hi
          obtain ⟨k', hk', hp'⟩ := (h.waiters e').2 i hi
          obtain rfl := Option.some.inj (hk'.symm.trans hk)
          rw [hp] at hp'
          exact he' (TaskPhase.waiting.inj hp').symm
      · simp [TaskPhase.gate?]
      · obtain rfl := Option.some.inj he'
        exact h.own k (Table.mem_of_get hk) e (by rw [hp]; rfl)

/-- A task that ends gives its place in the pool back, and has its permit of a gate in hand. -/
theorem Gated.remove (h : Gated cfg none s) (hk : s.tasks.get i = some k)
    (hp : ∀ e, k.phase ≠ .waiting e) : Gated cfg k.phase.gate?
      { s with permits := s.permits + 1
               tasks := s.tasks.deleteWhere fun r => Keyed.key r = k.id } := by
  obtain rfl : k.id = i := Table.key_of_get hk
  have hperm := Table.perm_deleteWhere hk
  refine ⟨?_, fun e => ?_, fun e => ?_, ?_⟩
  · have hlen := hperm.length_eq
    have hpermits := h.permits
    rw [List.length_cons] at hlen
    rw [← hpermits, ← hlen]
    exact Nat.add_right_comm ..
  · have hcount := hperm.countP_eq (fun k : DispatchTask => k.phase.gate? = some e)
    have hgates := h.gates e
    have hheld : s.holders e = (s.tasks.deleteWhere fun r => Keyed.key r = k.id).rows.countP
        (fun k => k.phase.gate? = some e) + (decide (k.phase.gate? = some e)).toNat := by
      rw [holders, ← hcount, List.countP_cons]
      by_cases hgate : k.phase.gate? = some e <;> simp [hgate]
    rw [hheld] at hgates
    show (s.gates e).value + (s.tasks.deleteWhere fun r => Keyed.key r = k.id).rows.countP
      (fun k => k.phase.gate? = some e) + _ ≤ _
    simp only [reduceCtorEq, decide_false, Bool.toNat_false] at hgates
    omega
  · refine ⟨(h.waiters e).1, fun j hj => ?_⟩
    obtain ⟨k', hk', hwaiting⟩ := (h.waiters e).2 j hj
    have hne : j ≠ k.id := fun heq => h.notMem_waiters hk hp e (heq ▸ hj)
    exact ⟨k', (Table.get_deleteWhere_ne _ hne).trans hk', hwaiting⟩
  · exact fun k' hk' => h.own k' (List.mem_of_mem_filter hk')

theorem Gated.endTask (h : Gated cfg none s) (hk : s.tasks.get i = some k)
    (hp : ∀ e, k.phase ≠ .waiting e) : Gated cfg none (s.endTask k) :=
  (h.remove hk hp).leaveGate

theorem Gated.step (h : Gated cfg none s) (hstep : step cfg s a = some t) : Gated cfg none t := by
  cases steps_of_step hstep with
  | read => exact ⟨h.permits, h.gates, h.waiters, h.own⟩
  | start hb hpos hins =>
    obtain ⟨-, hrows⟩ := Table.insert_eq_some.mp hins
    refine ⟨?_, fun e => ?_, fun e => ⟨(h.waiters e).1, fun j hj => ?_⟩, fun k hk => ?_⟩
    · have hpermits := h.permits
      simp only [hrows, List.length_append, List.length_singleton]
      omega
    · have hgates := h.gates e
      simpa [holders, hrows, List.countP_append, TaskPhase.gate?] using hgates
    · obtain ⟨k, hk, hp⟩ := (h.waiters e).2 j hj
      exact ⟨k, Table.get_insert_of_get hins hk, hp⟩
    · simp only [hrows, List.mem_append, List.mem_singleton] at hk
      rcases hk with hk | rfl
      · exact h.own k hk
      · simp [TaskPhase.endpoint?]
  | found hk => exact h.enterGate hk rfl rfl
  | missed hk =>
    refine h.setPhase hk (h.notMem_waiters hk (by simp)) (fun e => ?_) ?_
    · simp [TaskPhase.gate?]
    · simp [TaskPhase.endpoint?]
  | send hk =>
    exact h.setPhase hk (h.notMem_waiters hk (by simp)) (fun _ => le_rfl)
      (h.own _ (Table.mem_of_get hk))
  | finish hk hp => exact h.endTask hk hp

/-- What a step does to one task: a `send` is the only way into sending, and a permit once held is
held to the end. -/
inductive TaskMove (a : DispatcherAction) (k : DispatchTask) : TaskPhase → Prop
  | stay : TaskMove a k k.phase
  | looked {p : TaskPhase} (h : k.phase = .lookingUp) (hp : ∀ gate, p ≠ .sending gate) :
      TaskMove a k p
  | woken {e : UUID} (h : k.phase = .waiting e) : TaskMove a k (.admitted (some e))
  | send {gate : Option UUID} (ha : a = .send k.id) (h : k.phase = .admitted gate) :
      TaskMove a k (.sending gate)

theorem mem_setPhase {k' : DispatchTask} {p : TaskPhase} (h : k' ∈ (s.setPhase k p).tasks.rows) :
    k' = { k with phase := p } ∨ k' ∈ s.tasks.rows := by
  rcases Table.mem_update h with h | ⟨h, -⟩
  · exact .inl h
  · exact .inr h

/-- A task that leaves a gate wakes up no task but one that waits. -/
theorem Gated.mem_leaveGate (h : Gated cfg held' s) {k' : DispatchTask}
    (hk' : k' ∈ (s.leaveGate held).tasks.rows) : k' ∈ s.tasks.rows ∨
      ∃ k ∈ s.tasks.rows, ∃ e, k.phase = .waiting e ∧
        k' = { k with phase := .admitted (some e) } := by
  cases held with
  | none => exact .inl hk'
  | some e =>
    unfold Dispatcher.leaveGate at hk'
    dsimp only at hk'
    split at hk'
    next k hk =>
      obtain ⟨i, hi, hget⟩ := Option.bind_eq_some_iff.mp hk
      rcases mem_setPhase hk' with rfl | hk'
      · have hqueued : i ∈ (s.gates e).waiters := by
          unfold Semaphore.release at hi
          split at hi
          next => cases hi
          next hqueue => cases hi; rw [hqueue]; exact List.mem_cons_self
        obtain ⟨k₀, hk₀, hp⟩ := (h.waiters e).2 i hqueued
        obtain rfl := Option.some.inj (hk₀.symm.trans hget)
        exact .inr ⟨k₀, Table.mem_of_get hk₀, e, hp, rfl⟩
      · exact .inl hk'
    next => exact .inl hk'

theorem Gated.tasks_step (h : Gated cfg none s) (hstep : Dispatcher.step cfg s a = some t)
    {k' : DispatchTask} (hk' : k' ∈ t.tasks.rows) :
    (∃ k ∈ s.tasks.rows, k.id = k'.id ∧ k.message = k'.message ∧ TaskMove a k k'.phase) ∨
      a = .start ∧ k'.id = s.nextId ∧ k'.phase = .lookingUp := by
  have hold {k : DispatchTask} (hk : k ∈ s.tasks.rows) :
      ∃ k₀ ∈ s.tasks.rows, k₀.id = k.id ∧ k₀.message = k.message ∧ TaskMove a k₀ k.phase :=
    ⟨k, hk, rfl, rfl, .stay⟩
  have hset {k : DispatchTask} {p : TaskPhase} (hk : k ∈ s.tasks.rows) (hmove : TaskMove a k p)
      (hmem : k' ∈ (s.setPhase k p).tasks.rows) :
      ∃ k ∈ s.tasks.rows, k.id = k'.id ∧ k.message = k'.message ∧ TaskMove a k k'.phase := by
    rcases mem_setPhase hmem with rfl | hmem
    · exact ⟨k, hk, rfl, rfl, hmove⟩
    · exact hold hmem
  cases steps_of_step hstep with
  | read => exact .inl (hold hk')
  | start hb hpos hins =>
    simp only [(Table.insert_eq_some.mp hins).2, List.mem_append, List.mem_singleton] at hk'
    rcases hk' with hk' | rfl
    · exact .inl (hold hk')
    · exact .inr ⟨rfl, rfl, rfl⟩
  | found hk =>
    unfold Dispatcher.enterGate at hk'
    split at hk'
    next =>
      exact .inl (hset (p := .admitted _) (Table.mem_of_get hk) (.looked rfl fun _ => nofun) hk')
    next =>
      exact .inl (hset (p := .waiting _) (Table.mem_of_get hk) (.looked rfl fun _ => nofun) hk')
  | missed hk =>
    exact .inl (hset (p := .admitted none) (Table.mem_of_get hk) (.looked rfl fun _ => nofun) hk')
  | send hk => exact .inl (hset (Table.mem_of_get hk) (.send rfl rfl) hk')
  | finish hk hp =>
    rcases (h.remove hk hp).mem_leaveGate hk' with hk' | ⟨k₀, hk₀, e, hwaiting, rfl⟩
    · exact .inl (hold (List.mem_of_mem_filter hk'))
    · exact .inl ⟨k₀, List.mem_of_mem_filter hk₀, rfl, rfl, .woken hwaiting⟩

theorem nextId_leaveGate (s : Dispatcher) (gate : Option UUID) :
    (s.leaveGate gate).nextId = s.nextId := by
  unfold Dispatcher.leaveGate
  split
  next => rfl
  next => split <;> rfl

theorem nextId_enterGate (s : Dispatcher) (k : DispatchTask) (e : UUID) :
    (s.enterGate k e).nextId = s.nextId := by
  unfold Dispatcher.enterGate
  split <;> rfl

/-- Task numbers are never given twice. -/
theorem nextId_step (hstep : Dispatcher.step cfg s a = some t) :
    s.nextId ≤ t.nextId ∧ (a = .start → t.nextId = s.nextId + 1) := by
  cases steps_of_step hstep with
  | read => exact ⟨le_rfl, nofun⟩
  | start => exact ⟨Nat.le_succ _, fun _ => rfl⟩
  | found => exact ⟨(nextId_enterGate s _ _).ge, nofun⟩
  | missed => exact ⟨le_rfl, nofun⟩
  | send => exact ⟨le_rfl, nofun⟩
  | @finish k =>
    have hid : (s.endTask k).nextId = s.nextId := nextId_leaveGate ..
    exact ⟨hid.ge, nofun⟩

end Dispatcher
end RelayWebhooks
