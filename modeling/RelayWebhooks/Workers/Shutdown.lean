import RelayWebhooks.Workers.Gates

/-! How a dispatcher comes to a stop: once it reads no more, its tasks come to an end in whatever
order they take their steps, none of them waits for ever, and every permit is given back. -/
namespace RelayWebhooks

namespace Dispatcher

variable {cfg : DispatcherConfig} {s t : Dispatcher} {a : DispatcherAction} {k : DispatchTask}
  {held held' : Option UUID} {i : ℕ} {e : UUID}

/-- Every permit of an endpoint is free, held by a task, or being handed on; who waits is queued,
and there is a queue only while no permit is free. -/
structure Exact (cfg : DispatcherConfig) (held : Option UUID) (s : Dispatcher) : Prop where
  gates : ∀ e, (s.gates e).value + s.holders e + (decide (held = some e)).toNat =
    cfg.perEndpointConcurrency
  queued : ∀ k ∈ s.tasks.rows, ∀ e, k.phase = .waiting e → k.id ∈ (s.gates e).waiters
  busy : ∀ e, (s.gates e).waiters ≠ [] → (s.gates e).value = 0

theorem exact_init (messages : List DeliveryMessage) : Exact cfg none (init cfg messages) := by
  constructor
  · simp [init, Table.empty, holders]
  · simp [init, Table.empty]
  · simp [init]

theorem Exact.setPhase (h : Exact cfg held s) (hk : s.tasks.get i = some k) {p : TaskPhase}
    (hpermit : ∀ e, (decide (held' = some e)).toNat + (decide (p.gate? = some e)).toNat =
      (decide (held = some e)).toNat + (decide (k.phase.gate? = some e)).toNat)
    (hqueue : ∀ e, p = .waiting e → i ∈ (s.gates e).waiters) :
    Exact cfg held' (s.setPhase k p) := by
  obtain rfl : k.id = i := Table.key_of_get hk
  refine ⟨fun e => ?_, fun k' hk' e hp => ?_, h.busy⟩
  · have hcount : (s.setPhase k p).holders e + (decide (k.phase.gate? = some e)).toNat =
        s.holders e + (decide (p.gate? = some e)).toNat :=
      Table.countP_update (fun k : DispatchTask => k.phase.gate? = some e) hk
    have hgates := h.gates e
    have hpass := hpermit e
    show (s.gates e).value + _ + _ = _
    omega
  · rcases Table.mem_update hk' with rfl | ⟨hk', -⟩
    · exact hqueue e hp
    · exact h.queued k' hk' e hp

theorem Exact.setGate (h : Exact cfg held s) {g : Semaphore}
    (hvalue : ∀ e', (if e' = e then g else s.gates e').value + (decide (held' = some e')).toNat =
      (s.gates e').value + (decide (held = some e')).toNat)
    (hqueued : ∀ k ∈ s.tasks.rows, k.phase = .waiting e → k.id ∈ g.waiters)
    (hbusy : g.waiters ≠ [] → g.value = 0) : Exact cfg held' (s.setGate e g) := by
  refine ⟨fun e' => ?_, fun k hk e' hp => ?_, fun e' => ?_⟩
  · have hgates := h.gates e'
    have hpass := hvalue e'
    have hsame : (s.setGate e g).holders e' = s.holders e' := rfl
    rw [gates_setGate, hsame]
    omega
  · rw [gates_setGate]
    split
    next he =>
      subst he
      exact hqueued k hk hp
    next => exact h.queued k hk e' hp
  · rw [gates_setGate]
    split
    next => exact hbusy
    next => exact h.busy e'

theorem Exact.enterGate (h : Exact cfg none s) (hk : s.tasks.get i = some k)
    (hp : k.phase = .lookingUp) : Exact cfg none (s.enterGate k e) := by
  obtain rfl : k.id = i := Table.key_of_get hk
  unfold Dispatcher.enterGate Semaphore.acquire
  by_cases hfree : 0 < (s.gates e).value ∧ (s.gates e).waiters = []
  · rw [if_pos hfree]
    have htaken : Exact cfg (some e)
        (s.setGate e { s.gates e with value := (s.gates e).value - 1 }) := by
      refine h.setGate (fun e' => ?_) (fun k hk hp => h.queued k hk e hp) fun hne => ?_
      · split
        next he =>
          subst he
          have hpos := hfree.1
          simp
          omega
        next he => simp [Ne.symm he]
      · exact (hne hfree.2).elim
    exact htaken.setPhase hk (fun e' => by simp [hp, TaskPhase.gate?]) fun _ heq => by cases heq
  · rw [if_neg hfree]
    have hzero : (s.gates e).value = 0 := by
      by_cases hw : (s.gates e).waiters = []
      · have hnot : ¬0 < (s.gates e).value := fun hpos => hfree ⟨hpos, hw⟩
        omega
      · exact h.busy e hw
    have hqueued : Exact cfg none
        (s.setGate e { s.gates e with waiters := (s.gates e).waiters ++ [k.id] }) := by
      refine h.setGate (fun e' => ?_) (fun k hk hp => ?_) fun _ => hzero
      · split
        next he =>
          subst he
          rfl
        next => rfl
      · exact List.mem_append_left _ (h.queued k hk e hp)
    refine hqueued.setPhase hk (fun e' => by simp [hp, TaskPhase.gate?]) fun e' heq => ?_
    obtain rfl := TaskPhase.waiting.inj heq
    rw [gates_setGate, if_pos rfl]
    exact List.mem_append_right _ List.mem_cons_self

theorem Exact.leaveGate (h : Exact cfg held s) (hg : Gated cfg held s) :
    Exact cfg none (s.leaveGate held) := by
  cases held with
  | none => exact h
  | some e =>
    have hwaiters := (hg.waiters e).2
    unfold Dispatcher.leaveGate
    cases hqueue : (s.gates e).waiters with
    | nil =>
      have hrelease : (s.gates e).release =
          ({ s.gates e with value := (s.gates e).value + 1 }, none) := by
        simp [Semaphore.release, hqueue]
      simp only [hrelease, Option.bind_none]
      refine h.setGate (fun e' => ?_) (fun k hk hp => h.queued k hk e hp) fun hne => ?_
      · split
        next he =>
          subst he
          simp
        next he => simp [Ne.symm he]
      · exact (hne hqueue).elim
    | cons i waiters =>
      rw [hqueue, List.forall_mem_cons] at hwaiters
      obtain ⟨⟨k, hk, hp⟩, -⟩ := hwaiters
      have hrelease : (s.gates e).release = ({ s.gates e with waiters }, some i) := by
        simp [Semaphore.release, hqueue]
      have hnone : (s.gates e).value = 0 := h.busy e (by rw [hqueue]; exact List.cons_ne_nil _ _)
      have hwoken : Exact cfg none (s.setPhase k (.admitted (some e))) := by
        refine h.setPhase hk (fun e' => ?_) fun _ heq => by cases heq
        simp [hp, TaskPhase.gate?]
      simp only [hrelease, Option.bind_some, hk]
      show Exact cfg none ((s.setPhase k (.admitted (some e))).setGate e _)
      refine hwoken.setGate (fun e' => ?_) (fun k' hk' hp' => ?_) fun _ => hnone
      · split
        next he =>
          subst he
          rfl
        next => rfl
      · have hmem := hwoken.queued k' hk' e hp'
        have hmem : k'.id ∈ (s.gates e).waiters := hmem
        rw [hqueue] at hmem
        refine (List.mem_cons.mp hmem).resolve_left fun hid => ?_
        -- the task that is woken waits no more
        have hkid : k.id = i := Table.key_of_get hk
        rcases Table.mem_update hk' with rfl | ⟨-, hne⟩
        · cases hp'
        · exact hne (hid.trans hkid.symm)

/-- A task that does not wait ends. -/
theorem Exact.remove (h : Exact cfg none s) (hk : s.tasks.get i = some k) :
    Exact cfg k.phase.gate?
      { s with permits := s.permits + 1
               tasks := s.tasks.deleteWhere fun r => Keyed.key r = k.id } := by
  obtain rfl : k.id = i := Table.key_of_get hk
  have hperm := Table.perm_deleteWhere hk
  refine ⟨fun e => ?_, fun k' hk' => h.queued k' (List.mem_of_mem_filter hk'), h.busy⟩
  have hcount := hperm.countP_eq (fun k : DispatchTask => k.phase.gate? = some e)
  have hgates := h.gates e
  have hheld : s.holders e = (s.tasks.deleteWhere fun r => Keyed.key r = k.id).rows.countP
      (fun k => k.phase.gate? = some e) + (decide (k.phase.gate? = some e)).toNat := by
    rw [holders, ← hcount, List.countP_cons]
    by_cases hgate : k.phase.gate? = some e <;> simp [hgate]
  rw [hheld] at hgates
  show (s.gates e).value + (s.tasks.deleteWhere fun r => Keyed.key r = k.id).rows.countP
    (fun k => k.phase.gate? = some e) + _ = _
  simp only [reduceCtorEq, decide_false, Bool.toNat_false] at hgates
  omega

theorem Exact.step (h : Exact cfg none s) (hg : Gated cfg none s)
    (hstep : Dispatcher.step cfg s a = some t) : Exact cfg none t := by
  cases steps_of_step hstep with
  | read => exact ⟨h.gates, h.queued, h.busy⟩
  | start hb hpos hins =>
    obtain ⟨-, hrows⟩ := Table.insert_eq_some.mp hins
    refine ⟨fun e => ?_, fun k hk e hp => ?_, h.busy⟩
    · have hgates := h.gates e
      simpa [holders, hrows, List.countP_append, TaskPhase.gate?] using hgates
    · simp only [hrows, List.mem_append, List.mem_singleton] at hk
      rcases hk with hk | rfl
      · exact h.queued k hk e hp
      · cases hp
  | found hk => exact h.enterGate hk rfl
  | missed hk =>
    refine h.setPhase hk (fun e => ?_) fun _ heq => by cases heq
    simp [TaskPhase.gate?]
  | send hk => exact h.setPhase hk (fun _ => rfl) fun _ heq => by cases heq
  | finish hk hp => exact (h.remove hk).leaveGate (hg.remove hk hp)

/-- The number of a task is one that was given. -/
def Numbered (s : Dispatcher) : Prop := ∀ k ∈ s.tasks.rows, k.id < s.nextId

theorem Numbered.step (h : Numbered s) (hg : Gated cfg none s)
    (hstep : Dispatcher.step cfg s a = some t) : Numbered t := by
  intro k hk
  obtain ⟨hle, hstart⟩ := nextId_step hstep
  rcases hg.tasks_step hstep hk with ⟨k₀, hk₀, hid, -⟩ | ⟨ha, hid, -⟩
  · have hlt := h k₀ hk₀
    omega
  · have hnext := hstart ha
    omega

/-- What holds of the dispatcher whenever its loop or a task may take a step. -/
structure Sound (cfg : DispatcherConfig) (s : Dispatcher) : Prop where
  gated : Gated cfg none s
  exact : Exact cfg none s
  numbered : Numbered s

theorem sound_init (messages : List DeliveryMessage) : Sound cfg (init cfg messages) :=
  ⟨gated_init messages, exact_init messages, fun _ hk => by cases hk⟩

theorem Sound.step (h : Sound cfg s) (hstep : Dispatcher.step cfg s a = some t) : Sound cfg t :=
  ⟨h.gated.step hstep, h.exact.step h.gated hstep, h.numbered.step h.gated hstep⟩

def DispatcherAction.isRead : DispatcherAction → Bool
  | .read _ => true
  | _ => false

/-- Neither the loop nor a task can take a step. -/
def Stuck (cfg : DispatcherConfig) (s : Dispatcher) : Prop :=
  ∀ a, DispatcherAction.isRead a = false → step cfg s a = none

/-- A task that holds a permit, or none, can go on. -/
theorem Stuck.waits (hs : Stuck cfg s) (hk : k ∈ s.tasks.rows) : ∃ e, k.phase = .waiting e := by
  have hget : s.tasks.get k.id = some k := Table.get_of_mem hk
  obtain ⟨j, m, p⟩ := k
  have hfinish := hs (.finish j) rfl
  simp only [step, hget] at hfinish
  cases p with
  | waiting e => exact ⟨e, rfl⟩
  | lookingUp | admitted | sending => cases hfinish

theorem Stuck.noTasks (hs : Stuck cfg s) (h : Exact cfg none s)
    (hcap : 0 < cfg.perEndpointConcurrency) : s.tasks.rows = [] := by
  refine List.eq_nil_iff_forall_not_mem.mpr fun k hk => ?_
  obtain ⟨e, hp⟩ := hs.waits hk
  have hzero := h.busy e (List.ne_nil_of_mem (h.queued k hk e hp))
  have hgates := h.gates e
  have hnone : s.holders e = 0 := by
    refine List.countP_eq_zero.mpr fun k' hk' => ?_
    obtain ⟨e', hp'⟩ := hs.waits hk'
    simp [hp', TaskPhase.gate?]
  rw [hzero, hnone] at hgates
  simp at hgates
  omega

theorem Stuck.noBatch (hs : Stuck cfg s) (h : Sound cfg s) (hpool : 0 < cfg.concurrency)
    (hcap : 0 < cfg.perEndpointConcurrency) : s.batch = [] := by
  have htasks := hs.noTasks h.exact hcap
  have hpermits := h.gated.permits
  rw [htasks, List.length_nil] at hpermits
  have hstart := hs .start rfl
  cases hb : s.batch with
  | nil => rfl
  | cons m batch =>
    have hfree : s.tasks.get s.nextId = none := by
      refine Table.get_eq_none.mpr fun k hk => ?_
      rw [htasks] at hk
      cases hk
    obtain ⟨tasks, hins⟩ : ∃ tasks, s.tasks.insert ⟨s.nextId, m, .lookingUp⟩ = some tasks := by
      cases hins : s.tasks.insert ⟨s.nextId, m, .lookingUp⟩ with
      | some tasks => exact ⟨tasks, rfl⟩
      | none =>
        obtain ⟨k, hk⟩ := Table.insert_eq_none.mp hins
        exact absurd (hfree.symm.trans hk) (by simp)
    have hpos : 0 < s.permits := by omega
    rw [Dispatcher.step, hb] at hstart
    dsimp only at hstart
    rw [if_pos hpos, hins] at hstart
    cases hstart

/-- The steps that a task may still take. -/
def TaskPhase.stepsLeft : TaskPhase → ℕ
  | .lookingUp => 4
  | .waiting _ => 3
  | .admitted _ => 2
  | .sending _ => 1

def tasksLeft (s : Dispatcher) : ℕ := (s.tasks.rows.map fun k => TaskPhase.stepsLeft k.phase).sum

/-- The steps that may still be taken before the next read. -/
def stepsLeft (s : Dispatcher) : ℕ := 5 * s.batch.length + s.tasksLeft

theorem tasksLeft_setPhase (hk : s.tasks.get i = some k) (p : TaskPhase) :
    (s.setPhase k p).tasksLeft + TaskPhase.stepsLeft k.phase =
      s.tasksLeft + TaskPhase.stepsLeft p := by
  have hid : k.id = i := Table.key_of_get hk
  have hget : s.tasks.get (Keyed.key { k with phase := p }) = some k := by
    rw [DispatchTask.key_eq, hid, hk]
  obtain ⟨l₁, l₂, hrows, hupd⟩ := Table.rows_update hget
  have hset : (s.setPhase k p).tasks.rows = l₁ ++ { k with phase := p } :: l₂ := hupd
  rw [tasksLeft, tasksLeft, hset, hrows]
  simp only [List.map_append, List.map_cons, List.sum_append, List.sum_cons]
  omega

theorem tasksLeft_leaveGate (h : Gated cfg held s) :
    (s.leaveGate held).tasksLeft ≤ s.tasksLeft := by
  cases held with
  | none => exact le_rfl
  | some e =>
    unfold Dispatcher.leaveGate
    dsimp only
    split
    next k hk =>
      obtain ⟨i, hi, hget⟩ := Option.bind_eq_some_iff.mp hk
      have hqueued : i ∈ (s.gates e).waiters := by
        unfold Semaphore.release at hi
        split at hi
        next => cases hi
        next hqueue =>
          obtain rfl := Option.some.inj hi
          rw [hqueue]
          exact List.mem_cons_self
      obtain ⟨k₀, hk₀, hp⟩ := (h.waiters e).2 i hqueued
      obtain rfl := Option.some.inj (hk₀.symm.trans hget)
      have hsum := @tasksLeft_setPhase (s.setGate e (s.gates e).release.1) k₀ i hget
        (.admitted (some e))
      have hsame : (s.setGate e (s.gates e).release.1).tasksLeft = s.tasksLeft := rfl
      rw [hp, hsame] at hsum
      simp only [TaskPhase.stepsLeft] at hsum
      omega
    next => exact le_rfl

theorem stepsLeft_step (h : Gated cfg none s) (hstep : Dispatcher.step cfg s a = some t)
    (ha : DispatcherAction.isRead a = false) : t.stepsLeft < s.stepsLeft := by
  unfold stepsLeft
  cases steps_of_step hstep with
  | read => cases ha
  | @start m batch tasks hb hpos hins =>
    have hrows := (Table.insert_eq_some.mp hins).2
    simp only [tasksLeft, hrows, hb, List.map_append, List.sum_append, List.length_cons,
      List.map_cons, List.map_nil, List.sum_cons, List.sum_nil, TaskPhase.stepsLeft]
    omega
  | @found i m hk =>
    unfold Dispatcher.enterGate
    split
    next g _ =>
      have hsum := @tasksLeft_setPhase (s.setGate (cfg.endpointOf m.deliveryId) g) _ i hk
        (.admitted (some (cfg.endpointOf m.deliveryId)))
      have hsame : (s.setGate (cfg.endpointOf m.deliveryId) g).tasksLeft = s.tasksLeft := rfl
      simp only [TaskPhase.stepsLeft] at hsum
      show 5 * s.batch.length + _ < _
      omega
    next g _ =>
      have hsum := @tasksLeft_setPhase (s.setGate (cfg.endpointOf m.deliveryId) g) _ i hk
        (.waiting (cfg.endpointOf m.deliveryId))
      have hsame : (s.setGate (cfg.endpointOf m.deliveryId) g).tasksLeft = s.tasksLeft := rfl
      simp only [TaskPhase.stepsLeft] at hsum
      show 5 * s.batch.length + _ < _
      omega
  | missed hk =>
    have hsum := tasksLeft_setPhase hk (.admitted none)
    simp only [TaskPhase.stepsLeft] at hsum
    show 5 * s.batch.length + _ < _
    omega
  | @send i m gate hk =>
    have hsum := tasksLeft_setPhase hk (.sending gate)
    simp only [TaskPhase.stepsLeft] at hsum
    show 5 * s.batch.length + _ < _
    omega
  | @finish k hk hp =>
    have hleave := tasksLeft_leaveGate (h.remove hk hp)
    have hbatch := (messages_leaveGate
      { s with permits := s.permits + 1
               tasks := s.tasks.deleteWhere fun r => Keyed.key r = k.id } k.phase.gate?).2.1
    have hperm := ((Table.perm_deleteWhere hk).map fun x : DispatchTask =>
      TaskPhase.stepsLeft x.phase).sum_nat
    rw [List.map_cons, List.sum_cons] at hperm
    have hpos : 0 < TaskPhase.stepsLeft k.phase := by
      cases k.phase <;> exact Nat.succ_pos _
    show 5 * (s.endTask k).batch.length + (s.endTask k).tasksLeft < _
    have hbatch : (s.endTask k).batch = s.batch := hbatch
    rw [hbatch]
    unfold tasksLeft at hleave ⊢
    have hleave : ((s.endTask k).tasks.rows.map fun k => TaskPhase.stepsLeft k.phase).sum ≤ _ :=
      hleave
    dsimp only at hleave
    simp only [DispatchTask.key_eq] at hleave hperm
    omega

/-- The tasks that were started are the messages that are no longer in the batch. -/
theorem started_step (hstep : Dispatcher.step cfg s a = some t)
    (ha : DispatcherAction.isRead a = false) :
    t.nextId + t.batch.length = s.nextId + s.batch.length := by
  have hmoves := moves_of_step hstep
  cases steps_of_step hstep with
  | read => cases ha
  | start hb =>
    rw [hb, List.length_cons, Nat.add_right_comm]
    rfl
  | @found i m hk =>
    obtain ⟨-, hbatch, -⟩ := messages_enterGate hk (cfg.endpointOf m.deliveryId)
    rw [nextId_enterGate, hbatch]
  | missed => rfl
  | send => rfl
  | @finish k hk =>
    have hid : (s.endTask k).nextId = s.nextId := nextId_leaveGate ..
    have hbatch := (messages_leaveGate
      { s with permits := s.permits + 1
               tasks := s.tasks.deleteWhere fun r => Keyed.key r = k.id } k.phase.gate?).2.1
    have hbatch : (s.endTask k).batch = s.batch := hbatch
    rw [hid, hbatch]

theorem Sound.run {bs : List DispatcherAction} (hs : Sound cfg s)
    (hbs : ∀ b ∈ bs, DispatcherAction.isRead b = false)
    (h : Transition.run (Dispatcher.step cfg) s bs = some t) :
    Sound cfg t ∧ bs.length + t.stepsLeft ≤ s.stepsLeft ∧
      t.nextId + t.batch.length = s.nextId + s.batch.length := by
  induction bs generalizing s with
  | nil =>
    obtain rfl := Option.some.inj h
    exact ⟨hs, by simp, rfl⟩
  | cons b bs ih =>
    obtain ⟨u, hu, h⟩ := Transition.run_cons_eq_some.mp h
    rw [List.forall_mem_cons] at hbs
    have hless := stepsLeft_step hs.gated hu hbs.1
    have hstarted := started_step hu hbs.1
    obtain ⟨ht, hleft, hall⟩ := ih (hs.step hu) hbs.2 h
    rw [List.length_cons]
    exact ⟨ht, by omega, by omega⟩

/-- Nothing is left to do. -/
def Idle (s : Dispatcher) : Prop := s.batch = [] ∧ s.tasks.rows = []

theorem Idle.stuck (h : Idle s) : Stuck cfg s := by
  have hnone : ∀ i, s.tasks.get i = none := by
    intro i
    refine Table.get_eq_none.mpr fun k hk => ?_
    rw [h.2] at hk
    cases hk
  intro a ha
  cases a with
  | read => cases ha
  | start => simp [Dispatcher.step, h.1]
  | lookup i => simp [Dispatcher.step, hnone i]
  | send i => simp [Dispatcher.step, hnone i]
  | finish i => simp [Dispatcher.step, hnone i]

/-- Once a dispatcher reads no more, its loop and its tasks can take only so many steps, whatever
order they take them in and however the attempts end, and they can take one until nothing is left.
By then each message that was read has had its task, and every permit of the pool and of each
endpoint is free. -/
theorem shutdown_drains (cfg : DispatcherConfig) (hpool : 0 < cfg.concurrency)
    (hcap : 0 < cfg.perEndpointConcurrency) (messages : List DeliveryMessage)
    (s t : Dispatcher) (as bs : List DispatcherAction)
    (hs : Transition.run (step cfg) (init cfg messages) as = some s)
    (hbs : ∀ b ∈ bs, DispatcherAction.isRead b = false)
    (h : Transition.run (step cfg) s bs = some t) :
    bs.length ≤ s.stepsLeft ∧ (Stuck cfg t ↔ Idle t) ∧
      (Idle t → t.nextId = s.nextId + s.batch.length ∧ t.permits = cfg.concurrency ∧
        ∀ e, t.gates e = ⟨cfg.perEndpointConcurrency, []⟩) := by
  have hsound : Sound cfg s := Transition.run_invariant (I := Sound cfg)
    (fun _ _ _ hs h => hs.step h) (sound_init messages) hs
  obtain ⟨ht, hleft, hstarted⟩ := hsound.run hbs h
  refine ⟨by omega, ⟨fun hstuck => ?_, Idle.stuck⟩, fun ⟨hbatch, htasks⟩ => ?_⟩
  · exact ⟨hstuck.noBatch ht hpool hcap, hstuck.noTasks ht.exact hcap⟩
  have hpermits := ht.gated.permits
  rw [hbatch, List.length_nil] at hstarted
  rw [htasks, List.length_nil] at hpermits
  refine ⟨hstarted, hpermits, fun e => ?_⟩
  have hwaiters : (t.gates e).waiters = [] := by
    refine List.eq_nil_iff_forall_not_mem.mpr fun i hi => ?_
    obtain ⟨k, hk, -⟩ := (ht.gated.waiters e).2 i hi
    have hmem := Table.mem_of_get hk
    rw [htasks] at hmem
    cases hmem
  have hvalue : (t.gates e).value = cfg.perEndpointConcurrency := by
    have hgates := ht.exact.gates e
    rw [holders, htasks] at hgates
    simpa using hgates
  cases hg : t.gates e with
  | mk value waiters =>
    rw [hg] at hwaiters hvalue
    rw [← hvalue, ← hwaiters]

/-- Two sends at a time, one of them to each endpoint, and a single endpoint. -/
def oneEndpoint : DispatcherConfig := ⟨2, 1, fun _ => 0⟩

/-- The second task waits for the first. -/
theorem shutdown_drains_sample :
    ∃ t, Transition.run (step oneEndpoint) (init oneEndpoint [⟨3, none⟩, ⟨4, none⟩])
        ([.read 2] ++ [.start, .start, .lookup 0 true, .lookup 1 true, .send 0, .finish 0, .send 1,
          .finish 1]) = some t ∧ t.permits = 2 ∧ t.gates 0 = ⟨1, []⟩ := by
  obtain ⟨s, hs⟩ : ∃ s, Transition.run (step oneEndpoint)
      (init oneEndpoint [⟨3, none⟩, ⟨4, none⟩]) [.read 2] = some s := ⟨_, rfl⟩
  let bs : List DispatcherAction := [.start, .start, .lookup 0 true, .lookup 1 true, .send 0,
    .finish 0, .send 1, .finish 1]
  have hrest : (Transition.run (step oneEndpoint) (init oneEndpoint [⟨3, none⟩, ⟨4, none⟩])
      ([.read 2] ++ bs)).map (fun t => (t.batch, t.tasks.rows)) = some ([], []) := by decide
  rw [Transition.run_append, hs, Option.bind_some] at hrest
  obtain ⟨t, ht, hidle⟩ := Option.map_eq_some_iff.mp hrest
  obtain ⟨hbatch, htasks⟩ := Prod.mk.inj hidle
  obtain ⟨-, -, hall⟩ := shutdown_drains oneEndpoint (by decide) (by decide) _ s t _ bs hs
    (by decide) ht
  obtain ⟨-, hpermits, hgates⟩ := hall ⟨hbatch, htasks⟩
  exact ⟨t, Transition.run_trans hs ht, hpermits, hgates 0⟩

end Dispatcher
end RelayWebhooks
