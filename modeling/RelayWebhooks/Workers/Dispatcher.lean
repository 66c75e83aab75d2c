import RelayWebhooks.Lib.Table
import RelayWebhooks.Lib.Transition
import RelayWebhooks.Infra.Streams

/-! The dispatcher's main loop and its tasks. The loop takes a permit of the pool before it starts
a task; the task looks its endpoint up and waits for the endpoint's semaphore with that permit
in hand. -/
namespace RelayWebhooks

/-- An `asyncio.Semaphore`: free permits, and the waiting tasks, the longest waiting first. -/
structure Semaphore where
  value : ℕ
  waiters : List ℕ
  deriving DecidableEq, Repr

namespace Semaphore

/-- The task gets a permit at once, or queues up. -/
def acquire (g : Semaphore) (i : ℕ) : Semaphore × Bool :=
  if 0 < g.value ∧ g.waiters = [] then ({ g with value := g.value - 1 }, true)
  else ({ g with waiters := g.waiters ++ [i] }, false)

/-- The permit goes to the first waiter, if there is one. -/
def release (g : Semaphore) : Semaphore × Option ℕ :=
  match g.waiters with
  | [] => ({ g with value := g.value + 1 }, none)
  | i :: waiters => ({ g with waiters }, some i)

end Semaphore

/-- `endpointOf` is the endpoint of each delivery. -/
structure DispatcherConfig where
  concurrency : ℕ
  perEndpointConcurrency : ℕ
  endpointOf : UUID → UUID

/-- `gate` is the endpoint whose semaphore the task holds; none if the lookup found no row. -/
inductive TaskPhase where
  | lookingUp
  | waiting (gate : UUID)
  | admitted (gate : Option UUID)
  | sending (gate : Option UUID)
  deriving DecidableEq, Repr

/-- A live task. It holds one permit of the pool from its creation to its end. -/
structure DispatchTask where
  id : ℕ
  message : DeliveryMessage
  phase : TaskPhase
  deriving DecidableEq, Repr

instance : Keyed DispatchTask ℕ := ⟨DispatchTask.id⟩

@[simp] theorem DispatchTask.key_eq (k : DispatchTask) : Keyed.key k = k.id := rfl

/-- The semaphore a finished task gives back; a waiting task does not finish. -/
def TaskPhase.gate? : TaskPhase → Option UUID
  | admitted gate | sending gate => gate
  | lookingUp | waiting _ => none

/-- `unread` lists the messages to come in their arrival order, and `batch` those that were read
and have no task yet. -/
structure Dispatcher where
  unread : List DeliveryMessage
  batch : List DeliveryMessage
  permits : ℕ
  gates : UUID → Semaphore
  tasks : Table DispatchTask
  nextId : ℕ

inductive DispatcherAction where
  | read (count : ℕ)
  | start
  | lookup (i : ℕ) (found : Bool)
  | send (i : ℕ)
  | finish (i : ℕ)
  deriving DecidableEq

namespace Dispatcher

variable (cfg : DispatcherConfig)

def init (messages : List DeliveryMessage) : Dispatcher where
  unread := messages
  batch := []
  permits := cfg.concurrency
  gates _ := ⟨cfg.perEndpointConcurrency, []⟩
  tasks := .empty
  nextId := 0

def setPhase (s : Dispatcher) (k : DispatchTask) (p : TaskPhase) : Dispatcher :=
  { s with tasks := s.tasks.update { k with phase := p } }

def setGate (s : Dispatcher) (e : UUID) (g : Semaphore) : Dispatcher :=
  { s with gates := Function.update s.gates e g }

/-- Acquires the semaphore of the endpoint that was found. -/
def enterGate (s : Dispatcher) (k : DispatchTask) (e : UUID) : Dispatcher :=
  match (s.gates e).acquire k.id with
  | (g, true) => (s.setGate e g).setPhase k (.admitted (some e))
  | (g, false) => (s.setGate e g).setPhase k (.waiting e)

/-- Hands the permit of a gate on. -/
def leaveGate (s : Dispatcher) : Option UUID → Dispatcher
  | none => s
  | some e =>
    match (s.gates e).release.2.bind s.tasks.get with
    | some k => (s.setGate e (s.gates e).release.1).setPhase k (.admitted (some e))
    | none => s.setGate e (s.gates e).release.1

/-- The `finally` clause: both permits go back. -/
def endTask (s : Dispatcher) (k : DispatchTask) : Dispatcher :=
  { s with permits := s.permits + 1
           tasks := s.tasks.deleteWhere fun r => Keyed.key r = k.id }.leaveGate k.phase.gate?

/-- One step of the main loop or of a task. A read returns the messages that have arrived, up to
`concurrency` of them. A task can end after its send or by an exception at any other point but
the wait for its semaphore. -/
def step (s : Dispatcher) : DispatcherAction → Option Dispatcher
  | .read count =>
    if s.batch = [] ∧ count ≤ cfg.concurrency then
      some { s with batch := s.unread.take count, unread := s.unread.drop count }
    else none
  | .start =>
    match s.batch with
    | [] => none
    | m :: batch =>
      if 0 < s.permits then
        (s.tasks.insert ⟨s.nextId, m, .lookingUp⟩).map fun tasks =>
          { s with batch, tasks, permits := s.permits - 1, nextId := s.nextId + 1 }
      else none
  | .lookup i found =>
    match s.tasks.get i with
    | some ⟨j, m, .lookingUp⟩ =>
      some (if found then s.enterGate ⟨j, m, .lookingUp⟩ (cfg.endpointOf m.deliveryId)
        else s.setPhase ⟨j, m, .lookingUp⟩ (.admitted none))
    | _ => none
  | .send i =>
    match s.tasks.get i with
    | some ⟨j, m, .admitted gate⟩ => some (s.setPhase ⟨j, m, .admitted gate⟩ (.sending gate))
    | _ => none
  | .finish i =>
    match s.tasks.get i with
    | some ⟨_, _, .waiting _⟩ => none
    | some k => some (s.endTask k)
    | none => none

/-- A message of the endpoint. -/
def ofEndpoint (e : UUID) (m : DeliveryMessage) : Bool := cfg.endpointOf m.deliveryId = e

/-- The permits of the pool the tasks of one endpoint hold together. -/
def heldBy (s : Dispatcher) (e : UUID) : ℕ :=
  s.tasks.rows.countP fun k => ofEndpoint cfg e k.message

/-- The steps one by one, with the guard of each. -/
inductive Steps (s : Dispatcher) : DispatcherAction → Dispatcher → Prop
  | read {count : ℕ} (hb : s.batch = []) (hc : count ≤ cfg.concurrency) :
    Steps s (.read count) { s with batch := s.unread.take count, unread := s.unread.drop count }
  | start {m : DeliveryMessage} {batch : List DeliveryMessage} {tasks : Table DispatchTask}
    (hb : s.batch = m :: batch) (hp : 0 < s.permits)
    (hins : s.tasks.insert ⟨s.nextId, m, .lookingUp⟩ = some tasks) :
    Steps s .start { s with batch, tasks, permits := s.permits - 1, nextId := s.nextId + 1 }
  | found {i : ℕ} {m : DeliveryMessage} (hk : s.tasks.get i = some ⟨i, m, .lookingUp⟩) :
    Steps s (.lookup i true) (s.enterGate ⟨i, m, .lookingUp⟩ (cfg.endpointOf m.deliveryId))
  | missed {i : ℕ} {m : DeliveryMessage} (hk : s.tasks.get i = some ⟨i, m, .lookingUp⟩) :
    Steps s (.lookup i false) (s.setPhase ⟨i, m, .lookingUp⟩ (.admitted none))
  | send {i : ℕ} {m : DeliveryMessage} {gate : Option UUID}
    (hk : s.tasks.get i = some ⟨i, m, .admitted gate⟩) :
    Steps s (.send i) (s.setPhase ⟨i, m, .admitted gate⟩ (.sending gate))
  | finish {k : DispatchTask} (hk : s.tasks.get k.id = some k) (hp : ∀ e, k.phase ≠ .waiting e) :
    Steps s (.finish k.id) (s.endTask k)

/-- What a step does to the messages and to the permits. -/
inductive Moves (s t : Dispatcher) : Prop
  | read {count : ℕ} (hb : s.batch = []) (hc : count ≤ cfg.concurrency)
      (hu : t.unread = s.unread.drop count) (htb : t.batch = s.unread.take count)
      (hp : t.permits = s.permits) (hk : t.tasks = s.tasks)
  | start {m : DeliveryMessage} (hb : s.batch = m :: t.batch) (hu : t.unread = s.unread)
      (hp : s.permits = t.permits + 1)
      (hk : t.tasks.rows = s.tasks.rows ++ [⟨s.nextId, m, .lookingUp⟩])
  | keep (hb : t.batch = s.batch) (hu : t.unread = s.unread) (hp : t.permits = s.permits)
      (hk : t.tasks.rows.map DispatchTask.message = s.tasks.rows.map DispatchTask.message)
  | finish {m : DeliveryMessage} (hb : t.batch = s.batch) (hu : t.unread = s.unread)
      (hp : t.permits = s.permits + 1)
      (hk : (m :: t.tasks.rows.map DispatchTask.message).Perm
        (s.tasks.rows.map DispatchTask.message))

variable {cfg} {s t : Dispatcher} {a : DispatcherAction} {k : DispatchTask} {i : ℕ}

/-- A phase change keeps every task's message. -/
theorem messages_setPhase (h : s.tasks.get i = some k) (p : TaskPhase) :
    (s.setPhase k p).tasks.rows.map DispatchTask.message =
      s.tasks.rows.map DispatchTask.message := by
  have hid : k.id = i := Table.key_of_get h
  have hget : s.tasks.get (Keyed.key { k with phase := p }) = some k := by
    rw [DispatchTask.key_eq, hid, h]
  obtain ⟨l₁, l₂, hrows, hupd⟩ := Table.rows_update hget
  have hset : (s.setPhase k p).tasks.rows = l₁ ++ { k with phase := p } :: l₂ := hupd
  rw [hset, hrows]
  simp

theorem messages_leaveGate (s : Dispatcher) (gate : Option UUID) :
    (s.leaveGate gate).tasks.rows.map DispatchTask.message =
        s.tasks.rows.map DispatchTask.message ∧
      (s.leaveGate gate).batch = s.batch ∧ (s.leaveGate gate).unread = s.unread ∧
      (s.leaveGate gate).permits = s.permits := by
  unfold leaveGate
  split
  next => exact ⟨rfl, rfl, rfl, rfl⟩
  next e =>
    split
    next k hk =>
      obtain ⟨i, -, hget⟩ := Option.bind_eq_some_iff.mp hk
      have hget' : (s.setGate e (s.gates e).release.1).tasks.get i = some k := hget
      exact ⟨messages_setPhase hget' _, rfl, rfl, rfl⟩
    next => exact ⟨rfl, rfl, rfl, rfl⟩

theorem messages_enterGate (h : s.tasks.get i = some k) (e : UUID) :
    (s.enterGate k e).tasks.rows.map DispatchTask.message =
        s.tasks.rows.map DispatchTask.message ∧
      (s.enterGate k e).batch = s.batch ∧ (s.enterGate k e).unread = s.unread ∧
      (s.enterGate k e).permits = s.permits := by
  have hget : ∀ g, (s.setGate e g).tasks.get i = some k := fun _ => h
  unfold enterGate
  split
  next g _ => exact ⟨messages_setPhase (hget g) _, rfl, rfl, rfl⟩
  next g _ => exact ⟨messages_setPhase (hget g) _, rfl, rfl, rfl⟩

theorem steps_of_step (h : step cfg s a = some t) : Steps cfg s a t := by
  cases a with
  | read count =>
    simp only [step] at h
    split at h
    next hc =>
      cases h
      exact .read hc.1 hc.2
    next => cases h
  | start =>
    simp only [step] at h
    split at h
    next => cases h
    next m batch hb =>
      split at h
      next hp =>
        obtain ⟨tasks, hins, rfl⟩ := Option.map_eq_some_iff.mp h
        exact .start hb hp hins
      next => cases h
  | lookup i found =>
    simp only [step] at h
    split at h
    next j m hk =>
      obtain rfl : j = i := Table.key_of_get hk
      obtain rfl := Option.some.inj h
      cases found with
      | true => exact .found hk
      | false => exact .missed hk
    next => cases h
  | send i =>
    simp only [step] at h
    split at h
    next j m gate hk =>
      obtain rfl : j = i := Table.key_of_get hk
      obtain rfl := Option.some.inj h
      exact .send hk
    next => cases h
  | finish i =>
    simp only [step] at h
    split at h
    next => cases h
    next k hwait hk =>
      obtain rfl : k.id = i := Table.key_of_get hk
      obtain rfl := Option.some.inj h
      refine .finish hk fun e hp => ?_
      obtain ⟨j, m, p⟩ := k
      obtain rfl : p = .waiting e := hp
      exact hwait j m e rfl
    next => cases h

theorem moves_of_step (h : step cfg s a = some t) : Moves cfg s t := by
  cases steps_of_step h with
  | read hb hc => exact .read hb hc rfl rfl rfl rfl
  | start hb hp hins =>
    have hpred : s.permits = s.permits - 1 + 1 := by omega
    exact .start hb rfl hpred (Table.insert_eq_some.mp hins).2
  | found hk =>
    obtain ⟨hmsg, hb, hu, hp⟩ := messages_enterGate hk _
    exact .keep hb hu hp hmsg
  | missed hk => exact .keep rfl rfl rfl (messages_setPhase hk _)
  | send hk => exact .keep rfl rfl rfl (messages_setPhase hk _)
  | @finish k hk =>
    have hdel := (Table.perm_deleteWhere hk).map DispatchTask.message
    obtain ⟨hmsg, hb, hu, hp⟩ := messages_leaveGate
      { s with permits := s.permits + 1
               tasks := s.tasks.deleteWhere fun r => Keyed.key r = k.id } k.phase.gate?
    refine .finish (m := k.message) hb hu hp ?_
    have hm : (s.endTask k).tasks.rows.map DispatchTask.message =
        (s.tasks.deleteWhere fun r => Keyed.key r = k.id).rows.map DispatchTask.message := hmsg
    rw [hm]
    exact hdel

theorem heldBy_eq (s : Dispatcher) (e : UUID) :
    s.heldBy cfg e = (s.tasks.rows.map DispatchTask.message).countP (ofEndpoint cfg e) := by
  rw [List.countP_map]
  rfl

/-- The messages of an endpoint that have no finished task. -/
def remaining (cfg : DispatcherConfig) (s : Dispatcher) (e : UUID) : ℕ :=
  s.heldBy cfg e + s.batch.countP (ofEndpoint cfg e) + s.unread.countP (ofEndpoint cfg e)

theorem remaining_step (h : step cfg s a = some t) (e : UUID) :
    t.remaining cfg e ≤ s.remaining cfg e := by
  simp only [remaining, heldBy_eq]
  cases moves_of_step h with
  | @read count hb _ hu htb _ hk =>
    have hsplit : (s.unread.take count).countP (ofEndpoint cfg e) +
        (s.unread.drop count).countP (ofEndpoint cfg e) =
          s.unread.countP (ofEndpoint cfg e) := by
      rw [← List.countP_append, List.take_append_drop]
    rw [hu, htb, hk, hb, List.countP_nil]
    omega
  | @start m hb hu _ hk =>
    rw [hb, hu, hk, List.map_append, List.countP_append, List.countP_cons]
    simp only [List.map_cons, List.map_nil, List.countP_cons, List.countP_nil]
    omega
  | keep hb hu _ hk => rw [hb, hu, hk]
  | @finish m hb hu _ hk =>
    have hcount := hk.countP_eq (ofEndpoint cfg e)
    rw [List.countP_cons] at hcount
    rw [hb, hu]
    omega

theorem heldBy_le_of_run {messages : List DeliveryMessage} {as : List DispatcherAction}
    (h : Transition.run (step cfg) (init cfg messages) as = some t) (e : UUID) :
    t.heldBy cfg e ≤ messages.countP (ofEndpoint cfg e) := by
  have hinit : (init cfg messages).remaining cfg e = messages.countP (ofEndpoint cfg e) := by
    simp [remaining, heldBy, init, Table.empty]
  have hle : t.remaining cfg e ≤ messages.countP (ofEndpoint cfg e) :=
    Transition.run_invariant
      (I := fun u => u.remaining cfg e ≤ messages.countP (ofEndpoint cfg e))
      (fun u a v hu hst => (remaining_step hst e).trans hu) hinit.le h
  simp only [remaining] at hle
  omega

/-- All live tasks belong to one endpoint, and the loop is about to read. -/
structure Hogged (cfg : DispatcherConfig) (e : UUID) (s : Dispatcher) : Prop where
  batch : s.batch = []
  own : ∀ k ∈ s.tasks.rows, ofEndpoint cfg e k.message = true
  fresh : ∀ k ∈ s.tasks.rows, k.id < s.nextId
  permits : s.permits + s.tasks.rows.length = cfg.concurrency

theorem Hogged.heldBy_eq {e : UUID} (h : Hogged cfg e s) :
    s.heldBy cfg e = s.tasks.rows.length :=
  List.countP_eq_length.mpr h.own

/-- Reads the next message and starts its task. -/
theorem Hogged.start {e : UUID} {m : DeliveryMessage} {ms : List DeliveryMessage}
    (h : Hogged cfg e s) (hu : s.unread = m :: ms) (hp : s.tasks.rows.length < cfg.concurrency) :
    ∃ t, Transition.run (step cfg) s [.read 1, .start] = some t ∧ t.batch = [] ∧
      t.unread = ms ∧ t.tasks.rows = s.tasks.rows ++ [⟨s.nextId, m, .lookingUp⟩] ∧
      s.permits = t.permits + 1 ∧ t.nextId = s.nextId + 1 := by
  have hfresh : s.tasks.get s.nextId = none :=
    Table.get_eq_none.mpr fun k hk => Nat.ne_of_lt (h.fresh k hk)
  have hpermits := h.permits
  have hpos : 0 < s.permits := by omega
  have hcount : 1 ≤ cfg.concurrency := by omega
  cases hins : s.tasks.insert ⟨s.nextId, m, .lookingUp⟩ with
  | none =>
    obtain ⟨k, hk⟩ := Table.insert_eq_none.mp hins
    have hsome : s.tasks.get s.nextId = some k := hk
    rw [hfresh] at hsome
    cases hsome
  | some tasks =>
    obtain ⟨-, hrows⟩ := Table.insert_eq_some.mp hins
    refine ⟨{ s with unread := ms, batch := [], tasks, permits := s.permits - 1,
                     nextId := s.nextId + 1 }, ?_, rfl, rfl, hrows, by simp only; omega, rfl⟩
    simp [Transition.run_cons, step, h.batch, hcount, hu, hpos, hins]

/-- A task of another endpoint ends before the next message is read. -/
theorem Hogged.skip {e : UUID} {m : DeliveryMessage} {ms : List DeliveryMessage}
    (h : Hogged cfg e s) (hu : s.unread = m :: ms) (hp : s.tasks.rows.length < cfg.concurrency) :
    ∃ t, Transition.run (step cfg) s [.read 1, .start, .finish s.nextId] = some t ∧
      t.unread = ms ∧ t.tasks.rows = s.tasks.rows ∧ Hogged cfg e t := by
  obtain ⟨t, hrun, hb, htu, hrows, hpermits, hid⟩ := h.start hu hp
  have hmem : t.tasks.get s.nextId = some ⟨s.nextId, m, .lookingUp⟩ :=
    Table.get_eq_some.mpr ⟨by simp [hrows], rfl⟩
  have hstep : step cfg t (.finish s.nextId) = some (t.endTask ⟨s.nextId, m, .lookingUp⟩) := by
    simp [step, hmem]
  have hdel : (t.endTask ⟨s.nextId, m, .lookingUp⟩).tasks.rows = s.tasks.rows := by
    have hkeep : s.tasks.rows.filter (fun r => !decide (r.id = s.nextId)) = s.tasks.rows :=
      List.filter_eq_self.mpr fun k hk => by simp [Nat.ne_of_lt (h.fresh k hk)]
    simp [endTask, leaveGate, TaskPhase.gate?, Table.deleteWhere, hrows, hkeep]
  refine ⟨_, Transition.run_snoc hrun hstep, htu, hdel, hb, ?_, ?_, ?_⟩
  · rw [hdel]
    exact h.own
  · rw [hdel]
    intro k hk
    have hnext : (t.endTask ⟨s.nextId, m, .lookingUp⟩).nextId = t.nextId := rfl
    have hlt := h.fresh k hk
    omega
  · have hp' : (t.endTask ⟨s.nextId, m, .lookingUp⟩).permits = t.permits + 1 := rfl
    rw [hdel, hp', ← hpermits]
    exact h.permits

/-- The tasks of the endpoint stay in their first step while all others end at once. -/
theorem exists_run_heldBy {e : UUID} {n : ℕ} (hn : n < cfg.concurrency)
    (ms : List DeliveryMessage) :
    ∀ s : Dispatcher, Hogged cfg e s → s.unread = ms → s.tasks.rows.length ≤ n →
      n < s.tasks.rows.length + ms.countP (ofEndpoint cfg e) →
      ∃ as t, Transition.run (step cfg) s as = some t ∧ n < t.heldBy cfg e := by
  induction ms with
  | nil =>
    intro s _ _ hle hlt
    rw [List.countP_nil] at hlt
    omega
  | cons m ms ih =>
    intro s hs hu hle hlt
    rw [List.countP_cons] at hlt
    have hp : s.tasks.rows.length < cfg.concurrency := by omega
    by_cases hm : ofEndpoint cfg e m = true
    · obtain ⟨t, hrun, hb, htu, hrows, hpermits, hid⟩ := hs.start hu hp
      have hlen : t.tasks.rows.length = s.tasks.rows.length + 1 := by simp [hrows]
      have ht : Hogged cfg e t := by
        refine ⟨hb, fun k hk => ?_, fun k hk => ?_, ?_⟩
        · rw [hrows, List.mem_append, List.mem_singleton] at hk
          rcases hk with hk | rfl
          · exact hs.own k hk
          · exact hm
        · rw [hrows, List.mem_append, List.mem_singleton] at hk
          rcases hk with hk | rfl
          · have hlt := hs.fresh k hk
            omega
          · simp [hid]
        · have hs' := hs.permits
          omega
      by_cases hfull : n < t.tasks.rows.length
      · exact ⟨_, t, hrun, by rw [ht.heldBy_eq]; exact hfull⟩
      · rw [if_pos hm] at hlt
        obtain ⟨as, u, hu, hheld⟩ := ih t ht htu (by omega) (by omega)
        refine ⟨[.read 1, .start] ++ as, u, ?_, hheld⟩
        rw [Transition.run_append, hrun, Option.bind_some, hu]
    · obtain ⟨t, hrun, htu, hrows, ht⟩ := hs.skip hu hp
      rw [if_neg hm] at hlt
      rw [← hrows] at hle hlt
      obtain ⟨as, u, hu, hheld⟩ := ih t ht htu hle (by omega)
      refine ⟨[.read 1, .start, .finish s.nextId] ++ as, u, ?_, hheld⟩
      rw [Transition.run_append, hrun, Option.bind_some, hu]

/-- For every arrival order: no endpoint ever holds more than its share of the pool, in any run,
if and only if no endpoint has more messages than that. -/
theorem pool_share_iff (cfg : DispatcherConfig)
    (hP : cfg.perEndpointConcurrency < cfg.concurrency) (messages : List DeliveryMessage) :
    (∀ as t, Transition.run (step cfg) (init cfg messages) as = some t →
      ∀ e, t.heldBy cfg e ≤ cfg.perEndpointConcurrency) ↔
    ∀ e, messages.countP (ofEndpoint cfg e) ≤ cfg.perEndpointConcurrency := by
  constructor
  · intro h e
    by_contra hmany
    have hinit : Hogged cfg e (init cfg messages) :=
      ⟨rfl, fun k hk => (List.not_mem_nil hk).elim, fun k hk => (List.not_mem_nil hk).elim, rfl⟩
    obtain ⟨as, t, hrun, hheld⟩ := exists_run_heldBy hP messages _ hinit rfl (Nat.zero_le _)
      (by simpa [init, Table.empty] using hmany)
    have hle := h as t hrun e
    omega
  · intro h as t hrun e
    exact (heldBy_le_of_run hrun e).trans (h e)

/-- Two places in the pool, one for each endpoint; delivery 5 goes to endpoint 1, all others to
endpoint 0. -/
def sampleDispatcher : DispatcherConfig := ⟨2, 1, fun d => if d = 5 then 1 else 0⟩

theorem pool_share_sample :
    ∃ t, Transition.run (step sampleDispatcher)
        (init sampleDispatcher [⟨3, none⟩, ⟨5, none⟩])
        [.read 2, .start, .start, .lookup 0 true, .lookup 1 true] = some t ∧
      t.heldBy sampleDispatcher 0 ≤ 1 ∧ t.heldBy sampleDispatcher 1 ≤ 1 := by
  have hfew : ∀ e, [(⟨3, none⟩ : DeliveryMessage), ⟨5, none⟩].countP
      (ofEndpoint sampleDispatcher e) ≤ 1 := by
    intro e
    by_cases he : (0 : UUID) = e
    · subst he
      decide
    · have hother : ofEndpoint sampleDispatcher e ⟨3, none⟩ = false := decide_eq_false he
      rw [List.countP_cons_of_neg (by rw [hother]; exact Bool.false_ne_true)]
      exact List.countP_le_length
  have hshare := (pool_share_iff sampleDispatcher (by decide) _).mpr hfew
  obtain ⟨t, ht⟩ : ∃ t, Transition.run (step sampleDispatcher)
      (init sampleDispatcher [⟨3, none⟩, ⟨5, none⟩])
      [.read 2, .start, .start, .lookup 0 true, .lookup 1 true] = some t := ⟨_, rfl⟩
  exact ⟨t, ht, hshare _ t ht 0, hshare _ t ht 1⟩

/-- Two messages of endpoint 0 take the whole pool, the second one while it waits for the
endpoint's semaphore, and the message of endpoint 1 cannot start. -/
theorem pool_hogged :
    1 ≤ sampleDispatcher.perEndpointConcurrency ∧
    sampleDispatcher.perEndpointConcurrency < sampleDispatcher.concurrency ∧
    ∃ t, Transition.run (step sampleDispatcher)
        (init sampleDispatcher [⟨3, none⟩, ⟨4, none⟩, ⟨5, none⟩])
        [.read 2, .start, .start, .lookup 0 true, .lookup 1 true, .read 1] = some t ∧
      t.heldBy sampleDispatcher 0 = 2 ∧
      t.tasks.rows.map DispatchTask.phase = [.admitted (some 0), .waiting 0] ∧
      t.batch = [⟨5, none⟩] ∧ step sampleDispatcher t .start = none := by
  exact ⟨by decide, by decide, _, rfl, rfl, by decide, by decide, rfl⟩

end Dispatcher

end RelayWebhooks
