import RelayWebhooks.Pipeline.Recovery
import RelayWebhooks.Workers.RelayDrain

/-! The passes of all workers, each as its loop runs it: a relay, a dispatcher, a reaper or the
scheduler takes its batch and works through it, and a call on the store or on Redis may raise. Runs
of whole passes are runs of the pipeline. -/
namespace RelayWebhooks

namespace Workers
open Pipeline DeliveryAttemptService

/-- The call of the work on an entry that raises: the lookup or the attempt, `schedule_retry`, or
the XACK. A process that is killed leaves what the call it was at leaves. -/
inductive Fault where
  | attempt
  | scheduleRetry
  | ack
  deriving DecidableEq

/-- What the work on an entry takes from outside. -/
structure Circumstances where
  env : AttemptEnv
  fault : Option Fault := none

/-- An exception of the attempt itself, or of the call that fails. -/
inductive WorkError where
  | raised (err : Raised)
  | failed (fault : Fault)

def WorkError.isNotFound : WorkError → Bool
  | .raised err => err.isNotFound
  | .failed _ => false

/-- One attempt, and the retry it asks for. An attempt that has committed stays when the retry
cannot be scheduled. -/
def processDeliveryMessage (c : Circumstances) (send : OutboundRequest → OutboundHttpResult)
    (s : Pipeline) (m : DeliveryMessage) : Pipeline × Except WorkError Unit :=
  if c.fault = some .attempt then (s, .error (.failed .attempt))
  else
    match attempt c.env send s.db m.deliveryId with
    | .error err => (s, .error (.raised err))
    | .ok (db, row) =>
      match row.state, row.nextRetryAt with
      | .retrying, some t =>
        if c.fault = some .scheduleRetry then ({ s with db }, .error (.failed .scheduleRetry))
        else ({ s with db, zset := s.zset.scheduleRetry row.id t m.correlationId }, .ok ())
      | _, _ => ({ s with db }, .ok ())

/-- Leaves the entry, and acks it or not. -/
def leave (i : ℕ) (acked : Bool) (s : Pipeline) : Pipeline :=
  if acked then { s.setHandler i none with stream := s.stream.xack i } else s.setHandler i none

/-- What the `except` clauses do: only the reaper acks the entry of a delivery that does not exist,
and nothing catches what that XACK raises. -/
def caught (kind : WorkerKind) (c : Circumstances) (i : ℕ) (s : Pipeline) (err : WorkError) :
    Except Pipeline Pipeline :=
  if kind = .reaper && err.isNotFound then
    if c.fault = some .ack then .error (leave i false s) else .ok (leave i true s)
  else .ok (leave i false s)

/-- `_handle_and_ack` of a dispatcher, and what a reaper does with each message. -/
def handle (kind : WorkerKind) (c : Circumstances) (send : OutboundRequest → OutboundHttpResult)
    (i : ℕ) (s : Pipeline) : Except Pipeline Pipeline :=
  match s.stream.entries[i]? with
  | none => .ok s
  | some m =>
    match processDeliveryMessage c send s m with
    | (t, .ok ()) => .ok (leave i (c.fault ≠ some .ack) t)
    | (t, .error err) => caught kind c i t err

/-- What the work on an entry takes from outside may depend on when it is done. -/
abbrev Environment := Pipeline → ℕ → Circumstances

/-- The entries of a batch, one after the other; the process may end before the last. -/
def handleAll (kind : WorkerKind) (env : Environment)
    (send : OutboundRequest → OutboundHttpResult) : List ℕ → Pipeline → Pipeline
  | [], s => s
  | i :: entries, s =>
    match handle kind (env s i) send i s with
    | .ok t => handleAll kind env send entries t
    | .error t => entries.foldl (fun s j => leave j false s) t

/-- A dispatcher reads a batch and works through it. -/
def dispatch (worker count : ℕ) (env : Environment) (send : OutboundRequest → OutboundHttpResult)
    (s : Pipeline) : Pipeline :=
  handleAll .dispatcher env send (s.stream.unread count) (s.read worker count)

/-- The entries a reaper claims. -/
def reclaimable (idle : List ℕ) (count : ℕ) (s : Pipeline) : List ℕ :=
  s.stream.stalePending (fun i => i ∈ idle && (s.handlers i).isNone) count

/-- A reaper claims the entries that have been idle for long enough and works through them. -/
def reap (worker : ℕ) (idle : List ℕ) (count : ℕ) (env : Environment)
    (send : OutboundRequest → OutboundHttpResult) (s : Pipeline) : Pipeline :=
  handleAll .reaper env send (reclaimable idle count s) (s.autoclaim worker idle count)

variable {le : RetryMember → RetryMember → Bool} {kind : WorkerKind} {env : AttemptEnv}
  {c : Circumstances} {send : OutboundRequest → OutboundHttpResult} {s t u : Pipeline}
  {i j w : ℕ}

/-- The state that is left, whether the process goes on or not. -/
def after : Except Pipeline Pipeline → Pipeline
  | .ok t => t
  | .error t => t

theorem setHandler_setHandler (s : Pipeline) (i : ℕ) (h h' : Option Handler) :
    (s.setHandler i h).setHandler i h' = s.setHandler i h' := by
  simp only [Pipeline.setHandler, Function.update_idem]

theorem fail_leave (h : Option Handler) :
    (s.setHandler i h).step le (.fail i) = some (leave i false s) := by
  show some (Pipeline.fail _ i) = _
  rw [Pipeline.fail, setHandler_setHandler]
  rfl

theorem ack_leave (t : Pipeline) :
    (t.setHandler i (some ⟨w, kind, .acking⟩)).step le (.ack i) = some (leave i true t) := by
  show Pipeline.ack _ i = _
  rw [ack_of_acking (setHandler_self ..), setHandler_setHandler, leave, if_pos rfl]
  rfl

/-- A call that fails leaves the entry unacked. -/
theorem caught_failed (fault : Fault) :
    caught kind c i s (.failed fault) = .ok (leave i false s) := by
  rw [caught, WorkError.isNotFound, Bool.and_false, if_neg Bool.false_ne_true]

/-- The last steps of a worker that has gone straight to the XACK, or has given up. -/
theorem run_afterError {p : HandlerPhase} {err : Raised} :
    ∃ as, Transition.run (step le) (s.setHandler i (afterError ⟨w, kind, p⟩ err)) as =
      some (after (caught kind c i s (.raised err))) := by
  unfold afterError caught
  by_cases hdrop : kind = .reaper ∧ err.isNotFound = true
  · rw [if_pos hdrop, if_pos (by simpa [WorkError.isNotFound] using hdrop)]
    split
    next => exact ⟨_, Transition.run_one (fail_leave _)⟩
    next => exact ⟨_, Transition.run_one (ack_leave s)⟩
  · rw [if_neg hdrop, if_neg (by simpa [WorkError.isNotFound] using hdrop)]
    exact ⟨[], rfl⟩

theorem commit_error {d : Delivery} {ev : Event} {e : Endpoint} {err : Raised}
    (hfin : finishAttempt env send s.db d ev e = .error err) :
    (s.setHandler i (some ⟨w, kind, .attempting d ev e⟩)).step le (.commitAttempt i env send) =
      some (s.setHandler i (afterError ⟨w, kind, .attempting d ev e⟩ err)) := by
  have hdb : (s.setHandler i (some ⟨w, kind, .attempting d ev e⟩)).db = s.db := rfl
  show Pipeline.commitAttempt _ i env send = _
  rw [Pipeline.commitAttempt, setHandler_self]
  dsimp only
  rw [hdb, hfin]
  dsimp only
  rw [setHandler_setHandler]

theorem commit_ok {d row : Delivery} {ev : Event} {e : Endpoint} {db : Db}
    (hfin : finishAttempt env send s.db d ev e = .ok (db, row)) :
    (s.setHandler i (some ⟨w, kind, .attempting d ev e⟩)).step le (.commitAttempt i env send) =
      some { s.setHandler i (some ⟨w, kind, .attempted row⟩) with db := db } := by
  let u : Pipeline := s.setHandler i (some ⟨w, kind, .attempting d ev e⟩)
  have hself : u.handlers i = some ⟨w, kind, .attempting d ev e⟩ := setHandler_self ..
  have hcommit := commitAttempt_of_finish hself hfin
  rw [setHandler_setHandler] at hcommit
  exact hcommit

/-- The retry is scheduled, or there is none, or it cannot be scheduled. -/
theorem schedule_cases {m : DeliveryMessage} {db : Db} {row : Delivery}
    (hm : s.stream.entries[i]? = some m) (hfault : c.fault ≠ some .attempt)
    (hattempt : attempt c.env send s.db m.deliveryId = .ok (db, row)) :
    ∃ t, processDeliveryMessage c send s m = (t, .ok ()) ∧
        Pipeline.step le { s.setHandler i (some ⟨w, kind, .attempted row⟩) with db := db }
          (.scheduleRetry i) = some (t.setHandler i (some ⟨w, kind, .acking⟩)) ∨
      processDeliveryMessage c send s m = (t, .error (.failed .scheduleRetry)) ∧
        Pipeline.step le { s.setHandler i (some ⟨w, kind, .attempted row⟩) with db := db }
          (.fail i) = some (leave i false t) := by
  let u : Pipeline := { s.setHandler i (some ⟨w, kind, .attempted row⟩) with db := db }
  have hrow : u.handlers i = some ⟨w, kind, .attempted row⟩ := setHandler_self s i _
  have hentry : u.stream.entries[i]? = some m := hm
  rw [processDeliveryMessage, if_neg hfault, hattempt]
  show ∃ t, _ ∧ u.scheduleRetry i = _ ∨ _
  rw [Pipeline.scheduleRetry, hrow, hentry]
  have hacking : u.setHandler i (some ⟨w, kind, .acking⟩) =
      Pipeline.setHandler { s with db } i (some ⟨w, kind, .acking⟩) := by
    simp only [u, Pipeline.setHandler, Function.update_idem]
  dsimp only
  rw [hacking]
  cases row.state with
  | pending | delivered | dead => exact ⟨_, .inl ⟨rfl, rfl⟩⟩
  | retrying =>
    cases row.nextRetryAt with
    | none => exact ⟨_, .inl ⟨rfl, rfl⟩⟩
    | some v =>
      dsimp only
      by_cases hschedule : c.fault = some .scheduleRetry
      · rw [if_pos hschedule]
        exact ⟨_, .inr ⟨rfl, @fail_leave le { s with db } i _⟩⟩
      · rw [if_neg hschedule]
        exact ⟨_, .inl ⟨rfl, rfl⟩⟩

/-- The work on one entry is a schedule of the pipeline. -/
theorem run_handle (hh : s.handlers i = some ⟨w, kind, .claimed⟩)
    (hopen : kind = .reaper → s.relays.rows = []) :
    ∃ as, Transition.run (step le) s as = some (after (handle kind c send i s)) := by
  unfold handle
  cases hm : s.stream.entries[i]? with
  | none => exact ⟨[], rfl⟩
  | some m =>
    dsimp only
    by_cases hfault : c.fault = some .attempt
    · have hfail : s.step le (.fail i) = some (leave i false s) := rfl
      rw [processDeliveryMessage, if_pos hfault]
      dsimp only
      rw [caught_failed]
      exact ⟨_, Transition.run_one hfail⟩
    have hclosed : ¬(kind = .reaper ∧ s.fanOutOpen m.deliveryId = true) := by
      rintro ⟨hkind, hf⟩
      rw [fanOutOpen, hopen hkind] at hf
      cases hf
    have hattempt := attempt_eq_finishAttempt c.env send s.db m.deliveryId
    cases hload : loadRows s.db m.deliveryId with
    | error err =>
      have hprocess : processDeliveryMessage c send s m = (s, .error (.raised err)) := by
        rw [processDeliveryMessage, if_neg hfault, hattempt, hload]
        rfl
      have hbegin : s.step le (.beginAttempt i) =
          some (s.setHandler i (afterError ⟨w, kind, .claimed⟩ err)) := by
        show s.beginAttempt i = _
        simp [beginAttempt, hh, hm, hclosed, hload]
      obtain ⟨as, has⟩ := @run_afterError le kind c s i w .claimed err
      rw [hprocess]
      exact ⟨_, Transition.run_trans (Transition.run_one hbegin) has⟩
    | ok rows =>
      obtain ⟨d, ev, e⟩ := rows
      have hbegin : s.step le (.beginAttempt i) =
          some (s.setHandler i (some ⟨w, kind, .attempting d ev e⟩)) := by
        show s.beginAttempt i = _
        simp [beginAttempt, hh, hm, hclosed, hload]
      rw [hload] at hattempt
      cases hfin : finishAttempt c.env send s.db d ev e with
      | error err =>
        have hprocess : processDeliveryMessage c send s m = (s, .error (.raised err)) := by
          rw [processDeliveryMessage, if_neg hfault, hattempt]
          simp only [Except.bind, hfin]
        obtain ⟨as, has⟩ := @run_afterError le kind c s i w (.attempting d ev e) err
        rw [hprocess]
        exact ⟨_, Transition.run_trans (Transition.run_trans (Transition.run_one hbegin)
          (Transition.run_one (commit_error hfin))) has⟩
      | ok res =>
        obtain ⟨db, row⟩ := res
        have hcommit := Transition.run_trans (Transition.run_one hbegin)
          (Transition.run_one (@commit_ok le kind c.env send s i w d row ev e db hfin))
        obtain ⟨t, ⟨ht, hschedule⟩ | ⟨ht, hfail⟩⟩ := @schedule_cases le kind c send s i w m db row
          hm hfault (hattempt.trans hfin)
        · have hschedule := Transition.run_trans hcommit (Transition.run_one hschedule)
          rw [ht]
          dsimp only
          by_cases hack : c.fault = some .ack
          · simp only [hack, ne_eq, not_true_eq_false, decide_false]
            exact ⟨_, Transition.run_trans hschedule (Transition.run_one (fail_leave _))⟩
          · simp only [hack, ne_eq, not_false_eq_true, decide_true]
            exact ⟨_, Transition.run_trans hschedule (Transition.run_one (ack_leave t))⟩
        · rw [ht]
          dsimp only
          rw [caught_failed]
          exact ⟨_, Transition.run_trans hcommit (Transition.run_one hfail)⟩

/-- What is on the stream, and who is at work, is left as it is. -/
structure Steady (s t : Pipeline) : Prop where
  handlers : t.handlers = s.handlers
  relays : t.relays = s.relays
  stream : t.stream = s.stream
  issued : t.issued = s.issued

theorem steady_processDeliveryMessage (c : Circumstances)
    (send : OutboundRequest → OutboundHttpResult) (s : Pipeline) (m : DeliveryMessage) :
    Steady s (processDeliveryMessage c send s m).1 := by
  unfold processDeliveryMessage
  split
  next => exact ⟨rfl, rfl, rfl, rfl⟩
  next =>
    split
    next => exact ⟨rfl, rfl, rfl, rfl⟩
    next =>
      split
      next =>
        split
        next => exact ⟨rfl, rfl, rfl, rfl⟩
        next => exact ⟨rfl, rfl, rfl, rfl⟩
      next => exact ⟨rfl, rfl, rfl, rfl⟩

/-- The worker of the entry is gone, and the other workers go on. -/
structure Left (i : ℕ) (s t : Pipeline) : Prop where
  handlers : t.handlers = Function.update s.handlers i none
  relays : t.relays = s.relays
  entries : t.stream.entries = s.stream.entries
  delivered : t.stream.delivered = s.stream.delivered
  pending : ∀ j, j ≠ i → t.stream.pending j = s.stream.pending j
  issued : t.issued = s.issued

theorem left_leave (i : ℕ) (acked : Bool) (s : Pipeline) : Left i s (leave i acked s) := by
  unfold leave
  split
  next =>
    exact ⟨rfl, rfl, rfl, rfl, fun j hj => Function.update_of_ne hj .., rfl⟩
  next => exact ⟨rfl, rfl, rfl, rfl, fun _ _ => rfl, rfl⟩

theorem Steady.leave (h : Steady s t) (i : ℕ) (acked : Bool) : Left i s (leave i acked t) := by
  have hleft := left_leave i acked t
  refine ⟨h.handlers ▸ hleft.handlers, h.relays ▸ hleft.relays, h.stream ▸ hleft.entries,
    h.stream ▸ hleft.delivered, fun j hj => ?_, h.issued ▸ hleft.issued⟩
  rw [hleft.pending j hj, h.stream]

theorem left_handle (kind : WorkerKind) (c : Circumstances)
    (send : OutboundRequest → OutboundHttpResult) {m : DeliveryMessage}
    (hm : s.stream.entries[i]? = some m) : Left i s (after (handle kind c send i s)) := by
  have hsteady := steady_processDeliveryMessage c send s m
  unfold handle
  rw [hm]
  dsimp only
  split
  next t ht =>
    rw [ht] at hsteady
    exact hsteady.leave i _
  next t err ht =>
    rw [ht] at hsteady
    unfold caught
    split
    next =>
      split
      next => exact hsteady.leave i _
      next => exact hsteady.leave i _
    next => exact hsteady.leave i _

/-- The workers of all the entries are gone. -/
structure AllLeft (taken : List ℕ) (s t : Pipeline) : Prop where
  handlers : ∀ i, t.handlers i = if i ∈ taken then none else s.handlers i
  relays : t.relays = s.relays
  entries : t.stream.entries = s.stream.entries
  delivered : t.stream.delivered = s.stream.delivered
  pending : ∀ i, i ∉ taken → t.stream.pending i = s.stream.pending i
  issued : t.issued = s.issued

theorem AllLeft.refl (s : Pipeline) : AllLeft [] s s :=
  ⟨by simp, rfl, rfl, rfl, fun _ _ => rfl, rfl⟩

theorem Left.cons {entries : List ℕ} (h : Left i s t) (hrest : AllLeft entries t u) :
    AllLeft (i :: entries) s u := by
  refine ⟨fun j => ?_, hrest.relays.trans h.relays, hrest.entries.trans h.entries,
    hrest.delivered.trans h.delivered, fun j hj => ?_, hrest.issued.trans h.issued⟩
  · rw [hrest.handlers, h.handlers]
    by_cases hj : j = i
    · subst hj
      simp
    · simp [hj]
  · rw [List.mem_cons, not_or] at hj
    exact (hrest.pending j hj.2).trans (h.pending j hj.1)

/-- The process ends with these entries in hand. -/
theorem allLeft_abandoned (entries : List ℕ) (s : Pipeline) :
    AllLeft entries s (entries.foldl (fun s j => leave j false s) s) := by
  induction entries generalizing s with
  | nil => exact .refl s
  | cons i entries ih => exact (left_leave i false s).cons (ih _)

theorem run_abandoned (le : RetryMember → RetryMember → Bool) (entries : List ℕ) (s : Pipeline) :
    ∃ as, Transition.run (step le) s as =
      some (entries.foldl (fun s j => leave j false s) s) := by
  induction entries generalizing s with
  | nil => exact ⟨[], rfl⟩
  | cons i entries ih =>
    have hfail : s.step le (.fail i) = some (leave i false s) := rfl
    obtain ⟨as, has⟩ := ih (leave i false s)
    exact ⟨_, Transition.run_trans (Transition.run_one hfail) has⟩

theorem allLeft_handleAll (kind : WorkerKind) (env : Environment)
    (send : OutboundRequest → OutboundHttpResult) {entries : List ℕ}
    (hlt : ∀ i ∈ entries, i < s.stream.entries.length) :
    AllLeft entries s (handleAll kind env send entries s) := by
  induction entries generalizing s with
  | nil => exact .refl s
  | cons i entries ih =>
    rw [List.forall_mem_cons] at hlt
    obtain ⟨m, hm⟩ : ∃ m, s.stream.entries[i]? = some m := ⟨_, List.getElem?_eq_getElem hlt.1⟩
    have hone := left_handle kind (env s i) send hm
    rw [handleAll]
    cases hres : handle kind (env s i) send i s with
    | ok t =>
      rw [hres] at hone
      exact hone.cons (ih (hone.entries ▸ hlt.2))
    | error t =>
      rw [hres] at hone
      exact hone.cons (allLeft_abandoned entries t)

theorem run_handleAll (le : RetryMember → RetryMember → Bool) (env : Environment) {entries : List ℕ}
    (hnd : entries.Nodup) (hh : ∀ i ∈ entries, s.handlers i = some ⟨w, kind, .claimed⟩)
    (hlt : ∀ i ∈ entries, i < s.stream.entries.length)
    (hopen : kind = .reaper → s.relays.rows = []) :
    ∃ as, Transition.run (step le) s as = some (handleAll kind env send entries s) := by
  induction entries generalizing s with
  | nil => exact ⟨[], rfl⟩
  | cons i entries ih =>
    obtain ⟨hi, hnd⟩ := List.nodup_cons.mp hnd
    rw [List.forall_mem_cons] at hh hlt
    obtain ⟨m, hm⟩ : ∃ m, s.stream.entries[i]? = some m := ⟨_, List.getElem?_eq_getElem hlt.1⟩
    have hone := left_handle kind (env s i) send hm
    obtain ⟨as, has⟩ := @run_handle le kind (env s i) send s i w hh.1 hopen
    rw [handleAll]
    cases hres : handle kind (env s i) send i s with
    | ok t =>
      rw [hres] at hone has
      have hone : Left i s t := hone
      have hothers : ∀ j ∈ entries, t.handlers j = some ⟨w, kind, .claimed⟩ := by
        intro j hj
        have hne : j ≠ i := fun heq => hi (heq ▸ hj)
        rw [hone.handlers, Function.update_of_ne hne]
        exact hh.2 j hj
      obtain ⟨bs, hbs⟩ := ih hnd hothers (hone.entries ▸ hlt.2) (hone.relays ▸ hopen)
      exact ⟨_, Transition.run_trans has hbs⟩
    | error t =>
      rw [hres] at has
      obtain ⟨bs, hbs⟩ := run_abandoned le entries t
      exact ⟨_, Transition.run_trans has hbs⟩

/-- Between two passes no worker has an entry in hand and no transaction is open. -/
structure Idle (s : Pipeline) : Prop where
  relays : s.relays.rows = []
  handlers : ∀ i, s.handlers i = none

theorem lt_of_mem_unread {count : ℕ} (hi : i ∈ s.stream.unread count) :
    i < s.stream.entries.length := (ConsumerGroup.unacked_of_mem_unread hi).1

theorem allLeft_dispatch (worker count : ℕ) (env : Environment)
    (send : OutboundRequest → OutboundHttpResult) (s : Pipeline) :
    AllLeft (s.stream.unread count) (s.read worker count) (dispatch worker count env send s) :=
  allLeft_handleAll _ _ _ fun i hi => (lt_of_mem_unread hi : i < s.stream.entries.length)

theorem run_dispatch (le : RetryMember → RetryMember → Bool) (worker count : ℕ) (env : Environment)
    (send : OutboundRequest → OutboundHttpResult) (s : Pipeline) :
    ∃ as, Transition.run (step le) s as = some (dispatch worker count env send s) := by
  have hread : s.step le (.read worker count) = some (s.read worker count) := rfl
  obtain ⟨as, has⟩ := @run_handleAll .dispatcher send (s.read worker count) worker le env
    (s.stream.unread count) List.nodup_range' (fun i hi => if_pos hi)
    (fun i hi => (lt_of_mem_unread hi : i < s.stream.entries.length)) nofun
  exact ⟨_, Transition.run_trans (Transition.run_one hread) has⟩

theorem lt_of_mem_reclaimable {idle : List ℕ} {count : ℕ} (hi : i ∈ reclaimable idle count s) :
    i < s.stream.entries.length := (ConsumerGroup.unacked_of_mem_stalePending hi).1

theorem allLeft_reap (worker : ℕ) (idle : List ℕ) (count : ℕ) (env : Environment)
    (send : OutboundRequest → OutboundHttpResult) (s : Pipeline) :
    AllLeft (reclaimable idle count s) (s.autoclaim worker idle count)
      (reap worker idle count env send s) :=
  allLeft_handleAll _ _ _ fun i hi => (lt_of_mem_reclaimable hi : i < s.stream.entries.length)

theorem run_reap (le : RetryMember → RetryMember → Bool) (worker : ℕ) (idle : List ℕ) (count : ℕ)
    (env : Environment) (send : OutboundRequest → OutboundHttpResult) (hr : s.relays.rows = []) :
    ∃ as, Transition.run (step le) s as = some (reap worker idle count env send s) := by
  have hclaim : s.step le (.autoclaim worker idle count) = some (s.autoclaim worker idle count) :=
    rfl
  obtain ⟨as, has⟩ := @run_handleAll .reaper send (s.autoclaim worker idle count) worker le env
    (reclaimable idle count s)
    ((List.nodup_range.filter _).sublist (List.take_sublist ..)) (fun i hi => if_pos hi)
    (fun i hi => (lt_of_mem_reclaimable hi : i < s.stream.entries.length)) fun _ => hr
  exact ⟨_, Transition.run_trans (Transition.run_one hclaim) has⟩

/-- A pass of one of the workers, or a request of a tenant. -/
inductive Pass where
  | relay (gen : Relay.Generator) (now : ℤ) (limit : ℕ)
  | dispatch (worker count : ℕ) (env : Environment) (send : OutboundRequest → OutboundHttpResult)
  | reap (worker : ℕ) (idle : List ℕ) (count : ℕ) (env : Environment)
    (send : OutboundRequest → OutboundHttpResult)
  | schedule (now : ℤ) (limit : ℕ)
  | ingest (event : Event) (outboxId : UUID) (createdAt : ℤ)
  | putEndpoint (endpoint : Endpoint)
  | deleteEndpoint (id : UUID)
  | replay (id tenantId : UUID)

def passStep (le : RetryMember → RetryMember → Bool) (s : Pipeline) : Pass → Option Pipeline
  | .relay gen now limit => some (Relay.runOnce gen now limit s)
  | .dispatch worker count env send => some (dispatch worker count env send s)
  | .reap worker idle count env send => some (reap worker idle count env send s)
  | .schedule now limit => some (s.tick le now limit)
  | .ingest event outboxId createdAt => s.ingest event outboxId createdAt
  | .putEndpoint e => some (s.putEndpoint e)
  | .deleteEndpoint id => s.deleteEndpoint id
  | .replay id tenantId => s.replay id tenantId

/-- The store has fresh keys left for the deliveries of a pass. -/
def Room (s : Pipeline) : Pass → Prop
  | .relay gen _ limit => Relay.Fresh gen.keys ∧
    s.issued.length + Relay.targetCount s.db (s.dueEntries limit) ≤ 2 ^ 128
  | _ => True

theorem Idle.of_eq (hs : Idle s) (hrel : t.relays = s.relays) (hh : t.handlers = s.handlers) :
    Idle t where
  relays := hrel ▸ hs.relays
  handlers := hh ▸ hs.handlers

theorem idle_runOnce (hs : Idle s) (gen : Relay.Generator) (now : ℤ) (limit : ℕ) :
    Idle (Relay.runOnce gen now limit s) := by
  unfold Relay.runOnce
  split
  next =>
    split
    next => exact hs.of_eq rfl rfl
    next => exact hs.of_eq rfl rfl
  next => exact hs.of_eq rfl rfl

theorem idle_dispatch (hs : Idle s) (worker count : ℕ) (env : Environment)
    (send : OutboundRequest → OutboundHttpResult) : Idle (dispatch worker count env send s) := by
  have hleft := allLeft_dispatch worker count env send s
  refine ⟨hleft.relays ▸ hs.relays, fun i => ?_⟩
  rw [hleft.handlers]
  split
  next => rfl
  next hi => exact (if_neg hi).trans (hs.handlers i)

theorem idle_reap (hs : Idle s) (worker : ℕ) (idle : List ℕ) (count : ℕ) (env : Environment)
    (send : OutboundRequest → OutboundHttpResult) :
    Idle (reap worker idle count env send s) := by
  have hleft := allLeft_reap worker idle count env send s
  refine ⟨hleft.relays ▸ hs.relays, fun i => ?_⟩
  rw [hleft.handlers]
  split
  next => rfl
  next hi => exact (if_neg hi).trans (hs.handlers i)

/-- One pass is a schedule of the pipeline, and leaves nobody at work. -/
theorem passStep_refines (le : RetryMember → RetryMember → Bool) (hs : Idle s) {a : Pass}
    (hroom : Room s a) (h : passStep le s a = some t) :
    (∃ as, Transition.run (step le) s as = some t) ∧ Idle t := by
  cases a with
  | relay gen now limit =>
    obtain rfl := Option.some.inj h
    refine ⟨Relay.run_runOnce le gen hroom.1 now limit s 0
      (Table.get_eq_none.mpr (by simp [hs.relays])) ?_, idle_runOnce hs ..⟩
    rw [Relay.targetCount_claimed]
    exact hroom.2
  | dispatch worker count env send =>
    exact Option.some.inj h ▸ ⟨run_dispatch le worker count env send s, idle_dispatch hs ..⟩
  | reap worker idle count env send =>
    exact Option.some.inj h ▸ ⟨run_reap le worker idle count env send hs.relays, idle_reap hs ..⟩
  | schedule now limit =>
    obtain ⟨hh, -, hrel, -⟩ := tick_frame le s now limit
    have hstep : s.step le (.tick now limit) = some t := h
    exact ⟨⟨_, Transition.run_one hstep⟩, Option.some.inj h ▸ hs.of_eq hrel hh⟩
  | ingest event outboxId createdAt =>
    have hstep : s.step le (.ingest event outboxId createdAt) = some t := h
    refine ⟨⟨_, Transition.run_one hstep⟩, ?_⟩
    have h : s.ingest event outboxId createdAt = some t := h
    unfold Pipeline.ingest at h
    split at h
    next => exact Option.some.inj h ▸ hs.of_eq rfl rfl
    next => cases h
  | putEndpoint e =>
    have hstep : s.step le (.putEndpoint e) = some t := h
    refine ⟨⟨_, Transition.run_one hstep⟩, ?_⟩
    obtain rfl := Option.some.inj h
    unfold Pipeline.putEndpoint
    split
    next => exact hs.of_eq rfl rfl
    next => exact hs.of_eq rfl rfl
  | deleteEndpoint id =>
    have hstep : s.step le (.deleteEndpoint id) = some t := h
    refine ⟨⟨_, Transition.run_one hstep⟩, ?_⟩
    have h : s.deleteEndpoint id = some t := h
    unfold Pipeline.deleteEndpoint at h
    split at h
    next => cases h
    next => exact Option.some.inj h ▸ hs.of_eq rfl rfl
  | replay id tenantId =>
    have hstep : s.step le (.replay id tenantId) = some t := h
    refine ⟨⟨_, Transition.run_one hstep⟩, ?_⟩
    obtain ⟨d, ev, row, -, -, -, -, rfl⟩ := replay_some h
    exact hs.of_eq rfl rfl

/-- Whatever passes the workers make, one at a time and each with its entries one after the other,
whatever calls fail in them, and whatever the tenants ask for in between: what comes of it is a run
of the pipeline that leaves nobody at work. A tick and a replay are not interrupted. -/
theorem passes_refine (le : RetryMember → RetryMember → Bool) (s t : Pipeline) (hs : Init s)
    (as : List Pass) (hroom : Transition.Always (passStep le) (fun s a _ => Room s a) s as)
    (h : Transition.run (passStep le) s as = some t) :
    (∃ bs, Transition.run (step le) s bs = some t) ∧ Idle t := by
  have hidle : Idle s := ⟨by rw [hs.2.2.2.1]; rfl, fun i => by rw [hs.2.2.2.2]⟩
  refine hroom.invariant (I := fun u => (∃ bs, Transition.run (step le) s bs = some u) ∧ Idle u)
    (fun u a v hI hR hstep => ?_) ⟨⟨[], rfl⟩, hidle⟩ h
  obtain ⟨⟨bs, hbs⟩, hidle⟩ := hI
  obtain ⟨⟨cs, hcs⟩, hidle'⟩ := passStep_refines le hidle hR hstep
  exact ⟨⟨_, Transition.run_trans hbs hcs⟩, hidle'⟩

/-- A fan-out that Redis refuses, the fan-out, an attempt that is answered with a 500 and whose
retry cannot be scheduled, and the reaper that makes the next. -/
def samplePasses (keys : List UUID → UUID) : List Pass :=
  [.relay { keys, now := 0, xaddRaises := fun _ => true } 0 50,
    .relay { keys, now := 0 } 0 50,
    .dispatch 1 10 (fun _ _ => { env := sampleEnv, fault := some .scheduleRetry })
      fun _ => { latencyMs := 5, statusCode := some 500 },
    .schedule 1000000000 100,
    .reap 2 [0] 50 (fun _ _ => { env := sampleEnv }) fun _ => { latencyMs := 5 }]

theorem passes_refine_sample :
    ∃ keys t bs, Relay.Fresh keys ∧
      Transition.run (passStep fun _ _ => true) samplePipeline (samplePasses keys) = some t ∧
      Transition.run (step fun _ _ => true) samplePipeline bs = some t := by
  obtain ⟨keys, hkeys⟩ := Relay.exists_fresh
  obtain ⟨t, ht⟩ : ∃ t, Transition.run (passStep fun _ _ => true) samplePipeline
      (samplePasses keys) = some t := ⟨_, rfl⟩
  have hroom : Transition.Always (passStep fun _ _ => true) (fun s a _ => Room s a)
      samplePipeline (samplePasses keys) := by
    refine fun u hu => ⟨⟨hkeys, ?_⟩, fun v hv => ⟨⟨hkeys, ?_⟩, fun w hw => ⟨trivial, fun x hx =>
      ⟨trivial, fun y hy => ⟨trivial, trivial⟩⟩⟩⟩⟩
    · show _ ≤ _
      decide
    · obtain rfl := Option.some.inj hu
      have hneeded : (Relay.runOnce { keys, now := 0, xaddRaises := fun _ => true } 0 50
          samplePipeline).issued.length + 1 = 2 := rfl
      exact hneeded.le.trans (by decide)
  obtain ⟨⟨bs, hbs⟩, -⟩ := passes_refine (fun _ _ => true) samplePipeline t
    ⟨rfl, rfl, rfl, rfl, rfl⟩ (samplePasses keys) hroom ht
  exact ⟨keys, t, bs, hkeys, ht, hbs⟩

end Workers

end RelayWebhooks
