import RelayWebhooks.Lib.Transition
import RelayWebhooks.Infra.RetrySchedule

/-! Concurrent instances of the scheduler. An instance pops the due members in one command and
re-enqueues them with one command each; it may stop between any two of them. -/
namespace RelayWebhooks

/-- A retry that an instance has popped and not enqueued. -/
structure HeldRetry where
  instanceId : ℕ
  popped : PoppedRetry
  deriving DecidableEq

/-- `inHand` lists what every instance still has to enqueue, in the order of its loop. -/
structure Scheduler where
  zset : RetryZset
  stream : DeliveryStream
  inHand : List HeldRetry := []

/-- `interrupt` is a crash of the instance or a Redis error. -/
inductive SchedulerAction where
  | pop (j : ℕ) (now : ℤ) (limit : ℕ)
  | enqueue (j : ℕ)
  | interrupt (j : ℕ)
  deriving DecidableEq

namespace Scheduler

variable (le : RetryMember → RetryMember → Bool)

def enqueueHeld (g : DeliveryStream) (h : HeldRetry) : DeliveryStream :=
  g.enqueueDelivery h.popped.retry.deliveryId h.popped.retry.correlationId

/-- One command of `run_once`, or an interruption. The members are gone from the ZSET before
they are parsed. -/
def step (s : Scheduler) : SchedulerAction → Option Scheduler
  | .pop j now limit =>
    if s.inHand.any fun h => h.instanceId = j then none
    else
      match s.zset.popDueRetries le now limit with
      | (some due, zset) => some { s with zset, inHand := s.inHand ++ due.map (⟨j, ·⟩) }
      | (none, zset) => some { s with zset }
  | .enqueue j =>
    (s.inHand.find? fun h => h.instanceId = j).map fun h =>
      { s with stream := enqueueHeld s.stream h, inHand := s.inHand.erase h }
  | .interrupt j => some { s with inHand := s.inHand.filter fun h => h.instanceId ≠ j }

/-- Every member of the ZSET `z` is still there, or was enqueued once after the entries of `g`,
or is held once by an instance. -/
def Accounted (z : RetryZset) (g : DeliveryStream) (t : Scheduler) : Prop :=
  ∃ fired : List HeldRetry, t.stream = fired.foldl enqueueHeld g ∧
    (t.zset.rows ++ (fired ++ t.inHand).map (·.popped.scored)).Perm z.rows

/-- The hand-off loses and duplicates nothing, and takes only what is due. -/
structure HandedOff (s : Scheduler) (as : List SchedulerAction) (t : Scheduler) : Prop where
  accounted : Accounted s.zset s.stream t
  due : ∀ x ∈ s.zset.rows, x ∉ t.zset.rows →
    ∃ j now limit, .pop j now limit ∈ as ∧ x.score ≤ now

/-- The condition on the state before a command: every member that is popped can be parsed, and
no instance stops with a retry in hand. -/
def NoLoss (s : Scheduler) : SchedulerAction → Prop
  | .pop _ now limit => ∀ x ∈ (SortedSet.popDue le s.zset now limit).1,
      (parseMember x.member).isSome
  | .enqueue _ => True
  | .interrupt j => ∀ h ∈ s.inHand, h.instanceId ≠ j

instance (s : Scheduler) : DecidablePred (NoLoss le s) := fun a => by
  unfold NoLoss
  split <;> infer_instance

inductive Steps (s : Scheduler) : SchedulerAction → Scheduler → Prop
  | pop {j : ℕ} {now : ℤ} {limit : ℕ} {due : List PoppedRetry}
      (hdue : parseMembers (SortedSet.popDue le s.zset now limit).1 = some due) :
      Steps s (.pop j now limit)
        { s with zset := (SortedSet.popDue le s.zset now limit).2
                 inHand := s.inHand ++ due.map (⟨j, ·⟩) }
  | raise {j : ℕ} {now : ℤ} {limit : ℕ}
      (hdue : parseMembers (SortedSet.popDue le s.zset now limit).1 = none) :
      Steps s (.pop j now limit) { s with zset := (SortedSet.popDue le s.zset now limit).2 }
  | enqueue {j : ℕ} {h : HeldRetry} (hmem : h ∈ s.inHand) :
      Steps s (.enqueue j)
        { s with stream := enqueueHeld s.stream h, inHand := s.inHand.erase h }
  | interrupt {j : ℕ} :
      Steps s (.interrupt j) { s with inHand := s.inHand.filter fun h => h.instanceId ≠ j }

variable {le} {s t : Scheduler} {a : SchedulerAction}

theorem steps_of_step (h : step le s a = some t) : Steps le s a t := by
  cases a with
  | pop j now limit =>
    simp only [step, RetryZset.popDueRetries] at h
    split at h
    next => cases h
    next =>
      split at h
      next hdue =>
        rw [Prod.mk.injEq] at hdue
        obtain ⟨hdue, rfl⟩ := hdue
        cases h
        exact .pop hdue
      next hdue =>
        rw [Prod.mk.injEq] at hdue
        obtain ⟨hdue, rfl⟩ := hdue
        cases h
        exact .raise hdue
  | enqueue j =>
    obtain ⟨x, hx, rfl⟩ := Option.map_eq_some_iff.mp h
    exact .enqueue (List.mem_of_find?_eq_some hx)
  | interrupt j =>
    cases h
    exact .interrupt

theorem accounted_step {z : RetryZset} {g : DeliveryStream} (hI : Accounted z g s)
    (hg : NoLoss le s a) (h : step le s a = some t) : Accounted z g t := by
  obtain ⟨fired, hstream, hperm⟩ := hI
  cases steps_of_step h with
  | @pop j now limit due hdue =>
    refine ⟨fired, hstream, List.Perm.trans ?_ hperm⟩
    have hpop := SortedSet.popDue_perm le s.zset now limit
    have hscored : (due.map (HeldRetry.mk j)).map (·.popped.scored) =
        (SortedSet.popDue le s.zset now limit).1 := by
      rw [List.map_map]
      exact parseMembers_scored hdue
    rw [← List.append_assoc, List.map_append, hscored]
    refine List.Perm.trans ?_ (hpop.append_right _)
    rw [List.append_assoc]
    exact List.perm_append_comm.append_left _
  | @raise j now limit hdue =>
    have hsome := parseMembers_isSome.mpr hg
    rw [hdue] at hsome
    cases hsome
  | @enqueue j x hmem =>
    refine ⟨fired ++ [x], ?_, List.Perm.trans ?_ hperm⟩
    · rw [List.foldl_append, ← hstream]
      rfl
    · refine List.Perm.append_left _ (List.Perm.map _ ?_)
      rw [List.append_assoc]
      exact (List.perm_cons_erase hmem).symm.append_left _
  | @interrupt j =>
    have hkeep : s.inHand.filter (fun h => h.instanceId ≠ j) = s.inHand :=
      List.filter_eq_self.mpr fun x hx => by simpa using hg x hx
    rw [hkeep]
    exact ⟨fired, hstream, hperm⟩

/-- The number of retries in the ZSET, on the stream and in the hands of an instance. -/
def total (s : Scheduler) : ℕ :=
  s.zset.rows.length + s.stream.entries.length + s.inHand.length

/-- A command keeps the total only if the condition holds before it. -/
theorem total_step (h : step le s a = some t) :
    t.total ≤ s.total ∧ (t.total = s.total → NoLoss le s a) := by
  cases steps_of_step h with
  | @pop j now limit due hdue =>
    have hsome : (parseMembers (SortedSet.popDue le s.zset now limit).1).isSome := by
      rw [hdue]
      rfl
    have hlen := (SortedSet.popDue_perm le s.zset now limit).length_eq
    have hdlen := congrArg List.length (parseMembers_scored hdue)
    simp only [List.length_append, List.length_map] at hlen hdlen
    refine ⟨?_, fun _ => parseMembers_isSome.mp hsome⟩
    simp only [total, List.length_append, List.length_map]
    omega
  | @raise j now limit hdue =>
    have hlen := (SortedSet.popDue_perm le s.zset now limit).length_eq
    have hpos : (SortedSet.popDue le s.zset now limit).1 ≠ [] := by
      intro hnil
      rw [hnil] at hdue
      cases hdue
    have hpos := List.length_pos_of_ne_nil hpos
    simp only [List.length_append] at hlen
    refine ⟨?_, fun heq => ?_⟩
    · simp only [total]
      omega
    · simp only [total] at heq
      omega
  | @enqueue j x hmem =>
    refine ⟨?_, fun _ => trivial⟩
    have hpos := List.length_pos_of_mem hmem
    have hentries : (enqueueHeld s.stream x).entries.length = s.stream.entries.length + 1 :=
      List.length_append
    simp only [total, hentries, List.length_erase_of_mem hmem]
    omega
  | @interrupt j =>
    have hle := List.length_filter_le (fun h : HeldRetry => h.instanceId ≠ j) s.inHand
    refine ⟨?_, fun heq => ?_⟩
    · simp only [total]
      omega
    · have hall : (s.inHand.filter fun h => h.instanceId ≠ j).length = s.inHand.length := by
        simp only [total] at heq
        omega
      intro x hx
      simpa using List.length_filter_eq_length_iff.mp hall x hx

theorem always_noLoss {as : List SchedulerAction} (h : Transition.run (step le) s as = some t)
    (htotal : t.total = s.total) :
    Transition.Always (step le) (fun s a _ => NoLoss le s a) s as := by
  have hle : ∀ {as : List SchedulerAction} {s : Scheduler},
      Transition.run (step le) s as = some t → t.total ≤ s.total := by
    intro as
    induction as with
    | nil =>
      intro s h
      rw [Option.some.inj h]
    | cons a as ih =>
      intro s h
      obtain ⟨u, hu, hrun⟩ := Transition.run_cons_eq_some.mp h
      exact (ih hrun).trans (total_step hu).1
  refine Transition.always_of_run (I := fun s => t.total = s.total)
    (fun s a u as hs hu hrun => ?_) htotal h
  have hu := total_step hu
  have htu := hle hrun
  have hus : u.total = s.total := by omega
  exact ⟨hu.2 hus, hs.trans hus.symm⟩

theorem entries_foldl_enqueueHeld (fired : List HeldRetry) (g : DeliveryStream) :
    (fired.foldl enqueueHeld g).entries.length = g.entries.length + fired.length := by
  induction fired generalizing g with
  | nil => rfl
  | cons h fired ih =>
    have hstep : (enqueueHeld g h).entries.length = g.entries.length + 1 := List.length_append
    rw [List.foldl_cons, ih, hstep, List.length_cons]
    omega

theorem total_of_accounted (hs : s.inHand = []) (h : Accounted s.zset s.stream t) :
    t.total = s.total := by
  obtain ⟨fired, hstream, hperm⟩ := h
  have hlen := hperm.length_eq
  simp only [List.length_append, List.length_map] at hlen
  rw [total, total, hstream, entries_foldl_enqueueHeld, hs, List.length_nil]
  omega

theorem mem_of_not_due {x : Scored RetryMember} {as : List SchedulerAction}
    (hx : x ∈ s.zset.rows) (has : ∀ j now limit, .pop j now limit ∈ as → now < x.score)
    (h : Transition.run (step le) s as = some t) : x ∈ t.zset.rows := by
  have hmem : ∀ a ∈ as, ∀ j now limit, a = .pop j now limit → now < x.score :=
    fun a ha j now limit heq => has j now limit (heq ▸ ha)
  refine Transition.Always.invariant (I := fun u => x ∈ u.zset.rows) ?_ hx
    (Transition.always_of_mem hmem) h
  intro u a v hu ha hst
  have hpop : ∀ now limit, now < x.score →
      x ∈ (SortedSet.popDue le u.zset now limit).2.rows := by
    intro now limit hnow
    exact Table.mem_of_get (SortedSet.get_popDue_of_notDue (Table.get_of_mem hu) hnow)
  cases steps_of_step hst with
  | pop | raise => exact hpop _ _ (ha _ _ _ rfl)
  | enqueue | interrupt => exact hu

/-- In every run of any number of instances, every retry of the ZSET is handed off exactly once,
and only when it is due, if and only if no instance stops with a retry in hand and no popped
member fails to parse. -/
theorem handed_off_iff (le : RetryMember → RetryMember → Bool) (s : Scheduler)
    (hs : s.inHand = []) (as : List SchedulerAction) (t : Scheduler)
    (ht : Transition.run (step le) s as = some t) :
    HandedOff s as t ↔ Transition.Always (step le) (fun s a _ => NoLoss le s a) s as := by
  constructor
  · intro h
    exact always_noLoss ht (total_of_accounted hs h.accounted)
  · intro h
    refine ⟨?_, fun x hx hnot => ?_⟩
    · have hinit : Accounted s.zset s.stream s := ⟨[], rfl, by simp [hs]⟩
      refine Transition.Always.invariant (I := Accounted s.zset s.stream) ?_ hinit h ht
      intro u a v hI hg hst
      exact accounted_step hI hg hst
    · by_contra hdue
      simp only [not_exists, not_and, not_le] at hdue
      exact hnot (mem_of_not_due hx hdue ht)

/-- Two instances, two retries, one of them due. -/
def sampleScheduler : Scheduler where
  zset := RetryZset.scheduleRetry (RetryZset.scheduleRetry .empty 3 10) 4 20
  stream := .empty

theorem handed_off_sample :
    ∃ t, Transition.run (step fun _ _ => true) sampleScheduler
        [.pop 0 15 100, .pop 1 15 100, .enqueue 0, .interrupt 1] = some t ∧
      HandedOff sampleScheduler [.pop 0 15 100, .pop 1 15 100, .enqueue 0, .interrupt 1] t := by
  obtain ⟨t, ht⟩ : ∃ t, Transition.run (step fun _ _ => true) sampleScheduler
      [.pop 0 15 100, .pop 1 15 100, .enqueue 0, .interrupt 1] = some t := ⟨_, rfl⟩
  refine ⟨t, ht, (handed_off_iff (fun _ _ => true) sampleScheduler rfl _ t ht).mpr ?_⟩
  decide +kernel

/-- The instance stops between the pop and the XADD: the due retry is neither in the ZSET nor on
the stream. -/
theorem popped_retry_lost :
    ∃ t, Transition.run (step fun _ _ => true) sampleScheduler
        [.pop 0 15 100, .interrupt 0] = some t ∧
      t.zset.rows = [⟨.envelope 4 none, 20⟩] ∧ t.stream.entries = [] ∧ t.inHand = [] ∧
      ¬HandedOff sampleScheduler [.pop 0 15 100, .interrupt 0] t := by
  refine ⟨_, rfl, by decide, by decide, by decide, fun h => ?_⟩
  have htotal := total_of_accounted rfl h.accounted
  revert htotal
  decide +kernel

end Scheduler

end RelayWebhooks
