import RelayWebhooks.Infra.Streams
import RelayWebhooks.Lib.TimedGroup

/-! The sweeps of a reaper over the delivery stream. Every sweep claims from the oldest pending
entry on, so messages that are never acked come before all others each time. -/
namespace RelayWebhooks

abbrev TimedStream := TimedGroup DeliveryMessage ℕ

namespace Reaper

def defaultClaimCount : ℕ := 50

/-- `claim_stale_deliveries` as a sweep calls it. -/
def claimStale (g : TimedStream) (minIdleMs now : ℤ) : List ℕ :=
  g.claimable minIdleMs now defaultClaimCount

/-- `run_once`: claims, works on each message and acks those it is done with. `done` tells which:
the processed ones, and those whose delivery does not exist. -/
def runOnce (g : TimedStream) (consumer : ℕ) (minIdleMs now : ℤ) (done : ℕ → Bool) :
    TimedStream :=
  (g.xautoclaim consumer minIdleMs now defaultClaimCount).xackAll
    ((claimStale g minIdleMs now).filter done)

/-- A sweep, and what happens to the stream between two sweeps. -/
inductive StreamEvent where
  | sweep (consumer : ℕ) (now : ℤ) (done : ℕ → Bool)
  | enqueue (m : DeliveryMessage)
  | read (consumer count : ℕ) (now : ℤ)
  | ack (i : ℕ)

def step (minIdleMs : ℤ) (g : TimedStream) : StreamEvent → TimedStream
  | .sweep consumer now done => runOnce g consumer minIdleMs now done
  | .enqueue m => g.xadd m
  | .read consumer count now => g.xreadgroup consumer count now
  | .ack i => g.xack i

/-- Some sweep of the run claims the entry. -/
def Reclaims (minIdleMs : ℤ) (i : ℕ) : TimedStream → List StreamEvent → Prop
  | _, [] => False
  | g, e :: es =>
    (match e with
      | .sweep _ now _ => i ∈ claimStale g minIdleMs now
      | _ => False) ∨ Reclaims minIdleMs i (step minIdleMs g e) es

/-- Each sweep comes at least the minimum idle time after the one before it, the first one after
`last`. -/
def Apart (minIdleMs : ℤ) : ℤ → List StreamEvent → Prop
  | _, [] => True
  | last, e :: es =>
    match e with
    | .sweep _ now _ => last + minIdleMs ≤ now ∧ Apart minIdleMs now es
    | _ => Apart minIdleMs last es

/-- The messages before the entry are never acked: each attempt at them fails. -/
def FailsBefore (i : ℕ) : StreamEvent → Prop
  | .sweep _ _ done => ∀ j < i, done j = false
  | .ack j => i < j
  | _ => True

def isSweep : StreamEvent → Bool
  | .sweep .. => true
  | _ => false

/-- The entry and those before it were handed out by the time `last`, and it is pending. -/
structure Waits (g : TimedStream) (i : ℕ) (last : ℤ) : Prop where
  pending : i ∈ g.pendingEntries
  since : ∀ j ≤ i, g.since j ≤ last

variable {g : TimedStream} {i : ℕ} {last minIdleMs : ℤ} {e : StreamEvent}

theorem Waits.lt (h : Waits g i last) : i < g.group.delivered :=
  (TimedGroup.mem_pendingEntries.mp h.pending).1

theorem Waits.mem_claimStale {now : ℤ} (h : Waits g i last) (hnow : last + minIdleMs ≤ now) :
    i ∈ claimStale g minIdleMs now ↔ (g.older i).length < defaultClaimCount := by
  refine TimedGroup.mem_claimable_iff h.pending fun j _ hj => ?_
  have hsince := h.since j hj
  simp only [TimedGroup.idle, Bool.or_eq_true, decide_eq_true_eq]
  omega

/-- What is pending up to the entry stays pending, under the same hand-out times or later ones. -/
theorem Waits.mono {g' : TimedStream} {last' : ℤ} (h : Waits g i last)
    (hd : g.group.delivered ≤ g'.group.delivered)
    (hp : ∀ j ≤ i, (g'.group.pending j).isSome = (g.group.pending j).isSome)
    (hs : ∀ j ≤ i, g'.since j ≤ last') : Waits g' i last' ∧ g'.older i = g.older i := by
  have hlt := h.lt
  have hpend := (TimedGroup.mem_pendingEntries.mp h.pending).2
  refine ⟨⟨TimedGroup.mem_pendingEntries.mpr ⟨by omega, ?_⟩, hs⟩, ?_⟩
  · rw [hp i (Nat.le_refl _), hpend]
  · exact TimedGroup.older_congr (by omega) (by omega) fun j hj => hp j (Nat.le_of_lt hj)

/-- Between two sweeps nothing happens to the entry or to those before it. -/
theorem Waits.between (h : Waits g i last) (minIdleMs : ℤ) (he : isSweep e = false)
    (hf : FailsBefore i e) :
    Waits (step minIdleMs g e) i last ∧ (step minIdleMs g e).older i = g.older i := by
  have hlt := h.lt
  cases e with
  | sweep => cases he
  | enqueue m => exact h.mono (Nat.le_refl _) (fun _ _ => rfl) h.since
  | read consumer count now =>
    have hkeep : ∀ j ≤ i, (g.xreadgroup consumer count now).group.pending j = g.group.pending j ∧
        (g.xreadgroup consumer count now).since j = g.since j := fun j hj =>
      TimedGroup.pending_xreadgroup consumer (Nat.lt_of_le_of_lt hj hlt)
    refine h.mono (Nat.le_add_right ..) (fun j hj => ?_) fun j hj => ?_
    · rw [step, (hkeep j hj).1]
    · rw [step, (hkeep j hj).2]
      exact h.since j hj
  | ack k =>
    refine h.mono (Nat.le_refl _) (fun j hj => ?_) h.since
    have hne : j ≠ k := Nat.ne_of_lt (Nat.lt_of_le_of_lt hj hf)
    rw [step, TimedGroup.pending_xack_ne hne]

/-- A sweep that does not reach the entry leaves it waiting behind the same entries. -/
theorem Waits.swept (h : Waits g i last) (hmin : 0 ≤ minIdleMs) (consumer : ℕ) {now : ℤ}
    {done : ℕ → Bool} (hnow : last + minIdleMs ≤ now) (hf : ∀ j < i, done j = false)
    (hi : i ∉ claimStale g minIdleMs now) :
    Waits (runOnce g consumer minIdleMs now done) i now ∧
      (runOnce g consumer minIdleMs now done).older i = g.older i := by
  refine h.mono ?_ (fun j hj => ?_) fun j hj => ?_
  · rw [runOnce, TimedGroup.xackAll_delivered]
    exact Nat.le_refl _
  · have hkept : j ∉ (claimStale g minIdleMs now).filter done := by
      intro hmem
      obtain ⟨hclaimed, hdone⟩ := List.mem_filter.mp hmem
      rcases Nat.lt_or_eq_of_le hj with hlt | rfl
      · rw [hf j hlt] at hdone
        cases hdone
      · exact hi hclaimed
    rw [runOnce, TimedGroup.pending_xackAll hkept, TimedGroup.isSome_pending_xautoclaim]
  · have hsince := h.since j hj
    rw [runOnce, TimedGroup.xackAll_since]
    simp only [TimedGroup.xautoclaim]
    split
    next => exact Int.le_refl _
    next => omega

/-- Behind as many failing messages as a sweep claims, no sweep ever reaches an entry. -/
theorem not_reclaims {es : List StreamEvent} (h : Waits g i last) (hmin : 0 ≤ minIdleMs)
    (hapart : Apart minIdleMs last es) (hf : ∀ e ∈ es, FailsBefore i e)
    (hlen : defaultClaimCount ≤ (g.older i).length) : ¬Reclaims minIdleMs i g es := by
  induction es generalizing g last with
  | nil => exact fun h => h
  | cons e es ih =>
    rw [List.forall_mem_cons] at hf
    cases e with
    | sweep consumer now done =>
      obtain ⟨hnow, hapart⟩ := hapart
      have hi : i ∉ claimStale g minIdleMs now := by
        rw [h.mem_claimStale hnow]
        omega
      obtain ⟨hw, holder⟩ := h.swept hmin consumer hnow hf.1 hi
      rintro (hclaim | hlater)
      · exact hi hclaim
      · exact ih hw hapart hf.2 (holder ▸ hlen) hlater
    | enqueue | read | ack =>
      obtain ⟨hw, holder⟩ := h.between minIdleMs rfl hf.1
      rintro (hclaim | hlater)
      · exact hclaim
      · exact ih hw hapart hf.2 (holder ▸ hlen) hlater

/-- Behind fewer messages, the next sweep reaches it. -/
theorem reclaims_of_few {es : List StreamEvent} (h : Waits g i last)
    (hapart : Apart minIdleMs last es) (hf : ∀ e ∈ es, FailsBefore i e)
    (hsweep : ∃ e ∈ es, isSweep e = true) (hlen : (g.older i).length < defaultClaimCount) :
    Reclaims minIdleMs i g es := by
  induction es generalizing g with
  | nil =>
    obtain ⟨e, he, -⟩ := hsweep
    cases he
  | cons e es ih =>
    rw [List.forall_mem_cons] at hf
    cases e with
    | sweep consumer now done =>
      obtain ⟨hnow, -⟩ := hapart
      exact .inl ((h.mem_claimStale hnow).mpr hlen)
    | enqueue | read | ack =>
      obtain ⟨hw, holder⟩ := h.between minIdleMs rfl hf.1
      refine .inr (ih hw hapart hf.2 ?_ (holder ▸ hlen))
      obtain ⟨e, he, hs⟩ := hsweep
      rcases List.mem_cons.mp he with rfl | he
      · cases hs
      · exact ⟨e, he, hs⟩

/-- While the messages before an entry fail every time, and sweeps come at least the minimum idle
time apart, the reaper reaches the entry exactly when they are fewer than a sweep claims; behind
fifty of them it is never reclaimed. -/
theorem reclaims_iff (minIdleMs : ℤ) (hmin : 0 ≤ minIdleMs) (g : TimedStream) (i : ℕ) (last : ℤ)
    (h : Waits g i last) (es : List StreamEvent) (hapart : Apart minIdleMs last es)
    (hf : ∀ e ∈ es, FailsBefore i e) (hsweep : ∃ e ∈ es, isSweep e = true) :
    Reclaims minIdleMs i g es ↔ (g.older i).length < defaultClaimCount := by
  constructor
  · intro hclaim
    by_contra hlen
    exact not_reclaims h hmin hapart hf (Nat.le_of_not_lt hlen) hclaim
  · exact reclaims_of_few h hapart hf hsweep

/-- Messages that were read and never acked. -/
def sampleStream (n : ℕ) : TimedStream :=
  TimedGroup.xreadgroup
    ((List.range n).foldl (fun g _ => TimedGroup.xadd g ⟨3, none⟩) ⟨.empty, fun _ => 0⟩) 1 n 1000

/-- Two sweeps, at which every attempt fails. -/
def sampleSweeps : List StreamEvent :=
  [.enqueue ⟨4, none⟩, .read 1 10 2000, .sweep 2 40000 fun _ => false,
    .sweep 2 80000 fun _ => false]

theorem reclaims_iff_sample : Reclaims 30000 1 (sampleStream 2) sampleSweeps ∧
    ¬Reclaims 30000 50 (sampleStream 51) sampleSweeps := by
  have hapart : Apart 30000 1000 sampleSweeps := ⟨by decide, by decide, trivial⟩
  have hf : ∀ i, ∀ e ∈ sampleSweeps, FailsBefore i e := by
    intro i e he
    simp only [sampleSweeps, List.mem_cons, List.not_mem_nil, or_false] at he
    rcases he with rfl | rfl | rfl | rfl
    · trivial
    · trivial
    · exact fun j hj => rfl
    · exact fun j hj => rfl
  have hsweep : ∃ e ∈ sampleSweeps, isSweep e = true :=
    ⟨.sweep 2 40000 fun _ => false, by simp [sampleSweeps], rfl⟩
  constructor
  · exact (reclaims_iff 30000 (by decide) (sampleStream 2) 1 1000 ⟨by decide, by decide⟩ _ hapart
      (hf 1) hsweep).mpr (by decide)
  · rw [reclaims_iff 30000 (by decide) (sampleStream 51) 50 1000 ⟨by decide, by decide⟩ _ hapart
      (hf 50) hsweep]
    decide

/-- The entries that an event hands to a worker, and the time. -/
def handedOut (minIdleMs : ℤ) (g : TimedStream) : StreamEvent → List (ℕ × ℤ)
  | .sweep _ now _ => (claimStale g minIdleMs now).map fun i => (i, now)
  | .read _ count now => (g.group.unread count).map fun i => (i, now)
  | _ => []

def run (minIdleMs : ℤ) (g : TimedStream) (es : List StreamEvent) : TimedStream :=
  es.foldl (step minIdleMs) g

/-- Everything the events hand out, in order. -/
def handouts (minIdleMs : ℤ) : TimedStream → List StreamEvent → List (ℕ × ℤ)
  | _, [] => []
  | g, e :: es => handedOut minIdleMs g e ++ handouts minIdleMs (step minIdleMs g e) es

/-- The clock does not run backwards. -/
def Clocked : ℤ → List StreamEvent → Prop
  | _, [] => True
  | last, e :: es =>
    match e with
    | .sweep _ now _ | .read _ _ now => last ≤ now ∧ Clocked now es
    | _ => Clocked last es

/-- The hand-outs of one entry lie the minimum idle time apart. -/
def Spaced (minIdleMs : ℤ) (l : List (ℕ × ℤ)) : Prop :=
  l.Pairwise fun p q => p.1 = q.1 → p.2 + minIdleMs ≤ q.2

/-- The stream knows the last hand-out of each entry that was handed out, up to `last`. -/
structure Knows (g : TimedStream) (last : ℤ) (log : List (ℕ × ℤ)) : Prop where
  handed : ∀ p ∈ log, p.1 < g.group.delivered ∧ p.2 ≤ g.since p.1
  since : ∀ i < g.group.delivered, g.since i ≤ last

theorem spaced_append {minIdleMs : ℤ} {log : List (ℕ × ℤ)} {taken : List ℕ} {now : ℤ}
    (hlog : Spaced minIdleMs log) (hnodup : taken.Nodup)
    (hnew : ∀ p ∈ log, p.1 ∈ taken → p.2 + minIdleMs ≤ now) :
    Spaced minIdleMs (log ++ taken.map fun i => (i, now)) := by
  refine List.pairwise_append.mpr ⟨hlog, ?_, fun p hp q hq heq => ?_⟩
  · rw [List.pairwise_map]
    exact hnodup.imp fun hne heq => (hne heq).elim
  · obtain ⟨i, hi, rfl⟩ := List.mem_map.mp hq
    exact hnew p hp (heq ▸ hi)

theorem Knows.stamp {g' : TimedStream} {log : List (ℕ × ℤ)} {taken : List ℕ} {now : ℤ}
    (h : Knows g last log) (hnow : last ≤ now)
    (hd : g.group.delivered ≤ g'.group.delivered)
    (htaken : ∀ i ∈ taken, i < g'.group.delivered)
    (hnew : ∀ i < g'.group.delivered, i ∈ taken ∨ i < g.group.delivered)
    (hs : ∀ i, g'.since i = if i ∈ taken then now else g.since i) :
    Knows g' now (log ++ taken.map fun i => (i, now)) where
  handed p hp := by
    rcases List.mem_append.mp hp with hp | hp
    · obtain ⟨hlt, hle⟩ := h.handed p hp
      have hsince := h.since p.1 hlt
      refine ⟨Nat.lt_of_lt_of_le hlt hd, ?_⟩
      rw [hs]
      split
      next => omega
      next => exact hle
    · obtain ⟨i, hi, rfl⟩ := List.mem_map.mp hp
      refine ⟨htaken i hi, ?_⟩
      rw [hs, if_pos hi]
  since i hi := by
    rw [hs]
    split
    next => exact Int.le_refl _
    next hi' =>
      have hsince := h.since i ((hnew i hi).resolve_left hi')
      omega

/-- An event hands out only entries that were never handed out, or have been idle. -/
theorem Knows.step {log : List (ℕ × ℤ)} (h : Knows g last log)
    (hlog : Spaced minIdleMs log) {es : List StreamEvent} (hclock : Clocked last (e :: es)) :
    Spaced minIdleMs (log ++ handedOut minIdleMs g e) ∧
      ∃ last', Knows (Reaper.step minIdleMs g e) last' (log ++ handedOut minIdleMs g e) ∧
        Clocked last' es := by
  have hquiet : Spaced minIdleMs (log ++ []) ∧ Knows g last (log ++ []) := by
    rw [List.append_nil]
    exact ⟨hlog, h⟩
  cases e with
  | sweep consumer now done =>
    obtain ⟨hnow, hclock⟩ := hclock
    have hpend : ∀ i ∈ claimStale g minIdleMs now,
        i < g.group.delivered ∧ g.idle minIdleMs now i = true := fun i hi =>
      (TimedGroup.mem_of_mem_claimable hi).imp_left fun hp =>
        (TimedGroup.mem_pendingEntries.mp hp).1
    refine ⟨spaced_append hlog ?_ fun p hp hi => ?_, now, h.stamp hnow ?_ ?_ ?_ ?_, hclock⟩
    · exact ((List.nodup_range.filter _).sublist (List.take_sublist ..)).filter _ |>.sublist
        (List.take_sublist ..)
    · obtain ⟨hlt, hle⟩ := h.handed p hp
      have hsince := h.since p.1 hlt
      have hidle := (hpend p.1 hi).2
      simp only [TimedGroup.idle, Bool.or_eq_true, decide_eq_true_eq] at hidle
      omega
    · rw [Reaper.step, runOnce, TimedGroup.xackAll_delivered]
      exact Nat.le_refl _
    · intro i hi
      rw [Reaper.step, runOnce, TimedGroup.xackAll_delivered]
      exact (hpend i hi).1
    · intro i hi
      rw [Reaper.step, runOnce, TimedGroup.xackAll_delivered] at hi
      exact .inr hi
    · intro i
      rw [Reaper.step, runOnce, TimedGroup.xackAll_since]
      rfl
  | read consumer count now =>
    obtain ⟨hnow, hclock⟩ := hclock
    refine ⟨spaced_append hlog List.nodup_range' fun p hp hi => ?_, now,
      h.stamp hnow (Nat.le_add_right ..) (fun i hi => ?_) (fun i hi => ?_) fun _ => rfl, hclock⟩
    · have hlt := (h.handed p hp).1
      have hge := (ConsumerGroup.mem_unread.mp hi).1
      omega
    · exact (ConsumerGroup.mem_unread.mp hi).2
    · rcases Nat.lt_or_ge i g.group.delivered with hlt | hge
      · exact .inr hlt
      · exact .inl (ConsumerGroup.mem_unread.mpr ⟨hge, hi⟩)
  | enqueue m => exact ⟨hquiet.1, last, ⟨hquiet.2.handed, hquiet.2.since⟩, hclock⟩
  | ack i => exact ⟨hquiet.1, last, ⟨hquiet.2.handed, hquiet.2.since⟩, hclock⟩

theorem Knows.spaced {log : List (ℕ × ℤ)} {es : List StreamEvent} (h : Knows g last log)
    (hlog : Spaced minIdleMs log) (hclock : Clocked last es) :
    Spaced minIdleMs (log ++ handouts minIdleMs g es) := by
  induction es generalizing g last log with
  | nil => rwa [handouts, List.append_nil]
  | cons e es ih =>
    obtain ⟨hlog, last', h, hclock⟩ := h.step hlog hclock
    rw [handouts, ← List.append_assoc]
    exact ih h hlog hclock

/-- The entry was handed out and acked. -/
def Acked (g : TimedStream) (i : ℕ) : Prop := i < g.group.delivered ∧ g.group.pending i = none

theorem Acked.step (h : Acked g i) (minIdleMs : ℤ) (e : StreamEvent) :
    Acked (Reaper.step minIdleMs g e) i ∧ ∀ p ∈ handedOut minIdleMs g e, p.1 ≠ i := by
  obtain ⟨hlt, hnone⟩ := h
  cases e with
  | sweep consumer now done =>
    have hfree : i ∉ claimStale g minIdleMs now := by
      intro hi
      have hp := (TimedGroup.mem_pendingEntries.mp (TimedGroup.mem_of_mem_claimable hi).1).2
      simp [hnone] at hp
    refine ⟨⟨?_, ?_⟩, fun p hp heq => ?_⟩
    · rw [Reaper.step, runOnce, TimedGroup.xackAll_delivered]
      exact hlt
    · rw [Reaper.step, runOnce,
        TimedGroup.pending_xackAll fun hi => hfree (List.mem_filter.mp hi).1]
      have hsome := g.isSome_pending_xautoclaim consumer minIdleMs now defaultClaimCount i
      rw [hnone] at hsome
      exact Option.isNone_iff_eq_none.mp (by simpa using hsome)
    · obtain ⟨j, hj, rfl⟩ := List.mem_map.mp hp
      exact hfree (heq ▸ hj)
  | read consumer count now =>
    refine ⟨⟨Nat.lt_of_lt_of_le hlt (Nat.le_add_right ..), ?_⟩, fun p hp heq => ?_⟩
    · rw [Reaper.step, (TimedGroup.pending_xreadgroup consumer hlt).1, hnone]
    · obtain ⟨j, hj, rfl⟩ := List.mem_map.mp hp
      have hge := (ConsumerGroup.mem_unread.mp hj).1
      dsimp only at heq
      omega
  | enqueue m => exact ⟨⟨hlt, hnone⟩, fun p hp => (List.not_mem_nil hp).elim⟩
  | ack j =>
    refine ⟨⟨hlt, ?_⟩, fun p hp => (List.not_mem_nil hp).elim⟩
    by_cases hij : i = j
    · subst hij
      exact Function.update_self ..
    · rw [Reaper.step, TimedGroup.pending_xack_ne hij, hnone]

theorem Acked.not_handed_out {es : List StreamEvent} (h : Acked g i) (minIdleMs : ℤ) :
    ∀ p ∈ handouts minIdleMs g es, p.1 ≠ i := by
  induction es generalizing g with
  | nil => exact fun p hp => (List.not_mem_nil hp).elim
  | cons e es ih =>
    obtain ⟨hacked, hnot⟩ := h.step minIdleMs e
    intro p hp
    rcases List.mem_append.mp hp with hp | hp
    · exact hnot p hp
    · exact ih hacked p hp

/-- Whatever workers read, sweep and ack, in whatever order, the hand-outs of one message lie at
least the minimum idle time apart, and a message that was acked is never handed out again. -/
theorem handouts_spaced (minIdleMs : ℤ) (since : ℕ → ℤ) (start : ℤ) (es : List StreamEvent)
    (hclock : Clocked start es) :
    Spaced minIdleMs (handouts minIdleMs ⟨.empty, since⟩ es) ∧
      ∀ es₁ es₂ i, es = es₁ ++ es₂ → Acked (run minIdleMs ⟨.empty, since⟩ es₁) i →
        ∀ p ∈ handouts minIdleMs (run minIdleMs ⟨.empty, since⟩ es₁) es₂, p.1 ≠ i := by
  have hknows : Knows ⟨.empty, since⟩ start [] :=
    ⟨fun p hp => (List.not_mem_nil hp).elim, fun i hi => (Nat.not_lt_zero i hi).elim⟩
  exact ⟨hknows.spaced List.Pairwise.nil hclock,
    fun _ _ _ _ hacked => hacked.not_handed_out minIdleMs⟩

/-- A worker dies with the message, and a reaper takes it over and acks it. -/
def sampleEvents : List StreamEvent :=
  [.enqueue ⟨3, none⟩, .read 1 10 1000, .sweep 2 30000 fun _ => true,
    .sweep 2 40000 fun _ => true, .sweep 2 80000 fun _ => true]

theorem handouts_spaced_sample :
    handouts 30000 ⟨.empty, fun _ => 0⟩ sampleEvents = [(0, 1000), (0, 40000)] ∧
      Spaced 30000 (handouts 30000 ⟨.empty, fun _ => 0⟩ sampleEvents) := by
  refine ⟨by decide, (handouts_spaced 30000 (fun _ => 0) 0 sampleEvents ?_).1⟩
  exact ⟨by decide, by decide, by decide, by decide, trivial⟩

end Reaper
end RelayWebhooks
