import RelayWebhooks.Infra.AttemptEvents
import RelayWebhooks.Lib.Transition
import Mathlib.Data.Seq.Basic

/-! The live event stream: keep-alives between the payloads of a source that may answer at any
time, raise, or never end. -/
namespace RelayWebhooks
open Stream' (Seq)
open ServerSentEvents

def keepAlive : PyText := PyText.ofString ": keep-alive\n\n"

def dataFrame (payload : PyText) : PyText :=
  PyText.ofString "data: " ++ payload ++ PyText.ofString "\n\n"

/-- What an `__anext__` of the source comes to: a payload, `StopAsyncIteration`, or another
exception. -/
inductive SourceRead where
  | payload (t : PyText)
  | stop
  | raised
  deriving DecidableEq, Repr

/-- The task around an `__anext__`. -/
inductive ReadTask where
  | running
  | done (read : SourceRead)
  | cancelled
  deriving DecidableEq, Repr

/-- Where `_with_heartbeat` is: at the head of its loop, in `asyncio.wait`, suspended at a `yield`,
or over. -/
inductive LoopPlace where
  | head
  | waiting
  | yielded
  | returned
  | raised
  | closed
  deriving DecidableEq, Repr

/-- `outstanding` counts the `__anext__` calls the source has not answered, `taken` the payloads
it has given. -/
structure Heartbeat where
  place : LoopPlace := .head
  pending : Option ReadTask := none
  outstanding : ℕ := 0
  taken : ℕ := 0
  output : List PyText := []
  deriving DecidableEq, Repr

/-- The source answers or raises at any time, and `asyncio.wait` returns at any time: with the
pending task if it is done by then, else because the interval is over. -/
inductive HeartbeatEvent where
  | enterWait
  | answer
  | fail
  | wake
  | resume
  | close
  deriving DecidableEq, Repr

namespace Heartbeat

/-- The pending task gets what the source came to. No one would see it if no task ran. -/
def settle (s : Heartbeat) (read : SourceRead) : Heartbeat :=
  { s with
    outstanding := s.outstanding - 1
    pending := if s.pending = some .running then some (.done read) else s.pending }

/-- `pending.cancel()` stops a task that still runs. -/
def cancelPending (s : Heartbeat) : Heartbeat :=
  if s.pending = some .running then
    { s with outstanding := s.outstanding - 1, pending := some .cancelled }
  else s

/-- The rest of the loop's body once `asyncio.wait` has returned. -/
def woken (s : Heartbeat) : Heartbeat :=
  match s.pending with
  | some (.done (.payload t)) =>
    { s with pending := none, place := .yielded, output := s.output ++ [dataFrame t] }
  | some (.done .stop) => { s with place := .returned }
  | some .running => { s with place := .yielded, output := s.output ++ [keepAlive] }
  | some (.done .raised) | some .cancelled | none => { s with place := .raised }

def step (source : Seq PyText) (s : Heartbeat) : HeartbeatEvent → Option Heartbeat
  | .enterWait =>
    if s.place = .head then
      if s.pending = none then
        some { s with
          place := .waiting, pending := some .running, outstanding := s.outstanding + 1 }
      else some { s with place := .waiting }
    else none
  | .answer =>
    if s.outstanding = 0 then none
    else
      match source.get? s.taken with
      | some t => some { s.settle (.payload t) with taken := s.taken + 1 }
      | none => some (s.settle .stop)
  | .fail => if s.outstanding = 0 then none else some (s.settle .raised)
  | .wake => if s.place = .waiting then some s.woken else none
  | .resume => if s.place = .yielded then some { s with place := .head } else none
  | .close =>
    if s.place = .head ∨ s.place = .waiting ∨ s.place = .yielded then
      some { s.cancelPending with place := .closed }
    else none

/-- The output without the keep-alives. -/
def frames (s : Heartbeat) : List PyText := s.output.filter (· ≠ keepAlive)

/-- A payload that has arrived and is not sent yet. -/
def held (s : Heartbeat) : List PyText :=
  match s.pending with
  | some (.done (.payload t)) => [t]
  | _ => []

end Heartbeat

/-- What a consumer gets if `quiet k` intervals pass before the source answers for the `k`-th
time. -/
def timeline (quiet : ℕ → ℕ) (k : ℕ) : List PyText → List PyText
  | [] => List.replicate (quiet k) keepAlive
  | t :: ts => List.replicate (quiet k) keepAlive ++ dataFrame t :: timeline quiet (k + 1) ts

/-- The output is keep-alives and one data frame for each of the payloads, in order. -/
inductive Sends : List PyText → List PyText → Prop
  | nil : Sends [] []
  | keepAlive {output payloads} : Sends output payloads → Sends (output ++ [keepAlive]) payloads
  | data {output payloads} (t : PyText) :
    Sends output payloads → Sends (output ++ [dataFrame t]) (payloads ++ [t])

theorem dataFrame_ne_keepAlive (t : PyText) : dataFrame t ≠ keepAlive := by
  have hhead : (dataFrame t).head? ≠ keepAlive.head? := by
    show some 0x64 ≠ some 0x3a
    decide
  exact fun h => hhead (by rw [h])

namespace Sends
variable {output payloads : List PyText}

theorem filter (h : Sends output payloads) :
    output.filter (· ≠ RelayWebhooks.keepAlive) = payloads.map dataFrame := by
  induction h with
  | nil => rfl
  | keepAlive _ ih =>
    rw [List.filter_append, ih]
    simp
  | data t _ ih =>
    rw [List.filter_append, ih]
    simp [dataFrame_ne_keepAlive]

/-- A reader gets the payloads, as far as none has a line break. -/
theorem messages (h : Sends output payloads) (hunbroken : ∀ t ∈ payloads, Unbroken t) :
    (ServerSentEvents.messages output.flatten).map (·.data) = payloads := by
  have hchunks : ∃ chunks : List Chunk, output.flatten = chunks.flatMap Chunk.text ∧
      (∀ c ∈ chunks, Unbroken c.line) ∧
      (chunks.filterMap Chunk.message?).map (·.data) = payloads := by
    induction h with
    | nil => exact ⟨[], rfl, by simp, rfl⟩
    | keepAlive _ ih =>
      obtain ⟨chunks, htext, hlines, hdata⟩ := ih hunbroken
      refine ⟨chunks ++ [.comment (textOf " keep-alive")], ?_, ?_, ?_⟩
      · rw [List.flatten_append, htext, List.flatMap_append]
        rfl
      · simp only [List.forall_mem_append, List.forall_mem_singleton]
        exact ⟨hlines, by decide⟩
      · rw [List.filterMap_append, List.map_append, hdata]
        simp [Chunk.message?]
    | data t _ ih =>
      obtain ⟨hbefore, ht⟩ := List.forall_mem_append.mp hunbroken
      obtain ⟨chunks, htext, hlines, hdata⟩ := ih hbefore
      refine ⟨chunks ++ [.data t], ?_, ?_, ?_⟩
      · rw [List.flatten_append, htext, List.flatMap_append]
        simp [dataFrame, Chunk.text, Chunk.line, textOf, PyText.ofString]
      · simp only [List.forall_mem_append, List.forall_mem_singleton]
        have hname : Unbroken (textOf "data: ") := by decide
        exact ⟨hlines, unbroken_append.mpr ⟨hname, ht t List.mem_cons_self⟩⟩
      · simp [Chunk.message?, hdata]
  obtain ⟨chunks, htext, hlines, hdata⟩ := hchunks
  rw [htext, messages_chunks chunks hlines, hdata]

end Sends

section
variable {source : Seq PyText}

theorem length_take_of_get? {n : ℕ} {t : PyText} (h : source.get? n = some t) :
    (source.take n).length = n := by
  apply Seq.length_take_of_le_length
  intro hends
  by_contra hshort
  have hnone : source.TerminatedAt n :=
    source.terminated_stable (by omega) (Seq.length_le_iff.mp le_rfl)
  rw [Seq.TerminatedAt, h] at hnone
  cases hnone

theorem take_succ_of_get? {n : ℕ} {t : PyText} (h : source.get? n = some t) :
    source.take (n + 1) = source.take n ++ [t] := by
  apply List.ext_getElem?
  intro i
  rw [Seq.getElem?_take, List.getElem?_append, length_take_of_get? h, Seq.getElem?_take]
  rcases lt_trichotomy i n with hlt | rfl | hgt
  · simp [hlt, Nat.lt_succ_of_lt hlt]
  · simp [h]
  · have hpos : i - n ≠ 0 := by omega
    simp [hpos, show ¬i < n + 1 by omega, show ¬i < n by omega]

theorem take_of_terminatedAt {m n : ℕ} (h : source.TerminatedAt m) (hmn : m ≤ n) :
    source.take n = source.take m := by
  apply List.ext_getElem?
  intro i
  rw [Seq.getElem?_take, Seq.getElem?_take]
  by_cases hi : i < m
  · rw [if_pos hi, if_pos (by omega)]
  · rw [if_neg hi, show source.get? i = none from source.le_stable (not_lt.mp hi) h, ite_self]

theorem take_take {m n : ℕ} (h : n ≤ m) : (source.take m).take n = source.take n := by
  apply List.ext_getElem?
  intro i
  rw [List.getElem?_take, Seq.getElem?_take, Seq.getElem?_take]
  by_cases hi : i < n
  · rw [if_pos hi, if_pos hi, if_pos (by omega)]
  · rw [if_neg hi, if_neg hi]

theorem terminatedAt_length_take {n : ℕ} (h : source.TerminatedAt n) :
    source.TerminatedAt (source.take n).length := by
  have hnone : (source.take n)[(source.take n).length]? = none :=
    List.getElem?_eq_none le_rfl
  rw [Seq.getElem?_take] at hnone
  split at hnone
  next => exact hnone
  next hle => exact source.terminated_stable (not_lt.mp hle) h

/-- The tasks the loop may hold at a place. -/
def LoopPlace.Holds : LoopPlace → Option ReadTask → Prop
  | .head, pending | .yielded, pending => pending ≠ some .cancelled
  | .waiting, pending => pending ≠ none ∧ pending ≠ some .cancelled
  | .returned, pending => pending = some (.done .stop)
  | .raised, pending => pending = some (.done .raised)
  | .closed, pending => pending ≠ some .running

/-- A place that allows a running task allows it when it is done. -/
theorem LoopPlace.Holds.settle {place : LoopPlace} (h : place.Holds (some .running))
    (read : SourceRead) : place.Holds (some (.done read)) := by
  cases place with
  | head | yielded => simp [Holds]
  | waiting => simp [Holds]
  | returned | raised => simp [Holds] at h
  | closed => simp [Holds]

/-- What the loop keeps, whatever the source and its consumer do. -/
structure Heartbeat.Keeps (source : Seq PyText) (s : Heartbeat) : Prop where
  outstanding : s.outstanding = if s.pending = some .running then 1 else 0
  sent : ∃ payloads, Sends s.output payloads ∧ payloads ++ s.held = source.take s.taken
  taken : (source.take s.taken).length = s.taken
  stopped : s.pending = some (.done .stop) → source.TerminatedAt s.taken
  place : s.place.Holds s.pending

namespace Heartbeat
variable {s t : Heartbeat}

theorem keeps_start : Heartbeat.Keeps source {} where
  outstanding := rfl
  sent := ⟨[], .nil, by simp [held]⟩
  taken := by simp
  stopped := by simp
  place := by simp [LoopPlace.Holds]

theorem held_running (h : s.pending = some .running) : s.held = [] := by
  simp [held, h]

theorem Keeps.running (h : s.Keeps source) (hout : s.outstanding ≠ 0) :
    s.pending = some .running := by
  by_contra hnot
  exact hout (h.outstanding.trans (if_neg hnot))

theorem Keeps.move (h : s.Keeps source) {place : LoopPlace} (hplace : place.Holds s.pending) :
    Keeps source { s with place := place } where
  outstanding := h.outstanding
  sent := h.sent
  taken := h.taken
  stopped := h.stopped
  place := hplace

/-- A new read is issued only when none is pending. -/
theorem Keeps.issue (h : s.Keeps source) (hnone : s.pending = none) :
    Keeps source { s with
      place := .waiting, pending := some .running, outstanding := s.outstanding + 1 } where
  outstanding := by simp [h.outstanding, hnone]
  sent := by simpa [held, hnone] using h.sent
  taken := h.taken
  stopped := by simp
  place := by simp [LoopPlace.Holds]

theorem Keeps.settle (h : s.Keeps source) (hout : s.outstanding ≠ 0) {read : SourceRead} {n : ℕ}
    (hn : (source.take n).length = n)
    (hread : source.take n = source.take s.taken ++ held { s with pending := some (.done read) })
    (hstop : read = .stop → source.TerminatedAt n) :
    Keeps source { s.settle read with taken := n } := by
  have hrun := h.running hout
  have hone : s.outstanding = 1 := by rw [h.outstanding, if_pos hrun]
  obtain ⟨payloads, hsends, htake⟩ := h.sent
  rw [held_running hrun, List.append_nil] at htake
  constructor
  · simp [Heartbeat.settle, hrun, hone]
  · refine ⟨payloads, hsends, ?_⟩
    rw [hread, htake]
    simp [held, Heartbeat.settle, hrun]
  · exact hn
  · simpa [Heartbeat.settle, hrun] using hstop
  · have hplace := h.place
    rw [hrun] at hplace
    simpa [Heartbeat.settle, hrun] using hplace.settle read

theorem Keeps.woken (h : s.Keeps source) (hplace : s.place = .waiting) :
    Keeps source s.woken := by
  have hholds := h.place
  rw [hplace] at hholds
  obtain ⟨payloads, hsends, htake⟩ := h.sent
  unfold Heartbeat.woken
  split
  next t hpending =>
    have hheld : s.held = [t] := by simp [held, hpending]
    constructor
    · simp [h.outstanding, hpending]
    · refine ⟨payloads ++ [t], hsends.data t, ?_⟩
      rw [← htake, hheld]
      simp [held]
    · exact h.taken
    · simp
    · simp [LoopPlace.Holds]
  next hpending => exact h.move hpending
  next hpending =>
    constructor
    · exact h.outstanding
    · exact ⟨payloads, hsends.keepAlive, htake⟩
    · exact h.taken
    · exact h.stopped
    · exact hholds.2
  next hpending => exact h.move hpending
  next hpending => exact absurd hpending hholds.2
  next hpending => exact absurd hpending hholds.1

theorem Keeps.close (h : s.Keeps source) :
    Keeps source { s.cancelPending with place := .closed } := by
  unfold cancelPending
  split
  next hrun =>
    have hone : s.outstanding = 1 := by rw [h.outstanding, if_pos hrun]
    have hsent := h.sent
    rw [held_running hrun] at hsent
    constructor
    · simp [hone]
    · simpa [held] using hsent
    · exact h.taken
    · simp
    · simp [LoopPlace.Holds]
  next hrun => exact h.move hrun

/-- What the source comes to, as a step. -/
theorem step_answer_of_get? {p : PyText} (hout : s.outstanding ≠ 0)
    (h : source.get? s.taken = some p) :
    step source s .answer = some { s.settle (.payload p) with taken := s.taken + 1 } := by
  simp [step, hout, h]

theorem step_answer_of_terminatedAt (hout : s.outstanding ≠ 0)
    (h : source.TerminatedAt s.taken) : step source s .answer = some (s.settle .stop) := by
  simp [step, hout, show source.get? s.taken = none from h]

theorem Keeps.step {a : HeartbeatEvent} (h : s.Keeps source)
    (hstep : Heartbeat.step source s a = some t) : t.Keeps source := by
  have hholds := h.place
  cases a with
  | enterWait =>
    simp only [Heartbeat.step] at hstep
    split at hstep
    next hplace =>
      rw [hplace] at hholds
      split at hstep
      next hnone =>
        obtain rfl := Option.some.inj hstep
        exact h.issue hnone
      next hsome =>
        obtain rfl := Option.some.inj hstep
        exact h.move ⟨hsome, hholds⟩
    next => cases hstep
  | answer =>
    by_cases hout : s.outstanding = 0
    · simp [Heartbeat.step, hout] at hstep
    cases hget : source.get? s.taken with
    | some p =>
      rw [step_answer_of_get? hout hget] at hstep
      obtain rfl := Option.some.inj hstep
      have htake := take_succ_of_get? hget
      refine h.settle hout ?_ htake (by simp)
      rw [htake, List.length_append, h.taken]
      rfl
    | none =>
      rw [step_answer_of_terminatedAt hout hget] at hstep
      obtain rfl := Option.some.inj hstep
      exact h.settle hout h.taken (by simp [held]) fun _ => hget
  | fail =>
    simp only [Heartbeat.step] at hstep
    split at hstep
    next => cases hstep
    next hout =>
      obtain rfl := Option.some.inj hstep
      exact h.settle hout h.taken (by simp [held]) (by simp)
  | wake =>
    simp only [Heartbeat.step] at hstep
    split at hstep
    next hplace =>
      obtain rfl := Option.some.inj hstep
      exact h.woken hplace
    next => cases hstep
  | resume =>
    simp only [Heartbeat.step] at hstep
    split at hstep
    next hplace =>
      obtain rfl := Option.some.inj hstep
      rw [hplace] at hholds
      exact h.move hholds
    next => cases hstep
  | close =>
    simp only [Heartbeat.step] at hstep
    split at hstep
    next =>
      obtain rfl := Option.some.inj hstep
      exact h.close
    next => cases hstep

theorem Keeps.of_reachable (h : Transition.Reachable (Heartbeat.step source) (· = {}) s) :
    s.Keeps source := by
  refine h.invariant ?_ fun _ _ _ hs hstep => hs.step hstep
  rintro _ rfl
  exact keeps_start

theorem Keeps.outstanding_le (h : s.Keeps source) : s.outstanding ≤ 1 := by
  rw [h.outstanding]
  split <;> omega

theorem Keeps.sends (h : s.Keeps source) : Sends s.output (source.take s.frames.length) := by
  obtain ⟨payloads, hsends, htake⟩ := h.sent
  have hcount : s.frames.length = payloads.length := by
    rw [frames, hsends.filter, List.length_map]
  have hle : payloads.length ≤ s.taken := by
    rw [← h.taken, ← htake, List.length_append]
    omega
  have hpayloads : payloads = source.take s.frames.length := by
    rw [hcount, ← take_take hle, ← htake, List.take_left]
  rwa [← hpayloads]

theorem Keeps.frames_eq (h : s.Keeps source) :
    s.frames = (source.take s.frames.length).map dataFrame := h.sends.filter

theorem Keeps.taken_eq (h : s.Keeps source) : s.taken = s.frames.length + s.held.length := by
  obtain ⟨payloads, hsends, htake⟩ := h.sent
  rw [← h.taken, ← htake, List.length_append, frames, hsends.filter, List.length_map]

theorem Keeps.terminatedAt (h : s.Keeps source) (hplace : s.place = .returned) :
    source.TerminatedAt s.frames.length := by
  have hpending := h.place
  rw [hplace] at hpending
  have hheld : s.held = [] := by
    simp [held, show s.pending = some (.done .stop) from hpending]
  have htaken := h.taken_eq
  rw [hheld] at htaken
  rw [show s.frames.length = s.taken from htaken.symm]
  exact h.stopped hpending

/-- The steps the loop still takes once the source has ended. -/
def stepsLeft (s : Heartbeat) : ℕ :=
  match s.place with
  | .yielded => 3
  | .head => 2
  | .waiting => 1
  | .returned | .raised | .closed => 0

theorem stepsLeft_le (s : Heartbeat) : s.stepsLeft ≤ 3 := by
  unfold stepsLeft
  split <;> omega

theorem step_stopped {a : HeartbeatEvent} (hstop : s.pending = some (.done .stop))
    (hout : s.outstanding = 0) (h : step source s a = some t) :
    t.pending = some (.done .stop) ∧ t.outstanding = 0 ∧ t.output = s.output ∧
      t.stepsLeft < s.stepsLeft := by
  cases a with
  | enterWait =>
    simp only [step] at h
    split at h
    next hplace =>
      simp only [hstop, reduceCtorEq, if_false, Option.some.injEq] at h
      subst h
      simp [stepsLeft, hout, hplace]
    next => cases h
  | answer => simp [step, hout] at h
  | fail => simp [step, hout] at h
  | wake =>
    simp only [step] at h
    split at h
    next hplace =>
      obtain rfl := Option.some.inj h
      simp [woken, stepsLeft, hstop, hout, hplace]
    next => cases h
  | resume =>
    simp only [step] at h
    split at h
    next hplace =>
      obtain rfl := Option.some.inj h
      simp [stepsLeft, hstop, hout, hplace]
    next => cases h
  | close =>
    simp only [step] at h
    split at h
    next hplace =>
      obtain rfl := Option.some.inj h
      rcases hplace with hplace | hplace | hplace <;>
        simp [cancelPending, stepsLeft, hstop, hout, hplace]
    next => cases h

theorem run_stopped {as : List HeartbeatEvent} (hstop : s.pending = some (.done .stop))
    (hout : s.outstanding = 0) (h : Transition.run (step source) s as = some t) :
    as.length ≤ s.stepsLeft ∧ t.output = s.output := by
  induction as generalizing s with
  | nil =>
    obtain rfl := Option.some.inj h
    simp
  | cons a as ih =>
    obtain ⟨u, hu, h⟩ := Transition.run_cons_eq_some.mp h
    obtain ⟨hstop', hout', houtput, hless⟩ := step_stopped hstop hout hu
    obtain ⟨hlength, hrest⟩ := ih hstop' hout' h
    rw [List.length_cons]
    exact ⟨by omega, hrest.trans houtput⟩

/-- Only a loop that is over takes no step. -/
theorem over_of_stuck (h : ∀ a, step source s a = none) :
    s.place = .returned ∨ s.place = .raised ∨ s.place = .closed := by
  have hclose := h .close
  cases hplace : s.place <;> simp [step, hplace] at hclose ⊢

/-- The loop waits for the source's next answer. -/
def listening (taken : ℕ) (output : List PyText) : Heartbeat :=
  { place := .waiting, pending := some .running, outstanding := 1, taken := taken,
    output := output }

section
variable {taken : ℕ} {output : List PyText}

theorem run_quiet (n : ℕ) : ∃ as, Transition.run (step source) (listening taken output) as =
    some (listening taken (output ++ List.replicate n keepAlive)) := by
  induction n with
  | zero => exact ⟨[], by simp⟩
  | succ n ih =>
    obtain ⟨as, has⟩ := ih
    have hround : Transition.run (step source)
        (listening taken (output ++ List.replicate n keepAlive)) [.wake, .resume, .enterWait] =
        some (listening taken (output ++ List.replicate (n + 1) keepAlive)) := by
      rw [List.replicate_succ', ← List.append_assoc]
      rfl
    exact ⟨_, Transition.run_trans has hround⟩

theorem run_payload {t : PyText} (h : source.get? taken = some t) :
    Transition.run (step source) (listening taken output) [.answer, .wake, .resume, .enterWait] =
      some (listening (taken + 1) (output ++ [dataFrame t])) := by
  rw [Transition.run_cons, step_answer_of_get? (by simp [listening]) h]
  rfl

theorem run_end (h : source.TerminatedAt taken) :
    Transition.run (step source) (listening taken output) [.answer, .wake] =
      some { place := .returned, pending := some (.done .stop), taken := taken, output := output } := by
  rw [Transition.run_cons, step_answer_of_terminatedAt (by simp [listening]) h]
  rfl

end

end Heartbeat

theorem timeline_concat (quiet : ℕ → ℕ) (k : ℕ) (ts : List PyText) (t : PyText) :
    timeline quiet k (ts ++ [t]) = timeline quiet k ts ++ [dataFrame t] ++
      List.replicate (quiet (k + ts.length + 1)) keepAlive := by
  induction ts generalizing k with
  | nil => simp [timeline]
  | cons u us ih =>
    have hk : k + 1 + us.length + 1 = k + (u :: us).length + 1 := by
      rw [List.length_cons]
      omega
    simp [timeline, ih, hk]

/-- Any number of intervals may pass before each answer. -/
theorem Heartbeat.exists_run_timeline (source : Seq PyText) (quiet : ℕ → ℕ) (n : ℕ) :
    ∃ as, Transition.run (step source) {} as =
      some (listening (source.take n).length (timeline quiet 0 (source.take n))) := by
  induction n with
  | zero =>
    have hfirst : Transition.run (step source) {} [.enterWait] = some (listening 0 []) := rfl
    obtain ⟨as, has⟩ := @run_quiet source 0 [] (quiet 0)
    refine ⟨_, Transition.run_trans hfirst has |>.trans ?_⟩
    simp [timeline]
  | succ n ih =>
    obtain ⟨as, has⟩ := ih
    cases hget : source.get? n with
    | none =>
      have hsame : source.take (n + 1) = source.take n := take_of_terminatedAt hget n.le_succ
      exact ⟨as, by rw [hsame]; exact has⟩
    | some t =>
      have hlength : (source.take n).length = n := length_take_of_get? hget
      obtain ⟨bs, hbs⟩ := @run_quiet source (n + 1)
        (timeline quiet 0 (source.take n) ++ [dataFrame t]) (quiet (n + 1))
      rw [hlength] at has
      refine ⟨_, (Transition.run_trans has (Transition.run_trans (run_payload hget) hbs)).trans ?_⟩
      rw [take_succ_of_get? hget, timeline_concat, List.length_append, hlength]
      simp

theorem toList_eq_take (hends : source.Terminates) {n : ℕ} (h : source.TerminatedAt n) :
    source.toList hends = source.take n := by
  apply List.ext_getElem?
  intro i
  rw [Seq.getElem?_toList, Seq.getElem?_take]
  split
  next => rfl
  next hi => exact source.le_stable (not_lt.mp hi) h

end

theorem take_map {α : Type} (f : α → PyText) (source : Seq α) (n : ℕ) :
    (source.map f).take n = (source.take n).map f := by
  apply List.ext_getElem?
  intro i
  rw [Seq.getElem?_take, List.getElem?_map, Seq.getElem?_take, Seq.map_get?]
  split <;> rfl

/-- In every run at most one `__anext__` is outstanding, the frames are the source's first payloads
in order, with at most one more payload taken, and they are all of them once the loop has
returned, which it does within three steps of the source's end. Any number of keep-alives may
stand before, between and after the payloads. A reader of the events' stream gets the events'
texts. -/
theorem event_stream_exact (source : Seq PyText) :
    (∀ s, Transition.Reachable (Heartbeat.step source) (· = {}) s →
      s.outstanding ≤ 1 ∧
      s.frames = (source.take s.frames.length).map dataFrame ∧
      s.taken = s.frames.length + s.held.length ∧
      (s.place = .returned →
        ∃ h : source.Terminates, s.frames = (source.toList h).map dataFrame) ∧
      (s.place = .raised → s.pending = some (.done .raised)) ∧
      (s.pending = some (.done .stop) →
        ∀ as t, Transition.run (Heartbeat.step source) s as = some t →
          as.length ≤ 3 ∧ t.output = s.output) ∧
      ((∀ a, Heartbeat.step source s a = none) →
        s.place = .returned ∨ s.place = .raised ∨ s.place = .closed)) ∧
    (∀ (quiet : ℕ → ℕ) (n : ℕ), ∃ s,
      Transition.Reachable (Heartbeat.step source) (· = {}) s ∧
      s.output = timeline quiet 0 (source.take n) ∧
      (source.TerminatedAt n → s.place = .returned)) ∧
    ∀ (events : Seq AttemptEvent) (s : Heartbeat),
      Transition.Reachable (Heartbeat.step (events.map AttemptEvent.toJson)) (· = {}) s →
      (messages s.output.flatten).map (·.data) =
        (events.take s.frames.length).map AttemptEvent.toJson := by
  refine ⟨?_, ?_, ?_⟩
  · intro s hs
    have hkeeps := Heartbeat.Keeps.of_reachable hs
    refine ⟨hkeeps.outstanding_le, hkeeps.frames_eq, hkeeps.taken_eq, ?_, ?_, ?_,
      Heartbeat.over_of_stuck⟩
    · intro hplace
      have hend := hkeeps.terminatedAt hplace
      have hends : source.Terminates := ⟨_, hend⟩
      exact ⟨hends, by rw [toList_eq_take hends hend, ← hkeeps.frames_eq]⟩
    · intro hplace
      have hholds := hkeeps.place
      rw [hplace] at hholds
      exact hholds
    · intro hstop as t hrun
      have hout : s.outstanding = 0 := by simp [hkeeps.outstanding, hstop]
      obtain ⟨hlength, houtput⟩ := Heartbeat.run_stopped hstop hout hrun
      exact ⟨hlength.trans s.stepsLeft_le, houtput⟩
  · intro quiet n
    obtain ⟨as, has⟩ := Heartbeat.exists_run_timeline source quiet n
    by_cases hend : source.TerminatedAt n
    · have hlast : source.TerminatedAt (source.take n).length := terminatedAt_length_take hend
      exact ⟨_, ⟨_, _, rfl, Transition.run_trans has (Heartbeat.run_end hlast)⟩, rfl, fun _ => rfl⟩
    · exact ⟨_, ⟨_, as, rfl, has⟩, rfl, fun h => absurd h hend⟩
  · intro events s hs
    have hsends := (Heartbeat.Keeps.of_reachable hs).sends
    rw [take_map] at hsends
    apply hsends.messages
    intro t ht
    obtain ⟨e, -, rfl⟩ := List.mem_map.mp ht
    exact e.toJson_unbroken

end RelayWebhooks
