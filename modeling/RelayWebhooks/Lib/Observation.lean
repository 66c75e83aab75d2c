import Mathlib.Logic.Basic
import Mathlib.Data.List.Basic

/-! Systems that answer requests and move on to a new state, and what an observer who sees only
part of the state can learn from the answers. -/
namespace Observation

variable {σ α β ν μ ε : Type*}

/-- The answers to a list of requests, and the state they leave. A request that fails leaves the
state it found. -/
def exec (handle : σ → α → Except ε (β × σ)) : σ → List α → List (Except ε β) × σ
  | s, [] => ([], s)
  | s, a :: as =>
    match handle s a with
    | .ok (b, t) => (.ok b :: (exec handle t as).1, (exec handle t as).2)
    | .error e => (.error e :: (exec handle s as).1, (exec handle s as).2)

variable {handle : σ → α → Except ε (β × σ)}

theorem exec_cons_ok {s t : σ} {a : α} {b : β} (as : List α) (h : handle s a = .ok (b, t)) :
    exec handle s (a :: as) = (.ok b :: (exec handle t as).1, (exec handle t as).2) := by
  simp only [exec, h]

theorem exec_cons_error {s : σ} {a : α} {e : ε} (as : List α) (h : handle s a = .error e) :
    exec handle s (a :: as) = (.error e :: (exec handle s as).1, (exec handle s as).2) := by
  simp only [exec, h]

/-- The part of the state that no request changes is there at the end of a run. -/
theorem exec_frame {I : σ → Prop} {f : σ → μ}
    (hstep : ∀ s a b t, I s → handle s a = .ok (b, t) → I t ∧ f t = f s)
    {s : σ} (as : List α) (hs : I s) : f (exec handle s as).2 = f s := by
  induction as generalizing s with
  | nil => rfl
  | cons a as ih =>
    cases h : handle s a with
    | ok r =>
      obtain ⟨b, t⟩ := r
      obtain ⟨ht, hf⟩ := hstep s a b t hs h
      rw [exec_cons_ok as h]
      exact (ih ht).trans hf
    | error e =>
      rw [exec_cons_error as h]
      exact ih hs

/-- The view of a state suffices to answer a request and to find the next view. -/
def Refines (handle : σ → α → Except ε (β × σ)) (viewHandle : ν → α → Except ε (β × ν))
    (view : σ → ν) : Prop :=
  ∀ s a, viewHandle (view s) a = (handle s a).map fun r => (r.1, view r.2)

variable {viewHandle : ν → α → Except ε (β × ν)} {view : σ → ν}

theorem Refines.exec_eq (h : Refines handle viewHandle view) (s : σ) (as : List α) :
    exec viewHandle (view s) as = ((exec handle s as).1, view (exec handle s as).2) := by
  induction as generalizing s with
  | nil => rfl
  | cons a as ih =>
    have ha := h s a
    cases hs : handle s a with
    | ok r =>
      rw [hs] at ha
      rw [exec_cons_ok as hs, exec_cons_ok as ha, ih]
    | error e =>
      rw [hs] at ha
      rw [exec_cons_error as hs, exec_cons_error as ha, ih]

/-- Two states with one view cannot be told apart by any requests. -/
theorem Refines.noninterference (h : Refines handle viewHandle view) {s s' : σ}
    (hview : view s = view s') (as : List α) :
    (exec handle s as).1 = (exec handle s' as).1 := by
  have hs := h.exec_eq s as
  rw [hview, h.exec_eq s' as] at hs
  exact (Prod.mk.inj hs).1.symm

end Observation
