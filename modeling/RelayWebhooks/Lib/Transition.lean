import Mathlib.Algebra.Ring.Nat
import Mathlib.Logic.Basic
import Mathlib.Data.List.Basic

/-! Schedules of a partial step function. An action with no step is disabled, and a
schedule that takes a disabled action has no run. -/
namespace Transition

variable {σ α : Type*} (step : σ → α → Option σ)

def run : σ → List α → Option σ
  | s, [] => some s
  | s, a :: as => (step s a).bind fun t => run t as

/-- Every step the schedule takes satisfies `R`, read before and after the step. -/
def Always (R : σ → α → σ → Prop) : σ → List α → Prop
  | _, [] => True
  | s, a :: as => ∀ t, step s a = some t → R s a t ∧ Always R t as

/-- The states some schedule reaches from an initial state. -/
def Reachable (init : σ → Prop) (t : σ) : Prop := ∃ s as, init s ∧ run step s as = some t

variable {step}

@[simp] theorem run_nil (s : σ) : run step s [] = some s := rfl

theorem run_cons (s : σ) (a : α) (as : List α) :
    run step s (a :: as) = (step s a).bind fun t => run step t as := rfl

theorem run_cons_eq_some {s u : σ} {a : α} {as : List α} :
    run step s (a :: as) = some u ↔ ∃ t, step s a = some t ∧ run step t as = some u := by
  rw [run_cons, Option.bind_eq_some_iff]

theorem run_append (s : σ) (as bs : List α) :
    run step s (as ++ bs) = (run step s as).bind fun t => run step t bs := by
  induction as generalizing s with
  | nil => rfl
  | cons a as ih =>
    rw [List.cons_append, run_cons, run_cons, Option.bind_assoc]
    congr 1
    funext t
    exact ih t

theorem run_trans {s t u : σ} {as bs : List α} (hs : run step s as = some t)
    (ht : run step t bs = some u) : run step s (as ++ bs) = some u := by
  rw [run_append, hs, Option.bind_some, ht]

theorem run_snoc {s t u : σ} {as : List α} {a : α} (h : run step s as = some t)
    (ha : step t a = some u) : run step s (as ++ [a]) = some u := by
  rw [run_append, h]
  simp [run_cons, ha]

theorem run_one {s t : σ} {a : α} (h : step s a = some t) : run step s [a] = some t := by
  rw [run_cons, h]
  rfl

/-- A machine with no disabled action runs every schedule. -/
theorem exists_run (hstep : ∀ s a, ∃ t, step s a = some t) (s : σ) (as : List α) :
    ∃ t, run step s as = some t := by
  induction as generalizing s with
  | nil => exact ⟨s, rfl⟩
  | cons a as ih =>
    obtain ⟨u, hu⟩ := hstep s a
    obtain ⟨t, ht⟩ := ih u
    exact ⟨t, run_cons_eq_some.mpr ⟨u, hu, ht⟩⟩

/-- A property every enabled step keeps holds at the end of every run. -/
theorem run_invariant {I : σ → Prop} (hstep : ∀ s a t, I s → step s a = some t → I t)
    {s t : σ} {as : List α} (hs : I s) (h : run step s as = some t) : I t := by
  induction as generalizing s with
  | nil => exact Option.some.inj h ▸ hs
  | cons a as ih =>
    obtain ⟨u, hu, h⟩ := run_cons_eq_some.mp h
    exact ih (hstep s a u hs hu) h

/-- A machine that follows every allowed step of another follows its runs. -/
theorem run_simulates {τ : Type*} {step' : τ → α → Option τ} {R : σ → τ → Prop} {P : α → Prop}
    (hsim : ∀ s u a t, R s u → P a → step s a = some t → ∃ v, step' u a = some v ∧ R t v)
    {s t : σ} {u : τ} {as : List α} (hR : R s u) (hP : ∀ a ∈ as, P a)
    (h : run step s as = some t) : ∃ v, run step' u as = some v ∧ R t v := by
  induction as generalizing s u with
  | nil => exact ⟨u, rfl, Option.some.inj h ▸ hR⟩
  | cons a as ih =>
    obtain ⟨s', hs', h⟩ := run_cons_eq_some.mp h
    obtain ⟨u', hu', hR'⟩ := hsim s u a s' hR (hP a List.mem_cons_self) hs'
    obtain ⟨v, hv, ht⟩ := ih hR' (fun b hb => hP b (List.mem_cons_of_mem _ hb)) h
    exact ⟨v, run_cons_eq_some.mpr ⟨u', hu', hv⟩, ht⟩

/-- What a machine records beside its states does not change its runs. -/
theorem run_map {τ : Type*} {step' : τ → α → Option τ} {f : τ → σ}
    (hstep : ∀ x a, (step' x a).map f = step (f x) a) (x : τ) (as : List α) :
    (run step' x as).map f = run step (f x) as := by
  induction as generalizing x with
  | nil => rfl
  | cons a as ih =>
    rw [run_cons, run_cons, ← hstep]
    cases step' x a with
    | none => rfl
    | some y => exact ih y

theorem Reachable.invariant {init I : σ → Prop} {t : σ} (h : Reachable step init t)
    (hinit : ∀ s, init s → I s) (hstep : ∀ s a t, I s → step s a = some t → I t) : I t := by
  obtain ⟨s, as, hs, h⟩ := h
  exact run_invariant hstep (hinit s hs) h

@[simp] theorem always_nil (R : σ → α → σ → Prop) (s : σ) : Always step R s [] := trivial

theorem Always.cons {R : σ → α → σ → Prop} {s t : σ} {a : α} {as : List α}
    (h : Always step R s (a :: as)) (ha : step s a = some t) :
    R s a t ∧ Always step R t as := h t ha

/-- A property kept by the steps that satisfy `R` holds at the end of a run made of them. -/
theorem Always.invariant {R : σ → α → σ → Prop} {I : σ → Prop}
    (hstep : ∀ s a t, I s → R s a t → step s a = some t → I t)
    {s t : σ} {as : List α} (hs : I s) (hR : Always step R s as)
    (h : run step s as = some t) : I t := by
  induction as generalizing s with
  | nil => exact Option.some.inj h ▸ hs
  | cons a as ih =>
    obtain ⟨u, hu, h⟩ := run_cons_eq_some.mp h
    obtain ⟨ha, hR⟩ := hR.cons hu
    exact ih (hstep s a u hs ha hu) hR h

/-- When every step takes its share off what is left, a run takes off all the shares. -/
theorem Always.budget (left : σ → ℕ) (share : α → ℕ) {R : σ → α → σ → Prop} {I : σ → Prop}
    (hstep : ∀ s a t, I s → R s a t → step s a = some t → I t ∧ left t ≤ left s - share a)
    {s t : σ} {as : List α} (hs : I s) (hR : Always step R s as) (h : run step s as = some t) :
    I t ∧ left t ≤ left s - (as.map share).sum := by
  induction as generalizing s with
  | nil =>
    obtain rfl := Option.some.inj h
    exact ⟨hs, Nat.le_refl _⟩
  | cons a as ih =>
    obtain ⟨u, hu, h⟩ := run_cons_eq_some.mp h
    obtain ⟨ha, hR⟩ := hR.cons hu
    obtain ⟨hI, hle⟩ := hstep s a u hs ha hu
    obtain ⟨hI, hle'⟩ := ih hI hR h
    rw [List.map_cons, List.sum_cons]
    exact ⟨hI, by omega⟩

/-- Steps of a run that is known to end in `u` satisfy what that end asks of them. -/
theorem always_of_run {R : σ → α → σ → Prop} {I : σ → Prop} {u : σ}
    (hstep : ∀ s a t as, I s → step s a = some t → run step t as = some u → R s a t ∧ I t)
    {s : σ} {as : List α} (hs : I s) (h : run step s as = some u) : Always step R s as := by
  induction as generalizing s with
  | nil => trivial
  | cons a as ih =>
    intro t ht
    obtain ⟨t', ht', h⟩ := run_cons_eq_some.mp h
    obtain rfl := Option.some.inj (ht'.symm.trans ht)
    obtain ⟨ha, hI⟩ := hstep s a t' as hs ht h
    exact ⟨ha, ih hI h⟩

theorem Always.append {R : σ → α → σ → Prop} {s t : σ} {as bs : List α}
    (h : Always step R s (as ++ bs)) (ht : run step s as = some t) :
    Always step R s as ∧ Always step R t bs := by
  induction as generalizing s with
  | nil => exact ⟨trivial, Option.some.inj ht ▸ h⟩
  | cons a as ih =>
    obtain ⟨u, hu, ht⟩ := run_cons_eq_some.mp ht
    obtain ⟨ha, h⟩ := Always.cons h hu
    obtain ⟨has, hbs⟩ := ih h ht
    constructor
    · intro v hv
      obtain rfl := Option.some.inj (hu.symm.trans hv)
      exact ⟨ha, has⟩
    · exact hbs

/-- Two step properties that agree wherever the invariant holds agree on whole schedules. -/
theorem always_congr {R Q : σ → α → σ → Prop} {I : σ → Prop}
    (hstep : ∀ s a t, I s → step s a = some t → I t)
    (hRQ : ∀ s a t, I s → step s a = some t → (R s a t ↔ Q s a t))
    {s : σ} (as : List α) (hs : I s) : Always step R s as ↔ Always step Q s as := by
  induction as generalizing s with
  | nil => rfl
  | cons a as ih =>
    refine forall_congr' fun t => forall_congr' fun ht => ?_
    exact and_congr (hRQ s a t hs ht) (ih (hstep s a t hs ht))

theorem Always.mono {R Q : σ → α → σ → Prop} (hRQ : ∀ s a t, R s a t → Q s a t) {s : σ}
    {as : List α} (h : Always step R s as) : Always step Q s as := by
  induction as generalizing s with
  | nil => trivial
  | cons a as ih =>
    intro t ht
    exact ⟨hRQ s a t (h t ht).1, ih (h t ht).2⟩

/-- What holds of every action of a schedule holds at each of its steps. -/
theorem always_of_mem {P : α → Prop} {s : σ} {as : List α} (hP : ∀ a ∈ as, P a) :
    Always step (fun _ a _ => P a) s as := by
  induction as generalizing s with
  | nil => trivial
  | cons a as ih =>
    intro t _
    exact ⟨hP a List.mem_cons_self, ih fun b hb => hP b (List.mem_cons_of_mem _ hb)⟩

theorem Always.and {R Q : σ → α → σ → Prop} {s : σ} {as : List α} (hR : Always step R s as)
    (hQ : Always step Q s as) : Always step (fun s a t => R s a t ∧ Q s a t) s as := by
  induction as generalizing s with
  | nil => trivial
  | cons a as ih =>
    intro t ht
    exact ⟨⟨(hR t ht).1, (hQ t ht).1⟩, ih (hR t ht).2 (hQ t ht).2⟩

instance (R : σ → α → σ → Prop) [∀ s a t, Decidable (R s a t)] :
    ∀ (s : σ) (as : List α), Decidable (Always step R s as)
  | _, [] => isTrue trivial
  | s, a :: as =>
    match hs : step s a with
    | none => isTrue fun t ht => by simp [hs] at ht
    | some u =>
      have : Decidable (Always step R u as) := instDecidableAlways R u as
      decidable_of_iff (R s a u ∧ Always step R u as) <| by
        constructor
        · intro h t ht
          obtain rfl : u = t := Option.some.inj (hs.symm.trans ht)
          exact h
        · intro h
          exact h u hs

end Transition
