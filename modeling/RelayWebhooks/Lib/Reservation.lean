import RelayWebhooks.Lib.Transition

/-! Units of a bounded resource that are held before they are stored. A system whose steps move
its usage by these moves keeps the bound. -/
namespace Reservation

structure Usage where
  stored : ℕ
  held : ℕ
  deriving DecidableEq, Repr

/-- A unit is held only while there is room for it; then it is stored or let go. -/
inductive Move (cap : ℕ) : Usage → Usage → Prop
  | stay (u : Usage) : Move cap u u
  | hold {s h : ℕ} (room : s + h < cap) : Move cap ⟨s, h⟩ ⟨s, h + 1⟩
  | store (s h : ℕ) : Move cap ⟨s, h + 1⟩ ⟨s + 1, h⟩
  | drop (s h : ℕ) : Move cap ⟨s, h + 1⟩ ⟨s, h⟩

def Usage.Fits (cap : ℕ) (u : Usage) : Prop := u.stored + u.held ≤ cap

variable {cap : ℕ} {u v : Usage}

theorem Usage.Fits.move (h : u.Fits cap) (hm : Move cap u v) : v.Fits cap := by
  unfold Usage.Fits at *
  cases hm with
  | stay => exact h
  | hold room => exact Nat.succ_le_of_lt room
  | store s k =>
    simp only at h ⊢
    omega
  | drop s k =>
    simp only at h ⊢
    omega

theorem Usage.Fits.stored_le (h : u.Fits cap) : u.stored ≤ cap := by
  unfold Usage.Fits at h
  omega

/-- The moves a change of one held unit amounts to, `was` and `is` telling whether it is held
before and after. -/
theorem Move.release {s h h' : ℕ} (was is : Bool) (hsum : h' + was.toNat = h + is.toNat)
    (hle : is = true → was = true) : Move cap ⟨s, h⟩ ⟨s, h'⟩ := by
  cases was with
  | false =>
    cases is with
    | false =>
      obtain rfl : h' = h := by simpa using hsum
      exact .stay _
    | true => cases hle rfl
  | true =>
    cases is with
    | false =>
      obtain rfl : h = h' + 1 := by simpa using hsum.symm
      exact .drop s h'
    | true =>
      obtain rfl : h' = h := by simpa using hsum
      exact .stay _

/-- Storing a unit that was held. -/
theorem Move.commit {s h s' h' : ℕ} (was : Bool) (hs : s' = s + was.toNat)
    (hh : h' + was.toNat = h) : Move cap ⟨s, h⟩ ⟨s', h'⟩ := by
  subst hs hh
  cases was with
  | false => exact .stay _
  | true => exact .store s h'

/-- Holding one more unit, if there is room. -/
theorem Move.acquire {s h h' : ℕ} (is : Bool) (hh : h' = h + is.toNat)
    (hroom : is = true → s + h < cap) : Move cap ⟨s, h⟩ ⟨s, h'⟩ := by
  subst hh
  cases is with
  | false => exact .stay _
  | true => exact .hold (hroom rfl)

section
variable {σ α : Type*} {step : σ → α → Option σ}

/-- Simulation: a run whose steps are moves of the usage keeps it within the cap. -/
theorem fits_of_run {I : σ → Prop} {R : σ → α → σ → Prop} {usage : σ → Usage}
    (hinv : ∀ s a t, I s → step s a = some t → I t)
    (hmove : ∀ s a t, I s → R s a t → step s a = some t → Move cap (usage s) (usage t))
    {s t : σ} {as : List α} (hI : I s) (hfits : (usage s).Fits cap)
    (hR : Transition.Always step R s as) (h : Transition.run step s as = some t) :
    (usage t).Fits cap := by
  have hstep : ∀ s a t, I s ∧ (usage s).Fits cap → R s a t → step s a = some t →
      I t ∧ (usage t).Fits cap := by
    intro s a t hs hR hst
    exact ⟨hinv s a t hs.1 hst, hs.2.move (hmove s a t hs.1 hR hst)⟩
  exact (hR.invariant hstep ⟨hI, hfits⟩ h).2

end

end Reservation
