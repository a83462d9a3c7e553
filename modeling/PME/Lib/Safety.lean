import Mathlib.Tactic

namespace Safety

variable {α : Type*} {init : α → Prop} {step : α → α → Prop} {inv bad : α → Prop}

/-- Safety from an invariant that need only be inductive where nothing bad has happened, and
that excludes bad states either outright or one step later. -/
theorem not_bad_of_strengthening (hinit : ∀ x y, init x → step x y → inv x ∧ ¬ bad x)
    (hstep : ∀ x y, inv x → ¬ bad x → step x y → inv y)
    (hsafe : (∀ x y, inv x → step x y → ¬ bad x) ∨ ∀ x y, inv x → ¬ bad x → step x y → ¬ bad y)
    {k : ℕ} {x : ℕ → α} (hx : init (x 0)) (hrun : ∀ i ≤ k, step (x i) (x (i + 1))) :
    ¬ bad (x k) := by
  have h : ∀ i ≤ k, inv (x i) ∧ ¬ bad (x i) := by
    intro i
    induction i with
    | zero => exact fun hi ↦ hinit _ _ hx (hrun 0 hi)
    | succ i ih =>
      intro hi
      obtain ⟨hinv, hgood⟩ := ih (by omega)
      have hs := hrun i (by omega)
      have hnext := hstep _ _ hinv hgood hs
      rcases hsafe with hsafe | hsafe
      · exact ⟨hnext, hsafe _ _ hnext (hrun (i + 1) hi)⟩
      · exact ⟨hnext, hsafe _ _ hinv hgood hs⟩
  exact (h k le_rfl).2

end Safety
