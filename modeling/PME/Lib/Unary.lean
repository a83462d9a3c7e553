import Mathlib.Tactic

namespace Unary

def Shows (n : ℕ) (a : ℕ → Prop) (p : ℕ) : Prop := ∀ i ≤ n, a i ↔ i ≤ p

structure Adds (n m k : ℕ) (a b r : ℕ → Prop) : Prop where
  up : ∀ i ≤ n, ∀ j ≤ m, i + j ≤ k → a i → b j → r (i + j)
  down : ∀ i ≤ n, ∀ j ≤ m, i + j + 1 ≤ k → r (i + j + 1) → a (i + 1) ∨ b (j + 1)

variable {n m k p q : ℕ} {a b r : ℕ → Prop}

theorem Shows.mono (h : Shows n a p) (hm : m ≤ n) : Shows m a p := fun i hi ↦ h i (hi.trans hm)

theorem Adds.shows (h : Adds n m k a b r) (ha : Shows n a p) (hb : Shows m b q) (htopa : ¬ a (n + 1))
    (htopb : ¬ b (m + 1)) (hp : p ≤ n ∨ k ≤ n) (hq : q ≤ m ∨ k ≤ m) (hk : k ≤ n + m) :
    Shows k r (p + q) := by
  intro i hi
  constructor
  · intro hr
    by_contra hgt
    have hpn : p ≤ n := by omega
    have hqm : q ≤ m := by omega
    -- the sum is too small for `i`, so some pair of bits above both numbers was added
    obtain ⟨x, y, hx, hy, hsum, hpx, hqy⟩ : ∃ x y, x ≤ n ∧ y ≤ m ∧ x + y + 1 = i ∧ p ≤ x ∧ q ≤ y :=
      ⟨min n (i - 1 - q), i - 1 - min n (i - 1 - q), by omega, by omega, by omega, by omega, by omega⟩
    have hor := h.down x hx y hy (by omega) (hsum.symm ▸ hr)
    cases hor with
    | inl hax =>
      obtain hlt | heq := Nat.lt_or_eq_of_le hx
      · have hle := (ha (x + 1) hlt).mp hax
        omega
      · exact htopa (heq ▸ hax)
    | inr hby =>
      obtain hlt | heq := Nat.lt_or_eq_of_le hy
      · have hle := (hb (y + 1) hlt).mp hby
        omega
      · exact htopb (heq ▸ hby)
  · intro hle
    obtain ⟨x, y, hx, hy, hsum, hxp, hyq⟩ : ∃ x y, x ≤ n ∧ y ≤ m ∧ x + y = i ∧ x ≤ p ∧ y ≤ q := by
      by_cases hpi : p ≤ n ∧ p ≤ i
      · by_cases hm : i - p ≤ m
        · exact ⟨p, i - p, hpi.1, hm, by omega, le_rfl, by omega⟩
        · exact ⟨i - m, m, by omega, le_rfl, by omega, by omega, by omega⟩
      · exact ⟨min i n, i - min i n, by omega, by omega, by omega, by omega, by omega⟩
    exact hsum ▸ h.up x hx y hy (by omega) ((ha x hx).mpr hxp) ((hb y hy).mpr hyq)

theorem adds_of_shows (ha : Shows n a p) (hb : Shows m b q) (hr : Shows k r (p + q))
    (hp : p ≤ n ∨ k ≤ n) (hq : q ≤ m ∨ k ≤ m) : Adds n m k a b r := by
  constructor
  · intro i hi j hj hk hai hbj
    have hpi := (ha i hi).mp hai
    have hqj := (hb j hj).mp hbj
    exact (hr _ hk).mpr (by omega)
  · intro i hi j hj hk hrij
    have hle := (hr _ hk).mp hrij
    by_cases hpi : i + 1 ≤ p
    · exact .inl ((ha _ (by omega)).mpr hpi)
    · exact .inr ((hb _ (by omega)).mpr (by omega))

end Unary
