import Mathlib.Tactic

namespace Comparator

/-- The parts of a merging network over Boolean wires. A comparator puts the larger of its
inputs on `y₁` and the smaller on `y₂`; a half one computes the larger only. -/
inductive Gate (W : Type*)
  | comp (x₁ x₂ y₁ y₂ : W)
  | or (x₁ x₂ y : W)

variable {W : Type*}

def Gate.wires : Gate W → List W
  | .comp x₁ x₂ y₁ y₂ => [x₁, x₂, y₁, y₂]
  | .or x₁ x₂ y => [x₁, x₂, y]

/-- What a gate promises when outputs are tied to the values computed only by `R`: with
equality both ways, with an implication in one direction. -/
def Gate.Holds (R : Bool → Bool → Prop) (v : W → Bool) : Gate W → Prop
  | .comp x₁ x₂ y₁ y₂ => R (v x₁ || v x₂) (v y₁) ∧ R (v x₁ && v x₂) (v y₂)
  | .or x₁ x₂ y => R (v x₁ || v x₂) (v y)

theorem Gate.holds_congr {R : Bool → Bool → Prop} {v v' : W → Bool} {g : Gate W}
    (h : ∀ w ∈ g.wires, v w = v' w) : g.Holds R v ↔ g.Holds R v' := by
  cases g with
  | comp x₁ x₂ y₁ y₂ =>
    have h₁ : v x₁ = v' x₁ := h x₁ (by simp [wires])
    have h₂ : v x₂ = v' x₂ := h x₂ (by simp [wires])
    have h₃ : v y₁ = v' y₁ := h y₁ (by simp [wires])
    have h₄ : v y₂ = v' y₂ := h y₂ (by simp [wires])
    simp only [Holds, h₁, h₂, h₃, h₄]
  | or x₁ x₂ y =>
    have h₁ : v x₁ = v' x₁ := h x₁ (by simp [wires])
    have h₂ : v x₂ = v' x₂ := h x₂ (by simp [wires])
    have h₃ : v y = v' y := h y (by simp [wires])
    simp only [Holds, h₁, h₂, h₃]

theorem Gate.Holds.mono {R R' : Bool → Bool → Prop} (hR : ∀ a b, R a b → R' a b) {v : W → Bool}
    {g : Gate W} (h : g.Holds R v) : g.Holds R' v := by
  cases g with
  | comp x₁ x₂ y₁ y₂ => exact ⟨hR _ _ h.1, hR _ _ h.2⟩
  | or x₁ x₂ y => exact hR _ _ h

structure Compatible (R : Bool → Bool → Prop) : Prop where
  refl : ∀ a, R a a
  trans : ∀ a b c, R a b → R b c → R a c
  or : ∀ a b c d, R a b → R c d → R (a || c) (b || d)
  and : ∀ a b c d, R a b → R c d → R (a && c) (b && d)

theorem compatible_eq : Compatible (· = ·) where
  refl _ := rfl
  trans _ _ _ h h' := h.trans h'
  or _ _ _ _ h h' := by simp only [h, h']
  and _ _ _ _ h h' := by simp only [h, h']

def Follows (R : Bool → Bool → Prop) (v : W → Bool) (p : ℕ) (ws : List W) : Prop :=
  ∀ i w, ws[i]? = some w → R (decide (i < p)) (v w)

variable {R : Bool → Bool → Prop} {v : W → Bool} {p q : ℕ} {ws es os outs : List W}

theorem follows_singleton (w : W) (h : R (decide (0 < p)) (v w)) : Follows R v p [w] := by
  intro i w' hw
  obtain ⟨rfl, rfl⟩ : i = 0 ∧ w = w' := by
    rw [List.getElem?_singleton] at hw
    split at hw
    · exact ⟨‹_›, Option.some_inj.mp hw⟩
    · simp at hw
  exact h

theorem follows_countP (hR : Compatible R) (w : W) : Follows R v ([w].countP v) [w] := by
  apply follows_singleton
  have hd : decide (0 < [w].countP v) = v w := by cases hw : v w <;> simp [hw]
  rw [hd]
  exact hR.refl (v w)

theorem Follows.take (h : Follows R v p ws) (c : ℕ) : Follows R v (min p c) (ws.take c) := by
  intro i w hw
  have hi : i < c := by
    by_contra hle
    rw [List.getElem?_take_eq_none (by omega)] at hw
    simp at hw
  rw [List.getElem?_take_of_lt hi] at hw
  have hiff : (i < min p c) = (i < p) := by
    rw [eq_iff_iff]
    omega
  simp only [hiff]
  exact h i w hw

theorem Follows.congr (h : Follows R v p ws) (hpq : ∀ i < ws.length, i < p ↔ i < q) :
    Follows R v q ws := by
  intro i w hw
  have hi : i < ws.length := (List.getElem?_eq_some_iff.mp hw).1
  rw [← decide_eq_decide.mpr (hpq i hi)]
  exact h i w hw

theorem Follows.evens (h : Follows R v p ws) (he : ∀ i, es[i]? = ws[2 * i]?) :
    Follows R v ((p + 1) / 2) es := by
  intro i w hw
  rw [he] at hw
  have hiff : 2 * i < p ↔ i < (p + 1) / 2 := by omega
  rw [← decide_eq_decide.mpr hiff]
  exact h (2 * i) w hw

theorem Follows.odds (h : Follows R v p ws) (ho : ∀ i, os[i]? = ws[2 * i + 1]?) :
    Follows R v (p / 2) os := by
  intro i w hw
  rw [ho] at hw
  have hiff : 2 * i + 1 < p ↔ i < p / 2 := by omega
  rw [← decide_eq_decide.mpr hiff]
  exact h (2 * i + 1) w hw

/-- How the last layer of an odd-even merge makes output `i` from the two halves: the first
output is passed on, then every pair goes through a comparator, and at the end one wire of
one half may be left without a partner. -/
inductive Merged (R : Bool → Bool → Prop) (v : W → Bool) (es os : List W) (i : ℕ) (w : W) : Prop
  | first (hi : i = 0) (he : es[0]? = some w)
  | larger (j : ℕ) (x y : W) (hi : i = 2 * j + 1) (hx : es[j + 1]? = some x)
      (hy : os[j]? = some y) (hr : R (v x || v y) (v w))
  | smaller (j : ℕ) (x y : W) (hi : i = 2 * j + 2) (hx : es[j + 1]? = some x)
      (hy : os[j]? = some y) (hr : R (v x && v y) (v w))
  | lastOdd (j : ℕ) (hi : i = 2 * j + 1) (hy : os[j]? = some w) (he : es.length ≤ j + 1)
  | lastEven (j : ℕ) (hi : i = 2 * j + 1) (hx : es[j + 1]? = some w) (ho : os.length ≤ j)

/-- The odd-even merge. The two halves of two sorted lists hold numbers of ones that differ
by two at most, and one layer of comparators repairs the difference. -/
theorem follows_of_merged (hR : Compatible R) {e o : ℕ} (hle : o ≤ e) (hdiff : e ≤ o + 2)
    (he : Follows R v e es) (ho : Follows R v o os) (helen : e ≤ es.length) (holen : o ≤ os.length)
    (hm : ∀ i w, outs[i]? = some w → Merged R v es os i w) : Follows R v (e + o) outs := by
  intro i w hw
  cases hm i w hw with
  | first hi hx =>
    have hd : decide (i < e + o) = decide (0 < e) := decide_eq_decide.mpr (by omega)
    rw [hd]
    exact he 0 w hx
  | larger j x y hi hx hy hr =>
    have hd : decide (i < e + o) = (decide (j + 1 < e) || decide (j < o)) := by
      rw [← Bool.decide_or]
      exact decide_eq_decide.mpr (by omega)
    rw [hd]
    exact hR.trans _ _ _ (hR.or _ _ _ _ (he (j + 1) x hx) (ho j y hy)) hr
  | smaller j x y hi hx hy hr =>
    have hd : decide (i < e + o) = (decide (j + 1 < e) && decide (j < o)) := by
      rw [← Bool.decide_and]
      exact decide_eq_decide.mpr (by omega)
    rw [hd]
    exact hR.trans _ _ _ (hR.and _ _ _ _ (he (j + 1) x hx) (ho j y hy)) hr
  | lastOdd j hi hy hel =>
    have hd : decide (i < e + o) = decide (j < o) := decide_eq_decide.mpr (by omega)
    rw [hd]
    exact ho j w hy
  | lastEven j hi hx hol =>
    have hd : decide (i < e + o) = decide (j + 1 < e) := decide_eq_decide.mpr (by omega)
    rw [hd]
    exact he (j + 1) w hx

end Comparator
