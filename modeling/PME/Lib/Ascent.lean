import Mathlib.Tactic

namespace Ascent

variable {α : Type*} {keys keys' : Finset α} {top : ℕ} {held held' : α → ℕ → Prop}

open Classical in
noncomputable def missing (keys : Finset α) (top : ℕ) (held : α → ℕ → Prop) : Finset (α × ℕ) :=
  (keys ×ˢ Finset.range (top + 1)).filter fun p ↦ ¬ held p.1 p.2

theorem mem_missing {a : α} {k : ℕ} :
    (a, k) ∈ missing keys top held ↔ (a ∈ keys ∧ k ≤ top) ∧ ¬ held a k := by
  classical
  unfold missing
  rw [Finset.mem_filter, Finset.mem_product, Finset.mem_range, Nat.lt_succ_iff]

theorem card_missing_le : (missing keys top held).card ≤ keys.card * (top + 1) := by
  classical
  unfold missing
  refine (Finset.card_filter_le _ _).trans ?_
  rw [Finset.card_product, Finset.card_range]

theorem missing_subset (h : ∀ a k, held a k → held' a k) :
    missing keys top held' ⊆ missing keys top held := by
  intro p hp
  obtain ⟨hrange, hno⟩ := mem_missing.mp hp
  exact mem_missing.mpr ⟨hrange, fun hheld ↦ hno (h _ _ hheld)⟩

theorem card_missing_lt (h : ∀ a k, held a k → held' a k) {a : α} {k : ℕ} (ha : a ∈ keys)
    (hk : k ≤ top) (hnew : held' a k) (hno : ¬ held a k) :
    (missing keys top held').card < (missing keys top held).card := by
  refine Finset.card_lt_card ⟨missing_subset h, fun hsub ↦ ?_⟩
  have hmem : (a, k) ∈ missing keys top held := mem_missing.mpr ⟨⟨ha, hk⟩, hno⟩
  exact (mem_missing.mp (hsub hmem)).2 hnew

/-- When each frame of a sequence has a key of its own, there are no more frames than keys. -/
theorem length_le_card {k : ℕ} (own : α → ℕ → Prop) (hown : ∀ a m n, own a m → own a n → m = n)
    (hkeys : ∀ a m, own a m → a ∈ keys) (h : ∀ m, 0 < m → m < k → ∃ a, own a m) :
    k ≤ keys.card + 1 := by
  by_cases hk : k ≤ 1
  · omega
  obtain ⟨a, -⟩ := h 1 Nat.one_pos (by omega)
  have hne : Nonempty α := ⟨a⟩
  choose! f hf using h
  have hmaps : ∀ m ∈ Finset.Ico 1 k, f m ∈ keys := by
    intro m hm
    obtain ⟨hpos, hlt⟩ := Finset.mem_Ico.mp hm
    exact hkeys _ _ (hf m hpos hlt)
  have hinj : Set.InjOn f (Finset.Ico 1 k) := by
    intro m hm n hn heq
    obtain ⟨hm, hmk⟩ := Finset.mem_Ico.mp hm
    obtain ⟨hn, hnk⟩ := Finset.mem_Ico.mp hn
    have hthere := hf m hm hmk
    rw [heq] at hthere
    exact hown _ _ _ hthere (hf n hn hnk)
  have hcard := Finset.card_le_card_of_injOn f hmaps hinj
  rw [Nat.card_Ico] at hcard
  omega

/-- What is left of a search through a queue: the levels to reach, the length of the queue, and
the level of what comes next when it is known to be open. -/
def rank (top missing length : ℕ) : Option ℕ → ℕ
  | none => missing * (2 * top + 2) + length + (2 * top + 1)
  | some level => missing * (2 * top + 2) + length + 2 * level

variable {missing missing' length length' level : ℕ} {next : Option ℕ}

theorem rank_done (h : length' < length) : rank top missing length' none < rank top missing length none := by
  simp only [rank]
  omega

theorem rank_reached (h : missing' < missing) (hle : length' ≤ length) :
    rank top missing' length' none < rank top missing length next := by
  have hmul := Nat.mul_le_mul_right (2 * top + 2) (Nat.succ_le_of_lt h)
  rw [Nat.succ_mul] at hmul
  cases next with
  | none =>
    simp only [rank]
    omega
  | some level =>
    simp only [rank]
    omega

theorem rank_down (hpos : 0 < level) (htop : level ≤ top) (hnext : ∀ k ∈ next, k = level) :
    rank top missing (length + 1) (some (level - 1)) < rank top missing length next := by
  cases next with
  | none =>
    simp only [rank]
    omega
  | some k =>
    obtain rfl := hnext k rfl
    simp only [rank]
    omega

end Ascent
