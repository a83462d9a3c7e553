import Mathlib.Tactic

namespace CoreGuided

variable {α : Type*}

/-- The bookkeeping of a core-guided search for a valuation that satisfies as many soft
literals as possible. Literals met in a core move from `free` to `blocked`. While the search
lasts it may ask for valuations that falsify something in each of `cores`, and for valuations
that satisfy more than `n` of the literals blocked at some earlier time. -/
structure Search (α : Type*) where
  free : List α
  blocked : List α
  cores : List (List α)
  lower : ℕ
  upper : ℕ
  asked : Option (List α × ℕ)

namespace Search

variable {models : (α → Bool) → Prop} {s : Search α} {v : α → Bool} {core rest : List α}

def value (s : Search α) (v : α → Bool) : ℕ := s.free.countP v + s.blocked.countP v

def potential (s : Search α) (v : α → Bool) : ℕ := s.free.length + s.blocked.countP v

def Hinted (s : Search α) (v : α → Bool) : Prop := ∀ c ∈ s.cores, ∃ a ∈ c, v a = false

def Better (s : Search α) (v : α → Bool) : Prop :=
  ∀ before n, s.asked = some (before, n) → n < before.countP v

/-- Potentials are bounded by the upper bound, except for valuations that the requests made
during the search rule out. Those are not better than what is known. -/
structure Inv (models : (α → Bool) → Prop) (s : Search α) : Prop where
  bound : ∀ v, models v →
    s.asked.isSome = true ∧ s.potential v ≤ s.lower ∨ s.potential v ≤ s.upper ∧ s.Hinted v
  asked : ∀ before n, s.asked = some (before, n) → ∃ later, s.blocked = before ++ later ∧
    s.free.length + later.length + n ≤ s.lower
  attained : ∃ v, models v ∧ s.lower ≤ s.value v
  le : s.lower ≤ s.upper

def ask (s : Search α) (v : α → Bool) : Search α :=
  { s with lower := max s.lower (s.value v), asked := some (s.blocked, s.blocked.countP v) }

def block (s : Search α) (hint : Bool) (core rest : List α) : Search α :=
  { s with
    free := rest
    blocked := s.blocked ++ core
    cores := if hint then core :: s.cores else s.cores
    upper := s.upper - 1 }

theorem value_le_potential (s : Search α) (v : α → Bool) : s.value v ≤ s.potential v := by
  have h : s.free.countP v ≤ s.free.length := List.countP_le_length
  exact Nat.add_le_add_right h _

theorem value_eq_potential (h : ∀ a ∈ s.free, v a = true) : s.value v = s.potential v := by
  have hc : s.free.countP v = s.free.length := List.countP_eq_length.mpr h
  rw [value, potential, hc]

theorem potential_block_le (hint : Bool) (h : s.free.Perm (core ++ rest)) :
    (s.block hint core rest).potential v ≤ s.potential v := by
  have hlen := h.length_eq
  have hc : core.countP v ≤ core.length := List.countP_le_length
  rw [List.length_append] at hlen
  simp only [potential, block, List.countP_append]
  omega

theorem potential_block_lt (hint : Bool) (h : s.free.Perm (core ++ rest))
    (hfalse : ∃ a ∈ core, v a = false) :
    (s.block hint core rest).potential v < s.potential v := by
  have hlen := h.length_eq
  have hc : core.countP v < core.length := by
    apply List.countP_lt_length_iff.mpr
    obtain ⟨a, ha, hv⟩ := hfalse
    exact ⟨a, ha, by simp [hv]⟩
  rw [List.length_append] at hlen
  simp only [potential, block, List.countP_append]
  omega

theorem value_lt_potential (h : s.free.Perm (core ++ rest)) (hfalse : ∃ a ∈ core, v a = false) :
    s.value v < s.potential v := by
  have hc : s.free.countP v < s.free.length := by
    apply List.countP_lt_length_iff.mpr
    obtain ⟨a, ha, hv⟩ := hfalse
    exact ⟨a, h.mem_iff.mpr (List.mem_append_left rest ha), by simp [hv]⟩
  exact Nat.add_lt_add_right hc _

/-- A valuation that is not better than what was asked for has no potential left. -/
theorem Inv.potential_le_lower (h : s.Inv models) (hv : ¬ s.Better v) :
    s.asked.isSome = true ∧ s.potential v ≤ s.lower := by
  unfold Better at hv
  push Not at hv
  obtain ⟨before, n, hasked, hn⟩ := hv
  obtain ⟨later, hblocked, hle⟩ := h.asked before n hasked
  have hc : later.countP v ≤ later.length := List.countP_le_length
  refine ⟨by rw [hasked]; rfl, ?_⟩
  rw [potential, hblocked, List.countP_append]
  omega

theorem Inv.ask (h : s.Inv models) (hv : models v) (hfree : ∀ a ∈ s.free, v a = true) :
    (s.ask v).Inv models := by
  have heq := value_eq_potential hfree
  refine ⟨fun v' hv' ↦ ?_, fun before n hasked ↦ ?_, ?_, ?_⟩
  · obtain hb | hb := h.bound v' hv'
    · exact .inl ⟨rfl, hb.2.trans (le_max_left _ _)⟩
    · exact .inr hb
  · obtain ⟨rfl, rfl⟩ : s.blocked = before ∧ s.blocked.countP v = n := by
      simpa [Search.ask] using hasked
    refine ⟨[], by simp [Search.ask], ?_⟩
    rw [List.length_nil, Nat.add_zero]
    exact heq.ge.trans (le_max_right _ _)
  · obtain hle | hle := le_total (s.value v) s.lower
    · obtain ⟨v', hv', hle'⟩ := h.attained
      exact ⟨v', hv', (max_eq_left hle).le.trans hle'⟩
    · exact ⟨v, hv, (max_eq_right hle).le⟩
  · obtain hb | hb := h.bound v hv
    · exact max_le h.le ((heq.le.trans hb.2).trans h.le)
    · exact max_le h.le (heq.le.trans hb.1)

theorem Inv.block (h : s.Inv models) (hint : Bool) (hperm : s.free.Perm (core ++ rest))
    (hcore : ∀ v, models v → s.Hinted v → s.Better v → ∃ a ∈ core, v a = false)
    (hne : s.asked.isSome = true → s.lower ≠ s.upper) : (s.block hint core rest).Inv models := by
  have hlen := hperm.length_eq
  rw [List.length_append] at hlen
  refine ⟨fun v hv ↦ ?_, fun before n hasked ↦ ?_, ?_, ?_⟩
  · have hle := potential_block_le (v := v) hint hperm
    by_cases hbetter : s.Better v
    · obtain hb | hb := h.bound v hv
      · exact .inl ⟨hb.1, hle.trans hb.2⟩
      · have hfalse := hcore v hv hb.2 hbetter
        have hlt := potential_block_lt hint hperm hfalse
        refine .inr ⟨?_, ?_⟩
        · have hb' := hb.1
          simp only [Search.block] at hlt ⊢
          omega
        · intro c hc
          cases hint with
          | false => exact hb.2 c hc
          | true =>
            cases List.mem_cons.mp hc with
            | inl hc => exact hc ▸ hfalse
            | inr hc => exact hb.2 c hc
    · obtain ⟨hsome, hlow⟩ := h.potential_le_lower hbetter
      exact .inl ⟨hsome, hle.trans hlow⟩
  · obtain ⟨later, hblocked, hle⟩ := h.asked before n hasked
    refine ⟨later ++ core, ?_, ?_⟩
    · simp only [Search.block, hblocked, List.append_assoc]
    · simp only [Search.block, List.length_append]
      omega
  · obtain ⟨v, hv, hle⟩ := h.attained
    refine ⟨v, hv, ?_⟩
    have hcount : s.free.countP v = core.countP v + rest.countP v := by
      rw [hperm.countP_eq, List.countP_append]
    simp only [value, Search.block, List.countP_append] at hle ⊢
    omega
  · have hlt : s.lower < s.upper := by
      refine lt_of_le_of_ne h.le fun heq ↦ ?_
      cases hs : s.asked.isSome with
      | true => exact hne hs heq
      | false =>
        -- nothing was asked for yet, so the core beats the valuation behind the lower bound
        obtain ⟨v, hv, hle⟩ := h.attained
        obtain hb | hb := h.bound v hv
        · rw [hs] at hb
          exact Bool.false_ne_true hb.1
        · have hbetter : s.Better v := by
            intro before n hasked
            rw [hasked] at hs
            exact absurd hs (by simp)
          have hlt := value_lt_potential hperm (hcore v hv hb.2 hbetter)
          have hb' := hb.1
          omega
    simp only [Search.block]
    omega

theorem Inv.optimal_of_eq (h : s.Inv models) (heq : s.lower = s.upper) (hv : models v) :
    s.value v ≤ s.lower := by
  have hle := s.value_le_potential v
  obtain hb | hb := h.bound v hv
  · exact hle.trans hb.2
  · exact (hle.trans hb.1).trans heq.ge

/-- Nothing better can be found, whatever the free literals are. -/
theorem Inv.optimal_of_exhausted (h : s.Inv models)
    (hnone : ∀ v, models v → s.Hinted v → ¬ s.Better v) (hv : models v) :
    s.value v ≤ s.lower := by
  have hle := s.value_le_potential v
  obtain hb | hb := h.bound v hv
  · exact hle.trans hb.2
  · exact hle.trans (h.potential_le_lower (hnone v hv hb.2)).2

theorem Inv.potential_le_upper (h : s.Inv models) (hv : models v) : s.potential v ≤ s.upper := by
  obtain hb | hb := h.bound v hv
  · exact hb.2.trans h.le
  · exact hb.1

theorem Inv.start (hasked : s.asked = none) (hcores : s.cores = [])
    (hbound : ∀ v, models v → s.potential v ≤ s.upper)
    (hattained : ∃ v, models v ∧ s.lower ≤ s.value v) : s.Inv models where
  bound v hv := .inr ⟨hbound v hv, by simp [Hinted, hcores]⟩
  asked before n h := by
    rw [hasked] at h
    exact nomatch h
  attained := hattained
  le := by
    obtain ⟨v, hv, hle⟩ := hattained
    exact (hle.trans (s.value_le_potential v)).trans (hbound v hv)

end Search

end CoreGuided
