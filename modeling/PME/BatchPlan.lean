import PME.BMCCorrectionSetFinder

namespace PME.BMCCorrectionSetFinder

open Exploration

def Within (tr : TransitionRelation) (c k : ℕ) (t : Finset ℕ) : Prop :=
  ∃ u ⊆ t, u ⊆ tr.gateIDs.toFinset ∧ u.card ≤ c ∧ ∃ i < k, tr.FreedBadAt u i

/-- What the searches of a batch with one cardinality go by: the bounds on the steps, the sets that
could be found before, and the sets around them. It depends on the circuit and the options only. -/
structure Plan where
  kMin : ℕ
  kMax : ℕ
  found : Set (Finset ℕ)
  blocked : Set (Finset ℕ)

namespace Plan

variable (tr : TransitionRelation) (p : Plan) (c : ℕ)

def blockedTo (k : ℕ) : Set (Finset ℕ) := {t | t ∈ p.blocked ∨ Within tr c k t}

structure Finds (k : ℕ) (t : Finset ℕ) : Prop where
  subset : t ⊆ tr.gateIDs.toFinset
  card_le : t.card ≤ c
  bad : tr.FreedBadAt t k
  new : t ∉ p.blockedTo tr c k

def foundTo (k : ℕ) : Set (Finset ℕ) := {t | t ∈ p.found ∨ ∃ i < k, p.Finds tr c i t}

open Classical in
noncomputable def lastSoln (k : ℕ) : ℕ := Nat.findGreatest (fun i ↦ ∃ t, p.Finds tr c i t) k

def GivesUp (k : ℕ) : Prop := p.lastSoln tr c k + 3 ≤ k + 1 ∧ p.kMin ≤ k + 1

open Classical in
noncomputable def lastStep : ℕ :=
  if h : ∃ k ≤ p.kMax, p.GivesUp tr c k then Nat.find h else p.kMax

open Classical in
noncomputable def next : Plan where
  kMin := max p.kMin (p.lastSoln tr c (p.lastStep tr c))
  kMax := if p.GivesUp tr c (p.lastStep tr c) then p.lastStep tr c + 1 else p.kMax
  found := p.foundTo tr c (p.lastStep tr c + 1)
  blocked := p.blockedTo tr c (p.lastStep tr c + 1)

end Plan

noncomputable def plan (tr : TransitionRelation) (opts : BMCOptions) : ℕ → Plan
  | 0 => ⟨opts.mcsBmcKMin, opts.mcsBmcKMax, ∅, ∅⟩
  | c + 1 => (plan tr opts c).next tr (c + 1)

variable {tr : TransitionRelation} {opts : BMCOptions} {p : Plan} {c k : ℕ} {t u : Finset ℕ}

theorem Within.mono {k' : ℕ} (h : Within tr c k t) (hk : k ≤ k') (htu : t ⊆ u) : Within tr c k' u := by
  obtain ⟨v, hvt, hgates, hcard, i, hi, hbad⟩ := h
  exact ⟨v, hvt.trans htu, hgates, hcard, i, by omega, hbad⟩

theorem within_succ : Within tr c (k + 1) t ↔
    Within tr c k t ∨ ∃ u ⊆ t, u ⊆ tr.gateIDs.toFinset ∧ u.card ≤ c ∧ tr.FreedBadAt u k := by
  constructor
  · intro h
    obtain ⟨u, hut, hgates, hcard, i, hi, hbad⟩ := h
    rcases Nat.lt_succ_iff_lt_or_eq.mp hi with hi | rfl
    · exact .inl ⟨u, hut, hgates, hcard, i, hi, hbad⟩
    · exact .inr ⟨u, hut, hgates, hcard, hbad⟩
  · intro h
    rcases h with h | ⟨u, hut, hgates, hcard, hbad⟩
    · exact h.mono (Nat.le_succ k) (Finset.Subset.refl t)
    · exact ⟨u, hut, hgates, hcard, k, Nat.lt_succ_self k, hbad⟩

namespace Plan

theorem Finds.within (h : p.Finds tr c k t) {k' : ℕ} (hk : k < k') : Within tr c k' t :=
  ⟨t, Finset.Subset.refl t, h.subset, h.card_le, k, hk, h.bad⟩

theorem foundTo_zero : p.foundTo tr c 0 = p.found := by
  ext t
  exact or_iff_left fun ⟨_, hi, _⟩ ↦ Nat.not_lt_zero _ hi

theorem blockedTo_zero : p.blockedTo tr c 0 = p.blocked := by
  ext t
  exact or_iff_left fun ⟨_, _, _, _, _, hi, _⟩ ↦ Nat.not_lt_zero _ hi

theorem foundTo_succ : t ∈ p.foundTo tr c (k + 1) ↔ t ∈ p.foundTo tr c k ∨ p.Finds tr c k t := by
  constructor
  · intro h
    rcases h with h | ⟨i, hi, hfinds⟩
    · exact .inl (.inl h)
    · rcases Nat.lt_succ_iff_lt_or_eq.mp hi with hi | rfl
      · exact .inl (.inr ⟨i, hi, hfinds⟩)
      · exact .inr hfinds
  · intro h
    rcases h with (h | ⟨i, hi, hfinds⟩) | hfinds
    · exact .inl h
    · exact .inr ⟨i, hi.trans (Nat.lt_succ_self k), hfinds⟩
    · exact .inr ⟨k, Nat.lt_succ_self k, hfinds⟩

section LastSteps

open Classical

theorem lastSoln_le : p.lastSoln tr c k ≤ k := Nat.findGreatest_le k

theorem lastSoln_eq (h : p.Finds tr c k t) : p.lastSoln tr c k = k := Nat.findGreatest_eq ⟨t, h⟩

theorem le_lastSoln {i : ℕ} (h : p.Finds tr c i t) (hi : i ≤ k) : i ≤ p.lastSoln tr c k :=
  Nat.le_findGreatest hi ⟨t, h⟩

theorem lastSoln_of_quiet (h : ∀ t, ¬ p.Finds tr c k t) : p.lastSoln tr c k = p.lastSoln tr c (k - 1) := by
  cases k with
  | zero => rfl
  | succ k => exact Nat.findGreatest_of_not fun ⟨t, ht⟩ ↦ h t ht

theorem lastStep_le : p.lastStep tr c ≤ p.kMax := by
  unfold lastStep
  split
  · next h => exact (Nat.find_spec h).1
  · exact le_rfl

theorem le_lastStep (hk : k ≤ p.kMax) (hgo : ∀ i < k, ¬ p.GivesUp tr c i) : k ≤ p.lastStep tr c := by
  unfold lastStep
  split
  · next h => exact (Nat.le_find_iff h k).mpr fun i hi hup ↦ hgo i hi hup.2
  · exact hk

theorem lastStep_eq_of_givesUp (hk : k ≤ p.kMax) (hgo : ∀ i < k, ¬ p.GivesUp tr c i)
    (hup : p.GivesUp tr c k) : p.lastStep tr c = k := by
  refine le_antisymm ?_ (le_lastStep hk hgo)
  unfold lastStep
  rw [dif_pos ⟨k, hk, hup⟩]
  exact Nat.find_min' _ ⟨hk, hup⟩

theorem lastStep_eq_kMax (hgo : ∀ i ≤ p.kMax, ¬ p.GivesUp tr c i) : p.lastStep tr c = p.kMax := by
  refine dif_neg fun h ↦ ?_
  obtain ⟨k, hk, hup⟩ := h
  exact hgo k hk hup

end LastSteps

structure Closed (p : Plan) : Prop where
  upper : IsUpperSet p.blocked
  found : p.found ⊆ p.blocked

theorem Closed.upperTo (h : p.Closed) (c k : ℕ) : IsUpperSet (p.blockedTo tr c k) := fun _ _ htu ht ↦
  ht.imp (h.upper htu) fun hw ↦ hw.mono le_rfl htu

theorem Closed.foundTo (h : p.Closed) (c k : ℕ) : p.foundTo tr c k ⊆ p.blockedTo tr c k := fun _ ht ↦
  ht.imp (fun hf ↦ h.found hf) fun ⟨_, hi, hfinds⟩ ↦ hfinds.within hi

theorem Closed.next (h : p.Closed) : (p.next tr c).Closed := ⟨h.upperTo c _, h.foundTo c _⟩

theorem next_bounds (h : p.kMin ≤ p.kMax) : (p.next tr c).kMin ≤ (p.next tr c).kMax := by
  have hlast : p.lastSoln tr c (p.lastStep tr c) ≤ p.lastStep tr c := lastSoln_le
  have hle : p.lastStep tr c ≤ p.kMax := lastStep_le
  dsimp only [Plan.next]
  split
  · next hup =>
    have hmin := hup.2
    omega
  · omega

theorem next_kMax_of_givesUp (h : p.GivesUp tr c (p.lastStep tr c)) :
    (p.next tr c).kMax = p.lastStep tr c + 1 := if_pos h

theorem next_kMax_of_going (h : ¬ p.GivesUp tr c (p.lastStep tr c)) : (p.next tr c).kMax = p.kMax := if_neg h

theorem next_kMax_le : (p.next tr c).kMax ≤ p.kMax + 1 := by
  have hle : p.lastStep tr c ≤ p.kMax := lastStep_le
  dsimp only [Plan.next]
  split <;> omega

end Plan

theorem plan_closed (c : ℕ) : (plan tr opts c).Closed := by
  induction c with
  | zero => exact ⟨fun _ _ _ h ↦ h, fun _ h ↦ h⟩
  | succ c ih => exact ih.next

theorem plan_bounds (h : opts.mcsBmcKMin ≤ opts.mcsBmcKMax) (c : ℕ) :
    (plan tr opts c).kMin ≤ (plan tr opts c).kMax := by
  induction c with
  | zero => exact h
  | succ c ih => exact Plan.next_bounds ih

theorem plan_kMax_le (c : ℕ) : (plan tr opts c).kMax ≤ opts.mcsBmcKMax + c := by
  induction c with
  | zero => exact le_rfl
  | succ c ih => exact Plan.next_kMax_le.trans (Nat.succ_le_succ ih)

theorem plan_blocked_mono {c' : ℕ} (h : c ≤ c') : (plan tr opts c).blocked ⊆ (plan tr opts c').blocked :=
  monotone_nat_of_le_succ (f := fun c ↦ (plan tr opts c).blocked) (fun _ _ ↦ .inl) h

theorem mem_plan_found : t ∈ (plan tr opts c).found ↔ ∃ i < c,
    ∃ k ≤ (plan tr opts i).lastStep tr (i + 1), (plan tr opts i).Finds tr (i + 1) k t := by
  induction c with
  | zero => exact ⟨nofun, nofun⟩
  | succ c ih =>
    constructor
    · intro h
      rcases h with h | ⟨k, hk, hfinds⟩
      · obtain ⟨i, hi, hrest⟩ := ih.mp h
        exact ⟨i, hi.trans (Nat.lt_succ_self c), hrest⟩
      · exact ⟨c, Nat.lt_succ_self c, k, Nat.le_of_lt_succ hk, hfinds⟩
    · intro h
      obtain ⟨i, hi, k, hk, hfinds⟩ := h
      rcases Nat.lt_succ_iff_lt_or_eq.mp hi with hi | rfl
      · exact .inl (ih.mpr ⟨i, hi, k, hk, hfinds⟩)
      · exact .inr ⟨k, Nat.lt_succ_of_le hk, hfinds⟩

/-- A set that can be found at a step has no part that was found or passed over before. -/
theorem Plan.Finds.not_within {i : ℕ} (h : (plan tr opts c).Finds tr (c + 1) k t) (hi : i < c) (hut : u ⊆ t) :
    ¬ Within tr (i + 1) ((plan tr opts i).lastStep tr (i + 1) + 1) u := by
  intro hw
  have hblocked : u ∈ (plan tr opts (i + 1)).blocked := .inr hw
  exact h.new (.inl ((plan_closed c).upper hut (plan_blocked_mono hi hblocked)))

theorem empty_notMem_blocked (h : ∀ k, ¬ tr.FreedBadAt ∅ k) (c : ℕ) : ∅ ∉ (plan tr opts c).blocked := by
  induction c with
  | zero => exact Set.notMem_empty _
  | succ c ih =>
    rintro (hb | ⟨u, hu, -, -, i, -, hbad⟩)
    · exact ih hb
    · exact h i (Finset.subset_empty.mp hu ▸ hbad)

/-- As long as no step is come to for some gates that was not come to for fewer, nothing that can be
found lies inside anything else that can be. -/
theorem isAntichain_found (hbad : ∀ k, ¬ tr.FreedBadAt ∅ k) (h : ∀ i, i + 1 < c →
    (plan tr opts (i + 1)).lastStep tr (i + 2) ≤ (plan tr opts i).lastStep tr (i + 1)) :
    IsAntichain (· ⊆ ·) (plan tr opts c).found := by
  have hsteps : ∀ i j, i ≤ j → j < c →
      (plan tr opts j).lastStep tr (j + 1) ≤ (plan tr opts i).lastStep tr (i + 1) := by
    intro i j hij
    induction j, hij using Nat.le_induction with
    | base => exact fun _ ↦ le_rfl
    | succ j _ ih => exact fun hj ↦ (h j hj).trans (ih (by omega))
  intro t ht u hu hne htu
  obtain ⟨i, hi, k, hk, ht⟩ := mem_plan_found.mp ht
  obtain ⟨j, hj, l, hl, hu⟩ := mem_plan_found.mp hu
  have hlt : t.card < u.card := Finset.card_lt_card (htu.ssubset_of_ne hne)
  have hpos : 0 < t.card := by
    refine Finset.card_pos.mpr (Finset.nonempty_iff_ne_empty.mpr fun hempty ↦ ?_)
    exact hbad k (hempty ▸ ht.bad)
  have hcard := hu.card_le
  rcases Nat.lt_or_ge i j with hij | hji
  · exact hu.not_within hij htu (ht.within (Nat.lt_succ_of_le hk))
  · -- the searches with one gate less than those for `u` come to the step of `t` as well
    obtain ⟨j, rfl⟩ : ∃ j', j = j' + 1 := ⟨j - 1, by omega⟩
    have hrefl := Finset.Subset.refl t
    refine ht.not_within (i := j) (by omega) hrefl ⟨t, hrefl, ht.subset, by omega, k, ?_, ht.bad⟩
    exact Nat.lt_succ_of_le (hk.trans (hsteps j i (by omega) hi))

end PME.BMCCorrectionSetFinder
