import Mathlib.Tactic

namespace Support

variable {ι : Type*}

def Inductive (supports : Finset ι → ι → Prop) (s : Finset ι) : Prop := ∀ c ∈ s, supports s c

def Upward (supports : Finset ι → ι → Prop) : Prop := ∀ c, Monotone fun s ↦ supports s c

def Feasible (supports : Finset ι → ι → Prop) (nec s : Finset ι) : Prop :=
  ∃ t ⊆ s, nec ⊆ t ∧ Inductive supports t

variable {supports : Finset ι → ι → Prop} {nec s t : Finset ι} {c : ι}

theorem Inductive.union [DecidableEq ι] (h : Upward supports) (hs : Inductive supports s)
    (ht : Inductive supports t) : Inductive supports (s ∪ t) := by
  intro c hc
  cases Finset.mem_union.mp hc with
  | inl hc => exact h c Finset.subset_union_left (hs c hc)
  | inr hc => exact h c Finset.subset_union_right (ht c hc)

theorem Inductive.not_mem (h : Upward supports) (ht : Inductive supports t) (hts : t ⊆ s)
    (hc : ¬ supports s c) : c ∉ t := fun hmem ↦ hc (h c hts (ht c hmem))

theorem Inductive.feasible (hs : Inductive supports s) (hnec : nec ⊆ s) : Feasible supports nec s :=
  ⟨s, Finset.Subset.refl s, hnec, hs⟩

theorem monotone_feasible : Monotone (Feasible supports nec) := by
  intro s s' hle hs
  obtain ⟨t, hts, hnec, ht⟩ := hs
  exact ⟨t, hts.trans hle, hnec, ht⟩

theorem Feasible.nec_subset (h : Feasible supports nec s) : nec ⊆ s := by
  obtain ⟨t, hts, hnec, -⟩ := h
  exact hnec.trans hts

structure Retains (supports : Finset ι → ι → Prop) (k s t : Finset ι) : Prop where
  subset : t ⊆ s
  holds : ∀ u ⊆ k, Inductive supports u → u ⊆ t

variable {k : Finset ι}

theorem Retains.start (h : k ⊆ s) : Retains supports k s s :=
  ⟨Finset.Subset.refl s, fun _ hu _ ↦ hu.trans h⟩

theorem Retains.without {t' : Finset ι} (h : Upward supports) (hr : Retains supports k s t) (ht : t' ⊆ t)
    (hlost : ∀ c ∈ t, c ∈ k → c ∉ t' → ¬ supports t c) : Retains supports k s t' := by
  refine ⟨ht.trans hr.subset, fun u hu hind c hc ↦ ?_⟩
  by_contra hno
  have hut := hr.holds u hu hind
  exact hind.not_mem h hut (hlost c (hut hc) (hu hc) hno) hc

theorem Retains.not_feasible (h : Upward supports) (hr : Retains supports k s t) (hc : c ∈ nec)
    (hlost : ¬ supports t c) : ¬ Feasible supports nec k := by
  intro hf
  obtain ⟨u, hu, hnec, hind⟩ := hf
  exact hind.not_mem h (hr.holds u hu hind) hlost (hnec hc)

/-- What retains the inductive subsets and is inductive itself is the greatest of them. -/
theorem Retains.isGreatest (hr : Retains supports s s t) (ht : Inductive supports t) :
    IsGreatest {u | u ⊆ s ∧ Inductive supports u} t :=
  ⟨⟨hr.subset, ht⟩, fun u hu ↦ hr.holds u hu.1 hu.2⟩

def Needs (supports : Finset ι → ι → Prop) (p s nec : Finset ι) : Prop :=
  ∀ t ⊆ s, p ⊆ t → Inductive supports t → nec ⊆ t

section Needs

variable {p : Finset ι} {s' : Finset ι}

theorem Needs.start : Needs supports p s p := fun _ _ hp _ ↦ hp

theorem Needs.mono (h : Needs supports p s nec) (hs : s' ⊆ s) : Needs supports p s' nec :=
  fun t ht ↦ h t (ht.trans hs)

theorem Needs.insert [DecidableEq ι] {nec' : Finset ι} (h : Needs supports p s nec) (hsub : nec' ⊆ nec)
    (hno : ¬ Feasible supports nec' (s.erase c)) : Needs supports p s (insert c nec) := by
  intro t ht hp hind
  have hnec := h t ht hp hind
  refine Finset.insert_subset ?_ hnec
  by_contra hc
  refine hno ⟨t, fun a ha ↦ Finset.mem_erase.mpr ⟨fun heq ↦ hc (heq ▸ ha), ht ha⟩, hsub.trans hnec, hind⟩

theorem Needs.subset (h : Needs supports p s nec) (hf : Feasible supports p s) : nec ⊆ s := by
  obtain ⟨t, ht, hp, hind⟩ := hf
  exact (h t ht hp hind).trans ht

/-- A feasible set all of whose members are needed is a minimal inductive one. -/
theorem Needs.minimal (h : Needs supports p s s) (hf : Feasible supports p s) :
    Minimal (fun t ↦ p ⊆ t ∧ Inductive supports t) s := by
  obtain ⟨t, ht, hp, hind⟩ := hf
  have heq : t = s := ht.antisymm (h t ht hp hind)
  subst heq
  exact ⟨⟨hp, hind⟩, fun u hu hut ↦ h u hut hu.1 hu.2⟩

/-- Where a search for a minimal inductive set around `p` stands: one lies within `feas`, and each
one has the members of `nec`. -/
structure Narrowed (supports : Finset ι → ι → Prop) (p feas nec : Finset ι) : Prop where
  subset : p ⊆ nec
  needs : Needs supports p feas nec
  feasible : Feasible supports p feas

theorem Narrowed.start (h : Feasible supports p s) : Narrowed supports p s p :=
  ⟨Finset.Subset.refl p, .start, h⟩

theorem Narrowed.nec_subset (h : Narrowed supports p s nec) : nec ⊆ s := h.needs.subset h.feasible

theorem Narrowed.insert [DecidableEq ι] {nec' : Finset ι} (h : Narrowed supports p s nec)
    (hsub : nec' ⊆ nec) (hno : ¬ Feasible supports nec' (s.erase c)) :
    Narrowed supports p s (insert c nec) :=
  ⟨h.subset.trans (Finset.subset_insert c nec), h.needs.insert hsub hno, h.feasible⟩

theorem Narrowed.shrink (h : Narrowed supports p s nec) (hs : s' ⊆ s) (hind : Inductive supports s')
    (hp : p ⊆ s') : Narrowed supports p s' nec := ⟨h.subset, h.needs.mono hs, hind.feasible hp⟩

theorem Narrowed.minimal (h : Narrowed supports p s nec) (hs : s.card ≤ nec.card) :
    nec = s ∧ Minimal (fun t ↦ p ⊆ t ∧ Inductive supports t) s := by
  have heq : nec = s := Finset.eq_of_subset_of_card_le h.nec_subset hs
  subst heq
  exact ⟨rfl, h.needs.minimal h.feasible⟩

end Needs

section Collapse

variable [DecidableEq ι] {base : Finset ι}

def Collapses (supports : Finset ι → ι → Prop) (base : Finset ι) (c : ι) (k : Finset ι) : Prop :=
  k ⊆ base ∧ c ∉ k ∧ ¬ supports (base \ k) c

theorem Inductive.hits (h : Upward supports) (hs : Inductive supports s) (hbase : s ⊆ base)
    (hc : c ∈ s) (hk : Collapses supports base c k) : (s ∩ k).Nonempty := by
  by_contra hno
  rw [Finset.not_nonempty_iff_eq_empty] at hno
  refine hk.2.2 (h c (fun a ha ↦ Finset.mem_sdiff.mpr ⟨hbase ha, fun hak ↦ ?_⟩) (hs c hc))
  exact absurd (Finset.mem_inter.mpr ⟨ha, hak⟩) (hno ▸ Finset.notMem_empty a)

theorem Collapses.nonempty (hbase : Inductive supports base) (hc : c ∈ base)
    (hk : Collapses supports base c k) : k.Nonempty := by
  by_contra hno
  rw [Finset.not_nonempty_iff_eq_empty] at hno
  rw [hno, Collapses, Finset.sdiff_empty] at hk
  exact hk.2.2 (hbase c hc)

end Collapse

end Support
