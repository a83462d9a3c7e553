import PME.Lib.HittingSets

namespace HittingSets

open Exploration

variable {α : Type*} {good bad : Finset α → Prop} {base s t : Finset α}
  {sets sets' blocked blocked' found : List (Finset α)} {c : ℕ}

theorem hits_append : Hits (sets ++ sets') t ↔ Hits sets t ∧ Hits sets' t := List.forall_mem_append

theorem Hits.unblocked_compl [DecidableEq α] (h : Hits sets t) : Unblocked sets (base \ t) := by
  intro s hs hsub
  obtain ⟨a, ha, hat⟩ := h s hs
  exact (Finset.mem_sdiff.mp (hsub ha)).2 hat

theorem smallestFirst_zero : SmallestFirst good base [] 0 where
  minimal _ hu := absurd hu List.not_mem_nil
  nodup := List.nodup_nil
  sorted := List.Pairwise.nil
  le _ hu := absurd hu List.not_mem_nil
  covers _ _ hcard := absurd hcard (Nat.not_lt_zero _)

section Choices

open Classical in
noncomputable def choices (sets blocked : List (Finset α)) (base : Finset α) : ℕ :=
  (base.powerset.filter (Admissible sets blocked)).card

theorem choices_le : choices sets blocked base ≤ 2 ^ base.card := by
  classical
  rw [← Finset.card_powerset]
  exact Finset.card_filter_le _ _

theorem choices_lt (hle : ∀ s, Admissible sets' blocked' s → Admissible sets blocked s) (hbase : t ⊆ base)
    (ht : Admissible sets blocked t) (hdone : ¬ Admissible sets' blocked' t) :
    choices sets' blocked' base < choices sets blocked base := by
  classical
  refine Finset.card_lt_card (Finset.ssubset_iff_of_subset ?_ |>.mpr ⟨t, ?_, ?_⟩)
  · exact Finset.monotone_filter_right _ fun s _ ↦ hle s
  · exact Finset.mem_filter.mpr ⟨Finset.mem_powerset.mpr hbase, ht⟩
  · exact fun hmem ↦ hdone (Finset.mem_filter.mp hmem).2

theorem choices_block_lt (hbase : t ⊆ base) (ht : Admissible sets blocked t) :
    choices sets (blocked ++ [t]) base < choices sets blocked base :=
  choices_lt (fun _ h ↦ ⟨h.1, (unblocked_snoc.mp h.2).1⟩) hbase ht fun h ↦ (unblocked_snoc.mp h.2).2 le_rfl

theorem choices_add_lt (hbase : t ⊆ base) (ht : Admissible sets blocked t) (hmiss : ∀ a ∈ s, a ∉ t) :
    choices (sets ++ [s]) blocked base < choices sets blocked base := by
  refine choices_lt (fun _ h ↦ ⟨(hits_snoc.mp h.1).1, h.2⟩) hbase ht fun h ↦ ?_
  obtain ⟨a, ha, hat⟩ := (hits_snoc.mp h.1).2
  exact hmiss a ha hat

end Choices

variable [DecidableEq α]

structure Dual (good bad : Finset α → Prop) (base : Finset α) : Prop where
  mono : Monotone good
  iff : ∀ s, bad s ↔ ¬ good (base \ s)

namespace Dual

theorem bad_mono (h : Dual good bad base) : Monotone bad := by
  intro s s' hle hbad
  refine (h.iff s').mpr fun hgood ↦ (h.iff s).mp hbad ?_
  exact h.mono (Finset.sdiff_subset_sdiff le_rfl hle) hgood

theorem meets (h : Dual good bad base) (ht : t ⊆ base) (hgood : good t) (hbad : bad s) : ∃ a ∈ s, a ∈ t := by
  by_contra hno
  refine (h.iff s).mp hbad (h.mono (fun a ha ↦ ?_) hgood)
  exact Finset.mem_sdiff.mpr ⟨ht ha, fun hs ↦ hno ⟨a, hs, ha⟩⟩

theorem hits (h : Dual good bad base) (ht : t ⊆ base) (hgood : good t) (hsets : ∀ s ∈ sets, bad s) :
    Hits sets t := fun s hs ↦ h.meets ht hgood (hsets s hs)

theorem bad_compl (h : Dual good bad base) (ht : t ⊆ base) (hno : ¬ good t) : bad (base \ t) := by
  rw [h.iff, Finset.sdiff_sdiff_eq_self ht]
  exact hno

theorem good_of_hits (h : Dual good bad base) (ht : t ⊆ base)
    (hcovers : ∀ s ⊆ base, bad s → ¬ Unblocked sets s) (hhits : Hits sets t) : good t := by
  by_contra hno
  obtain ⟨u, hu, hsub⟩ := not_unblocked.mp (hcovers _ Finset.sdiff_subset (h.bad_compl ht hno))
  obtain ⟨a, ha, hat⟩ := hhits u hu
  exact (Finset.mem_sdiff.mp (hsub ha)).2 hat

theorem next (h : Dual good bad base) (hf : SmallestFirst good base found c) (hsets : ∀ s ∈ sets, bad s)
    (ht : t ⊆ base) (hmin : IsMinimum (Admissible sets found) t) (hgood : good t) :
    SmallestFirst good base (found ++ [t]) t.card :=
  hf.addSmallest ht hgood hmin.1.2 fun _ hs hgs hos ↦ hmin.2 _ ⟨h.hits hs hgs hsets, hos⟩

theorem complete (h : Dual good bad base) (hf : SmallestFirst good base found c) (hsets : ∀ s ∈ sets, bad s)
    (hnone : ∀ t, ¬ Admissible sets found t) : Explored.Complete good base found :=
  hf.complete fun t ht hgood hopen ↦ hnone t ⟨h.hits ht hgood hsets, hopen⟩

end Dual

section Needed

variable {needed : List α}

theorem hits_singles : Hits (needed.map fun a ↦ {a}) t ↔ needed.toFinset ⊆ t := by
  constructor
  · intro h a ha
    obtain ⟨b, hb, hbt⟩ := h {a} (List.mem_map_of_mem (List.mem_toFinset.mp ha))
    exact Finset.mem_singleton.mp hb ▸ hbt
  · intro h s hs
    obtain ⟨a, ha, rfl⟩ := List.mem_map.mp hs
    exact ⟨a, Finset.mem_singleton_self a, h (List.mem_toFinset.mpr ha)⟩

/-- The elements that are sets of their own are in every hitting set, and do not matter for the rest. -/
theorem admissible_needed (hsets : ∀ s ∈ sets, Disjoint s needed.toFinset) :
    Admissible ((needed.map fun a ↦ {a}) ++ sets) blocked t ↔
      needed.toFinset ⊆ t ∧ Admissible sets (blocked.map (· \ needed.toFinset)) (t \ needed.toFinset) := by
  have hhits : Hits sets t ↔ Hits sets (t \ needed.toFinset) := by
    refine forall₂_congr fun s hs ↦ exists_congr fun a ↦ and_congr_right fun ha ↦ ?_
    rw [Finset.mem_sdiff, and_iff_left (Finset.disjoint_left.mp (hsets s hs) ha)]
  unfold Admissible
  rw [hits_append, hits_singles, hhits, and_assoc]
  refine and_congr_right fun hin ↦ and_congr_right fun _ ↦ ?_
  unfold Unblocked
  rw [List.forall_mem_map]
  refine forall₂_congr fun u _ ↦ not_congr ⟨fun hle ↦ Finset.sdiff_subset_sdiff hle le_rfl, fun hle a ha ↦ ?_⟩
  by_cases hneed : a ∈ needed.toFinset
  · exact hin hneed
  · exact (Finset.mem_sdiff.mp (hle (Finset.mem_sdiff.mpr ⟨ha, hneed⟩))).1

theorem IsMinimum.disjoint (hsets : ∀ s ∈ sets, Disjoint s needed.toFinset)
    (h : IsMinimum (Admissible sets blocked) t) : Disjoint t needed.toFinset := by
  have hadm : Admissible sets blocked (t \ needed.toFinset) := by
    refine ⟨fun s hs ↦ ?_, fun u hu hle ↦ h.1.2 u hu (hle.trans Finset.sdiff_subset)⟩
    obtain ⟨a, ha, hat⟩ := h.1.1 s hs
    exact ⟨a, ha, Finset.mem_sdiff.mpr ⟨hat, Finset.disjoint_left.mp (hsets s hs) ha⟩⟩
  have heq : t \ needed.toFinset = t := Finset.eq_of_subset_of_card_le Finset.sdiff_subset (h.2 _ hadm)
  exact Finset.sdiff_eq_self_iff_disjoint.mp heq

theorem IsMinimum.union (hsets : ∀ s ∈ sets, Disjoint s needed.toFinset) (ht : Disjoint t needed.toFinset)
    (h : IsMinimum (Admissible sets (blocked.map (· \ needed.toFinset))) t) :
    IsMinimum (Admissible ((needed.map fun a ↦ {a}) ++ sets) blocked) (needed.toFinset ∪ t) := by
  refine ⟨(admissible_needed hsets).mpr ⟨Finset.subset_union_left, ?_⟩, fun u hu ↦ ?_⟩
  · rw [Finset.union_sdiff_cancel_left ht.symm]
    exact h.1
  · obtain ⟨hin, hadm⟩ := (admissible_needed hsets).mp hu
    have hle := h.2 _ hadm
    have hcard := Finset.card_sdiff_add_card_eq_card hin
    rw [Finset.card_union_of_disjoint ht.symm]
    omega

end Needed

end HittingSets
