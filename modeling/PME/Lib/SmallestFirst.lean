import Mathlib.Data.List.ReduceOption
import PME.Lib.Exploration

namespace Exploration

variable {α : Type*} {good : Finset α → Prop} {base t : Finset α} {found : List (Finset α)} {c : ℕ}

def Unblocked (found : List (Finset α)) (t : Finset α) : Prop := ∀ u ∈ found, ¬ u ⊆ t

theorem unblocked_append {found' : List (Finset α)} :
    Unblocked (found ++ found') t ↔ Unblocked found t ∧ Unblocked found' t :=
  List.forall_mem_append

theorem not_unblocked : ¬ Unblocked found t ↔ ∃ u ∈ found, u ⊆ t := by
  unfold Unblocked
  push Not
  exact Iff.rfl

def Covers (good : Finset α → Prop) (base : Finset α) (found : List (Finset α)) (c : ℕ) : Prop :=
  ∀ t ⊆ base, t.card ≤ c → good t → ¬ Unblocked found t

theorem Unblocked.anti {found' : List (Finset α)} (h : Unblocked found' t) (hsub : found ⊆ found') :
    Unblocked found t := fun u hu ↦ h u (hsub hu)

theorem unexplored_iff : (⟨found, []⟩ : Explored α).Unexplored t ↔ Unblocked found t :=
  ⟨And.left, fun h ↦ ⟨h, nofun⟩⟩

theorem Covers.mono {found' : List (Finset α)} (h : Covers good base found c) (hsub : found ⊆ found') :
    Covers good base found' c := fun t ht hcard hgood hopen ↦ h t ht hcard hgood (hopen.anti hsub)

theorem covers_min_iff {m : ℕ} (hm : base.card ≤ m) :
    Covers good base found (min c m) ↔ Covers good base found c := by
  constructor
  · intro h t ht hcard
    exact h t ht (le_min hcard ((Finset.card_le_card ht).trans hm))
  · intro h t ht hcard
    exact h t ht (hcard.trans (min_le_left c m))

/-- The minimal sets are found in the order of their size: those of fewer than `c` elements
have been found, and some that have `c`. -/
structure SmallestFirst (good : Finset α → Prop) (base : Finset α) (found : List (Finset α))
    (c : ℕ) : Prop where
  minimal : ∀ u ∈ found, u ⊆ base ∧ Minimal good u
  nodup : found.Nodup
  sorted : found.Pairwise fun u v ↦ u.card ≤ v.card
  le : ∀ u ∈ found, u.card ≤ c
  covers : ∀ t ⊆ base, t.card < c → good t → ¬ Unblocked found t

theorem smallestFirst_nil (h : ¬ good ∅) : SmallestFirst good base [] 1 where
  minimal _ hu := absurd hu List.not_mem_nil
  nodup := List.nodup_nil
  sorted := List.Pairwise.nil
  le _ hu := absurd hu List.not_mem_nil
  covers t _ hcard hgood := by
    rw [Finset.card_eq_zero.mp (Nat.lt_one_iff.mp hcard)] at hgood
    exact absurd hgood h

namespace SmallestFirst

/-- When all smaller sets are covered, a set that is not is as small as can be. -/
theorem card_eq (h : SmallestFirst good base found c) (ht : t ⊆ base) (hcard : t.card ≤ c)
    (hgood : good t) (hopen : Unblocked found t) : t.card = c := by
  by_contra hne
  exact h.covers t ht (by omega) hgood hopen

theorem minimal_of_unblocked (h : SmallestFirst good base found c) (ht : t ⊆ base)
    (hcard : t.card ≤ c) (hgood : good t) (hopen : Unblocked found t) : Minimal good t := by
  refine ⟨hgood, fun s hs hst ↦ ?_⟩
  have hopen' : Unblocked found s := fun u hu hus ↦ hopen u hu (hus.trans hst)
  have hs' : s.card = c := h.card_eq (hst.trans ht) ((Finset.card_le_card hst).trans hcard) hs hopen'
  exact (Finset.eq_of_subset_of_card_le hst (by omega)).ge

theorem add (h : SmallestFirst good base found c) (ht : t ⊆ base) (hcard : t.card ≤ c)
    (hgood : good t) (hopen : Unblocked found t) : SmallestFirst good base (found ++ [t]) c where
  minimal := by
    refine List.forall_mem_append.mpr ⟨h.minimal, List.forall_mem_singleton.mpr ?_⟩
    exact ⟨ht, h.minimal_of_unblocked ht hcard hgood hopen⟩
  nodup := by
    refine List.nodup_append.mpr ⟨h.nodup, List.nodup_singleton t, fun u hu v hv huv ↦ ?_⟩
    rw [List.mem_singleton.mp hv] at huv
    exact hopen u hu huv.le
  sorted := by
    refine List.pairwise_append.mpr ⟨h.sorted, List.pairwise_singleton _ t, fun u hu v hv ↦ ?_⟩
    rw [List.mem_singleton.mp hv, h.card_eq ht hcard hgood hopen]
    exact h.le u hu
  le := List.forall_mem_append.mpr ⟨h.le, List.forall_mem_singleton.mpr hcard⟩
  covers s hs hlt hgood' hopen' := h.covers s hs hlt hgood' (unblocked_append.mp hopen').1

theorem raise (h : SmallestFirst good base found c) (hc : Covers good base found c) :
    SmallestFirst good base found (c + 1) where
  minimal := h.minimal
  nodup := h.nodup
  sorted := h.sorted
  le u hu := (h.le u hu).trans (Nat.le_succ c)
  covers s hs hlt hgood := hc s hs (Nat.lt_succ_iff.mp hlt) hgood

theorem length_le (h : SmallestFirst good base found c) : found.length ≤ 2 ^ base.card := by
  classical
  rw [← Finset.card_powerset, ← List.toFinset_card_of_nodup h.nodup]
  exact Finset.card_le_card fun u hu ↦ Finset.mem_powerset.mpr (h.minimal u (List.mem_toFinset.mp hu)).1

/-- When nothing is left, exactly the minimal sets have been found. -/
theorem complete (h : SmallestFirst good base found c)
    (hdone : ∀ t ⊆ base, good t → ¬ Unblocked found t) : Explored.Complete good base found := by
  refine ⟨h.nodup, fun t ↦ ⟨h.minimal t, fun ht ↦ ?_⟩⟩
  obtain ⟨u, hu, hut⟩ := not_unblocked.mp (hdone t ht.1 ht.2.prop)
  have heq : t = u := (ht.2.le_of_le (h.minimal u hu).2.prop hut).antisymm hut
  exact heq ▸ hu

theorem addSmallest (h : SmallestFirst good base found c) (ht : t ⊆ base) (hgood : good t)
    (hopen : Unblocked found t)
    (hleast : ∀ s ⊆ base, good s → Unblocked found s → t.card ≤ s.card) :
    SmallestFirst good base (found ++ [t]) t.card := by
  have hle : c ≤ t.card := Nat.le_of_not_lt fun hlt ↦ h.covers t ht hlt hgood hopen
  have hraised : SmallestFirst good base found t.card := by
    refine ⟨h.minimal, h.nodup, h.sorted, fun u hu ↦ (h.le u hu).trans hle, fun s hs hlt hgs hos ↦ ?_⟩
    exact Nat.not_lt.mpr (hleast s hs hgs hos) hlt
  exact hraised.add ht le_rfl hgood hopen

theorem le_card (h : SmallestFirst good base found c) (ht : t ⊆ base) (hmin : Minimal good t)
    (hno : t ∉ found) : c ≤ t.card := by
  refine Nat.le_of_not_lt fun hlt ↦ h.covers t ht hlt hmin.prop fun u hu hut ↦ hno ?_
  have heq : t = u := (hmin.le_of_le (h.minimal u hu).2.prop hut).antisymm hut
  exact heq ▸ hu

end SmallestFirst

section Sizes

open Classical in
noncomputable def minimalSizes (good : Finset α → Prop) (base : Finset α) : List ℕ :=
  ((base.powerset.filter (Minimal good)).val.map Finset.card).sort (· ≤ ·)

open Classical in
theorem SmallestFirst.sizes (h : SmallestFirst good base found c) :
    ∃ rest, minimalSizes good base = found.map Finset.card ++ rest ∧
      (rest = [] ↔ ∀ t ⊆ base, Minimal good t → t ∈ found) := by
  let all := base.powerset.filter (Minimal good)
  let left := all \ found.toFinset
  let rest := (left.val.map Finset.card).sort (· ≤ ·)
  have hmem : ∀ t, t ∈ all ↔ t ⊆ base ∧ Minimal good t := fun t ↦ by
    rw [Finset.mem_filter, Finset.mem_powerset]
  have hfound : found.toFinset ⊆ all := fun u hu ↦ (hmem u).mpr (h.minimal u (List.mem_toFinset.mp hu))
  have hrest : ∀ m ∈ rest, c ≤ m := by
    intro m hm
    obtain ⟨t, ht, rfl⟩ := Multiset.mem_map.mp ((Multiset.mem_sort _).mp hm)
    obtain ⟨hall, hno⟩ := Finset.mem_sdiff.mp ht
    obtain ⟨hsub, hmin⟩ := (hmem t).mp hall
    exact h.le_card hsub hmin fun hin ↦ hno (List.mem_toFinset.mpr hin)
  have hsorted : (found.map Finset.card ++ rest).Pairwise (· ≤ ·) := by
    refine List.pairwise_append.mpr ⟨List.pairwise_map.mpr h.sorted, Multiset.pairwise_sort _ _, ?_⟩
    intro m hm m' hm'
    obtain ⟨u, hu, rfl⟩ := List.mem_map.mp hm
    exact (h.le u hu).trans (hrest m' hm')
  have hval : (found : Multiset (Finset α)) + left.val = all.val := by
    have heq : found.toFinset.val = (found : Multiset (Finset α)) := by
      rw [List.toFinset_val, h.nodup.dedup]
    rw [← heq, Finset.sdiff_val]
    exact add_tsub_cancel_of_le (Finset.val_le_iff.mpr hfound)
  refine ⟨rest, List.Perm.eq_of_pairwise' (Multiset.pairwise_sort _ _) hsorted ?_,
    ⟨fun hnil t ht hmin ↦ ?_, fun hall ↦ ?_⟩⟩
  · rw [← Multiset.coe_eq_coe, minimalSizes, Multiset.sort_eq, ← Multiset.coe_add, Multiset.sort_eq,
      ← Multiset.map_coe, ← Multiset.map_add, hval]
  · by_contra hno
    have hin : t ∈ left := Finset.mem_sdiff.mpr ⟨(hmem t).mpr ⟨ht, hmin⟩, fun h ↦ hno (List.mem_toFinset.mp h)⟩
    have hcard : t.card ∈ rest := (Multiset.mem_sort _).mpr (Multiset.mem_map_of_mem _ hin)
    rw [hnil] at hcard
    exact List.not_mem_nil hcard
  · have hnone : left = ∅ := Finset.sdiff_eq_empty_iff_subset.mpr fun t ht ↦
      List.mem_toFinset.mpr (hall t ((hmem t).mp ht).1 ((hmem t).mp ht).2)
    have hzero : left.val = 0 := Finset.val_eq_zero.mpr hnone
    change (left.val.map Finset.card).sort (· ≤ ·) = []
    rw [hzero, Multiset.map_zero, Multiset.sort_zero]

end Sizes

section Answers

structure Enumerates (good : Finset α → Prop) (base : Finset α) (answers : List (Option (Finset α))) :
    Prop where
  each : ∀ t, some t ∈ answers → t ⊆ base ∧ Minimal good t
  once : answers.reduceOption.Nodup
  sizes : answers.map (Option.map Finset.card) =
    (List.range answers.length).map fun i ↦ (minimalSizes good base)[i]?
  all : (minimalSizes good base).length ≤ answers.length → ∀ t ⊆ base, Minimal good t → some t ∈ answers

structure Answered (good : Finset α → Prop) (base : Finset α) (found : List (Finset α))
    (answers : List (Option (Finset α))) : Prop where
  smallest : ∃ c, SmallestFirst good base found c
  eq : ∃ n, answers = found.map some ++ List.replicate n none ∧
    (n ≠ 0 → ∀ t ⊆ base, good t → ¬ Unblocked found t)

variable {answers : List (Option (Finset α))}

theorem answered_nil (h : ¬ good ∅) : Answered good base [] [] :=
  ⟨⟨1, smallestFirst_nil h⟩, 0, rfl, fun hne ↦ absurd rfl hne⟩

theorem Answered.give (h : Answered good base found answers) (ht : t ⊆ base) (hgood : good t)
    (hopen : Unblocked found t) (hleast : ∀ s ⊆ base, good s → Unblocked found s → t.card ≤ s.card) :
    Answered good base (found ++ [t]) (answers ++ [some t]) := by
  obtain ⟨⟨c, hsmallest⟩, n, heq, hdone⟩ := h
  have hn : n = 0 := not_not.mp fun hne ↦ hdone hne t ht hgood hopen
  refine ⟨⟨t.card, hsmallest.addSmallest ht hgood hopen hleast⟩, 0, ?_, fun hne ↦ absurd rfl hne⟩
  rw [heq, hn]
  simp

theorem Answered.none (h : Answered good base found answers)
    (hnone : ∀ t ⊆ base, good t → ¬ Unblocked found t) :
    Answered good base found (answers ++ [Option.none]) := by
  obtain ⟨hsmallest, n, heq, -⟩ := h
  refine ⟨hsmallest, n + 1, ?_, fun _ ↦ hnone⟩
  rw [heq, List.append_assoc, List.replicate_succ']

theorem Answered.enumerates (h : Answered good base found answers) : Enumerates good base answers := by
  obtain ⟨⟨c, hsmallest⟩, n, rfl, hdone⟩ := h
  obtain ⟨rest, hsizes, hrest⟩ := hsmallest.sizes
  have hreduce : (found.map some ++ List.replicate n Option.none).reduceOption = found := by
    simp [List.reduceOption]
  have hnil : n ≠ 0 → rest = [] := fun hne ↦ hrest.mpr fun t ht hmin ↦ by
    obtain ⟨u, hu, hut⟩ := not_unblocked.mp (hdone hne t ht hmin.prop)
    have heq : t = u := (hmin.le_of_le (hsmallest.minimal u hu).2.prop hut).antisymm hut
    exact heq ▸ hu
  refine ⟨fun t ht ↦ ?_, ?_, ?_, fun hle t ht hmin ↦ ?_⟩
  · have hin : t ∈ found := by simpa using ht
    exact hsmallest.minimal t hin
  · rw [hreduce]
    exact hsmallest.nodup
  · refine List.ext_getElem (by simp) fun i hi hi' ↦ ?_
    simp only [List.getElem_map, List.getElem_range, hsizes]
    rcases Nat.lt_or_ge i found.length with hlt | hge
    · rw [List.getElem_append_left (by simpa using hlt), List.getElem?_append_left (by simpa using hlt)]
      simp [List.getElem?_eq_getElem hlt]
    · have hne : n ≠ 0 := by
        rintro rfl
        have hlt : i < found.length := by simpa using hi
        omega
      rw [List.getElem_append_right (by simpa using hge), hnil hne, List.append_nil]
      simp [hge]
  · have hzero : rest = [] := by
      by_cases hn : n = 0
      · rw [hsizes, hn] at hle
        simpa using hle
      · exact hnil hn
    exact List.mem_append_left _ (List.mem_map_of_mem (hrest.mp hzero t ht hmin))

open Classical in
theorem Enumerates.congr {good' : Finset α → Prop} (h : Enumerates good base answers)
    (heq : ∀ t, t ⊆ base ∧ Minimal good t ↔ t ⊆ base ∧ Minimal good' t) : Enumerates good' base answers := by
  have hsizes : minimalSizes good' base = minimalSizes good base := by
    unfold minimalSizes
    congr 2
    refine congrArg Finset.val (Finset.ext fun t ↦ ?_)
    rw [Finset.mem_filter, Finset.mem_filter, Finset.mem_powerset]
    exact (heq t).symm
  refine ⟨fun t ht ↦ (heq t).mp (h.each t ht), h.once, hsizes ▸ h.sizes, fun hle t ht hmin ↦ ?_⟩
  obtain ⟨hsub, hmin'⟩ := (heq t).mpr ⟨ht, hmin⟩
  exact h.all (hsizes ▸ hle) t hsub hmin'

end Answers

end Exploration
