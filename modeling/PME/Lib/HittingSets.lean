import PME.Lib.SmallestFirst

namespace HittingSets

open Exploration

variable {α : Type*} {sets sets' left blocked : List (Finset α)} {s t u base : Finset α}
  {P Q : Finset α → Prop}

def Hits (sets : List (Finset α)) (t : Finset α) : Prop := ∀ s ∈ sets, ∃ a ∈ s, a ∈ t

def Admissible (sets blocked : List (Finset α)) (t : Finset α) : Prop :=
  Hits sets t ∧ Unblocked blocked t

theorem hits_snoc : Hits (sets ++ [s]) t ↔ Hits sets t ∧ ∃ a ∈ s, a ∈ t := by
  unfold Hits
  rw [List.forall_mem_append, List.forall_mem_singleton]

theorem unblocked_snoc : Unblocked (blocked ++ [u]) t ↔ Unblocked blocked t ∧ ¬ u ⊆ t := by
  rw [unblocked_append, Unblocked, Unblocked, List.forall_mem_singleton]

structure Reduced (sets left : List (Finset α)) : Prop where
  subset : left ⊆ sets
  covers : ∀ s ∈ sets, ∃ t ∈ left, t ⊆ s

theorem Reduced.hits_iff (h : Reduced sets left) : Hits sets t ↔ Hits left t := by
  constructor
  · intro ht s hs
    exact ht s (h.subset hs)
  · intro ht s hs
    obtain ⟨s', hs', hsub⟩ := h.covers s hs
    obtain ⟨a, ha, hat⟩ := ht s' hs'
    exact ⟨a, hsub ha, hat⟩

theorem reduced_nil : Reduced ([] : List (Finset α)) [] :=
  ⟨List.Subset.refl _, fun _ hs ↦ absurd hs List.not_mem_nil⟩

/-- A superset of what is left may be ignored, also once its own supersets are gone. -/
theorem Reduced.ignore (h : Reduced sets left) (hsub : sets' ⊆ left)
    (hdrop : ∀ t ∈ left, t ∈ sets' ∨ s ⊆ t) (hs : ∃ t ∈ sets', t ⊆ s) :
    Reduced (sets ++ [s]) sets' := by
  refine ⟨fun t ht ↦ List.mem_append_left _ (h.subset (hsub ht)), ?_⟩
  refine List.forall_mem_append.mpr ⟨fun u hu ↦ ?_, List.forall_mem_singleton.mpr hs⟩
  obtain ⟨t, ht, htu⟩ := h.covers u hu
  cases hdrop t ht with
  | inl hkept => exact ⟨t, hkept, htu⟩
  | inr hst =>
    obtain ⟨t', ht', hts⟩ := hs
    exact ⟨t', ht', (hts.trans hst).trans htu⟩

theorem Reduced.insert (h : Reduced sets left) (hsub : sets' ⊆ left)
    (hdrop : ∀ t ∈ left, t ∈ sets' ∨ s ⊆ t) : Reduced (sets ++ [s]) (sets' ++ [s]) := by
  have hmem : s ∈ sets' ++ [s] := List.mem_append_right _ (List.mem_singleton_self s)
  refine ⟨List.append_subset.mpr ⟨fun t ht ↦ List.mem_append_left _ (h.subset (hsub ht)),
    List.subset_append_right _ _⟩, ?_⟩
  refine List.forall_mem_append.mpr ⟨fun u hu ↦ ?_,
    List.forall_mem_singleton.mpr ⟨s, hmem, Finset.Subset.refl s⟩⟩
  obtain ⟨t, ht, htu⟩ := h.covers u hu
  cases hdrop t ht with
  | inl hkept => exact ⟨t, List.mem_append_left _ hkept, htu⟩
  | inr hst => exact ⟨s, hmem, hst.trans htu⟩

theorem Admissible.inter [DecidableEq α] (h : Admissible sets blocked t)
    (hbase : ∀ s ∈ sets, s ⊆ base) : Admissible sets blocked (t ∩ base) := by
  refine ⟨fun s hs ↦ ?_, fun u hu hsub ↦ h.2 u hu (hsub.trans Finset.inter_subset_left)⟩
  obtain ⟨a, ha, hat⟩ := h.1 s hs
  exact ⟨a, ha, Finset.mem_inter.mpr ⟨hat, hbase s hs ha⟩⟩

theorem Reduced.admissible_iff (h : Reduced sets left) :
    Admissible sets blocked t ↔ Admissible left blocked t := and_congr_left fun _ ↦ h.hits_iff

def IsMinimum (P : Finset α → Prop) (t : Finset α) : Prop := P t ∧ ∀ u, P u → t.card ≤ u.card

theorem IsMinimum.congr (h : IsMinimum P t) (hPQ : ∀ u, P u ↔ Q u) : IsMinimum Q t :=
  ⟨(hPQ t).mp h.1, fun u hu ↦ h.2 u ((hPQ u).mpr hu)⟩

theorem IsMinimum.card_eq (h : IsMinimum P t) (h' : IsMinimum P u) : t.card = u.card :=
  (h.2 u h'.1).antisymm (h'.2 t h.1)

end HittingSets
