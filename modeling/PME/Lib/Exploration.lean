import Mathlib.Tactic

namespace Exploration

variable {α : Type*}

/-- What an exploration of the subsets of a finite set has found out about a property that
supersets inherit: minimal sets that have it, and sets that do not. -/
structure Explored (α : Type*) where
  found : List (Finset α)
  refuted : List (Finset α)

namespace Explored

def Unexplored (e : Explored α) (t : Finset α) : Prop :=
  (∀ u ∈ e.found, ¬ u ⊆ t) ∧ ∀ d ∈ e.refuted, ¬ t ⊆ d

def addFound (e : Explored α) (u : Finset α) : Explored α := { e with found := e.found ++ [u] }

def addRefuted (e : Explored α) (d : Finset α) : Explored α :=
  { e with refuted := e.refuted ++ [d] }

def nothing : Explored α := ⟨[], []⟩

structure Sound (good : Finset α → Prop) (base : Finset α) (e : Explored α) : Prop where
  found : ∀ u ∈ e.found, u ⊆ base ∧ Minimal good u
  nodup : e.found.Nodup
  refuted : ∀ d ∈ e.refuted, ¬ good d

def Complete (good : Finset α → Prop) (base : Finset α) (found : List (Finset α)) : Prop :=
  found.Nodup ∧ ∀ t, t ∈ found ↔ t ⊆ base ∧ Minimal good t

variable {good : Finset α → Prop} {base : Finset α} {e : Explored α} {s t u : Finset α}

theorem unexplored_nothing (t : Finset α) : (nothing : Explored α).Unexplored t :=
  ⟨fun _ h ↦ absurd h List.not_mem_nil, fun _ h ↦ absurd h List.not_mem_nil⟩

theorem unexplored_addFound : (e.addFound u).Unexplored t ↔ e.Unexplored t ∧ ¬ u ⊆ t := by
  unfold Unexplored addFound
  rw [List.forall_mem_append, List.forall_mem_singleton]
  exact ⟨fun h ↦ ⟨⟨h.1.1, h.2⟩, h.1.2⟩, fun h ↦ ⟨⟨h.1.1, h.2⟩, h.1.2⟩⟩

theorem unexplored_addRefuted : (e.addRefuted u).Unexplored t ↔ e.Unexplored t ∧ ¬ t ⊆ u := by
  unfold Unexplored addRefuted
  rw [List.forall_mem_append, List.forall_mem_singleton, and_assoc]

theorem sound_nothing : Sound good base nothing :=
  ⟨fun _ h ↦ absurd h List.not_mem_nil, List.nodup_nil, fun _ h ↦ absurd h List.not_mem_nil⟩

theorem Sound.unexplored_of_subset (h : Sound good base e) (hmono : Monotone good)
    (ht : e.Unexplored t) (hs : s ⊆ t) (hgood : good s) : e.Unexplored s :=
  ⟨fun u hu hus ↦ ht.1 u hu (hus.trans hs), fun d hd hsd ↦ h.refuted d hd (hmono hsd hgood)⟩

theorem Sound.unexplored_of_superset (h : Sound good base e) (hmono : Monotone good)
    (ht : e.Unexplored s) (hs : s ⊆ t) (hbad : ¬ good t) : e.Unexplored t :=
  ⟨fun u hu hut ↦ hbad (hmono hut (h.found u hu).2.prop), fun d hd htd ↦ ht.2 d hd (hs.trans htd)⟩

theorem Sound.addFound (h : Sound good base e) (ht : e.Unexplored t) (hs : s ⊆ t) (hbase : s ⊆ base)
    (hmin : Minimal good s) : Sound good base (e.addFound s) where
  found := by
    intro u hu
    cases List.mem_append.mp hu with
    | inl hu => exact h.found u hu
    | inr hu =>
      rw [List.mem_singleton.mp hu]
      exact ⟨hbase, hmin⟩
  nodup := by
    refine List.nodup_append.mpr ⟨h.nodup, List.nodup_singleton s, fun a ha b hb hab ↦ ?_⟩
    rw [List.mem_singleton.mp hb] at hab
    exact ht.1 a ha (hab ▸ hs)
  refuted := h.refuted

theorem Sound.addRefuted (h : Sound good base e) (hbad : ¬ good u) :
    Sound good base (e.addRefuted u) where
  found := h.found
  nodup := h.nodup
  refuted := by
    intro d hd
    cases List.mem_append.mp hd with
    | inl hd => exact h.refuted d hd
    | inr hd =>
      rw [List.mem_singleton.mp hd]
      exact hbad

theorem Sound.found_of_minimal (h : Sound good base e) (hmono : Monotone good)
    (hmin : Minimal good t) (hclosed : ¬ e.Unexplored t) : t ∈ e.found := by
  by_contra hnew
  refine hclosed ⟨fun u hu hut ↦ ?_, fun d hd htd ↦ h.refuted d hd (hmono htd hmin.prop)⟩
  have heq : t = u := (hmin.le_of_le (h.found u hu).2.prop hut).antisymm hut
  exact hnew (heq ▸ hu)

theorem Sound.complete (h : Sound good base e) (hmono : Monotone good)
    (hdone : ∀ t ⊆ base, ¬ e.Unexplored t) : Complete good base e.found :=
  ⟨h.nodup, fun t ↦ ⟨h.found t, fun ht ↦ h.found_of_minimal hmono ht.2 (hdone t ht.1)⟩⟩

/-- An unexplored good set that no other unexplored set undercuts is minimal. -/
theorem Sound.minimal_of_card_le (h : Sound good base e) (hmono : Monotone good)
    (ht : e.Unexplored t) (hbase : t ⊆ base) (hgood : good t)
    (hleast : ∀ s ⊆ base, e.Unexplored s → t.card ≤ s.card) : Minimal good t := by
  refine ⟨hgood, fun s hs hst ↦ ?_⟩
  have hcard := hleast s (hst.trans hbase) (h.unexplored_of_subset hmono ht hst hs)
  exact (Finset.eq_of_subset_of_card_le hst hcard).ge

theorem minimal_of_erase [DecidableEq α] (hmono : Monotone good) (hgood : good t)
    (hcrit : ∀ a ∈ t, ¬ good (t.erase a)) : Minimal good t := by
  refine ⟨hgood, fun s hs hst a ha ↦ ?_⟩
  by_contra hnot
  refine hcrit a ha (hmono (fun b hb ↦ Finset.mem_erase.mpr ⟨fun hab ↦ ?_, hst hb⟩) hs)
  exact hnot (hab ▸ hb)

theorem Complete.ne_nil {found : List (Finset α)} (h : Complete good base found)
    (hgood : good base) : found ≠ [] := by
  obtain ⟨t, hle, hmin⟩ := exists_minimal_le_of_wellFoundedLT good base hgood
  exact List.ne_nil_of_mem ((h.2 t).mpr ⟨hle, hmin⟩)

section Remaining

open Classical in
noncomputable def remaining (base : Finset α) (e : Explored α) : ℕ :=
  (base.powerset.filter e.Unexplored).card

theorem remaining_le (base : Finset α) (e : Explored α) : e.remaining base ≤ 2 ^ base.card := by
  classical
  rw [← Finset.card_powerset]
  exact Finset.card_filter_le _ _

theorem remaining_lt {e' : Explored α} (hle : ∀ s, e'.Unexplored s → e.Unexplored s)
    (hbase : t ⊆ base) (ht : e.Unexplored t) (hdone : ¬ e'.Unexplored t) :
    e'.remaining base < e.remaining base := by
  classical
  refine Finset.card_lt_card (Finset.ssubset_iff_of_subset ?_ |>.mpr ⟨t, ?_, ?_⟩)
  · exact Finset.monotone_filter_right _ fun s _ ↦ hle s
  · exact Finset.mem_filter.mpr ⟨Finset.mem_powerset.mpr hbase, ht⟩
  · exact fun hmem ↦ hdone (Finset.mem_filter.mp hmem).2

theorem remaining_addFound_lt (hs : s ⊆ t) (hbase : t ⊆ base) (ht : e.Unexplored t) :
    (e.addFound s).remaining base < e.remaining base :=
  remaining_lt (fun _ h ↦ (unexplored_addFound.mp h).1) hbase ht
    fun h ↦ (unexplored_addFound.mp h).2 hs

theorem remaining_addRefuted_lt (hs : t ⊆ s) (hbase : t ⊆ base) (ht : e.Unexplored t) :
    (e.addRefuted s).remaining base < e.remaining base :=
  remaining_lt (fun _ h ↦ (unexplored_addRefuted.mp h).1) hbase ht
    fun h ↦ (unexplored_addRefuted.mp h).2 hs

end Remaining

end Explored

end Exploration
