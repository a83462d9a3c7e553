import Mathlib.Data.List.Nodup
import Mathlib.Data.List.Perm.Basic

open List

section Greedy

variable {α : Type} [DecidableEq α] {p : List α → Prop} {keep held lits a b : List α} {lit x : α}

open Classical in
/-- Goes through these elements, and leaves out each one that need not be kept and can be missed
in what is held at its turn. -/
noncomputable def dropEach (p : List α → Prop) (keep : List α) : List α → List α → List α
  | [], held => held
  | lit :: lits, held =>
    dropEach p keep lits (if lit ∉ keep ∧ p (held.erase lit) then held.erase lit else held)

theorem dropEach_append : dropEach p keep (a ++ b) held = dropEach p keep b (dropEach p keep a held) := by
  induction a generalizing held with
  | nil => rfl
  | cons lit a ih => exact ih

theorem dropEach_of_subset (h : lits ⊆ keep) : dropEach p keep lits held = held := by
  induction lits generalizing held with
  | nil => rfl
  | cons lit lits ih =>
    obtain ⟨hlit, hrest⟩ := List.cons_subset.mp h
    rw [dropEach, if_neg fun hno ↦ hno.1 hlit]
    exact ih hrest

theorem dropEach_dropped (hlit : lit ∉ keep) (hp : p (held.erase lit)) :
    dropEach p keep (lit :: lits) held = dropEach p keep lits (held.erase lit) := by
  rw [dropEach, if_pos ⟨hlit, hp⟩]

theorem dropEach_kept (hp : ¬ p (held.erase lit)) :
    dropEach p keep (lit :: lits) held = dropEach p keep lits held := by
  rw [dropEach, if_neg fun hboth ↦ hp hboth.2]

theorem dropEach_sublist : dropEach p keep lits held <+ held := by
  induction lits generalizing held with
  | nil => exact List.Sublist.refl held
  | cons lit lits ih =>
    rw [dropEach]
    split
    · exact ih.trans List.erase_sublist
    · exact ih

theorem mem_dropEach_of_not_mem (hx : x ∉ lits) : x ∈ dropEach p keep lits held ↔ x ∈ held := by
  induction lits generalizing held with
  | nil => rfl
  | cons lit lits ih =>
    obtain ⟨hne, hrest⟩ := not_or.mp (mt List.mem_cons.mpr hx)
    rw [dropEach, ih hrest]
    split
    · exact List.mem_erase_of_ne hne
    · rfl

theorem subset_dropEach (h : keep ⊆ held) : keep ⊆ dropEach p keep lits held := by
  induction lits generalizing held with
  | nil => exact h
  | cons lit lits ih =>
    rw [dropEach]
    split
    · refine ih fun x hx ↦ (List.mem_erase_of_ne fun heq ↦ ?_).mpr (h hx)
      exact absurd (heq ▸ hx) (And.left ‹_›)
    · exact ih h

theorem dropEach_holds (h : p held) : p (dropEach p keep lits held) := by
  induction lits generalizing held with
  | nil => exact h
  | cons lit lits ih =>
    rw [dropEach]
    split
    · exact ih (And.right ‹_›)
    · exact ih h

/-- An element is still there at the end exactly when it could not be missed at its turn. -/
theorem mem_dropEach_iff (hnodup : (a ++ lit :: b).Nodup) (hlit : lit ∉ keep) (hheld : held.Nodup)
    (hmem : lit ∈ held) : lit ∈ dropEach p keep (a ++ lit :: b) held ↔
      ¬ p ((dropEach p keep a held).erase lit) := by
  obtain ⟨-, hb, hab⟩ := List.nodup_append.mp hnodup
  have hbefore : lit ∉ a := fun ha ↦ hab lit ha lit List.mem_cons_self rfl
  have hafter : lit ∉ b := (List.nodup_cons.mp hb).1
  rw [dropEach_append]
  by_cases hp : p ((dropEach p keep a held).erase lit)
  · rw [dropEach_dropped hlit hp, mem_dropEach_of_not_mem hafter]
    have hgone := (hheld.sublist dropEach_sublist).not_mem_erase (a := lit) (l := dropEach p keep a held)
    exact ⟨fun hin ↦ absurd hin hgone, fun hno ↦ absurd hp hno⟩
  · rw [dropEach_kept hp, mem_dropEach_of_not_mem hafter, mem_dropEach_of_not_mem hbefore]
    exact ⟨fun _ ↦ hp, fun _ ↦ hmem⟩

end Greedy
