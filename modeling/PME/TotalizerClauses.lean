import PME.Totalizer
import Mathlib.Data.List.Permutation

namespace PME

open Outcome Unary

namespace TotalizerTree

variable {σ τ : Assignment} {a b r : List ℕ} {cardinality i i' j j' : ℕ}
  {t left right : TotalizerTree} {outputs : List ℕ} {dirty : Finset ℕ} {cls cls' : Clause}

/-- What keeps the clauses of a node apart: its outputs are new variables, and neither side's
outputs repeat or are among the other's. -/
structure Apart (a b r : List ℕ) : Prop where
  fresh : ∀ y ∈ r, minId ≤ y ∧ y % 2 = 0
  nodup : r.Nodup
  nodupLeft : a.Nodup
  nodupRight : b.Nodup
  disjoint : a.Disjoint b
  left : ∀ x ∈ a, strip x ∉ r
  right : ∀ x ∈ b, strip x ∉ r

theorem Apart.minId_le (h : Apart a b r) : ∀ y ∈ r, minId ≤ y := fun y hy ↦ (h.fresh y hy).1

theorem Apart.strip_eq (h : Apart a b r) {y : ℕ} (hy : y ∈ r) : strip y = y :=
  strip_of_even (h.fresh y hy).2

theorem Apart.idFalse_not_mem (h : Apart a b r) : idFalse ∉ r := by
  intro hmem
  have hge := h.minId_le _ hmem
  simp only [idFalse, minId_eq] at hge
  omega

theorem strip_entry_not_mem (h : Apart a b r) {l : List ℕ} (hl : ∀ x ∈ l, strip x ∉ r)
    (hi : i ≤ l.length) : strip (entry l i) ∉ r := by
  obtain ⟨rfl, he⟩ | ⟨-, he⟩ := entry_of_le hi
  · rw [he, strip_idTrue]
    exact h.idFalse_not_mem
  · exact hl _ he

theorem strip_entry_succ_not_mem (h : Apart a b r) {l : List ℕ} (hl : ∀ x ∈ l, strip x ∉ r)
    (hi : i ≤ l.length) : strip (entry l (i + 1)) ∉ r := by
  obtain ⟨rfl, he⟩ | ⟨-, he⟩ := entry_succ_of_le hi
  · rw [he, strip_of_even rfl]
    exact h.idFalse_not_mem
  · exact hl _ he

theorem entry_mem {l : List ℕ} (hpos : 0 < i) (hi : i ≤ l.length) : entry l i ∈ l := by
  obtain ⟨rfl, -⟩ | ⟨-, he⟩ := entry_of_le hi
  · exact absurd hpos (lt_irrefl 0)
  · exact he

theorem entry_inj {l : List ℕ} (hl : l.Nodup) (hi : i ≤ l.length) (hj : j ≤ l.length)
    (he : entry l i = entry l j) : i = j ∨ entry l i = idTrue ∧ idTrue ∈ l := by
  cases i with
  | zero =>
    cases j with
    | zero => exact .inl rfl
    | succ j =>
      have hmem := entry_mem j.succ_pos hj
      rw [← he] at hmem
      exact .inr ⟨rfl, hmem⟩
  | succ i =>
    cases j with
    | zero =>
      have hmem := entry_mem i.succ_pos hi
      rw [he] at hmem
      exact .inr ⟨he, hmem⟩
    | succ j =>
      rw [entry_succ hi, entry_succ hj] at he
      exact .inl (congrArg (· + 1) (hl.getElem_inj_iff.mp he))

theorem entry_succ_inj {l : List ℕ} (hl : l.Nodup) (hi : i ≤ l.length) (hj : j ≤ l.length)
    (he : entry l (i + 1) = entry l (j + 1)) :
    i = j ∨ entry l (i + 1) = idFalse ∧ idFalse ∈ l := by
  obtain ⟨rfl, hi'⟩ | ⟨hi', hmem⟩ := entry_succ_of_le hi
  · obtain ⟨rfl, hj'⟩ | ⟨hj', hmem'⟩ := entry_succ_of_le hj
    · exact .inl rfl
    · rw [← he, hi'] at hmem'
      exact .inr ⟨hi', hmem'⟩
  · obtain ⟨rfl, hj'⟩ | ⟨hj', hmem'⟩ := entry_succ_of_le hj
    · rw [he, hj'] at hmem
      exact .inr ⟨he.trans hj', hmem⟩
    · rw [entry_succ hi', entry_succ hj'] at he
      exact .inl (hl.getElem_inj_iff.mp he)

/-- Two bits of a sum are known from the pair of literals that stands for them, for the
constant `c` may be an input of one side only. -/
theorem index_eq {c : ℕ} {f g : ℕ → ℕ} (hdis : a.Disjoint b)
    (hf : ∀ i ≤ a.length, f i = c ∨ f i ∈ a) (hg : ∀ j ≤ b.length, g j = c ∨ g j ∈ b)
    (hfinj : ∀ i ≤ a.length, ∀ i' ≤ a.length, f i = f i' → i = i' ∨ f i = c ∧ c ∈ a)
    (hginj : ∀ j ≤ b.length, ∀ j' ≤ b.length, g j = g j' → j = j' ∨ g j = c ∧ c ∈ b)
    (hi : i ≤ a.length) (hi' : i' ≤ a.length) (hj : j ≤ b.length) (hj' : j' ≤ b.length)
    (hsum : i + j = i' + j') (hperm : [f i, g j].Perm [f i', g j']) : i = i' ∧ j = j' := by
  have hboth : ¬ (c ∈ a ∧ c ∈ b) := fun h ↦ hdis h.1 h.2
  have hshared : ∀ x ≤ a.length, ∀ y ≤ b.length, f x = g y → f x = c := by
    intro x hx y hy he
    cases hf x hx with
    | inl hc => exact hc
    | inr hmem =>
      cases hg y hy with
      | inl hc => exact he.trans hc
      | inr hmem' => exact absurd (he ▸ hmem') (hdis hmem)
  have hsame : f i = f i' → g j = g j' → i = i' ∧ j = j' := by
    intro hfe hge
    cases hfinj i hi i' hi' hfe with
    | inl heq => exact ⟨heq, by omega⟩
    | inr ha =>
      cases hginj j hj j' hj' hge with
      | inl heq => exact ⟨by omega, heq⟩
      | inr hb => exact absurd ⟨ha.2, hb.2⟩ hboth
  cases List.pair_perm.mp hperm with
  | inl heq =>
    obtain ⟨hfe, hge⟩ := List.cons_eq_cons.mp heq
    exact hsame hfe.symm (List.cons_eq_cons.mp hge).1.symm
  | inr heq =>
    obtain ⟨hfe, hge⟩ := List.cons_eq_cons.mp heq
    have hge := (List.cons_eq_cons.mp hge).1
    have hc := hshared i hi j' hj' hge.symm
    have hc' := hshared i' hi' j hj hfe
    exact hsame (hc.trans hc'.symm) (hfe.symm.trans (hc'.trans (hc.symm.trans hge.symm)))

/-- The only output of the node in a clause of the `≥` constraint. -/
theorem Apart.mem_lower (h : Apart a b r) (hi : i ≤ a.length) (hj : j ≤ b.length) {lit : ℕ}
    (hl : lit ∈ lower a b r i j) (hr : strip lit ∈ r) : lit = entry r (i + j) := by
  simp only [lower, List.mem_cons, List.not_mem_nil, or_false] at hl
  obtain rfl | rfl | rfl := hl
  · rw [strip_negate] at hr
    exact absurd hr (strip_entry_not_mem h h.left hi)
  · rw [strip_negate] at hr
    exact absurd hr (strip_entry_not_mem h h.right hj)
  · rfl

theorem Apart.mem_upper (h : Apart a b r) (hi : i ≤ a.length) (hj : j ≤ b.length) {lit : ℕ}
    (hl : lit ∈ upper a b r i j) (hr : strip lit ∈ r) : lit = negate (entry r (i + j + 1)) := by
  simp only [upper, List.mem_cons, List.not_mem_nil, or_false] at hl
  obtain rfl | rfl | rfl := hl
  · exact absurd hr (strip_entry_succ_not_mem h h.left hi)
  · exact absurd hr (strip_entry_succ_not_mem h h.right hj)
  · rfl

theorem Apart.entry_mem (h : Apart a b r) {m : ℕ} (hpos : 0 < m) (hm : m ≤ r.length) :
    entry r m ∈ r ∧ strip (entry r m) = entry r m := by
  have hmem := TotalizerTree.entry_mem hpos hm
  exact ⟨hmem, h.strip_eq hmem⟩

theorem Apart.index_inj (h : Apart a b r) {m m' : ℕ} (hm : m ≤ r.length)
    (hm' : m' ≤ r.length) (he : entry r m = entry r m') : m = m' := by
  cases entry_inj h.nodup hm hm' he with
  | inl heq => exact heq
  | inr hT =>
    have hge := h.minId_le _ hT.2
    simp only [idTrue_eq, minId_eq] at hge
    omega

theorem Apart.lower_perm (h : Apart a b r) (hi : i ≤ a.length) (hi' : i' ≤ a.length)
    (hj : j ≤ b.length) (hj' : j' ≤ b.length) (hpos : 0 < i' + j') (hk : i + j ≤ r.length)
    (hk' : i' + j' ≤ r.length) (hperm : (lower a b r i j).Perm (lower a b r i' j')) :
    i = i' ∧ j = j' := by
  obtain ⟨hmem, hstrip⟩ := h.entry_mem hpos hk'
  have hin : entry r (i' + j') ∈ lower a b r i j := hperm.symm.subset (by simp [lower])
  have he := h.mem_lower hi hj hin (hstrip.symm ▸ hmem)
  have hsum := h.index_inj hk' hk he
  have hpair : [negate (entry a i), negate (entry b j)].Perm
      [negate (entry a i'), negate (entry b j')] := by
    apply (List.perm_append_right_iff [entry r (i + j)]).mp
    simpa only [lower, hsum, List.cons_append, List.nil_append] using hperm
  have hpair : [entry a i, entry b j].Perm [entry a i', entry b j'] :=
    (List.map_perm_map_iff negate_injective).mp hpair
  exact index_eq h.disjoint (fun i hi ↦ (entry_of_le hi).imp And.right And.right)
    (fun j hj ↦ (entry_of_le hj).imp And.right And.right)
    (fun i hi i' hi' he ↦ entry_inj h.nodupLeft hi hi' he)
    (fun j hj j' hj' he ↦ entry_inj h.nodupRight hj hj' he) hi hi' hj hj' hsum.symm hpair

theorem Apart.upper_perm (h : Apart a b r) (hi : i ≤ a.length) (hi' : i' ≤ a.length)
    (hj : j ≤ b.length) (hj' : j' ≤ b.length) (hk : i + j + 1 ≤ r.length)
    (hk' : i' + j' + 1 ≤ r.length) (hperm : (upper a b r i j).Perm (upper a b r i' j')) :
    i = i' ∧ j = j' := by
  obtain ⟨hmem, hstrip⟩ := h.entry_mem (i' + j').succ_pos hk'
  have hin : negate (entry r (i' + j' + 1)) ∈ upper a b r i j :=
    hperm.symm.subset (by simp [upper])
  have he := h.mem_upper hi hj hin (by rwa [strip_negate, hstrip])
  have he := negate_injective he
  have hsum := h.index_inj hk' hk he
  have hpair : [entry a (i + 1), entry b (j + 1)].Perm [entry a (i' + 1), entry b (j' + 1)] := by
    apply (List.perm_append_right_iff [negate (entry r (i + j + 1))]).mp
    simpa only [upper, he, List.cons_append, List.nil_append] using hperm
  exact index_eq h.disjoint (fun i hi ↦ (entry_succ_of_le hi).imp And.right And.right)
    (fun j hj ↦ (entry_succ_of_le hj).imp And.right And.right)
    (fun i hi i' hi' he ↦ entry_succ_inj h.nodupLeft hi hi' he)
    (fun j hj j' hj' he ↦ entry_succ_inj h.nodupRight hj hj' he) hi hi' hj hj' (by omega) hpair

theorem Apart.not_perm (h : Apart a b r) (hi' : i' ≤ a.length) (hj' : j' ≤ b.length)
    (hpos : 0 < i + j) (hk : i + j ≤ r.length) (hk' : i' + j' + 1 ≤ r.length) :
    ¬ (lower a b r i j).Perm (upper a b r i' j') := by
  intro hperm
  obtain ⟨hmem, hstrip⟩ := h.entry_mem hpos hk
  have hin : entry r (i + j) ∈ upper a b r i' j' := hperm.subset (by simp [lower])
  have he := h.mem_upper hi' hj' hin (hstrip.symm ▸ hmem)
  have hneg := congrArg isNegated he
  have heven := (h.fresh _ hmem).2
  have heven' := (h.fresh _ (h.entry_mem (i' + j').succ_pos hk').1).2
  rw [isNegated_negate, (isNegated_eq_false _).mpr heven, (isNegated_eq_false _).mpr heven'] at hneg
  exact Bool.false_ne_true hneg

theorem Apart.pairClauses_perm (h : Apart a b r) (hi : i ≤ a.length) (hi' : i' ≤ a.length)
    (hj : j ≤ b.length) (hj' : j' ≤ b.length)
    (hc : cls ∈ pairClauses (withConstants a) (withConstants b) (withConstants r) i j)
    (hc' : cls' ∈ pairClauses (withConstants a) (withConstants b) (withConstants r) i' j')
    (hperm : cls.Perm cls') : i = i' ∧ j = j' := by
  obtain ⟨hpos, hk, rfl, -⟩ | ⟨hk, rfl, -⟩ := (mem_pairClauses h.minId_le).mp hc
  · obtain ⟨hpos', hk', rfl, -⟩ | ⟨hk', rfl, -⟩ := (mem_pairClauses h.minId_le).mp hc'
    · exact h.lower_perm hi hi' hj hj' hpos' hk hk' hperm
    · exact absurd hperm (h.not_perm hi' hj' hpos hk hk')
  · obtain ⟨hpos', hk', rfl, -⟩ | ⟨hk', rfl, -⟩ := (mem_pairClauses h.minId_le).mp hc'
    · exact absurd hperm.symm (h.not_perm hi hj hpos' hk' hk)
    · exact h.upper_perm hi hi' hj hj' hk hk' hperm

theorem Apart.pairClauses_pairwise (h : Apart a b r) (hi : i ≤ a.length) (hj : j ≤ b.length) :
    (pairClauses (withConstants a) (withConstants b) (withConstants r) i j).Pairwise
      fun cls cls' ↦ ¬ cls.Perm cls' := by
  unfold pairClauses
  dsimp only
  split
  · exact .nil
  · have hk : i + j ≤ r.length := by
      rw [length_withConstants] at *
      omega
    rw [List.pairwise_append]
    refine ⟨by split <;> simp, by split <;> simp, fun cls hc cls' hc' hperm ↦ ?_⟩
    rw [mem_ite_singleton] at hc hc'
    obtain ⟨⟨-, -, hT⟩, rfl⟩ := hc
    obtain ⟨⟨-, -, hF⟩, rfl⟩ := hc'
    have hpos := (entry_ne_idTrue h.minId_le hk).mp hT
    have hk' := (entry_ne_idFalse h.minId_le hk).mp hF
    exact h.not_perm hi hj hpos hk hk' hperm

/-- No two clauses of a node are the same, even up to the order of their literals. -/
theorem Apart.nodeClauses_pairwise (h : Apart a b r) :
    (nodeClauses a b r).Pairwise fun cls cls' ↦ ¬ cls.Perm cls' := by
  simp only [nodeClauses, length_withConstants, List.pairwise_flatMap, List.mem_range,
    List.mem_flatMap]
  refine ⟨fun i hi ↦ ⟨fun j hj ↦ h.pairClauses_pairwise (by omega) (by omega), ?_⟩, ?_⟩
  · refine List.pairwise_lt_range.imp_of_mem fun {j j'} hj hj' hlt cls hc cls' hc' hperm ↦ ?_
    rw [List.mem_range] at hj hj'
    have heq := h.pairClauses_perm (by omega) (by omega) (by omega) (by omega) hc hc' hperm
    omega
  · refine List.pairwise_lt_range.imp_of_mem fun {i i'} hi hi' hlt cls hc cls' hc' hperm ↦ ?_
    rw [List.mem_range] at hi hi'
    obtain ⟨j, hj, hc⟩ := hc
    obtain ⟨j', hj', hc'⟩ := hc'
    have heq := h.pairClauses_perm (by omega) (by omega) (by omega) (by omega) hc hc' hperm
    omega

theorem mem_outputs {y : ℕ} (hy : y ∈ t.outputs) : y ∈ t.leaves ∨ y ∈ t.made := by
  cases t with
  | leaf input => exact .inl hy
  | node left right outputs dirty => exact .inr (List.mem_append_right _ hy)

namespace Proper

theorem strip_eq (h : t.Proper) {v : ℕ} (hv : v ∈ t.made) : strip v = v :=
  strip_of_even (h.fresh v hv).2

theorem ofLeft (h : (node left right outputs dirty).Proper) : left.Proper where
  leaves := (List.nodup_append.mp h.leaves).1
  made := (List.nodup_append.mp (List.nodup_append.mp h.made).1).1
  fresh v hv := h.fresh v (List.mem_append_left _ (List.mem_append_left _ hv))
  apart x hx hmem := h.apart x (List.mem_append_left _ hx)
    (List.mem_append_left _ (List.mem_append_left _ hmem))

theorem ofRight (h : (node left right outputs dirty).Proper) : right.Proper where
  leaves := (List.nodup_append.mp h.leaves).2.1
  made := (List.nodup_append.mp (List.nodup_append.mp h.made).1).2.1
  fresh v hv := h.fresh v (List.mem_append_left _ (List.mem_append_right _ hv))
  apart x hx hmem := h.apart x (List.mem_append_right _ hx)
    (List.mem_append_left _ (List.mem_append_right _ hmem))

theorem outputs_nodup (h : t.Proper) : t.outputs.Nodup := by
  cases t with
  | leaf input => exact List.nodup_singleton input
  | node left right outputs dirty => exact (List.nodup_append.mp h.made).2.1

theorem idFalse_not_mem (h : t.Proper) : idFalse ∉ t.made := by
  intro hmem
  have hge := (h.fresh _ hmem).1
  simp only [idFalse, minId_eq] at hge
  omega

theorem disjoint_made (h : (node left right outputs dirty).Proper) :
    left.made.Disjoint right.made := by
  intro v hl hr
  exact (List.nodup_append.mp (List.nodup_append.mp h.made).1).2.2 v hl v hr rfl

theorem not_mem_outputs (h : (node left right outputs dirty).Proper) {v : ℕ}
    (hv : v ∈ left.made ∨ v ∈ right.made) : v ∉ outputs := by
  intro hmem
  exact (List.nodup_append.mp h.made).2.2 v (List.mem_append.mpr hv) v hmem rfl

/-- What one side counts, whether inputs or made variables, is apart from what the other does. -/
theorem disjoint_outputs (h : (node left right outputs dirty).Proper) :
    left.outputs.Disjoint right.outputs := by
  intro y hl hr
  have hapart : ∀ x ∈ left.leaves ++ right.leaves, x ∈ left.made ∨ x ∈ right.made → False := by
    intro x hx hmade
    have hmem : x ∈ (node left right outputs dirty).made :=
      List.mem_append_left _ (List.mem_append.mpr hmade)
    exact h.apart x hx ((h.strip_eq hmem).symm ▸ hmem)
  cases mem_outputs hl with
  | inl hl =>
    cases mem_outputs hr with
    | inl hr => exact (List.nodup_append.mp h.leaves).2.2 y hl y hr rfl
    | inr hr => exact hapart y (List.mem_append_left _ hl) (.inr hr)
  | inr hl =>
    cases mem_outputs hr with
    | inl hr => exact hapart y (List.mem_append_right _ hr) (.inl hl)
    | inr hr => exact h.disjoint_made hl hr

theorem apart_node (h : (node left right outputs dirty).Proper) :
    Apart left.outputs right.outputs outputs where
  fresh y hy := h.fresh y (List.mem_append_right _ hy)
  nodup := h.outputs_nodup
  nodupLeft := h.ofLeft.outputs_nodup
  nodupRight := h.ofRight.outputs_nodup
  disjoint := h.disjoint_outputs
  left := by
    intro x hx hmem
    cases mem_outputs hx with
    | inl hx => exact h.apart x (List.mem_append_left _ hx) (List.mem_append_right _ hmem)
    | inr hx => exact h.not_mem_outputs (.inl hx) (h.ofLeft.strip_eq hx ▸ hmem)
  right := by
    intro x hx hmem
    cases mem_outputs hx with
    | inl hx => exact h.apart x (List.mem_append_right _ hx) (List.mem_append_right _ hmem)
    | inr hx => exact h.not_mem_outputs (.inr hx) (h.ofRight.strip_eq hx ▸ hmem)

end Proper

/-- A clause of a node is over the constants, the outputs of the children and its own. -/
theorem mem_of_nodeClauses (h : Apart a b r) (hc : cls ∈ nodeClauses a b r) :
    (∀ lit ∈ cls, strip lit = idFalse ∨ (∃ y ∈ a ++ b, strip y = strip lit) ∨ strip lit ∈ r) ∧
      ∃ lit ∈ cls, strip lit ∈ r := by
  have hlow : ∀ {l : List ℕ} {i : ℕ}, i ≤ l.length → l ⊆ a ++ b →
      strip (entry l i) = idFalse ∨ (∃ y ∈ a ++ b, strip y = strip (entry l i)) := by
    intro l i hi hl
    obtain ⟨-, he⟩ | ⟨-, he⟩ := entry_of_le hi
    · exact .inl (he ▸ strip_idTrue)
    · exact .inr ⟨_, hl he, rfl⟩
  have hup : ∀ {l : List ℕ} {i : ℕ}, i ≤ l.length → l ⊆ a ++ b →
      strip (entry l (i + 1)) = idFalse ∨ (∃ y ∈ a ++ b, strip y = strip (entry l (i + 1))) := by
    intro l i hi hl
    obtain ⟨-, he⟩ | ⟨-, he⟩ := entry_succ_of_le hi
    · rw [he]
      exact .inl (strip_of_even rfl)
    · exact .inr ⟨_, hl he, rfl⟩
  have hsub : a ⊆ a ++ b := List.subset_append_left a b
  have hsub' : b ⊆ a ++ b := List.subset_append_right a b
  obtain ⟨i, hi, j, hj, ⟨hpos, hk, rfl, -⟩ | ⟨hk, rfl, -⟩⟩ := (mem_nodeClauses h.minId_le).mp hc
  · obtain ⟨hmem, hstrip⟩ := h.entry_mem hpos hk
    refine ⟨fun lit hl ↦ ?_, _, by simp [lower], hstrip.symm ▸ hmem⟩
    simp only [lower, List.mem_cons, List.not_mem_nil, or_false] at hl
    obtain rfl | rfl | rfl := hl
    · rw [strip_negate]
      exact (hlow hi hsub).imp_right .inl
    · rw [strip_negate]
      exact (hlow hj hsub').imp_right .inl
    · exact .inr (.inr (hstrip.symm ▸ hmem))
  · obtain ⟨hmem, hstrip⟩ := h.entry_mem (i + j).succ_pos hk
    have hneg : strip (negate (entry r (i + j + 1))) ∈ r := by
      rw [strip_negate, hstrip]
      exact hmem
    refine ⟨fun lit hl ↦ ?_, _, by simp [upper], hneg⟩
    simp only [upper, List.mem_cons, List.not_mem_nil, or_false] at hl
    obtain rfl | rfl | rfl := hl
    · exact (hup hi hsub).imp_right .inl
    · exact (hup hj hsub').imp_right .inl
    · exact .inr (.inr hneg)

/-- The clauses of a tree are over its inputs and its own variables, one of which is in each. -/
theorem mem_of_fullCNF (h : t.Proper) (hc : cls ∈ t.fullCNF) :
    (∀ lit ∈ cls, strip lit = idFalse ∨ (∃ x ∈ t.leaves, strip x = strip lit) ∨
      strip lit ∈ t.made) ∧ ∃ lit ∈ cls, strip lit ∈ t.made := by
  induction t with
  | leaf input => exact absurd hc List.not_mem_nil
  | node left right outputs dirty ihl ihr =>
    simp only [fullCNF, List.mem_append] at hc
    simp only [TotalizerTree.leaves, TotalizerTree.made, List.mem_append]
    obtain (hc | hc) | hc := hc
    · obtain ⟨hall, lit, hl, hmem⟩ := ihl h.ofLeft hc
      refine ⟨fun lit hl ↦ (hall lit hl).imp_right ?_, lit, hl, .inl (.inl hmem)⟩
      exact Or.imp (Exists.imp fun x ↦ And.imp_left .inl) (fun hm ↦ .inl (.inl hm))
    · obtain ⟨hall, lit, hl, hmem⟩ := ihr h.ofRight hc
      refine ⟨fun lit hl ↦ (hall lit hl).imp_right ?_, lit, hl, .inl (.inr hmem)⟩
      exact Or.imp (Exists.imp fun x ↦ And.imp_left .inr) (fun hm ↦ .inl (.inr hm))
    · obtain ⟨hall, lit, hl, hmem⟩ := mem_of_nodeClauses h.apart_node hc
      refine ⟨fun lit hl ↦ (hall lit hl).imp_right ?_, lit, hl, .inr hmem⟩
      rintro (⟨y, hy, he⟩ | hm)
      · rw [List.mem_append] at hy
        rw [← he]
        obtain hy | hy := hy
        · cases mem_outputs hy with
          | inl hx => exact .inl ⟨y, .inl hx, rfl⟩
          | inr hm => exact .inr (.inl (.inl ((h.ofLeft.strip_eq hm).symm ▸ hm)))
        · cases mem_outputs hy with
          | inl hx => exact .inl ⟨y, .inr hx, rfl⟩
          | inr hm => exact .inr (.inl (.inr ((h.ofRight.strip_eq hm).symm ▸ hm)))
      · exact .inr (.inr hm)

/-- No two clauses of a tree are the same, even up to the order of their literals. -/
theorem fullCNF_pairwise (h : t.Proper) : t.fullCNF.Pairwise fun cls cls' ↦ ¬ cls.Perm cls' := by
  induction t with
  | leaf input => exact .nil
  | node left right outputs dirty ihl ihr =>
    have hleft : ∀ v ∈ left.made, ∀ cls ∈ right.fullCNF, ∀ lit ∈ cls, strip lit ≠ v := by
      intro v hv cls hc lit hl he
      obtain hF | ⟨x, hx, hs⟩ | hm := (mem_of_fullCNF h.ofRight hc).1 lit hl
      · exact h.ofLeft.idFalse_not_mem (hF ▸ he ▸ hv)
      · exact h.apart x (List.mem_append_right _ hx)
          (List.mem_append_left _ (List.mem_append_left _ (hs.trans he ▸ hv)))
      · exact h.disjoint_made hv (he ▸ hm)
    have hnode : ∀ v ∈ outputs, ∀ cls ∈ left.fullCNF ++ right.fullCNF, ∀ lit ∈ cls,
        strip lit ≠ v := by
      intro v hv cls hc lit hl he
      subst he
      have hmade : strip lit ∈ (node left right outputs dirty).made :=
        List.mem_append_right _ hv
      cases List.mem_append.mp hc with
      | inl hc =>
        obtain hF | ⟨x, hx, hs⟩ | hm := (mem_of_fullCNF h.ofLeft hc).1 lit hl
        · exact h.idFalse_not_mem (hF ▸ hmade)
        · exact h.apart x (List.mem_append_left _ hx) (hs ▸ hmade)
        · exact h.not_mem_outputs (.inl hm) hv
      | inr hc =>
        obtain hF | ⟨x, hx, hs⟩ | hm := (mem_of_fullCNF h.ofRight hc).1 lit hl
        · exact h.idFalse_not_mem (hF ▸ hmade)
        · exact h.apart x (List.mem_append_right _ hx) (hs ▸ hmade)
        · exact h.not_mem_outputs (.inr hm) hv
    simp only [fullCNF]
    rw [List.pairwise_append, List.pairwise_append]
    refine ⟨⟨ihl h.ofLeft, ihr h.ofRight, ?_⟩, h.apart_node.nodeClauses_pairwise, ?_⟩
    · intro cls hc cls' hc' hperm
      obtain ⟨lit, hl, hm⟩ := (mem_of_fullCNF h.ofLeft hc).2
      exact hleft _ hm cls' hc' lit (hperm.subset hl) rfl
    · intro cls hc cls' hc' hperm
      obtain ⟨lit, hl, hm⟩ := (mem_of_nodeClauses h.apart_node hc').2
      exact hnode _ hm cls hc lit (hperm.symm.subset hl) rfl

/-- An assignment of the inputs, or of anything but the variables made for the tree, extends to
a model. -/
theorem fullCNF_extension (h : t.Proper) (hf : t.Filled cardinality) (hσ : σ idFalse = false) :
    ∃ τ : Assignment, (∀ v, v ∉ t.made → τ v = σ v) ∧ satClauses τ t.fullCNF := by
  induction t generalizing σ with
  | leaf input => exact ⟨σ, fun _ _ ↦ rfl, satClauses_nil⟩
  | node left right outputs dirty ihl ihr =>
    obtain ⟨τ₁, hτ₁, hsat₁⟩ := ihl h.ofLeft hf.1 hσ
    have hF₁ : τ₁ idFalse = false := (hτ₁ _ h.ofLeft.idFalse_not_mem).trans hσ
    obtain ⟨τ₂, hτ₂, hsat₂⟩ := ihr h.ofRight hf.2.1 hF₁
    let p := trueCount σ (node left right outputs dirty).leaves
    let τ : Assignment := fun v ↦ if v ∈ outputs then decide (outputs.idxOf v < p) else τ₂ v
    have hτ : ∀ v, v ∉ outputs → τ v = τ₂ v := fun v hv ↦ if_neg hv
    have hall : ∀ v, v ∉ (node left right outputs dirty).made → τ v = σ v := by
      intro v hv
      simp only [TotalizerTree.made, List.mem_append, not_or] at hv
      rw [hτ v hv.2, hτ₂ v hv.1.2, hτ₁ v hv.1.1]
    have hF : τ idFalse = false := (hall _ h.idFalse_not_mem).trans hσ
    have hcount : ∀ l, l ⊆ (node left right outputs dirty).leaves →
        trueCount τ l = trueCount σ l := fun l hl ↦
      trueCount_congr fun x hx ↦ hall _ (h.apart x (hl hx))
    have hleaves : left.leaves ⊆ (node left right outputs dirty).leaves :=
      List.subset_append_left _ _
    have hleaves' : right.leaves ⊆ (node left right outputs dirty).leaves :=
      List.subset_append_right _ _
    have hsatl : satClauses τ left.fullCNF := by
      refine (satClauses_congr fun v hv ↦ ?_).mpr hsat₁
      obtain ⟨cls, hc, lit, hl, rfl⟩ := hv
      obtain he | ⟨x, hx, hs⟩ | hm := (mem_of_fullCNF h.ofLeft hc).1 lit hl
      · rw [he, hF, hF₁]
      · have hx' := h.apart x (hleaves hx)
        rw [← hs, hall _ hx', hτ₁ _ fun hm ↦ hx' (List.mem_append_left _ (List.mem_append_left _ hm))]
      · rw [hτ _ (h.not_mem_outputs (.inl hm)), hτ₂ _ (h.disjoint_made hm)]
    have hsatr : satClauses τ right.fullCNF := by
      refine (satClauses_congr fun v hv ↦ ?_).mpr hsat₂
      obtain ⟨cls, hc, lit, hl, rfl⟩ := hv
      apply hτ
      obtain he | ⟨x, hx, hs⟩ | hm := (mem_of_fullCNF h.ofRight hc).1 lit hl
      · exact he ▸ h.apart_node.idFalse_not_mem
      · exact fun hm ↦ h.apart x (hleaves' hx) (hs.symm ▸ List.mem_append_right _ hm)
      · exact h.not_mem_outputs (.inr hm)
    have hshows : Shows outputs.length (bit τ outputs) p := by
      apply (shows_bit_iff hF).mpr
      intro i y hy
      obtain ⟨hi, rfl⟩ := List.getElem?_eq_some_iff.mp hy
      have hmem := List.getElem_mem hi
      rw [litVal_of_even (h.apart_node.fresh _ hmem).2]
      change (if outputs[i] ∈ outputs then _ else _) = true ↔ _
      rw [if_pos hmem, decide_eq_true_eq, h.apart_node.nodup.idxOf_getElem]
    obtain ⟨hp, hq, -⟩ := hf.fits (σ := τ)
    refine ⟨τ, hall, ?_⟩
    simp only [fullCNF, satClauses_append]
    refine ⟨⟨hsatl, hsatr⟩, (satClauses_nodeClauses hF).mpr ?_⟩
    refine adds_of_shows (fullCNF_shows hF hf.1 hsatl) (fullCNF_shows hF hf.2.1 hsatr) ?_ hp hq
    rw [hcount _ hleaves, hcount _ hleaves', ← trueCount_append]
    exact hshows

end TotalizerTree

end PME
