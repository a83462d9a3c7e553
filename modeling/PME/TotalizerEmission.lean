import PME.TotalizerClauses

namespace PME

open Outcome Unary

namespace TotalizerTree

def sentCNF : TotalizerTree → ClauseVec
  | leaf _ => []
  | node left right outputs dirty => left.sentCNF ++ right.sentCNF ++
    (nodeClauses left.outputs right.outputs outputs).filter fun cls ↦ !isDirtyClause cls dirty

def settled : TotalizerTree → TotalizerTree
  | leaf input => leaf input
  | node left right outputs _ => node left.settled right.settled outputs ∅

def Marked (cardinality : ℕ) : ℕ → TotalizerTree → Prop
  | _, leaf _ => True
  | k, node left right outputs dirty => dirty = (outputs.drop k).toFinset ∧
    ∃ j, k ≤ j ∧ j ≤ cardinality ∧ left.Marked cardinality j ∧ right.Marked cardinality j

variable {fail : Failure → Prop} {a b r : List ℕ} {cardinality i j k : ℕ}
  {t left right : TotalizerTree} {outputs : List ℕ} {dirty : Finset ℕ} {cls : Clause}

@[simp] theorem outputs_settled (t : TotalizerTree) : t.settled.outputs = t.outputs := by
  cases t with
  | leaf input => rfl
  | node left right outputs dirty => rfl

@[simp] theorem leaves_settled (t : TotalizerTree) : t.settled.leaves = t.leaves := by
  induction t with
  | leaf input => rfl
  | node left right outputs dirty ihl ihr => simp [settled, leaves, ihl, ihr]

@[simp] theorem made_settled (t : TotalizerTree) : t.settled.made = t.made := by
  induction t with
  | leaf input => rfl
  | node left right outputs dirty ihl ihr => simp [settled, made, ihl, ihr]

@[simp] theorem fullCNF_settled (t : TotalizerTree) : t.settled.fullCNF = t.fullCNF := by
  induction t with
  | leaf input => rfl
  | node left right outputs dirty ihl ihr => simp [settled, fullCNF, ihl, ihr]

theorem not_isDirtyClause_empty (cls : Clause) : isDirtyClause cls ∅ = false := by
  simp [isDirtyClause]

@[simp] theorem sentCNF_settled (t : TotalizerTree) : t.settled.sentCNF = t.fullCNF := by
  induction t with
  | leaf input => rfl
  | node left right outputs dirty ihl ihr =>
    simp [settled, sentCNF, fullCNF, ihl, ihr, not_isDirtyClause_empty]

theorem filled_settled : t.settled.Filled cardinality ↔ t.Filled cardinality := by
  induction t with
  | leaf input => exact Iff.rfl
  | node left right outputs dirty ihl ihr =>
    simp only [settled, Filled, ihl, ihr, outputSize, outputs_settled]

theorem Filled.length_le (h : (node left right outputs dirty).Filled cardinality) :
    outputs.length ≤ cardinality := h.2.2 ▸ min_le_left _ _

theorem marked_settled (hf : t.Filled cardinality) :
    t.settled.Marked cardinality cardinality := by
  induction t with
  | leaf input => trivial
  | node left right outputs dirty ihl ihr =>
    refine ⟨?_, cardinality, le_rfl, le_rfl, ihl hf.1, ihr hf.2.1⟩
    rw [List.drop_eq_nil_of_le hf.length_le, List.toFinset_nil]

theorem proper_settled : t.settled.Proper ↔ t.Proper := by
  constructor
  · intro h
    exact ⟨by simpa using h.leaves, by simpa using h.made, by simpa using h.fresh,
      by simpa using h.apart⟩
  · intro h
    exact ⟨by simpa using h.leaves, by simpa using h.made, by simpa using h.fresh,
      by simpa using h.apart⟩

theorem Marked.isClean_iff (h : (node left right outputs dirty).Marked cardinality k) :
    dirty = ∅ ↔ outputs.length ≤ k := by
  rw [h.1, List.toFinset_eq_empty_iff, List.drop_eq_nil_iff]

theorem Marked.children (h : (node left right outputs dirty).Marked cardinality k)
    (hf : (node left right outputs dirty).Filled cardinality) (hk : outputs.length ≤ k) :
    left.isClean = true ∧ right.isClean = true := by
  obtain ⟨-, j, hkj, -, hl, hr⟩ := h
  obtain ⟨hfl, hfr, hlen⟩ := hf
  constructor
  · cases left with
    | leaf input => rfl
    | node left' right' outputs' dirty' =>
      have hle := hfl.length_le
      exact decide_eq_true (hl.isClean_iff.mpr (by
        simp only [outputSize, TotalizerTree.outputs] at hlen
        omega))
  · cases right with
    | leaf input => rfl
    | node left' right' outputs' dirty' =>
      have hle := hfr.length_le
      exact decide_eq_true (hr.isClean_iff.mpr (by
        simp only [outputSize, TotalizerTree.outputs] at hlen
        omega))

theorem Marked.settled_eq (h : t.Marked cardinality k) (hf : t.Filled cardinality)
    (hclean : t.isClean = true) : t.settled = t := by
  induction t generalizing k with
  | leaf input => rfl
  | node left right outputs dirty ihl ihr =>
    have hd : dirty = ∅ := of_decide_eq_true hclean
    obtain ⟨hcl, hcr⟩ := h.children hf (h.isClean_iff.mp hd)
    obtain ⟨-, j, -, -, hl, hr⟩ := h
    simp only [settled, ihl hl hf.1 hcl, ihr hr hf.2.1 hcr, hd]

/-- The clauses written are those that were missing, and the tree is clean after. -/
theorem toCNF_meets (hm : t.Marked cardinality k) (hf : t.Filled cardinality) :
    Meets (fun r ↦ r.1 = t.settled ∧ (t.sentCNF ++ r.2).Perm t.fullCNF) fail t.toCNF := by
  induction t generalizing k with
  | leaf input => exact ⟨rfl, .nil⟩
  | node left right outputs dirty ihl ihr =>
    unfold toCNF
    split
    · have hd : dirty = ∅ := ‹_›
      have hset := hm.settled_eq hf (decide_eq_true hd)
      obtain ⟨hcl, hcr⟩ := hm.children hf (hm.isClean_iff.mp hd)
      rw [hcl, hcr, ensure_true, ok_bind, ok_bind, meets_pure]
      refine ⟨hset.symm, ?_⟩
      rw [List.append_nil, ← sentCNF_settled, hset]
    · obtain ⟨-, j, -, -, hl, hr⟩ := hm
      refine (ihl hl hf.1).bind fun r₁ h₁ ↦ ?_
      obtain ⟨left', lcnf⟩ := r₁
      obtain ⟨hl', hlp⟩ := h₁
      refine (ihr hr hf.2.1).bind fun r₂ h₂ ↦ ?_
      obtain ⟨right', rcnf⟩ := r₂
      obtain ⟨hr', hrp⟩ := h₂
      dsimp only at hl' hr' hlp hrp
      subst hl' hr'
      rw [meets_pure]
      refine ⟨rfl, ?_⟩
      dsimp only
      rw [outputs_settled, outputs_settled]
      have hnode := List.filter_append_perm (fun cls ↦ !isDirtyClause cls dirty)
        (nodeClauses left.outputs right.outputs outputs)
      simp only [Bool.not_not] at hnode
      rw [← Multiset.coe_eq_coe] at hlp hrp hnode ⊢
      simp only [sentCNF, fullCNF, ← Multiset.coe_add] at hlp hrp hnode ⊢
      rw [← hlp, ← hrp, ← hnode]
      abel

structure Fresh (n n' : ℕ) (new : List ℕ) : Prop where
  le : n ≤ n'
  nodup : new.Nodup
  range : ∀ v ∈ new, n ≤ v ∧ v < n'
  even : ∀ v ∈ new, v % 2 = 0

inductive Grown : ℕ → ℕ → TotalizerTree → TotalizerTree → Prop
  | leaf {n : ℕ} (input : ℕ) : Grown n n (leaf input) (leaf input)
  | node {n m m' n' : ℕ} {left left' right right' : TotalizerTree} {outputs new : List ℕ}
    {dirty : Finset ℕ} (hl : Grown n m left left') (hr : Grown m m' right right')
    (hnew : Fresh m' n' new) :
    Grown n n' (node left right outputs dirty)
      (node left' right' (outputs ++ new) (dirty ∪ new.toFinset))

theorem addOutputs_meets {vm : VariableManager} (h : vm.Inv) (hids : fail .idsExhausted) (n : ℕ) :
    Meets (fun r ↦ r.1.Inv ∧ ∃ new, new.length = n ∧ r.2 = (outputs ++ new, dirty ∪ new.toFinset) ∧
      Fresh vm.nextID r.1.nextID new) fail (addOutputs n vm outputs dirty) := by
  induction n generalizing vm outputs dirty with
  | zero => exact ⟨h, [], rfl, by simp, ⟨le_rfl, .nil, by simp, by simp⟩⟩
  | succ n ih =>
    unfold addOutputs
    refine (getNewID_zero_meets h fun _ ↦ hids).bind fun r hr ↦ ?_
    obtain ⟨id, vm'⟩ := r
    dsimp only at hr ⊢
    obtain ⟨rfl, hnext, hinv⟩ := hr
    refine (ih hinv).imp fun r hr ↦ ?_
    obtain ⟨hinv', new, hlen, heq, hfresh⟩ := hr
    refine ⟨hinv', vm.nextID :: new, by simp [hlen], ?_, ?_⟩
    · rw [heq, Prod.mk.injEq]
      refine ⟨by simp, ?_⟩
      ext v
      simp only [Finset.mem_union, Finset.mem_insert, List.mem_toFinset, List.mem_cons]
      tauto
    · have hle := hfresh.le
      refine ⟨by omega, List.nodup_cons.mpr ⟨fun hm ↦ ?_, hfresh.nodup⟩, ?_, ?_⟩
      · have hge := hfresh.range _ hm
        omega
      · intro v hv
        cases List.mem_cons.mp hv with
        | inl he => omega
        | inr hv =>
          have hge := hfresh.range v hv
          omega
      · intro v hv
        cases List.mem_cons.mp hv with
        | inl he => exact he ▸ h.even
        | inr hv => exact hfresh.even v hv

namespace Grown

variable {n n' : ℕ} {t' : TotalizerTree}

theorem le (h : Grown n n' t t') : n ≤ n' := by
  induction h with
  | leaf input => exact le_rfl
  | node hl hr hnew ihl ihr => exact ihl.trans (ihr.trans hnew.le)

theorem leaves_eq (h : Grown n n' t t') : t'.leaves = t.leaves := by
  induction h with
  | leaf input => rfl
  | node hl hr hnew ihl ihr => simp [leaves, ihl, ihr]

theorem outputs_eq (h : Grown n n' t t') : ∃ new, t'.outputs = t.outputs ++ new := by
  cases h with
  | leaf input => exact ⟨[], rfl⟩
  | node hl hr hnew => exact ⟨_, rfl⟩

theorem outputSize_le (h : Grown n n' t t') : t.outputSize ≤ t'.outputSize := by
  obtain ⟨new, hnew⟩ := h.outputs_eq
  simp [outputSize, hnew]

theorem made_of_mem (h : Grown n n' t t') {v : ℕ} (hv : v ∈ t'.made) :
    v ∈ t.made ∨ n ≤ v ∧ v < n' ∧ v % 2 = 0 := by
  induction h with
  | leaf input => exact .inl hv
  | node hl hr hnew ihl ihr =>
    have hlel := hl.le
    have hler := hr.le
    have hlen := hnew.le
    simp only [made, List.mem_append] at hv ⊢
    obtain (hv | hv) | hv | hv := hv
    · exact (ihl hv).imp (fun h ↦ .inl (.inl h)) (fun h ↦ ⟨h.1, by omega, h.2.2⟩)
    · exact (ihr hv).imp (fun h ↦ .inl (.inr h)) (fun h ↦ ⟨by omega, by omega, h.2.2⟩)
    · exact .inl (.inr hv)
    · have hrange := hnew.range v hv
      exact .inr ⟨by omega, hrange.2, hnew.even v hv⟩

theorem made_nodup (h : Grown n n' t t') (hnodup : t.made.Nodup) (hlt : ∀ v ∈ t.made, v < n) :
    t'.made.Nodup := by
  induction h with
  | leaf input => exact hnodup
  | @node n m m' n' left left' right right' outputs new dirty hl hr hnew ihl ihr =>
    have hlel := hl.le
    have hler := hr.le
    simp only [made, List.mem_append] at hlt
    rw [made, List.nodup_append, List.nodup_append] at hnodup
    obtain ⟨⟨hnl, hnr, hlr⟩, hno, hout⟩ := hnodup
    rw [made, List.nodup_append, List.nodup_append]
    have hltr : ∀ v ∈ right.made, v < m := fun v hv ↦ (hlt v (.inl (.inr hv))).trans_le hlel
    refine ⟨⟨ihl hnl fun v hv ↦ hlt v (.inl (.inl hv)), ihr hnr hltr, ?_⟩, ?_, ?_⟩
    · intro v hv w hw he
      subst he
      cases hl.made_of_mem hv with
      | inl hold =>
        cases hr.made_of_mem hw with
        | inl hold' => exact hlr v hold v hold' rfl
        | inr hge =>
          have hv := hlt v (.inl (.inl hold))
          omega
      | inr hge =>
        cases hr.made_of_mem hw with
        | inl hold' =>
          have hv := hlt v (.inl (.inr hold'))
          omega
        | inr hge' => omega
    · refine List.nodup_append.mpr ⟨hno, hnew.nodup, fun v hv w hw he ↦ ?_⟩
      have hvn := hlt v (.inr hv)
      have hwn := hnew.range w hw
      omega
    · intro v hv w hw he
      subst he
      have hside : v ∈ left.made ++ right.made ∨ n ≤ v ∧ v < m' := by
        cases List.mem_append.mp hv with
        | inl hv =>
          exact (hl.made_of_mem hv).imp (fun h ↦ List.mem_append_left _ h)
            (fun h ↦ ⟨h.1, h.2.1.trans_le hler⟩)
        | inr hv =>
          exact (hr.made_of_mem hv).imp (fun h ↦ List.mem_append_right _ h)
            (fun h ↦ ⟨hlel.trans h.1, h.2.1⟩)
      cases hside with
      | inl hold =>
        have hvn := hlt v (.inl (List.mem_append.mp hold))
        cases List.mem_append.mp hw with
        | inl hw => exact hout v hold v hw rfl
        | inr hw =>
          have hwn := hnew.range v hw
          omega
      | inr hge =>
        cases List.mem_append.mp hw with
        | inl hw =>
          have hvn := hlt v (.inr hw)
          omega
        | inr hw =>
          have hwn := hnew.range v hw
          omega

theorem proper (h : Grown n n' t t') (hp : t.Proper) (hlt : ∀ v ∈ t.made, v < n)
    (hmin : minId ≤ n) (hmax : n' ≤ maxId + 1) (hold : ∀ x ∈ t.leaves, Old n (strip x)) :
    t'.Proper where
  leaves := h.leaves_eq ▸ hp.leaves
  made := h.made_nodup hp.made hlt
  fresh := by
    intro v hv
    cases h.made_of_mem hv with
    | inl hv => exact hp.fresh v hv
    | inr hge => exact ⟨hmin.trans hge.1, hge.2.2⟩
  apart := by
    intro x hx hmem
    rw [h.leaves_eq] at hx
    cases h.made_of_mem hmem with
    | inl hmem => exact hp.apart x hx hmem
    | inr hge =>
      cases hold x hx with
      | inl hlt => omega
      | inr hgt => omega

end Grown

theorem increaseNodeCardinality_meets {vm : VariableManager} (h : vm.Inv)
    (hids : fail .idsExhausted) {n : ℕ} (hle : cardinality ≤ n) (hf : t.Filled cardinality) :
    Meets (fun r ↦ r.1.Inv ∧ Grown vm.nextID r.1.nextID t r.2 ∧ r.2.Filled n) fail
      (t.increaseNodeCardinality n vm) := by
  induction t generalizing vm with
  | leaf input => exact ⟨h, .leaf input, trivial⟩
  | node left right outputs dirty ihl ihr =>
    obtain ⟨hfl, hfr, hlen⟩ := hf
    unfold increaseNodeCardinality
    refine (ihl h hfl).bind fun r₁ h₁ ↦ ?_
    obtain ⟨vm₁, left'⟩ := r₁
    obtain ⟨hinv₁, hgl, hfl'⟩ := h₁
    refine (ihr hinv₁ hfr).bind fun r₂ h₂ ↦ ?_
    obtain ⟨vm₂, right'⟩ := r₂
    obtain ⟨hinv₂, hgr, hfr'⟩ := h₂
    dsimp only at hgl hgr hinv₂ hfl' hfr' ⊢
    refine (addOutputs_meets hinv₂ hids _).bind fun r₃ h₃ ↦ ?_
    obtain ⟨vm₃, outputs', dirty'⟩ := r₃
    obtain ⟨hinv₃, new, hnew, heq, hfresh⟩ := h₃
    obtain ⟨rfl, rfl⟩ := Prod.mk.inj heq
    rw [meets_pure]
    refine ⟨hinv₃, .node hgl hgr hfresh, hfl', hfr', ?_⟩
    have hlel := hgl.outputSize_le
    have hler := hgr.outputSize_le
    simp only [inputSize] at hnew
    rw [List.length_append, hnew]
    omega

theorem Grown.outputs_of_full {n n' m : ℕ} {t' : TotalizerTree} (h : Grown n n' t t')
    (hf : t.Filled cardinality) (hf' : t'.Filled m) (hk : k ≤ cardinality) :
    ∃ new, t'.outputs = t.outputs ++ new ∧ (k ≤ t.outputs.length ∨ new = []) := by
  obtain ⟨new, hnew⟩ := h.outputs_eq
  refine ⟨new, hnew, ?_⟩
  have hsize := hf.outputSize
  have hsize' := hf'.outputSize
  rw [h.leaves_eq] at hsize'
  simp only [outputSize, hnew, List.length_append] at hsize hsize'
  rw [← List.length_eq_zero_iff]
  omega

theorem drop_append_of_full {l l' : List ℕ} (h : k ≤ l.length ∨ l' = []) :
    (l ++ l').drop k = l.drop k ++ l' := by
  cases h with
  | inl hle => exact List.drop_append_of_le_length hle
  | inr hnil => simp [hnil]

theorem Grown.marked {n n' m : ℕ} {t' : TotalizerTree} (h : Grown n n' t t')
    (hm : t.Marked cardinality k) (hk : k ≤ cardinality) (hle : cardinality ≤ m)
    (hf : t.Filled cardinality) (hf' : t'.Filled m) : t'.Marked m k := by
  induction h generalizing k with
  | leaf input => trivial
  | @node n m m' n' left left' right right' outputs new dirty hl hr hnew ihl ihr =>
    obtain ⟨new', heq, hfull⟩ := (Grown.node hl hr hnew).outputs_of_full hf hf' hk
    obtain rfl : new = new' := List.append_cancel_left heq
    obtain ⟨hd, j, hkj, hj, hml, hmr⟩ := hm
    refine ⟨?_, j, hkj, hj.trans hle, ihl hml hj hf.1 hf'.1, ihr hmr hj hf.2.1 hf'.2.1⟩
    change k ≤ outputs.length ∨ new = [] at hfull
    rw [hd, drop_append_of_full hfull, List.toFinset_append]

theorem entry_append {l l' : List ℕ} (hi : i ≤ l.length) : entry (l ++ l') i = entry l i := by
  cases i with
  | zero => rfl
  | succ i =>
    rw [entry_succ hi, entry_succ (by rw [List.length_append]; omega), List.getElem_append_left]

theorem getElem_mem_drop {l : List ℕ} (hl : l.Nodup) (hi : i < l.length) :
    l[i] ∈ l.drop k ↔ k ≤ i := by
  rw [List.mem_drop_iff_getElem]
  constructor
  · intro h
    obtain ⟨m, hm, he⟩ := h
    have heq := hl.getElem_inj_iff.mp he
    omega
  · intro h
    exact ⟨i - k, by omega, by simp only [Nat.add_sub_cancel' h]⟩

/-- A clause is dirty just when the one output of its node that it mentions is. -/
theorem Apart.isDirtyClause_iff (h : Apart a b r) {m lit : ℕ} (hpos : 0 < m) (hm : m ≤ r.length)
    (hl : lit ∈ cls) (hstrip : strip lit = entry r m)
    (honly : ∀ lit' ∈ cls, strip lit' ∈ r → lit' = lit) :
    isDirtyClause cls (r.drop k).toFinset = true ↔ k < m := by
  obtain ⟨m, rfl⟩ : ∃ m', m = m' + 1 := ⟨m - 1, by omega⟩
  rw [isDirtyClause, List.any_eq_true]
  have hmem : strip lit ∈ (r.drop k).toFinset ↔ k ≤ m := by
    rw [hstrip, entry_succ hm, List.mem_toFinset, getElem_mem_drop h.nodup]
  constructor
  · intro hd
    obtain ⟨lit', hl', hd⟩ := hd
    have hd := of_decide_eq_true hd
    have hin := List.mem_of_mem_drop (List.mem_toFinset.mp hd)
    rw [honly lit' hl' hin] at hd
    have hle := hmem.mp hd
    omega
  · intro hlt
    exact ⟨lit, hl, decide_eq_true (hmem.mpr (by omega))⟩

theorem Apart.isDirtyClause_lower (h : Apart a b r) (hi : i ≤ a.length) (hj : j ≤ b.length)
    (hpos : 0 < i + j) (hk : i + j ≤ r.length) :
    isDirtyClause (lower a b r i j) (r.drop k).toFinset = true ↔ k < i + j :=
  h.isDirtyClause_iff hpos hk (by simp [lower]) (h.entry_mem hpos hk).2
    fun _ hl hr ↦ h.mem_lower hi hj hl hr

theorem Apart.isDirtyClause_upper (h : Apart a b r) (hi : i ≤ a.length) (hj : j ≤ b.length)
    (hk : i + j + 1 ≤ r.length) :
    isDirtyClause (upper a b r i j) (r.drop k).toFinset = true ↔ k < i + j + 1 := by
  have hin : negate (entry r (i + j + 1)) ∈ upper a b r i j := by simp [upper]
  refine h.isDirtyClause_iff (i + j).succ_pos hk hin ?_ fun _ hl hr ↦ h.mem_upper hi hj hl hr
  rw [strip_negate]
  exact (h.entry_mem (i + j).succ_pos hk).2

/-- The clauses of a node that are not dirty are those about its first outputs. -/
theorem Apart.mem_sent (h : Apart a b r) :
    cls ∈ (nodeClauses a b r).filter (fun cls ↦ !isDirtyClause cls (r.drop k).toFinset) ↔
      ∃ i ≤ a.length, ∃ j ≤ b.length,
        (0 < i + j ∧ i + j ≤ r.length ∧ i + j ≤ k ∧ cls = lower a b r i j ∧
          entry a i ≠ idFalse ∧ entry b j ≠ idFalse) ∨
        i + j + 1 ≤ r.length ∧ i + j + 1 ≤ k ∧ cls = upper a b r i j ∧
          entry a (i + 1) ≠ idTrue ∧ entry b (j + 1) ≠ idTrue := by
  rw [List.mem_filter, mem_nodeClauses h.minId_le, Bool.not_eq_true', Bool.eq_false_iff]
  constructor
  · intro hc
    obtain ⟨⟨i, hi, j, hj, hc⟩, hd⟩ := hc
    refine ⟨i, hi, j, hj, ?_⟩
    obtain ⟨hpos, hk, rfl, hne⟩ | ⟨hk, rfl, hne⟩ := hc
    · rw [ne_eq, h.isDirtyClause_lower hi hj hpos hk] at hd
      exact .inl ⟨hpos, hk, by omega, rfl, hne⟩
    · rw [ne_eq, h.isDirtyClause_upper hi hj hk] at hd
      exact .inr ⟨hk, by omega, rfl, hne⟩
  · intro hc
    obtain ⟨i, hi, j, hj, ⟨hpos, hk, hle, rfl, hne⟩ | ⟨hk, hle, rfl, hne⟩⟩ := hc
    · refine ⟨⟨i, hi, j, hj, .inl ⟨hpos, hk, rfl, hne⟩⟩, ?_⟩
      rw [ne_eq, h.isDirtyClause_lower hi hj hpos hk]
      omega
    · refine ⟨⟨i, hi, j, hj, .inr ⟨hk, rfl, hne⟩⟩, ?_⟩
      rw [ne_eq, h.isDirtyClause_upper hi hj hk]
      omega

theorem entry_append_of_full {l l' : List ℕ} (h : k ≤ l.length ∨ l' = []) (hi : i ≤ k) :
    entry (l ++ l') i = entry l i ∧ (i ≤ (l ++ l').length ↔ i ≤ l.length) := by
  cases h with
  | inl hle =>
    refine ⟨entry_append (hi.trans hle), fun _ ↦ hi.trans hle, fun hil ↦ ?_⟩
    rw [List.length_append]
    omega
  | inr hnil => simp [hnil]

theorem Apart.nodeClauses_nodup (h : Apart a b r) : (nodeClauses a b r).Nodup := by
  apply h.nodeClauses_pairwise.imp
  intro cls cls' hno heq
  exact hno (heq ▸ List.Perm.refl cls)

/-- The clauses about the first outputs of a node stay what they are when it and its children
are given more outputs. -/
theorem Apart.sent_append {a' b' r' : List ℕ} (h : Apart a b r)
    (h' : Apart (a ++ a') (b ++ b') (r ++ r')) (ha : k ≤ a.length ∨ a' = [])
    (hb : k ≤ b.length ∨ b' = []) (hr : k ≤ r.length ∨ r' = []) :
    ((nodeClauses (a ++ a') (b ++ b') (r ++ r')).filter
        fun cls ↦ !isDirtyClause cls ((r ++ r').drop k).toFinset).Perm
      ((nodeClauses a b r).filter fun cls ↦ !isDirtyClause cls (r.drop k).toFinset) := by
  refine (List.perm_ext_iff_of_nodup (h'.nodeClauses_nodup.filter _)
    (h.nodeClauses_nodup.filter _)).mpr fun cls ↦ ?_
  rw [h'.mem_sent, h.mem_sent]
  have hlow : ∀ i j, i + j ≤ k → lower (a ++ a') (b ++ b') (r ++ r') i j = lower a b r i j := by
    intro i j hk
    simp only [lower, (entry_append_of_full ha (show i ≤ k by omega)).1,
      (entry_append_of_full hb (show j ≤ k by omega)).1, (entry_append_of_full hr hk).1]
  have hup : ∀ i j, i + j + 1 ≤ k → upper (a ++ a') (b ++ b') (r ++ r') i j = upper a b r i j := by
    intro i j hk
    simp only [upper, (entry_append_of_full ha (show i + 1 ≤ k by omega)).1,
      (entry_append_of_full hb (show j + 1 ≤ k by omega)).1, (entry_append_of_full hr hk).1]
  constructor
  · intro hc
    obtain ⟨i, hi, j, hj, ⟨hpos, hlen, hk, rfl, hea, heb⟩ | ⟨hlen, hk, rfl, hea, heb⟩⟩ := hc
    · obtain ⟨hai, hil⟩ := entry_append_of_full ha (show i ≤ k by omega)
      obtain ⟨hbj, hjl⟩ := entry_append_of_full hb (show j ≤ k by omega)
      exact ⟨i, hil.mp hi, j, hjl.mp hj, .inl ⟨hpos, (entry_append_of_full hr hk).2.mp hlen, hk,
        hlow i j hk, hai ▸ hea, hbj ▸ heb⟩⟩
    · obtain ⟨-, hil⟩ := entry_append_of_full ha (show i ≤ k by omega)
      obtain ⟨-, hjl⟩ := entry_append_of_full hb (show j ≤ k by omega)
      have hai := (entry_append_of_full ha (show i + 1 ≤ k by omega)).1
      have hbj := (entry_append_of_full hb (show j + 1 ≤ k by omega)).1
      exact ⟨i, hil.mp hi, j, hjl.mp hj, .inr ⟨(entry_append_of_full hr hk).2.mp hlen, hk,
        hup i j hk, hai ▸ hea, hbj ▸ heb⟩⟩
  · intro hc
    obtain ⟨i, hi, j, hj, ⟨hpos, hlen, hk, rfl, hea, heb⟩ | ⟨hlen, hk, rfl, hea, heb⟩⟩ := hc
    · obtain ⟨hai, hil⟩ := entry_append_of_full ha (show i ≤ k by omega)
      obtain ⟨hbj, hjl⟩ := entry_append_of_full hb (show j ≤ k by omega)
      exact ⟨i, hil.mpr hi, j, hjl.mpr hj, .inl ⟨hpos, (entry_append_of_full hr hk).2.mpr hlen, hk,
        (hlow i j hk).symm, hai ▸ hea, hbj ▸ heb⟩⟩
    · obtain ⟨-, hil⟩ := entry_append_of_full ha (show i ≤ k by omega)
      obtain ⟨-, hjl⟩ := entry_append_of_full hb (show j ≤ k by omega)
      have hai := (entry_append_of_full ha (show i + 1 ≤ k by omega)).1
      have hbj := (entry_append_of_full hb (show j + 1 ≤ k by omega)).1
      exact ⟨i, hil.mpr hi, j, hjl.mpr hj, .inr ⟨(entry_append_of_full hr hk).2.mpr hlen, hk,
        (hup i j hk).symm, hai ▸ hea, hbj ▸ heb⟩⟩

theorem Grown.sentCNF_perm {n n' m : ℕ} {t' : TotalizerTree} (h : Grown n n' t t')
    (hm : t.Marked cardinality k) (hk : k ≤ cardinality) (hf : t.Filled cardinality)
    (hf' : t'.Filled m) (hp : t.Proper) (hp' : t'.Proper) : t'.sentCNF.Perm t.sentCNF := by
  induction h generalizing k with
  | leaf input => exact .refl _
  | @node n m m' n' left left' right right' outputs new dirty hl hr hnew ihl ihr =>
    obtain ⟨new', heq, hfull⟩ := (Grown.node hl hr hnew).outputs_of_full hf hf' hk
    obtain rfl : new = new' := List.append_cancel_left heq
    change k ≤ outputs.length ∨ new = [] at hfull
    obtain ⟨rfl, j, hkj, hj, hml, hmr⟩ := hm
    obtain ⟨newl, hl', hfl⟩ := hl.outputs_of_full hf.1 hf'.1 (hkj.trans hj)
    obtain ⟨newr, hr', hfr⟩ := hr.outputs_of_full hf.2.1 hf'.2.1 (hkj.trans hj)
    have hnode := hp'.apart_node
    rw [hl', hr'] at hnode
    simp only [sentCNF]
    rw [← List.toFinset_append, ← drop_append_of_full hfull, hl', hr']
    refine ((ihl hml hj hf.1 hf'.1 hp.ofLeft hp'.ofLeft).append
      (ihr hmr hj hf.2.1 hf'.2.1 hp.ofRight hp'.ofRight)).append ?_
    exact hp.apart_node.sent_append hnode hfl hfr hfull

@[simp] theorem outputs_clearIncrementality (t : TotalizerTree) :
    t.clearIncrementality.outputs = t.outputs := by
  cases t with
  | leaf input => rfl
  | node left right outputs dirty => rfl

@[simp] theorem settled_clearIncrementality (t : TotalizerTree) :
    t.clearIncrementality.settled = t.settled := by
  induction t with
  | leaf input => rfl
  | node left right outputs dirty ihl ihr => simp [clearIncrementality, settled, ihl, ihr]

theorem marked_clearIncrementality (t : TotalizerTree) :
    t.clearIncrementality.Marked cardinality 0 := by
  induction t with
  | leaf input => trivial
  | node left right outputs dirty ihl ihr => exact ⟨rfl, 0, le_rfl, Nat.zero_le _, ihl, ihr⟩

theorem Apart.filter_eq_nil (h : Apart a b r) :
    (nodeClauses a b r).filter (fun cls ↦ !isDirtyClause cls r.toFinset) = [] := by
  apply List.eq_nil_iff_forall_not_mem.mpr
  intro cls hc
  obtain ⟨i, -, j, -, hc⟩ := (h.mem_sent (k := 0)).mp hc
  omega

theorem sentCNF_clearIncrementality (h : t.Proper) : t.clearIncrementality.sentCNF = [] := by
  induction t with
  | leaf input => rfl
  | node left right outputs dirty ihl ihr =>
    simp only [clearIncrementality, sentCNF, outputs_clearIncrementality, ihl h.ofLeft,
      ihr h.ofRight, h.apart_node.filter_eq_nil, List.append_nil]

theorem toCNF_clearIncrementality_meets (hf : t.Filled cardinality) (hp : t.Proper) :
    Meets (fun r ↦ r.1 = t.settled ∧ r.2.Perm t.fullCNF) fail t.clearIncrementality.toCNF := by
  have hf' : t.clearIncrementality.Filled cardinality := by
    rw [← filled_settled, settled_clearIncrementality, filled_settled]
    exact hf
  refine (toCNF_meets (marked_clearIncrementality t) hf').imp fun r hr ↦ ?_
  rw [sentCNF_clearIncrementality hp, List.nil_append, settled_clearIncrementality,
    ← fullCNF_settled t.clearIncrementality, settled_clearIncrementality, fullCNF_settled] at hr
  exact hr

end TotalizerTree

end PME
