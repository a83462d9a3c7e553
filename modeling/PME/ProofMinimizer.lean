import PME.SISI

namespace PME

open Outcome Support TransitionRelation

structure ProofMinimizer where
  tr : TransitionRelation
  proof : ClauseVec
  property : ℕ
  minimalProofs : List (List ℕ)

namespace ProofMinimizer

def addPropertyIfMissing (tr : TransitionRelation) (proof : ClauseVec) : ClauseVec × ℕ :=
  match proof.findIdx? (· == [negate tr.bad]) with
  | some id => (proof, id)
  | none => (proof ++ [[negate tr.bad]], proof.length)

def new (tr : TransitionRelation) (proof : ClauseVec) : ProofMinimizer where
  tr := tr
  proof := (addPropertyIfMissing tr proof).1
  property := (addPropertyIfMissing tr proof).2
  minimalProofs := []

def numClauses (m : ProofMinimizer) : ℕ := m.proof.length

def addMinimalProof (m : ProofMinimizer) (proof : List ℕ) : ProofMinimizer :=
  { m with minimalProofs := m.minimalProofs ++ [proof.insertionSort (· ≤ ·)] }

end ProofMinimizer

/-- The members of `SISIMinimizer`. -/
structure SISIMinimizer where
  base : ProofMinimizer
  indSolver : ConsecutionChecker
  sisi : SISI

namespace SISIMinimizer

open ConsecutionChecker

/-- The constructor, with `initSolver`. -/
def new (vm : VariableManager) (tr : TransitionRelation) (proof : ClauseVec) :
    Result (VariableManager × SISIMinimizer) := do
  let base := ProofMinimizer.new tr proof
  let (vm, indSolver) ← addAll vm (ConsecutionChecker.new tr) 0 base.proof
  return (vm, ⟨base, indSolver, .new⟩)

def initSISI (m : SISIMinimizer) : SISI :=
  ((List.range m.base.numClauses).foldl (fun s id ↦ (s.addToFEAS id).addClause id) m.sisi).addToNEC
    m.base.property

def doMinimize (B : Backend) (m : SISIMinimizer) : Result SISIMinimizer := do
  let sisi := m.initSISI
  let (sisi, cc) ← sisi.refineNEC B m.indSolver
  let (sisi, cc) ← sisi.refineFEAS B cc
  let (sisi, cc) ← sisi.refineNEC B cc
  let (minimized, cc) ← sisi.bruteForceMinimize B cc
  return ⟨m.base.addMinimalProof minimized, cc, sisi⟩

end SISIMinimizer

abbrev BruteForceMinimizer := SISIMinimizer

namespace BruteForceMinimizer

def doMinimize (B : Backend) (m : BruteForceMinimizer) : Result BruteForceMinimizer := do
  let sisi := m.initSISI
  let (minimized, cc) ← sisi.bruteForceMinimize B m.indSolver
  return ⟨m.base.addMinimalProof minimized, cc, sisi⟩

def isMinimal (B : Backend) (m : BruteForceMinimizer) : Result (Bool × BruteForceMinimizer) := do
  let sisi := m.initSISI
  let (minimal, cc) ← sisi.isMinimal B m.indSolver
  return (minimal, ⟨m.base, cc, sisi⟩)

inductive Reach (B : Backend) (m : BruteForceMinimizer) : BruteForceMinimizer → Prop
  | refl : Reach B m m
  | doMinimize {m₁ m₂ : BruteForceMinimizer} (h : Reach B m m₁) (hr : m₁.doMinimize B = .ok m₂) : Reach B m m₂
  | isMinimal {m₁ m₂ : BruteForceMinimizer} {b : Bool} (h : Reach B m m₁)
      (hr : m₁.isMinimal B = .ok (b, m₂)) : Reach B m m₂

end BruteForceMinimizer

open ConsecutionChecker

def HasProperty (tr : TransitionRelation) (proof : ClauseVec) (s : Finset ℕ) : Prop :=
  ∃ c ∈ s, clauses proof c = [negate tr.bad]

structure IsMSIS (tr : TransitionRelation) (proof : ClauseVec) (ids : List ℕ) : Prop where
  mem : ∀ c ∈ ids, c < proof.length
  property : HasProperty tr proof ids.toFinset
  holds : Inductive (Supports tr (clauses proof)) ids.toFinset
  minimal : ∀ t ⊂ ids.toFinset, HasProperty tr proof t → ¬ Inductive (Supports tr (clauses proof)) t

variable {B : Backend} {tr : TransitionRelation} {proof : ClauseVec} {vm vm' : VariableManager}
  {fail : Failure → Prop} {s t : Finset ℕ} {p : ℕ}

theorem new_proof (h : [negate tr.bad] ∈ proof) : (ProofMinimizer.new tr proof).proof = proof := by
  have hsome : proof.findIdx? (· == [negate tr.bad]) ≠ none := by
    rw [Ne, List.findIdx?_eq_none_iff]
    exact fun hno ↦ absurd (hno _ h) (by simp)
  obtain ⟨id, hid⟩ := Option.ne_none_iff_exists'.mp hsome
  simp [ProofMinimizer.new, ProofMinimizer.addPropertyIfMissing, hid]

theorem new_property (h : [negate tr.bad] ∈ proof) :
    (ProofMinimizer.new tr proof).property < proof.length ∧
      clauses proof (ProofMinimizer.new tr proof).property = [negate tr.bad] := by
  have hsome : proof.findIdx? (· == [negate tr.bad]) ≠ none := by
    rw [Ne, List.findIdx?_eq_none_iff]
    exact fun hno ↦ absurd (hno _ h) (by simp)
  obtain ⟨id, hid⟩ := Option.ne_none_iff_exists'.mp hsome
  have heq : (ProofMinimizer.new tr proof).property = id := by
    simp [ProofMinimizer.new, ProofMinimizer.addPropertyIfMissing, hid]
  obtain ⟨hlt, hfound, -⟩ := List.findIdx?_eq_some_iff_getElem.mp hid
  rw [heq, clauses, List.getD_eq_getElem _ _ hlt]
  exact ⟨hlt, beq_iff_eq.mp hfound⟩

theorem inductive_swap {cls : ℕ → Clause} {c : ℕ} (hc : c ∈ t) (heq : cls c = cls p)
    (h : Inductive (Supports tr cls) t) : Inductive (Supports tr cls) (insert p (t.erase c)) := by
  have hsame : ∀ x : Assignment, (∀ d ∈ insert p (t.erase c), satClause x (cls d)) →
      ∀ d ∈ t, satClause x (cls d) := by
    intro x hx d hd
    by_cases hdc : d = c
    · rw [hdc, heq]
      exact hx p (Finset.mem_insert_self p _)
    · exact hx d (Finset.mem_insert_of_mem (Finset.mem_erase.mpr ⟨hdc, hd⟩))
  intro d hd x y hxy hall hx
  cases Finset.mem_insert.mp hd with
  | inl hdp =>
    rw [hdp, ← heq] at hx ⊢
    exact h c hc x y hxy (hsame x hall) hx
  | inr hmem => exact h d (Finset.mem_of_mem_erase hmem) x y hxy (hsame x hall) hx

theorem minimal_property (hp : clauses proof p = [negate tr.bad])
    (hm : Minimal (fun u ↦ {p} ⊆ u ∧ Inductive (Supports tr (clauses proof)) u) s) (ht : t ⊂ s)
    (hprop : HasProperty tr proof t) : ¬ Inductive (Supports tr (clauses proof)) t := by
  intro hind
  obtain ⟨c, hc, hcls⟩ := hprop
  have hps : p ∈ s := Finset.singleton_subset_iff.mp hm.prop.1
  have hswap := inductive_swap hc (hcls.trans hp.symm) hind
  have hsub : insert p (t.erase c) ⊆ s :=
    Finset.insert_subset hps ((Finset.erase_subset c t).trans ht.subset)
  have hle := hm.le_of_le ⟨Finset.singleton_subset_iff.mpr (Finset.mem_insert_self p _), hswap⟩ hsub
  cases Finset.mem_insert.mp (hle (ht.subset hc)) with
  | inl hcp =>
    have hpt : {p} ⊆ t := Finset.singleton_subset_iff.mpr (hcp ▸ hc)
    exact ht.2 (hm.le_of_le ⟨hpt, hind⟩ ht.subset)
  | inr hmem => exact absurd hmem (Finset.notMem_erase c t)

theorem isMSIS_iff {ids : List ℕ} (hp : clauses proof p = [negate tr.bad]) (hmem : p ∈ ids)
    (hlt : ∀ c ∈ ids, c < proof.length) : IsMSIS tr proof ids ↔
      Minimal (fun u ↦ {p} ⊆ u ∧ Inductive (Supports tr (clauses proof)) u) ids.toFinset := by
  have hps : p ∈ ids.toFinset := List.mem_toFinset.mpr hmem
  constructor
  · intro h
    refine ⟨⟨Finset.singleton_subset_iff.mpr hps, h.holds⟩, fun u hu hle ↦ ?_⟩
    by_contra hno
    exact h.minimal u ⟨hle, hno⟩ ⟨p, Finset.singleton_subset_iff.mp hu.1, hp⟩ hu.2
  · intro hm
    exact ⟨hlt, ⟨p, hps, hp⟩, hm.prop.2, fun t ht hprop ↦ minimal_property hp hm ht hprop⟩

theorem initSISI_fields (m : SISIMinimizer) :
    m.initSISI.feas = m.sisi.feas ∪ Finset.range m.base.numClauses ∧
    m.initSISI.nec = insert m.base.property m.sisi.nec ∧
    m.initSISI.all = m.sisi.all ++ List.range m.base.numClauses := by
  have hfold : ∀ (l : List ℕ) (s : SISI), let r := l.foldl (fun s id ↦ (s.addToFEAS id).addClause id) s
      r.feas = s.feas ∪ l.toFinset ∧ r.nec = s.nec ∧ r.all = s.all ++ l := by
    intro l
    induction l with
    | nil => simp
    | cons id l ih =>
      intro s
      obtain ⟨hfeas, hnec, hall⟩ := ih ((s.addToFEAS id).addClause id)
      refine ⟨hfeas.trans ?_, hnec, hall.trans ?_⟩
      · simp [SISI.addToFEAS, SISI.addClause, Finset.insert_union]
      · simp [SISI.addToFEAS, SISI.addClause]
  obtain ⟨hfeas, hnec, hall⟩ := hfold (List.range m.base.numClauses) m.sisi
  unfold SISIMinimizer.initSISI
  refine ⟨hfeas.trans ?_, ?_, hall⟩
  · rw [List.toFinset_range]
  · exact congrArg (insert m.base.property) hnec

structure Ready (B : Backend) (tr : TransitionRelation) (vm : VariableManager) (proof : ClauseVec)
    (vm' : VariableManager) (m : SISIMinimizer) : Prop where
  tr_eq : m.base.tr = tr
  proof_eq : m.base.proof = proof
  lt : m.base.property < proof.length
  property : clauses proof m.base.property = [negate tr.bad]
  rep : Rep B tr (clauses proof) (Finset.range proof.length) vm.nextID vm' m.indSolver
  feas : m.sisi.feas ⊆ Finset.range proof.length
  nec : m.sisi.nec ⊆ {m.base.property}
  all : ∀ c ∈ m.sisi.all, c < proof.length

section Ready

variable {m m' : SISIMinimizer}

theorem SISIMinimizer.new_meets (h : Listed tr vm proof) (hbad : [negate tr.bad] ∈ proof)
    (hids : maxId + 1 < vm.nextID + 2 * proof.length → fail .idsExhausted) :
    Meets (fun r ↦ (∀ B, Ready B tr vm proof r.1 r.2) ∧ r.2.base.minimalProofs = [] ∧ r.1.Inv ∧
      r.1.nextID = vm.nextID + 2 * proof.length) fail (SISIMinimizer.new vm tr proof) := by
  unfold SISIMinimizer.new
  dsimp only
  rw [new_proof hbad]
  refine (addAll_meets h hids).bind fun r hr ↦ ?_
  obtain ⟨hinv, hnext, hrep⟩ := hr
  exact ⟨fun B ↦ ⟨rfl, new_proof hbad, (new_property hbad).1, (new_property hbad).2, hrep B,
    Finset.empty_subset _, Finset.empty_subset _, nofun⟩, rfl, hinv, hnext⟩

theorem Ready.new (h : Provable tr vm proof) (hbad : [negate tr.bad] ∈ proof)
    (hnew : SISIMinimizer.new vm tr proof = .ok (vm', m)) : Ready B tr vm proof vm' m := by
  have hmeets : Meets _ (fun _ ↦ True) _ := SISIMinimizer.new_meets h.listed hbad fun _ ↦ trivial
  exact (hmeets.of_ok hnew).1 B

theorem Ready.numClauses (h : Ready B tr vm proof vm' m) : m.base.numClauses = proof.length :=
  congrArg List.length h.proof_eq

theorem Ready.initSISI (h : Ready B tr vm proof vm' m) :
    m.initSISI.feas = Finset.range proof.length ∧ m.initSISI.nec = {m.base.property} ∧
      (∀ c ∈ m.initSISI.all, c ∈ Finset.range proof.length) ∧
      Finset.range proof.length ⊆ m.initSISI.all.toFinset := by
  obtain ⟨hfeas, hnec, hall⟩ := initSISI_fields m
  rw [h.numClauses] at hfeas hall
  refine ⟨hfeas.trans (Finset.union_eq_right.mpr h.feas), ?_, fun c hc ↦ ?_, fun c hc ↦ ?_⟩
  · refine hnec.trans (Finset.Subset.antisymm ?_ ?_)
    · exact Finset.insert_subset (Finset.mem_singleton_self _) h.nec
    · exact Finset.singleton_subset_iff.mpr (Finset.mem_insert_self _ _)
  · rw [hall] at hc
    cases List.mem_append.mp hc with
    | inl hold => exact Finset.mem_range.mpr (h.all c hold)
    | inr hnew => exact Finset.mem_range.mpr (List.mem_range.mp hnew)
  · rw [hall]
    exact List.mem_toFinset.mpr (List.mem_append_right _ (List.mem_range.mpr (Finset.mem_range.mp hc)))

theorem Ready.not_tautology (h : Ready B tr vm proof vm' m) :
    ∀ c ∈ ({m.base.property} : Finset ℕ), ¬ Tautology (clauses proof c) := by
  intro c hc htaut
  obtain rfl := Finset.mem_singleton.mp hc
  obtain ⟨lit, hl, hneg⟩ := htaut
  rw [h.property, List.mem_singleton] at hl hneg
  exact absurd (congrArg isNegated (hneg.trans hl.symm)) (by simp)

theorem Ready.narrowed (h : Ready B tr vm proof vm' m)
    (hind : Inductive (Supports tr (clauses proof)) (Finset.range proof.length)) :
    Narrowed (Supports tr (clauses proof)) {m.base.property} (Finset.range proof.length)
      {m.base.property} :=
  .start (hind.feasible (Finset.singleton_subset_iff.mpr (Finset.mem_range.mpr h.lt)))

theorem doMinimize_meets (h : Listed tr vm proof) (hm : Ready B tr vm proof vm' m)
    (hind : Inductive (Supports tr (clauses proof)) (Finset.range proof.length))
    (hfail : Refuted B tr m.indSolver.clausedb.entries → fail .assertion) :
    Meets (fun m' ↦ m'.base.proof = proof ∧
      ∃ ids, m'.base.minimalProofs = m.base.minimalProofs ++ [ids] ∧ IsMSIS tr proof ids ∧
        ids.length ≤ proof.length) fail (m.doMinimize B) := by
  obtain ⟨hfeas, hnec, hall, hcover⟩ := hm.initSISI
  have hc := h.checkable
  have hset : m.initSISI.all.toFinset = Finset.range proof.length :=
    Finset.Subset.antisymm (fun d hd ↦ hall d (List.mem_toFinset.mp hd)) hcover
  have hown : ∀ d ∈ Finset.range proof.length, ∀ lit ∈ clauses proof d, Own tr lit := fun d hd lit hl ↦
    h.own d (Finset.mem_range.mp hd) lit hl
  have hp : ({m.base.property} : Finset ℕ).Nonempty := Finset.singleton_nonempty _
  have hstart := hm.narrowed hind
  rw [← hfeas, ← hnec] at hstart
  unfold SISIMinimizer.doMinimize
  refine (SISI.refineNEC_meets hc hfeas.le hm.not_tautology hp hm.rep hfail
    (hfeas.symm ▸ hnec.symm ▸ hm.narrowed hind)).bind fun r hr ↦ ?_
  obtain ⟨s₁, cc₁⟩ := r
  obtain ⟨h₁, hdb₁, hfeas₁, hall₁, hn₁⟩ := hr
  dsimp only at h₁ hdb₁ hfeas₁ hall₁ hn₁ ⊢
  have hsub₁ : s₁.nec ⊆ s₁.all.toFinset := by
    rw [hall₁, hset, ← hfeas]
    exact hn₁.nec_subset
  refine (SISI.refineFEAS_meets hc hown (fun d hd ↦ hall d (hall₁ ▸ hd)) ?_ (hp.mono hn₁.subset) hsub₁ h₁
    (hdb₁ ▸ hfail)).bind fun r hr ↦ ?_
  · rw [hall₁, hset]
    exact hind
  obtain ⟨s₂, cc₂⟩ := r
  obtain ⟨h₂, hdb₂, hnec₂, hall₂, hleft, hright, hind₂⟩ := hr
  dsimp only at h₂ hdb₂ hnec₂ hall₂ hleft hright hind₂ ⊢
  have hfeas₂ : s₂.feas ⊆ Finset.range proof.length := by
    rw [hall₁, hset] at hright
    exact hright
  have hn₂ : Narrowed (Supports tr (clauses proof)) {m.base.property} s₂.feas s₂.nec := by
    rw [hnec₂]
    exact hn₁.shrink (hfeas₂.trans hfeas.ge) hind₂ (hn₁.subset.trans hleft)
  refine (SISI.refineNEC_meets hc hfeas₂ hm.not_tautology hp h₂ ((hdb₂.trans hdb₁) ▸ hfail) hn₂).bind
    fun r hr ↦ ?_
  obtain ⟨s₃, cc₃⟩ := r
  obtain ⟨h₃, hdb₃, hfeas₃, hall₃, hn₃⟩ := hr
  dsimp only at h₃ hdb₃ hfeas₃ hn₃ ⊢
  refine (SISI.bruteForceMinimize_meets hc hm.not_tautology (hfeas₃ ▸ hfeas₂) h₃
    (fun hr _ ↦ hfail ((hdb₃.trans (hdb₂.trans hdb₁)) ▸ hr)) (hfeas₃ ▸ hn₃)).bind fun r hr ↦ ?_
  obtain ⟨ids, cc₄⟩ := r
  obtain ⟨-, -, hsub, hsorted, hmin⟩ := hr
  dsimp only at hsub hsorted hmin ⊢
  have hperm := List.perm_insertionSort (· ≤ ·) ids
  have hsame : (ids.insertionSort (· ≤ ·)).toFinset = ids.toFinset := List.toFinset_eq_of_perm _ _ hperm
  refine ⟨hm.proof_eq, _, rfl, ?_, ?_⟩
  swap
  · have hcard := Finset.card_le_card ((hfeas₃ ▸ hsub).trans hfeas₂)
    rw [Finset.card_range] at hcard
    rwa [hperm.length_eq, hsorted, SISI.ordered_length]
  refine (isMSIS_iff hm.property ?_ fun c hc ↦ ?_).mpr (hsame.symm ▸ hmin)
  · exact hperm.mem_iff.mpr (List.mem_toFinset.mp (Finset.singleton_subset_iff.mp hmin.prop.1))
  · have hmem := hsub (List.mem_toFinset.mpr (hperm.mem_iff.mp hc))
    rw [hfeas₃] at hmem
    exact Finset.mem_range.mp (hfeas₂ hmem)

theorem doMinimize_refuted (h : Provable tr vm proof) (hm : Ready B tr vm proof vm' m)
    (hind : Inductive (Supports tr (clauses proof)) (Finset.range proof.length))
    (hr : Refuted B tr m.indSolver.clausedb.entries) :
    Meets (fun _ ↦ False) (fun _ ↦ True) (m.doMinimize B) := by
  obtain ⟨hfeas, hnec, -⟩ := hm.initSISI
  have hp : ({m.base.property} : Finset ℕ).Nonempty := Finset.singleton_nonempty _
  unfold SISIMinimizer.doMinimize
  refine (SISI.refineNEC_meets h.checkable hfeas.le hm.not_tautology hp hm.rep (fun _ ↦ trivial)
    (hfeas.symm ▸ hnec.symm ▸ hm.narrowed hind)).bind fun r hr' ↦ ?_
  obtain ⟨s₁, cc₁⟩ := r
  obtain ⟨h₁, hdb₁, -, -, hn₁⟩ := hr'
  dsimp only at h₁ hdb₁ hn₁ ⊢
  rw [SISI.refineFEAS_refuted h.checkable h₁ (hdb₁ ▸ hr) (hp.mono hn₁.subset)
    (hn₁.nec_subset.trans hfeas.le)]
  trivial

/-- A minimal proof is found exactly if the simplifier does not refute the formula. -/
theorem SISIMinimizer.doMinimize_right (h : Provable tr vm proof) (hbad : [negate tr.bad] ∈ proof)
    (hind : Inductive (Supports tr (clauses proof)) (Finset.range proof.length))
    (hnew : SISIMinimizer.new vm tr proof = .ok (vm', m)) :
    Meets (fun m' ↦ ∃ ids, m'.base.minimalProofs = [ids] ∧ IsMSIS tr proof ids) (fun _ ↦ False)
      (m.doMinimize B) ↔ ¬ Refuted B tr m.indSolver.clausedb.entries := by
  have hm : Ready B tr vm proof vm' m := .new h hbad hnew
  have hempty : m.base.minimalProofs = [] := by
    unfold SISIMinimizer.new at hnew
    obtain ⟨r, -, hnew⟩ := bind_eq_ok.mp hnew
    cases hnew
    rfl
  constructor
  · intro hmeets hr
    obtain ⟨m', hok, -⟩ := hmeets.exists_ok
    exact (doMinimize_refuted h hm hind hr).of_ok hok
  · intro hr
    refine (doMinimize_meets h.listed hm hind hr).imp fun m' hm' ↦ ?_
    obtain ⟨-, ids, hids, hmin, -⟩ := hm'
    rw [hempty] at hids
    exact ⟨ids, hids, hmin⟩

/-- The sets of the minimizer after it was filled again, with another checker and other results. -/
theorem Ready.filled (h : Ready B tr vm proof vm' m) {base : ProofMinimizer} {cc : ConsecutionChecker}
    (hbase : base.tr = m.base.tr ∧ base.proof = m.base.proof ∧ base.property = m.base.property)
    (hrep : Rep B tr (clauses proof) (Finset.range proof.length) vm.nextID vm' cc) :
    Ready B tr vm proof vm' ⟨base, cc, m.initSISI⟩ := by
  obtain ⟨hfeas, hnec, hall, -⟩ := h.initSISI
  obtain ⟨htr, hproof, hprop⟩ := hbase
  refine ⟨htr.trans h.tr_eq, hproof.trans h.proof_eq, hprop ▸ h.lt, hprop ▸ h.property, hrep, hfeas.le, ?_,
    fun c hc ↦ Finset.mem_range.mp (hall c hc)⟩
  rw [hnec, hprop]

theorem bruteForce_meets (h : Provable tr vm proof) (hm : Ready B tr vm proof vm' m)
    (hind : Inductive (Supports tr (clauses proof)) (Finset.range proof.length))
    (hfail : Refuted B tr m.indSolver.clausedb.entries → 2 ≤ proof.length → fail .assertion) :
    Meets (fun m' ↦ (Ready B tr vm proof vm' m' ∧ m'.indSolver.clausedb = m.indSolver.clausedb) ∧
      ∃ ids, m'.base.minimalProofs = m.base.minimalProofs ++ [ids] ∧ IsMSIS tr proof ids ∧
        (ids = List.range proof.length ↔ IsMSIS tr proof (List.range proof.length))) fail
      (BruteForceMinimizer.doMinimize B m) := by
  obtain ⟨hfeas, hnec, -⟩ := hm.initSISI
  have hask : Refuted B tr m.indSolver.clausedb.entries → m.initSISI.nec.card < m.initSISI.feas.card →
      fail .assertion := by
    intro hr hlt
    rw [hfeas, hnec, Finset.card_singleton, Finset.card_range] at hlt
    exact hfail hr hlt
  unfold BruteForceMinimizer.doMinimize
  refine (SISI.bruteForceMinimize_meets h.checkable hm.not_tautology hfeas.le hm.rep hask
    (hfeas.symm ▸ hnec.symm ▸ hm.narrowed hind)).bind fun r hr ↦ ?_
  obtain ⟨ids, cc⟩ := r
  obtain ⟨hrep, hdb, hsub, hsorted, hmin⟩ := hr
  dsimp only at hrep hdb hsub hsorted hmin ⊢
  have hsort : ids.insertionSort (· ≤ ·) = ids := by
    rw [hsorted]
    exact (Finset.pairwise_sort _ (· ≤ ·)).insertionSort_eq
  have hmem : m.base.property ∈ ids := List.mem_toFinset.mp (Finset.singleton_subset_iff.mp hmin.prop.1)
  have hlt : ∀ c ∈ ids, c < proof.length := fun c hc ↦
    Finset.mem_range.mp (hfeas ▸ hsub (List.mem_toFinset.mpr hc))
  have hmsis : IsMSIS tr proof ids := (isMSIS_iff hm.property hmem hlt).mpr hmin
  refine ⟨⟨hm.filled ⟨rfl, rfl, rfl⟩ hrep, hdb⟩, ids, ?_, hmsis, ?_⟩
  · exact congrArg (fun l ↦ m.base.minimalProofs ++ [l]) hsort
  · constructor
    · intro heq
      exact heq ▸ hmsis
    · intro hall
      have hsame : ids.toFinset = Finset.range proof.length := by
        by_contra hne
        have hle : ids.toFinset ⊆ Finset.range proof.length := hfeas ▸ hsub
        refine hall.minimal ids.toFinset ?_ hmsis.property hmsis.holds
        rw [List.toFinset_range]
        exact Finset.ssubset_iff_subset_ne.mpr ⟨hle, hne⟩
      rw [hsorted, hsame]
      exact Finset.sort_range proof.length

theorem isMinimal_meets (h : Provable tr vm proof) (hm : Ready B tr vm proof vm' m)
    (hind : Inductive (Supports tr (clauses proof)) (Finset.range proof.length))
    (hfail : Refuted B tr m.indSolver.clausedb.entries → 2 ≤ proof.length → fail .assertion) :
    Meets (fun r ↦ (Ready B tr vm proof vm' r.2 ∧ r.2.indSolver.clausedb = m.indSolver.clausedb) ∧
      (r.1 = true ↔ IsMSIS tr proof (List.range proof.length))) fail
      (BruteForceMinimizer.isMinimal B m) := by
  obtain ⟨hfeas, hnec, -⟩ := hm.initSISI
  have hask : Refuted B tr m.indSolver.clausedb.entries → m.initSISI.nec.card < m.initSISI.feas.card →
      fail .assertion := by
    intro hr hlt
    rw [hfeas, hnec, Finset.card_singleton, Finset.card_range] at hlt
    exact hfail hr hlt
  have hmsis := isMSIS_iff hm.property (List.mem_range.mpr hm.lt) fun c hc ↦ List.mem_range.mp hc
  rw [List.toFinset_range] at hmsis
  unfold BruteForceMinimizer.isMinimal
  refine (SISI.isMinimal_meets h.checkable hm.not_tautology hfeas.le hm.rep hask
    (hfeas.symm ▸ hnec.symm ▸ hm.narrowed hind)).bind fun r hr ↦ ?_
  obtain ⟨minimal, cc⟩ := r
  obtain ⟨hrep, hdb, hiff⟩ := hr
  rw [hfeas] at hiff
  exact ⟨⟨hm.filled ⟨rfl, rfl, rfl⟩ hrep, hdb⟩, hiff.trans hmsis.symm⟩

theorem Ready.reach (h : Provable tr vm proof) (hm : Ready B tr vm proof vm' m)
    (hind : Inductive (Supports tr (clauses proof)) (Finset.range proof.length))
    (hreach : BruteForceMinimizer.Reach B m m') :
    Ready B tr vm proof vm' m' ∧ m'.indSolver.clausedb = m.indSolver.clausedb := by
  induction hreach with
  | refl => exact ⟨hm, rfl⟩
  | doMinimize _ hr ih =>
    have hmeets : Meets _ (fun _ ↦ True) _ := bruteForce_meets h ih.1 hind fun _ _ ↦ trivial
    obtain ⟨⟨hm', hdb⟩, -⟩ := hmeets.of_ok hr
    exact ⟨hm', hdb.trans ih.2⟩
  | isMinimal _ hr ih =>
    have hmeets : Meets _ (fun _ ↦ True) _ := isMinimal_meets h ih.1 hind fun _ _ ↦ trivial
    obtain ⟨⟨hm', hdb⟩, -⟩ := hmeets.of_ok hr
    exact ⟨hm', hdb.trans ih.2⟩

theorem isMinimal_refuted (h : Provable tr vm proof) (hm : Ready B tr vm proof vm' m)
    (hr : Refuted B tr m.indSolver.clausedb.entries) (hlen : 2 ≤ proof.length) :
    BruteForceMinimizer.isMinimal B m = .error .assertion := by
  obtain ⟨hfeas, hnec, -⟩ := hm.initSISI
  have hmem : ∀ c, c ∈ SISI.ordered m.initSISI.feas ↔ c < proof.length := by
    intro c
    rw [hfeas, SISI.mem_ordered, Finset.mem_range]
  have hex : ∃ c ∈ SISI.ordered m.initSISI.feas, c ∉ m.initSISI.nec := by
    rw [hnec]
    by_cases hzero : m.base.property = 0
    · exact ⟨1, (hmem 1).mpr hlen, fun h ↦ by
        rw [Finset.mem_singleton, hzero] at h
        exact absurd h Nat.one_ne_zero⟩
    · exact ⟨0, (hmem 0).mpr (by omega), fun h ↦ hzero (Finset.mem_singleton.mp h).symm⟩
  have hloop : m.initSISI.isMinimal B m.indSolver = .error .assertion := by
    refine SISI.isMinimalLoop_refuted h.checkable hm.rep hr ?_ ?_ (Finset.Subset.refl _) ?_ hex ?_
    · exact fun d hd ↦ Finset.mem_range.mpr ((hmem d).mp hd)
    · exact hnec ▸ Finset.singleton_nonempty _
    · rw [hnec]
      exact fun d hd ↦ (hmem d).mpr (Finset.mem_singleton.mp hd ▸ hm.lt)
    · rw [List.nil_append, SISI.ordered_length, hnec, hfeas, Finset.card_singleton, Finset.card_range]
      exact hlen
  unfold BruteForceMinimizer.isMinimal
  dsimp only
  rw [hloop]
  rfl

/-- After any calls both ways to find out whether a proof is minimal are right, unless there is
something to ask and the simplifier refutes the formula. -/
theorem BruteForceMinimizer.agree (h : Provable tr vm proof) (hbad : [negate tr.bad] ∈ proof)
    (hind : Inductive (Supports tr (clauses proof)) (Finset.range proof.length))
    (hnew : SISIMinimizer.new vm tr proof = .ok (vm', m)) (hreach : BruteForceMinimizer.Reach B m m') :
    (Meets (fun r ↦ r.1 = true ↔ IsMSIS tr proof (List.range proof.length)) (fun _ ↦ False)
        (BruteForceMinimizer.isMinimal B m') ∧
      Meets (fun m'' ↦ ∃ ids, m''.base.minimalProofs = m'.base.minimalProofs ++ [ids] ∧
        IsMSIS tr proof ids ∧
        (ids = List.range proof.length ↔ IsMSIS tr proof (List.range proof.length))) (fun _ ↦ False)
        (BruteForceMinimizer.doMinimize B m')) ↔
      ¬ (Refuted B tr m.indSolver.clausedb.entries ∧ 2 ≤ proof.length) := by
  obtain ⟨hm, hdb⟩ := (Ready.new h hbad hnew).reach h hind hreach
  constructor
  · intro hmeets hno
    rw [isMinimal_refuted h hm (hdb ▸ hno.1) hno.2] at hmeets
    exact hmeets.1
  · intro hcond
    have hfail : Refuted B tr m'.indSolver.clausedb.entries → 2 ≤ proof.length → False := fun hr hlen ↦
      hcond ⟨hdb ▸ hr, hlen⟩
    exact ⟨(isMinimal_meets h hm hind hfail).imp fun _ hr ↦ hr.2,
      (bruteForce_meets h hm hind hfail).imp fun _ hr ↦ hr.2⟩

end Ready

section Instances

theorem tangled_inductive : Inductive (Supports tangled (clauses tangledProof)) (Finset.range 4) := by
  intro c hc
  rw [supports_tangled_iff]
  revert c
  decide

theorem tangled_doMinimize : ∃ r, SISIMinimizer.new .three tangled tangledProof = .ok r ∧
    Meets (fun m' ↦ ∃ ids, m'.base.minimalProofs = [ids] ∧ IsMSIS tangled tangledProof ids) (fun _ ↦ False)
      (r.2.doMinimize ⟨.exhaustive, .keep, false⟩) := by
  obtain ⟨r, hr⟩ : ∃ r, SISIMinimizer.new .three tangled tangledProof = .ok r := ⟨_, rfl⟩
  exact ⟨r, hr, (SISIMinimizer.doMinimize_right provable_tangled (by decide) tangled_inductive hr).mpr
    fun hno ↦ Bool.false_ne_true hno.1⟩

theorem tangled_not_minimal : ¬ IsMSIS tangled tangledProof (List.range 4) := by
  intro hmin
  refine hmin.minimal {0, 3} (by decide) ⟨0, by decide, rfl⟩ fun c hc ↦ ?_
  rw [supports_tangled_iff]
  revert c
  decide

theorem tangled_agree : ∃ r, SISIMinimizer.new .three tangled tangledProof = .ok r ∧
    ∃ m', BruteForceMinimizer.isMinimal ⟨.exhaustive, .keep, false⟩ r.2 = .ok (false, m') ∧
      Meets (fun m'' ↦ ∃ ids, m''.base.minimalProofs = m'.base.minimalProofs ++ [ids] ∧
        IsMSIS tangled tangledProof ids ∧ ids ≠ List.range 4) (fun _ ↦ False)
        (BruteForceMinimizer.doMinimize ⟨.exhaustive, .keep, false⟩ m') := by
  obtain ⟨r, hr⟩ : ∃ r, SISIMinimizer.new .three tangled tangledProof = .ok r := ⟨_, rfl⟩
  have hright : ∀ m', BruteForceMinimizer.Reach ⟨.exhaustive, .keep, false⟩ r.2 m' → _ := fun m' hreach ↦
    (BruteForceMinimizer.agree provable_tangled (by decide) tangled_inductive hr hreach).mpr fun hno ↦
      Bool.false_ne_true hno.1.1
  obtain ⟨⟨b, m'⟩, hok, hb⟩ := (hright r.2 .refl).1.exists_ok
  have hfalse : b = false := Bool.eq_false_iff.mpr fun htrue ↦ tangled_not_minimal (hb.mp htrue)
  subst hfalse
  refine ⟨r, hr, m', hok, (hright m' (.isMinimal .refl hok)).2.imp fun m'' hm'' ↦ ?_⟩
  obtain ⟨ids, hids, hmin, hiff⟩ := hm''
  exact ⟨ids, hids, hmin, fun hall ↦ tangled_not_minimal (hiff.mp hall)⟩

/-- No frame meets the constraints, so everything is inductive. -/
theorem halted_inductive (s : Finset ℕ) (cls : ℕ → Clause) : Inductive (Supports halted cls) s := by
  intro c _ x y hxy
  have hhigh : litVal x 4 = true := hxy.fst.constraints 4 List.mem_cons_self
  have hlow : litVal x (negate 4) = true := hxy.fst.constraints (negate 4) (by decide)
  rw [litVal_negate, hhigh] at hlow
  exact absurd hlow Bool.false_ne_true

theorem provable_halted_twice : Provable halted oneVar [[4], [4]] where
  wf := halted_wellFormed
  vars := oneVar_inv
  owned _ := mentions_latch_four rfl rfl (by decide)
  clause := by decide

theorem SISIMinimizer.doMinimize_right_fails : ¬ ∀ (B : Backend) (tr : TransitionRelation)
    (vm vm' : VariableManager) (proof : ClauseVec) (m : SISIMinimizer), Provable tr vm proof →
    [negate tr.bad] ∈ proof → Inductive (Supports tr (clauses proof)) (Finset.range proof.length) →
    SISIMinimizer.new vm tr proof = .ok (vm', m) →
    Meets (fun m' ↦ ∃ ids, m'.base.minimalProofs = [ids] ∧ IsMSIS tr proof ids) (fun _ ↦ False)
      (m.doMinimize B) := by
  intro hall
  obtain ⟨r, hr⟩ : ∃ r, SISIMinimizer.new oneVar halted [[4]] = .ok r := ⟨_, rfl⟩
  have hm : Ready refuter halted oneVar [[4]] r.1 r.2 := .new provable_halted (by decide) hr
  have hclaim := hall refuter halted oneVar r.1 [[4]] r.2 provable_halted (by decide)
    (halted_inductive _ _) hr
  have hsuits := provable_halted.checkable.suits hm.rep.entered hm.rep.vars
  obtain ⟨m', hok, -⟩ := hclaim.exists_ok
  exact (doMinimize_refuted provable_halted hm (halted_inductive _ _) (refuted_halted hsuits)).of_ok hok

theorem BruteForceMinimizer.agree_fails : ¬ ∀ (B : Backend) (tr : TransitionRelation)
    (vm vm' : VariableManager) (proof : ClauseVec) (m m' : BruteForceMinimizer), Provable tr vm proof →
    [negate tr.bad] ∈ proof → Inductive (Supports tr (clauses proof)) (Finset.range proof.length) →
    SISIMinimizer.new vm tr proof = .ok (vm', m) → BruteForceMinimizer.Reach B m m' →
    Meets (fun r ↦ r.1 = true ↔ IsMSIS tr proof (List.range proof.length)) (fun _ ↦ False)
      (BruteForceMinimizer.isMinimal B m') := by
  intro hall
  obtain ⟨r, hr⟩ : ∃ r, SISIMinimizer.new oneVar halted [[4], [4]] = .ok r := ⟨_, rfl⟩
  have hm : Ready refuter halted oneVar [[4], [4]] r.1 r.2 := .new provable_halted_twice (by decide) hr
  have hclaim := hall refuter halted oneVar r.1 [[4], [4]] r.2 r.2 provable_halted_twice (by decide)
    (halted_inductive _ _) hr .refl
  have hsuits := provable_halted_twice.checkable.suits hm.rep.entered hm.rep.vars
  rw [isMinimal_refuted provable_halted_twice hm (refuted_halted hsuits) (by decide)] at hclaim
  exact hclaim

end Instances

end PME
