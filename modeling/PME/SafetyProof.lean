import PME.SimpleMinimizer
import PME.IVC

namespace PME

open Outcome Support TransitionRelation ConsecutionChecker
open ProofChecker (ProofClause)

namespace ProofMinimizer

def getProof (m : ProofMinimizer) (i : ℕ) : Result ClauseVec := do
  ensure (decide (i < m.minimalProofs.length))
  (m.minimalProofs.getD i []).mapM fun id ↦
    match m.proof[id]? with
    | some cls => return cls
    | none => throw .exception

end ProofMinimizer

structure IVCUCBFOptions where
  useCore : Bool
  useMUS : Bool
  useSimpleMin : Bool
  useSISI : Bool
  simpleMinUseMinSupp : Bool

namespace IVCUCBFFinder

/-- The first part of `shrinkUC`, where the proof may be shrunk. -/
def shrinkProof (B : Backend) (opts : IVCUCBFOptions) (vm : VariableManager) (tr : TransitionRelation)
    (seed : Seed) (proof : ClauseVec) : Result (VariableManager × ClauseVec) :=
  if opts.useSimpleMin then do
    let seedTR ← tr.ofGates seed
    let (vm, pmin) ← SimpleMinimizer.new vm seedTR proof
    let pmin ← pmin.doMinimize B opts.simpleMinUseMinSupp
    ensure (pmin.base.minimalProofs.length == 1)
    return (vm, ← pmin.base.getProof 0)
  else if opts.useSISI then do
    let seedTR ← tr.ofGates seed
    let (vm, pmin) ← SISIMinimizer.new vm seedTR proof
    let pmin ← pmin.doMinimize B
    ensure (pmin.base.minimalProofs.length == 1)
    return (vm, ← pmin.base.getProof 0)
  else return (vm, proof)

/-- An empty proof means that the property is inductive on its own. -/
def orProperty (tr : TransitionRelation) (shrunkProof : ClauseVec) : ClauseVec :=
  if shrunkProof.isEmpty then [[negate tr.bad]] else shrunkProof

end IVCUCBFFinder

/-- An inductive strengthening that consists of the property and clauses over the latches. -/
structure SafetyProof (tr : TransitionRelation) (proof : ClauseVec) : Prop where
  clause : ∀ c ∈ proof, ProofClause tr c
  initiation : ∀ x, tr.IsFrame x → tr.IsInit x → satClauses x proof
  consecution : ∀ x y, tr.Linked x y → satClauses x proof → satClauses y proof
  safety : ∀ x, tr.IsFrame x → satClauses x proof → litVal x tr.bad = false

variable {tr p : TransitionRelation} {S : List ℕ} {proof : ClauseVec} {vm : VariableManager} {B : Backend}
  {fail : Failure → Prop}

section Proofs

theorem satClauses_property {x : Assignment} : satClauses x [[negate tr.bad]] ↔ litVal x tr.bad = false := by
  simp

theorem SafetyProof.property (h : SafetyProof tr []) : SafetyProof tr [[negate tr.bad]] where
  clause _ hc := .inl (List.mem_singleton.mp hc)
  initiation x hx _ := satClauses_property.mpr (h.safety x hx satClauses_nil)
  consecution _ y hxy _ := satClauses_property.mpr (h.safety y hxy.snd satClauses_nil)
  safety x hx _ := h.safety x hx satClauses_nil

theorem SafetyProof.orProperty (h : SafetyProof tr proof) : SafetyProof tr (IVCUCBFFinder.orProperty tr proof) := by
  cases proof with
  | nil => exact h.property
  | cons c proof => exact h

theorem SafetyProof.concat_property (h : SafetyProof tr proof) : SafetyProof tr (proof ++ [[negate tr.bad]]) where
  clause c hc := by
    cases List.mem_append.mp hc with
    | inl hc => exact h.clause c hc
    | inr hc => exact .inl (List.mem_singleton.mp hc)
  initiation x hx hinit := by
    have hsat := h.initiation x hx hinit
    exact (satClauses_append _ _).mpr ⟨hsat, satClauses_property.mpr (h.safety x hx hsat)⟩
  consecution x y hxy hsat := by
    have hnext := h.consecution x y hxy ((satClauses_append _ _).mp hsat).1
    exact (satClauses_append _ _).mpr ⟨hnext, satClauses_property.mpr (h.safety y hxy.snd hnext)⟩
  safety x hx hsat := h.safety x hx ((satClauses_append _ _).mp hsat).1

theorem SafetyProof.nil_not_mem (h : SafetyProof tr proof) (hstart : ∃ x, tr.IsFrame x ∧ tr.IsInit x) :
    [] ∉ proof := by
  intro hnil
  obtain ⟨x, hx, hinit⟩ := hstart
  exact not_satClause_nil (h.initiation x hx hinit [] hnil)

theorem satClauses_iff_clauses {x : Assignment} :
    satClauses x proof ↔ ∀ c ∈ Finset.range proof.length, satClause x (clauses proof c) := by
  constructor
  · exact fun h c hc ↦ h _ (clauses_mem (Finset.mem_range.mp hc))
  · intro h cls hcls
    obtain ⟨c, hc, rfl⟩ := List.mem_iff_getElem.mp hcls
    have hsat := h c (Finset.mem_range.mpr hc)
    rwa [clauses, List.getD_eq_getElem _ _ hc] at hsat

theorem SafetyProof.inductive (h : SafetyProof tr proof) :
    Inductive (Supports tr (clauses proof)) (Finset.range proof.length) := by
  intro c hc x y hxy hall _
  exact h.consecution x y hxy (satClauses_iff_clauses.mpr hall) _ (clauses_mem (Finset.mem_range.mp hc))

/-- An inductive part of the proof with the property in it is a proof again. -/
theorem SafetyProof.part (h : SafetyProof tr proof) {ids : List ℕ} (hmem : ∀ c ∈ ids, c < proof.length)
    (hprop : HasProperty tr proof ids.toFinset) (hind : Inductive (Supports tr (clauses proof)) ids.toFinset) :
    SafetyProof tr (ids.map (clauses proof)) ∧ [negate tr.bad] ∈ ids.map (clauses proof) := by
  have hsat : ∀ x : Assignment, satClauses x (ids.map (clauses proof)) ↔
      ∀ c ∈ ids.toFinset, satClause x (clauses proof c) := by
    intro x
    simp only [List.mem_toFinset]
    exact List.forall_mem_map
  obtain ⟨q, hq, hcls⟩ := hprop
  refine ⟨⟨fun cls hc ↦ ?_, fun x hx hinit ↦ ?_, fun x y hxy hx ↦ ?_, fun x hx hall ↦ ?_⟩, ?_⟩
  · obtain ⟨c, hin, rfl⟩ := List.mem_map.mp hc
    exact h.clause _ (clauses_mem (hmem c hin))
  · refine (hsat x).mpr fun c hc ↦ h.initiation x hx hinit _ (clauses_mem (hmem c ?_))
    exact List.mem_toFinset.mp hc
  · rw [hsat] at hx ⊢
    exact fun c hc ↦ hind c hc x y hxy hx (hx c hc)
  · have hbad := (hsat x).mp hall q hq
    rw [hcls] at hbad
    simpa using hbad
  · exact hcls ▸ List.mem_map_of_mem (List.mem_toFinset.mp hq)

end Proofs

section Minimizers

theorem new_proof_cases (tr : TransitionRelation) (proof : ClauseVec) :
    [negate tr.bad] ∈ proof ∧ (ProofMinimizer.new tr proof).proof = proof ∨
      (ProofMinimizer.new tr proof).proof = proof ++ [[negate tr.bad]] := by
  by_cases hbad : [negate tr.bad] ∈ proof
  · exact .inl ⟨hbad, new_proof hbad⟩
  · have hnone : proof.findIdx? (· == [negate tr.bad]) = none := by
      refine List.findIdx?_eq_none_iff.mpr fun c hc ↦ beq_false_of_ne fun heq ↦ hbad (heq ▸ hc)
    simp [ProofMinimizer.new, ProofMinimizer.addPropertyIfMissing, hnone]

theorem property_mem_new (tr : TransitionRelation) (proof : ClauseVec) :
    [negate tr.bad] ∈ (ProofMinimizer.new tr proof).proof := by
  obtain ⟨hbad, heq⟩ | heq := new_proof_cases tr proof
  · exact heq.symm ▸ hbad
  · rw [heq]
    exact List.mem_append_right _ List.mem_cons_self

theorem length_new_le (tr : TransitionRelation) (proof : ClauseVec) :
    (ProofMinimizer.new tr proof).proof.length ≤ proof.length + 1 := by
  obtain ⟨-, heq⟩ | heq := new_proof_cases tr proof
  · rw [heq]
    exact Nat.le_succ _
  · rw [heq, List.length_append, List.length_singleton]

theorem new_subset (tr : TransitionRelation) (proof : ClauseVec) :
    (ProofMinimizer.new tr proof).proof ⊆ [negate tr.bad] :: proof := by
  obtain ⟨-, heq⟩ | heq := new_proof_cases tr proof
  · rw [heq]
    exact List.subset_cons_self _ _
  · rw [heq]
    exact List.append_subset.mpr ⟨List.subset_cons_self _ _, by simp⟩

theorem SafetyProof.new (h : SafetyProof tr proof) : SafetyProof tr (ProofMinimizer.new tr proof).proof := by
  obtain ⟨-, heq⟩ | heq := new_proof_cases tr proof
  · exact heq.symm ▸ h
  · exact heq.symm ▸ h.concat_property

/-- The property is only added once. -/
theorem new_new (tr : TransitionRelation) (proof : ClauseVec) :
    ProofMinimizer.new tr (ProofMinimizer.new tr proof).proof = ProofMinimizer.new tr proof := by
  unfold ProofMinimizer.new ProofMinimizer.addPropertyIfMissing
  cases hfind : proof.findIdx? (· == [negate tr.bad]) with
  | some id => simp [hfind]
  | none => simp [List.findIdx?_append, hfind]

theorem getProof_meets {m : ProofMinimizer} {ids : List ℕ} (hproofs : m.minimalProofs = [ids])
    (hmem : ∀ c ∈ ids, c < m.proof.length) :
    Meets (· = ids.map (clauses m.proof)) fail (m.getProof 0) := by
  have hget : Meets (List.Forall₂ (fun c cls ↦ clauses m.proof c = cls) ids) fail
      (ids.mapM fun id ↦ match m.proof[id]? with
        | some cls => return cls
        | none => throw Failure.exception) := by
    refine mapM_meets fun c hc ↦ ?_
    rw [List.getElem?_eq_getElem (hmem c hc), meets_pure, clauses, List.getD_eq_getElem _ _ (hmem c hc)]
  unfold ProofMinimizer.getProof
  rw [hproofs]
  refine hget.imp fun proof hproof ↦ ?_
  rw [← List.forall₂_eq_eq_eq, List.forall₂_map_right_iff]
  exact hproof.flip.imp fun _ _ heq ↦ heq.symm

end Minimizers

section Partial

theorem AndGate.mem_toCNF {g : AndGate} {cls : Clause} {lit : ℕ} (hcls : cls ∈ g.toCNF) (hl : lit ∈ cls) :
    ∃ a ∈ [g.lhs, g.rhs0, g.rhs1], lit = a ∨ lit = negate a := by
  simp only [AndGate.toCNF, List.mem_cons, List.not_mem_nil, or_false] at hcls ⊢
  rcases hcls with rfl | rfl | rfl <;> simp only [List.mem_cons, List.not_mem_nil, or_false] at hl <;>
    rcases hl with rfl | rfl | rfl <;> simp

theorem TransitionRelation.IsPartial.mem_toCNF (hp : IsPartial tr S p) {cls : Clause} {lit : ℕ} (hcls : cls ∈ p.toCNF)
    (hl : lit ∈ cls) : ∃ g ∈ tr.gates, ∃ a ∈ [g.lhs, g.rhs0, g.rhs1], lit = a ∨ lit = negate a := by
  rw [toCNF, hp.gateCNF, hp.gates] at hcls
  obtain ⟨g, hg, hcls⟩ := List.mem_flatMap.mp hcls
  exact ⟨g, (List.mem_filter.mp hg).1, AndGate.mem_toCNF hcls hl⟩

theorem TransitionRelation.IsPartial.litsValid (hp : IsPartial tr S p) (hwf : tr.WellFormed) : p.LitsValid where
  bad := hp.bad ▸ hwf.bad
  gates cls hcls lit hl := by
    obtain ⟨g, hg, a, ha, heq⟩ := hp.mem_toCNF hcls hl
    obtain ⟨hlhs, h0, h1⟩ := hwf.ands g hg
    have hvalid : ValidLit a := by
      simp only [List.mem_cons, List.not_mem_nil, or_false] at ha
      rcases ha with rfl | rfl | rfl
      exacts [hlhs, h0, h1]
    rcases heq with rfl | rfl
    exacts [hvalid, hvalid.negate]
  latches l hl := hwf.latches l ((hp.latches l).mp hl).1
  reset l hl := hwf.reset l ((hp.latches l).mp hl).1
  constraints := hp.constraints ▸ hwf.constraints
  ands g hg := by
    rw [hp.gates] at hg
    exact hwf.ands g (List.mem_filter.mp hg).1

theorem TransitionRelation.IsPartial.toCNF_nonempty (hp : IsPartial tr S p) : ∀ cls ∈ p.toCNF, cls ≠ [] := by
  intro cls hcls
  rw [toCNF, hp.gateCNF] at hcls
  obtain ⟨g, -, hcls⟩ := List.mem_flatMap.mp hcls
  simp only [AndGate.toCNF, List.mem_cons, List.not_mem_nil, or_false] at hcls
  rcases hcls with rfl | rfl | rfl <;> simp

theorem TransitionRelation.IsPartial.mentions (hp : IsPartial tr S p) (hwf : tr.WellFormed) {v : ℕ} (hv : p.Mentions v) :
    v = idFalse ∨ v ∈ tr.signals := by
  obtain ⟨cls, hcls, lit, hl, rfl⟩ | ⟨l, hl, hv⟩ | ⟨c, hc, rfl⟩ := hv
  · obtain ⟨g, hg, a, ha, heq⟩ := hp.mem_toCNF hcls hl
    have hstrip : strip lit = strip a := by
      rcases heq with rfl | rfl
      exacts [rfl, strip_negate a]
    obtain ⟨h0, h1⟩ := hwf.rhs_defined g hg
    rw [hstrip]
    simp only [List.mem_cons, List.not_mem_nil, or_false] at ha
    rcases ha with rfl | rfl | rfl
    · have hgate : g.lhs ∈ tr.signals := mem_signals.mpr (.inr (hwf.gate_mem hg))
      rw [strip_of_even (hwf.isVar _ hgate).2.2]
      exact .inr hgate
    · exact h0
    · exact h1
  · obtain ⟨hmem, -⟩ := (hp.latches l).mp hl
    rcases hv with rfl | rfl
    · exact .inr (mem_signals.mpr (.inl (List.mem_append_right _ (hwf.latch_mem hmem))))
    · exact hwf.next l hmem
  · rw [hp.bad, hp.constraints] at hc
    cases List.mem_cons.mp hc with
    | inl hbad => exact hbad ▸ hwf.bad_defined
    | inr hmem => exact hwf.constraints_defined c hmem

/-- The clauses of a proof for part of a circuit are ones that a checker can be given. -/
theorem TransitionRelation.IsPartial.listed (hp : IsPartial tr S p) (hnodup : p.latchIDs.Nodup) (hwf : tr.WellFormed)
    (hvm : vm.Inv) (hold : ∀ v ∈ tr.signals, v < vm.nextID) (hproof : ∀ c ∈ proof, ProofClause p c) :
    Listed p vm proof := by
  have hvalid := hp.litsValid hwf
  have hmentions : ∀ v, p.Mentions v → v < vm.nextID := by
    intro v hv
    obtain rfl | hv := hp.mentions hwf hv
    · exact Nat.lt_of_lt_of_le (by decide) hvm.minId_le
    · exact hold v hv
  have hown : ∀ c < proof.length, ∀ lit ∈ clauses proof c, Own p lit := fun c hc lit hl ↦
    (hproof _ (clauses_mem hc)).own hvalid hp.latchIDs hl
  have hlatches : (p.latches.map Latch.id).Nodup := hp.latchIDs ▸ hnodup
  have hsuits : Suits p ([] : List (ClauseEntry Unit)) :=
    ⟨hvalid, hp.toCNF_nonempty, hp.latchIDs, hlatches, nofun, nofun, nofun, nofun, List.nodup_nil, List.nodup_nil⟩
  refine ⟨hvm, ⟨hvalid, hp.toCNF_nonempty, hp.latchIDs, hlatches, hvm.minId_le, hmentions,
    fun c hc lit hl ↦ ?_⟩, hown⟩
  have howned := hown c (Finset.mem_range.mp hc) lit hl
  exact ⟨howned.mayAsk hsuits, hmentions _ (mentions_of_own hvalid hp.latchIDs howned)⟩

end Partial

namespace IVCUCBFFinder

/-- What is left of a proof, with the variables that were made for it. -/
structure Shrunk (p : TransitionRelation) (minimized : Prop) (given : ClauseVec) (vm : VariableManager)
    (r : VariableManager × ClauseVec) : Prop where
  vars : r.1.Inv
  ge : vm.nextID ≤ r.1.nextID
  le : r.1.nextID ≤ vm.nextID + 2 * (given.length + 1)
  proof : SafetyProof p r.2
  length : r.2.length ≤ given.length + 1
  part : r.2 ⊆ [negate p.bad] :: given
  property : minimized → [negate p.bad] ∈ r.2
  kept : ¬ minimized → orProperty p r.2 = orProperty p given

variable {opts : IVCUCBFOptions} {seed : Seed}

theorem getProof_shrunk {minimized : Prop} {vm' : VariableManager} {m : ProofMinimizer} {ids : List ℕ}
    (hminimized : minimized) (hproof : SafetyProof p m.proof) (hvars : vm'.Inv)
    (hnext : vm'.nextID = vm.nextID + 2 * m.proof.length) (hlen : m.proof.length ≤ proof.length + 1)
    (hpart : m.proof ⊆ [negate p.bad] :: proof) (hproofs : m.minimalProofs = [ids]) (hmem : ∀ c ∈ ids, c < m.proof.length)
    (hprop : HasProperty p m.proof ids.toFinset)
    (hind : Inductive (Supports p (clauses m.proof)) ids.toFinset) (hle : ids.length ≤ m.proof.length) :
    Meets (Shrunk p minimized proof vm) fail (do
      ensure (m.minimalProofs.length == 1)
      return (vm', ← m.getProof 0)) := by
  have hone : (m.minimalProofs.length == 1) = true := by
    rw [hproofs]
    rfl
  rw [hone, ensure_true, ok_bind]
  refine (getProof_meets hproofs hmem).bind fun shrunk hshrunk ↦ ?_
  subst hshrunk
  obtain ⟨hsafety, hin⟩ := hproof.part hmem hprop hind
  refine ⟨hvars, by dsimp only; omega, by dsimp only; omega, hsafety, ?_, ?_, fun _ ↦ hin, absurd hminimized⟩
  · rw [List.length_map]
    exact hle.trans hlen
  · intro cls hcls
    obtain ⟨c, hc, rfl⟩ := List.mem_map.mp hcls
    exact hpart (clauses_mem (hmem c hc))

/-- The proof that is left is one for the same circuit. Minimizing needs an initial state, and with
option `simplify` a step, since no clause may be empty and no formula contradictory. -/
theorem shrinkProof_meets (h : tr.WellFormed) (hvm : vm.Inv) (hold : ∀ v ∈ tr.signals, v < vm.nextID)
    (hok : tr.ofGates seed = .ok p) (hproof : SafetyProof p proof)
    (hstart : ∃ x, p.IsFrame x ∧ p.IsInit x)
    (hlinked : B.simplify = true → opts.useSimpleMin = true ∨ opts.useSISI = true → ∃ x y, p.Linked x y)
    (hids : maxId + 1 < vm.nextID + 2 * (proof.length + 1) → fail .idsExhausted) :
    Meets (Shrunk p (opts.useSimpleMin = true ∨ opts.useSISI = true) proof vm) fail
      (shrinkProof B opts vm tr seed proof) := by
  have hpart : Meets _ fail (tr.ofGates seed) := ofGates_assigns h.latches_nodup seed
  obtain ⟨hp, relevant, ha⟩ := hpart.of_ok hok
  have hnew := hproof.new
  have hlen := length_new_le p proof
  have hpart' := new_subset p proof
  have hbad := property_mem_new p proof
  have hnil := hnew.nil_not_mem hstart
  have hlisted := hp.listed ha.nodup h hvm hold hnew.clause
  have hind := hnew.inductive
  generalize hp' : (ProofMinimizer.new p proof).proof = proof' at hnew hlen hpart' hbad hnil hlisted hind
  have hids' : maxId + 1 < vm.nextID + 2 * proof'.length → fail .idsExhausted := fun hlt ↦ hids (by omega)
  unfold shrinkProof
  split
  · next hsimple =>
    have hmake : SimpleMinimizer.new vm p proof = SimpleMinimizer.new vm p proof' := by
      unfold SimpleMinimizer.new
      rw [← hp', new_new]
    rw [hok, ok_bind, hmake]
    refine (SimpleMinimizer.new_meets hlisted hbad hids').bind fun r hr ↦ ?_
    obtain ⟨vm', pmin⟩ := r
    obtain ⟨hready, hbase, hvars, hnext⟩ := hr
    dsimp only at hready hbase hvars hnext ⊢
    refine (SimpleMinimizer.doMinimize_meets hlisted (hready B) hind (fun _ hmem ↦ absurd hmem hnil)
      fun hr ↦ ?_).bind fun pmin' hmin ↦ ?_
    · obtain ⟨x, y, hxy⟩ := hlinked hr.1 (.inl hsimple)
      exact absurd hr ((hready B).rep.not_refuted hlisted.checkable hxy)
    · obtain ⟨hsame, ids, hproofs, hkept, hle⟩ := hmin
      rw [← hsame] at hbase
      subst hbase
      exact getProof_shrunk (.inl hsimple) hnew hvars hnext hlen hpart' hproofs hkept.mem hkept.property hkept.holds hle
  · split
    · next hsisi =>
      have hmake : SISIMinimizer.new vm p proof = SISIMinimizer.new vm p proof' := by
        unfold SISIMinimizer.new
        rw [← hp', new_new]
      rw [hok, ok_bind, hmake]
      refine (SISIMinimizer.new_meets hlisted hbad hids').bind fun r hr ↦ ?_
      obtain ⟨vm', pmin⟩ := r
      obtain ⟨hready, hnone, hvars, hnext⟩ := hr
      dsimp only at hready hnone hvars hnext ⊢
      refine (doMinimize_meets hlisted (hready B) hind fun hr ↦ ?_).bind fun pmin' hmin ↦ ?_
      · obtain ⟨x, y, hxy⟩ := hlinked hr.1 (.inr hsisi)
        exact absurd hr ((hready B).rep.not_refuted hlisted.checkable hxy)
      · obtain ⟨hbase, ids, hproofs, hmin, hle⟩ := hmin
        rw [hnone, List.nil_append] at hproofs
        subst hbase
        exact getProof_shrunk (.inr hsisi) hnew hvars hnext hlen hpart' hproofs hmin.mem hmin.property hmin.holds hle
    · next hsimple hsisi =>
      refine ⟨hvm, le_rfl, Nat.le_add_right _ _, hproof, Nat.le_succ _, List.subset_cons_self _ _, fun hor ↦ ?_,
        fun _ ↦ rfl⟩
      exact absurd hor (not_or.mpr ⟨hsimple, hsisi⟩)

theorem orProperty_ne_nil (tr : TransitionRelation) (proof : ClauseVec) : orProperty tr proof ≠ [] := by
  cases proof with
  | nil => exact List.cons_ne_nil _ _
  | cons c proof => exact List.cons_ne_nil c proof

theorem orProperty_of_ne_nil (hne : proof ≠ []) : orProperty tr proof = proof := by
  cases proof with
  | nil => exact absurd rfl hne
  | cons c proof => rfl

theorem Shrunk.orProperty {minimized : Prop} {r : VariableManager × ClauseVec} (h : Shrunk p minimized proof vm r) :
    Shrunk p minimized proof vm (r.1, IVCUCBFFinder.orProperty p r.2) := by
  obtain ⟨vm', shrunk⟩ := r
  cases shrunk with
  | nil =>
    refine ⟨h.vars, h.ge, h.le, h.proof.orProperty, Nat.le_add_left 1 _, ?_, fun _ ↦ List.mem_singleton_self _, h.kept⟩
    exact List.cons_subset_cons _ (List.nil_subset _)
  | cons c shrunk => exact h

end IVCUCBFFinder

end PME
