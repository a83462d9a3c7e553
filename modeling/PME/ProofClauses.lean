import PME.FindSafeMIS
import PME.ProofChecker

namespace PME

open Outcome Support TransitionRelation

theorem ProofChecker.ProofClause.own {tr : TransitionRelation} (h : tr.LitsValid)
    (hids : tr.latchIDs = tr.latches.map Latch.id) {c : Clause} (hc : ProofClause tr c) {lit : ℕ}
    (hl : lit ∈ c) : Own tr lit := by
  refine ⟨hc.validLit h hids hl, ?_⟩
  cases hc with
  | inl hprop =>
    rw [hprop] at hl
    obtain rfl := List.mem_singleton.mp hl
    exact ⟨tr.bad, List.mem_append_right _ List.mem_cons_self, strip_negate _⟩
  | inr hlatch => exact ⟨strip lit, List.mem_append_left _ (hlatch lit hl), (strip_strip lit).symm⟩

namespace ConsecutionChecker

open ProofChecker (ProofClause)

def addAll (vm : VariableManager) (cc : ConsecutionChecker) : ℕ → ClauseVec →
    Result (VariableManager × ConsecutionChecker)
  | _, [] => return (vm, cc)
  | id, cls :: proof => do
    let (vm, cc) ← cc.addClause vm id cls
    addAll vm cc (id + 1) proof

def clauses (proof : ClauseVec) (c : ℕ) : Clause := proof.getD c []

/-- The circuit was made with this variable manager, and the clauses are ones of a proof. -/
structure Provable (tr : TransitionRelation) (vm : VariableManager) (proof : ClauseVec) : Prop where
  wf : tr.WellFormed
  vars : vm.Inv
  owned : ∀ v, tr.Mentions v → v < vm.nextID
  clause : ∀ c ∈ proof, ProofClause tr c

/-- What a checker needs of the clauses that it is given. -/
structure Listed (tr : TransitionRelation) (vm : VariableManager) (proof : ClauseVec) : Prop where
  vars : vm.Inv
  checkable : Checkable tr (clauses proof) (Finset.range proof.length) vm.nextID
  own : ∀ c < proof.length, ∀ lit ∈ clauses proof c, Own tr lit

variable {B : Backend} {tr : TransitionRelation} {proof : ClauseVec} {vm vm' : VariableManager}
  {cc cc' : ConsecutionChecker} {fail : Failure → Prop} {vec nec : List ℕ} {c : ℕ}

theorem clauses_mem (hc : c < proof.length) : clauses proof c ∈ proof := by
  rw [clauses, List.getD_eq_getElem _ _ hc]
  exact List.getElem_mem hc

theorem not_tautology (h : ∀ c ∈ proof, ¬ Tautology c) (c : ℕ) : ¬ Tautology (clauses proof c) := by
  obtain hlt | hge := Nat.lt_or_ge c proof.length
  · exact h _ (clauses_mem hlt)
  · intro hno
    obtain ⟨lit, hl, -⟩ := hno
    rw [clauses, List.getD_eq_default _ _ hge] at hl
    exact List.not_mem_nil hl

theorem Provable.own (h : Provable tr vm proof) (hc : c < proof.length) {lit : ℕ}
    (hl : lit ∈ clauses proof c) : Own tr lit :=
  (h.clause _ (clauses_mem hc)).own h.wf.toLitsValid h.wf.latchIDs_eq hl

theorem mentions_of_own (h : tr.LitsValid) (hids : tr.latchIDs = tr.latches.map Latch.id) {lit : ℕ}
    (hl : Own tr lit) : tr.Mentions (strip lit) := by
  obtain ⟨-, l, hmem, heq⟩ := hl
  rw [heq]
  cases List.mem_append.mp hmem with
  | inl hlatch =>
    rw [hids] at hlatch
    obtain ⟨latch, hl, rfl⟩ := List.mem_map.mp hlatch
    obtain ⟨-, -, heven, -⟩ := h.latches latch hl
    exact .inr (.inl ⟨latch, hl, .inl (strip_of_even heven)⟩)
  | inr hcon => exact .inr (.inr ⟨l, hcon, rfl⟩)

theorem Provable.checkable (h : Provable tr vm proof) :
    Checkable tr (clauses proof) (Finset.range proof.length) vm.nextID where
  valid := h.wf.toLitsValid
  nonempty := h.wf.toCNF_nonempty
  latchIDs_eq := h.wf.latchIDs_eq
  latches_nodup := h.wf.latches_nodup
  ge := h.vars.minId_le
  mentions := h.owned
  lits c hc lit hl := by
    have hown := h.own (Finset.mem_range.mp hc) hl
    have hsuits : Suits tr ([] : List (ClauseEntry Unit)) :=
      ⟨h.wf.toLitsValid, h.wf.toCNF_nonempty, h.wf.latchIDs_eq, h.wf.latches_nodup, nofun, nofun, nofun,
        nofun, List.nodup_nil, List.nodup_nil⟩
    exact ⟨hown.mayAsk hsuits, h.owned _ (mentions_of_own h.wf.toLitsValid h.wf.latchIDs_eq hown)⟩

theorem Provable.listed (h : Provable tr vm proof) : Listed tr vm proof :=
  ⟨h.vars, h.checkable, fun _ hc _ hl ↦ h.own hc hl⟩

theorem addAll_building {base : Finset ℕ} {n id : ℕ} {cls : ℕ → Clause}
    (h : Building tr cls base n vm cc) (hvm : vm.Inv) (hn : n ≤ vm.nextID)
    (hnew : cc.clausedb.entries.map ClauseEntry.id = List.range id) {rest : ClauseVec}
    (hids : maxId + 1 < vm.nextID + 2 * rest.length → fail .idsExhausted)
    (hbase : ∀ i < rest.length, id + i ∈ base ∧ cls (id + i) = clauses rest i) :
    Meets (fun r ↦ r.1.Inv ∧ r.1.nextID = vm.nextID + 2 * rest.length ∧ Building tr cls base n r.1 r.2 ∧
      r.2.clausedb.entries.map ClauseEntry.id = List.range (id + rest.length)) fail
      (addAll vm cc id rest) := by
  induction rest generalizing vm cc id with
  | nil => exact ⟨hvm, rfl, h, hnew⟩
  | cons c rest ih =>
    obtain ⟨hmem, heq⟩ := hbase 0 (Nat.succ_pos _)
    have hc : cls id = c := heq
    have hout : id ∉ cc.clausedb.entries.map ClauseEntry.id := by
      rw [hnew, List.mem_range]
      exact Nat.lt_irrefl id
    rw [List.length_cons] at hids
    have heven := hvm.even
    have hadd : Meets _ fail (cc.addClause vm id (cls id)) := h.addClause hvm hn hmem hout fun hlt ↦
      hids (by
        rw [maxId_eq] at hlt ⊢
        omega)
    rw [hc] at hadd
    unfold addAll
    refine hadd.bind fun r hr ↦ ?_
    obtain ⟨vm₁, cc₁⟩ := r
    obtain ⟨hinv, hnext, hbuild, hids₁⟩ := hr
    dsimp only at hinv hnext hbuild hids₁ ⊢
    have hnew₁ : cc₁.clausedb.entries.map ClauseEntry.id = List.range (id + 1) := by
      rw [hids₁, hnew, List.range_succ]
    refine (ih hbuild hinv (by omega) hnew₁ (fun hlt ↦ hids (by omega)) fun i hi ↦ ?_).imp fun r hr ↦
      ⟨hr.1, ?_, hr.2.2.1, ?_⟩
    · have hlater := hbase (i + 1) (Nat.succ_lt_succ hi)
      rw [Nat.add_comm i 1, ← Nat.add_assoc] at hlater
      exact ⟨hlater.1, hlater.2.trans (by rw [Nat.add_comm 1 i]; rfl)⟩
    · rw [hr.2.1, hnext, List.length_cons]
      ring
    · rw [hr.2.2.2, List.length_cons]
      congr 1
      omega

/-- A checker with the clauses of a proof is one that its queries can be proved right for. -/
theorem addAll_meets (h : Listed tr vm proof)
    (hids : maxId + 1 < vm.nextID + 2 * proof.length → fail .idsExhausted) :
    Meets (fun r ↦ r.1.Inv ∧ r.1.nextID = vm.nextID + 2 * proof.length ∧
      ∀ B, Rep B tr (clauses proof) (Finset.range proof.length) vm.nextID r.1 r.2)
      fail (addAll vm (new tr) 0 proof) := by
  have hstart : Building tr (clauses proof) (Finset.range proof.length) vm.nextID vm (new tr) := building_new
  have hall : ∀ i < proof.length, 0 + i ∈ Finset.range proof.length ∧ clauses proof (0 + i) = clauses proof i := by
    intro i hi
    rw [Nat.zero_add]
    exact ⟨Finset.mem_range.mpr hi, rfl⟩
  refine (addAll_building hstart h.vars le_rfl rfl hids hall).imp fun r hr ↦ ?_
  · obtain ⟨hinv, hnext, hbuild, hall⟩ := hr
    refine ⟨hinv, hnext, fun B ↦ hbuild.rep hinv fun c hc ↦ ?_⟩
    rw [hall, Nat.zero_add, List.mem_range]
    exact Finset.mem_range.mp hc

inductive Queried (B : Backend) (len : ℕ) (cc : ConsecutionChecker) : ConsecutionChecker → Prop
  | refl : Queried B len cc cc
  | solve {cc₁ cc₂ : ConsecutionChecker} {frame : List ℕ} {c : ℕ} {answer : Consecution}
      (h : Queried B len cc cc₁) (hframe : ∀ d ∈ frame, d < len) (hc : c < len)
      (hr : cc₁.solve B frame c = .ok (answer, cc₂)) : Queried B len cc cc₂
  | findSafeMIS {cc₁ cc₂ : ConsecutionChecker} {vec nec vec' : List ℕ} {found : Bool}
      (h : Queried B len cc cc₁) (hvec : ∀ d ∈ vec, d < len)
      (hr : cc₁.findSafeMIS B vec nec = .ok (found, vec', cc₂)) : Queried B len cc cc₂

theorem Queried.rep (h : Provable tr vm proof)
    (hcc : Rep B tr (clauses proof) (Finset.range proof.length) vm.nextID vm' cc)
    (hq : Queried B proof.length cc cc') :
    Rep B tr (clauses proof) (Finset.range proof.length) vm.nextID vm' cc' ∧ cc'.clausedb = cc.clausedb := by
  induction hq with
  | refl => exact ⟨hcc, rfl⟩
  | solve _ hframe hc hr ih =>
    obtain ⟨hrep, hdb⟩ := ih
    have hsolve : Meets _ (fun _ ↦ True) _ := solve_meets hrep h.checkable (fun _ ↦ trivial)
      (fun d hd ↦ Finset.mem_range.mpr (hframe d hd)) (Finset.mem_range.mpr hc)
      fun _ ↦ ⟨fun _ hl ↦ h.own hc hl, fun _ ↦ trivial⟩
    obtain ⟨hrep', -, hdb', -⟩ := hsolve.of_ok hr
    exact ⟨hrep', hdb'.trans hdb⟩
  | @findSafeMIS cc₁ cc₂ vec nec vec' found _ hvec hr ih =>
    obtain ⟨hrep, hdb⟩ := ih
    have hfind : Meets _ (fun _ ↦ True) (cc₁.findSafeMIS B vec nec) :=
      findSafeMIS_keeps hrep h.checkable fun d hd ↦ Finset.mem_range.mpr (hvec d hd)
    obtain ⟨hrep', hdb'⟩ := hfind.of_ok hr
    exact ⟨hrep', hdb'.trans hdb⟩

theorem supportSolve_refuted {cls : ℕ → Clause} {base : Finset ℕ} {n : ℕ} {frame : List ℕ} {d : Clause}
    (h : Rep B tr cls base n vm cc) (hc : Checkable tr cls base n)
    (hr : Refuted B tr cc.clausedb.entries) : cc.supportSolve B frame d = .error .assertion := by
  have hi : cc.solverInited = false := Bool.eq_false_iff.mpr fun hi ↦ (h.solving hi).1 hr
  have hinit : cc.initSolver B = .error .assertion := by
    unfold initSolver
    rw [hi, Bool.not_false, ensure_true, ok_bind, h.tr_eq,
      activatedFormula_refuted (hc.suits h.entered h.vars) hr]
    rfl
  unfold supportSolve
  rw [hi, if_neg Bool.false_ne_true, hinit]
  rfl

theorem solve_refuted {cls : ℕ → Clause} {base : Finset ℕ} {n : ℕ} {frame : List ℕ}
    (h : Rep B tr cls base n vm cc) (hc : Checkable tr cls base n)
    (hr : Refuted B tr cc.clausedb.entries) (hcb : c ∈ base) : cc.solve B frame c = .error .assertion := by
  obtain ⟨e, he, rfl⟩ := h.ids c hcb
  unfold solve
  rw [(h.entry_meets he).1, ok_bind]
  exact supportSolve_refuted h hc hr

def FindsMIS (tr : TransitionRelation) (proof : ClauseVec) (vec nec : List ℕ) (found : Bool)
    (vec' : List ℕ) : Prop :=
  (found = true ↔ ∃ t ⊆ vec.toFinset, nec.toFinset ⊆ t ∧ Inductive (Supports tr (clauses proof)) t) ∧
  (found = true → ∀ c, c ∈ vec' ↔ ∃ t ⊆ vec.toFinset, Inductive (Supports tr (clauses proof)) t ∧ c ∈ t)

theorem findSafeMIS_refuted {cls : ℕ → Clause} {base : Finset ℕ} {n : ℕ}
    (h : Rep B tr cls base n vm cc) (hc : Checkable tr cls base n)
    (hr : Refuted B tr cc.clausedb.entries) (hbase : ∀ c ∈ vec, c ∈ base) (hne : vec ≠ [])
    (hnec : nec ⊆ vec) : cc.findSafeMIS B vec nec = .error .assertion := by
  obtain ⟨c, rest, rfl⟩ := List.exists_cons_of_ne_nil hne
  have hsolve : cc.solve B (c :: rest) c = .error .assertion :=
    solve_refuted h hc hr (hbase c List.mem_cons_self)
  unfold findSafeMIS isSafeInductive isInductive carriesAll
  rw [if_pos (containsAllOf_iff.mpr hnec), if_pos (containsAllOf_iff.mpr hnec), hsolve]
  rfl

/-- The search ends with the greatest inductive subset, unless it has to make a formula that the
simplifier refutes. -/
theorem findSafeMIS_right (h : Provable tr vm proof) (htaut : ∀ c ∈ proof, ¬ Tautology c)
    (hreg : addAll vm (new tr) 0 proof = .ok (vm', cc)) (hq : Queried B proof.length cc cc')
    (hvec : ∀ c ∈ vec, c < proof.length) :
    Meets (fun r ↦ FindsMIS tr proof vec nec r.1 r.2.1) (fun _ ↦ False) (cc'.findSafeMIS B vec nec) ↔
      ¬ (Refuted B tr cc.clausedb.entries ∧ vec ≠ [] ∧ nec ⊆ vec) := by
  have hadd : Meets _ (fun _ ↦ True) _ := addAll_meets h.listed fun _ ↦ trivial
  obtain ⟨hrep, hdb⟩ := hq.rep h ((hadd.of_ok hreg).2.2 B)
  have hbase : ∀ c ∈ vec, c ∈ Finset.range proof.length := fun c hc ↦ Finset.mem_range.mpr (hvec c hc)
  constructor
  · intro hmeets hno
    obtain ⟨hr, hne, hnec⟩ := hno
    rw [findSafeMIS_refuted hrep h.checkable (hdb ▸ hr) hbase hne hnec] at hmeets
    exact hmeets
  · intro hcond
    by_cases hask : vec ≠ [] ∧ nec ⊆ vec
    · refine (findSafeMIS_meets hrep h.checkable hbase (fun c _ ↦ not_tautology htaut c)
        fun hr ↦ hcond ⟨hdb ▸ hr, hask⟩).imp fun r hr ↦ ?_
      obtain ⟨-, -, hfound, -⟩ := hr
      refine ⟨hfound.iff, fun hf c ↦ ?_⟩
      have hretains := hfound.retains hf
      rw [plain_eq fun c _ ↦ not_tautology htaut c] at hretains
      obtain ⟨hmem, hmax⟩ := hretains.isGreatest (hfound.holds hf)
      constructor
      · intro hc
        exact ⟨_, hmem.1, hmem.2, List.mem_toFinset.mpr hc⟩
      · intro hex
        obtain ⟨t, ht, hind, hc⟩ := hex
        exact List.mem_toFinset.mp (hmax ⟨ht, hind⟩ hc)
    · by_cases hnec : nec ⊆ vec
      · obtain rfl : vec = [] := not_not.mp fun hne ↦ hask ⟨hne, hnec⟩
        obtain rfl := List.subset_nil.mp hnec
        refine ⟨⟨fun _ ↦ ⟨∅, Finset.Subset.refl _, Finset.Subset.refl _, nofun⟩, fun _ ↦ rfl⟩,
          fun _ c ↦ ⟨fun hc ↦ absurd hc List.not_mem_nil, fun hex ↦ ?_⟩⟩
        obtain ⟨t, ht, -, hc⟩ := hex
        exact absurd (ht hc) (Finset.notMem_empty c)
      · unfold findSafeMIS
        rw [if_neg (mt containsAllOf_iff.mp hnec)]
        refine ⟨⟨nofun, fun hex ↦ absurd (fun c hc ↦ ?_) hnec⟩, nofun⟩
        obtain ⟨t, ht, hnt, -⟩ := hex
        exact List.mem_toFinset.mp (ht (hnt (List.mem_toFinset.mpr hc)))

section Instances

def oneVar : VariableManager := ⟨6, [(4, 0), (2, 0)], [(2, 0)], [(0, 2)]⟩

theorem oneVar_inv : oneVar.Inv := by
  have hmade : VariableManager.new.getNewID 0 = .ok (4, oneVar) := rfl
  exact VariableManager.inv_new.getNewID hmade

theorem mentions_latch_four {tr : TransitionRelation} (hcnf : tr.toCNF = [])
    (hlatches : tr.latches = [⟨4, 4, idTrue⟩]) (hlits : ∀ c ∈ tr.bad :: tr.constraints, strip c = 4) {v : ℕ}
    (hv : tr.Mentions v) : v < 6 := by
  obtain ⟨cls, hc, -⟩ | ⟨l, hl, hv⟩ | ⟨c, hc, rfl⟩ := hv
  · rw [hcnf] at hc
    exact absurd hc List.not_mem_nil
  · rw [hlatches] at hl
    rw [List.mem_singleton.mp hl] at hv
    obtain rfl | rfl := hv <;> decide
  · rw [hlits c hc]
    decide

def tangled : TransitionRelation where
  bad := negate 8
  latches := [⟨4, 8, idTrue⟩, ⟨6, 6, idTrue⟩, ⟨8, 6, idTrue⟩]
  gates := []
  latchIDs := [4, 6, 8]
  inputIDs := []
  gateIDs := []
  constraints := []
  gateCNF := AndGate.toCNF

theorem tangled_wellFormed : tangled.WellFormed where
  bad := by decide
  gates := by decide
  latches := by decide
  reset := by decide
  constraints := by decide
  ands := by decide
  latchIDs_eq := rfl
  gateIDs_eq := rfl
  isVar := by decide
  nodup := by decide
  next := by decide
  constraints_defined := by decide
  bad_defined := by decide
  rhs_defined := by decide
  gates_computed := ⟨fun _ ↦ 0, nofun⟩

def tangledProof : ClauseVec := [[8], [4, 6], [5, 6], [6]]

theorem provable_tangled : Provable tangled .three tangledProof where
  wf := tangled_wellFormed
  vars := VariableManager.inv_three
  owned v hv := by
    have hlow : ∀ l ∈ tangled.latches, l.id < 10 ∧ strip l.next < 10 := by decide
    obtain ⟨cls, hc, -⟩ | ⟨l, hl, rfl | rfl⟩ | ⟨c, hc, rfl⟩ := hv
    · exact absurd hc List.not_mem_nil
    · exact (hlow l hl).1
    · exact (hlow l hl).2
    · rw [List.mem_singleton.mp hc]
      decide
  clause := by decide

def latchValues (a b c : Bool) : Assignment := fun v ↦ (v == 4 && a) || (v == 6 && b) || (v == 8 && c)

/-- What a set of the clauses supports depends on the values of the latches only. -/
theorem supports_tangled_iff {s : Finset ℕ} {c : ℕ} :
    Supports tangled (clauses tangledProof) s c ↔ ∀ u v w : Bool,
      (∀ d ∈ s, satClause (latchValues u v w) (clauses tangledProof d)) →
      satClause (latchValues u v w) (clauses tangledProof c) →
      satClause (latchValues w v v) (clauses tangledProof c) := by
  have hvars : ∀ d, ∀ lit ∈ clauses tangledProof d, strip lit ∈ [4, 6, 8] := by
    intro d
    obtain hlt | hge := Nat.lt_or_ge d tangledProof.length
    · have hall : ∀ cls ∈ tangledProof, ∀ lit ∈ cls, strip lit ∈ [4, 6, 8] := by decide
      exact hall _ (clauses_mem hlt)
    · rw [clauses, List.getD_eq_default _ _ hge]
      exact nofun
  have hsame : ∀ (x : Assignment) (d : ℕ), satClause x (clauses tangledProof d) ↔
      satClause (latchValues (x 4) (x 6) (x 8)) (clauses tangledProof d) := by
    refine fun x d ↦ satClause_congr fun lit hl ↦ ?_
    have hcases := hvars d lit hl
    simp only [List.mem_cons, List.not_mem_nil, or_false] at hcases
    obtain heq | heq | heq := hcases <;> rw [heq] <;> simp [latchValues]
  constructor
  · intro h u v w
    refine h _ _ ⟨?_, ?_, ?_⟩
    · exact ⟨rfl, satClauses_nil, nofun⟩
    · exact ⟨rfl, satClauses_nil, nofun⟩
    · revert u v w
      unfold TransitionRelation.Step
      decide
  · intro h x y hxy hall hc
    have hstep : y 4 = x 8 ∧ y 6 = x 6 ∧ y 8 = x 6 := by
      have hnext := hxy.step
      unfold TransitionRelation.Step tangled at hnext
      simpa [litVal_of_even] using hnext
    rw [hsame, hstep.1, hstep.2.1, hstep.2.2]
    exact h _ _ _ (fun d hd ↦ (hsame x d).mp (hall d hd)) ((hsame x c).mp hc)

theorem provable_stuck : Provable stuck oneVar [[4]] where
  wf := stuck_wellFormed
  vars := oneVar_inv
  owned _ := mentions_latch_four rfl rfl (by decide)
  clause := by decide

/-- Of the clauses 0 and 1 none can stay, and with the last clause the property is inductive. -/
theorem tangled_findSafeMIS : ∃ r, addAll .three (new tangled) 0 tangledProof = .ok r ∧
    ∃ vec cc, r.2.findSafeMIS ⟨.exhaustive, .keep, false⟩ [0, 1] [0] = .ok (false, vec, cc) ∧
      Meets (fun r' ↦ r'.1 = true ∧ ∀ c ∈ [0, 3], c ∈ r'.2.1) (fun _ ↦ False)
        (cc.findSafeMIS ⟨.exhaustive, .keep, false⟩ [3, 0] [0]) := by
  obtain ⟨r, hr⟩ : ∃ r, addAll .three (new tangled) 0 tangledProof = .ok r := ⟨_, rfl⟩
  have hkept : ¬ Refuted ⟨.exhaustive, .keep, false⟩ tangled r.2.clausedb.entries := fun hno ↦
    Bool.false_ne_true hno.1
  have hsearch : Meets _ (fun _ ↦ False) (r.2.findSafeMIS ⟨.exhaustive, .keep, false⟩ [0, 1] [0]) :=
    (findSafeMIS_right provable_tangled (by decide) hr .refl (by decide)).mpr fun hno ↦ hkept hno.1
  obtain ⟨⟨found, vec, cc⟩, hok, hfirst⟩ := hsearch.exists_ok
  have hfalse : found = false := by
    refine Bool.eq_false_iff.mpr fun htrue ↦ ?_
    obtain ⟨t, ht, hnec, hind⟩ := hfirst.1.mp htrue
    have hzero : Supports tangled (clauses tangledProof) [0, 1].toFinset 0 :=
      upward_supports _ _ _ ht (hind 0 (hnec (List.mem_toFinset.mpr List.mem_cons_self)))
    revert hzero
    rw [supports_tangled_iff]
    decide
  subst hfalse
  refine ⟨r, hr, vec, cc, hok, ((findSafeMIS_right provable_tangled (by decide) hr
    (.findSafeMIS .refl (by decide) hok) (by decide)).mpr fun hno ↦ hkept hno.1).imp fun r' hr' ↦ ?_⟩
  have hind : Inductive (Supports tangled (clauses tangledProof)) [3, 0].toFinset := by
    intro c hc
    rw [supports_tangled_iff]
    revert c
    decide
  have hfound : r'.1 = true := hr'.1.mpr ⟨_, Finset.Subset.refl _, by decide, hind⟩
  exact ⟨hfound, fun c hc ↦ (hr'.2 hfound c).mpr ⟨_, Finset.Subset.refl _, hind, by revert c; decide⟩⟩

def halted : TransitionRelation := { stuck with constraints := [4, negate 4] }

theorem halted_wellFormed : halted.WellFormed where
  bad := by decide
  gates := by decide
  latches := by decide
  reset := by decide
  constraints := by decide
  ands := by decide
  latchIDs_eq := rfl
  gateIDs_eq := rfl
  isVar := by decide
  nodup := by decide
  next := by decide
  constraints_defined := by decide
  bad_defined := by decide
  rhs_defined := by decide
  gates_computed := ⟨fun _ ↦ 0, nofun⟩

theorem provable_halted : Provable halted oneVar [[4]] where
  wf := halted_wellFormed
  vars := oneVar_inv
  owned _ := mentions_latch_four rfl rfl (by decide)
  clause := by decide

/-- Option `simplify` is on, and the simplifier finds contradictions. -/
noncomputable def refuter : Backend := ⟨.exhaustive, .refuting, true⟩

theorem refuted_halted {T : Type} {entries : List (ClauseEntry T)} (h : Suits halted entries) :
    Refuted refuter halted entries := by
  refine ⟨rfl, if_neg fun hex ↦ ?_⟩
  obtain ⟨σ, hσ⟩ := hex
  have hcon := (satClauses_twoFrames h hσ).1.fst.constraints
  have hhigh : litVal (frameOf σ 0) 4 = true := hcon 4 List.mem_cons_self
  have hlow : litVal (frameOf σ 0) (negate 4) = true := hcon (negate 4) (by decide)
  rw [litVal_negate, hhigh] at hlow
  exact Bool.false_ne_true hlow

theorem findSafeMIS_right_fails : ¬ ∀ (B : Backend) (tr : TransitionRelation) (vm vm' : VariableManager)
    (proof : ClauseVec) (cc cc' : ConsecutionChecker) (vec nec : List ℕ), Provable tr vm proof →
    (∀ c ∈ proof, ¬ Tautology c) → addAll vm (new tr) 0 proof = .ok (vm', cc) →
    Queried B proof.length cc cc' → (∀ c ∈ vec, c < proof.length) →
    Meets (fun r ↦ FindsMIS tr proof vec nec r.1 r.2.1) (fun _ ↦ False) (cc'.findSafeMIS B vec nec) := by
  intro hall
  obtain ⟨r, hr⟩ : ∃ r, addAll oneVar (new halted) 0 [[4]] = .ok r := ⟨_, rfl⟩
  obtain ⟨vm', cc⟩ := r
  have hadd : Meets _ (fun _ ↦ True) _ := addAll_meets provable_halted.listed fun _ ↦ trivial
  have hrep := (hadd.of_ok hr).2.2 refuter
  have hclaim := hall refuter halted oneVar vm' [[4]] cc cc [0] [0] provable_halted (by decide) hr .refl
    (by decide)
  have hsuits := provable_halted.checkable.suits hrep.entered hrep.vars
  rw [findSafeMIS_refuted hrep provable_halted.checkable (refuted_halted hsuits) (by decide)
    (List.cons_ne_nil _ _) (List.Subset.refl _)] at hclaim
  exact hclaim

end Instances

end ConsecutionChecker

end PME
