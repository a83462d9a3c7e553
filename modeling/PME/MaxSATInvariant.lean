import PME.MaxSATSolver
import PME.Lib.CoreGuided

namespace PME

open Outcome CoreGuided

namespace MSU4MaxSATSolver

def IsModel (s : MSU4MaxSATSolver) (σ : Assignment) : Prop := satClauses σ ([idTrue] :: s.clauses)

def Values (s : MSU4MaxSATSolver) (v : ℕ → Bool) : Prop := ∃ σ, s.IsModel σ ∧ v = litVal σ

def toSearch (s : MSU4MaxSATSolver) (cores : List (List ℕ)) (asked : Option (List ℕ × ℕ)) :
    Search ℕ where
  free := s.initialAssumps
  blocked := s.blockedAssumps
  cores := cores
  lower := s.lb
  upper := s.optimizationSet.length - s.unsatRounds
  asked := asked

/-- What belongs to the callers: their variables, and whether they had named all optimization
literals before they first asked for a solution. -/
structure Callers where
  vars : Set ℕ
  tidy : Prop

instance : Membership ℕ Callers := ⟨fun U v ↦ v ∈ U.vars⟩

structure Stored (U : Callers) (s : MSU4MaxSATSolver) (c : SortingConstraint) : Prop where
  le : c.le = true
  ge : c.ge = false
  cnfized : c.cnfized = true
  length : c.outputs.length = c.getOutputCardinality
  outputs : ∀ y ∈ c.outputs, strip y < s.vars.nextID
  scope : ∀ y ∈ c.outputs, strip y ∈ U → ∃ b ∈ s.blockedAssumps, strip b = strip y
  inputs : ∀ x ∈ c.inputs, strip x ∈ U
  input : s.lastCardinalityInput = [] ∨
    ∃ lits, c.inputs = negateVec lits ∧ lits.insertionSort (· ≤ ·) = s.lastCardinalityInput
  sound : ∀ τ, satClauses τ s.solver.clauses → ∀ i y, c.outputs[i]? = some y →
    i < trueCount τ c.inputs → litVal τ y = true

structure Shape (U : Callers) (s : MSU4MaxSATSolver) : Prop where
  vars : s.vars.Inv
  const : idFalse ∈ U
  lt : ∀ v ∈ U, v < s.vars.nextID
  nonempty : ∀ cls ∈ s.clauses, cls ≠ []
  hard : ∀ v ∈ varsOf s.clauses, v ∈ U
  soft : ∀ lit ∈ s.optimizationSet, strip lit ∈ U
  nodup : s.optimizationSet.Nodup
  perm : (s.initialAssumps ++ s.blockedAssumps).Perm s.optimizationSet
  dbVars : ∀ v ∈ varsOf s.solver.clauses, v < s.vars.nextID
  dbHard : ∀ cls ∈ [idTrue] :: s.clauses, cls ∈ s.solver.clauses
  scope : U.tidy → ∀ v ∈ varsOf s.solver.clauses, v ∈ U →
    v ∈ varsOf s.clauses ∨ v = idFalse ∨ ∃ lit ∈ s.blockedAssumps, strip lit = v
  known : (∃ σ, s.IsModel σ) → ∀ lit ∈ s.blockedAssumps,
    strip lit ∈ s.solver.known ∨ negate lit ∈ s.initialAssumps
  rounds_le : s.unsatRounds ≤ s.blockedAssumps.length
  rounds_zero : s.unsatRounds = 0 → s.blockedAssumps = []
  ub : s.ub = if s.unsatRounds = 0 then unsignedMax else s.optimizationSet.length - s.unsatRounds
  lb : s.lb = s.currentSoln.length
  soln : s.currentSoln = [] ∨
    ∃ σ, s.IsModel σ ∧ s.currentSoln = s.optimizationSet.filter (litVal σ) ∧ satCube σ s.initialAssumps
  stored : ∀ c, s.cardinality = some c → s.Stored U c

def Exact (s : MSU4MaxSATSolver) (τ : Assignment) : Prop :=
  ∀ c, s.cardinality = some c → ∀ i y, c.outputs[i]? = some y →
    (litVal τ y = true ↔ i < trueCount τ c.inputs)

variable {U : Callers} {s s' : MSU4MaxSATSolver} {fail : Failure → Prop}

theorem Shape.isModel (h : Shape U s) {τ : Assignment} (hτ : satClauses τ s.solver.clauses) :
    s.IsModel τ := fun cls hc ↦ hτ cls (h.dbHard cls hc)

theorem Shape.blocked_soft (h : Shape U s) {lit : ℕ} (hl : lit ∈ s.blockedAssumps) :
    strip lit ∈ U := h.soft lit (h.perm.mem_iff.mp (List.mem_append_right _ hl))

theorem Shape.initial_soft (h : Shape U s) {lit : ℕ} (hl : lit ∈ s.initialAssumps) :
    strip lit ∈ U := h.soft lit (h.perm.mem_iff.mp (List.mem_append_left _ hl))

/-- The result of `addCardinality`: assumptions that hold for more than `n` inputs and, as far
as the old variables are concerned, always then. -/
structure Constrained (U : Callers) (s s' : MSU4MaxSATSolver) (cube inputs : Cube) (n : ℕ) : Prop where
  shape : Shape U s'
  frame : s' = { s with
    vars := s'.vars, solver := s'.solver, lastCardinalityInput := s'.lastCardinalityInput,
    cardinality := s'.cardinality }
  le : s.vars.nextID ≤ s'.vars.nextID
  nextID_le : s'.vars.nextID ≤ s.vars.nextID + 2 * inputs.length ^ 3
  db : ∀ τ, satClauses τ s'.solver.clauses → satClauses τ s.solver.clauses
  sound : ∀ τ, satClauses τ s'.solver.clauses → satCube τ cube → n < trueCount τ inputs
  complete : ∀ τ, satClauses τ s.solver.clauses → s.Exact τ → ∃ τ',
    (∀ v, ¬ (s.vars.nextID ≤ v ∧ v < s'.vars.nextID) → τ' v = τ v) ∧
      satClauses τ' s'.solver.clauses ∧ s'.Exact τ' ∧
      (n < trueCount τ inputs → satCube τ' cube)
  cube : ∀ lit ∈ cube, strip lit ∈ U → ∃ b ∈ s.blockedAssumps, strip b = strip lit

theorem le_of_strip_lt {y n : ℕ} (h : strip y < n) (hn : n % 2 = 0) (hle : 2 ^ 32 ≤ y) :
    2 ^ 32 < n := by
  rw [strip_eq] at h
  omega

theorem addCardinality_reuse (h : Shape U s) {inputs lits : Cube} {n : ℕ} {c : SortingConstraint}
    (hn : n < inputs.length) (hids : 2 ^ 32 < s.vars.nextID → fail .narrowed)
    (hc : s.cardinality = some c) (hinputs : c.inputs = negateVec lits) (hperm : lits.Perm inputs)
    (hcard : inputs.length - n < c.getOutputCardinality) :
    Meets (fun cube ↦ Constrained U s s cube inputs n) fail (c.assumeLT (inputs.length - n)) := by
  have hst := h.stored c hc
  have houts : ∀ y ∈ c.outputs, 2 ^ 32 ≤ y → fail .narrowed := fun y hy hle ↦
    hids (le_of_strip_lt (hst.outputs y hy) h.vars.even hle)
  have hcount : ∀ τ, trueCount τ c.inputs < inputs.length - n ↔ n < trueCount τ inputs := by
    intro τ
    have hsum := trueCount_negateVec τ lits
    have heq : trueCount τ lits = trueCount τ inputs := hperm.countP_eq _
    have hlen := hperm.length_eq
    rw [hinputs]
    omega
  refine (SortingConstraint.assumeLT_meets hst.le hst.cnfized hst.length houts (by omega)
    hcard.le).imp fun cube hcube ↦ ?_
  refine ⟨h, rfl, le_rfl, by omega, fun τ hτ ↦ hτ, fun τ hτ hcub ↦ ?_, fun τ hτ hex ↦ ?_, ?_⟩
  · refine (hcount τ).mp (hcube.sound τ (fun _ ↦ hst.sound τ hτ) (fun hge ↦ ?_) hcub)
    rw [hst.ge] at hge
    exact absurd hge Bool.false_ne_true
  · exact ⟨τ, fun _ _ ↦ rfl, hτ, hex, fun hlt ↦
      hcube.complete τ (hex c hc) ((hcount τ).mpr hlt)⟩
  · intro lit hl hU
    obtain ⟨y, hy, hs⟩ := hcube.vars lit hl
    rw [hs] at hU ⊢
    exact hst.scope y hy hU

section Network

variable {vm : VariableManager} {solver : SATAdaptor} {inputs outputs : List ℕ} {m : ℕ}
  {le ge : Bool} {cnf : ClauseVec}

theorem Shape.addNetwork (h : Shape U s) (hvm : vm.Inv) (hle : s.vars.nextID ≤ vm.nextID)
    (hnet : Counts s.vars vm inputs m le ge outputs cnf)
    (hins : ∀ x ∈ inputs, ∃ b ∈ s.blockedAssumps, strip b = strip x)
    (hdb : solver.clauses = s.solver.clauses ++ cnf)
    (hknown : ∀ v ∈ s.solver.known, v ∈ solver.known) :
    Shape U { s with vars := vm, solver := solver } where
  vars := hvm
  const := h.const
  lt v hv := (h.lt v hv).trans_le hle
  nonempty := h.nonempty
  hard := h.hard
  soft := h.soft
  nodup := h.nodup
  perm := h.perm
  dbVars := by
    intro v hv
    obtain ⟨cls, hc, lit, hl, rfl⟩ := hv
    rw [hdb, List.mem_append] at hc
    cases hc with
    | inl hc => exact (h.dbVars _ (mem_varsOf hc hl)).trans_le hle
    | inr hc =>
      obtain ⟨x, hx, heq⟩ | hfresh := hnet.vars _ (mem_varsOf hc hl)
      · obtain ⟨b, hb, hbx⟩ := hins x hx
        rw [← heq, ← hbx]
        exact (h.lt _ (h.blocked_soft hb)).trans_le hle
      · exact hfresh.2
  dbHard cls hc := by
    rw [hdb]
    exact List.mem_append_left _ (h.dbHard cls hc)
  scope := by
    intro htidy v hv hU
    obtain ⟨cls, hc, lit, hl, rfl⟩ := hv
    rw [hdb, List.mem_append] at hc
    cases hc with
    | inl hc => exact h.scope htidy _ (mem_varsOf hc hl) hU
    | inr hc =>
      obtain ⟨x, hx, heq⟩ | hfresh := hnet.vars _ (mem_varsOf hc hl)
      · obtain ⟨b, hb, hbx⟩ := hins x hx
        exact .inr (.inr ⟨b, hb, hbx.trans heq⟩)
      · have hlt := h.lt _ hU
        omega
  known hsat lit hl := (h.known hsat lit hl).imp_left (hknown _)
  rounds_le := h.rounds_le
  rounds_zero := h.rounds_zero
  ub := h.ub
  lb := h.lb
  soln := h.soln
  stored := by
    intro c hc
    have hst := h.stored c hc
    refine ⟨hst.le, hst.ge, hst.cnfized, hst.length, fun y hy ↦ (hst.outputs y hy).trans_le hle,
      hst.scope, hst.inputs, hst.input, fun τ hτ ↦ hst.sound τ ?_⟩
    dsimp only at hτ
    rw [hdb, satClauses_append] at hτ
    exact hτ.1

/-- Old values extend to a new network, and the constraint kept so far stays exact. -/
theorem Shape.extendNetwork (h : Shape U s) (hnet : Counts s.vars vm inputs m le ge outputs cnf)
    (hins : ∀ x ∈ inputs, ∃ b ∈ s.blockedAssumps, strip b = strip x) {τ : Assignment}
    (hτ : satClauses τ s.solver.clauses) (hex : s.Exact τ) :
    ∃ τ', (∀ v, ¬ (s.vars.nextID ≤ v ∧ v < vm.nextID) → τ' v = τ v) ∧
      satClauses τ' (s.solver.clauses ++ cnf) ∧ s.Exact τ' ∧
      ∀ i y, outputs[i]? = some y → (litVal τ' y = true ↔ i < trueCount τ' inputs) := by
  have hlt : ∀ x ∈ inputs, strip x < s.vars.nextID := by
    intro x hx
    obtain ⟨b, hb, hbx⟩ := hins x hx
    rw [← hbx]
    exact h.lt _ (h.blocked_soft hb)
  obtain ⟨τ', hτ', hcnf, houts⟩ := hnet.exists_extension hlt τ
  have hold : ∀ v, v < s.vars.nextID → τ' v = τ v := fun v hv ↦ hτ' v (by omega)
  refine ⟨τ', hτ', (satClauses_append _ _).mpr ⟨?_, hcnf⟩, fun c hc i y hy ↦ ?_, houts⟩
  · exact (satClauses_congr fun v hv ↦ hold v (h.dbVars v hv)).mpr hτ
  · have hst := h.stored c hc
    have hv : litVal τ' y = litVal τ y :=
      litVal_congr (hold _ (hst.outputs y (List.mem_of_getElem? hy)))
    have hcount : trueCount τ' c.inputs = trueCount τ c.inputs :=
      trueCount_congr fun x hx ↦ hold _ (h.lt _ (hst.inputs x hx))
    rw [hv, hcount]
    exact hex c hc i y hy

end Network

theorem addCardinality_meets (h : Shape U s) {n : ℕ} (hn : n < s.blockedAssumps.length)
    (hids : ∀ e : Failure, e = .narrowed ∨ e = .idsExhausted →
      2 ^ 32 < s.vars.nextID + 2 * s.blockedAssumps.length ^ 3 → fail e) :
    Meets (fun r ↦ Constrained U s r.2 r.1 s.blockedAssumps n) fail
      (s.addCardinality s.blockedAssumps n) := by
  obtain ⟨inputs, hinputs⟩ : ∃ inputs, inputs = s.blockedAssumps := ⟨_, rfl⟩
  have hne : inputs ≠ [] := by
    rw [hinputs]
    exact List.length_pos_iff.mp (by omega)
  have hpos : 0 < inputs.length := List.length_pos_iff.mpr hne
  have hmax : maxId + 1 = 2 ^ 48 := rfl
  rw [← hinputs] at hn hids ⊢
  unfold addCardinality
  have hempty : (!inputs.isEmpty) = true := by simpa using hne
  rw [hempty, ensure_true, ok_bind]
  dsimp only
  cases hreuse : s.cardinality.filter fun c ↦
      inputs.insertionSort (· ≤ ·) == s.lastCardinalityInput &&
        decide (c.getOutputCardinality > inputs.length - n) with
  | some c =>
    obtain ⟨hc, hcond⟩ := Option.filter_eq_some_iff.mp hreuse
    rw [Bool.and_eq_true, beq_iff_eq, decide_eq_true_eq] at hcond
    have hlast : s.lastCardinalityInput ≠ [] := by
      rw [← hcond.1]
      intro hnil
      have hlen := (List.perm_insertionSort (· ≤ ·) inputs).length_eq
      rw [hnil, List.length_nil] at hlen
      omega
    obtain hnil | ⟨lits, hlits, hsort⟩ := (h.stored c hc).input
    · exact absurd hnil hlast
    have hperm : lits.Perm inputs := by
      refine (List.perm_insertionSort (· ≤ ·) lits).symm.trans ?_
      rw [hsort, ← hcond.1]
      exact List.perm_insertionSort (· ≤ ·) inputs
    refine (addCardinality_reuse h hn (fun hlt ↦ hids _ (.inl rfl) (by omega)) hc hlits hperm
      hcond.2).bind fun cube hcube ↦ ?_
    exact hcube
  | none =>
    have hsub : ∀ x ∈ inputs, ∃ b ∈ s.blockedAssumps, strip b = strip x := fun x hx ↦
      ⟨x, hinputs ▸ hx, rfl⟩
    have hlt : ∀ x ∈ inputs, strip x < s.vars.nextID := by
      intro x hx
      rw [hinputs] at hx
      exact h.lt _ (h.blocked_soft hx)
    dsimp only
    by_cases hneg : inputs.length - n < n * 8 % 2 ^ 32
    · rw [if_pos hneg]
      have hnsub : ∀ x ∈ negateVec inputs, ∃ b ∈ s.blockedAssumps, strip b = strip x := by
        intro x hx
        obtain ⟨b, hb, rfl⟩ := List.mem_map.mp hx
        exact ⟨b, hinputs ▸ hb, (strip_negate b).symm⟩
      have hnlt : ∀ x ∈ negateVec inputs, strip x < s.vars.nextID := by
        intro x hx
        obtain ⟨b, hb, hbx⟩ := hnsub x hx
        rw [← hbx]
        exact h.lt _ (h.blocked_soft hb)
      have hlen : (negateVec inputs).length = inputs.length := List.length_map _
      obtain ⟨c, hc⟩ : ∃ c, c = (SortingConstraint.sortingLEqConstraint.addInputs
        (negateVec inputs)).setCardinality (inputs.length - n + 1) := ⟨_, rfl⟩
      have hcin : c.inputs = negateVec inputs := by rw [hc]; rfl
      have hccard : c.cardinality = inputs.length - n + 1 := by rw [hc]; rfl
      have hcle : c.le = true := by rw [hc]; rfl
      have hcge : c.ge = false := by rw [hc]; rfl
      rw [← hc]
      refine (SortingConstraint.CNFize_meets h.vars (by rw [hcle]; rfl) (by rw [hcin]; omega)
        (by rw [hccard]; omega) (by rw [hcin]; exact fun w hw ↦ .inl (hnlt w hw)) ?_).bind fun r hr ↦ ?_
      · rw [hcin, hlen]
        exact fun hlt ↦ hids _ (.inr rfl) (by omega)
      obtain ⟨vm, c', cnf⟩ := r
      obtain ⟨hvm, hle, hnext, hc', hnet⟩ := hr
      dsimp only at hvm hle hnext hc' hnet ⊢
      obtain ⟨outs, houts⟩ : ∃ outs, outs = c'.outputs := ⟨_, rfl⟩
      rw [← houts] at hc' hnet
      subst hc'
      rw [hcin, hlen] at hnext
      rw [hcin, hcle, hcge] at hnet
      refine (SATAdaptor.addClauses_meets hnet.nonempty).bind fun solver hsolver ↦ ?_
      obtain ⟨hdb, -, -, hknown⟩ := hsolver
      have hout : ∀ y ∈ outs, strip y < vm.nextID := by
        intro y hy
        obtain hy' | hy' := hnet.wires y hy
        · exact (hnlt y hy').trans_le hle
        · exact hy'.2
      have hcard : ({ c with outputs := outs, cnfized := true } :
          SortingConstraint).getOutputCardinality = min (inputs.length - n + 1) inputs.length := by
        simp only [SortingConstraint.getOutputCardinality, hcin, hccard, hlen]
      have houtlen : outs.length = min (inputs.length - n + 1) inputs.length := by
        rw [hnet.length, hlen, hccard, Nat.min_comm]
      refine (SortingConstraint.assumeLT_meets (c := { c with outputs := outs, cnfized := true })
        hcle rfl (houtlen.trans hcard.symm) (fun y hy hbig ↦ hids _ (.inl rfl) ?_)
        (by omega) (by rw [hcard]; omega)).bind fun cube hcube ↦ ?_
      · have := le_of_strip_lt (hout y hy) hvm.even hbig
        omega
      rw [meets_pure]
      have hcount : ∀ τ, trueCount τ c.inputs < inputs.length - n ↔ n < trueCount τ inputs := by
        intro τ
        have hsum := trueCount_negateVec τ inputs
        rw [hcin]
        omega
      have hshape := h.addNetwork hvm hle hnet hnsub hdb fun v hv ↦ (hknown v).mpr (.inl hv)
      have hscope : ∀ y ∈ outs, strip y ∈ U → ∃ b ∈ s.blockedAssumps, strip b = strip y := by
        intro y hy hU
        obtain hy' | hy' := hnet.wires y hy
        · exact hnsub y hy'
        · have := h.lt _ hU
          omega
      have hnetsound : ∀ τ, satClauses τ solver.clauses → ∀ i y, outs[i]? = some y →
          i < trueCount τ c.inputs → litVal τ y = true := by
        intro τ hτ
        rw [hdb, satClauses_append] at hτ
        rw [hcin]
        exact hnet.atLeast rfl τ hτ.2
      refine ⟨{ hshape with stored := ?_ }, rfl, hle, hnext, fun τ hτ ↦ ?_, fun τ hτ hcub ↦ ?_,
        fun τ hτ hex ↦ ?_, fun lit hl hU ↦ ?_⟩
      · intro c₁ hc₁
        cases hc₁
        exact ⟨hcle, hcge, rfl, houtlen.trans hcard.symm, hout, hscope, by
          dsimp only
          rw [hcin]
          intro x hx
          obtain ⟨b, hb, hbx⟩ := hnsub x hx
          rw [← hbx]
          exact h.blocked_soft hb, .inr ⟨inputs, hcin, rfl⟩, hnetsound⟩
      · dsimp only at hτ
        rw [hdb, satClauses_append] at hτ
        exact hτ.1
      · refine (hcount τ).mp (hcube.sound τ (fun _ ↦ hnetsound τ hτ) (fun hge ↦ ?_) hcub)
        rw [hcge] at hge
        exact absurd hge Bool.false_ne_true
      · obtain ⟨τ', hτ', hdb', -, hexact⟩ := h.extendNetwork hnet hnsub hτ hex
        have hcnt : trueCount τ' inputs = trueCount τ inputs :=
          trueCount_congr fun x hx ↦ hτ' _ (by have := hlt x hx; omega)
        refine ⟨τ', hτ', by rw [hdb]; exact hdb', ?_, fun hlt' ↦ ?_⟩
        · intro c₁ hc₁
          cases hc₁
          dsimp only
          rw [hcin]
          exact hexact
        · refine hcube.complete τ' ?_ ((hcount τ').mpr (by rw [hcnt]; exact hlt'))
          dsimp only
          rw [hcin]
          exact hexact
      · obtain ⟨y, hy, hs⟩ := hcube.vars lit hl
        rw [hs] at hU ⊢
        exact hscope y hy hU
    · rw [if_neg hneg]
      obtain ⟨c, hc⟩ : ∃ c, c = (SortingConstraint.sortingGEqConstraint.addInputs
        inputs).setCardinality (n + 1) := ⟨_, rfl⟩
      have hcin : c.inputs = inputs := by rw [hc]; rfl
      have hccard : c.cardinality = n + 1 := by rw [hc]; rfl
      have hcle : c.le = false := by rw [hc]; rfl
      have hcge : c.ge = true := by rw [hc]; rfl
      rw [← hc]
      refine (SortingConstraint.CNFize_meets h.vars (by rw [hcge, hcle]; rfl) (by rw [hcin]; omega)
        (by rw [hccard]; omega) (by rw [hcin]; exact fun w hw ↦ .inl (hlt w hw)) ?_).bind fun r hr ↦ ?_
      · rw [hcin]
        exact fun hlt ↦ hids _ (.inr rfl) (by omega)
      obtain ⟨vm, c', cnf⟩ := r
      obtain ⟨hvm, hle, hnext, hc', hnet⟩ := hr
      dsimp only at hvm hle hnext hc' hnet ⊢
      obtain ⟨outs, houts⟩ : ∃ outs, outs = c'.outputs := ⟨_, rfl⟩
      rw [← houts] at hc' hnet
      subst hc'
      rw [hcin] at hnext
      rw [hcin, hcle, hcge] at hnet
      refine (SATAdaptor.addClauses_meets hnet.nonempty).bind fun solver hsolver ↦ ?_
      obtain ⟨hdb, -, -, hknown⟩ := hsolver
      have hout : ∀ y ∈ outs, strip y < vm.nextID := by
        intro y hy
        obtain hy' | hy' := hnet.wires y hy
        · exact (hlt y hy').trans_le hle
        · exact hy'.2
      have hcard : ({ c with outputs := outs, cnfized := true } :
          SortingConstraint).getOutputCardinality = min (n + 1) inputs.length := by
        simp only [SortingConstraint.getOutputCardinality, hcin, hccard]
      have houtlen : outs.length = min (n + 1) inputs.length := by
        rw [hnet.length, hccard, Nat.min_comm]
      refine (SortingConstraint.assumeGT_meets (c := { c with outputs := outs, cnfized := true })
        hcge rfl (houtlen.trans hcard.symm) (fun y hy hbig ↦ hids _ (.inl rfl) ?_)
        (by rw [hcard]; omega)).bind fun cube hcube ↦ ?_
      · have := le_of_strip_lt (hout y hy) hvm.even hbig
        omega
      rw [meets_pure]
      have hshape := h.addNetwork hvm hle hnet hsub hdb fun v hv ↦ (hknown v).mpr (.inl hv)
      refine ⟨{ hshape with stored := fun c₁ hc₁ ↦ ?_ }, rfl, hle, hnext, fun τ hτ ↦ ?_,
        fun τ hτ hcub ↦ ?_, fun τ hτ hex ↦ ?_, fun lit hl hU ↦ ?_⟩
      · exact { hshape.stored c₁ hc₁ with input := .inl rfl }
      · dsimp only at hτ
        rw [hdb, satClauses_append] at hτ
        exact hτ.1
      · dsimp only at hτ
        rw [hdb, satClauses_append] at hτ
        have hgt := hcube.sound τ (fun hle ↦ ?_) (fun _ ↦ ?_) hcub
        · dsimp only at hgt
          rw [hcin] at hgt
          exact hgt
        · rw [hcle] at hle
          exact absurd hle Bool.false_ne_true
        · dsimp only
          rw [hcin]
          exact hnet.atMost rfl τ hτ.2
      · obtain ⟨τ', hτ', hdb', hex', hexact⟩ := h.extendNetwork hnet hsub hτ hex
        have hcnt : trueCount τ' inputs = trueCount τ inputs :=
          trueCount_congr fun x hx ↦ hτ' _ (by have := hlt x hx; omega)
        refine ⟨τ', hτ', by rw [hdb]; exact hdb', hex', fun hlt' ↦ hcube.complete τ' ?_ ?_⟩
        · dsimp only
          rw [hcin]
          exact hexact
        · dsimp only
          rw [hcin, hcnt]
          exact hlt'
      · obtain ⟨y, hy, hs⟩ := hcube.vars lit hl
        rw [hs] at hU ⊢
        obtain hy' | hy' := hnet.wires y hy
        · exact hsub y hy'
        · have := h.lt _ hU
          omega

end MSU4MaxSATSolver

end PME
