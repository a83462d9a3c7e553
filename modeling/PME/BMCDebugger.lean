import PME.BasicMCSFinder
import PME.DebugExecution

namespace PME

open Outcome Exploration DebugTransitionRelation

structure BMCDebugger where
  tr : DebugTransitionRelation
  kmax : ℕ
  cardinality : ℕ
  cardinalityConstraint : SortingConstraint
  blockingClauses : ClauseVec
  debugLatches : List ℕ
  solver : BMCSolver

namespace BMCDebugger

def new (tr : DebugTransitionRelation) : BMCDebugger where
  tr := tr
  kmax := 4
  cardinality := cardinalityInf
  cardinalityConstraint :=
    (idSet tr.debugLatchIDs).foldl SortingConstraint.addInput .sortingLEqConstraint
  blockingClauses := []
  debugLatches := idSet tr.debugLatchIDs
  solver := .new tr.toTransitionRelation

def setKMax (s : BMCDebugger) (k : ℕ) : BMCDebugger := { s with kmax := k }

def setCardinality (s : BMCDebugger) (vm : VariableManager) (n : ℕ) :
    Result (BMCDebugger × VariableManager) := do
  if s.cardinality < n ∨ s.cardinality = cardinalityInf then
    -- the constraint has one output more, so that at most `n` can be assumed
    let c := s.cardinalityConstraint.setCardinality (n + 1)
    let solver ← s.solver.clearRestrictions.restrictInitialStatesAll s.blockingClauses
    let (vm, c, cnf) ← c.CNFize vm
    let solver ← solver.restrictInitialStatesAll cnf
    return ({ s with cardinality := n, cardinalityConstraint := c, solver := solver }, vm)
  else return ({ s with cardinality := n }, vm)

def clearCardinality (s : BMCDebugger) : BMCDebugger := { s with cardinality := cardinalityInf }

def blockingClause (d : DebugTransitionRelation) (soln : CorrectionSet) : Clause :=
  soln.map fun id ↦ negate (d.debugLatchForGate id)

def blockSolution (s : BMCDebugger) (soln : CorrectionSet) : Result BMCDebugger := do
  let block := blockingClause s.tr soln
  let solver ← s.solver.restrictInitialStates block
  return { s with solver := solver, blockingClauses := s.blockingClauses ++ [block] }

def extractSolution (s : BMCDebugger) (cex : SafetyCounterExample) : Result CorrectionSet :=
  match cex with
  | [] => throw .assertion
  | init :: _ =>
    (init.state.filter fun latch ↦ !isNegated latch && s.debugLatches.contains latch).mapM
      s.tr.gateForDebugLatch

def onlyTheseGates (s : BMCDebugger) (gates : List ℕ) : Cube :=
  let gateDLs := gates.map s.tr.debugLatchForGate
  (s.debugLatches.filter fun dl ↦ !gateDLs.contains dl).map negate

def debugWithAssumptions (S : SAT.Solver) (s : BMCDebugger) (assumps : Cube) (kMin kMax : ℕ) :
    Result (Option CorrectionSet × BMCDebugger) := do
  let cardinalityAssumps ← (if s.cardinality < cardinalityInf then
      s.cardinalityConstraint.assumeLEq s.cardinality else pure [])
  let (bmc, solver) ← s.solver.solveRange S kMin kMax (assumps ++ cardinalityAssumps)
  let s := { s with solver := solver }
  if bmc.result = .unsafeAt then return (some (← s.extractSolution bmc.cex), s)
  else return (none, s)

def debugRange (S : SAT.Solver) (s : BMCDebugger) (kMin kMax : ℕ) :
    Result (Option CorrectionSet × BMCDebugger) := s.debugWithAssumptions S [] kMin kMax

def debugOverGatesRange (S : SAT.Solver) (s : BMCDebugger) (gates : List ℕ) (kMin kMax : ℕ) :
    Result (Option CorrectionSet × BMCDebugger) :=
  s.debugWithAssumptions S (s.onlyTheseGates gates) kMin kMax

def debugAtK (S : SAT.Solver) (s : BMCDebugger) (k : ℕ) :
    Result (Option CorrectionSet × BMCDebugger) := s.debugWithAssumptions S [] k k

def debugOverGatesAtK (S : SAT.Solver) (s : BMCDebugger) (gates : List ℕ) (k : ℕ) :
    Result (Option CorrectionSet × BMCDebugger) :=
  s.debugWithAssumptions S (s.onlyTheseGates gates) k k

def debug (S : SAT.Solver) (s : BMCDebugger) : Result (Option CorrectionSet × BMCDebugger) :=
  s.debugWithAssumptions S [] 0 s.kmax

def debugOverGates (S : SAT.Solver) (s : BMCDebugger) (gates : List ℕ) :
    Result (Option CorrectionSet × BMCDebugger) :=
  s.debugWithAssumptions S (s.onlyTheseGates gates) 0 s.kmax

def blockFound (r : Option CorrectionSet × BMCDebugger) :
    Result (Option CorrectionSet × BMCDebugger) :=
  match r with
  | (some soln, s) => do
    if soln.isEmpty then return (some soln, s) else return (some soln, ← s.blockSolution soln)
  | (none, s) => return (none, s)

def debugRangeAndBlock (S : SAT.Solver) (s : BMCDebugger) (kMin kMax : ℕ) :
    Result (Option CorrectionSet × BMCDebugger) := do blockFound (← s.debugRange S kMin kMax)

def debugOverGatesRangeAndBlock (S : SAT.Solver) (s : BMCDebugger) (gates : List ℕ)
    (kMin kMax : ℕ) : Result (Option CorrectionSet × BMCDebugger) := do
  blockFound (← s.debugOverGatesRange S gates kMin kMax)

def debugAtKAndBlock (S : SAT.Solver) (s : BMCDebugger) (k : ℕ) :
    Result (Option CorrectionSet × BMCDebugger) := s.debugRangeAndBlock S k k

def debugOverGatesAtKAndBlock (S : SAT.Solver) (s : BMCDebugger) (gates : List ℕ) (k : ℕ) :
    Result (Option CorrectionSet × BMCDebugger) := s.debugOverGatesRangeAndBlock S gates k k

def FreedWithin (tr : TransitionRelation) (kMin kMax : ℕ) (D : Finset ℕ) : Prop :=
  ∃ k, (kMin ≤ k ∧ k ≤ kMax) ∧ tr.FreedBadAt D k

variable {tr : TransitionRelation} {n : ℕ} {d : DebugTransitionRelation} {s : BMCDebugger}
  {vm vm' : VariableManager} {fail : Failure → Prop} {limit : ℕ} {blocked : List (Finset ℕ)}
  {gates : List ℕ} {soln : CorrectionSet} {σ : Assignment} {assumps : Cube} {k : ℕ}

section Clauses

theorem satClause_blockingClause (h : Debugs tr n d) (hsub : soln ⊆ tr.gateIDs) :
    satClause σ (blockingClause d soln) ↔ ¬ soln.toFinset ⊆ (d.selected σ).toFinset := by
  have hlow : ∀ g ∈ soln, litVal σ (negate (d.debugLatchForGate g)) = true ↔
      g ∉ (d.selected σ).toFinset := by
    intro g hg
    have hmem := hsub hg
    rw [litVal_negate, Bool.not_eq_true', litVal_of_even (h.latch_isVar hmem).2.2,
      List.mem_toFinset, mem_selected, h.gateIDs, Bool.eq_false_iff]
    exact ⟨fun hlow hsel ↦ hlow hsel.2, fun hno hhigh ↦ hno ⟨hmem, hhigh⟩⟩
  rw [Finset.not_subset]
  constructor
  · intro hsat
    obtain ⟨lit, hl, hv⟩ := hsat
    obtain ⟨g, hg, rfl⟩ := List.mem_map.mp hl
    exact ⟨g, List.mem_toFinset.mpr hg, (hlow g hg).mp hv⟩
  · intro hex
    obtain ⟨g, hg, hno⟩ := hex
    rw [List.mem_toFinset] at hg
    exact ⟨_, List.mem_map_of_mem hg, (hlow g hg).mpr hno⟩

theorem varsOf_blockingClause (h : Debugs tr n d) (hsub : soln ⊆ tr.gateIDs) :
    ∀ lit ∈ blockingClause d soln, strip lit ≤ maxId := by
  intro lit hl
  obtain ⟨g, hg, rfl⟩ := List.mem_map.mp hl
  obtain ⟨-, hmax, heven⟩ := h.latch_isVar (hsub hg)
  rw [strip_negate, strip_of_even heven]
  exact hmax

theorem mem_debugLatches (h : Debugs tr n d) {dl : ℕ} :
    dl ∈ idSet d.debugLatchIDs ↔ ∃ g ∈ tr.gateIDs, d.debugLatchForGate g = dl := by
  rw [mem_idSet, h.debugLatchIDs_eq, List.mem_map]

structure Leaves (tr : TransitionRelation) (d : DebugTransitionRelation) (gates : List ℕ) (assumps : Cube) :
    Prop where
  sat_iff : ∀ σ, satCube σ assumps ↔ (d.selected σ).toFinset ⊆ gates.toFinset
  le : ∀ lit ∈ assumps, strip lit ≤ maxId

theorem latchFor_injective (h : Debugs tr n d) {g g' : ℕ} (hg : g ∈ tr.gateIDs) (hg' : g' ∈ tr.gateIDs)
    (heq : d.debugLatchForGate g = d.debugLatchForGate g') : g = g' := by
  have hnodup := h.debugLatchIDs_nodup
  rw [h.debugLatchIDs_eq] at hnodup
  exact List.inj_on_of_nodup_map hnodup hg hg' heq

theorem leaves_onlyTheseGates (h : Debugs tr n d) (htr : s.tr = d)
    (hlatches : s.debugLatches = idSet d.debugLatchIDs) (hsub : gates ⊆ tr.gateIDs) :
    Leaves tr d gates (s.onlyTheseGates gates) := by
  have hmem : ∀ lit, lit ∈ s.onlyTheseGates gates ↔
      ∃ g ∈ tr.gateIDs, g ∉ gates ∧ negate (d.debugLatchForGate g) = lit := by
    intro lit
    rw [onlyTheseGates, htr, hlatches, List.mem_map]
    constructor
    · intro hl
      obtain ⟨dl, hdl, rfl⟩ := hl
      rw [List.mem_filter, mem_debugLatches h, Bool.not_eq_true', Bool.eq_false_iff, Ne,
        List.contains_iff_mem] at hdl
      obtain ⟨⟨g, hg, rfl⟩, hno⟩ := hdl
      exact ⟨g, hg, fun hin ↦ hno (List.mem_map_of_mem hin), rfl⟩
    · intro hl
      obtain ⟨g, hg, hno, rfl⟩ := hl
      refine ⟨_, ?_, rfl⟩
      rw [List.mem_filter, mem_debugLatches h, Bool.not_eq_true', Bool.eq_false_iff, Ne,
        List.contains_iff_mem, List.mem_map]
      refine ⟨⟨g, hg, rfl⟩, fun hin ↦ ?_⟩
      obtain ⟨g', hg', heq⟩ := hin
      exact hno (latchFor_injective h (hsub hg') hg heq ▸ hg')
  constructor
  · intro σ
    constructor
    · intro hsat g hg
      rw [List.mem_toFinset, mem_selected, h.gateIDs] at hg
      by_contra hno
      have hlow := hsat _ ((hmem _).mpr ⟨g, hg.1, fun hin ↦ hno (List.mem_toFinset.mpr hin), rfl⟩)
      rw [litVal_negate, litVal_of_even (h.latch_isVar hg.1).2.2, hg.2] at hlow
      exact Bool.false_ne_true hlow
    · intro hsel lit hl
      obtain ⟨g, hg, hno, rfl⟩ := (hmem lit).mp hl
      rw [litVal_negate, Bool.not_eq_true', litVal_of_even (h.latch_isVar hg).2.2,
        Bool.eq_false_iff]
      intro hhigh
      have hin : g ∈ (d.selected σ).toFinset :=
        List.mem_toFinset.mpr (mem_selected.mpr ⟨h.gateIDs ▸ hg, hhigh⟩)
      exact hno (List.mem_toFinset.mp (hsel hin))
  · intro lit hl
    obtain ⟨g, hg, -, rfl⟩ := (hmem lit).mp hl
    obtain ⟨-, hmax, heven⟩ := h.latch_isVar hg
    rw [strip_negate, strip_of_even heven]
    exact hmax

theorem leaves_nil (h : Debugs tr n d) : Leaves tr d tr.gateIDs [] := by
  refine ⟨fun σ ↦ ⟨fun _ g hg ↦ ?_, fun _ ↦ satCube_nil⟩, nofun⟩
  rw [List.mem_toFinset, mem_selected, h.gateIDs] at hg
  exact List.mem_toFinset.mpr hg.1

end Clauses

def Encoded (d : DebugTransitionRelation) (lo hi : ℕ) (c : SortingConstraint) (cnf : ClauseVec) : Prop :=
  ∃ vm₀ vm₁ : VariableManager, lo ≤ vm₀.nextID ∧ vm₁.nextID ≤ hi ∧ c.cnfized = true ∧
    Counts vm₀ vm₁ (idSet d.debugLatchIDs) c.cardinality true false c.outputs cnf

def Limits (tr : TransitionRelation) (s : BMCDebugger) (limit : ℕ) (counted : Prop) : Prop :=
  s.cardinality = cardinalityInf ∧ limit = tr.gateIDs.length ∨
    s.cardinality = limit ∧ limit ≤ tr.gateIDs.length ∧ limit < s.cardinalityConstraint.cardinality ∧
      counted

/-- The state of a debugger in which solutions may have `limit` gates and those of `blocked`
are blocked. -/
structure Rep (tr : TransitionRelation) (n : ℕ) (d : DebugTransitionRelation) (limit : ℕ)
    (blocked : List (Finset ℕ)) (vm : VariableManager) (s : BMCDebugger) : Prop where
  tr_eq : s.tr = d
  latches : s.debugLatches = idSet d.debugLatchIDs
  inv : vm.Inv
  le_nextID : n + 4 * tr.gateIDs.length ≤ vm.nextID
  constraint : s.cardinalityConstraint.inputs = idSet d.debugLatchIDs ∧
    s.cardinalityConstraint.le = true ∧ s.cardinalityConstraint.ge = false
  blocks : ∃ solns : List CorrectionSet, s.blockingClauses = solns.map (blockingClause d) ∧
    solns.map List.toFinset = blocked ∧ ∀ soln ∈ solns, soln ≠ [] ∧ soln ⊆ tr.gateIDs
  restricted : ∃ restrictions cnf,
    BMCSolver.Ready d.toTransitionRelation restrictions s.solver ∧
    (∀ cls, cls ∈ restrictions ↔ cls ∈ s.blockingClauses ∨ cls ∈ cnf) ∧
    (cnf = [] ∨ Encoded d (n + 4 * tr.gateIDs.length) vm.nextID s.cardinalityConstraint cnf) ∧
    Limits tr s limit (Encoded d (n + 4 * tr.gateIDs.length) vm.nextID s.cardinalityConstraint cnf)

theorem Encoded.mono {lo hi hi' : ℕ} {c : SortingConstraint} {cnf : ClauseVec}
    (h : Encoded d lo hi c cnf) (hle : hi ≤ hi') : Encoded d lo hi' c cnf := by
  obtain ⟨vm₀, vm₁, hlo, hhi, hcounts⟩ := h
  exact ⟨vm₀, vm₁, hlo, hhi.trans hle, hcounts⟩

theorem addInput_foldl (c : SortingConstraint) (ids : List ℕ) :
    ids.foldl SortingConstraint.addInput c = c.addInputs ids := by
  induction ids generalizing c with
  | nil => simp [SortingConstraint.addInputs]
  | cons id ids ih =>
    rw [List.foldl_cons, ih]
    simp [SortingConstraint.addInput, SortingConstraint.addInputs]

theorem rep_new (hvm : vm.Inv) (hle : n + 4 * tr.gateIDs.length ≤ vm.nextID) :
    Rep tr n d tr.gateIDs.length [] vm (new d) where
  tr_eq := rfl
  latches := rfl
  inv := hvm
  le_nextID := hle
  constraint := by
    simp [new, addInput_foldl, SortingConstraint.addInputs, SortingConstraint.sortingLEqConstraint]
  blocks := ⟨[], rfl, rfl, nofun⟩
  restricted := by
    refine ⟨[], [], BMCSolver.ready_new, fun cls ↦ ?_, .inl rfl, .inl ⟨rfl, rfl⟩⟩
    simp [new]

theorem Rep.setKMax (h : Rep tr n d limit blocked vm s) (k : ℕ) :
    Rep tr n d limit blocked vm (s.setKMax k) :=
  ⟨h.tr_eq, h.latches, h.inv, h.le_nextID, h.constraint, h.blocks, h.restricted⟩

theorem Rep.advance (h : Rep tr n d limit blocked vm s) (hvm : vm'.Inv) (hle : vm.nextID ≤ vm'.nextID) :
    Rep tr n d limit blocked vm' s where
  tr_eq := h.tr_eq
  latches := h.latches
  inv := hvm
  le_nextID := h.le_nextID.trans hle
  constraint := h.constraint
  blocks := h.blocks
  restricted := by
    obtain ⟨restrictions, cnf, hready, hmem, hcnf, hlimits⟩ := h.restricted
    refine ⟨restrictions, cnf, hready, hmem, hcnf.imp_right fun he ↦ he.mono hle, ?_⟩
    exact hlimits.imp_right fun ⟨hcard, hlim, hlt, he⟩ ↦ ⟨hcard, hlim, hlt, he.mono hle⟩

theorem Rep.clearCardinality (h : Rep tr n d limit blocked vm s) :
    Rep tr n d tr.gateIDs.length blocked vm s.clearCardinality where
  tr_eq := h.tr_eq
  latches := h.latches
  inv := h.inv
  le_nextID := h.le_nextID
  constraint := h.constraint
  blocks := h.blocks
  restricted := by
    obtain ⟨restrictions, cnf, hready, hmem, hcnf, -⟩ := h.restricted
    exact ⟨restrictions, cnf, hready, hmem, hcnf, .inl ⟨rfl, rfl⟩⟩

theorem Rep.blocking_nonempty (h : Rep tr n d limit blocked vm s) :
    ∀ cls ∈ s.blockingClauses, cls ≠ [] := by
  obtain ⟨solns, hblocking, -, hsolns⟩ := h.blocks
  intro cls hc
  rw [hblocking] at hc
  obtain ⟨soln, hmem, rfl⟩ := List.mem_map.mp hc
  rw [blockingClause, Ne, List.map_eq_nil_iff]
  exact (hsolns soln hmem).1

theorem Rep.blockSolution (h : Rep tr n d limit blocked vm s) (hne : soln ≠ [])
    (hsub : soln ⊆ tr.gateIDs) :
    Meets (Rep tr n d limit (blocked ++ [soln.toFinset]) vm) fail (s.blockSolution soln) := by
  obtain ⟨restrictions, cnf, hready, hmem, hcnf, hlimits⟩ := h.restricted
  obtain ⟨solns, hblocking, hblocked, hsolns⟩ := h.blocks
  have hcne : blockingClause s.tr soln ≠ [] := by
    rw [blockingClause, Ne, List.map_eq_nil_iff]
    exact hne
  unfold BMCDebugger.blockSolution
  refine (hready.restrict hcne).bind fun solver hsolver ↦ ?_
  rw [h.tr_eq] at hsolver ⊢
  refine ⟨rfl, h.latches, h.inv, h.le_nextID, h.constraint, ⟨solns ++ [soln], ?_, ?_, ?_⟩,
    ⟨restrictions ++ [blockingClause d soln], cnf, hsolver, fun cls ↦ ?_, hcnf, hlimits⟩⟩
  · rw [hblocking, List.map_append, List.map_singleton]
  · rw [← hblocked, List.map_append, List.map_singleton]
  · exact List.forall_mem_append.mpr ⟨hsolns, List.forall_mem_singleton.mpr ⟨hne, hsub⟩⟩
  · rw [List.mem_append, List.mem_append, hmem, or_right_comm]

/-- Setting a cardinality that the constraint has no outputs for makes a new constraint, with
all solutions blocked again. -/
theorem Rep.setCardinality (h : Rep tr n d limit blocked vm s) (hd : Debugs tr n d) {m : ℕ}
    (hpos : tr.gateIDs ≠ []) (hm : m ≤ tr.gateIDs.length)
    (hids : maxId + 1 < vm.nextID + 2 * tr.gateIDs.length ^ 3 → fail .idsExhausted) :
    Meets (fun r ↦ Rep tr n d m blocked r.2 r.1 ∧ vm.nextID ≤ r.2.nextID ∧
      r.2.nextID ≤ vm.nextID + 2 * tr.gateIDs.length ^ 3) fail (s.setCardinality vm m) := by
  obtain ⟨restrictions, cnf, hready, hmem, hcnf, hlimits⟩ := h.restricted
  unfold BMCDebugger.setCardinality
  split
  · have hlen : (idSet d.debugLatchIDs).length = tr.gateIDs.length := hd.length_latches
    obtain ⟨hinputs, hle, hge⟩ := h.constraint
    let c := s.cardinalityConstraint.setCardinality (m + 1)
    have hin : c.inputs = idSet d.debugLatchIDs := hinputs
    have hdir : (c.le || c.ge) = true := by
      change (s.cardinalityConstraint.le || s.cardinalityConstraint.ge) = true
      rw [hle, Bool.true_or]
    have hold : ∀ w ∈ c.inputs, Old vm.nextID (strip w) := by
      intro w hw
      rw [hin, mem_debugLatches hd] at hw
      obtain ⟨g, hg, rfl⟩ := hw
      have hlt := hd.latch_lt hg
      have hle := h.le_nextID
      rw [strip_of_even (hd.latch_isVar hg).2.2]
      left
      omega
    have hlength : 0 < c.inputs.length := by
      rw [hin, hlen]
      exact List.length_pos_of_ne_nil hpos
    have hexhausted : maxId + 1 < vm.nextID + 2 * c.inputs.length ^ 3 → fail .idsExhausted := by
      rw [hin, hlen]
      exact hids
    have hnetwork := SortingConstraint.CNFize_meets h.inv hdir hlength (Nat.succ_pos m) hold hexhausted
    rw [hin, hlen] at hnetwork
    refine (hready.clear.restrictAll h.blocking_nonempty).bind fun solver₁ h₁ ↦ ?_
    refine hnetwork.bind fun r hr ↦ ?_
    obtain ⟨vm', c', cnf'⟩ := r
    obtain ⟨hinv', hle', hbound, hc', hcounts⟩ := hr
    dsimp only at hinv' hle' hbound hc' hcounts ⊢
    refine (h₁.restrictAll hcounts.nonempty).bind fun solver₂ h₂ ↦ ?_
    have hencoded : Encoded d (n + 4 * tr.gateIDs.length) vm'.nextID c' cnf' := by
      refine ⟨vm, vm', h.le_nextID, le_rfl, ?_, ?_⟩
      · rw [hc']
      · rw [hc']
        change Counts vm vm' _ (m + 1) s.cardinalityConstraint.le s.cardinalityConstraint.ge _ _ at hcounts
        rw [hle, hge] at hcounts
        exact hcounts
    refine ⟨⟨h.tr_eq, h.latches, hinv', h.le_nextID.trans hle', ?_, h.blocks,
      ⟨_, cnf', h₂, fun cls ↦ ?_, .inr hencoded, .inr ⟨rfl, hm, ?_, hencoded⟩⟩⟩, hle', hbound⟩
    · rw [hc']
      exact ⟨rfl, hle, hge⟩
    · rw [List.nil_append, List.mem_append]
    · rw [hc']
      exact Nat.lt_succ_self m
  · next hkeep =>
    rw [not_or, not_lt] at hkeep
    obtain ⟨hge, hcounted⟩ := hkeep
    obtain ⟨hcard, hlim, hlt, hencoded⟩ := hlimits.resolve_left fun hinf ↦ hcounted hinf.1
    refine ⟨⟨h.tr_eq, h.latches, h.inv, h.le_nextID, h.constraint, h.blocks,
      ⟨restrictions, cnf, hready, hmem, hcnf, .inr ⟨rfl, hm, ?_, hencoded⟩⟩⟩, le_rfl, Nat.le_add_right _ _⟩
    exact (hcard ▸ hge).trans_lt hlt

structure Solves (tr : TransitionRelation) (gates : List ℕ) (limit : ℕ) (blocked : List (Finset ℕ))
    (k : ℕ) (D : Finset ℕ) : Prop where
  subset : D ⊆ gates.toFinset
  card_le : D.card ≤ limit
  unblocked : Unblocked blocked D
  freed : tr.FreedBadAt D k

/-- The cube, with the clauses of the constraint, lets at most `limit` gates be selected. -/
structure Limiting (d : DebugTransitionRelation) (limit lo hi : ℕ) (cnf : ClauseVec) (cube : Cube) :
    Prop where
  sound : ∀ σ, satClauses σ cnf → satCube σ cube → (d.selected σ).toFinset.card ≤ limit
  complete : ∀ σ : Assignment, (d.selected σ).toFinset.card ≤ limit →
    ∃ τ : Assignment, (∀ v, ¬ (lo ≤ v ∧ v < hi) → τ v = σ v) ∧ satClauses τ cnf ∧ satCube τ cube
  le : ∀ lit ∈ cube, strip lit ≤ maxId

theorem strip_lt_of_mem_latches (hd : Debugs tr n d) {w : ℕ} (hw : w ∈ idSet d.debugLatchIDs) :
    strip w < n + 4 * tr.gateIDs.length := by
  obtain ⟨g, hg, rfl⟩ := (mem_debugLatches hd).mp hw
  rw [strip_of_even (hd.latch_isVar hg).2.2]
  exact hd.latch_lt hg

theorem Encoded.extension (hd : Debugs tr n d) {hi : ℕ} {c : SortingConstraint} {cnf : ClauseVec}
    (h : Encoded d (n + 4 * tr.gateIDs.length) hi c cnf) (σ : Assignment) :
    ∃ τ : Assignment, (∀ v, ¬ (n + 4 * tr.gateIDs.length ≤ v ∧ v < hi) → τ v = σ v) ∧
      satClauses τ cnf ∧ trueCount τ (idSet d.debugLatchIDs) = trueCount σ (idSet d.debugLatchIDs) ∧
      ∀ i y, c.outputs[i]? = some y →
        (litVal τ y = true ↔ i < trueCount τ (idSet d.debugLatchIDs)) := by
  obtain ⟨vm₀, vm₁, hlo, hhi, -, hcounts⟩ := h
  have hold : ∀ w ∈ idSet d.debugLatchIDs, strip w < vm₀.nextID := fun w hw ↦
    (strip_lt_of_mem_latches hd hw).trans_le hlo
  obtain ⟨τ, hτ, hcnf, houts⟩ := hcounts.exists_extension hold σ
  refine ⟨τ, fun v hv ↦ hτ v (by omega), hcnf, ?_, houts⟩
  apply trueCount_congr
  intro w hw
  have hlt := hold w hw
  exact hτ (strip w) (by omega)

theorem limiting_meets (hd : Debugs tr n d) (hvm : vm.Inv)
    (hle : n + 4 * tr.gateIDs.length ≤ vm.nextID) (hmany : tr.gateIDs.length < cardinalityInf)
    (hc : s.cardinalityConstraint.inputs = idSet d.debugLatchIDs ∧
      s.cardinalityConstraint.le = true ∧ s.cardinalityConstraint.ge = false) {cnf : ClauseVec}
    (hcnf : cnf = [] ∨ Encoded d (n + 4 * tr.gateIDs.length) vm.nextID s.cardinalityConstraint cnf)
    (hlimits : Limits tr s limit
      (Encoded d (n + 4 * tr.gateIDs.length) vm.nextID s.cardinalityConstraint cnf))
    (hnarrow : 2 ^ 32 < vm.nextID → fail .narrowed) :
    Meets (Limiting d limit (n + 4 * tr.gateIDs.length) vm.nextID cnf) fail
      (if s.cardinality < cardinalityInf then s.cardinalityConstraint.assumeLEq s.cardinality
        else pure []) := by
  rcases hlimits with ⟨hinf, rfl⟩ | ⟨hcard, hlim, hlt, hencoded⟩
  · rw [if_neg (by omega)]
    refine ⟨fun σ _ _ ↦ ?_, fun σ _ ↦ ?_, nofun⟩
    · refine (List.toFinset_card_le _).trans ?_
      rw [← hd.gateIDs]
      exact List.length_filter_le _ _
    · rcases hcnf with rfl | hencoded
      · exact ⟨σ, fun _ _ ↦ rfl, satClauses_nil, satCube_nil⟩
      · obtain ⟨τ, hτ, hsat, -⟩ := hencoded.extension hd σ
        exact ⟨τ, hτ, hsat, satCube_nil⟩
  · have hmax := hvm.le_maxId
    obtain ⟨hin, hdir, hge⟩ := hc
    have hlen := hd.length_latches
    obtain ⟨vm₀, vm₁, hlo, hhi, hcnfized, hcounts⟩ := id hencoded
    have hwire : ∀ y ∈ s.cardinalityConstraint.outputs, strip y < vm.nextID := by
      intro y hy
      rcases hcounts.wires y hy with hmem | hnew
      · exact (strip_lt_of_mem_latches hd hmem).trans_le hle
      · omega
    have houtputs : s.cardinalityConstraint.outputs.length =
        s.cardinalityConstraint.getOutputCardinality := by
      rw [hcounts.length, SortingConstraint.getOutputCardinality, hin, min_comm]
    have hids : ∀ y ∈ s.cardinalityConstraint.outputs, 2 ^ 32 ≤ y → fail .narrowed := by
      intro y hy hle
      have hlt := hwire y hy
      rw [strip_eq] at hlt
      exact hnarrow (by omega)
    have hn : s.cardinality < s.cardinalityConstraint.getOutputCardinality ∨
        s.cardinality = s.cardinalityConstraint.inputs.length ∧
          s.cardinality = s.cardinalityConstraint.getOutputCardinality := by
      rw [SortingConstraint.getOutputCardinality, hin, hlen, hcard]
      omega
    rw [if_pos (by omega)]
    refine (SortingConstraint.assumeLEq_meets hdir hcnfized houtputs hids hn).imp fun cube hcube ↦ ?_
    refine ⟨fun σ hσ hsat ↦ ?_, fun σ hσ ↦ ?_, fun lit hl ↦ ?_⟩
    · rw [← hd.trueCount_latches, ← hin, ← hcard]
      refine hcube.sound σ (fun _ i y hy hi ↦ ?_) (fun hge' ↦ ?_) hsat
      · exact hcounts.atLeast rfl σ hσ i y hy (hin ▸ hi)
      · exact absurd (hge.symm.trans hge') Bool.false_ne_true
    · obtain ⟨τ, hτ, hsat, hcount, houts⟩ := hencoded.extension hd σ
      refine ⟨τ, hτ, hsat, hcube.complete τ (hin.symm ▸ houts) ?_⟩
      rw [hin, hcount, hd.trueCount_latches, hcard]
      exact hσ
    · obtain ⟨y, hy, heq⟩ := hcube.vars lit hl
      have hlt := hwire y hy
      omega

theorem satClauses_blocking (hd : Debugs tr n d) {solns : List CorrectionSet}
    (hsolns : ∀ soln ∈ solns, soln ≠ [] ∧ soln ⊆ tr.gateIDs) :
    satClauses σ (solns.map (blockingClause d)) ↔
      Unblocked (solns.map List.toFinset) (d.selected σ).toFinset := by
  unfold satClauses Unblocked
  rw [List.forall_mem_map, List.forall_mem_map]
  exact forall₂_congr fun soln hmem ↦ satClause_blockingClause hd (hsolns soln hmem).2

structure Restricts (d : DebugTransitionRelation) (blocked : List (Finset ℕ)) (cnf restrictions : ClauseVec) :
    Prop where
  sat_iff : ∀ σ, satClauses σ restrictions ↔
    Unblocked blocked (d.selected σ).toFinset ∧ satClauses σ cnf
  nonempty : ∀ cls ∈ restrictions, cls ≠ []
  le : ∀ v ∈ varsOf restrictions, v ≤ maxId

theorem Rep.restricts (h : Rep tr n d limit blocked vm s) (hd : Debugs tr n d) {cnf restrictions : ClauseVec}
    (hmem : ∀ cls, cls ∈ restrictions ↔ cls ∈ s.blockingClauses ∨ cls ∈ cnf)
    (hcnf : cnf = [] ∨
      Encoded d (n + 4 * tr.gateIDs.length) vm.nextID s.cardinalityConstraint cnf) :
    Restricts d blocked cnf restrictions := by
  obtain ⟨solns, hblocking, rfl, hsolns⟩ := h.blocks
  refine ⟨fun σ ↦ ?_, fun cls hc ↦ ?_, fun v hv ↦ ?_⟩
  · rw [← satClauses_blocking hd hsolns, ← hblocking]
    constructor
    · intro hsat
      exact ⟨fun cls hc ↦ hsat cls ((hmem cls).mpr (.inl hc)),
        fun cls hc ↦ hsat cls ((hmem cls).mpr (.inr hc))⟩
    · intro hsat cls hc
      exact ((hmem cls).mp hc).elim (hsat.1 cls) (hsat.2 cls)
  · rcases (hmem cls).mp hc with hc | hc
    · exact h.blocking_nonempty cls hc
    · rcases hcnf with rfl | ⟨vm₀, vm₁, -, -, -, hcounts⟩
      · exact absurd hc List.not_mem_nil
      · exact hcounts.nonempty cls hc
  · obtain ⟨cls, hc, lit, hl, rfl⟩ := hv
    rcases (hmem cls).mp hc with hc | hc
    · rw [hblocking] at hc
      obtain ⟨soln, hsoln, rfl⟩ := List.mem_map.mp hc
      exact varsOf_blockingClause hd (hsolns soln hsoln).2 lit hl
    · rcases hcnf with rfl | ⟨vm₀, vm₁, hlo, hhi, -, hcounts⟩
      · exact absurd hc List.not_mem_nil
      · have hmax := h.inv.le_maxId
        rcases hcounts.vars _ (mem_varsOf hc hl) with ⟨x, hx, heq⟩ | hnew
        · have hlt := strip_lt_of_mem_latches hd hx
          have hle := h.le_nextID
          omega
        · omega

section Searches

variable {lo hi : ℕ} {cnf restrictions : ClauseVec} {cube : Cube}

theorem solves_selected (hd : Debugs tr n d) (hr : Restricts d blocked cnf restrictions)
    (hl : Limiting d limit lo hi cnf cube) (ha : Leaves tr d gates assumps) (hc : σ idFalse = false)
    (hinit : d.IsInit (frameOf σ 0)) (hrun : d.IsRun (k + 1) (frameOf σ))
    (hsat : satClauses σ restrictions) (hassumps : satCube σ (assumps ++ cube))
    (hbad : litVal (frameOf σ k) d.bad = true) :
    Solves tr gates limit blocked k (d.selected σ).toFinset := by
  obtain ⟨hopen, hcnf⟩ := (hr.sat_iff σ).mp hsat
  rw [satCube_append] at hassumps
  exact ⟨(ha.sat_iff σ).mp hassumps.1, hl.sound σ hcnf hassumps.2, hopen,
    hd.freedBadAt hc hinit hrun hbad⟩

/-- Every solution is selected by an execution of all frames that are unrolled. -/
theorem exists_selecting (hd : Debugs tr n d) (hr : Restricts d blocked cnf restrictions)
    (hl : Limiting d limit (n + 4 * tr.gateIDs.length) hi cnf cube) (hhi : hi ≤ maxId + 1)
    (ha : Leaves tr d gates assumps) (hsub : gates ⊆ tr.gateIDs) {D : Finset ℕ}
    (hD : Solves tr gates limit blocked k D) (m : ℕ) :
    ∃ σ, (σ idFalse = false ∧ d.IsInit (frameOf σ 0) ∧ d.IsRun m (frameOf σ) ∧
      satClauses σ restrictions ∧ satCube σ (assumps ++ cube) ∧ litVal (frameOf σ k) d.bad = true) ∧
      (d.selected σ).toFinset = D := by
  have hgates : D ⊆ tr.gateIDs.toFinset := hD.subset.trans fun g hg ↦
    List.mem_toFinset.mpr (hsub (List.mem_toFinset.mp hg))
  obtain ⟨σ, hσ⟩ := hd.exists_execution hgates hD.freed le_rfl hhi
  obtain ⟨-, -, -, -, hself⟩ := hσ σ fun _ _ ↦ rfl
  have hcard : (d.selected σ).toFinset.card ≤ limit := hself.symm ▸ hD.card_le
  obtain ⟨τ, hτ, hcnf, hcube⟩ := hl.complete σ hcard
  obtain ⟨hc, hinit, hrun, hbad, hsel⟩ := hσ τ hτ
  have hbound : ∀ v ≤ maxId, v < 2 ^ 48 * (k + 1) := by
    intro v hv
    rw [maxId_eq] at hv
    omega
  obtain ⟨ρ, hρ, hρc, hρinit, hρrun, hρbad⟩ :=
    BMCSolver.exists_longer hd.wellFormed hd.constraints hc hinit hrun m
  have hρsel : d.selected ρ = d.selected τ := by
    refine List.filter_congr fun g hg ↦ hρ _ (hbound _ ?_)
    exact (hd.latch_isVar (hd.gateIDs ▸ hg)).2.1
  refine ⟨ρ, ⟨hρc, hρinit, hρrun, ?_, ?_, hρbad.trans hbad⟩, hρsel ▸ hsel⟩
  · refine (satClauses_congr fun v hv ↦ hρ v (hbound v (hr.le v hv))).mpr ((hr.sat_iff τ).mpr ⟨?_, hcnf⟩)
    rw [hsel]
    exact hD.unblocked
  · refine (satCube_append _ _).mpr ⟨(ha.sat_iff ρ).mpr ?_, ?_⟩
    · rw [hρsel, hsel]
      exact hD.subset
    · exact (satCube_congr fun lit hmem ↦ hρ _ (hbound _ (hl.le lit hmem))).mpr hcube

theorem execution_iff (hd : Debugs tr n d) (hr : Restricts d blocked cnf restrictions)
    (hl : Limiting d limit (n + 4 * tr.gateIDs.length) hi cnf cube) (hhi : hi ≤ maxId + 1)
    (ha : Leaves tr d gates assumps) (hsub : gates ⊆ tr.gateIDs) :
    BMCSolver.Execution d.toTransitionRelation restrictions (assumps ++ cube) k (k + 1) ↔
      ∃ D, Solves tr gates limit blocked k D := by
  constructor
  · intro hex
    obtain ⟨σ, hc, hinit, hrun, hsat, hassumps, hbad⟩ := hex
    exact ⟨_, solves_selected hd hr hl ha hc hinit hrun hsat hassumps hbad⟩
  · intro hex
    obtain ⟨D, hD⟩ := hex
    obtain ⟨σ, hσ, -⟩ := exists_selecting hd hr hl hhi ha hsub hD (k + 1)
    exact ⟨σ, hσ⟩

/-- No assumption or restriction is about a later frame, so that every execution goes on. -/
theorem execution_extends (hd : Debugs tr n d) (hr : Restricts d blocked cnf restrictions)
    (hl : Limiting d limit lo hi cnf cube) (ha : Leaves tr d gates assumps) (k m : ℕ)
    (hex : BMCSolver.Execution d.toTransitionRelation restrictions (assumps ++ cube) k (k + 1)) :
    BMCSolver.Execution d.toTransitionRelation restrictions (assumps ++ cube) k m := by
  have hbound : ∀ v ≤ maxId, v < 2 ^ 48 * (k + 1) := by
    intro v hv
    rw [maxId_eq] at hv
    omega
  refine BMCSolver.Execution.extend hd.wellFormed hd.constraints (fun v hv ↦ hbound v (hr.le v hv)) ?_ m hex
  intro lit hmem
  rcases List.mem_append.mp hmem with hmem | hmem
  · exact hbound _ (ha.le lit hmem)
  · exact hbound _ (hl.le lit hmem)

theorem gateForDebugLatch_eq (hd : Debugs tr n d) {g : ℕ} (hg : g ∈ tr.gateIDs) :
    d.gateForDebugLatch (d.debugLatchForGate g) = .ok g := by
  obtain ⟨j, -, hget, hlatch, -⟩ := hd.debugLatch_mem hg
  rw [gateForDebugLatch, hlatch, hd.toIndexed.gate j g hget]
  rfl

/-- The gates extracted from a trace are those whose debug latches begin high. -/
theorem extractSolution_meets (hd : Debugs tr n d) (htr : s.tr = d)
    (hlatches : s.debugLatches = idSet d.debugLatchIDs) {init : Step} {rest : SafetyCounterExample}
    (hstate : ∀ v ∈ d.latchIDs, (v ∈ init.state ↔ σ v = true)) :
    Meets (fun soln ↦ soln.toFinset = (d.selected σ).toFinset) fail
      (s.extractSolution (init :: rest)) := by
  have hmem : ∀ dl, dl ∈ init.state.filter (fun latch ↦ !isNegated latch && s.debugLatches.contains latch) ↔
      ∃ g ∈ d.selected σ, d.debugLatchForGate g = dl := by
    intro dl
    rw [List.mem_filter, Bool.and_eq_true, List.contains_iff_mem, hlatches, mem_debugLatches hd]
    constructor
    · intro hdl
      obtain ⟨hin, -, g, hg, rfl⟩ := hdl
      refine ⟨g, mem_selected.mpr ⟨hd.gateIDs ▸ hg, ?_⟩, rfl⟩
      exact (hstate _ (hd.latch_mem_latchIDs hg)).mp hin
    · intro hdl
      obtain ⟨g, hsel, rfl⟩ := hdl
      obtain ⟨hg, hhigh⟩ := mem_selected.mp hsel
      rw [hd.gateIDs] at hg
      refine ⟨(hstate _ (hd.latch_mem_latchIDs hg)).mpr hhigh, ?_, g, hg, rfl⟩
      rw [Bool.not_eq_true', isNegated_eq_false]
      exact (hd.latch_isVar hg).2.2
  unfold extractSolution
  rw [htr]
  have hgate : ∀ dl ∈ init.state.filter (fun latch ↦ !isNegated latch && s.debugLatches.contains latch),
      Meets (fun g ↦ g ∈ tr.gateIDs ∧ d.debugLatchForGate g = dl) fail (d.gateForDebugLatch dl) := by
    intro dl hdl
    obtain ⟨g, hsel, rfl⟩ := (hmem dl).mp hdl
    have hg : g ∈ tr.gateIDs := hd.gateIDs ▸ (mem_selected.mp hsel).1
    rw [gateForDebugLatch_eq hd hg]
    exact ⟨hg, rfl⟩
  refine (mapM_meets hgate).imp fun soln hsoln ↦ ?_
  ext g
  rw [List.mem_toFinset, List.mem_toFinset]
  constructor
  · intro hg
    obtain ⟨dl, hdl, hg', rfl⟩ := forall₂_exists_left hsoln hg
    obtain ⟨g', hsel, heq⟩ := (hmem _).mp hdl
    have hmem' : g' ∈ tr.gateIDs := hd.gateIDs ▸ (mem_selected.mp hsel).1
    exact latchFor_injective hd hmem' hg' heq ▸ hsel
  · intro hsel
    have hg : g ∈ tr.gateIDs := hd.gateIDs ▸ (mem_selected.mp hsel).1
    obtain ⟨g', hin, hg', heq⟩ := forall₂_exists_right hsoln ((hmem _).mpr ⟨g, hsel, rfl⟩)
    exact latchFor_injective hd hg' hg heq ▸ hin

end Searches

theorem debugWithAssumptions_meets (S : SAT.Solver) (h : Rep tr n d limit blocked vm s)
    (hd : Debugs tr n d) (hmany : tr.gateIDs.length < cardinalityInf)
    (hnarrow : 2 ^ 32 < vm.nextID → fail .narrowed) (ha : Leaves tr d gates assumps)
    (hsub : gates ⊆ tr.gateIDs) (kMin : ℕ) {kMax : ℕ} (hdeep : maxPrimes ≤ kMax → fail .assertion) :
    Meets (fun r ↦ DebugAnswer (FreedWithin tr kMin kMax) gates limit blocked r.1 ∧
      Rep tr n d limit blocked vm r.2 ∧ r.2.kmax = s.kmax) fail
      (s.debugWithAssumptions S assumps kMin kMax) := by
  obtain ⟨restrictions, cnf, hready, hmem, hcnf, hlimits⟩ := h.restricted
  have hr := h.restricts hd hmem hcnf
  unfold debugWithAssumptions
  refine (limiting_meets hd h.inv h.le_nextID hmany h.constraint hcnf hlimits hnarrow).bind
    fun cube hl ↦ ?_
  have hsolve : Meets _ fail _ := hready.solveRange S hd.wellFormed hr.nonempty
    (execution_extends hd hr hl ha) kMin fun hk ↦ hdeep hk.le
  refine hsolve.bind fun p hp ↦ ?_
  obtain ⟨bmc, solver⟩ := p
  obtain ⟨hready', hfound, hnone⟩ := hp
  dsimp only at hready' hfound hnone ⊢
  have hrep : Rep tr n d limit blocked vm { s with solver := solver } :=
    ⟨h.tr_eq, h.latches, h.inv, h.le_nextID, h.constraint, h.blocks,
      ⟨restrictions, cnf, hready', hmem, hcnf, hlimits⟩⟩
  split
  · next hunsafe =>
    obtain ⟨k, hk, σ, hc, hinit, hrun, hsat, hassumps, hbad, first, rest, hcex, hstate⟩ :=
      hfound hunsafe
    have hsolves := solves_selected hd hr hl ha hc hinit hrun hsat hassumps hbad
    rw [hcex]
    have hextract : Meets (fun soln ↦ soln.toFinset = (d.selected σ).toFinset) fail
        (BMCDebugger.extractSolution { s with solver := solver } (first :: rest)) :=
      extractSolution_meets hd hrep.tr_eq hrep.latches hstate
    refine hextract.bind fun soln hsoln ↦ ⟨?_, hrep, rfl⟩
    rw [← hsoln] at hsolves
    refine ⟨fun g hg ↦ ?_, hsolves.card_le, ⟨k, hk, hsolves.freed⟩, hsolves.unblocked⟩
    exact List.mem_toFinset.mp (hsolves.subset (List.mem_toFinset.mpr hg))
  · next hsafe =>
    refine ⟨fun t ht hcard hfreed hopen ↦ ?_, hrep, rfl⟩
    obtain ⟨k, hk, hbad⟩ := hfreed
    refine hnone hsafe k hk ((execution_iff hd hr hl h.inv.le_maxId ha hsub).mpr ?_)
    exact ⟨t, ht, hcard, hopen, hbad⟩

theorem selected_congr (hd : Debugs tr n d) {τ : Assignment}
    (h : ∀ l ∈ d.latches, l.next = l.id → σ l.id = τ l.id) : d.selected σ = d.selected τ := by
  refine List.filter_congr fun g hg ↦ ?_
  obtain ⟨j, hj, -, hlatch, -⟩ := hd.debugLatch_mem (hd.gateIDs ▸ hg)
  rw [hlatch]
  refine h ⟨latchAt n j, latchAt n j, idNull⟩ ?_ rfl
  rw [hd.base]
  exact List.mem_append_right _ (List.mem_map_of_mem (List.mem_range.mpr hj))

theorem debugAtK_prefers (S : SAT.Solver) (h : Rep tr n d limit blocked vm s) (hd : Debugs tr n d)
    (hmany : tr.gateIDs.length < cardinalityInf) {D : Finset ℕ}
    (hS : S.Prefers fun σ ↦ (d.selected σ).toFinset = D) (hD : Solves tr tr.gateIDs limit blocked k D) :
    Meets (fun r ↦ r.1.map List.toFinset = some D) (fun _ ↦ True) (s.debugAtK S k) := by
  obtain ⟨restrictions, cnf, hready, hmem, hcnf, hlimits⟩ := h.restricted
  have hr := h.restricts hd hmem hcnf
  unfold debugAtK debugWithAssumptions
  have hlimiting : Meets _ (fun _ ↦ True) _ :=
    limiting_meets hd h.inv h.le_nextID hmany h.constraint hcnf hlimits fun _ ↦ trivial
  refine hlimiting.bind fun cube hl ↦ ?_
  have hex := exists_selecting hd hr hl h.inv.le_maxId (leaves_nil hd) (List.Subset.refl _) hD
  rw [← hready.init] at hex
  have hat := BMCSolver.solveAtK_prefers hS hd.wellFormed hready.rep hready.knows
    (fun σ τ hστ hp ↦ (selected_congr hd hστ) ▸ hp) hex
  have hsolve : Meets (fun q : SafetyResult × BMCSolver ↦ q.1.result = .unsafeAt ∧
      ∃ σ, (d.selected σ).toFinset = D ∧ ∃ first rest, q.1.cex = first :: rest ∧
        ∀ v ∈ d.latchIDs, (v ∈ first.state ↔ σ v = true)) (fun _ ↦ True)
      (s.solver.solveRange S k k ([] ++ cube)) := by
    unfold BMCSolver.solveRange
    rw [Nat.add_sub_cancel_left]
    refine hat.bind fun q hq ↦ ?_
    dsimp only
    rw [if_pos hq.1]
    exact hq
  refine hsolve.bind fun q hq ↦ ?_
  obtain ⟨bmc, solver⟩ := q
  obtain ⟨hres, σ, hsel, first, rest, hcex, hstate⟩ := hq
  dsimp only at hres hcex ⊢
  rw [if_pos hres, hcex]
  have htr : ({ s with solver := solver } : BMCDebugger).tr = d := h.tr_eq
  have hextract : Meets (fun soln ↦ soln.toFinset = (d.selected σ).toFinset) (fun _ ↦ True)
      (BMCDebugger.extractSolution { s with solver := solver } (first :: rest)) :=
    extractSolution_meets hd htr h.latches hstate
  exact hextract.bind fun soln hsoln ↦ congrArg some (hsoln.trans hsel)

/-- When a set is found the solver has been set up, and so takes no empty clause. -/
theorem debugWithAssumptions_started (S : SAT.Solver) (h : Rep tr n d limit blocked vm s)
    (hd : Debugs tr n d) (assumps : Cube) (kMin kMax : ℕ) :
    Meets (fun r ↦ r.1 ≠ none → r.2.solver.solverInited = true) (fun _ ↦ True)
      (s.debugWithAssumptions S assumps kMin kMax) := by
  obtain ⟨restrictions, cnf, hready, -⟩ := h.restricted
  unfold debugWithAssumptions
  refine (meets_of_ok (fun _ ↦ trivial) fun _ _ ↦ trivial : Meets (fun _ ↦ True) _ _).bind
    fun cube _ ↦ ?_
  have hsolve : Meets _ _ (s.solver.solveRange S kMin kMax (assumps ++ cube)) :=
    BMCSolver.solveAt_started S hd.wellFormed hready.rep (List.range' kMin (kMax + 1 - kMin))
  refine hsolve.bind fun p hp ↦ ?_
  obtain ⟨bmc, solver⟩ := p
  dsimp only at hp ⊢
  split
  · next hunsafe =>
    refine (meets_of_ok (fun _ ↦ trivial) fun _ _ ↦ trivial : Meets (fun _ ↦ True) _ _).bind
      fun soln _ ↦ ?_
    exact fun _ ↦ hp hunsafe
  · exact fun hno ↦ absurd rfl hno

theorem blockSolution_nil (hinit : s.solver.solverInited = true) (hassert : fail .assertion) :
    Meets (fun _ ↦ False) fail (s.blockSolution []) := by
  unfold BMCDebugger.blockSolution BMCSolver.restrictInitialStates
  dsimp only
  rw [if_pos hinit]
  exact hassert

theorem debugRange_meets (S : SAT.Solver) (h : Rep tr n d limit blocked vm s)
    (hd : Debugs tr n d) (hmany : tr.gateIDs.length < cardinalityInf)
    (hnarrow : 2 ^ 32 < vm.nextID → fail .narrowed) (kMin : ℕ) {kMax : ℕ}
    (hdeep : maxPrimes ≤ kMax → fail .assertion) :
    Meets (fun r ↦ DebugAnswer (FreedWithin tr kMin kMax) tr.gateIDs limit blocked r.1 ∧
      Rep tr n d limit blocked vm r.2 ∧ r.2.kmax = s.kmax) fail (s.debugRange S kMin kMax) :=
  debugWithAssumptions_meets S h hd hmany hnarrow (leaves_nil hd) (List.Subset.refl _) kMin hdeep

theorem debugOverGatesRange_meets (S : SAT.Solver) (h : Rep tr n d limit blocked vm s)
    (hd : Debugs tr n d) (hmany : tr.gateIDs.length < cardinalityInf)
    (hnarrow : 2 ^ 32 < vm.nextID → fail .narrowed) (hsub : gates ⊆ tr.gateIDs) (kMin : ℕ)
    {kMax : ℕ} (hdeep : maxPrimes ≤ kMax → fail .assertion) :
    Meets (fun r ↦ DebugAnswer (FreedWithin tr kMin kMax) gates limit blocked r.1 ∧
      Rep tr n d limit blocked vm r.2 ∧ r.2.kmax = s.kmax) fail
      (s.debugOverGatesRange S gates kMin kMax) :=
  debugWithAssumptions_meets S h hd hmany hnarrow
    (leaves_onlyTheseGates hd h.tr_eq h.latches hsub) hsub kMin hdeep

def blockedAfter (blocked : List (Finset ℕ)) (r : Option CorrectionSet) : List (Finset ℕ) :=
  blocked ++ (r.toList.filter (· ≠ [])).map List.toFinset

theorem blockFound_meets {r : Option CorrectionSet × BMCDebugger} {bad : Finset ℕ → Prop}
    (hr : DebugAnswer bad gates limit blocked r.1) (hsub : gates ⊆ tr.gateIDs)
    (h : Rep tr n d limit blocked vm r.2) :
    Meets (fun r ↦ DebugAnswer bad gates limit blocked r.1 ∧
      Rep tr n d limit (blockedAfter blocked r.1) vm r.2) fail (blockFound r) := by
  obtain ⟨answer, s⟩ := r
  cases answer with
  | none =>
    refine ⟨hr, ?_⟩
    simp only [blockedAfter, Option.toList_none, List.filter_nil, List.map_nil, List.append_nil]
    exact h
  | some soln =>
    unfold blockFound
    dsimp only at hr h ⊢
    cases soln with
    | nil =>
      refine ⟨hr, ?_⟩
      simp only [blockedAfter, Option.toList_some]
      exact (List.append_nil blocked).symm ▸ h
    | cons g soln =>
      rw [List.isEmpty_cons, if_neg Bool.false_ne_true]
      have hsubset : g :: soln ⊆ tr.gateIDs := List.Subset.trans hr.1 hsub
      refine (h.blockSolution (List.cons_ne_nil g soln) hsubset).bind fun s' hs' ↦ ⟨hr, ?_⟩
      simp only [blockedAfter, Option.toList_some]
      exact hs'

theorem debugRangeAndBlock_meets (S : SAT.Solver) (h : Rep tr n d limit blocked vm s)
    (hd : Debugs tr n d) (hmany : tr.gateIDs.length < cardinalityInf)
    (hnarrow : 2 ^ 32 < vm.nextID → fail .narrowed) (kMin : ℕ) {kMax : ℕ}
    (hdeep : maxPrimes ≤ kMax → fail .assertion) :
    Meets (fun r ↦ DebugAnswer (FreedWithin tr kMin kMax) tr.gateIDs limit blocked r.1 ∧
      Rep tr n d limit (blockedAfter blocked r.1) vm r.2) fail (s.debugRangeAndBlock S kMin kMax) :=
  (debugRange_meets S h hd hmany hnarrow kMin hdeep).bind fun _ hr ↦
    blockFound_meets hr.1 (List.Subset.refl _) hr.2.1

theorem debugOverGatesRangeAndBlock_meets (S : SAT.Solver) (h : Rep tr n d limit blocked vm s)
    (hd : Debugs tr n d) (hmany : tr.gateIDs.length < cardinalityInf)
    (hnarrow : 2 ^ 32 < vm.nextID → fail .narrowed) (hsub : gates ⊆ tr.gateIDs) (kMin : ℕ)
    {kMax : ℕ} (hdeep : maxPrimes ≤ kMax → fail .assertion) :
    Meets (fun r ↦ DebugAnswer (FreedWithin tr kMin kMax) gates limit blocked r.1 ∧
      Rep tr n d limit (blockedAfter blocked r.1) vm r.2) fail
      (s.debugOverGatesRangeAndBlock S gates kMin kMax) :=
  (debugOverGatesRange_meets S h hd hmany hnarrow hsub kMin hdeep).bind fun _ hr ↦
    blockFound_meets hr.1 hsub hr.2.1

/-- The virtual functions, which share the variable manager with others. -/
def asDebugger (S : SAT.Solver) : Debugger (BMCDebugger × VariableManager) where
  setCardinality x n := x.1.setCardinality x.2 n
  clearCardinality x := return (x.1.clearCardinality, x.2)
  debug x := do
    let (r, s) ← x.1.debug S
    return (r, (s, x.2))
  debugOverGates x gates := do
    let (r, s) ← x.1.debugOverGates S gates
    return (r, (s, x.2))
  blockSolution x soln := do return (← x.1.blockSolution soln, x.2)

theorem setCardinality_sets (s : BMCDebugger) (vm : VariableManager) (m : ℕ) :
    Meets (fun r ↦ r.1.cardinality = m ∧ r.1.kmax = s.kmax) (fun _ ↦ True) (s.setCardinality vm m) := by
  unfold BMCDebugger.setCardinality
  split
  · refine meets_of_ok (fun _ ↦ trivial) fun r hr ↦ ?_
    obtain ⟨solver, -, hr⟩ := bind_eq_ok.mp hr
    obtain ⟨⟨vm', c, cnf⟩, -, hr⟩ := bind_eq_ok.mp hr
    obtain ⟨solver', -, hr⟩ := bind_eq_ok.mp hr
    obtain rfl := Except.ok.inj hr
    exact ⟨rfl, rfl⟩
  · exact ⟨rfl, rfl⟩

theorem setCardinality_same {m : ℕ} (hm : s.cardinality = m) (hne : m ≠ cardinalityInf) :
    s.setCardinality vm m = .ok (s, vm) := by
  subst hm
  unfold BMCDebugger.setCardinality
  rw [if_neg fun h ↦ h.elim (Nat.lt_irrefl _) hne]
  rfl

theorem blockSolution_same (s : BMCDebugger) (soln : CorrectionSet) :
    Meets (fun r ↦ r.cardinality = s.cardinality ∧ r.kmax = s.kmax) (fun _ ↦ True)
      (s.blockSolution soln) := by
  refine meets_of_ok (fun _ ↦ trivial) fun r hr ↦ ?_
  obtain ⟨solver, -, hr⟩ := bind_eq_ok.mp hr
  obtain rfl := Except.ok.inj hr
  exact ⟨rfl, rfl⟩

theorem debugWithAssumptions_cardinality (S : SAT.Solver) (s : BMCDebugger) (assumps : Cube) (kMin kMax : ℕ) :
    Meets (fun r ↦ r.2.cardinality = s.cardinality) (fun _ ↦ True)
      (s.debugWithAssumptions S assumps kMin kMax) := by
  unfold debugWithAssumptions
  refine (meets_any _).bind fun cube _ ↦ ?_
  refine (meets_any _).bind fun p _ ↦ ?_
  dsimp only
  split
  · exact (meets_any _).bind fun soln _ ↦ rfl
  · rfl

/-- As a debugger it is exact about the steps up to `kmax`. -/
theorem asDebugger_exact (S : SAT.Solver) (hd : Debugs tr n d) (hpos : tr.gateIDs ≠ [])
    (hmany : tr.gateIDs.length < cardinalityInf) (hids : fail .narrowed ∧ fail .idsExhausted) {kmax : ℕ}
    (hdeep : maxPrimes ≤ kmax → fail .assertion) :
    (asDebugger S).Exact (FreedWithin tr 0 kmax) tr.gateIDs
      (fun limit blocked x ↦ Rep tr n d limit blocked x.2 x.1 ∧ x.1.kmax = kmax) fail where
  setCardinality hx hm := by
    obtain ⟨hrep, rfl⟩ := hx
    have hset := hrep.setCardinality hd hpos hm.le fun _ ↦ hids.2
    exact (hset.and (setCardinality_sets _ _ _)).imp fun r hr ↦ ⟨hr.1.1, hr.2.2⟩
  clearCardinality hx := ⟨hx.1.clearCardinality, hx.2⟩
  debug hx := by
    obtain ⟨hrep, rfl⟩ := hx
    exact (debugRange_meets S hrep hd hmany (fun _ ↦ hids.1) 0 hdeep).bind fun r hr ↦
      ⟨hr.1, hr.2.1, hr.2.2⟩
  debugOverGates hx hsub := by
    obtain ⟨hrep, rfl⟩ := hx
    exact (debugOverGatesRange_meets S hrep hd hmany (fun _ ↦ hids.1) hsub 0 hdeep).bind fun r hr ↦
      ⟨hr.1, hr.2.1, hr.2.2⟩
  blockSolution hx hsub hne := by
    obtain ⟨hrep, rfl⟩ := hx
    exact ((hrep.blockSolution hne hsub).and (blockSolution_same _ _)).bind fun s hs ↦ ⟨hs.1, hs.2.2⟩

end BMCDebugger

namespace BMCDebugger

/-- The states a debugger can be in after any calls, with the current cardinality and the sets
blocked. The calls at one bound, and up to `kmax`, are calls with a range. -/
inductive Reached (S : SAT.Solver) (tr : TransitionRelation) (d : DebugTransitionRelation)
    (vm₀ : VariableManager) : ℕ → List (Finset ℕ) → VariableManager → BMCDebugger → Prop
  | new : Reached S tr d vm₀ tr.gateIDs.length [] vm₀ (new d)
  | others {limit blocked vm vm' s} : Reached S tr d vm₀ limit blocked vm s → vm'.Inv →
      vm.nextID ≤ vm'.nextID → Reached S tr d vm₀ limit blocked vm' s
  | setKMax {limit blocked vm s} (k : ℕ) : Reached S tr d vm₀ limit blocked vm s →
      Reached S tr d vm₀ limit blocked vm (s.setKMax k)
  | setCardinality {limit blocked vm vm' s s' n} : Reached S tr d vm₀ limit blocked vm s →
      n ≤ tr.gateIDs.length → s.setCardinality vm n = .ok (s', vm') →
      Reached S tr d vm₀ n blocked vm' s'
  | clearCardinality {limit blocked vm s} : Reached S tr d vm₀ limit blocked vm s →
      Reached S tr d vm₀ tr.gateIDs.length blocked vm s.clearCardinality
  | blockSolution {limit blocked vm s s' soln} : Reached S tr d vm₀ limit blocked vm s →
      soln ≠ [] → soln ⊆ tr.gateIDs → s.blockSolution soln = .ok s' →
      Reached S tr d vm₀ limit (blocked ++ [soln.toFinset]) vm s'
  | debugRange {limit blocked vm s s' r kMin kMax} : Reached S tr d vm₀ limit blocked vm s →
      s.debugRange S kMin kMax = .ok (r, s') → Reached S tr d vm₀ limit blocked vm s'
  | debugOverGatesRange {limit blocked vm s s' r gates kMin kMax} :
      Reached S tr d vm₀ limit blocked vm s → gates ⊆ tr.gateIDs →
      s.debugOverGatesRange S gates kMin kMax = .ok (r, s') → Reached S tr d vm₀ limit blocked vm s'
  | debugRangeAndBlock {limit blocked vm s s' r kMin kMax} : Reached S tr d vm₀ limit blocked vm s →
      s.debugRangeAndBlock S kMin kMax = .ok (r, s') →
      Reached S tr d vm₀ limit (blockedAfter blocked r) vm s'
  | debugOverGatesRangeAndBlock {limit blocked vm s s' r gates kMin kMax} :
      Reached S tr d vm₀ limit blocked vm s → gates ⊆ tr.gateIDs →
      s.debugOverGatesRangeAndBlock S gates kMin kMax = .ok (r, s') →
      Reached S tr d vm₀ limit (blockedAfter blocked r) vm s'

theorem Reached.rep {S : SAT.Solver} {tr : TransitionRelation} {n : ℕ} {d : DebugTransitionRelation}
    {vm₀ vm : VariableManager} {limit : ℕ} {blocked : List (Finset ℕ)} {s : BMCDebugger}
    (hd : Debugs tr n d) (hpos : tr.gateIDs ≠ []) (hmany : tr.gateIDs.length < cardinalityInf) (hvm₀ : vm₀.Inv)
    (hle₀ : n + 4 * tr.gateIDs.length ≤ vm₀.nextID)
    (h : Reached S tr d vm₀ limit blocked vm s) : Rep tr n d limit blocked vm s := by
  induction h with
  | new => exact rep_new hvm₀ hle₀
  | others _ hvm hle ih => exact ih.advance hvm hle
  | setKMax k _ ih => exact ih.setKMax k
  | setCardinality _ hn hok ih =>
    exact (post_of_ok (ih.setCardinality hd hpos hn fun _ ↦ trivial) hok).1
  | clearCardinality _ ih => exact ih.clearCardinality
  | blockSolution _ hne hsub hok ih => exact post_of_ok (ih.blockSolution hne hsub) hok
  | debugRange _ hok ih =>
    exact (post_of_ok (debugRange_meets S ih hd hmany (fun _ ↦ trivial) _ fun _ ↦ trivial) hok).2.1
  | debugOverGatesRange _ hsub hok ih =>
    exact (post_of_ok (debugOverGatesRange_meets S ih hd hmany (fun _ ↦ trivial) hsub _ fun _ ↦ trivial) hok).2.1
  | debugRangeAndBlock _ hok ih =>
    exact (post_of_ok (debugRangeAndBlock_meets S ih hd hmany (fun _ ↦ trivial) _ fun _ ↦ trivial) hok).2
  | debugOverGatesRangeAndBlock _ hsub hok ih =>
    exact (post_of_ok
      (debugOverGatesRangeAndBlock_meets S ih hd hmany (fun _ ↦ trivial) hsub _ fun _ ↦ trivial) hok).2

def IsSolution (tr : TransitionRelation) (gates : List ℕ) (limit : ℕ) (blocked : List (Finset ℕ))
    (kMin kMax : ℕ) (D : Finset ℕ) : Prop :=
  D ⊆ gates.toFinset ∧ D.card ≤ limit ∧ Unblocked blocked D ∧
    ∃ k, kMin ≤ k ∧ k ≤ kMax ∧ tr.FreedBadAt D k

/-- What a search may fail with: an ID that an `unsigned` does not hold, or a bound beyond the
frames that an ID can be primed to. -/
def SearchFails (vm : VariableManager) (kMax : ℕ) (e : Failure) : Prop :=
  e = .narrowed ∧ 2 ^ 32 < vm.nextID ∨ e = .assertion ∧ maxPrimes ≤ kMax

/-- The calls that may come next are answered, and only large IDs and bounds stop them. -/
structure Accepts (S : SAT.Solver) (tr : TransitionRelation) (d : DebugTransitionRelation)
    (vm₀ : VariableManager) (limit : ℕ) (blocked : List (Finset ℕ)) (vm : VariableManager)
    (s : BMCDebugger) : Prop where
  setCardinality : ∀ m ≤ tr.gateIDs.length,
    Meets (fun r ↦ Reached S tr d vm₀ m blocked r.2 r.1)
      (fun e ↦ e = .idsExhausted ∧ maxId + 1 < vm.nextID + 2 * tr.gateIDs.length ^ 3)
      (s.setCardinality vm m)
  blockSolution : ∀ soln ⊆ tr.gateIDs, soln ≠ [] →
    Meets (Reached S tr d vm₀ limit (blocked ++ [soln.toFinset]) vm) (fun _ ↦ False)
      (s.blockSolution soln)
  debugRange : ∀ kMin kMax, Meets (fun r ↦ Reached S tr d vm₀ limit blocked vm r.2)
    (SearchFails vm kMax) (s.debugRange S kMin kMax)

theorem Reached.accepts {S : SAT.Solver} {tr : TransitionRelation} {n : ℕ} {d : DebugTransitionRelation}
    {vm₀ vm : VariableManager} {limit : ℕ} {blocked : List (Finset ℕ)} {s : BMCDebugger}
    (hd : Debugs tr n d) (hpos : tr.gateIDs ≠ []) (hmany : tr.gateIDs.length < cardinalityInf)
    (h : Reached S tr d vm₀ limit blocked vm s) (hrep : Rep tr n d limit blocked vm s) :
    Accepts S tr d vm₀ limit blocked vm s where
  setCardinality m hm := by
    have hset : Meets _
        (fun e : Failure ↦ e = .idsExhausted ∧ maxId + 1 < vm.nextID + 2 * tr.gateIDs.length ^ 3) _ :=
      hrep.setCardinality hd hpos hm fun hlt ↦ ⟨rfl, hlt⟩
    exact hset.self.imp fun r hr ↦ h.setCardinality hm hr.1
  blockSolution soln hsub hne :=
    (hrep.blockSolution hne hsub).self.imp fun s' hs' ↦ h.blockSolution hne hsub hs'.1
  debugRange kMin kMax := by
    have hsearch : Meets _ (SearchFails vm kMax) _ :=
      debugRange_meets S hrep hd hmany (fun hlt ↦ .inl ⟨rfl, hlt⟩) kMin fun hle ↦ .inr ⟨rfl, hle⟩
    exact hsearch.self.imp fun r hr ↦ h.debugRange hr.1

/-- After any calls, a search finds a solution exactly when there is one, and the next call is
answered, too. -/
theorem debugOverGatesRange_right (S : SAT.Solver) (tr : TransitionRelation) (hwf : tr.WellFormed)
    (hplain : tr.gateCNF = AndGate.toCNF) (hpos : tr.gateIDs ≠ [])
    (hmany : tr.gateIDs.length < cardinalityInf) (vm : VariableManager) (hvm : vm.Inv)
    (hold : ∀ v ∈ tr.signals, v < vm.nextID) (d : DebugTransitionRelation) (vm₀ : VariableManager)
    (hd : fromRelation vm tr = .ok (d, vm₀)) (limit : ℕ) (blocked : List (Finset ℕ))
    (vm₁ : VariableManager) (s : BMCDebugger) (hs : Reached S tr d vm₀ limit blocked vm₁ s) :
    (∀ gates ⊆ tr.gateIDs, ∀ kMin kMax,
      Meets (fun r ↦ Reached S tr d vm₀ limit blocked vm₁ r.2 ∧
          (r.1.isSome = true ↔ ∃ D, IsSolution tr gates limit blocked kMin kMax D) ∧
          ∀ soln, r.1 = some soln → IsSolution tr gates limit blocked kMin kMax soln.toFinset)
        (SearchFails vm₁ kMax) (s.debugOverGatesRange S gates kMin kMax)) ∧
      Accepts S tr d vm₀ limit blocked vm₁ s := by
  have hdebugs : Meets _ (fun _ ↦ True) (fromRelation vm tr) :=
    (fromRelation_debugs hwf hplain hvm hold).weaken fun _ _ ↦ trivial
  obtain ⟨hdebug, hvm₀, hnext⟩ := post_of_ok hdebugs hd
  have hrep := hs.rep hdebug hpos hmany hvm₀ hnext.ge
  refine ⟨fun gates hsub kMin kMax ↦ ?_, hs.accepts hdebug hpos hmany hrep⟩
  have hfree : ∀ D, FreedWithin tr kMin kMax D ↔ ∃ k, kMin ≤ k ∧ k ≤ kMax ∧ tr.FreedBadAt D k :=
    fun D ↦ exists_congr fun k ↦ and_assoc
  have hsearch : Meets _ (SearchFails vm₁ kMax) _ :=
    debugOverGatesRange_meets S hrep hdebug hmany (fun hlt ↦ .inl ⟨rfl, hlt⟩) hsub kMin
      fun hle ↦ .inr ⟨rfl, hle⟩
  refine hsearch.self.imp fun r hr ↦ ?_
  obtain ⟨hok, hanswer, -, -⟩ := hr
  refine ⟨hs.debugOverGatesRange hsub hok, ?_⟩
  obtain ⟨answer, s'⟩ := r
  dsimp only at hanswer ⊢
  cases answer with
  | some soln =>
    obtain ⟨hin, hcard, hfreed, hopen⟩ := hanswer
    have hsoln : IsSolution tr gates limit blocked kMin kMax soln.toFinset := by
      refine ⟨fun g hg ↦ ?_, hcard, hopen, (hfree _).mp hfreed⟩
      exact List.mem_toFinset.mpr (hin (List.mem_toFinset.mp hg))
    refine ⟨⟨fun _ ↦ ⟨_, hsoln⟩, fun _ ↦ rfl⟩, fun soln' heq ↦ ?_⟩
    obtain rfl := Option.some.inj heq
    exact hsoln
  | none =>
    refine ⟨⟨nofun, fun hex ↦ ?_⟩, nofun⟩
    obtain ⟨D, hD, hcard, hopen, hfreed⟩ := hex
    exact absurd hopen (hanswer D hD hcard ((hfree D).mpr hfreed))

/-- The cardinality is raised from 1 to 2 with a set blocked in between, and searches before
and after. -/
theorem debugOverGatesRange_right_spare : ∃ d vm₀ vm₁ s,
    fromRelation fourVars spare = .ok (d, vm₀) ∧
    Reached .exhaustive spare d vm₀ 2 [{6}] vm₁ s ∧
    (∀ gates ⊆ spare.gateIDs, ∀ kMin kMax,
      Meets (fun r ↦ Reached .exhaustive spare d vm₀ 2 [{6}] vm₁ r.2 ∧
          (r.1.isSome = true ↔ ∃ D, IsSolution spare gates 2 [{6}] kMin kMax D) ∧
          ∀ soln, r.1 = some soln → IsSolution spare gates 2 [{6}] kMin kMax soln.toFinset)
        (SearchFails vm₁ kMax) (s.debugOverGatesRange .exhaustive gates kMin kMax)) ∧
      Accepts .exhaustive spare d vm₀ 2 [{6}] vm₁ s := by
  have hwf := spare_wellFormed
  have hpos : spare.gateIDs ≠ [] := List.cons_ne_nil _ _
  have hmany : spare.gateIDs.length < cardinalityInf := by decide
  have hold : ∀ v ∈ spare.signals, v < fourVars.nextID := by decide
  have hmade : Meets _ (fun _ ↦ False) (fromRelation fourVars spare) :=
    (fromRelation_debugs hwf rfl fourVars_inv hold).weaken fun _ he ↦ absurd he.2 (by decide)
  obtain ⟨⟨d, vm₀⟩, hd, hdebug, hvm₀, hnext⟩ := hmade.exists_ok
  dsimp only at hd hdebug hvm₀ hnext
  have hbound : vm₀.nextID ≤ 2 ^ 10 := by
    rw [hnext]
    decide
  have hgates : spare.gateIDs.length = 2 := rfl
  have hreach : ∀ {limit blocked vm s}, Reached .exhaustive spare d vm₀ limit blocked vm s →
      Rep spare fourVars.nextID d limit blocked vm s := fun h ↦
    h.rep hdebug hpos hmany hvm₀ hnext.ge
  have h₀ : Reached .exhaustive spare d vm₀ _ [] vm₀ (new d) := .new
  have hset : Meets _ (fun _ ↦ False) ((new d).setCardinality vm₀ 1) :=
    (hreach h₀).setCardinality hdebug hpos (by decide) fun hlt ↦ by
      rw [maxId_eq, hgates] at hlt
      omega
  obtain ⟨⟨s₁, vm₁⟩, hok₁, -, -, hle₁⟩ := hset.exists_ok
  dsimp only at hok₁ hle₁
  rw [hgates] at hle₁
  have h₁ := h₀.setCardinality (by decide) hok₁
  have hsearch : Meets _ (fun _ ↦ False) (s₁.debugOverGatesRange .exhaustive [8] 0 3) :=
    debugOverGatesRange_meets .exhaustive (hreach h₁) hdebug hmany (fun hlt ↦ by omega) (by decide) 0
      fun hle ↦ absurd hle (by decide)
  obtain ⟨⟨r₂, s₂⟩, hok₂, -⟩ := hsearch.exists_ok
  have h₂ := h₁.debugOverGatesRange (by decide) hok₂
  have hblock : Meets _ (fun _ ↦ False) (s₂.blockSolution [6]) :=
    (hreach h₂).blockSolution (by decide) (by decide)
  obtain ⟨s₃, hok₃, -⟩ := hblock.exists_ok
  have h₃ := h₂.blockSolution (by decide) (by decide) hok₃
  have hagain : Meets _ (fun _ ↦ False) (s₃.setCardinality vm₁ 2) :=
    (hreach h₃).setCardinality hdebug hpos (by decide) fun hlt ↦ by
      rw [maxId_eq, hgates] at hlt
      omega
  obtain ⟨⟨s₄, vm₄⟩, hok₄, -⟩ := hagain.exists_ok
  have h₄ := h₃.setCardinality (by decide) hok₄
  exact ⟨d, vm₀, vm₄, s₄, hd, h₄, debugOverGatesRange_right .exhaustive spare hwf rfl hpos hmany
    fourVars fourVars_inv hold d vm₀ hd 2 [{6}] vm₄ s₄ h₄⟩

end BMCDebugger

end PME
