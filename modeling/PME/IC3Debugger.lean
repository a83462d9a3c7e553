import PME.BMCDebugger
import PME.IC3.Climbing
import PME.IC3.Restrictions

namespace PME

open Outcome Exploration DebugTransitionRelation TransitionRelation IC3

structure IC3Debugger where
  tr : DebugTransitionRelation
  ic3 : IC3Solver
  cardinality : ℕ
  cardinalityConstraint : SortingConstraint
  debugLatches : List ℕ
  blockingClauses : ClauseVec

namespace IC3Debugger

def addCardinalityCNF (s : IC3Debugger) (n : ℕ) : Result IC3Debugger := do
  -- the constraint has one output more, so that at most `n` can be assumed
  let c := s.cardinalityConstraint.setCardinality (n + 1)
  let (vars, c, cnf) ← c.CNFize s.ic3.vars
  let ic3 ← cnf.foldlM IC3Solver.restrictInitialStates { s.ic3 with vars := vars }
  let assumps ← c.assumeLEq n
  let ic3 ← (assumps.map fun id ↦ [id]).foldlM IC3Solver.restrictInitialStates ic3
  return { s with ic3 := ic3, cardinalityConstraint := c }

def addBlockingClause (ic3 : IC3Solver) (cls : Clause) : Result IC3Solver := do
  let ic3 ← ic3.restrictInitialStates cls
  ic3.addClausalLemmas [cls] .inf

def addBlockingClauses (s : IC3Debugger) : Result IC3Debugger := do
  return { s with ic3 := ← s.blockingClauses.foldlM addBlockingClause s.ic3 }

def setupInitialStates (s : IC3Debugger) : Result IC3Debugger := do
  let s := { s with ic3 := s.ic3.clearRestrictions }
  let s ← (if s.cardinality < cardinalityInf then s.addCardinalityCNF s.cardinality else pure s)
  s.addBlockingClauses

/-- The end of `setCardinality`: lemmas are kept only when there are no more initial states. -/
def reload (expanded : Bool) (s : IC3Debugger) : Result IC3Debugger := do
  let ic3 ← (if expanded then s.ic3.initialStatesExpanded else s.ic3.initialStatesRestricted)
  return { s with ic3 := ic3 }

def setCardinality (s : IC3Debugger) (n : ℕ) : Result IC3Debugger :=
  if s.cardinality = n then return s else do
    let oldCardinality := s.cardinality
    let s ← { s with cardinality := n }.setupInitialStates
    s.reload (decide (oldCardinality < n))

def clearCardinality (s : IC3Debugger) : Result IC3Debugger := do
  let s := { s with ic3 := s.ic3.clearRestrictions }
  let s ← s.addBlockingClauses
  let s ← (if s.cardinality < cardinalityInf then s.reload true else pure s)
  return { s with cardinality := cardinalityInf }

def new (vars : VariableManager) (tr : DebugTransitionRelation) : Result IC3Debugger := do
  let ic3 ← IC3Solver.new vars tr.toTransitionRelation
  let s ← clearCardinality ⟨tr, ic3, cardinalityInf, .sortingLEqConstraint, [], []⟩
  let debugLatches := idSet tr.debugLatchIDs
  return { s with
    debugLatches := debugLatches
    cardinalityConstraint := debugLatches.foldl SortingConstraint.addInput s.cardinalityConstraint }

def isDebugLatch (s : IC3Debugger) (latch : ℕ) : Bool := s.debugLatches.contains (strip latch)

def extractSolution (s : IC3Debugger) (cex : SafetyCounterExample) : Result CorrectionSet :=
  match cex with
  | [] => throw .assertion
  | init :: _ =>
    (init.state.filter fun latch ↦ !isNegated latch && s.isDebugLatch latch).mapM s.tr.gateForDebugLatch

def solution (s : IC3Debugger) (result : SafetyResult) : Result (Option CorrectionSet) :=
  if result.result = .safe then return none else do
    ensure (result.result == .unsafeAt)
    return some (← s.extractSolution result.cex)

def onlyTheseGates (s : IC3Debugger) (gates : List ℕ) : ClauseVec :=
  let gateDLs := gates.map s.tr.debugLatchForGate
  (s.debugLatches.filter fun dl ↦ !gateDLs.contains dl).map fun dl ↦ [negate dl]

/-- What `debugOverGates` and `blockSolution` do to restrict the solver further. The lemmas are
taken away with the restrictions, by `initialStatesExpanded`. -/
def restrictTo (ic3 : IC3Solver) (clauses : ClauseVec) : Result IC3Solver := do
  let ic3 ← ic3.restrictInitialStatesAll clauses
  let ic3 ← ic3.addClausalLemmas clauses .inf
  ic3.initialStatesRestricted

section Debugging

variable (E : Engines) (fuel : IC3Solver → ℕ)

/-- What `debug` and `debugOverGates` share. -/
def prove (s : IC3Debugger) : Result (Option CorrectionSet × IC3Debugger) := do
  let (result, ic3) ← (IC3Solver.prove E (fuel s.ic3) s.ic3).2
  let s := { s with ic3 := ic3 }
  return (← s.solution result, s)

def debug (s : IC3Debugger) : Result (Option CorrectionSet × IC3Debugger) := s.prove E fuel

def debugOverGates (s : IC3Debugger) (gates : List ℕ) : Result (Option CorrectionSet × IC3Debugger) := do
  let ic3 ← restrictTo s.ic3 (s.onlyTheseGates gates)
  let (result, s) ← { s with ic3 := ic3 }.prove E fuel
  let s ← s.setupInitialStates
  return (result, ← s.reload true)

end Debugging

def blockSolution (s : IC3Debugger) (soln : CorrectionSet) : Result IC3Debugger := do
  let block := BMCDebugger.blockingClause s.tr soln
  return { s with ic3 := ← restrictTo s.ic3 [block], blockingClauses := s.blockingClauses ++ [block] }

def addLemma (s : IC3Debugger) (c : Cube) (level : Level) : Result (LemmaID × IC3Debugger) := do
  let (id, ic3) ← (IC3Solver.addLemma c level s.ic3).2
  return (id, { s with ic3 := ic3 })

def getFrameCubes (s : IC3Debugger) (n : Level) : Result (List Cube) := s.ic3.getFrameCubes n

def numFrames (s : IC3Debugger) : ℕ := s.ic3.trace.numFrames

end IC3Debugger

section Circuits

variable {tr : TransitionRelation} {n : ℕ} {d : DebugTransitionRelation}

theorem DebugTransitionRelation.Debugs.owned (h : Debugs tr n d) :
    FrameSolver.Owned d.toTransitionRelation (n + 4 * tr.gateIDs.length) := by
  have hmin := h.minId_le
  rw [minId_eq] at hmin
  refine ⟨by rw [minId_eq]; omega, fun v hv ↦ h.mentions_lt hv, fun v hv ↦ ?_⟩
  exact h.signals_lt (mem_signals.mpr (.inl (List.mem_append_left _ hv)))

end Circuits

namespace IC3Debugger

variable {E : Engines} {tr : TransitionRelation} {n : ℕ} {d : DebugTransitionRelation} {s : IC3Debugger}
  {base restr : List Cube} {fail : Failure → Prop} {limit : ℕ} {blocked : List (Finset ℕ)}
  {gates : List ℕ} {soln : CorrectionSet} {x y : Assignment} {ok : Finset ℕ → Prop} {st : IC3Solver}

def circuit (E : Engines) (hd : Debugs tr n d) : Circuit := .plain E hd.wellFormed hd.owned hd.constraints

section Meaning

theorem selected_congr (hd : Debugs tr n d) (hxy : ∀ v < n + 4 * tr.gateIDs.length, y v = x v) :
    d.selected y = d.selected x := by
  exact List.filter_congr fun _ hg ↦ hxy _ (hd.latch_lt (hd.gateIDs ▸ hg))

theorem freedBad_of_leads (hd : Debugs tr n d) (hx : ((circuit E hd).setting restr st).Start x)
    (h : ((circuit E hd).setting restr st).LeadsTo [d.bad] x) : tr.FreedBad (d.selected x).toFinset := by
  obtain ⟨k, y, hreach, hbad⟩ := h
  obtain ⟨m, f, ⟨hsame, -⟩, hrun, rfl, hframe⟩ := exists_run (fun _ hz ↦ hz.2) hreach
  obtain ⟨w, hw, -⟩ := exists_linked hd.wellFormed hd.constraints hframe (u := fun _ ↦ false) rfl
  have hlong := hrun.snoc hframe hw.step
  generalize hg : (fun i ↦ if i ≤ m then f i else w) = z at hlong
  have hz : ∀ i ≤ m, z i = f i := fun i hi ↦ by
    rw [← hg]
    exact if_pos hi
  have hlast : z (m + 1) = w := by
    rw [← hg]
    exact if_neg (Nat.not_succ_le_self m)
  have hzero : z 0 = f 0 := hz 0 (Nat.zero_le m)
  have hinit : (circuit E hd).Init restr (f 0) := hx.1.same hsame
  have hdebug : d.DebugRun ((d.selected x).toFinset : Set ℕ) (m + 1) z := by
    refine ⟨fun i hi ↦ ?_, hzero ▸ hinit.1, hlong, fun g hmem ↦ ?_⟩
    · obtain hlt | rfl := Nat.lt_or_eq_of_le hi
      · exact (hlong i hlt).1.const
      · rw [hlast]
        exact hw.snd.const
    · rw [Finset.mem_coe, List.mem_toFinset, mem_selected, hzero,
        ← hsame _ (.inr (.inl (hd.latch_mem_latchIDs (hd.gateIDs ▸ hmem))))]
      exact ⟨fun hv ↦ ⟨hmem, hv⟩, And.right⟩
  have hp : tr.Projects (m + 1) z z := ⟨fun _ _ ↦ rfl, fun _ _ _ _ ↦ rfl, fun _ _ _ _ ↦ rfl⟩
  refine ⟨m, z, hd.toIsDebug.suspectRun hd.wf hd.even hdebug hp, ?_⟩
  rw [hz m le_rfl, ← hd.bad]
  exact hbad _ List.mem_cons_self

/-- A gate set that frees the bad literal is selected by an initial state from which a bad one is
reached. -/
theorem reaches_of_freedBad (hd : Debugs tr n d) {D : Finset ℕ}
    (h : (circuit E hd).Admits (n + 4 * tr.gateIDs.length) (fun x ↦ ok (d.selected x).toFinset) restr)
    (hD : D ⊆ tr.gateIDs.toFinset) (hok : ok D) (hfreed : tr.FreedBad D) :
    (circuit E hd).Reaches restr [d.bad] := by
  obtain ⟨k, x, hx, hbad⟩ := hfreed
  obtain ⟨hy, hp⟩ := hd.toIsDebug.debugRun_lift hd.wf hd.even hd.minId_le hd.old hx
  generalize IsDebug.lift tr n (D : Set ℕ) x = y at hy hp
  have hselected : (d.selected (y 0)).toFinset = D := by
    ext g
    rw [List.mem_toFinset, mem_selected]
    constructor
    · exact fun hg ↦ (hy.selects g hg.1).mp hg.2
    · intro hg
      have hmem : g ∈ d.gateIDs := hd.gateIDs ▸ List.mem_toFinset.mp (hD hg)
      exact ⟨hmem, (hy.selects g hmem).mpr hg⟩
  obtain ⟨x', hsame, hinit⟩ := h.complete (y 0) hy.init (hselected.symm ▸ hok)
  have hmin := hd.minId_le
  rw [minId_eq] at hmin
  have hc : x' idFalse = y 0 idFalse := hsame _ (by rw [idFalse]; omega)
  have hsignals : ∀ v ∈ d.signals, x' v = y 0 v := fun v hv ↦ hsame v (hd.signals_lt hv)
  have hconst : ∀ i, (if i = 0 then x' else y i) idFalse = y i idFalse := by
    intro i
    split
    · next hi => rw [hi, hc]
    · rfl
  have hall : ∀ i, ∀ v ∈ d.signals, (if i = 0 then x' else y i) v = y i v := by
    intro i v hv
    split
    · next hi => rw [hi, hsignals v hv]
    · rfl
  have hrun : d.IsRun (k + 1) fun i ↦ if i = 0 then x' else y i := fun i hi ↦
    ⟨hd.wellFormed.isFrame_of_signals (hconst i) (hall i) (hy.run i hi).1,
      hd.wellFormed.step_of_signals (hconst i) (hall i) (hall (i + 1)) (hy.run i hi).2⟩
  have hframe : d.IsFrame x' := (hrun 0 (Nat.succ_pos k)).1
  have hreach : FrameSequence.Reach (fun x ↦ (circuit E hd).Init restr x ∧ d.IsFrame x) d.Linked k _ :=
    reach_of_run ⟨hinit, hframe⟩ hrun
  refine ⟨k, _, hreach, fun lit hl ↦ ?_⟩
  rw [List.mem_singleton.mp hl, litVal_of_signals (hconst k) (hall k) hd.wellFormed.bad_defined, hd.bad,
    hp.litVal_eq (Nat.lt_succ_self k) hd.wf.bad_defined]
  exact hbad

theorem exists_unselected (hd : Debugs tr n d) :
    ∃ x : Assignment, d.IsInit x ∧ x idFalse = false ∧ d.selected x = [] := by
  obtain ⟨x, hx, hinit⟩ := exists_initial hd.wellFormed hd.constraints
  have hmin := hd.minId_le
  rw [minId_eq] at hmin
  have hlow : ∀ v < n, (if v < n then x v else false) = x v := fun v hv ↦ if_pos hv
  refine ⟨fun v ↦ if v < n then x v else false, (hd.toIsDebug.isInit_iff _).mpr ?_, ?_, ?_⟩
  · exact hd.wf.isInit_of_signals (hlow _ (by rw [idFalse]; omega)) (fun v hv ↦ hlow v (hd.old v hv))
      ((hd.toIsDebug.isInit_iff _).mp hinit)
  · exact (hlow _ (by rw [idFalse]; omega)).trans hx.const
  · refine List.filter_eq_nil_iff.mpr fun g hg ↦ ?_
    obtain ⟨j, -, -, hlatch, -⟩ := hd.debugLatch_mem (hd.gateIDs ▸ hg)
    rw [hlatch, latchAt]
    dsimp only
    rw [if_neg (by omega)]
    exact Bool.false_ne_true

end Meaning

section Proofs

theorem extractSolution_eq (htr : s.tr = d) (hlatches : s.debugLatches = idSet d.debugLatchIDs)
    (cex : SafetyCounterExample) : s.extractSolution cex = (BMCDebugger.new d).extractSolution cex := by
  cases cex with
  | nil => rfl
  | cons init rest =>
    have hfilter : (init.state.filter fun latch ↦ !isNegated latch && s.isDebugLatch latch) =
        init.state.filter fun latch ↦ !isNegated latch && (idSet d.debugLatchIDs).contains latch := by
      refine List.filter_congr fun latch _ ↦ ?_
      rw [isDebugLatch, hlatches]
      cases hneg : isNegated latch with
      | true => rfl
      | false => rw [strip_of_even ((isNegated_eq_false latch).mp hneg)]
    unfold extractSolution
    dsimp only
    rw [hfilter, htr]
    rfl

def Found (tr : TransitionRelation) (ok : Finset ℕ → Prop) : Option CorrectionSet → Prop
  | some soln => soln ⊆ tr.gateIDs ∧ ok soln.toFinset ∧ tr.FreedBad soln.toFinset
  | none => ∀ D ⊆ tr.gateIDs.toFinset, ok D → ¬ tr.FreedBad D

structure Armed (E : Engines) (hd : Debugs tr n d) (ok : Finset ℕ → Prop) (s : IC3Debugger)
    (base restr : List Cube) : Prop where
  session : Session (circuit E hd) base restr s.ic3
  subset : restr ⊆ base
  waiting : s.ic3.initConstraints ⊆ restr
  blocks : cubesOf s.blockingClauses ⊆ restr
  lits : ∀ c ∈ restr, ∀ lit ∈ c, (circuit E hd).Lit s.ic3 lit
  admits : (circuit E hd).Admits (n + 4 * tr.gateIDs.length) (fun x ↦ ok (d.selected x).toFinset) restr

/-- With enough fuel the solver finds a gate set that the restrictions leave, if there is one. -/
theorem prove_meets (hd : Debugs tr n d) (hpos : tr.gateIDs ≠ []) {fuel : IC3Solver → ℕ}
    (hfuel : ∀ st, st.fuelBound ≤ fuel st) (hids : fail .idsExhausted) (htr : s.tr = d)
    (hlatches : s.debugLatches = idSet d.debugLatchIDs) (h : Armed E hd ok s base restr) (hempty : ok ∅) :
    Meets (fun r ↦ Found tr ok r.1 ∧ ∃ ic3, r.2 = { s with ic3 := ic3 } ∧
      Session (circuit E hd) base restr ic3 ∧ (circuit E hd).Keeps s.ic3 ic3) fail (s.prove E fuel) := by
  have hmin := hd.minId_le
  rw [minId_eq] at hmin
  have hlive : (circuit E hd).Live restr := by
    obtain ⟨x, hinit, hfalse, hnone⟩ := exists_unselected hd
    refine h.admits.live hd.constraints (by rw [idFalse]; omega) hinit hfalse ?_
    rw [hnone]
    exact hempty
  have hallowed : ∀ e, (circuit E hd).Unavoidable restr s.ic3 e → fail e := by
    intro e he
    rcases he with rfl | ⟨-, hblind⟩
    · exact hids
    · obtain ⟨g, hg⟩ := List.exists_mem_of_ne_nil _ hpos
      obtain ⟨j, hj, -⟩ := hd.debugLatch_mem hg
      have hmem : (⟨latchAt n j, latchAt n j, idNull⟩ : Latch) ∈ d.latches := by
        rw [hd.toIsDebug.latches]
        exact List.mem_append_right _ (List.mem_map_of_mem (List.mem_range.mpr hj))
      exact absurd rfl (hblind.moves _ hmem)
  have hends := session_proves h.session trivial h.subset hlive (hfuel s.ic3) fun _ _ hno ↦ hno.elim
  unfold IC3Debugger.prove
  refine (hends.weaken hallowed).bind fun r hr ↦ ?_
  obtain ⟨result, ic3⟩ := r
  obtain ⟨hans, hsession⟩ := hr
  dsimp only at hans hsession ⊢
  have hkeeps : (circuit E hd).Keeps s.ic3 ic3 :=
    ⟨fun lit hl ↦ Circuit.lit_mono hans.good.toRep hl, hans.constraints⟩
  have hsolution : Meets (Found tr ok) fail (solution { s with ic3 := ic3 } result) := by
    unfold solution
    obtain ⟨hknown, hfails⟩ := hans.decides trivial
    split
    · next hsafe =>
      intro D hD hok hfreed
      exact (hans.safe_iff trivial).mp hsafe (reaches_of_freedBad hd h.admits hD hok hfreed)
    · next hsafe =>
      have hfound : result.result = .unsafeAt := by
        cases hres : result.result with
        | safe => exact absurd hres hsafe
        | unsafeAt => rfl
        | unknown => exact absurd hres hknown
      rw [hfound, beq_self_eq_true, ensure_true, ok_bind]
      obtain ⟨x, first, rest, hcex, hstart, hshown, hleads⟩ := hans.found trivial hfound
      have hstate : ∀ v ∈ d.latchIDs, (v ∈ first.state ↔ x v = true) := by
        intro v hv
        refine ⟨fun hmem ↦ ?_, hshown.2 v hv⟩
        have hval := hshown.1 v hmem
        rwa [litVal_of_even (hd.wellFormed.isVar v (mem_signals.mpr
          (.inl (List.mem_append_right _ hv)))).2.2] at hval
      rw [extractSolution_eq (s := { s with ic3 := ic3 }) htr hlatches, hcex]
      refine (BMCDebugger.extractSolution_meets hd rfl rfl hstate).bind fun soln hsoln ↦ ?_
      refine ⟨fun g hg ↦ ?_, ?_, ?_⟩
      · have hmem : g ∈ (d.selected x).toFinset := hsoln ▸ List.mem_toFinset.mpr hg
        exact hd.gateIDs ▸ (mem_selected.mp (List.mem_toFinset.mp hmem)).1
      · rw [hsoln]
        exact h.admits.sound x hstart.1
      · rw [hsoln]
        exact freedBad_of_leads hd hstart hleads
  exact hsolution.bind fun soln hsoln ↦ ⟨hsoln, ic3, rfl, hsession, hkeeps⟩

def Counting (d : DebugTransitionRelation) (c : SortingConstraint) : Prop :=
  c.inputs = idSet d.debugLatchIDs ∧ c.le = true ∧ c.ge = false

theorem latch_mem (hd : Debugs tr n d) {dl : ℕ} (hdl : dl ∈ idSet d.debugLatchIDs) :
    strip dl ∈ d.latchIDs := by
  obtain ⟨g, hg, rfl⟩ := (BMCDebugger.mem_debugLatches hd).mp hdl
  rw [strip_of_even (hd.latch_isVar hg).2.2]
  exact hd.latch_mem_latchIDs hg

theorem lit_of_latch (hd : Debugs tr n d) {lit : ℕ} (hl : strip lit ∈ d.latchIDs) :
    (circuit E hd).Lit st lit ∧ d.StateVar (strip lit) :=
  ⟨((circuit E hd).setting [] st).latch lit hl, .inr (.inl hl)⟩

theorem satClauses_units {cube : Cube} : satClauses x (cube.map fun id ↦ [id]) ↔ satCube x cube := by
  rw [satClauses, List.forall_mem_map]
  refine forall₂_congr fun lit _ ↦ ?_
  rw [satClause_cons]
  exact or_iff_left not_satClause_nil

theorem CNFize_counts (hd : Debugs tr n d) (hpos : tr.gateIDs ≠ []) (hids : fail .idsExhausted) (m : ℕ)
    {c : SortingConstraint} (hc : Counting d c) {vars : VariableManager} (hvars : vars.Inv)
    (hfirst : n + 4 * tr.gateIDs.length ≤ vars.nextID) :
    Meets (fun r ↦ r.1.Inv ∧ vars.nextID ≤ r.1.nextID ∧
      (Counting d r.2.1 ∧ r.2.1.cardinality = m + 1 ∧ r.2.1.cnfized = true) ∧
      Counts vars r.1 (idSet d.debugLatchIDs) (m + 1) true false r.2.1.outputs r.2.2) fail
      ((c.setCardinality (m + 1)).CNFize vars) := by
  obtain ⟨hin, hle, hge⟩ := hc
  have hlow : ∀ w ∈ c.inputs, Old vars.nextID (strip w) := fun w hw ↦
    .inl ((BMCDebugger.strip_lt_of_mem_latches hd (hin ▸ hw)).trans_le hfirst)
  have hlength : 0 < c.inputs.length := by
    rw [hin, hd.length_latches]
    exact List.length_pos_of_ne_nil hpos
  have hdir : (c.le || c.ge) = true := by rw [hle, Bool.true_or]
  have hnetwork : Meets _ fail ((c.setCardinality (m + 1)).CNFize vars) :=
    SortingConstraint.CNFize_meets hvars hdir hlength (Nat.succ_pos m) hlow fun _ ↦ hids
  refine hnetwork.imp fun r hr ↦ ?_
  obtain ⟨hinv, hnext, -, hc', hcounts⟩ := hr
  change Counts _ _ c.inputs (m + 1) c.le c.ge _ _ at hcounts
  rw [hin, hle, hge] at hcounts
  refine ⟨hinv, hnext, ⟨?_, ?_, ?_⟩, hcounts⟩
  · rw [hc']
    exact ⟨hin, hle, hge⟩
  · rw [hc']
    rfl
  · rw [hc']

theorem addCardinalityCNF_meets (hd : Debugs tr n d) (hpos : tr.gateIDs ≠ [])
    (hids : fail .idsExhausted ∧ fail .narrowed) {m : ℕ} (hm : m ≤ tr.gateIDs.length)
    (hc : Counting d s.cardinalityConstraint) (h : Session (circuit E hd) base restr s.ic3) :
    Meets (fun s' ↦ ∃ ic3 c cubes, s' = { s with ic3 := ic3, cardinalityConstraint := c } ∧ Counting d c ∧
      (circuit E hd).Loaded base restr s.ic3 ic3 cubes ∧
      (circuit E hd).Selects s.ic3.vars.nextID (fun x ↦ (d.selected x).toFinset.card ≤ m) cubes) fail
      (s.addCardinalityCNF m) := by
  have hlen : (idSet d.debugLatchIDs).length = tr.gateIDs.length := hd.length_latches
  have hfirst : n + 4 * tr.gateIDs.length ≤ s.ic3.vars.nextID := h.between.rep.cons.first_le
  have hsignals : ∀ v ∈ (circuit E hd).tr.signals, v < (circuit E hd).first := fun v hv ↦ hd.signals_lt hv
  have hlow : ∀ w ∈ idSet d.debugLatchIDs, strip w < s.ic3.vars.nextID := fun w hw ↦
    (BMCDebugger.strip_lt_of_mem_latches hd hw).trans_le hfirst
  unfold addCardinalityCNF
  refine (CNFize_counts hd hpos hids.1 m hc h.between.rep.cons.vars hfirst).bind fun r hr ↦ ?_
  obtain ⟨vars, c', cnf⟩ := r
  obtain ⟨hinv, hnext, ⟨hcounting, hcard, hcnfized⟩, hcounts'⟩ := hr
  dsimp only at hinv hnext hcounting hcard hcnfized hcounts' ⊢
  have hmade : Session (circuit E hd) base restr { s.ic3 with vars := vars } := .made h hinv hnext
  have hlit : ∀ lit, (∃ w ∈ idSet d.debugLatchIDs, strip w = strip lit) ∨
      s.ic3.vars.nextID ≤ strip lit ∧ strip lit < vars.nextID →
      (circuit E hd).Lit { s.ic3 with vars := vars } lit ∧ d.StateVar (strip lit) := by
    intro lit hl
    rcases hl with ⟨w, hw, heq⟩ | ⟨hnew, hlt⟩
    · exact lit_of_latch hd (heq ▸ latch_mem hd hw)
    · exact lit_of_new h hinv hnew hlt hsignals
  have hcnf : (circuit E hd).Restricts { s.ic3 with vars := vars } cnf := fun cls hcls ↦
    ⟨hcounts'.nonempty cls hcls, fun lit hl ↦ hlit lit (hcounts'.vars _ (mem_varsOf hcls hl))⟩
  refine (session_loads hmade hcnf).bind fun ic3 hic3 ↦ ?_
  have houtputs : c'.outputs.length = c'.getOutputCardinality := by
    rw [hcounts'.length, SortingConstraint.getOutputCardinality, hcounting.1, hcard, min_comm]
  have hn : m < c'.getOutputCardinality ∨ m = c'.inputs.length ∧ m = c'.getOutputCardinality := by
    rw [← houtputs, hcounts'.length, hcounting.1, hlen]
    omega
  refine (SortingConstraint.assumeLEq_meets hcounting.2.1 hcnfized houtputs (fun _ _ _ ↦ hids.2) hn).bind
    fun cube hcube ↦ ?_
  have hunits : (circuit E hd).Restricts { s.ic3 with vars := vars } (cube.map fun id ↦ [id]) := by
    intro cls hcls
    obtain ⟨id, hid, rfl⟩ := List.mem_map.mp hcls
    refine ⟨List.cons_ne_nil _ _, fun lit hl ↦ ?_⟩
    obtain rfl := List.mem_singleton.mp hl
    obtain ⟨y, hy, heq⟩ := hcube.vars lit hid
    refine hlit lit ((hcounts'.wires y hy).imp (fun hmem ↦ ⟨y, hmem, heq.symm⟩) fun hnew ↦ ?_)
    rwa [heq]
  have hwaiting : (circuit E hd).Restricts ic3 (cube.map fun id ↦ [id]) := fun cls hcls ↦
    ⟨(hunits cls hcls).1, fun lit hl ↦
      ⟨hic3.1.grown lit ((hunits cls hcls).2 lit hl).1, ((hunits cls hcls).2 lit hl).2⟩⟩
  refine (session_loads hic3.1.session hwaiting).bind fun ic3' hic3' ↦ ?_
  have hgrown : ∀ lit, (circuit E hd).Lit s.ic3 lit → (circuit E hd).Lit { s.ic3 with vars := vars } lit := by
    refine fun lit hl ↦ ⟨hl.1.imp_right fun hknown l hmem ↦ ?_, hl.2⟩
    exact ⟨(hknown l hmem).1.trans_le hnext, (hknown l hmem).2⟩
  have hloaded := hic3.1.trans hic3'.1
  refine ⟨ic3', c', _, rfl, hcounting, ⟨hloaded.session, fun lit hl ↦ hloaded.grown lit (hgrown lit hl),
    hloaded.waiting, hloaded.lits⟩, List.forall_mem_append.mpr ⟨hcnf.state, hunits.state⟩, fun x hx ↦ ?_, fun x hx ↦ ?_⟩
  · obtain ⟨hsat, hsatUnits⟩ := List.forall_mem_append.mp hx
    rw [excluded_cubesOf] at hsat hsatUnits
    rw [← hd.trueCount_latches, ← hcounting.1]
    refine hcube.sound x (fun _ i y hy hi ↦ ?_) (fun hge' ↦ ?_) (satClauses_units.mp hsatUnits)
    · exact hcounts'.atLeast rfl x hsat i y hy (hcounting.1 ▸ hi)
    · exact absurd (hcounting.2.2.symm.trans hge') Bool.false_ne_true
  · obtain ⟨x', hsame, hsat, houts⟩ := hcounts'.extension x
    have hcount : trueCount x' (idSet d.debugLatchIDs) = trueCount x (idSet d.debugLatchIDs) :=
      trueCount_congr fun w hw ↦ hsame _ (.inl (hlow w hw))
    refine ⟨x', fun v hv ↦ hsame v (.inl hv), List.forall_mem_append.mpr ⟨(excluded_cubesOf cnf).mpr hsat, ?_⟩⟩
    rw [excluded_cubesOf, satClauses_units]
    rw [← hcount] at houts
    refine hcube.complete x' (hcounting.1.symm ▸ houts) ?_
    rw [hcounting.1, hcount, hd.trueCount_latches]
    exact hx

def Blocking (tr : TransitionRelation) (d : DebugTransitionRelation) (blocked : List (Finset ℕ))
    (clauses : ClauseVec) : Prop :=
  ∃ solns : List CorrectionSet, clauses = solns.map (BMCDebugger.blockingClause d) ∧
    solns.map List.toFinset = blocked ∧ ∀ soln ∈ solns, soln ≠ [] ∧ soln ⊆ tr.gateIDs

theorem frozen_of_latches (hd : Debugs tr n d) {cls : Clause}
    (h : ∀ lit ∈ cls, ∃ g ∈ tr.gateIDs, strip lit = d.debugLatchForGate g) : Frozen d.toTransitionRelation cls := by
  intro lit hl
  obtain ⟨g, hg, heq⟩ := h lit hl
  obtain ⟨j, hj, -, hlatch, -⟩ := hd.debugLatch_mem hg
  refine ⟨⟨latchAt n j, latchAt n j, idNull⟩, ?_, rfl, heq ▸ hlatch.symm⟩
  rw [hd.toIsDebug.latches]
  exact List.mem_append_right _ (List.mem_map_of_mem (List.mem_range.mpr hj))

theorem restricts_of_latches (E : Engines) (st : IC3Solver) (hd : Debugs tr n d) {clauses : ClauseVec}
    (h : ∀ cls ∈ clauses, cls ≠ [] ∧ ∀ lit ∈ cls, ∃ g ∈ tr.gateIDs, strip lit = d.debugLatchForGate g) :
    (circuit E hd).Restricts st clauses ∧ ∀ cls ∈ clauses, cls ≠ [] ∧ Frozen d.toTransitionRelation cls := by
  refine ⟨fun cls hcls ↦ ⟨(h cls hcls).1, fun lit hl ↦ ?_⟩, fun cls hcls ↦
    ⟨(h cls hcls).1, frozen_of_latches hd (h cls hcls).2⟩⟩
  obtain ⟨g, hg, heq⟩ := (h cls hcls).2 lit hl
  exact lit_of_latch hd (heq ▸ hd.latch_mem_latchIDs hg)

theorem strip_of_mem_block (hd : Debugs tr n d) (hsub : soln ⊆ tr.gateIDs) :
    ∀ lit ∈ BMCDebugger.blockingClause d soln, ∃ g ∈ tr.gateIDs, strip lit = d.debugLatchForGate g := by
  intro lit hl
  obtain ⟨g, hg, rfl⟩ := List.mem_map.mp hl
  refine ⟨g, hsub hg, ?_⟩
  rw [strip_negate, strip_of_even (hd.latch_isVar (hsub hg)).2.2]

theorem Blocking.latches (hd : Debugs tr n d) {clauses : ClauseVec} (h : Blocking tr d blocked clauses) :
    ∀ cls ∈ clauses, cls ≠ [] ∧ ∀ lit ∈ cls, ∃ g ∈ tr.gateIDs, strip lit = d.debugLatchForGate g := by
  obtain ⟨solns, rfl, -, hsolns⟩ := h
  intro cls hcls
  obtain ⟨soln, hmem, rfl⟩ := List.mem_map.mp hcls
  refine ⟨?_, strip_of_mem_block hd (hsolns soln hmem).2⟩
  rw [BMCDebugger.blockingClause, Ne, List.map_eq_nil_iff]
  exact (hsolns soln hmem).1

theorem Blocking.sat_iff (hd : Debugs tr n d) {clauses : ClauseVec} (h : Blocking tr d blocked clauses) :
    satClauses x clauses ↔ Unblocked blocked (d.selected x).toFinset := by
  obtain ⟨solns, rfl, rfl, hsolns⟩ := h
  exact BMCDebugger.satClauses_blocking hd hsolns

def Allowed (limit : ℕ) (blocked : List (Finset ℕ)) (D : Finset ℕ) : Prop :=
  D.card ≤ limit ∧ Unblocked blocked D

def Limited (tr : TransitionRelation) (cardinality limit : ℕ) : Prop :=
  cardinalityInf ≤ cardinality ∧ limit = tr.gateIDs.length ∨ cardinality = limit ∧ limit ≤ tr.gateIDs.length

theorem addBlockingClauses_meets (hd : Debugs tr n d) (hids : fail .idsExhausted)
    (hblocks : Blocking tr d blocked s.blockingClauses) (hmem : cubesOf s.blockingClauses ⊆ restr)
    (h : Session (circuit E hd) base restr s.ic3) :
    Meets (fun s' ↦ ∃ ic3, s' = { s with ic3 := ic3 } ∧
      (circuit E hd).Loaded base restr s.ic3 ic3 (cubesOf s.blockingClauses)) fail s.addBlockingClauses := by
  have hlatches := hblocks.latches hd
  have hloads : Meets (fun ic3 ↦ (circuit E hd).Loaded base restr s.ic3 ic3 (cubesOf s.blockingClauses)) fail
      (s.blockingClauses.foldlM addBlockingClause s.ic3) := by
    refine foldlM_meets (fun done ic3 ↦ (circuit E hd).Loaded base restr s.ic3 ic3 (cubesOf done)) s.ic3
      (Circuit.loaded_nil h) fun done cls rest ic3 hl hic3 ↦ ?_
    have hcls : cls ∈ s.blockingClauses := hl ▸ List.mem_append_right done List.mem_cons_self
    obtain ⟨hrestricts, hfrozen⟩ := restricts_of_latches E ic3 hd (List.forall_mem_singleton.mpr (hlatches cls hcls))
    unfold addBlockingClause
    refine (session_restricts hic3.session hrestricts).bind fun ic3₁ h₁ ↦ ?_
    obtain ⟨hsession₁, rfl⟩ := h₁
    have hcubes : cubesOf [cls] ⊆ restr := fun c hc ↦ hmem (by
      obtain ⟨cls', hcls', rfl⟩ := List.mem_map.mp hc
      exact List.mem_map_of_mem (List.mem_singleton.mp hcls' ▸ hcls))
    refine (session_addClauses hsession₁ hcubes hfrozen hids).imp fun ic3₂ h₂ ↦ ?_
    have hloaded : (circuit E hd).Loaded base restr ic3 ic3₂ (cubesOf [cls]) :=
      ⟨h₂.1, h₂.2.lits, h₂.2.waiting, fun c hc lit hl ↦ h₂.2.lits lit (hrestricts.lits c hc lit hl)⟩
    have hall := hic3.trans hloaded
    rwa [cubesOf, cubesOf, ← List.map_append] at hall
  exact hloads.bind fun ic3 hic3 ↦ ⟨ic3, rfl, hic3⟩

/-- The restrictions are set up again: those left are about the cardinality and the blocked solutions. -/
theorem setupInitialStates_meets (hd : Debugs tr n d) (hpos : tr.gateIDs ≠ [])
    (hmany : tr.gateIDs.length < cardinalityInf) (hids : fail .idsExhausted ∧ fail .narrowed)
    (hc : Counting d s.cardinalityConstraint) (hlimit : Limited tr s.cardinality limit)
    (hblocks : Blocking tr d blocked s.blockingClauses) (hmem : cubesOf s.blockingClauses ⊆ restr)
    (h : Session (circuit E hd) base restr s.ic3) :
    Meets (fun s' ↦ ∃ ic3 c cubes, s' = { s with ic3 := ic3, cardinalityConstraint := c } ∧ Counting d c ∧
      (circuit E hd).Loaded base restr s.ic3.clearRestrictions ic3 cubes ∧ cubesOf s.blockingClauses ⊆ cubes ∧
      (circuit E hd).Selects s.ic3.vars.nextID (fun x ↦ Allowed limit blocked (d.selected x).toFinset) cubes)
      fail s.setupInitialStates := by
  have hclear : Session (circuit E hd) base restr s.ic3.clearRestrictions := .clear h
  have hfirst : n + 4 * tr.gateIDs.length ≤ s.ic3.vars.nextID := h.between.rep.cons.first_le
  have hcard : Meets (fun s' ↦ ∃ ic3 c cubes, s' = { s with ic3 := ic3, cardinalityConstraint := c } ∧
      Counting d c ∧ (circuit E hd).Loaded base restr s.ic3.clearRestrictions ic3 cubes ∧
      (circuit E hd).Selects s.ic3.vars.nextID (fun x ↦ (d.selected x).toFinset.card ≤ limit) cubes) fail
      (if s.cardinality < cardinalityInf then
        addCardinalityCNF { s with ic3 := s.ic3.clearRestrictions } s.cardinality
      else pure { s with ic3 := s.ic3.clearRestrictions }) := by
    rcases hlimit with ⟨hinf, rfl⟩ | ⟨heq, hle⟩
    · rw [if_neg (by omega)]
      refine ⟨_, _, [], rfl, hc, Circuit.loaded_nil hclear, fun _ hmem ↦ absurd hmem List.not_mem_nil, fun x _ ↦ ?_,
        fun x _ ↦ ⟨x, fun _ _ ↦ rfl, fun _ hmem ↦ absurd hmem List.not_mem_nil⟩⟩
      refine (List.toFinset_card_le _).trans ?_
      rw [← hd.gateIDs]
      exact List.length_filter_le _ _
    · rw [if_pos (by omega), heq]
      exact addCardinalityCNF_meets hd hpos hids hle hc hclear
  unfold setupInitialStates
  refine hcard.bind fun s' hs' ↦ ?_
  obtain ⟨ic3, c, cubes, rfl, hc', hloaded, hselects⟩ := hs'
  have hadds : Meets _ fail (addBlockingClauses { s with ic3 := ic3, cardinalityConstraint := c }) :=
    addBlockingClauses_meets hd hids.1 hblocks hmem hloaded.session
  refine hadds.imp fun s'' hs'' ↦ ?_
  obtain ⟨ic3', rfl, hloaded'⟩ := hs''
  have hrestricts := (restricts_of_latches E ic3' hd (hblocks.latches hd)).1
  refine ⟨ic3', c, _, rfl, hc', hloaded.trans hloaded', List.subset_append_right _ _, ?_⟩
  have hblocked : (circuit E hd).Selects (max s.ic3.vars.nextID ic3.vars.nextID) _ _ :=
    hrestricts.selects fun x ↦ hblocks.sat_iff hd
  refine hselects.append hblocked (le_max_left _ _) (fun c hc lit hl ↦ ?_) ?_
  · exact ((hloaded.lits c hc lit hl).lt hloaded.session).trans_le (le_max_right _ _)
  · intro x x' hsame hopen
    rw [selected_congr hd fun v hv ↦ hsame v (by omega)]
    exact hopen

/-- The state of a debugger in which solutions may have `limit` gates and those of `blocked` are
blocked. -/
structure Rep (E : Engines) (hd : Debugs tr n d) (limit : ℕ) (blocked : List (Finset ℕ)) (s : IC3Debugger) :
    Prop where
  tr_eq : s.tr = d
  latches : s.debugLatches = idSet d.debugLatchIDs
  counting : Counting d s.cardinalityConstraint
  limited : Limited tr s.cardinality limit
  blocks : Blocking tr d blocked s.blockingClauses
  armed : ∃ base restr, Armed E hd (Allowed limit blocked) s base restr

/-- When there are more initial states, the restrictions that wait are those that count. -/
theorem reload_expanded {cubes : List Cube} {hi : ℕ} (hd : Debugs tr n d)
    (h : Session (circuit E hd) base restr s.ic3) (hwaiting : s.ic3.initConstraints = cubes)
    (hblocks : cubesOf s.blockingClauses ⊆ cubes) (hhi : n + 4 * tr.gateIDs.length ≤ hi)
    (hlits : ∀ c ∈ cubes, ∀ lit ∈ c, (circuit E hd).Lit s.ic3 lit)
    (hselects : (circuit E hd).Selects hi (fun x ↦ ok (d.selected x).toFinset) cubes) :
    Meets (fun s' ↦ ∃ ic3, s' = { s with ic3 := ic3 } ∧ Armed E hd ok s' cubes cubes) fail (s.reload true) := by
  have hmin := hd.minId_le
  rw [minId_eq] at hmin
  have hadmits := ((circuit E hd).admits_nil (n + 4 * tr.gateIDs.length)).append hselects hhi
    (fun v hv ↦ hd.signals_lt hv) (by rw [idFalse]; omega) (fun _ hc ↦ absurd hc List.not_mem_nil)
    fun x x' hsame hx ↦ (selected_congr hd hsame).symm ▸ hx
  unfold reload
  rw [if_pos rfl]
  refine (session_expanded h).bind fun ic3 hic3 ↦ ⟨ic3, rfl, ?_⟩
  obtain ⟨hsession, hkeeps, -⟩ := hic3
  rw [hwaiting] at hsession
  refine ⟨hsession, List.Subset.refl _, ?_, hblocks, fun c hc lit hl ↦ hkeeps.lits lit (hlits c hc lit hl),
    hadmits.congr fun _ ↦ iff_of_eq (true_and _)⟩
  rw [hkeeps.waiting, hwaiting]
  exact List.Subset.refl _

/-- When there are fewer initial states, the restrictions that wait are new ones. -/
theorem reload_restricted {s₀ : IC3Debugger} {cubes : List Cube} {ok' : Finset ℕ → Prop} (hd : Debugs tr n d)
    (h : Armed E hd ok s₀ base restr) (hbclauses : s.blockingClauses = s₀.blockingClauses)
    (hloaded : (circuit E hd).Loaded base restr s₀.ic3.clearRestrictions s.ic3 cubes)
    (hselects : (circuit E hd).Selects s₀.ic3.vars.nextID (fun x ↦ ok' (d.selected x).toFinset) cubes)
    (hok : ∀ D, ok' D → ok D) :
    Meets (fun s' ↦ ∃ ic3, s' = { s with ic3 := ic3 } ∧ Armed E hd ok' s' (base ++ cubes) (restr ++ cubes)) fail
      (s.reload false) := by
  have hmin := hd.minId_le
  rw [minId_eq] at hmin
  have hadmits := h.admits.append hselects h.session.between.rep.cons.first_le
    (fun v hv ↦ hd.signals_lt hv) (by rw [idFalse]; omega) (fun c hc lit hl ↦ (h.lits c hc lit hl).lt h.session)
    fun x x' hsame hx ↦ (selected_congr hd hsame).symm ▸ hx
  have hwaiting : s.ic3.initConstraints = cubes := hloaded.waiting
  unfold reload
  rw [if_neg Bool.false_ne_true]
  refine (session_restricted hloaded.session).bind fun ic3 hic3 ↦ ⟨ic3, rfl, ?_⟩
  obtain ⟨hsession, hkeeps, -⟩ := hic3
  rw [hwaiting] at hsession
  refine ⟨hsession, ?_, ?_, ?_, ?_, hadmits.congr fun x ↦ and_iff_right_of_imp (hok _)⟩
  · exact List.append_subset.mpr ⟨List.subset_append_of_subset_left _ h.subset, List.subset_append_right _ _⟩
  · rw [hkeeps.waiting, hwaiting]
    exact List.subset_append_right _ _
  · dsimp only
    rw [hbclauses]
    exact List.subset_append_of_subset_left _ h.blocks
  · refine List.forall_mem_append.mpr ⟨fun c hc lit hl ↦ ?_, fun c hc lit hl ↦ ?_⟩
    · exact hkeeps.lits lit (hloaded.grown lit (h.lits c hc lit hl))
    · exact hkeeps.lits lit (hloaded.lits c hc lit hl)

theorem restrictTo_meets (hd : Debugs tr n d) (hids : fail .idsExhausted) (h : Armed E hd ok s base restr)
    {clauses : ClauseVec} {Q : Finset ℕ → Prop}
    (hlatches : ∀ cls ∈ clauses, cls ≠ [] ∧ ∀ lit ∈ cls, ∃ g ∈ tr.gateIDs, strip lit = d.debugLatchForGate g)
    (hiff : ∀ x, satClauses x clauses ↔ Q (d.selected x).toFinset) :
    Meets (fun ic3 ↦ ∃ base' restr', cubesOf clauses ⊆ restr' ∧
      Armed E hd (fun D ↦ ok D ∧ Q D) { s with ic3 := ic3 } base' restr') fail (restrictTo s.ic3 clauses) := by
  have hmin := hd.minId_le
  rw [minId_eq] at hmin
  obtain ⟨hrestricts, hfrozen⟩ := restricts_of_latches E s.ic3 hd hlatches
  have hselects : (circuit E hd).Selects s.ic3.vars.nextID _ _ := hrestricts.selects hiff
  have hadmits := h.admits.append hselects h.session.between.rep.cons.first_le (fun v hv ↦ hd.signals_lt hv) (by rw [idFalse]; omega)
    (fun c hc lit hl ↦ (h.lits c hc lit hl).lt h.session)
    fun x x' hsame hx ↦ (selected_congr hd hsame).symm ▸ hx
  unfold restrictTo IC3Solver.restrictInitialStatesAll
  refine (session_restrictsAll h.session hrestricts).bind fun ic3₁ h₁ ↦ ?_
  obtain ⟨hsession₁, rfl⟩ := h₁
  generalize hw : s.ic3.initConstraints ++ cubesOf clauses = waiting at hsession₁
  have hpledge : Session (circuit E hd) base (restr ++ waiting)
      { s.ic3 with initConstraints := waiting } := .pledge hsession₁
  have hnew : cubesOf clauses ⊆ restr ++ waiting := fun c hc ↦
    List.mem_append_right _ (hw ▸ List.mem_append_right _ hc)
  refine (session_addClauses hpledge hnew hfrozen hids).bind fun ic3₂ h₂ ↦ ?_
  obtain ⟨hsession₂, hkeeps₂⟩ := h₂
  have hwait₂ : ic3₂.initConstraints = waiting := hkeeps₂.waiting
  refine (session_restricted hsession₂).imp fun ic3₃ h₃ ↦ ?_
  obtain ⟨hsession₃, hkeeps₃, -⟩ := h₃
  rw [hwait₂] at hsession₃
  have hmem : ∀ c, c ∈ restr ++ waiting ++ waiting ↔ c ∈ restr ++ cubesOf clauses := by
    intro c
    rw [← hw]
    simp only [List.mem_append]
    constructor
    · rintro ((hc | hc | hc) | hc | hc)
      exacts [.inl hc, .inl (h.waiting hc), .inr hc, .inl (h.waiting hc), .inr hc]
    · exact fun hc ↦ hc.elim (fun hc ↦ .inl (.inl hc)) fun hc ↦ .inl (.inr (.inr hc))
  have hold : restr ⊆ restr ++ waiting ++ waiting :=
    List.subset_append_of_subset_left _ (List.subset_append_left _ _)
  refine ⟨_, _, fun c hc ↦ (hmem c).mpr (List.mem_append_right _ hc), hsession₃, ?_, ?_, List.Subset.trans h.blocks hold,
    fun c hc lit hl ↦ ?_, hadmits.of_mem hmem⟩
  · exact List.append_subset.mpr ⟨List.append_subset.mpr ⟨List.subset_append_of_subset_left _ h.subset,
      List.subset_append_right _ _⟩, List.subset_append_right _ _⟩
  · dsimp only
    rw [hkeeps₃.waiting, hwait₂]
    exact List.subset_append_right _ _
  · refine hkeeps₃.lits lit (hkeeps₂.lits lit ?_)
    cases List.mem_append.mp ((hmem c).mp hc) with
    | inl hc => exact h.lits c hc lit hl
    | inr hc => exact hrestricts.lits c hc lit hl

theorem restrictInitialStates_vars (st : IC3Solver) (cls : Clause) :
    Meets (fun st' ↦ st'.vars = st.vars) (fun _ ↦ True) (st.restrictInitialStates cls) :=
  (meets_any _).bind fun _ _ ↦ rfl

theorem restrict_vars (st : IC3Solver) (clauses : ClauseVec) :
    Meets (fun st' ↦ st'.vars = st.vars) (fun _ ↦ True) (clauses.foldlM IC3Solver.restrictInitialStates st) :=
  foldlM_meets (fun _ (st' : IC3Solver) ↦ st'.vars = st.vars) st rfl fun _ cls _ st' _ hst' ↦
    (restrictInitialStates_vars st' cls).imp fun _ hst'' ↦ hst''.trans hst'

theorem initialize_vars (st : IC3Solver) :
    Meets (fun st' ↦ st'.vars = st.vars) (fun _ ↦ True) st.initializeSolver := by
  unfold IC3Solver.initializeSolver
  exact (meets_any _).bind fun _ _ ↦ (meets_any _).bind fun _ _ ↦ rfl

theorem addClausalLemmas_le (st : IC3Solver) (clauses : ClauseVec) (level : Level) :
    Meets (fun st' ↦ st.vars.nextID ≤ st'.vars.nextID) (fun _ ↦ True) (st.addClausalLemmas clauses level) := by
  refine foldlM_meets (fun _ (st' : IC3Solver) ↦ st.vars.nextID ≤ st'.vars.nextID) st le_rfl
    fun done cls rest st' _ hst' ↦ ?_
  have hadd : Meets (fun r ↦ st'.vars.nextID ≤ r.2.vars.nextID) (fun _ ↦ True)
      (IC3Solver.addClausalLemma cls level st').2 :=
    meets_of_ok (fun _ ↦ trivial) fun r hr ↦ (proceeds_of_ok (proceeds_addLemma _ _) hr).vars
  exact hadd.bind fun r hr ↦ hst'.trans hr

theorem addBlockingClauses_le (s : IC3Debugger) :
    Meets (fun s' ↦ s.ic3.vars.nextID ≤ s'.ic3.vars.nextID) (fun _ ↦ True) s.addBlockingClauses := by
  have hfold : Meets (fun st' ↦ s.ic3.vars.nextID ≤ st'.vars.nextID) (fun _ ↦ True)
      (s.blockingClauses.foldlM addBlockingClause s.ic3) := by
    refine foldlM_meets (fun _ (st' : IC3Solver) ↦ s.ic3.vars.nextID ≤ st'.vars.nextID) s.ic3 le_rfl
      fun done cls rest st hl hst ↦ ?_
    unfold addBlockingClause
    refine (restrictInitialStates_vars st cls).bind fun st₁ h₁ ↦ ?_
    exact (addClausalLemmas_le st₁ [cls] .inf).imp fun st₂ h₂ ↦ hst.trans (h₁ ▸ h₂)
  exact hfold.bind fun st' hst' ↦ hst'

theorem addCardinalityCNF_le (hd : Debugs tr n d) (hpos : tr.gateIDs ≠ []) (hc : Counting d s.cardinalityConstraint)
    (hvars : s.ic3.vars.Inv) (hfirst : n + 4 * tr.gateIDs.length ≤ s.ic3.vars.nextID) (m : ℕ) :
    Meets (fun s' ↦ s.ic3.vars.nextID ≤ s'.ic3.vars.nextID) (fun _ ↦ True) (s.addCardinalityCNF m) := by
  unfold addCardinalityCNF
  refine (CNFize_counts hd hpos trivial m hc hvars hfirst).bind fun r hr ↦ ?_
  obtain ⟨-, hnext, -⟩ := hr
  refine (restrict_vars _ _).bind fun st hst ↦ (meets_any _).bind fun cube _ ↦ ?_
  refine (restrict_vars st _).bind fun st' hst' ↦ ?_
  rw [meets_pure, hst', hst]
  exact hnext

theorem setupInitialStates_le (hd : Debugs tr n d) (hpos : tr.gateIDs ≠ []) (hc : Counting d s.cardinalityConstraint)
    (hvars : s.ic3.vars.Inv) (hfirst : n + 4 * tr.gateIDs.length ≤ s.ic3.vars.nextID) :
    Meets (fun s' ↦ s.ic3.vars.nextID ≤ s'.ic3.vars.nextID) (fun _ ↦ True) s.setupInitialStates := by
  have hcard : Meets (fun s' ↦ s.ic3.vars.nextID ≤ s'.ic3.vars.nextID) (fun _ ↦ True)
      (if s.cardinality < cardinalityInf then
        addCardinalityCNF { s with ic3 := s.ic3.clearRestrictions } s.cardinality
      else pure { s with ic3 := s.ic3.clearRestrictions }) := by
    split
    · exact addCardinalityCNF_le (s := { s with ic3 := s.ic3.clearRestrictions }) hd hpos hc hvars hfirst _
    · exact le_rfl
  exact hcard.bind fun s' hs' ↦ s'.addBlockingClauses_le.imp fun s'' hs'' ↦ hs'.trans hs''

theorem reload_le (b : Bool) (s : IC3Debugger) :
    Meets (fun s' ↦ s'.ic3.vars = s.ic3.vars) (fun _ ↦ True) (s.reload b) := by
  have hload : Meets (fun st ↦ st.vars = s.ic3.vars) (fun _ ↦ True)
      (if b then s.ic3.initialStatesExpanded else s.ic3.initialStatesRestricted) := by
    split
    · exact initialize_vars { s.ic3 with trace := s.ic3.trace.clear }
    · exact initialize_vars s.ic3
  exact hload.bind fun st hst ↦ hst

theorem restrictTo_le (st : IC3Solver) (clauses : ClauseVec) :
    Meets (fun st' ↦ st.vars.nextID ≤ st'.vars.nextID) (fun _ ↦ True) (restrictTo st clauses) := by
  unfold restrictTo
  refine (restrict_vars st clauses).bind fun st₁ h₁ ↦ (addClausalLemmas_le st₁ clauses .inf).bind fun st₂ h₂ ↦ ?_
  refine (initialize_vars st₂).imp fun st₃ h₃ ↦ ?_
  rw [h₃, ← h₁]
  exact h₂

section NoVariables

def Sated (e : Failure) : Prop := e ≠ .idsExhausted

theorem ensure_sated (b : Bool) : Meets (fun _ ↦ True) Sated (ensure b) := by
  cases b with
  | false => exact nofun
  | true => trivial

theorem getLemma_sated (t : InductiveTrace) (id : LemmaID) : Meets (fun _ ↦ True) Sated (t.getLemma id) := by
  unfold InductiveTrace.getLemma
  split
  · trivial
  · exact nofun

theorem idOf_sated (t : InductiveTrace) (c : Cube) : Meets (fun _ ↦ True) Sated (t.idOf c) := by
  unfold InductiveTrace.idOf
  split
  · trivial
  · exact nofun

theorem trace_addLemma_sated (t : InductiveTrace) (c : Cube) (level : Level) :
    Meets (fun _ ↦ True) Sated (t.addLemma c level) := by
  unfold InductiveTrace.addLemma
  dsimp only
  split
  · refine (idOf_sated t _).bind fun id _ ↦ (getLemma_sated t id).bind fun data _ ↦ ?_
    have hframes : Meets (fun _ ↦ True) Sated (if data.deleted then pure t.frames else do
        ensure (decide (data.level ≤ level))
        t.frames.removeLemmaFromFrame data.id data.level : Result Frames) := by
      split
      · trivial
      · exact (ensure_sated _).bind fun _ _ ↦ (ensure_sated _).bind fun _ _ ↦ trivial
    exact hframes.bind fun _ _ ↦ trivial
  · trivial

theorem addInitial_sated (t : InductiveTrace) (c : Cube) : Meets (fun _ ↦ True) Sated (IC3Solver.addInitial t c) := by
  have hactive : Meets (fun _ ↦ True) Sated (t.lemmaIsActive c) := by
    unfold InductiveTrace.lemmaIsActive
    split
    · exact ((idOf_sated t c).bind fun id _ ↦ getLemma_sated t id).bind fun _ _ ↦ trivial
    · trivial
  unfold IC3Solver.addInitial
  refine hactive.bind fun b _ ↦ ?_
  split
  · trivial
  · exact (trace_addLemma_sated t c _).bind fun _ _ ↦ trivial

theorem initialize_sated (st : IC3Solver) :
    Meets (fun st' ↦ st'.vars = st.vars) Sated st.initializeSolver := by
  have hfold : ∀ (cubes : List Cube) t, Meets (fun _ ↦ True) Sated (cubes.foldlM IC3Solver.addInitial t) := fun cubes t ↦
    foldlM_meets (fun _ _ ↦ True) t trivial fun _ c _ t' _ _ ↦ addInitial_sated t' c
  unfold IC3Solver.initializeSolver
  exact (hfold _ _).bind fun t _ ↦ (hfold _ t).bind fun _ _ ↦ rfl

theorem restrict_sated (st : IC3Solver) (clauses : ClauseVec) :
    Meets (fun st' ↦ st'.vars = st.vars ∧ st'.trace = st.trace) Sated (st.restrictInitialStatesAll clauses) := by
  refine foldlM_meets (fun _ (st' : IC3Solver) ↦ st'.vars = st.vars ∧ st'.trace = st.trace) st ⟨rfl, rfl⟩
    fun _ cls _ st' _ hst' ↦ ?_
  exact (ensure_sated _).bind fun _ _ ↦ hst'

theorem addLemma_inf_sated {st : IC3Solver} (h : st.trace.Inv) (c : Cube) :
    Meets (fun r ↦ r.2.vars = st.vars ∧ r.2.trace.Inv) Sated (IC3Solver.addLemma c .inf st).2 := by
  have hmoved : Meets _ Sated (st.trace.addLemma c .inf) :=
    InductiveTrace.addLemma_meets h fun _ _ _ hno ↦ absurd Level.le_inf hno
  have hclause : ∀ (ad : SATAdaptor) cls, Meets (fun _ ↦ True) Sated (ad.addClause cls) := fun ad cls ↦
    (ensure_sated _).bind fun _ _ ↦ trivial
  have hsend : ∀ r : LemmaID × InductiveTrace, InductiveTrace.Moved st.trace (sortCube c) .inf r.1 r.2 →
      Meets (fun r' ↦ r'.1 = st.vars) Sated (st.cons.addLemma st.vars r.2 r.1) := by
    intro r hr
    unfold FrameSolver.addLemma
    split
    · unfold FrameSolver.sendLemma
      rw [hr.inv.getLemma_eq hr.entry_self, ok_bind]
      exact (hclause _ _).bind fun _ _ ↦ rfl
    · rfl
  have hgoes : Journal.Goes (fun _ ↦ True) (fun _ ↦ True) (fun _ st' ↦ st'.vars = st.vars ∧ st'.trace.Inv) Sated
      (IC3Solver.addLemma c .inf) st := by
    unfold IC3Solver.addLemma
    refine Journal.goes_get_bind (Journal.goes_lift_bind _ hmoved fun r hr ↦ ?_)
    refine Journal.goes_lift_bind _ (hsend r hr) fun r' hr' ↦ ?_
    exact Journal.goes_set_bind (Journal.goes_pure ⟨hr', hr.inv⟩)
  exact (hgoes fun _ _ ↦ trivial).2

theorem restrictTo_sated {st : IC3Solver} (h : st.trace.Inv) (clauses : ClauseVec) :
    Meets (fun st' ↦ st'.vars = st.vars) Sated (restrictTo st clauses) := by
  have hadd : ∀ st' : IC3Solver, st'.vars = st.vars ∧ st'.trace.Inv →
      Meets (fun st'' ↦ st''.vars = st.vars ∧ st''.trace.Inv) Sated (st'.addClausalLemmas clauses .inf) := by
    intro st' hst'
    refine foldlM_meets (fun _ (st'' : IC3Solver) ↦ st''.vars = st.vars ∧ st''.trace.Inv) st' hst'
      fun _ cls _ st'' _ hst'' ↦ ?_
    exact (addLemma_inf_sated hst''.2 (negateVec cls)).bind fun r hr ↦ ⟨hr.1.trans hst''.1, hr.2⟩
  unfold restrictTo
  refine (restrict_sated st clauses).bind fun st₁ h₁ ↦ ?_
  refine (hadd st₁ ⟨h₁.1, h₁.2 ▸ h⟩).bind fun st₂ h₂ ↦ ?_
  exact (initialize_sated st₂).imp fun st₃ h₃ ↦ h₃.trans h₂.1

end NoVariables

theorem prove_le (E : Engines) (fuel : IC3Solver → ℕ) (s : IC3Debugger) :
    Meets (fun r ↦ s.ic3.vars.nextID ≤ r.2.ic3.vars.nextID) (fun _ ↦ True) (s.prove E fuel) := by
  have hprove : Meets (fun r ↦ s.ic3.vars.nextID ≤ r.2.vars.nextID) (fun _ ↦ True)
      (IC3Solver.prove E (fuel s.ic3) s.ic3).2 :=
    meets_of_ok (fun _ ↦ trivial) fun r hr ↦ (proceeds_of_ok (proceeds_prove _) hr).vars
  exact hprove.bind fun r hr ↦ (meets_any _).bind fun _ _ ↦ hr

theorem Rep.advance {hd : Debugs tr n d} (h : Rep E hd limit blocked s) {vars : VariableManager}
    (hvars : vars.Inv) (hle : s.ic3.vars.nextID ≤ vars.nextID) :
    Rep E hd limit blocked { s with ic3 := { s.ic3 with vars := vars } } := by
  obtain ⟨base, restr, harmed⟩ := h.armed
  refine ⟨h.tr_eq, h.latches, h.counting, h.limited, h.blocks, base, restr, .made harmed.session hvars hle,
    harmed.subset, harmed.waiting, harmed.blocks, fun c hc lit hl ↦ ?_, harmed.admits⟩
  have hlit := harmed.lits c hc lit hl
  refine ⟨hlit.1.imp_right fun hknown l hmem ↦ ?_, hlit.2⟩
  exact ⟨(hknown l hmem).1.trans_le hle, (hknown l hmem).2⟩

theorem card_selected_le (hd : Debugs tr n d) (x : Assignment) :
    (d.selected x).toFinset.card ≤ tr.gateIDs.length := by
  refine (List.toFinset_card_le _).trans ?_
  rw [← hd.gateIDs]
  exact List.length_filter_le _ _

theorem new_meets (hd : Debugs tr n d) {vars : VariableManager} (hvars : vars.Inv)
    (hfirst : n + 4 * tr.gateIDs.length ≤ vars.nextID) :
    Meets (Rep E hd tr.gateIDs.length []) fail (new vars d) := by
  have hnew : Meets _ fail (IC3Solver.new vars d.toTransitionRelation) :=
    session_new (C := circuit E hd) hvars hfirst
  unfold IC3Debugger.new
  refine hnew.bind fun ic3 hic3 ↦ ?_
  obtain ⟨hsession, -, -⟩ := hic3
  have hclear : clearCardinality ⟨d, ic3, cardinalityInf, .sortingLEqConstraint, [], []⟩ =
      .ok ⟨d, ic3.clearRestrictions, cardinalityInf, .sortingLEqConstraint, [], []⟩ := rfl
  rw [hclear]
  refine ⟨rfl, rfl, ?_, .inl ⟨le_rfl, rfl⟩, ⟨[], rfl, rfl, fun _ hno ↦ absurd hno List.not_mem_nil⟩, [], [],
    .clear hsession, List.Subset.refl _, List.Subset.refl _, List.Subset.refl _,
    fun _ hno ↦ absurd hno List.not_mem_nil, ?_⟩
  · simp [Counting, BMCDebugger.addInput_foldl, SortingConstraint.addInputs, SortingConstraint.sortingLEqConstraint]
  · refine ((circuit E hd).admits_nil _).congr fun x ↦ iff_of_true trivial ⟨card_selected_le hd x, ?_⟩
    exact fun _ hno ↦ absurd hno List.not_mem_nil

theorem Rep.setCardinality {hd : Debugs tr n d} (h : Rep E hd limit blocked s) (hpos : tr.gateIDs ≠ [])
    (hmany : tr.gateIDs.length < cardinalityInf) (hids : fail .idsExhausted ∧ fail .narrowed) {m limit' : ℕ}
    (hm : Limited tr m limit') : Meets (Rep E hd limit' blocked) fail (s.setCardinality m) := by
  obtain ⟨base, restr, harmed⟩ := h.armed
  have hfirst : n + 4 * tr.gateIDs.length ≤ s.ic3.vars.nextID := harmed.session.between.rep.cons.first_le
  have hlimited := h.limited
  unfold Limited at hm hlimited
  unfold IC3Debugger.setCardinality
  split
  · next heq =>
    obtain rfl : limit = limit' := by omega
    exact h
  · next hne =>
    have hsetup : Meets _ fail (setupInitialStates { s with cardinality := m }) :=
      setupInitialStates_meets hd hpos hmany hids h.counting hm h.blocks harmed.blocks harmed.session
    refine hsetup.bind fun s' hs' ↦ ?_
    obtain ⟨ic3, c, cubes, rfl, hc, hloaded, hblocks, hselects⟩ := hs'
    by_cases hlt : s.cardinality < m
    · rw [decide_eq_true hlt]
      have hload : Meets _ fail (IC3Debugger.reload true ⟨s.tr, ic3, m, c, s.debugLatches, s.blockingClauses⟩) :=
        reload_expanded hd hloaded.session hloaded.waiting hblocks hfirst hloaded.lits hselects
      refine hload.imp fun s₂ hs₂ ↦ ?_
      obtain ⟨ic3₂, rfl, harmed₂⟩ := hs₂
      exact ⟨h.tr_eq, h.latches, hc, hm, h.blocks, _, _, harmed₂⟩
    · rw [decide_eq_false hlt]
      have hle : limit' ≤ limit := by omega
      have hload : Meets _ fail (IC3Debugger.reload false ⟨s.tr, ic3, m, c, s.debugLatches, s.blockingClauses⟩) :=
        reload_restricted hd harmed rfl hloaded hselects fun D hD ↦ ⟨hD.1.trans hle, hD.2⟩
      refine hload.imp fun s₂ hs₂ ↦ ?_
      obtain ⟨ic3₂, rfl, harmed₂⟩ := hs₂
      exact ⟨h.tr_eq, h.latches, hc, hm, h.blocks, _, _, harmed₂⟩

theorem addCardinalityCNF_beyond (hd : Debugs tr n d) (hpos : tr.gateIDs ≠ []) {m : ℕ}
    (hm : tr.gateIDs.length < m) (hc : Counting d s.cardinalityConstraint) (hvars : s.ic3.vars.Inv)
    (hfirst : n + 4 * tr.gateIDs.length ≤ s.ic3.vars.nextID) :
    Meets (fun _ ↦ False) (fun _ ↦ True) (s.addCardinalityCNF m) := by
  unfold addCardinalityCNF
  refine (CNFize_counts hd hpos trivial m hc hvars hfirst).bind fun r hr ↦ ?_
  obtain ⟨vars, c, cnf⟩ := r
  obtain ⟨-, -, ⟨hcounting, -, -⟩, -⟩ := hr
  have hinputs : c.inputs.length = tr.gateIDs.length := by
    rw [hcounting.1, hd.length_latches]
  have hthrow : c.assumeLEq m = .error .exception := by
    unfold SortingConstraint.assumeLEq
    rw [hcounting.2.1, if_neg (by decide), if_neg (by omega), if_pos]
    · rfl
    · exact (min_le_right _ _).trans (hinputs.le.trans hm.le)
  exact (meets_any _).bind fun ic3 _ ↦ hthrow ▸ trivial

theorem Rep.setCardinality_any {hd : Debugs tr n d} (h : Rep E hd limit blocked s) (hpos : tr.gateIDs ≠ [])
    (hmany : tr.gateIDs.length < cardinalityInf) (m : ℕ) :
    Meets (fun s' ↦ ∃ limit', Rep E hd limit' blocked s') (fun _ ↦ True) (s.setCardinality m) := by
  have hlimited : ∀ limit', Limited tr m limit' →
      Meets (fun s' ↦ ∃ limit', Rep E hd limit' blocked s') (fun _ ↦ True) (s.setCardinality m) :=
    fun limit' hm ↦ (h.setCardinality hpos hmany ⟨trivial, trivial⟩ hm).imp fun _ hs' ↦ ⟨limit', hs'⟩
  by_cases hle : m ≤ tr.gateIDs.length
  · exact hlimited m (.inr ⟨rfl, hle⟩)
  by_cases hinf : cardinalityInf ≤ m
  · exact hlimited _ (.inl ⟨hinf, rfl⟩)
  obtain ⟨base, restr, harmed⟩ := h.armed
  unfold IC3Debugger.setCardinality
  split
  · exact ⟨limit, h⟩
  · have hno : Meets (fun _ ↦ False) (fun _ ↦ True) (setupInitialStates { s with cardinality := m }) := by
      unfold setupInitialStates
      dsimp only
      rw [if_pos (Nat.not_le.mp hinf)]
      exact (addCardinalityCNF_beyond (s := { s with cardinality := m, ic3 := s.ic3.clearRestrictions }) hd
        hpos (Nat.not_le.mp hle) h.counting harmed.session.between.rep.cons.vars
        harmed.session.between.rep.cons.first_le).bind fun _ hno ↦ hno.elim
    exact hno.bind fun _ hno ↦ hno.elim

theorem Rep.clearCardinality {hd : Debugs tr n d} (h : Rep E hd limit blocked s)
    (hmany : tr.gateIDs.length < cardinalityInf) (hids : fail .idsExhausted) :
    Meets (Rep E hd tr.gateIDs.length blocked) fail s.clearCardinality := by
  obtain ⟨base, restr, harmed⟩ := h.armed
  have hclear : Session (circuit E hd) base restr s.ic3.clearRestrictions := .clear harmed.session
  unfold IC3Debugger.clearCardinality
  have hadds : Meets _ fail (addBlockingClauses { s with ic3 := s.ic3.clearRestrictions }) :=
    addBlockingClauses_meets hd hids h.blocks harmed.blocks hclear
  refine hadds.bind fun s₁ hs₁ ↦ ?_
  obtain ⟨ic3, rfl, hloaded⟩ := hs₁
  rcases h.limited with ⟨hinf, rfl⟩ | ⟨hcard, hle⟩
  · rw [if_neg (by dsimp only; omega)]
    refine ⟨h.tr_eq, h.latches, h.counting, .inl ⟨le_rfl, rfl⟩, h.blocks, base, restr, hloaded.session, harmed.subset,
      ?_, harmed.blocks, fun c hc lit hl ↦ hloaded.grown lit (harmed.lits c hc lit hl), harmed.admits⟩
    dsimp only
    rw [hloaded.waiting]
    exact harmed.blocks
  · rw [if_pos (by dsimp only; omega)]
    have hrestricts := (restricts_of_latches E ic3 hd (h.blocks.latches hd)).1
    have hselects : (circuit E hd).Selects (n + 4 * tr.gateIDs.length)
        (fun x ↦ Allowed tr.gateIDs.length blocked (d.selected x).toFinset) (cubesOf s.blockingClauses) :=
      hrestricts.selects fun x ↦ (h.blocks.sat_iff hd).trans (and_iff_right (card_selected_le hd x)).symm
    have hload : Meets _ fail (IC3Debugger.reload true { s with ic3 := ic3 }) :=
      reload_expanded hd hloaded.session hloaded.waiting (List.Subset.refl _) le_rfl hloaded.lits hselects
    refine hload.bind fun s₂ hs₂ ↦ ?_
    obtain ⟨ic3₂, rfl, harmed₂⟩ := hs₂
    exact ⟨h.tr_eq, h.latches, h.counting, .inl ⟨le_rfl, rfl⟩, h.blocks, _, _, harmed₂.session, harmed₂.subset,
      harmed₂.waiting, harmed₂.blocks, harmed₂.lits, harmed₂.admits⟩

theorem Rep.blockSolution {hd : Debugs tr n d} (h : Rep E hd limit blocked s) (hids : fail .idsExhausted)
    (hne : soln ≠ []) (hsub : soln ⊆ tr.gateIDs) :
    Meets (Rep E hd limit (blocked ++ [soln.toFinset])) fail (s.blockSolution soln) := by
  obtain ⟨base, restr, harmed⟩ := h.armed
  obtain ⟨solns, hblocking, hblocked, hsolns⟩ := h.blocks
  have hcne : BMCDebugger.blockingClause d soln ≠ [] := by
    rw [BMCDebugger.blockingClause, Ne, List.map_eq_nil_iff]
    exact hne
  have hiff : ∀ x, satClauses x [BMCDebugger.blockingClause d soln] ↔ ¬ soln.toFinset ⊆ (d.selected x).toFinset := by
    intro x
    rw [satClauses_cons, and_iff_left satClauses_nil, BMCDebugger.satClause_blockingClause hd hsub]
  have hrestrict : Meets _ fail (restrictTo s.ic3 [BMCDebugger.blockingClause d soln]) :=
    restrictTo_meets (Q := fun D ↦ ¬ soln.toFinset ⊆ D) hd hids harmed (fun cls hcls ↦
      List.mem_singleton.mp hcls ▸ ⟨hcne, strip_of_mem_block hd hsub⟩) hiff
  unfold IC3Debugger.blockSolution
  rw [h.tr_eq]
  refine hrestrict.bind fun ic3 hic3 ↦ ?_
  obtain ⟨base', restr', hnew, harmed'⟩ := hic3
  refine ⟨rfl, h.latches, h.counting, h.limited, ⟨solns ++ [soln], ?_, ?_, ?_⟩, base', restr',
    harmed'.session, harmed'.subset, harmed'.waiting, ?_, harmed'.lits, harmed'.admits.congr fun x ↦ ?_⟩
  · dsimp only
    rw [hblocking, List.map_append, List.map_singleton]
  · rw [← hblocked, List.map_append, List.map_singleton]
  · exact List.forall_mem_append.mpr ⟨hsolns, List.forall_mem_singleton.mpr ⟨hne, hsub⟩⟩
  · dsimp only
    rw [cubesOf, List.map_append]
    exact List.append_subset.mpr ⟨harmed'.blocks, hnew⟩
  · unfold Allowed Unblocked
    rw [and_assoc, List.forall_mem_append, List.forall_mem_singleton]

theorem Rep.blockSolution_vars {hd : Debugs tr n d} (h : Rep E hd limit blocked s) (hne : soln ≠ [])
    (hsub : soln ⊆ tr.gateIDs) :
    Meets (fun s' ↦ Rep E hd limit (blocked ++ [soln.toFinset]) s' ∧ s'.ic3.vars = s.ic3.vars) fail
      (s.blockSolution soln) := by
  obtain ⟨base, restr, harmed⟩ := h.armed
  have hblock : Meets _ (· = .idsExhausted) (s.blockSolution soln) := h.blockSolution rfl hne hsub
  have hvars : Meets (fun s' ↦ s'.ic3.vars = s.ic3.vars) Sated (s.blockSolution soln) :=
    (restrictTo_sated harmed.session.between.rep.cons.inv [BMCDebugger.blockingClause s.tr soln]).bind
      fun _ hst ↦ hst
  exact (hblock.both hvars).weaken fun e he ↦ absurd he.1 he.2

theorem Found.answer {r : Option CorrectionSet}
    (h : Found tr (fun D ↦ Allowed limit blocked D ∧ D ⊆ gates.toFinset) r) (hsub : gates ⊆ tr.gateIDs) :
    DebugAnswer tr.FreedBad gates limit blocked r := by
  cases r with
  | some soln =>
    obtain ⟨-, ⟨hallowed, hin⟩, hfreed⟩ := h
    exact ⟨fun g hg ↦ List.mem_toFinset.mp (hin (List.mem_toFinset.mpr hg)), hallowed.1, hfreed, hallowed.2⟩
  | none =>
    intro D hD hcard hfreed hopen
    exact h D (hD.trans fun g hg ↦ List.mem_toFinset.mpr (hsub (List.mem_toFinset.mp hg)))
      ⟨⟨hcard, hopen⟩, hD⟩ hfreed

theorem Blocking.allowed_empty {clauses : ClauseVec} (h : Blocking tr d blocked clauses) : Allowed limit blocked ∅ := by
  obtain ⟨solns, -, rfl, hsolns⟩ := h
  refine ⟨Finset.card_empty.le.trans (Nat.zero_le _), List.forall_mem_map.mpr fun soln hmem hsub ↦ ?_⟩
  obtain ⟨g, hg⟩ := List.exists_mem_of_ne_nil _ (hsolns soln hmem).1
  exact absurd (hsub (List.mem_toFinset.mpr hg)) (Finset.notMem_empty g)

theorem Rep.debug {hd : Debugs tr n d} (h : Rep E hd limit blocked s) (hpos : tr.gateIDs ≠ [])
    (hids : fail .idsExhausted) {fuel : IC3Solver → ℕ} (hfuel : ∀ st, st.fuelBound ≤ fuel st) :
    Meets (fun r ↦ DebugAnswer tr.FreedBad tr.gateIDs limit blocked r.1 ∧ Rep E hd limit blocked r.2) fail
      (s.debug E fuel) := by
  obtain ⟨base, restr, harmed⟩ := h.armed
  refine (prove_meets hd hpos hfuel hids h.tr_eq h.latches harmed h.blocks.allowed_empty).imp fun r hr ↦ ?_
  obtain ⟨answer, s'⟩ := r
  obtain ⟨hfound, ic3, rfl, hsession, hkeeps⟩ := hr
  refine ⟨?_, h.tr_eq, h.latches, h.counting, h.limited, h.blocks, base, restr, hsession, harmed.subset,
    hkeeps.waiting ▸ harmed.waiting, harmed.blocks, fun c hc lit hl ↦ hkeeps.lits lit (harmed.lits c hc lit hl),
    harmed.admits⟩
  cases answer with
  | some soln => exact ⟨hfound.1, hfound.2.1.1, hfound.2.2, hfound.2.1.2⟩
  | none => exact fun D hD hcard hfreed hopen ↦ hfound D hD ⟨hcard, hopen⟩ hfreed

theorem onlyTheseGates_latches (hd : Debugs tr n d) (htr : s.tr = d)
    (hlatches : s.debugLatches = idSet d.debugLatchIDs) :
    ∀ cls ∈ s.onlyTheseGates gates, cls ≠ [] ∧
      ∀ lit ∈ cls, ∃ g ∈ tr.gateIDs, strip lit = d.debugLatchForGate g := by
  intro cls hcls
  obtain ⟨dl, hdl, rfl⟩ := List.mem_map.mp hcls
  rw [hlatches, htr, List.mem_filter, BMCDebugger.mem_debugLatches hd] at hdl
  obtain ⟨⟨g, hg, rfl⟩, -⟩ := hdl
  refine ⟨List.cons_ne_nil _ _, fun lit hl ↦ ⟨g, hg, ?_⟩⟩
  rw [List.mem_singleton.mp hl, strip_negate, strip_of_even (hd.latch_isVar hg).2.2]

theorem satClauses_onlyTheseGates (hd : Debugs tr n d) (htr : s.tr = d)
    (hlatches : s.debugLatches = idSet d.debugLatchIDs) (hsub : gates ⊆ tr.gateIDs) (x : Assignment) :
    satClauses x (s.onlyTheseGates gates) ↔ (d.selected x).toFinset ⊆ gates.toFinset := by
  have hleaves := BMCDebugger.leaves_onlyTheseGates (s := .new d) hd rfl rfl hsub
  have heq : s.onlyTheseGates gates = ((BMCDebugger.new d).onlyTheseGates gates).map fun id ↦ [id] := by
    unfold onlyTheseGates BMCDebugger.onlyTheseGates
    rw [htr, hlatches, List.map_map]
    rfl
  rw [heq, satClauses_units, hleaves.sat_iff]

theorem Rep.inv {hd : Debugs tr n d} (h : Rep E hd limit blocked s) : s.ic3.vars.Inv := by
  obtain ⟨base, restr, harmed⟩ := h.armed
  exact harmed.session.between.rep.cons.vars

theorem Rep.first_le {hd : Debugs tr n d} (h : Rep E hd limit blocked s) : n + 4 * tr.gateIDs.length ≤ s.ic3.vars.nextID := by
  obtain ⟨base, restr, harmed⟩ := h.armed
  exact harmed.session.between.rep.cons.first_le

theorem Rep.setCardinality_le {hd : Debugs tr n d} (h : Rep E hd limit blocked s) (hpos : tr.gateIDs ≠ []) (m : ℕ) :
    Meets (fun s' ↦ s.ic3.vars.nextID ≤ s'.ic3.vars.nextID) (fun _ ↦ True) (s.setCardinality m) := by
  unfold IC3Debugger.setCardinality
  split
  · exact le_rfl
  · have hsetup : Meets _ _ (IC3Debugger.setupInitialStates { s with cardinality := m }) :=
      setupInitialStates_le hd hpos h.counting h.inv h.first_le
    refine hsetup.bind fun s' hs' ↦ (s'.reload_le _).imp fun s'' hs'' ↦ ?_
    rw [hs'']
    exact hs'

theorem clearCardinality_le (s : IC3Debugger) :
    Meets (fun s' ↦ s.ic3.vars.nextID ≤ s'.ic3.vars.nextID) (fun _ ↦ True) s.clearCardinality := by
  have hclear : Meets _ _ (IC3Debugger.addBlockingClauses { s with ic3 := s.ic3.clearRestrictions }) :=
    addBlockingClauses_le _
  have hreload : ∀ s₁ : IC3Debugger, Meets (fun s' : IC3Debugger ↦ s'.ic3.vars = s₁.ic3.vars) (fun _ ↦ True)
      (if s₁.cardinality < cardinalityInf then s₁.reload true else pure s₁) := by
    intro s₁
    split
    · exact s₁.reload_le true
    · rfl
  refine hclear.bind fun s₁ h₁ ↦ (hreload s₁).bind fun s₂ h₂ ↦ ?_
  rw [meets_pure, h₂]
  exact h₁

theorem new_le (vars : VariableManager) (d : DebugTransitionRelation) :
    Meets (fun s ↦ vars.nextID ≤ s.ic3.vars.nextID) (fun _ ↦ True) (new vars d) := by
  have hsolver : Meets (fun st ↦ st.vars = vars) (fun _ ↦ True) (IC3Solver.new vars d.toTransitionRelation) :=
    initialize_vars _
  refine hsolver.bind fun st hst ↦ (clearCardinality_le _).bind fun s hs ↦ ?_
  rw [meets_pure, ← hst]
  exact hs

theorem new_vars (vars : VariableManager) (d : DebugTransitionRelation) :
    Meets (fun s ↦ s.ic3.vars = vars) (fun _ ↦ True) (new vars d) := by
  have hsolver : Meets (fun st ↦ st.vars = vars) (fun _ ↦ True) (IC3Solver.new vars d.toTransitionRelation) :=
    initialize_vars _
  exact hsolver.bind fun st hst ↦ hst

theorem blockSolution_le (s : IC3Debugger) (soln : CorrectionSet) :
    Meets (fun s' ↦ s.ic3.vars.nextID ≤ s'.ic3.vars.nextID) (fun _ ↦ True) (s.blockSolution soln) :=
  (restrictTo_le s.ic3 [BMCDebugger.blockingClause s.tr soln]).bind fun _ hst ↦ hst

theorem Rep.debugOverGates {hd : Debugs tr n d} (h : Rep E hd limit blocked s) (hpos : tr.gateIDs ≠ [])
    (hmany : tr.gateIDs.length < cardinalityInf) (hids : fail .idsExhausted ∧ fail .narrowed)
    {fuel : IC3Solver → ℕ} (hfuel : ∀ st, st.fuelBound ≤ fuel st) (hsub : gates ⊆ tr.gateIDs) :
    Meets (fun r ↦ (DebugAnswer tr.FreedBad gates limit blocked r.1 ∧ Rep E hd limit blocked r.2) ∧
      s.ic3.vars.nextID ≤ r.2.ic3.vars.nextID) fail (s.debugOverGates E fuel gates) := by
  obtain ⟨base, restr, harmed⟩ := h.armed
  have hrestrict : Meets _ fail (restrictTo s.ic3 (s.onlyTheseGates gates)) :=
    restrictTo_meets (Q := fun D ↦ D ⊆ gates.toFinset) hd hids.1 harmed
      (onlyTheseGates_latches hd h.tr_eq h.latches) (satClauses_onlyTheseGates hd h.tr_eq h.latches hsub)
  unfold IC3Debugger.debugOverGates
  refine (hrestrict.and (restrictTo_le _ _)).bind fun ic3 hic3 ↦ ?_
  obtain ⟨⟨base', restr', -, harmed'⟩, hle⟩ := hic3
  have hprove : Meets _ fail (IC3Debugger.prove E fuel { s with ic3 := ic3 }) :=
    prove_meets hd hpos hfuel hids.1 h.tr_eq h.latches harmed' ⟨h.blocks.allowed_empty, Finset.empty_subset _⟩
  refine (hprove.and (prove_le _ _ _)).bind fun r hr ↦ ?_
  obtain ⟨answer, s₁⟩ := r
  obtain ⟨⟨hfound, ic3₁, rfl, hsession, hkeeps⟩, hle₁⟩ := hr
  have hfirst : n + 4 * tr.gateIDs.length ≤ ic3₁.vars.nextID := hsession.between.rep.cons.first_le
  have hsetup : Meets _ fail (setupInitialStates { s with ic3 := ic3₁ }) :=
    setupInitialStates_meets hd hpos hmany hids h.counting h.limited h.blocks harmed'.blocks hsession
  have hmade : Meets _ _ (setupInitialStates { s with ic3 := ic3₁ }) :=
    setupInitialStates_le hd hpos h.counting hsession.between.rep.cons.vars hfirst
  refine (hsetup.and hmade).bind fun s₂ hs₂ ↦ ?_
  obtain ⟨⟨ic3₂, c, cubes, rfl, hc, hloaded, hblocks, hselects⟩, hle₂⟩ := hs₂
  have hload : Meets _ fail (IC3Debugger.reload true
      ⟨s.tr, ic3₂, s.cardinality, c, s.debugLatches, s.blockingClauses⟩) :=
    reload_expanded hd hloaded.session hloaded.waiting hblocks hfirst hloaded.lits hselects
  refine (hload.and (reload_le _ _)).bind fun s₃ hs₃ ↦ ?_
  obtain ⟨⟨ic3₃, rfl, harmed₃⟩, hvars⟩ := hs₃
  refine ⟨⟨hfound.answer hsub, h.tr_eq, h.latches, hc, h.limited, h.blocks, _, _, harmed₃⟩, ?_⟩
  dsimp only at hle hle₁ hle₂ hvars ⊢
  rw [hvars]
  exact hle.trans (hle₁.trans hle₂)

end Proofs


section Contract

variable {fuel : IC3Solver → ℕ}

/-- The virtual functions. -/
def asDebugger (E : Engines) (fuel : IC3Solver → ℕ) : Debugger IC3Debugger where
  setCardinality := setCardinality
  clearCardinality := clearCardinality
  debug := debug E fuel
  debugOverGates := debugOverGates E fuel
  blockSolution := blockSolution

theorem asDebugger_exact (hd : Debugs tr n d) (hpos : tr.gateIDs ≠ [])
    (hmany : tr.gateIDs.length < cardinalityInf) (hids : fail .idsExhausted ∧ fail .narrowed)
    (hfuel : ∀ st, st.fuelBound ≤ fuel st) :
    (asDebugger E fuel).Exact tr.FreedBad tr.gateIDs (Rep E hd) fail where
  setCardinality h hm := h.setCardinality hpos hmany hids (.inr ⟨rfl, hm.le⟩)
  clearCardinality h := h.clearCardinality hmany hids.1
  debug h := h.debug hpos hids.1 hfuel
  debugOverGates h hsub := (h.debugOverGates hpos hmany hids hfuel hsub).imp fun _ hr ↦ hr.1
  blockSolution h hsub hne := h.blockSolution hids.1 hne hsub

/-- The states a debugger can be in after any calls, with the current cardinality and the sets
blocked. Others make variables too. -/
inductive Reached (E : Engines) (fuel : IC3Solver → ℕ) (tr : TransitionRelation)
    (d : DebugTransitionRelation) (first : ℕ) : ℕ → List (Finset ℕ) → IC3Debugger → Prop
  | new {vars s} : vars.Inv → first ≤ vars.nextID → new vars d = .ok s →
      Reached E fuel tr d first tr.gateIDs.length [] s
  | others {limit blocked s vars} : Reached E fuel tr d first limit blocked s → vars.Inv →
      s.ic3.vars.nextID ≤ vars.nextID →
      Reached E fuel tr d first limit blocked { s with ic3 := { s.ic3 with vars := vars } }
  | setCardinality {limit blocked s s' n} : Reached E fuel tr d first limit blocked s →
      n ≤ tr.gateIDs.length → s.setCardinality n = .ok s' → Reached E fuel tr d first n blocked s'
  | clearCardinality {limit blocked s s'} : Reached E fuel tr d first limit blocked s →
      s.clearCardinality = .ok s' → Reached E fuel tr d first tr.gateIDs.length blocked s'
  | blockSolution {limit blocked s s' soln} : Reached E fuel tr d first limit blocked s →
      soln ≠ [] → soln ⊆ tr.gateIDs → s.blockSolution soln = .ok s' →
      Reached E fuel tr d first limit (blocked ++ [soln.toFinset]) s'
  | debug {limit blocked s s' r} : Reached E fuel tr d first limit blocked s →
      s.debug E fuel = .ok (r, s') → Reached E fuel tr d first limit blocked s'
  | debugOverGates {limit blocked s s' r gates} : Reached E fuel tr d first limit blocked s →
      gates ⊆ tr.gateIDs → s.debugOverGates E fuel gates = .ok (r, s') →
      Reached E fuel tr d first limit blocked s'

theorem Reached.rep (hd : Debugs tr n d) (hpos : tr.gateIDs ≠ []) (hmany : tr.gateIDs.length < cardinalityInf)
    (hfuel : ∀ st, st.fuelBound ≤ fuel st)
    (h : Reached E fuel tr d (n + 4 * tr.gateIDs.length) limit blocked s) : Rep E hd limit blocked s := by
  induction h with
  | new hvars hfirst hok => exact post_of_ok (new_meets hd hvars hfirst) hok
  | others _ hvars hle ih => exact ih.advance hvars hle
  | setCardinality _ hm hok ih =>
    exact post_of_ok (ih.setCardinality hpos hmany ⟨trivial, trivial⟩ (.inr ⟨rfl, hm⟩)) hok
  | clearCardinality _ hok ih => exact post_of_ok (ih.clearCardinality hmany trivial) hok
  | blockSolution _ hne hsub hok ih => exact post_of_ok (ih.blockSolution trivial hne hsub) hok
  | debug _ hok ih => exact (post_of_ok (ih.debug hpos trivial hfuel) hok).2
  | debugOverGates _ hsub hok ih =>
    exact (post_of_ok (ih.debugOverGates hpos hmany ⟨trivial, trivial⟩ hfuel hsub) hok).1.2

def IsSolution (tr : TransitionRelation) (gates : List ℕ) (limit : ℕ) (blocked : List (Finset ℕ))
    (D : Finset ℕ) : Prop :=
  D ⊆ gates.toFinset ∧ D.card ≤ limit ∧ Unblocked blocked D ∧ tr.FreedBad D

end Contract

end IC3Debugger

end PME
