import PME.SafetyResult
import PME.ProofChecker

namespace PME

open Outcome TransitionRelation

/-- `prime` with its assertion. -/
def primeChecked (id n : ℕ) : Result ℕ := do
  ensure (decide (n ≤ maxPrimes))
  return prime id n

/-- `unrollFrame` with the assertions of `prime`. -/
def TransitionRelation.unrollFrameChecked (tr : TransitionRelation) (n : ℕ) : Result ClauseVec := do
  ensure (tr.toCNF.isEmpty && tr.constraints.isEmpty || decide (n ≤ maxPrimes))
  ensure (tr.latches.isEmpty || decide (n + 1 ≤ maxPrimes))
  return tr.unrollFrame n

structure BMCSolver where
  tr : TransitionRelation
  solver : SATAdaptor
  numFrames : ℕ
  solverInited : Bool
  initConstraints : ClauseVec

namespace BMCSolver

def new (tr : TransitionRelation) : BMCSolver := ⟨tr, .new, 0, false, []⟩

def restrictInitialStates (b : BMCSolver) (cls : Clause) : Result BMCSolver := do
  let b := { b with initConstraints := b.initConstraints ++ [cls] }
  if b.solverInited then return { b with solver := ← b.solver.addClause cls } else return b

def restrictInitialStatesAll (b : BMCSolver) (vec : ClauseVec) : Result BMCSolver :=
  vec.foldlM restrictInitialStates b

def clearRestrictions (b : BMCSolver) : BMCSolver :=
  { b with initConstraints := [], solver := b.solver.reset, solverInited := false, numFrames := 0 }

def initSolver (b : BMCSolver) : Result BMCSolver := do
  ensure (!b.solverInited)
  let solver ← b.solver.addClauses b.tr.initState
  let solver ← solver.addClauses (← b.tr.unrollFrameChecked 0)
  let solver ← solver.addClauses b.initConstraints
  return { b with solver := solver, numFrames := 0, solverInited := true }

def unroll (b : BMCSolver) (n : ℕ) : Result BMCSolver := do
  let b ← (if b.solverInited then pure b else b.initSolver)
  ensure (decide (n > b.numFrames))
  let solver ← (List.range' b.numFrames (n - b.numFrames)).foldlM
    (fun solver k ↦ do solver.addClauses (← b.tr.unrollFrameChecked k)) b.solver
  return { b with solver := solver, numFrames := n }

def extractTrace (b : BMCSolver) (m : Assignment) (k : ℕ) : SafetyCounterExample :=
  (List.range (k + 1)).map fun i ↦
    ⟨b.solver.extract m b.tr.inputIDs i, b.solver.extract m b.tr.latchIDs i⟩

def solveAtK (S : SAT.Solver) (b : BMCSolver) (k : ℕ) (assumps : Cube) :
    Result (SafetyResult × BMCSolver) := do
  let bad ← primeChecked b.tr.bad k
  let b ← (if k ≥ b.numFrames then b.unroll (k + 1) else pure b)
  let (answer, solver) := b.solver.solve S (assumps ++ [bad])
  let b := { b with solver := solver }
  match answer with
  | .sat m => return (⟨.unsafeAt, [], b.extractTrace m k⟩, b)
  | .unsat _ => return (⟨.unknown, [], []⟩, b)

/-- The loop of `solveRange` over the bounds that are left. -/
def solveAt (S : SAT.Solver) (assumps : Cube) :
    List ℕ → BMCSolver → Result (SafetyResult × BMCSolver)
  | [], b => return (⟨.unknown, [], []⟩, b)
  | k :: ks, b => do
    let (kresult, b) ← b.solveAtK S k assumps
    if kresult.result = .unsafeAt then return (kresult, b) else solveAt S assumps ks b

def solveRange (S : SAT.Solver) (b : BMCSolver) (kMin kMax : ℕ) (assumps : Cube) :
    Result (SafetyResult × BMCSolver) :=
  solveAt S assumps (List.range' kMin (kMax + 1 - kMin)) b

def solve (S : SAT.Solver) (b : BMCSolver) (kMax : ℕ) (assumps : Cube) :
    Result (SafetyResult × BMCSolver) := b.solveRange S 0 kMax assumps

inductive Call
  | solve (kMax : ℕ) (assumps : Cube)
  | solveRange (kMin kMax : ℕ) (assumps : Cube)
  | solveAtK (k : ℕ) (assumps : Cube)
  | restrict (cls : Clause)
  | restrictAll (vec : ClauseVec)
  | clear

def call (S : SAT.Solver) (b : BMCSolver) : Call → Result BMCSolver
  | .solve kMax assumps => do return (← b.solve S kMax assumps).2
  | .solveRange kMin kMax assumps => do return (← b.solveRange S kMin kMax assumps).2
  | .solveAtK k assumps => do return (← b.solveAtK S k assumps).2
  | .restrict cls => b.restrictInitialStates cls
  | .restrictAll vec => b.restrictInitialStatesAll vec
  | .clear => return b.clearRestrictions

/-- A bound at which `prime` asserts: the latches are primed once more than the rest. -/
def Deep (tr : TransitionRelation) (k : ℕ) : Prop :=
  maxPrimes < k ∨ tr.latches ≠ [] ∧ maxPrimes ≤ k

/-- The calls that no assertion refuses. -/
def Call.Admissible (tr : TransitionRelation) : Call → Prop
  | .solve kMax _ | .solveRange _ kMax _ => ¬ Deep tr kMax
  | .solveAtK k _ => ¬ Deep tr k
  | .restrict cls => cls ≠ []
  | .restrictAll vec => [] ∉ vec
  | .clear => True

/-- What is asked at bound `k` of `n` frames: a run from a restricted initial state through
frames that all meet the constraints, with the assumptions, that is bad in frame `k`. -/
def Execution (tr : TransitionRelation) (restrictions : ClauseVec) (assumps : Cube) (k n : ℕ) :
    Prop :=
  ∃ σ, σ idFalse = false ∧ tr.IsInit (frameOf σ 0) ∧ tr.IsRun n (frameOf σ) ∧
    satClauses σ restrictions ∧ satCube σ assumps ∧ litVal (frameOf σ k) tr.bad = true

def Holds (tr : TransitionRelation) (restrictions : ClauseVec) (n : ℕ) (db : ClauseVec) : Prop :=
  ∀ σ, satClauses σ db ↔ satClauses σ [[idTrue]] ∧ satClauses σ tr.initState ∧
    (∀ i < n, satClauses σ (tr.unrollFrame i)) ∧ satClauses σ restrictions

/-- Between two calls the solver is either new or holds as many frames as it counts. -/
structure Rep (tr : TransitionRelation) (b : BMCSolver) : Prop where
  tr_eq : b.tr = tr
  start : b.solverInited = false → b.solver.clauses = [[idTrue]] ∧ b.numFrames = 0
  pos : b.solverInited = true → 0 < b.numFrames
  holds : b.solverInited = true → Holds tr b.initConstraints b.numFrames b.solver.clauses

variable {S : SAT.Solver} {tr : TransitionRelation} {b : BMCSolver} {fail : Failure → Prop}

theorem rep_new : Rep tr (new tr) := ⟨rfl, fun _ ↦ ⟨rfl, rfl⟩, nofun, nofun⟩

theorem Holds.asks_iff {restrictions db : ClauseVec} {n : ℕ} (h : Holds tr restrictions n db)
    (hv : tr.LitsValid) (assumps : Cube) (k : ℕ) (σ : Assignment) :
    satClauses σ db ∧ satCube σ (assumps ++ [prime tr.bad k]) ↔
      σ idFalse = false ∧ tr.IsInit (frameOf σ 0) ∧ tr.IsRun n (frameOf σ) ∧
        satClauses σ restrictions ∧ satCube σ assumps ∧ litVal (frameOf σ k) tr.bad = true := by
  rw [h σ, satCube_append, satCube_cons, litVal_prime hv.bad.2, satClauses_cons, satClause_cons,
    litVal_idTrue, Bool.not_eq_true']
  constructor
  · intro hσ
    obtain ⟨⟨hconst, hinit, hframes, hrestrict⟩, hassumps, hbad, -⟩ := hσ
    have hc : σ idFalse = false := hconst.1.resolve_right not_satClause_nil
    refine ⟨hc, ?_, fun i hi ↦ ?_, hrestrict, hassumps, hbad⟩
    · exact ((satClauses_initState hv hc).mp hinit).congr hv (sameSignals_frameOf_zero σ).symm
    · exact (satClauses_unrollFrame hv hc i).mp (hframes i hi)
  · intro hσ
    obtain ⟨hc, hinit, hrun, hrestrict, hassumps, hbad⟩ := hσ
    refine ⟨⟨⟨.inl hc, satClauses_nil⟩, ?_, fun i hi ↦ ?_, hrestrict⟩, hassumps, hbad, satCube_nil⟩
    · exact (satClauses_initState hv hc).mpr (hinit.congr hv (sameSignals_frameOf_zero σ))
    · exact (satClauses_unrollFrame hv hc i).mpr (hrun i hi)

theorem Holds.execution_iff {restrictions db : ClauseVec} {n : ℕ} (h : Holds tr restrictions n db)
    (hv : tr.LitsValid) (assumps : Cube) (k : ℕ) :
    (∃ σ, satClauses σ db ∧ satCube σ (assumps ++ [prime tr.bad k])) ↔
      Execution tr restrictions assumps k n :=
  exists_congr fun σ ↦ h.asks_iff hv assumps k σ

theorem unrollFrame_nonempty (h : ∀ cls ∈ tr.toCNF, cls ≠ []) (n : ℕ) :
    ∀ cls ∈ tr.unrollFrame n, cls ≠ [] := fun cls hc ↦
  unroll_nonempty h (n + 1) cls (List.mem_flatMap.mpr ⟨n, List.self_mem_range_succ, hc⟩)

theorem Deep.mono {k k' : ℕ} (h : Deep tr k) (hle : k ≤ k') : Deep tr k' :=
  h.imp (·.trans_le hle) (And.imp_right (·.trans hle))

theorem Deep.le {k : ℕ} (h : Deep tr k) : maxPrimes ≤ k := h.elim Nat.le_of_lt And.right

theorem not_deep_zero : ¬ Deep tr 0 := fun h ↦ absurd h.le (by decide)

theorem primeChecked_meets {id k : ℕ} (hdeep : maxPrimes < k → fail .assertion) :
    Meets (· = prime id k) fail (primeChecked id k) := by
  refine (ensure_meets fun hk ↦ hdeep ?_).bind fun _ _ ↦ rfl
  exact Nat.lt_of_not_le (of_decide_eq_false hk)

theorem unrollFrameChecked_meets {k : ℕ} (hdeep : Deep tr k → fail .assertion) :
    Meets (· = tr.unrollFrame k) fail (tr.unrollFrameChecked k) := by
  refine (ensure_meets fun hk ↦ hdeep (.inl ?_)).bind fun _ _ ↦ ?_
  · exact Nat.lt_of_not_le (of_decide_eq_false (Bool.or_eq_false_iff.mp hk).2)
  refine (ensure_meets fun hk ↦ hdeep (.inr ?_)).bind fun _ _ ↦ rfl
  obtain ⟨hne, hlt⟩ := Bool.or_eq_false_iff.mp hk
  have hnot := of_decide_eq_false hlt
  exact ⟨List.isEmpty_eq_false_iff.mp hne, by omega⟩

theorem addClauses_meets {ad : SATAdaptor} {vec : ClauseVec} (hfail : [] ∈ vec → fail .assertion) :
    Meets (fun ad' ↦ ad'.clauses = ad.clauses ++ vec) fail (ad.addClauses vec) := by
  induction vec generalizing ad with
  | nil => exact (List.append_nil _).symm
  | cons cls vec ih =>
    rw [SATAdaptor.addClauses, List.foldlM_cons]
    by_cases hc : cls = []
    · subst hc
      exact hfail List.mem_cons_self
    · refine (SATAdaptor.addClause_meets hc).bind fun ad' h ↦ ?_
      refine (ih fun hmem ↦ hfail (List.mem_cons_of_mem _ hmem)).imp fun ad'' h' ↦ ?_
      rw [h', h.1, List.append_assoc]
      rfl

theorem initSolver_meets (h : Rep tr b) (hne : ∀ cls ∈ tr.toCNF, cls ≠ [])
    (hi : b.solverInited = false) (hfail : [] ∈ b.initConstraints → fail .assertion) :
    Meets (fun b' ↦ ∃ ad, b' = { b with solver := ad, numFrames := 0, solverInited := true } ∧
      Holds tr b.initConstraints 1 ad.clauses) fail b.initSolver := by
  unfold initSolver
  rw [hi, Bool.not_false, ensure_true, ok_bind, h.tr_eq]
  refine (SATAdaptor.addClauses_meets initState_nonempty).bind fun ad₁ h₁ ↦ ?_
  refine (unrollFrameChecked_meets fun h0 ↦ absurd h0 not_deep_zero).bind fun frame hframe ↦ ?_
  subst hframe
  refine (SATAdaptor.addClauses_meets (unrollFrame_nonempty hne 0)).bind fun ad₂ h₂ ↦ ?_
  refine (addClauses_meets hfail).bind fun ad₃ h₃ ↦ ?_
  refine ⟨ad₃, rfl, fun σ ↦ ?_⟩
  rw [h₃, h₂.1, h₁.1, (h.start hi).1, satClauses_append, satClauses_append, satClauses_append]
  constructor
  · intro hσ
    obtain ⟨⟨⟨hconst, hinit⟩, hframe⟩, hrestrict⟩ := hσ
    exact ⟨hconst, hinit, fun i hi ↦ Nat.lt_one_iff.mp hi ▸ hframe, hrestrict⟩
  · intro hσ
    obtain ⟨hconst, hinit, hframe, hrestrict⟩ := hσ
    exact ⟨⟨⟨hconst, hinit⟩, hframe 0 Nat.zero_lt_one⟩, hrestrict⟩

theorem addFrames_meets (hne : ∀ cls ∈ tr.toCNF, cls ≠ []) {restrictions : ClauseVec} {n m : ℕ}
    {ad : SATAdaptor} (ks : List ℕ) (h : Holds tr restrictions n ad.clauses)
    (hall : ∀ i, i < m ↔ i < n ∨ i ∈ ks) (hdeep : ∀ i ∈ ks, Deep tr i → fail .assertion) :
    Meets (fun ad' ↦ Holds tr restrictions m ad'.clauses) fail
      (ks.foldlM (fun solver k ↦ do solver.addClauses (← tr.unrollFrameChecked k)) ad) := by
  have hfold : Meets (fun ad' : SATAdaptor ↦ ∀ σ, satClauses σ ad'.clauses ↔
      satClauses σ ad.clauses ∧ ∀ i ∈ ks, satClauses σ (tr.unrollFrame i)) fail
      (ks.foldlM (fun solver k ↦ do solver.addClauses (← tr.unrollFrameChecked k)) ad) := by
    refine foldlM_meets (fun done (ad' : SATAdaptor) ↦ ∀ σ, satClauses σ ad'.clauses ↔
      satClauses σ ad.clauses ∧ ∀ i ∈ done, satClauses σ (tr.unrollFrame i)) ad ?_ ?_
    · exact fun σ ↦ ⟨fun hσ ↦ ⟨hσ, nofun⟩, And.left⟩
    · intro done k rest ad' hl hdone
      have hk : k ∈ ks := hl ▸ List.mem_append_right done List.mem_cons_self
      refine (unrollFrameChecked_meets (hdeep k hk)).bind fun frame hframe ↦ ?_
      subst hframe
      refine (SATAdaptor.addClauses_meets (unrollFrame_nonempty hne k)).imp fun ad'' had σ ↦ ?_
      rw [had.1, satClauses_append, hdone σ, List.forall_mem_append, List.forall_mem_singleton,
        and_assoc]
  refine hfold.imp fun ad' had σ ↦ ?_
  rw [had σ, h σ]
  constructor
  · intro hσ
    obtain ⟨⟨hconst, hinit, hframes, hrestrict⟩, hnew⟩ := hσ
    exact ⟨hconst, hinit, fun i hi ↦ ((hall i).mp hi).elim (hframes i) (hnew i), hrestrict⟩
  · intro hσ
    obtain ⟨hconst, hinit, hframes, hrestrict⟩ := hσ
    exact ⟨⟨hconst, hinit, fun i hi ↦ hframes i ((hall i).mpr (.inl hi)), hrestrict⟩,
      fun i hi ↦ hframes i ((hall i).mpr (.inr hi))⟩

theorem unroll_meets (h : Rep tr b) (hne : ∀ cls ∈ tr.toCNF, cls ≠ []) {n : ℕ}
    (hn : b.numFrames < n) (hfail : [] ∈ b.initConstraints → fail .assertion)
    (hdeep : Deep tr (n - 1) → fail .assertion) :
    Meets (fun b' ↦ ∃ ad, b' = { b with solver := ad, numFrames := n, solverInited := true } ∧
      Holds tr b.initConstraints n ad.clauses) fail (b.unroll n) := by
  have hrange : ∀ first : ℕ, first < n → ∀ i,
      i ∈ List.range' first (n - first) ↔ first ≤ i ∧ i < n := by
    intro first hlt i
    rw [List.mem_range'_1]
    omega
  have hframes : ∀ first : ℕ, first < n → ∀ i ∈ List.range' first (n - first),
      Deep tr i → fail .assertion := by
    intro first hlt i hi hd
    have hi' := (hrange first hlt i).mp hi
    exact hdeep (hd.mono (by omega))
  unfold unroll
  cases hi : b.solverInited with
  | false =>
    rw [if_neg Bool.false_ne_true]
    have hzero := (h.start hi).2
    refine (initSolver_meets h hne hi hfail).bind fun b' hb' ↦ ?_
    obtain ⟨ad, rfl, hholds⟩ := hb'
    have hpos : 0 < n := hzero ▸ hn
    dsimp only
    rw [decide_eq_true hpos, ensure_true, ok_bind, h.tr_eq]
    have hall : ∀ i, i < n ↔ i < 1 ∨ i ∈ List.range' 0 (n - 0) := by
      intro i
      rw [hrange 0 hpos]
      omega
    exact (addFrames_meets hne _ hholds hall (hframes 0 hpos)).bind fun ad' had ↦ ⟨ad', rfl, had⟩
  | true =>
    rw [if_pos rfl, pure_bind, decide_eq_true hn, ensure_true, ok_bind, h.tr_eq]
    have hall : ∀ i, i < n ↔ i < b.numFrames ∨ i ∈ List.range' b.numFrames (n - b.numFrames) := by
      intro i
      rw [hrange b.numFrames hn]
      omega
    refine (addFrames_meets hne _ (h.holds hi) hall (hframes _ hn)).bind fun ad' had ↦ ⟨ad', ?_, had⟩
    rw [← hi]

theorem rep_of_holds {n : ℕ} {ad : SATAdaptor} (h : Rep tr b) (hn : 0 < n)
    (hholds : Holds tr b.initConstraints n ad.clauses) :
    Rep tr { b with solver := ad, numFrames := n, solverInited := true } :=
  ⟨h.tr_eq, nofun, fun _ ↦ hn, fun _ ↦ hholds⟩

theorem ready_meets (h : Rep tr b) (hne : ∀ cls ∈ tr.toCNF, cls ≠ [])
    (hfail : [] ∈ b.initConstraints → fail .assertion) {k : ℕ}
    (hdeep : Deep tr k → fail .assertion) :
    Meets (fun b' ↦ ∃ ad,
      b' = { b with solver := ad, numFrames := max b.numFrames (k + 1), solverInited := true } ∧
      Holds tr b.initConstraints (max b.numFrames (k + 1)) ad.clauses) fail
      (if k ≥ b.numFrames then b.unroll (k + 1) else pure b) := by
  by_cases hk : k ≥ b.numFrames
  · rw [if_pos hk, max_eq_right (by omega)]
    exact unroll_meets h hne (by omega) hfail hdeep
  · have hi : b.solverInited = true := by
      cases hi : b.solverInited with
      | true => rfl
      | false =>
        have hzero := (h.start hi).2
        omega
    rw [if_neg hk, max_eq_left (by omega)]
    exact ⟨b.solver, by rw [← hi], h.holds hi⟩

theorem solveAtK_meets (S : SAT.Solver) (h : Rep tr b) (hv : tr.LitsValid)
    (hne : ∀ cls ∈ tr.toCNF, cls ≠ []) (hfail : [] ∈ b.initConstraints → fail .assertion)
    {k : ℕ} (hdeep : Deep tr k → fail .assertion) (assumps : Cube) :
    Meets (fun p : SafetyResult × BMCSolver ↦ Rep tr p.2 ∧
      p.2.initConstraints = b.initConstraints ∧ p.2.numFrames = max b.numFrames (k + 1) ∧
      (p.1.result = .unsafeAt ↔
        Execution tr b.initConstraints assumps k (max b.numFrames (k + 1))))
      fail (b.solveAtK S k assumps) := by
  unfold solveAtK
  refine (primeChecked_meets fun hk ↦ hdeep (.inl hk)).bind fun bad hbad ↦ ?_
  rw [h.tr_eq] at hbad
  subst hbad
  refine (ready_meets h hne hfail hdeep).bind fun b' hb' ↦ ?_
  obtain ⟨ad, rfl, hholds⟩ := hb'
  have hvalid := ad.solve_valid S (assumps ++ [prime tr.bad k])
  have hsat := ad.solve_isSat S (assumps ++ [prime tr.bad k])
  have hclauses := ad.solve_clauses S (assumps ++ [prime tr.bad k])
  rw [hholds.execution_iff hv] at hsat
  rw [← hclauses] at hholds
  have hrep := rep_of_holds h (by omega) hholds
  dsimp only
  rw [h.tr_eq] at hrep ⊢
  generalize ad.solve S (assumps ++ [prime tr.bad k]) = p at hvalid hsat hclauses hrep ⊢
  obtain ⟨answer, ad'⟩ := p
  cases answer with
  | sat m => exact ⟨hrep, rfl, rfl, fun _ ↦ hsat.mp rfl, fun _ ↦ rfl⟩
  | unsat crits => exact ⟨hrep, rfl, rfl, nofun, fun hex ↦ nomatch hsat.mpr hex⟩

structure Held (tr : TransitionRelation) (fail : Failure → Prop) (b : BMCSolver) : Prop where
  rep : Rep tr b
  refused : [] ∈ b.initConstraints → fail .assertion

theorem solveAt_meets (S : SAT.Solver) (hv : tr.LitsValid) (hne : ∀ cls ∈ tr.toCNF, cls ≠ [])
    (assumps : Cube) (ks : List ℕ) (h : Held tr fail b)
    (hdeep : ∀ k ∈ ks, Deep tr k → fail .assertion) :
    Meets (fun p ↦ Held tr fail p.2) fail (solveAt S assumps ks b) := by
  induction ks generalizing b with
  | nil => exact h
  | cons k ks ih =>
    have hk := hdeep k List.mem_cons_self
    unfold solveAt
    refine (solveAtK_meets S h.rep hv hne h.refused hk assumps).bind fun p hp ↦ ?_
    obtain ⟨hrep, hinit, -, -⟩ := hp
    have hheld : Held tr fail p.2 := ⟨hrep, hinit ▸ h.refused⟩
    dsimp only
    split
    · exact hheld
    · exact ih hheld fun i hi ↦ hdeep i (List.mem_cons_of_mem k hi)

theorem solveRange_held (S : SAT.Solver) (hv : tr.LitsValid) (hne : ∀ cls ∈ tr.toCNF, cls ≠ [])
    (assumps : Cube) (kMin : ℕ) {kMax : ℕ} (h : Held tr fail b)
    (hdeep : Deep tr kMax → fail .assertion) :
    Meets (fun p ↦ Held tr fail p.2) fail (b.solveRange S kMin kMax assumps) := by
  refine solveAt_meets S hv hne assumps _ h fun k hk hd ↦ hdeep (hd.mono ?_)
  rw [List.mem_range'_1] at hk
  omega

theorem restrictInitialStates_meets (h : Held tr fail b) {cls : Clause}
    (hcls : cls = [] → fail .assertion) :
    Meets (Held tr fail) fail (b.restrictInitialStates cls) := by
  have hrefused : [] ∈ b.initConstraints ++ [cls] → fail .assertion := by
    intro hmem
    cases List.mem_append.mp hmem with
    | inl hmem => exact h.refused hmem
    | inr hmem => exact hcls (List.mem_singleton.mp hmem).symm
  unfold restrictInitialStates
  dsimp only
  by_cases hi : b.solverInited = true
  · rw [if_pos hi]
    by_cases hc : cls = []
    · subst hc
      exact hcls rfl
    refine (SATAdaptor.addClause_meets hc).bind fun ad had ↦ ?_
    refine ⟨⟨h.rep.tr_eq, fun hn ↦ ?_, h.rep.pos, fun _ σ ↦ ?_⟩, hrefused⟩
    · exact nomatch hn.symm.trans hi
    · dsimp only
      rw [had.1, satClauses_append, h.rep.holds hi σ, satClauses_append, and_assoc, and_assoc,
        and_assoc]
  · rw [if_neg hi]
    exact ⟨⟨h.rep.tr_eq, h.rep.start, fun hn ↦ absurd hn hi, fun hn ↦ absurd hn hi⟩, hrefused⟩

theorem call_meets (S : SAT.Solver) (hv : tr.LitsValid) (hne : ∀ cls ∈ tr.toCNF, cls ≠ [])
    (h : Held tr fail b) {c : Call} (hc : ¬ c.Admissible tr → fail .assertion) :
    Meets (Held tr fail) fail (b.call S c) := by
  cases c with
  | solve kMax assumps =>
    have hdeep : Deep tr kMax → fail .assertion := fun hd ↦ hc (not_not_intro hd)
    exact (solveRange_held S hv hne assumps 0 h hdeep).bind fun _ hp ↦ hp
  | solveRange kMin kMax assumps =>
    have hdeep : Deep tr kMax → fail .assertion := fun hd ↦ hc (not_not_intro hd)
    exact (solveRange_held S hv hne assumps kMin h hdeep).bind fun _ hp ↦ hp
  | solveAtK k assumps =>
    have hdeep : Deep tr k → fail .assertion := fun hd ↦ hc (not_not_intro hd)
    refine (solveAtK_meets S h.rep hv hne h.refused hdeep assumps).bind fun p hp ↦ ?_
    exact ⟨hp.1, hp.2.1 ▸ h.refused⟩
  | restrict cls => exact restrictInitialStates_meets h fun hnil ↦ hc (not_not_intro hnil)
  | restrictAll vec =>
    refine foldlM_meets (fun _ ↦ Held tr fail) b h fun done cls rest b' hl hb' ↦ ?_
    refine restrictInitialStates_meets hb' fun hnil ↦ hc (not_not_intro ?_)
    rw [← hl, hnil]
    exact List.mem_append_right done List.mem_cons_self
  | clear =>
    exact ⟨⟨h.rep.tr_eq, fun _ ↦ ⟨rfl, rfl⟩, nofun, nofun⟩, fun hmem ↦ absurd hmem List.not_mem_nil⟩

/-- Whatever was called before, a solver holds the frames it counts, and only calls that are
not admissible fail. -/
theorem calls_meet (S : SAT.Solver) (hv : tr.LitsValid) (hne : ∀ cls ∈ tr.toCNF, cls ≠ [])
    (calls : List Call) (hc : (∃ c ∈ calls, ¬ c.Admissible tr) → fail .assertion) :
    Meets (Held tr fail) fail (calls.foldlM (call S) (new tr)) := by
  refine foldlM_meets (fun _ ↦ Held tr fail) (new tr) ⟨rep_new, nofun⟩ fun done c rest b hl hb ↦ ?_
  refine call_meets S hv hne hb fun hno ↦ hc ⟨c, ?_, hno⟩
  rw [← hl]
  exact List.mem_append_right done List.mem_cons_self

theorem Execution.mono {restrictions : ClauseVec} {assumps : Cube} {k n m : ℕ} (hnm : n ≤ m)
    (h : Execution tr restrictions assumps k m) : Execution tr restrictions assumps k n := by
  obtain ⟨σ, hc, hinit, hrun, hσ⟩ := h
  exact ⟨σ, hc, hinit, fun i hi ↦ hrun i (hi.trans_le hnm), hσ⟩

theorem restrictInitialStatesAll_new (vec : ClauseVec) :
    (new tr).restrictInitialStatesAll vec = .ok { new tr with initConstraints := vec } := by
  have hnote : ∀ noted : ClauseVec,
      ({ new tr with initConstraints := noted } : BMCSolver).restrictInitialStatesAll vec =
        .ok { new tr with initConstraints := noted ++ vec } := by
    induction vec with
    | nil => exact fun noted ↦ by rw [List.append_nil]; rfl
    | cons cls vec ih =>
      intro noted
      have hrest := ih (noted ++ [cls])
      rw [List.append_assoc] at hrest
      exact hrest
  exact hnote []

/-- What a query may fail with: an empty clause was given as a restriction, or the bound is
beyond the frames that an ID can be primed to. -/
def Refuses (tr : TransitionRelation) (b : BMCSolver) (k : ℕ) (e : Failure) : Prop :=
  e = .assertion ∧ ([] ∈ b.initConstraints ∨ Deep tr k)

/-- A bound is answered as a new solver would answer it exactly when an execution to this
bound, if there is one, can be chosen to go on through every frame unrolled before. -/
theorem solveAtK_history (S : SAT.Solver) (tr : TransitionRelation) (hwf : tr.WellFormed)
    (calls : List Call) (b : BMCSolver) (hb : calls.foldlM (call S) (new tr) = .ok b)
    (k : ℕ) (assumps : Cube) :
    Meets (fun p : SafetyResult × BMCSolver ↦
      ((p.1.result = .unsafeAt ↔ Execution tr b.initConstraints assumps k (k + 1)) ↔
        (Execution tr b.initConstraints assumps k (k + 1) →
          Execution tr b.initConstraints assumps k (max b.numFrames (k + 1)))))
      (Refuses tr b k) (b.solveAtK S k assumps) ∧
    Meets (fun p : SafetyResult × BMCSolver ↦
      (p.1.result = .unsafeAt ↔ Execution tr b.initConstraints assumps k (k + 1)))
      (Refuses tr b k)
      ((new tr).restrictInitialStatesAll b.initConstraints >>= (·.solveAtK S k assumps)) := by
  have hv := hwf.toLitsValid
  have hne := hwf.toCNF_nonempty
  have hheld : Meets (Held tr fun _ ↦ True) (fun _ ↦ True) (calls.foldlM (call S) (new tr)) :=
    calls_meet S hv hne calls fun _ ↦ trivial
  have hrep := (hheld.of_ok hb).rep
  have hfresh : Rep tr { new tr with initConstraints := b.initConstraints } :=
    ⟨rfl, fun _ ↦ ⟨rfl, rfl⟩, nofun, nofun⟩
  have hempty : [] ∈ b.initConstraints → Refuses tr b k .assertion := fun hc ↦ ⟨rfl, .inl hc⟩
  have hdeep : Deep tr k → Refuses tr b k .assertion := fun hd ↦ ⟨rfl, .inr hd⟩
  constructor
  · refine (solveAtK_meets S hrep hv hne hempty hdeep assumps).imp fun p hp ↦ ?_
    have hback : Execution tr b.initConstraints assumps k (max b.numFrames (k + 1)) →
        Execution tr b.initConstraints assumps k (k + 1) := Execution.mono (by omega)
    rw [hp.2.2.2]
    exact ⟨fun h ↦ h.mpr, fun h ↦ ⟨hback, h⟩⟩
  · rw [restrictInitialStatesAll_new, ok_bind]
    refine (solveAtK_meets S hfresh hv hne hempty hdeep assumps).imp fun p hp ↦ ?_
    exact (Nat.zero_max (k + 1)) ▸ hp.2.2.2

open ProofChecker (deadEnd deadEnd_wellFormed)

theorem execution_deadEnd : Execution deadEnd [] [] 0 1 := by
  refine ⟨fun v ↦ decide (v = 4 ∨ v = prime 6 1), rfl, by decide, fun i hi ↦ ?_, satClauses_nil, satCube_nil,
    by decide⟩
  obtain rfl : i = 0 := by omega
  exact ⟨⟨by decide, by decide, by decide⟩, by decide⟩

theorem not_execution_deadEnd : ¬ Execution deadEnd [] [] 0 2 := by
  intro h
  obtain ⟨σ, -, -, hrun, -, -, hbad⟩ := h
  have hstep : frameOf σ 1 6 = litVal (frameOf σ 0) 4 :=
    (hrun 0 Nat.zero_lt_two).2 ⟨6, 4, idFalse⟩ (by decide)
  have hcon : litVal (frameOf σ 1) (negate 6) = true :=
    (hrun 1 Nat.one_lt_two).1.constraints _ List.mem_cons_self
  have hlow : frameOf σ 1 6 = false := by
    rwa [litVal_negate, litVal_of_even rfl, Bool.not_eq_true'] at hcon
  have hhigh : frameOf σ 1 6 = true := hstep.trans hbad
  exact Bool.false_ne_true (hlow.symm.trans hhigh)

theorem not_deep_one {tr : TransitionRelation} : ¬ Deep tr 1 := fun h ↦ absurd h.le (by decide)

/-- Frames unrolled for a deeper bound stay, with their constraints. -/
theorem solveAtK_history_fails : ¬ ∀ (S : SAT.Solver) (tr : TransitionRelation) (_ : tr.WellFormed)
    (calls : List Call) (b : BMCSolver) (_ : calls.foldlM (call S) (new tr) = .ok b)
    (k : ℕ) (assumps : Cube), Meets (fun p : SafetyResult × BMCSolver ↦
      (p.1.result = .unsafeAt ↔ Execution tr b.initConstraints assumps k (k + 1)))
      (Refuses tr b k) (b.solveAtK S k assumps) := by
  intro hall
  have hv := deadEnd_wellFormed.toLitsValid
  have hne := deadEnd_wellFormed.toCNF_nonempty
  have hfirst : Meets _ (fun _ ↦ False) ((new deadEnd).solveAtK .exhaustive 1 []) :=
    solveAtK_meets .exhaustive rep_new hv hne nofun (absurd · not_deep_one) []
  obtain ⟨p, hok, hrep, hcons, hframes, -⟩ := hfirst.exists_ok
  have hcalls : [Call.solveAtK 1 []].foldlM (call .exhaustive) (new deadEnd) = .ok p.2 := by
    rw [List.foldlM_cons, call, hok]
    rfl
  have hempty : [] ∈ p.2.initConstraints → False := by
    rw [hcons]
    exact List.not_mem_nil
  have hsecond : Meets _ (fun _ ↦ False) (p.2.solveAtK .exhaustive 0 []) :=
    solveAtK_meets .exhaustive hrep hv hne hempty (absurd · not_deep_zero) []
  obtain ⟨q, hq, -, -, -, hanswer⟩ := hsecond.exists_ok
  have hclaim := (hall .exhaustive deadEnd deadEnd_wellFormed _ p.2 hcalls 0 []).of_ok hq
  rw [hcons, hframes] at hanswer
  rw [hcons] at hclaim
  exact not_execution_deadEnd (hanswer.mp (hclaim.mpr execution_deadEnd))

/-- A range, a restriction and a deeper bound, before the query at bound 0. -/
theorem solveAtK_history_deadEnd : ∃ b : BMCSolver,
    [Call.solveRange 0 1 [negate 4], .clear, .restrict [4, 6], .solveAtK 1 []].foldlM
      (call .exhaustive) (new deadEnd) = .ok b ∧
    Meets (fun p : SafetyResult × BMCSolver ↦
      ((p.1.result = .unsafeAt ↔ Execution deadEnd b.initConstraints [4] 0 (0 + 1)) ↔
        (Execution deadEnd b.initConstraints [4] 0 (0 + 1) →
          Execution deadEnd b.initConstraints [4] 0 (max b.numFrames (0 + 1)))))
      (Refuses deadEnd b 0) (b.solveAtK .exhaustive 0 [4]) ∧
    Meets (fun p : SafetyResult × BMCSolver ↦
      (p.1.result = .unsafeAt ↔ Execution deadEnd b.initConstraints [4] 0 (0 + 1)))
      (Refuses deadEnd b 0)
      ((new deadEnd).restrictInitialStatesAll b.initConstraints >>=
        (·.solveAtK .exhaustive 0 [4])) := by
  have hcalls : Meets (Held deadEnd fun _ ↦ False) (fun _ ↦ False)
      ([Call.solveRange 0 1 [negate 4], .clear, .restrict [4, 6], .solveAtK 1 []].foldlM
        (call .exhaustive) (new deadEnd)) := by
    refine calls_meet .exhaustive deadEnd_wellFormed.toLitsValid deadEnd_wellFormed.toCNF_nonempty
      _ fun hex ↦ ?_
    obtain ⟨c, hc, hno⟩ := hex
    refine hno ?_
    simp only [List.mem_cons, List.not_mem_nil, or_false] at hc
    obtain rfl | rfl | rfl | rfl := hc
    · exact not_deep_one
    · exact trivial
    · exact List.cons_ne_nil _ _
    · exact not_deep_one
  obtain ⟨b, hok, -⟩ := hcalls.exists_ok
  exact ⟨b, hok, solveAtK_history .exhaustive deadEnd deadEnd_wellFormed _ b hok 0 [4]⟩

theorem exists_isRun (hwf : tr.WellFormed) (hfree : tr.constraints = []) {n : ℕ}
    {x : ℕ → Assignment} (hx : tr.IsRun n x) (m : ℕ) :
    ∃ y, tr.IsRun (n + m) y ∧ (∀ i < n, y i = x i) := by
  induction m with
  | zero => exact ⟨x, hx, fun _ _ ↦ rfl⟩
  | succ m ih =>
    obtain ⟨y, hy, hyx⟩ := ih
    have hlatch : ∀ l ∈ tr.latches, l.id ≠ idFalse ∧ l.id ∉ tr.gateIDs := by
      intro l hl
      have hid := hwf.latch_mem hl
      have hmin := (hwf.latches l hl).1
      refine ⟨?_, hwf.not_gate (List.mem_append_right _ hid)⟩
      rw [minId_eq] at hmin
      rw [idFalse]
      omega
    obtain ⟨z, hz, hgates⟩ := hwf.exists_gates (fun v ↦ v != idFalse && y (n + m) v) rfl
    have hzlatch : ∀ l ∈ tr.latches, z l.id = y (n + m) l.id := by
      intro l hl
      rw [hz _ (hlatch l hl).2, bne_iff_ne.mpr (hlatch l hl).1, Bool.true_and]
    have hframe : tr.IsFrame z := by
      refine ⟨hz _ fun hmem ↦ ?_, hgates, hfree ▸ satCube_nil⟩
      exact absurd (hwf.isVar _ (mem_signals.mpr (.inr hmem))).1 (by decide)
    obtain ⟨w, hw⟩ := exists_step hwf.latches_nodup z
    refine ⟨fun i ↦ if i < n + m then y i else if i = n + m then z else w, fun i hi ↦ ?_,
      fun i hi ↦ ?_⟩
    · dsimp only
      rcases Nat.lt_trichotomy i (n + m) with hlt | rfl | hgt
      · obtain ⟨hf, hstep⟩ := hy i hlt
        rw [if_pos hlt]
        refine ⟨hf, fun l hl ↦ ?_⟩
        rcases Nat.lt_or_ge (i + 1) (n + m) with hlt' | hge
        · rw [if_pos hlt']
          exact hstep l hl
        · have heq : i + 1 = n + m := by omega
          rw [heq, if_neg (Nat.lt_irrefl _), if_pos rfl, hzlatch l hl, ← heq]
          exact hstep l hl
      · rw [if_neg (Nat.lt_irrefl _), if_pos rfl, if_neg (by omega), if_neg (by omega)]
        exact ⟨hframe, hw⟩
      · omega
    · dsimp only
      rw [if_pos (by omega)]
      exact hyx i hi

/-- Without constraints the frames of an execution are the first of an execution with more. -/
theorem exists_longer (hwf : tr.WellFormed) (hfree : tr.constraints = []) {k : ℕ} {σ : Assignment}
    (hc : σ idFalse = false) (hinit : tr.IsInit (frameOf σ 0)) (hrun : tr.IsRun (k + 1) (frameOf σ)) (m : ℕ) :
    ∃ τ : Assignment, (∀ v < 2 ^ 48 * (k + 1), τ v = σ v) ∧ τ idFalse = false ∧
      tr.IsInit (frameOf τ 0) ∧ tr.IsRun m (frameOf τ) ∧
      litVal (frameOf τ k) tr.bad = litVal (frameOf σ k) tr.bad := by
  obtain ⟨y, hy, hyx⟩ := exists_isRun hwf hfree hrun m
  let τ : Assignment := fun v ↦ if v < 2 ^ 48 * (k + 1) then σ v else joinFrames y v
  have hτ : ∀ v < 2 ^ 48 * (k + 1), τ v = σ v := fun v hv ↦ if_pos hv
  have hτc : τ idFalse = false := (hτ _ (by rw [idFalse]; omega)).trans hc
  have hlow : ∀ i < k + 1, SameSignals (y i) (frameOf τ i) := by
    intro i hi
    rw [hyx i hi]
    refine ⟨by rw [frameOf_idFalse, frameOf_idFalse, hc, hτc], fun v hmin hmax ↦ ?_⟩
    refine (hτ _ ?_).symm
    rw [prime_of_ge hmin hmax]
    rw [maxId_eq] at hmax
    have hmul : i * 2 ^ 48 ≤ k * 2 ^ 48 := Nat.mul_le_mul_right _ (by omega)
    omega
  have hhigh : ∀ i, k + 1 ≤ i → ∀ v, minId ≤ v → v ≤ maxId → y i v = frameOf τ i v := by
    intro i hi v hmin hmax
    have hge : ¬ prime v i < 2 ^ 48 * (k + 1) := by
      rw [prime_of_ge hmin hmax]
      have hmul : (k + 1) * 2 ^ 48 ≤ i * 2 ^ 48 := Nat.mul_le_mul_right _ hi
      omega
    exact (frameOf_joinFrames y i hmin hmax).symm.trans (if_neg hge).symm
  have hτrun : tr.IsRun (k + 1 + m) (frameOf τ) := by
    refine hy.congr hwf.toLitsValid (fun i hi ↦ ?_) fun v hmin hmax ↦
      hhigh _ (by omega) v hmin hmax
    rcases Nat.lt_or_ge i (k + 1) with hlt | hge
    · exact hlow i hlt
    · refine ⟨?_, hhigh i hge⟩
      rw [frameOf_idFalse, hτc]
      exact (hy i hi).1.const
  have hsame : ∀ i < k + 1, SameSignals (frameOf σ i) (frameOf τ i) := fun i hi ↦
    hyx i hi ▸ hlow i hi
  refine ⟨τ, hτ, hτc, ?_, fun i hi ↦ hτrun i (by omega), ?_⟩
  · exact hinit.congr hwf.toLitsValid (hsame 0 (by omega))
  · exact ((hsame k (by omega)).litVal_eq hwf.bad).symm

/-- Without constraints, and with assumptions and restrictions about the frames asked for
only, history makes no difference. -/
theorem Execution.extend (hwf : tr.WellFormed) (hfree : tr.constraints = [])
    {restrictions : ClauseVec} {assumps : Cube} {k : ℕ}
    (hr : ∀ v ∈ varsOf restrictions, v < 2 ^ 48 * (k + 1))
    (ha : ∀ lit ∈ assumps, strip lit < 2 ^ 48 * (k + 1)) (m : ℕ)
    (h : Execution tr restrictions assumps k (k + 1)) :
    Execution tr restrictions assumps k m := by
  obtain ⟨σ, hc, hinit, hrun, hrestrict, hassumps, hbad⟩ := h
  obtain ⟨τ, hτ, hτc, hτinit, hτrun, hτbad⟩ := exists_longer hwf hfree hc hinit hrun m
  refine ⟨τ, hτc, hτinit, hτrun, ?_, ?_, hτbad.trans hbad⟩
  · exact (satClauses_congr fun v hv ↦ hτ v (hr v hv)).mpr hrestrict
  · exact (satCube_congr fun lit hl ↦ hτ _ (ha lit hl)).mpr hassumps

end BMCSolver

end PME
