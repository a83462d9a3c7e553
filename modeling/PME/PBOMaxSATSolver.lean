import PME.MaxSATInvariant

namespace PME

open Outcome

namespace SortingConstraint

def assumeGEq (c : SortingConstraint) (n : ℕ) : Result Cube :=
  if !c.ge then throw .exception else
  if n = c.inputs.length ∧ n = c.getOutputCardinality then return c.inputs else
  if n ≥ c.getOutputCardinality then throw .exception else
  c.collect (fun i ↦ decide (n > 0) && decide (i ≤ n - 1)) id

def Follows (c : SortingConstraint) (τ : Assignment) (k : ℕ) : Prop :=
  ∀ i y, c.outputs[i]? = some y → (litVal τ y = true ↔ i < k)

variable {c : SortingConstraint} {fail : Failure → Prop}

theorem trueCount_eq_length {τ : Assignment} {inputs : List ℕ} :
    trueCount τ inputs = inputs.length ↔ satCube τ inputs := by
  rw [trueCount, List.countP_eq_length]
  rfl

/-- Every count of inputs can be asked for when there is an output for each input. -/
theorem assumeGEq_meets (hge : c.ge = true) (hcard : c.getOutputCardinality = c.inputs.length)
    (hcnf : c.inputs ≠ [] → c.cnfized = true) (hlen : c.outputs.length = c.inputs.length)
    (hids : ∀ y ∈ c.outputs, 2 ^ 32 ≤ y → fail .narrowed) {n : ℕ} (hn : n ≤ c.inputs.length) :
    Meets (fun cube ↦ ∀ τ, c.Follows τ (trueCount τ c.inputs) →
      (satCube τ cube ↔ n ≤ trueCount τ c.inputs)) fail (c.assumeGEq n) := by
  unfold assumeGEq
  rw [hge, Bool.not_true, if_neg Bool.false_ne_true, hcard]
  by_cases heq : n = c.inputs.length
  · rw [if_pos ⟨heq, heq⟩, meets_pure]
    intro τ _
    rw [← trueCount_eq_length, heq]
    exact ⟨fun h ↦ h.ge, fun h ↦ List.countP_le_length.antisymm h⟩
  · rw [if_neg fun h ↦ heq h.1, if_neg (by omega)]
    have hne : c.inputs ≠ [] := fun hnil ↦ by
      rw [hnil, List.length_nil] at hn heq
      omega
    refine (collect_meets (hcnf hne) hids _ _).imp fun cube hcube τ hτ ↦ ?_
    constructor
    · intro hsat
      by_contra hlt
      obtain ⟨y, hy⟩ : ∃ y, c.outputs[n - 1]? = some y :=
        ⟨_, List.getElem?_eq_getElem (by omega)⟩
      have hkeep : (decide (n > 0) && decide (n - 1 ≤ n - 1)) = true := by
        rw [Bool.and_eq_true, decide_eq_true_eq, decide_eq_true_eq]
        omega
      have hv := (hτ (n - 1) y hy).mp (hsat y ((hcube y).mpr ⟨n - 1, y, hy, hkeep, rfl⟩))
      omega
    · intro hle lit hl
      obtain ⟨i, y, hy, hk, rfl⟩ := (hcube lit).mp hl
      rw [Bool.and_eq_true, decide_eq_true_eq, decide_eq_true_eq] at hk
      exact (hτ i y hy).mpr (by omega)

end SortingConstraint

theorem Counts.mentions {vm vm' : VariableManager} {inputs outputs : List ℕ} {m : ℕ}
    {ge : Bool} {cnf : ClauseVec} (h : Counts vm vm' inputs m true ge outputs cnf) (hm : 1 ≤ m)
    (hins : ∀ x ∈ inputs, strip x < vm.nextID) (heven : ∀ x ∈ inputs, x % 2 = 0)
    (hnodup : inputs.Nodup) (htwo : 2 ≤ inputs.length) {x : ℕ} (hx : x ∈ inputs) :
    x ∈ varsOf cnf := by
  classical
  by_contra hno
  obtain ⟨y, hy⟩ : ∃ y, outputs[0]? = some y :=
    ⟨_, List.getElem?_eq_getElem (by rw [h.length]; omega)⟩
  obtain ⟨a, ha, hax⟩ : ∃ a ∈ inputs, a ≠ x := by
    by_contra hall
    push Not at hall
    have hrep : inputs = List.replicate inputs.length x := List.eq_replicate_iff.mpr ⟨rfl, hall⟩
    rw [hrep, List.nodup_replicate] at hnodup
    omega
  have hcount : ∀ (σ : Assignment) w, w ∈ inputs → σ w = true → 0 < trueCount σ inputs := by
    intro σ w hw hv
    refine List.countP_pos_iff.mpr ⟨w, hw, ?_⟩
    rw [litVal_of_even (heven w hw)]
    exact hv
  by_cases hsame : strip y = x
  · -- the first output cannot be an input: another input may be true
    have hyx : y = x := by
      obtain hin | hnew := h.wires y (List.mem_of_getElem? hy)
      · rw [← strip_of_even (heven y hin)]
        exact hsame
      · have hlt := hins x hx
        rw [strip_of_even (heven x hx)] at hlt
        omega
    obtain ⟨τ, hτ, -, houts⟩ := h.extension fun v ↦ decide (v = a)
    have hv := (houts 0 y hy).mpr (hcount _ a ha (decide_eq_true rfl))
    have hlt := hins x hx
    rw [strip_of_even (heven x hx)] at hlt
    rw [hyx, litVal_of_even (heven x hx), hτ x (.inl hlt)] at hv
    exact hax (of_decide_eq_true hv).symm
  · obtain ⟨τ, hτ, hcnf, houts⟩ := h.extension fun _ ↦ false
    have hzero : trueCount (fun _ ↦ false) inputs = 0 := by
      refine List.countP_eq_zero.mpr fun w hw ↦ ?_
      rw [litVal_of_even (heven w hw)]
      exact Bool.false_ne_true
    let τ' : Assignment := fun v ↦ if v = x then true else τ v
    have hother : ∀ v, v ≠ x → τ' v = τ v := fun v hv ↦ if_neg hv
    have hcnf' : satClauses τ' cnf :=
      (satClauses_congr fun v hv ↦ hother v fun heq ↦ hno (heq ▸ hv)).mpr hcnf
    have hv := h.atLeast rfl τ' hcnf' 0 y hy (hcount τ' x hx (if_pos rfl))
    have heq : litVal τ' y = litVal τ y := litVal_congr (hother _ hsame)
    rw [heq, houts 0 y hy, hzero] at hv
    exact absurd hv (Nat.lt_irrefl 0)

/-- The variable manager is shared with others, and passed to the calls that take IDs. The
optimization set is short enough for an `unsigned` to count. -/
structure PBOMaxSATSolver where
  cardinality : SortingConstraint
  solver : SATAdaptor
  sat : Bool
  solverInited : Bool
  clauses : ClauseVec
  optimizationSet : List ℕ
  lastCardinality : List (Cube × ℕ)

namespace PBOMaxSATSolver

def new : PBOMaxSATSolver :=
  ⟨.sortingCardinalityConstraint, SATAdaptor.new, false, false, [], [], []⟩

def initSolver (vm : VariableManager) (s : PBOMaxSATSolver) :
    Result (VariableManager × PBOMaxSATSolver) := do
  let solver ← s.solver.addClauses s.clauses
  if s.optimizationSet.isEmpty then
    return (vm, { s with solver := solver, solverInited := true })
  else
    let c := s.cardinality.setCardinality s.optimizationSet.length
    let (vm, c, cnf) ← c.CNFize vm
    let solver ← solver.addClauses cnf
    return (vm, { s with cardinality := c, solver := solver, solverInited := true })

def addClause (s : PBOMaxSATSolver) (cls : Clause) : Result PBOMaxSATSolver := do
  let solver ← (if s.solverInited then s.solver.addClause cls else pure s.solver : Result SATAdaptor)
  return { s with sat := false, clauses := s.clauses ++ [cls], solver := solver }

def addClauses (s : PBOMaxSATSolver) (vec : ClauseVec) : Result PBOMaxSATSolver :=
  vec.foldlM addClause s

def addForOptimization (s : PBOMaxSATSolver) (lit : ℕ) : PBOMaxSATSolver :=
  { s with
    lastCardinality := []
    cardinality := s.cardinality.addInput lit
    optimizationSet := s.optimizationSet ++ [lit]
    solver := if s.solverInited then s.solver.reset else s.solver
    solverInited := false }

def lastCardinalityOf (s : PBOMaxSATSolver) (assumps : Cube) : ℕ :=
  (s.lastCardinality.lookup assumps).getD s.optimizationSet.length

def recordCardinality (s : PBOMaxSATSolver) (assumps : Cube) (n : ℕ) : PBOMaxSATSolver :=
  { s with lastCardinality := (assumps, n) :: s.lastCardinality }

def tryCardinality (S : SAT.Solver) (assumps : Cube) (n : ℕ) (s : PBOMaxSATSolver) :
    Result (Option Assignment × PBOMaxSATSolver) := do
  let cube ← s.cardinality.assumeGEq n
  let (answer, solver) := s.solver.solve S (cube ++ assumps)
  match answer with
  | .sat m => return (some m, { s with solver := solver })
  | .unsat _ => return (none, { s with solver := solver })

def search (S : SAT.Solver) (assumps : Cube) :
    ℕ → PBOMaxSATSolver → Result (Option Assignment × ℕ × PBOMaxSATSolver)
  | 0, s => do
    let (m, s) ← s.tryCardinality S assumps 0
    return (m, 0, s)
  | n + 1, s => do
    let (m, s) ← s.tryCardinality S assumps (n + 1)
    if m.isSome then return (m, n + 1, s) else search S assumps n s

/-- The result is the model that is left in the solver, and `none` for false. -/
def assumpSolve (S : SAT.Solver) (vm : VariableManager) (s : PBOMaxSATSolver) (assumps : Cube) :
    Result (Option Assignment × VariableManager × PBOMaxSATSolver) := do
  let (vm, s) ← (if s.solverInited then pure (vm, s) else s.initSolver vm)
  let sorted := assumps.insertionSort (· ≤ ·)
  let (m, n, s) ← s.search S assumps (s.lastCardinalityOf sorted)
  return (m, vm, { s with sat := m.isSome }.recordCardinality sorted n)

def getAssignment (s : PBOMaxSATSolver) (m : Assignment) (lit : ℕ) : Result Bool := do
  ensure s.sat
  s.solver.getAssignment m lit

def IsModel (s : PBOMaxSATSolver) (σ : Assignment) : Prop := satClauses σ ([idTrue] :: s.clauses)

/-- Before its first solve the SAT solver is empty. From then on its models are those of the
clauses, as far as all but the variables of the network go, with outputs that follow the count. -/
structure Counting (U : Set ℕ) (top : ℕ) (s : PBOMaxSATSolver) : Prop where
  card : s.cardinality.cardinality = s.optimizationSet.length
  cnfized : s.optimizationSet ≠ [] → s.cardinality.cnfized = true
  length : s.cardinality.outputs.length = s.optimizationSet.length
  sound : ∀ τ, satClauses τ s.solver.clauses →
    s.IsModel τ ∧ s.cardinality.Follows τ (trueCount τ s.optimizationSet)
  complete : ∃ lo hi, hi ≤ top ∧ (∀ v ∈ U, ¬ (lo ≤ v ∧ v < hi)) ∧ ∀ σ, s.IsModel σ →
    ∃ τ, (∀ v, ¬ (lo ≤ v ∧ v < hi) → τ v = σ v) ∧ satClauses τ s.solver.clauses
  known : 2 ≤ s.optimizationSet.length → s.optimizationSet.Nodup →
    (∀ lit ∈ s.optimizationSet, lit % 2 = 0) → ∀ lit ∈ s.optimizationSet, lit ∈ s.solver.known

structure Rep (U : Set ℕ) (top : ℕ) (s : PBOMaxSATSolver) : Prop where
  const : idFalse ∈ U
  hard : ∀ v ∈ varsOf s.clauses, v ∈ U
  nonempty : ∀ cls ∈ s.clauses, cls ≠ []
  soft : ∀ lit ∈ s.optimizationSet, strip lit ∈ U
  inputs : s.cardinality.inputs = s.optimizationSet
  le : s.cardinality.le = true
  ge : s.cardinality.ge = true
  start : s.solverInited = false → s.solver.clauses = [[idTrue]] ∧
    (s.optimizationSet = [] → s.cardinality.outputs = [] ∧ s.cardinality.cardinality = 0)
  outs : ∀ y ∈ s.cardinality.outputs, y < top
  counting : s.solverInited = true → s.Counting U top
  last : ∀ p ∈ s.lastCardinality, p.2 ≤ s.optimizationSet.length ∧
    ∀ σ, s.IsModel σ → satCube σ p.1 → trueCount σ s.optimizationSet ≤ p.2

def Best (s : PBOMaxSATSolver) (assumps : Cube) : Option Assignment → Prop
  | none => ∀ σ, s.IsModel σ → ¬ satCube σ assumps
  | some m => s.IsModel m ∧ satCube m assumps ∧ ∀ σ, s.IsModel σ → satCube σ assumps →
    trueCount σ s.optimizationSet ≤ trueCount m s.optimizationSet

variable {U : Set ℕ} {top : ℕ} {s : PBOMaxSATSolver} {S : SAT.Solver} {vm : VariableManager}
  {assumps : Cube} {fail : Failure → Prop}

theorem rep_new (hconst : idFalse ∈ U) : Rep U top new where
  const := hconst
  hard := by
    intro v hv
    obtain ⟨cls, hc, -⟩ := hv
    exact absurd hc List.not_mem_nil
  nonempty := nofun
  soft := nofun
  inputs := rfl
  le := rfl
  ge := rfl
  start _ := ⟨rfl, fun _ ↦ ⟨rfl, rfl⟩⟩
  outs := nofun
  counting := nofun
  last := nofun

theorem Rep.grow (h : Rep U top s) {U' : Set ℕ} {top' : ℕ} (hle : top ≤ top') (hsub : U ⊆ U')
    (hnew : ∀ v ∈ U', v ∈ U ∨ top ≤ v) : Rep U' top' s where
  const := hsub h.const
  hard v hv := hsub (h.hard v hv)
  nonempty := h.nonempty
  soft lit hl := hsub (h.soft lit hl)
  inputs := h.inputs
  le := h.le
  ge := h.ge
  start := h.start
  outs y hy := (h.outs y hy).trans_le hle
  counting hi := by
    have hcount := h.counting hi
    obtain ⟨lo, hi', htop, hout, hcomplete⟩ := hcount.complete
    refine ⟨hcount.card, hcount.cnfized, hcount.length, hcount.sound, ?_, hcount.known⟩
    refine ⟨lo, hi', htop.trans hle, fun v hv hin ↦ ?_, hcomplete⟩
    cases hnew v hv with
    | inl hold => exact hout v hold hin
    | inr hge => omega
  last := h.last

theorem isModel_snoc {s' : PBOMaxSATSolver} {cls : Clause} (hcl : s'.clauses = s.clauses ++ [cls])
    {σ : Assignment} : s'.IsModel σ ↔ s.IsModel σ ∧ satClause σ cls := by
  unfold IsModel
  rw [hcl, ← List.cons_append, satClauses_append]
  exact and_congr_right fun _ ↦ ⟨fun hc ↦ hc _ (List.mem_singleton_self _),
    fun hc ↦ (satClauses_cons _ _).mpr ⟨hc, satClauses_nil⟩⟩

theorem addClause_meets (h : Rep U top s) {cls : Clause} (hne : cls ≠ [])
    (hlits : ∀ lit ∈ cls, strip lit ∈ U) :
    Meets (fun s' ↦ Rep U top s' ∧ s'.clauses = s.clauses ++ [cls] ∧
      s'.optimizationSet = s.optimizationSet ∧ s'.solverInited = s.solverInited) fail
      (s.addClause cls) := by
  have hsolver : Meets (fun ad ↦ (s.solverInited = false → ad = s.solver) ∧
      (s.solverInited = true → ad.clauses = s.solver.clauses ++ [cls] ∧
        ∀ v ∈ s.solver.known, v ∈ ad.known)) fail
      (if s.solverInited then s.solver.addClause cls else pure s.solver : Result SATAdaptor) := by
    cases hi : s.solverInited with
    | false =>
      rw [if_neg Bool.false_ne_true]
      exact ⟨fun _ ↦ rfl, nofun⟩
    | true =>
      rw [if_pos rfl]
      refine (SATAdaptor.addClause_meets hne).imp fun ad had ↦ ⟨nofun, fun _ ↦ ⟨had.1, ?_⟩⟩
      exact fun v hv ↦ (had.2.2.2 v).mpr (.inl hv)
  refine hsolver.bind fun ad had ↦ ?_
  obtain ⟨hfresh, hgrown⟩ := had
  refine ⟨?_, rfl, rfl, rfl⟩
  have hmodel : ∀ {σ}, PBOMaxSATSolver.IsModel
      { s with sat := false, clauses := s.clauses ++ [cls], solver := ad } σ ↔
        s.IsModel σ ∧ satClause σ cls := isModel_snoc rfl
  exact {
    const := h.const
    hard := by
      intro v hv
      obtain ⟨c, hc, lit, hl, rfl⟩ := hv
      cases List.mem_append.mp hc with
      | inl hc => exact h.hard _ (mem_varsOf hc hl)
      | inr hc =>
        rw [List.mem_singleton.mp hc] at hl
        exact hlits lit hl
    nonempty := by
      intro c hc
      cases List.mem_append.mp hc with
      | inl hc => exact h.nonempty c hc
      | inr hc =>
        rw [List.mem_singleton.mp hc]
        exact hne
    soft := h.soft
    inputs := h.inputs
    le := h.le
    ge := h.ge
    start := by
      intro hi
      obtain ⟨hcl, hout⟩ := h.start hi
      refine ⟨?_, hout⟩
      rw [hfresh hi]
      exact hcl
    outs := h.outs
    counting := by
      intro hi
      have hcount := h.counting hi
      obtain ⟨hcl, hknown⟩ := hgrown hi
      obtain ⟨lo, hi', htop, hout, hcomplete⟩ := hcount.complete
      refine ⟨hcount.card, hcount.cnfized, hcount.length, fun τ hτ ↦ ?_,
        ⟨lo, hi', htop, hout, fun σ hσ ↦ ?_⟩, ?_⟩
      · rw [hcl] at hτ
        obtain ⟨hold, hnew⟩ := (satClauses_append _ _).mp hτ
        obtain ⟨hm, hfollows⟩ := hcount.sound τ hold
        exact ⟨hmodel.mpr ⟨hm, ((satClauses_cons _ _).mp hnew).1⟩, hfollows⟩
      · obtain ⟨hm, hc⟩ := hmodel.mp hσ
        obtain ⟨τ, heq, hτ⟩ := hcomplete σ hm
        refine ⟨τ, heq, ?_⟩
        rw [hcl, satClauses_append, satClauses_cons]
        refine ⟨hτ, (satClause_congr fun lit hl ↦ ?_).mpr hc, satClauses_nil⟩
        exact heq _ (hout _ (hlits lit hl))
      · exact fun htwo hnodup heven lit hl ↦ hknown _ (hcount.known htwo hnodup heven lit hl)
    last := fun p hp ↦ ⟨(h.last p hp).1, fun σ hσ ↦ (h.last p hp).2 σ (hmodel.mp hσ).1⟩ }

theorem addClauses_meets (h : Rep U top s) {vec : ClauseVec} (hne : ∀ cls ∈ vec, cls ≠ [])
    (hlits : ∀ v ∈ varsOf vec, v ∈ U) :
    Meets (fun s' ↦ Rep U top s' ∧ s'.clauses = s.clauses ++ vec ∧
      s'.optimizationSet = s.optimizationSet ∧ s'.solverInited = s.solverInited) fail
      (s.addClauses vec) := by
  refine foldlM_meets (fun done s' ↦ Rep U top s' ∧ s'.clauses = s.clauses ++ done ∧
    s'.optimizationSet = s.optimizationSet ∧ s'.solverInited = s.solverInited) s
    ⟨h, (List.append_nil _).symm, rfl, rfl⟩ ?_
  intro done cls rest s₁ hl h₁
  obtain ⟨h₁, hcl, hopt, hi⟩ := h₁
  have hc : cls ∈ vec := hl ▸ List.mem_append_right _ List.mem_cons_self
  refine (addClause_meets h₁ (hne cls hc) fun lit hlit ↦ hlits _ (mem_varsOf hc hlit)).imp fun s₂ h₂ ↦ ?_
  obtain ⟨h₂, hcl', hopt', hi'⟩ := h₂
  refine ⟨h₂, ?_, hopt'.trans hopt, hi'.trans hi⟩
  rw [hcl', hcl, List.append_assoc]

theorem Rep.addForOptimization (h : Rep U top s) {lit : ℕ} (hlit : strip lit ∈ U) :
    Rep U top (s.addForOptimization lit) where
  const := h.const
  hard := h.hard
  nonempty := h.nonempty
  soft := by
    intro l hl
    cases List.mem_append.mp hl with
    | inl hl => exact h.soft l hl
    | inr hl =>
      rw [List.mem_singleton.mp hl]
      exact hlit
  inputs := congrArg (· ++ [lit]) h.inputs
  le := h.le
  ge := h.ge
  start _ := by
    refine ⟨?_, fun hnil ↦ absurd hnil (List.append_ne_nil_of_right_ne_nil _ (List.cons_ne_nil _ _))⟩
    unfold PBOMaxSATSolver.addForOptimization
    cases hi : s.solverInited with
    | false => exact (h.start hi).1
    | true => rfl
  outs := h.outs
  counting := nofun
  last := nofun

theorem initSolver_meets (h : Rep U vm.nextID s) (hi : s.solverInited = false) (hvm : vm.Inv)
    (hU : ∀ v ∈ U, v < vm.nextID ∨ maxId < v) (hsoft : ∀ lit ∈ s.optimizationSet, strip lit ≤ maxId)
    (hids : maxId + 1 < vm.nextID + 2 * s.optimizationSet.length ^ 3 → fail .idsExhausted) :
    Meets (fun r ↦ Rep U r.1.nextID r.2 ∧ r.2.solverInited = true ∧ r.2.clauses = s.clauses ∧
      r.2.optimizationSet = s.optimizationSet ∧ r.1.Inv ∧ vm.nextID ≤ r.1.nextID ∧
      r.1.nextID ≤ vm.nextID + 2 * s.optimizationSet.length ^ 3) fail (s.initSolver vm) := by
  obtain ⟨hdb, hnone⟩ := h.start hi
  unfold initSolver
  refine (SATAdaptor.addClauses_meets h.nonempty).bind fun ad had ↦ ?_
  obtain ⟨hcl, -, -, -⟩ := had
  have hcl' : ad.clauses = [idTrue] :: s.clauses := by
    rw [hcl, hdb]
    rfl
  by_cases hopt : s.optimizationSet = []
  · rw [if_pos (List.isEmpty_iff.mpr hopt)]
    obtain ⟨houts, hcard⟩ := hnone hopt
    refine ⟨⟨h.const, h.hard, h.nonempty, h.soft, h.inputs, h.le, h.ge, nofun, h.outs, fun _ ↦ ?_, h.last⟩,
      rfl, rfl, rfl, hvm, le_rfl, Nat.le_add_right _ _⟩
    refine ⟨?_, fun hne ↦ absurd hopt hne, ?_, fun τ hτ ↦ ⟨?_, fun i y hy ↦ ?_⟩,
      ⟨0, 0, Nat.zero_le _, fun _ _ ↦ by omega, fun σ hσ ↦ ⟨σ, fun _ _ ↦ rfl, ?_⟩⟩, fun htwo ↦ ?_⟩
    · dsimp only
      rw [hcard, hopt]
      rfl
    · dsimp only
      rw [houts, hopt]
    · dsimp only at hτ
      rw [hcl'] at hτ
      exact hτ
    · dsimp only at hy
      rw [houts] at hy
      exact nomatch hy
    · exact hcl'.symm ▸ hσ
    · dsimp only at htwo
      rw [hopt, List.length_nil] at htwo
      omega
  · rw [if_neg (by rw [List.isEmpty_iff]; exact hopt)]
    have hpos : 0 < s.optimizationSet.length := List.length_pos_iff.mpr hopt
    have hins : ∀ w ∈ s.optimizationSet, strip w < vm.nextID := fun w hw ↦
      (hU _ (h.soft w hw)).resolve_right (Nat.not_lt.mpr (hsoft w hw))
    have hnet : Meets (fun r ↦ r.1.Inv ∧ vm.nextID ≤ r.1.nextID ∧
        r.1.nextID ≤ vm.nextID + 2 * s.optimizationSet.length ^ 3 ∧ r.2.1 = { s.cardinality.setCardinality s.optimizationSet.length with
          outputs := r.2.1.outputs, cnfized := true } ∧
        Counts vm r.1 s.optimizationSet s.optimizationSet.length true true r.2.1.outputs r.2.2) fail
        ((s.cardinality.setCardinality s.optimizationSet.length).CNFize vm) := by
      have hc : Meets _ fail ((s.cardinality.setCardinality s.optimizationSet.length).CNFize vm) :=
        SortingConstraint.CNFize_meets hvm
        (by rw [Bool.or_eq_true]; exact .inl h.le) (h.inputs.symm ▸ hpos) hpos
        (fun w hw ↦ .inl (hins w (h.inputs ▸ hw)))
        (fun hlt ↦ hids ((congrArg List.length h.inputs) ▸ hlt))
      refine hc.imp fun r hr ↦ ?_
      obtain ⟨hinv, hle, hbound, heq, hcounts⟩ := hr
      have hle' : (s.cardinality.setCardinality s.optimizationSet.length).le = true := h.le
      have hge' : (s.cardinality.setCardinality s.optimizationSet.length).ge = true := h.ge
      have hin : (s.cardinality.setCardinality s.optimizationSet.length).inputs = s.optimizationSet :=
        h.inputs
      rw [hle', hge', hin] at hcounts
      rw [hin] at hbound
      exact ⟨hinv, hle, hbound, heq, hcounts⟩
    refine hnet.bind fun r hr ↦ ?_
    obtain ⟨vm', c, cnf⟩ := r
    obtain ⟨hinv, hle, hbound, heq, hcounts⟩ := hr
    dsimp only at hinv hle hbound heq hcounts ⊢
    refine (SATAdaptor.addClauses_meets hcounts.nonempty).bind fun ad' had' ↦ ?_
    obtain ⟨hclauses, -, -, hknown⟩ := had'
    have hdb' : ad'.clauses = ([idTrue] :: s.clauses) ++ cnf := by rw [hclauses, hcl']
    have hlen : c.outputs.length = s.optimizationSet.length := by rw [hcounts.length, Nat.min_self]
    have houts : ∀ y ∈ c.outputs, y < vm'.nextID := by
      intro y hy
      have hlt : strip y < vm'.nextID := by
        cases hcounts.wires y hy with
        | inl hin => exact (hins y hin).trans_le hle
        | inr hnew => exact hnew.2
      have heven := hinv.even
      rw [strip_eq] at hlt
      omega
    refine ⟨⟨h.const, h.hard, h.nonempty, h.soft, ?_, ?_, ?_, nofun, houts, fun _ ↦ ?_, h.last⟩,
      rfl, rfl, rfl, hinv, hle, hbound⟩
    · rw [heq]
      exact h.inputs
    · rw [heq]
      exact h.le
    · rw [heq]
      exact h.ge
    · have hown : ∀ v ∈ U, ¬ (vm.nextID ≤ v ∧ v < vm'.nextID) := by
        intro v hv hnew
        have hmax := hinv.le_maxId
        have hv' := hU v hv
        omega
      refine ⟨?_, fun _ ↦ ?_, hlen, fun τ hτ ↦ ?_, ⟨vm.nextID, vm'.nextID, le_rfl, hown, fun σ hσ ↦ ?_⟩,
        fun htwo hnodup heven lit hl ↦ ?_⟩
      · rw [heq]
        rfl
      · rw [heq]
      · dsimp only at hτ
        rw [hdb'] at hτ
        obtain ⟨hm, hcnf⟩ := (satClauses_append _ _).mp hτ
        exact ⟨hm, fun i y hy ↦ ⟨hcounts.atMost rfl τ hcnf i y hy, hcounts.atLeast rfl τ hcnf i y hy⟩⟩
      · obtain ⟨τ, hsame, hcnf, -⟩ := hcounts.exists_extension hins σ
        refine ⟨τ, hsame, ?_⟩
        dsimp only
        rw [hdb', satClauses_append]
        refine ⟨(satClauses_congr fun v hv ↦ hsame v (hown v ?_)).mpr hσ, hcnf⟩
        obtain ⟨cls, hc, lit, hl, rfl⟩ := hv
        cases List.mem_cons.mp hc with
        | inl hc =>
          rw [hc, List.mem_singleton] at hl
          rw [hl, strip_idTrue]
          exact h.const
        | inr hc => exact h.hard _ (mem_varsOf hc hl)
      · exact (hknown lit).mpr (.inr (hcounts.mentions hpos hins heven hnodup htwo hl))

theorem Rep.query (h : Rep U top s) (cube : Cube) (S : SAT.Solver) :
    Rep U top { s with solver := (s.solver.solve S cube).2 } where
  const := h.const
  hard := h.hard
  nonempty := h.nonempty
  soft := h.soft
  inputs := h.inputs
  le := h.le
  ge := h.ge
  start hi := by
    obtain ⟨hcl, hout⟩ := h.start hi
    refine ⟨?_, hout⟩
    rw [SATAdaptor.solve_clauses]
    exact hcl
  outs := h.outs
  counting hi := by
    have hcount := h.counting hi
    have hcl : (s.solver.solve S cube).2.clauses = s.solver.clauses := SATAdaptor.solve_clauses S cube
    obtain ⟨lo, hi', htop, hout, hcomplete⟩ := hcount.complete
    refine ⟨hcount.card, hcount.cnfized, hcount.length, fun τ hτ ↦ ?_,
      ⟨lo, hi', htop, hout, fun σ hσ ↦ ?_⟩, ?_⟩
    · exact hcount.sound τ (hcl ▸ hτ)
    · obtain ⟨τ, heq, hτ⟩ := hcomplete σ hσ
      exact ⟨τ, heq, hcl.symm ▸ hτ⟩
    · exact fun htwo hnodup heven lit hl ↦
        SATAdaptor.mem_introduceVariables.mpr (.inl (hcount.known htwo hnodup heven lit hl))
  last := h.last

structure Queried (s s' : PBOMaxSATSolver) (assumps : Cube) : Prop where
  frame : s' = { s with solver := s'.solver }
  known : ∀ v ∈ s.solver.known, v ∈ s'.solver.known
  assumed : ∀ lit ∈ assumps, strip lit ∈ s'.solver.known

theorem tryCardinality_meets (h : Rep U top s) (hi : s.solverInited = true)
    (hassumps : ∀ lit ∈ assumps, strip lit ∈ U) {n : ℕ} (hn : n ≤ s.optimizationSet.length)
    (hids : ∀ y ∈ s.cardinality.outputs, 2 ^ 32 ≤ y → fail .narrowed) :
    Meets (fun r ↦ Rep U top r.2 ∧ Queried s r.2 assumps ∧ match r.1 with
      | none => ∀ σ, s.IsModel σ → satCube σ assumps → trueCount σ s.optimizationSet < n
      | some m => s.IsModel m ∧ satCube m assumps ∧ n ≤ trueCount m s.optimizationSet) fail
      (s.tryCardinality S assumps n) := by
  have hcount := h.counting hi
  have hcard : s.cardinality.getOutputCardinality = s.cardinality.inputs.length := by
    rw [SortingConstraint.getOutputCardinality, hcount.card, h.inputs, Nat.min_self]
  have hcube : Meets _ fail (s.cardinality.assumeGEq n) := SortingConstraint.assumeGEq_meets h.ge hcard
    (fun hne ↦ hcount.cnfized (h.inputs ▸ hne)) (hcount.length.trans (congrArg _ h.inputs.symm)) hids
    (h.inputs.symm ▸ hn)
  rw [h.inputs] at hcube
  refine hcube.bind fun cube hcube ↦ ?_
  have hrep := h.query (cube ++ assumps) S
  have hq : Queried s { s with solver := (s.solver.solve S (cube ++ assumps)).2 } assumps := by
    refine ⟨rfl, fun v hv ↦ SATAdaptor.mem_introduceVariables.mpr (.inl hv), fun lit hl ↦ ?_⟩
    exact SATAdaptor.mem_introduceVariables.mpr (.inr ⟨lit, List.mem_append_right _ hl, rfl⟩)
  have hvalid : (s.solver.solve S (cube ++ assumps)).1.Valid s.solver.clauses (cube ++ assumps) :=
    SATAdaptor.solve_valid S _
  generalize s.solver.solve S (cube ++ assumps) = p at hrep hq hvalid ⊢
  obtain ⟨answer, solver⟩ := p
  dsimp only at hrep hq hvalid ⊢
  cases answer with
  | sat m =>
    obtain ⟨hm, hfollows⟩ := hcount.sound m hvalid.1
    obtain ⟨hc, ha⟩ := (satCube_append _ _).mp hvalid.2
    exact ⟨hrep, hq, hm, ha, (hcube m hfollows).mp hc⟩
  | unsat crits =>
    refine ⟨hrep, hq, fun σ hσ ha ↦ ?_⟩
    by_contra hge
    obtain ⟨lo, hi', -, hout, hcomplete⟩ := hcount.complete
    obtain ⟨τ, hagree, hτ⟩ := hcomplete σ hσ
    have heq : ∀ v ∈ U, τ v = σ v := fun v hv ↦ hagree v (hout v hv)
    have hsame : trueCount τ s.optimizationSet = trueCount σ s.optimizationSet :=
      trueCount_congr fun x hx ↦ heq _ (h.soft x hx)
    refine hvalid.2.2 τ hτ (satCube_subset hvalid.1 ((satCube_append _ _).mpr ⟨?_, ?_⟩))
    · refine (hcube τ (hcount.sound τ hτ).2).mpr ?_
      omega
    · exact (satCube_congr fun lit hl ↦ heq _ (hassumps lit hl)).mpr ha

theorem Queried.trans {s' s'' : PBOMaxSATSolver} (h : Queried s s' assumps)
    (h' : Queried s' s'' assumps) : Queried s s'' assumps where
  frame := by
    rw [h'.frame, h.frame]
  known v hv := h'.known v (h.known v hv)
  assumed := h'.assumed

theorem search_meets (h : Rep U top s) (hi : s.solverInited = true)
    (hassumps : ∀ lit ∈ assumps, strip lit ∈ U)
    (hids : ∀ y ∈ s.cardinality.outputs, 2 ^ 32 ≤ y → fail .narrowed) {n : ℕ}
    (hn : n ≤ s.optimizationSet.length)
    (hbound : ∀ σ, s.IsModel σ → satCube σ assumps → trueCount σ s.optimizationSet ≤ n) :
    Meets (fun r ↦ Rep U top r.2.2 ∧ Queried s r.2.2 assumps ∧ s.Best assumps r.1 ∧
      r.2.1 ≤ s.optimizationSet.length ∧
      ∀ σ, s.IsModel σ → satCube σ assumps → trueCount σ s.optimizationSet ≤ r.2.1) fail
      (s.search S assumps n) := by
  induction n generalizing s with
  | zero =>
    refine (tryCardinality_meets h hi hassumps hn hids).bind fun r hr ↦ ?_
    obtain ⟨m, s'⟩ := r
    obtain ⟨hrep, hq, hm⟩ := hr
    refine ⟨hrep, hq, ?_, hn, hbound⟩
    cases m with
    | none => exact fun σ hσ ha ↦ absurd (hm σ hσ ha) (Nat.not_lt_zero _)
    | some m => exact ⟨hm.1, hm.2.1, fun σ hσ ha ↦ (hbound σ hσ ha).trans hm.2.2⟩
  | succ n ih =>
    refine (tryCardinality_meets h hi hassumps hn hids).bind fun r hr ↦ ?_
    obtain ⟨m, s'⟩ := r
    obtain ⟨hrep, hq, hm⟩ := hr
    cases m with
    | some m =>
      exact ⟨hrep, hq, ⟨hm.1, hm.2.1, fun σ hσ ha ↦ (hbound σ hσ ha).trans hm.2.2⟩, hn, hbound⟩
    | none =>
      dsimp only at hrep hq hm
      have hopt : s'.optimizationSet = s.optimizationSet := by rw [hq.frame]
      have hmodel : ∀ σ, s'.IsModel σ ↔ s.IsModel σ := fun σ ↦ by
        rw [IsModel, IsModel, hq.frame]
      have hi' : s'.solverInited = true := by
        rw [hq.frame]
        exact hi
      have houts : s'.cardinality.outputs = s.cardinality.outputs := by rw [hq.frame]
      have hrest := ih hrep hi' (houts ▸ hids) (hopt ▸ Nat.le_of_succ_le hn) fun σ hσ ha ↦ by
        rw [hopt]
        exact Nat.le_of_lt_succ (hm σ ((hmodel σ).mp hσ) ha)
      refine Meets.imp (x := s'.search S assumps n) hrest fun r hr ↦ ?_
      obtain ⟨hrep', hq', hbest, hle, hlast⟩ := hr
      rw [hopt] at hle
      refine ⟨hrep', hq.trans hq', ?_, hle, fun σ hσ ha ↦ hopt ▸ hlast σ ((hmodel σ).mpr hσ) ha⟩
      cases hr : r.1 with
      | none =>
        rw [hr] at hbest
        exact fun σ hσ ↦ hbest σ ((hmodel σ).mpr hσ)
      | some m =>
        rw [hr] at hbest
        obtain ⟨hm, ha, hmax⟩ := hbest
        refine ⟨(hmodel m).mp hm, ha, fun σ hσ hc ↦ ?_⟩
        exact hopt ▸ hmax σ ((hmodel σ).mpr hσ) hc

theorem Rep.lastCardinalityOf (h : Rep U top s) (assumps : Cube) :
    s.lastCardinalityOf (assumps.insertionSort (· ≤ ·)) ≤ s.optimizationSet.length ∧
      ∀ σ, s.IsModel σ → satCube σ assumps →
        trueCount σ s.optimizationSet ≤ s.lastCardinalityOf (assumps.insertionSort (· ≤ ·)) := by
  unfold PBOMaxSATSolver.lastCardinalityOf
  cases hl : s.lastCardinality.lookup (assumps.insertionSort (· ≤ ·)) with
  | none => exact ⟨le_rfl, fun σ _ _ ↦ List.countP_le_length⟩
  | some n =>
    have hmem : (assumps.insertionSort (· ≤ ·), n) ∈ s.lastCardinality := by
      obtain ⟨before, after, heq, -⟩ := List.lookup_eq_some_iff.mp hl
      rw [heq]
      exact List.mem_append_right _ List.mem_cons_self
    obtain ⟨hle, hbound⟩ := h.last _ hmem
    refine ⟨hle, fun σ hσ ha ↦ hbound σ hσ (satCube_subset ?_ ha)⟩
    exact fun lit hlit ↦ (List.perm_insertionSort (· ≤ ·) assumps).mem_iff.mp hlit

theorem assumpSolve_meets (h : Rep U vm.nextID s) (hvm : vm.Inv) (hU : ∀ v ∈ U, v < vm.nextID ∨ maxId < v)
    (hsoft : ∀ lit ∈ s.optimizationSet, strip lit ≤ maxId)
    (hassumps : ∀ lit ∈ assumps, strip lit ∈ U)
    (hids : 2 ^ 32 < vm.nextID + 2 * s.optimizationSet.length ^ 3 →
      fail .narrowed ∧ fail .idsExhausted) :
    Meets (fun r ↦ Rep U r.2.1.nextID r.2.2 ∧ s.Best assumps r.1 ∧ r.2.2.solverInited = true ∧
      r.2.2.sat = r.1.isSome ∧ r.2.2.clauses = s.clauses ∧ r.2.2.optimizationSet = s.optimizationSet ∧
      (∀ lit ∈ assumps, strip lit ∈ r.2.2.solver.known) ∧ r.2.1.Inv ∧ vm.nextID ≤ r.2.1.nextID ∧
      r.2.1.nextID ≤ vm.nextID + 2 * s.optimizationSet.length ^ 3) fail (s.assumpSolve S vm assumps) := by
  have hinit : Meets (fun r ↦ Rep U r.1.nextID r.2 ∧ r.2.solverInited = true ∧ r.2.clauses = s.clauses ∧
      r.2.optimizationSet = s.optimizationSet ∧ r.1.Inv ∧ vm.nextID ≤ r.1.nextID ∧
      r.1.nextID ≤ vm.nextID + 2 * s.optimizationSet.length ^ 3) fail
      (if s.solverInited then pure (vm, s) else s.initSolver vm) := by
    cases hi : s.solverInited with
    | true =>
      rw [if_pos rfl]
      exact ⟨h, hi, rfl, rfl, hvm, le_rfl, Nat.le_add_right _ _⟩
    | false =>
      rw [if_neg Bool.false_ne_true]
      refine initSolver_meets h hi hvm hU hsoft fun hlt ↦ ?_
      exact (hids (lt_trans (by decide : 2 ^ 32 < maxId + 1) hlt)).2
  refine hinit.bind fun r hr ↦ ?_
  obtain ⟨vm', s'⟩ := r
  obtain ⟨h', hi', hcl, hopt, hvm', hle, hbound'⟩ := hr
  dsimp only at h' hi' hcl hopt hvm' hle hbound' ⊢
  obtain ⟨hbound, hmax⟩ := h'.lastCardinalityOf assumps
  have hnarrow : ∀ y ∈ s'.cardinality.outputs, 2 ^ 32 ≤ y → fail .narrowed := fun y hy hge ↦ by
    have hlt := h'.outs y hy
    exact (hids (by omega)).1
  refine (search_meets h' hi' hassumps hnarrow hbound hmax).bind fun r hr ↦ ?_
  obtain ⟨m, n, s''⟩ := r
  obtain ⟨h'', hq, hbest, hn, hlast⟩ := hr
  dsimp only at h'' hq hbest hn hlast ⊢
  have hmodel : ∀ σ, s'.IsModel σ ↔ s.IsModel σ := fun σ ↦ by rw [IsModel, IsModel, hcl]
  have hcl'' : s''.clauses = s'.clauses := by rw [hq.frame]
  have hopt'' : s''.optimizationSet = s'.optimizationSet := by rw [hq.frame]
  refine ⟨⟨h''.const, h''.hard, h''.nonempty, h''.soft, h''.inputs, h''.le, h''.ge, h''.start,
    h''.outs, fun hi ↦ ?_, fun p hp ↦ ?_⟩, ?_, ?_, rfl, hcl''.trans hcl, hopt''.trans hopt, hq.assumed, hvm', hle,
    hbound'⟩
  · have hcount := h''.counting hi
    exact ⟨hcount.card, hcount.cnfized, hcount.length, hcount.sound, hcount.complete, hcount.known⟩
  · cases List.mem_cons.mp hp with
    | inr hp => exact h''.last p hp
    | inl hp =>
      rw [hp]
      refine ⟨hopt'' ▸ hn, fun σ hσ hc ↦ ?_⟩
      have hσ' : s'.IsModel σ := by
        rw [IsModel, ← hcl'']
        exact hσ
      have hc' : satCube σ assumps := satCube_subset
        (fun lit hl ↦ (List.perm_insertionSort (· ≤ ·) assumps).mem_iff.mpr hl) hc
      exact hopt'' ▸ hlast σ hσ' hc'
  · cases m with
    | none => exact fun σ hσ ↦ hbest σ ((hmodel σ).mpr hσ)
    | some m =>
      obtain ⟨hm, ha, hbest⟩ := hbest
      refine ⟨(hmodel m).mp hm, ha, fun σ hσ hc ↦ ?_⟩
      exact hopt ▸ hbest σ ((hmodel σ).mpr hσ) hc
  · exact (congrArg solverInited hq.frame).trans hi'

end PBOMaxSATSolver

end PME
