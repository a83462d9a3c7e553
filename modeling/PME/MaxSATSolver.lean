import PME.CardinalityConstraint

namespace PME

open Outcome

structure MSU4Options where
  resetAllPeriod : ℕ
  resetSolverPeriod : ℕ
  useHintClauses : Bool
  period_pos : 0 < resetSolverPeriod

/-- The sets of the source are lists in increasing order, which is the order they are iterated
in. An optimization set has fewer literals than IDs were handed out, so below `2 ^ 32` IDs the
`unsigned` counters are plain numbers; only the number of solves can wrap around. -/
structure MSU4MaxSATSolver where
  isSAT : Bool
  absoluteUNSAT : Bool
  vars : VariableManager
  optimizationSet : List ℕ
  solver : SATAdaptor
  clauses : ClauseVec
  solves : ℕ
  unsatRounds : ℕ
  lb : ℕ
  ub : ℕ
  currentSoln : List ℕ
  initialAssumps : List ℕ
  blockedAssumps : Cube
  lastCardinalityInput : Cube
  cardinality : Option SortingConstraint

namespace MSU4MaxSATSolver

def unsignedMax : ℕ := 2 ^ 32 - 1

def new (vm : VariableManager) : MSU4MaxSATSolver where
  isSAT := false
  absoluteUNSAT := false
  vars := vm
  optimizationSet := []
  solver := SATAdaptor.new
  clauses := []
  solves := 0
  unsatRounds := 0
  lb := 0
  ub := unsignedMax
  currentSoln := []
  initialAssumps := []
  blockedAssumps := []
  lastCardinalityInput := []
  cardinality := none

def addClause (s : MSU4MaxSATSolver) (cls : Clause) : Result MSU4MaxSATSolver := do
  let solver ← s.solver.addClause cls
  return { s with
    clauses := s.clauses ++ [cls], solver := solver, isSAT := false, lb := 0, currentSoln := [] }

def resetCardinality (s : MSU4MaxSATSolver) : MSU4MaxSATSolver :=
  { s with cardinality := none, lastCardinalityInput := [] }

def reset (s : MSU4MaxSATSolver) : MSU4MaxSATSolver :=
  { s.resetCardinality with
    isSAT := false
    lb := 0
    currentSoln := []
    ub := unsignedMax
    blockedAssumps := []
    initialAssumps := s.optimizationSet
    solves := 0
    unsatRounds := 0
    absoluteUNSAT := false }

def resetSolver (s : MSU4MaxSATSolver) : Result MSU4MaxSATSolver := do
  let solver ← s.solver.reset.addClauses s.clauses
  return { s.resetCardinality with solver := solver }

def addForOptimization (s : MSU4MaxSATSolver) (lit : ℕ) : Result MSU4MaxSATSolver :=
  if s.optimizationSet.contains lit then throw .exception else
  return { s with optimizationSet := s.optimizationSet.orderedInsert (· ≤ ·) lit }.reset

def extractSolution (s : MSU4MaxSATSolver) (m : Assignment) : Result (List ℕ) :=
  s.optimizationSet.foldlM (fun soln lit ↦ do
    let value ← s.solver.getAssignment m lit
    return if value then soln ++ [lit] else soln) []

def extractCore (crits : Cube) (initialAssumps : List ℕ) : Cube :=
  crits.filter initialAssumps.contains

def numSatisfied (s : MSU4MaxSATSolver) (m : Assignment) (lits : Cube) : Result ℕ :=
  lits.foldlM (fun count lit ↦ do
    let value ← s.solver.getAssignment m lit
    return if value then count + 1 else count) 0

/-- A constraint that more than `n` of the inputs are true, as assumptions. The last
constraint is used again for the same inputs as long as it has the outputs. -/
def addCardinality (s : MSU4MaxSATSolver) (inputs : Cube) (n : ℕ) :
    Result (Cube × MSU4MaxSATSolver) := do
  ensure (!inputs.isEmpty)
  let negN := inputs.length - n
  let sorted := inputs.insertionSort (· ≤ ·)
  match s.cardinality.filter fun c ↦
      sorted == s.lastCardinalityInput && decide (c.getOutputCardinality > negN) with
  | some c => return (← c.assumeLT negN, s)
  | none =>
    if negN < n * 8 % 2 ^ 32 then
      let c := (SortingConstraint.sortingLEqConstraint.addInputs (negateVec inputs)).setCardinality
        (negN + 1)
      let (vm, c, cnf) ← c.CNFize s.vars
      let solver ← s.solver.addClauses cnf
      return (← c.assumeLT negN, { s with
        lastCardinalityInput := sorted, vars := vm, cardinality := some c, solver := solver })
    else
      let c := (SortingConstraint.sortingGEqConstraint.addInputs inputs).setCardinality (n + 1)
      let (vm, c, cnf) ← c.CNFize s.vars
      let solver ← s.solver.addClauses cnf
      return (← c.assumeGT n, { s with lastCardinalityInput := [], vars := vm, solver := solver })

def endPass (s : MSU4MaxSATSolver) (cardinalityAssumps : Cube) :
    (MSU4MaxSATSolver × Cube) ⊕ (MSU4MaxSATSolver × Bool) :=
  if s.lb = s.ub then .inr ({ s with isSAT := true }, true) else .inl (s, cardinalityAssumps)

def satPass (s : MSU4MaxSATSolver) (m : Assignment) :
    Result ((MSU4MaxSATSolver × Cube) ⊕ (MSU4MaxSATSolver × Bool)) := do
  let soln ← s.extractSolution m
  let s ← (if s.currentSoln.length < soln.length then do
      ensure (s.lb == s.currentSoln.length)
      return { s with currentSoln := soln, lb := soln.length }
    else return s : Result MSU4MaxSATSolver)
  let n ← s.numSatisfied m s.blockedAssumps
  if n = s.blockedAssumps.length then
    return .inr ({ s with isSAT := true }, true)
  else
    let (cardinalityAssumps, s) ← s.addCardinality s.blockedAssumps n
    return s.endPass cardinalityAssumps

def unsatPass (o : MSU4Options) (hintLit : ℕ) (s : MSU4MaxSATSolver) (cardinalityAssumps : Cube)
    (crits : Cube) : Result ((MSU4MaxSATSolver × Cube) ⊕ (MSU4MaxSATSolver × Bool)) := do
  let core := extractCore crits s.initialAssumps
  if core.isEmpty then
    return .inr ({ s with isSAT := true }, true)
  else
    let solver ← (if o.useHintClauses then s.solver.addClause (negateVec core ++ [negate hintLit])
      else return s.solver : Result SATAdaptor)
    let unsatRounds := s.unsatRounds + 1
    ensure (decide (s.ub > s.optimizationSet.length - unsatRounds))
    let s := { s with
      initialAssumps := s.initialAssumps.filter (!core.contains ·)
      blockedAssumps := s.blockedAssumps ++ core
      solver := solver
      unsatRounds := unsatRounds
      ub := s.optimizationSet.length - unsatRounds }
    return s.endPass cardinalityAssumps

def pass (o : MSU4Options) (S : SAT.Solver) (hintLit : ℕ) (p : MSU4MaxSATSolver × Cube) :
    Result ((MSU4MaxSATSolver × Cube) ⊕ (MSU4MaxSATSolver × Bool)) :=
  let assumps := p.1.initialAssumps ++ p.2 ++ if o.useHintClauses then [hintLit] else []
  let r := p.1.solver.solve S assumps
  let s := { p.1 with solver := r.2 }
  match r.1 with
  | .sat m => s.satPass m
  | .unsat crits => s.unsatPass o hintLit p.2 crits

def passes (k : ℕ) : ℕ := (k + 1) * (k + 2)

def rebuilds (o : MSU4Options) (s : MSU4MaxSATSolver) : Bool :=
  !decide (s.solves > o.resetAllPeriod) && s.solves % o.resetSolverPeriod == 0

def periodicReset (o : MSU4Options) (s : MSU4MaxSATSolver) : Result MSU4MaxSATSolver :=
  if s.solves > o.resetAllPeriod then do
    let s ← s.resetSolver
    return s.reset
  else if s.rebuilds o then s.resetSolver
  else return s

def doSolve (o : MSU4Options) (S : SAT.Solver) (s : MSU4MaxSATSolver) :
    Result (MSU4MaxSATSolver × Bool) := do
  let s ← s.periodicReset o
  let s := { s with solves := (s.solves + 1) % 2 ^ 32 }
  if s.absoluteUNSAT then return (s, false) else
  let (answer, solver) := s.solver.solve S []
  let s := { s with solver := solver }
  if answer.isSat then
    let (hintLit, vm) ← s.vars.getNewID 0
    loop .outOfFuel (pass o S hintLit) (passes s.optimizationSet.length) ({ s with vars := vm }, [])
  else
    return ({ s with absoluteUNSAT := true }, false)

def doCheck (S : SAT.Solver) (s : MSU4MaxSATSolver) (assumps : Cube) : MSU4MaxSATSolver × Bool :=
  let r := s.solver.solve S assumps
  ({ s with solver := r.2 }, r.1.isSat)

def getAssignment (s : MSU4MaxSATSolver) (lit : ℕ) : Result Bool := do
  ensure s.isSAT
  let nlit := negate lit
  if !s.optimizationSet.contains lit && !s.optimizationSet.contains nlit then throw .exception else
  if s.currentSoln.contains lit then return true else
  if s.currentSoln.contains nlit then return false else
  if s.optimizationSet.contains lit then return false else
  ensure (s.optimizationSet.contains nlit)
  return true

end MSU4MaxSATSolver

end PME
