import PME.IC3.InductiveTrace
import PME.ClauseDatabase
import PME.SafetyResult

namespace PME.IC3

open Outcome

def extractCoreWithPrimes (c crits : Cube) (n : ℕ) : Cube :=
  crits.filterMap fun lit ↦
    if nprimes lit = n ∧ unprime lit ∈ c then some (unprime lit) else none

def extractCore (c crits : Cube) : Cube := extractCoreWithPrimes c crits 0

structure TransitionRelationSolver where
  tr : TransitionRelation
  solver : SATAdaptor
  unrolled : ClauseVec

namespace TransitionRelationSolver

def computeSimplifiedTR (B : Backend) (tr : TransitionRelation) : Result ClauseVec :=
  if B.simplify then simplifyTR B.simplifier tr else return tr.unroll 2

def renewSAT (B : Backend) (s : TransitionRelationSolver) : Result TransitionRelationSolver := do
  let unrolled ← (if s.unrolled.isEmpty then computeSimplifiedTR B s.tr else pure s.unrolled)
  let solver ← s.solver.reset.addClauses unrolled
  return { s with solver := solver, unrolled := unrolled }

end TransitionRelationSolver

/-- Whether the target is out of reach in one step: if so, literals of it that are, and
otherwise a predecessor, with its inputs and those of the next frame. -/
inductive ConsecutionResult
  | holds (core : Cube)
  | fails (pred inp pinp : Cube)

structure FrameSolver extends TransitionRelationSolver where
  solverInited : Bool
  activation : List ℕ

namespace FrameSolver

def new (tr : TransitionRelation) : FrameSolver where
  tr := tr
  solver := .new
  unrolled := []
  solverInited := false
  activation := []

/-- The loop of `levelAct`, which runs until the level has its activation variable. -/
def growActivation (vm : VariableManager) (fs : FrameSolver) :
    ℕ → Result (VariableManager × FrameSolver)
  | 0 => return (vm, fs)
  | n + 1 => do
    let (id, vm) ← vm.getNewID 0
    growActivation vm { fs with activation := fs.activation ++ [id] } n

def levelAct (vm : VariableManager) (fs : FrameSolver) (level : ℕ) :
    Result (ℕ × VariableManager × FrameSolver) := do
  let (vm, fs) ← fs.growActivation vm (level + 1 - fs.activation.length)
  match fs.activation[level]? with
  | some act => return (act, vm, fs)
  | none => throw .exception

def activatedClauseOf (vm : VariableManager) (fs : FrameSolver) (data : LemmaData) :
    Result (Clause × VariableManager × FrameSolver) :=
  let cls := negateVec data.cube
  match data.level with
  | .inf => return (cls, vm, fs)
  | .fin n => do
    let (act, vm, fs) ← fs.levelAct vm n
    return (cls ++ [act], vm, fs)

def sendLemma (vm : VariableManager) (trace : InductiveTrace) (fs : FrameSolver) (id : LemmaID) :
    Result (VariableManager × FrameSolver) := do
  let data ← trace.getLemma id
  let (cls, vm, fs) ← fs.activatedClauseOf vm data
  return (vm, { fs with solver := ← fs.solver.addClause cls })

def sendFrame (vm : VariableManager) (trace : InductiveTrace) (fs : FrameSolver) (level : Level) :
    Result (VariableManager × FrameSolver) := do
  let frame ← trace.getFrame level
  frame.foldlM (fun (vm, fs) id ↦ do
    let data ← trace.getLemma id
    if data.deleted then return (vm, fs) else fs.sendLemma vm trace id) (vm, fs)

def renewSAT (B : Backend) (vm : VariableManager) (trace : InductiveTrace) (fs : FrameSolver) :
    Result (VariableManager × FrameSolver) := do
  let base ← fs.toTransitionRelationSolver.renewSAT B
  let fs := { fs with toTransitionRelationSolver := base }
  let (vm, fs) ← fs.sendFrame vm trace .inf
  let (vm, fs) ← (List.range trace.numFrames).foldlM
    (fun (vm, fs) i ↦ fs.sendFrame vm trace (.fin i)) (vm, fs)
  return (vm, { fs with solverInited := true })

def addLemma (vm : VariableManager) (trace : InductiveTrace) (fs : FrameSolver) (id : LemmaID) :
    Result (VariableManager × FrameSolver) :=
  if fs.solverInited then fs.sendLemma vm trace id else return (vm, fs)

def levelAssumps (vm : VariableManager) (trace : InductiveTrace) (fs : FrameSolver) :
    Level → Result (Cube × VariableManager × FrameSolver)
  | .inf => return ([], vm, fs)
  | .fin level => (List.range' level (trace.numFrames - level)).foldlM (fun (assumps, vm, fs) i ↦ do
      let (act, vm, fs) ← fs.levelAct vm i
      return (assumps ++ [negate act], vm, fs)) ([], vm, fs)

def extractPredecessor (fs : FrameSolver) (m : Assignment) : Result Cube := do
  let result := fs.solver.extract m fs.tr.latchIDs 0
  ensure (!result.isEmpty || fs.tr.latchIDs.isEmpty)
  return result

def extractInputs (fs : FrameSolver) (m : Assignment) : Cube :=
  fs.solver.extract m fs.tr.inputIDs 0

def extractPrimedInputs (fs : FrameSolver) (m : Assignment) : Cube :=
  fs.solver.extract m fs.tr.inputIDs 1

/-- The query that every form of `consecution` makes. -/
def consecutionQuery (B : Backend) (vm : VariableManager) (trace : InductiveTrace)
    (fs : FrameSolver) (level : Level) (c : Cube) :
    Result (SAT.Answer × VariableManager × FrameSolver) := do
  let (vm, fs) ← (if fs.solverInited then pure (vm, fs) else fs.renewSAT B vm trace)
  ensure (!c.isEmpty)
  let (assumps, vm, fs) ← fs.levelAssumps vm trace level
  ensure (c.all fun lit ↦ nprimes lit == 0)
  let (gid, solver) := fs.solver.createGroup
  let solver ← solver.addGroupClause gid (negateVec c)
  let (answer, solver) := solver.groupSolve B.sat gid (assumps ++ primeVec c 1)
  return (answer, vm, { fs with solver := solver })

def consecutionFull (B : Backend) (vm : VariableManager) (trace : InductiveTrace)
    (fs : FrameSolver) (level : Level) (c : Cube) :
    Result (ConsecutionResult × VariableManager × FrameSolver) := do
  let (answer, vm, fs) ← fs.consecutionQuery B vm trace level c
  match answer with
  | .unsat crits => return (.holds (extractCoreWithPrimes c crits 1), vm, fs)
  | .sat m => return (.fails (← fs.extractPredecessor m) (fs.extractInputs m)
      (fs.extractPrimedInputs m), vm, fs)

def consecutionCore (B : Backend) (vm : VariableManager) (trace : InductiveTrace)
    (fs : FrameSolver) (level : Level) (c : Cube) :
    Result (Option Cube × VariableManager × FrameSolver) := do
  let (answer, vm, fs) ← fs.consecutionQuery B vm trace level c
  match answer with
  | .unsat crits => return (some (extractCoreWithPrimes c crits 1), vm, fs)
  | .sat _ => return (none, vm, fs)

def consecution (B : Backend) (vm : VariableManager) (trace : InductiveTrace)
    (fs : FrameSolver) (level : Level) (c : Cube) :
    Result (Bool × VariableManager × FrameSolver) := do
  let (answer, vm, fs) ← fs.consecutionQuery B vm trace level c
  return (!answer.isSat, vm, fs)

def intersectionFull (B : Backend) (vm : VariableManager) (trace : InductiveTrace)
    (fs : FrameSolver) (level : Level) (c : Cube) :
    Result (Option (Cube × Cube) × VariableManager × FrameSolver) := do
  ensure (!c.isEmpty)
  let (vm, fs) ← (if fs.solverInited then pure (vm, fs) else fs.renewSAT B vm trace)
  let (assumps, vm, fs) ← fs.levelAssumps vm trace level
  let (answer, solver) := fs.solver.solve B.sat (assumps ++ c)
  let fs := { fs with solver := solver }
  match answer with
  | .unsat _ => return (none, vm, fs)
  | .sat m => return (some (← fs.extractPredecessor m, fs.extractInputs m), vm, fs)

def intersection (B : Backend) (vm : VariableManager) (trace : InductiveTrace)
    (fs : FrameSolver) (level : Level) (c : Cube) :
    Result (Bool × VariableManager × FrameSolver) := do
  let (found, vm, fs) ← fs.intersectionFull B vm trace level c
  return (found.isSome, vm, fs)

end FrameSolver

end PME.IC3
