import PME.MCSFinder
import PME.HybridSafetyChecker
import PME.HittingSetFinder

namespace PME

open Outcome IC3

structure CAIVCOptions where
  useBMC : Bool
  abstractionRefinement : Bool
  approxMCS : Bool
  growMCS : Bool
  simpleMCS : Bool
  checkWithDebug : Bool
  arBMCKMax : ℕ
  arBMCNMax : ℕ
  arUpfrontNMax : ℕ
  hybridIC3BMCKMax : ℕ
  msu4 : MSU4Options

/-- What a finder works with. Each attempt of an IC3 solver has the fuel that its state asks for. -/
structure CAIVCContext where
  opts : CAIVCOptions
  engines : Engines
  fuel : IC3Solver → ℕ
  tr : TransitionRelation

/-- The parts of a finder share the variable manager `vars`. -/
structure CAIVCFinder extends IVCFinder where
  vars : VariableManager
  necessaryGates : List ℕ
  finder : MCSFinder HybridDebugger
  approxFinder : ApproximateMCSFinder
  solver : MSU4MaxSATSolver
  ivcChecker : HybridDebugger

namespace CAIVCFinder

section Source

variable (ctx : CAIVCContext)

def debugger : SharedDebugger HybridDebugger := HybridDebugger.shared ctx.engines ctx.fuel

def new (vars : VariableManager) : Result CAIVCFinder := do
  let (debugTR, vars) ← DebugTransitionRelation.fromRelation vars ctx.tr
  let (finder, vars) ← MCSFinder.new ctx.opts.useBMC ctx.opts.hybridIC3BMCKMax vars debugTR
  let (approxFinder, vars) ← ApproximateMCSFinder.new vars debugTR
  let ivcChecker ← HybridDebugger.new ctx.opts.hybridIC3BMCKMax vars debugTR
  let solver ← ctx.tr.gateIDs.foldlM (fun solver gate ↦ solver.addForOptimization (negate gate))
    (MSU4MaxSATSolver.new ivcChecker.vars)
  return ⟨.new, solver.vars, [], finder, approxFinder, solver, ivcChecker⟩

def negateGateSet (gates : List ℕ) : List ℕ := negateGates ctx.tr.gateIDs gates

/-- An insertion into a `std::set`. -/
def addNecessary (f : CAIVCFinder) (gate : ℕ) : CAIVCFinder :=
  if f.necessaryGates.contains gate then f
  else { f with necessaryGates := f.necessaryGates.orderedInsert (· ≤ ·) gate }

def addClause (f : CAIVCFinder) (cls : Clause) : Result CAIVCFinder := do
  return { f with solver := ← { f.solver with vars := f.vars }.addClause cls }

def recordMIVC (f : CAIVCFinder) (mivc : Seed) : CAIVCFinder where
  toIVCFinder := (if f.minimumIVCKnown then f.toIVCFinder else f.setMinimumIVC mivc).addMIVC mivc
  vars := f.vars
  necessaryGates := f.necessaryGates
  finder := f.finder
  approxFinder := f.approxFinder
  solver := f.solver
  ivcChecker := f.ivcChecker

def nonempty (result : Option CorrectionSet) : Bool := result.all fun corr ↦ !corr.isEmpty

def moreCorrectionSets (f : CAIVCFinder) : Result (Bool × CAIVCFinder) := do
  let (more, finder, vars) ← f.finder.moreCorrectionSets (debugger ctx) f.vars
  return (more, { f with finder := finder, vars := vars })

def setCardinality (f : CAIVCFinder) (n : ℕ) : Result CAIVCFinder := do
  let (finder, vars) ← f.finder.setCardinality (debugger ctx) f.vars n
  return { f with finder := finder, vars := vars }

def findCorrectionSet (f : CAIVCFinder) : Result (Option CorrectionSet × CAIVCFinder) := do
  let (result, finder, vars) ← f.finder.findAndBlock (debugger ctx) f.vars
  ensure (nonempty result)
  return (result, { f with finder := finder, vars := vars })

def findUpfront (f : CAIVCFinder) (n : ℕ) : Result (Option CorrectionSet × CAIVCFinder) :=
  if ctx.opts.approxMCS then do
    let (result, approxFinder, vars) ← f.approxFinder.findAndBlockWithBMC ctx.engines ctx.opts.arBMCKMax f.vars n
    ensure (nonempty result)
    return (result, { f with approxFinder := approxFinder, vars := vars })
  else do
    let f ← f.setCardinality ctx n
    f.findCorrectionSet ctx

def isIVC (f : CAIVCFinder) (candidate : Seed) : Result (Bool × CAIVCFinder) :=
  if ctx.opts.checkWithDebug then do
    let (corr, ivcChecker, vars) ← (debugger ctx).ask f.vars f.ivcChecker
      ((debugger ctx).debugOverGates · (negateGateSet ctx candidate))
    return (!corr.isSome, { f with ivcChecker := ivcChecker, vars := vars })
  else do
    let part ← ctx.tr.ofGates candidate
    let checker ← HybridSafetyChecker.new ctx.opts.hybridIC3BMCKMax f.vars part
    let (safe, checker) ← checker.prove ctx.engines (ctx.fuel checker.ic3)
    return (safe.result == .safe, { f with vars := checker.ic3.vars })

/-- One gate of the loop of `findMCSOverGatesByGrow`. -/
def growWith (mssSet : List ℕ) (p : List ℕ × CAIVCFinder) (gate : ℕ) : Result (List ℕ × CAIVCFinder) :=
  if mssSet.contains gate then return p else do
    let (ivc, f) ← p.2.isIVC ctx (p.1 ++ [gate])
    return (if ivc then p.1 else p.1 ++ [gate], f)

def findMCSOverGatesByGrow (f : CAIVCFinder) (gates : List ℕ) : Result (CorrectionSet × CAIVCFinder) := do
  let mss := negateGateSet ctx gates
  let (mss, f) ← ctx.tr.gateIDs.foldlM (growWith ctx mss) (mss, f)
  return (negateGateSet ctx mss, f)

def findApproxMCSOverGates (f : CAIVCFinder) (gates : List ℕ) : Result (CorrectionSet × CAIVCFinder) := do
  let (result, approxFinder, vars) ← f.approxFinder.findAndBlockOverGates ctx.engines ctx.fuel
    ctx.opts.arBMCKMax ctx.opts.arBMCNMax f.vars gates
  match result with
  | none => throw .assertion
  | some corr => do
    ensure (!corr.isEmpty)
    return (corr, { f with approxFinder := approxFinder, vars := vars })

/-- A turn of the loop of `findMCSOverGates`. -/
def searchOverGates (gates : List ℕ) (f : CAIVCFinder) (n : ℕ) : Result (Option CorrectionSet × CAIVCFinder) := do
  let f ← f.setCardinality ctx n
  let (result, finder, vars) ← f.finder.findAndBlockOverGates (debugger ctx) f.vars gates
  ensure (nonempty result)
  return (result, { f with finder := finder, vars := vars })

/-- The cardinalities start at two, and not to find a set is an assertion failure. -/
def findMCSOverGates (f : CAIVCFinder) (gates : List ℕ) : Result (CorrectionSet × CAIVCFinder) := do
  let (result, f) ← firstFound (searchOverGates ctx gates) (List.range' 2 (gates.length - 1)) f
  match result with
  | none => throw .assertion
  | some corr => return (corr, f)

def findCorrectionSetOverGates (f : CAIVCFinder) (gates : List ℕ) : Result (CorrectionSet × CAIVCFinder) := do
  ensure (!gates.isEmpty)
  if ctx.opts.growMCS then f.findMCSOverGatesByGrow ctx gates
  else if ctx.opts.simpleMCS then return (gates, f)
  else if ctx.opts.approxMCS then f.findApproxMCSOverGates ctx gates
  else f.findMCSOverGates ctx gates

def extractIVC (f : CAIVCFinder) : Result Seed := do
  ensure f.solver.isSAT
  ctx.tr.gateIDs.foldlM (fun mivc gate ↦ do
    ensure (!isNegated gate)
    if ← f.solver.getAssignment gate then
      ensure (!f.necessaryGates.contains gate)
      return mivc ++ [gate]
    else return mivc) f.necessaryGates

def blockMIVC (f : CAIVCFinder) (mivc : Seed) : Result CAIVCFinder :=
  let blockable := mivc.filter (!f.necessaryGates.contains ·)
  f.addClause (if blockable.isEmpty then [idFalse] else negateVec blockable)

def findCandidateMIVC (f : CAIVCFinder) : Result (Option Seed × CAIVCFinder) := do
  let (solver, found) ← { f.solver with vars := f.vars }.doSolve ctx.opts.msu4 ctx.engines.sat
  let f := { f with solver := solver, vars := solver.vars }
  if found then return (some (← f.extractIVC ctx), f) else return (none, f)

def findAndBlockCandidateMIVC (f : CAIVCFinder) : Result (Option Seed × CAIVCFinder) := do
  let (candidate, f) ← f.findCandidateMIVC ctx
  match candidate with
  | some mivc => return (some mivc, ← f.blockMIVC mivc)
  | none => return (none, f)

def passes : ℕ := 2 ^ ctx.tr.gateIDs.length + 1

def upfrontPass (n : ℕ) (f : CAIVCFinder) : Result (CAIVCFinder ⊕ CAIVCFinder) := do
  let (corr, f) ← f.findUpfront ctx n
  match corr with
  | some [gate] => return .inl (f.addNecessary gate)
  | some _ => return .inl f
  | none => return .inr f

def findUpfronts (f : CAIVCFinder) : Result CAIVCFinder :=
  (List.range' 1 ctx.opts.arUpfrontNMax).foldlM (fun f n ↦ loop .outOfFuel (upfrontPass ctx n) (passes ctx) f) f

def refinePass (f : CAIVCFinder) : Result (CAIVCFinder ⊕ CAIVCFinder) := do
  let (candidate, f) ← f.findCandidateMIVC ctx
  match candidate with
  | none => return .inr f
  | some candidate => do
    let (ivc, f) ← f.isIVC ctx candidate
    if ivc then return .inl (← (f.recordMIVC candidate).blockMIVC candidate)
    else do
      let (corr, f) ← f.findCorrectionSetOverGates ctx (negateGateSet ctx candidate)
      return .inl (← f.addClause corr)

def abstractionRefinementFindIVCs (f : CAIVCFinder) : Result CAIVCFinder := do
  let f ← f.findUpfronts ctx
  loop .outOfFuel (refinePass ctx) (passes ctx) f

def collectPass (f : CAIVCFinder) : Result (CAIVCFinder ⊕ CAIVCFinder) := do
  let (corr, f) ← f.findCorrectionSet ctx
  match corr with
  | some [gate] => return .inl (f.addNecessary gate)
  | some corr => return .inl (← f.addClause corr)
  | none => return .inr f

def cardinalityPass (p : CAIVCFinder × ℕ) : Result ((CAIVCFinder × ℕ) ⊕ CAIVCFinder) := do
  let f ← p.1.setCardinality ctx p.2
  let f ← loop .outOfFuel (collectPass ctx) (passes ctx) f
  let (more, f) ← f.moreCorrectionSets ctx
  return if more then .inl (f, p.2 + 1) else .inr f

def mivcPass (f : CAIVCFinder) : Result (CAIVCFinder ⊕ CAIVCFinder) := do
  let (mivc, f) ← f.findAndBlockCandidateMIVC ctx
  match mivc with
  | some mivc => return .inl (f.recordMIVC mivc)
  | none => return .inr f

def naiveFindIVCs (f : CAIVCFinder) : Result CAIVCFinder := do
  let f ← loop .outOfFuel (cardinalityPass ctx) (passes ctx) (f, 1)
  loop .outOfFuel (mivcPass ctx) (passes ctx) f

def doFindIVCs (f : CAIVCFinder) : Result CAIVCFinder :=
  if ctx.tr.bad == idFalse then return { f with toIVCFinder := f.addMIVC [] }
  else if ctx.opts.abstractionRefinement then f.abstractionRefinementFindIVCs ctx
  else f.naiveFindIVCs ctx

end Source

end CAIVCFinder

end PME
