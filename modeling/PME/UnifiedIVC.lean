import PME.IVC

namespace PME

open Outcome Exploration Explored

/-- The virtual functions of `CorrectionSetFinder` that the search uses, for a state of type
`F`. The result of `findNext` is `none` for the pair of the source with first component false. -/
structure CorrectionSetFinder (F : Type) where
  findNext : F → List ℕ → Result (Option Seed × F)
  findAll : F → ℕ → Result (List Seed × F)
  findBatch : F → ℕ → Result (List Seed × F)

structure UnifiedIVCOptions where
  upfrontNMax : ℕ
  directionDown : Bool
  directionUp : Bool
  mcsGrow : Bool
  checkMap : Bool
  skipUC : Bool

/-- The constant `UINFINITY`. -/
def uInfinity : ℕ := 2 ^ 32 - 1

/-- What the finder works with. `checker` is the part of `isSafe` that checks, given what is
expected, and `shrinkUC` leaves out gates by unsatisfiable cores of a proof. -/
structure UnifiedIVCContext (M F : Type) where
  opts : UnifiedIVCOptions
  tr : TransitionRelation
  mapSolver : MapSolver M
  sat : SAT.Solver
  csFinder : CorrectionSetFinder F
  checker : Seed → Bool → Bool
  shrinkUC : Seed → Seed

structure UnifiedIVCFinder (M F : Type) extends IVCFinder where
  map : M
  checkMap : SATArbitraryMapSolver
  csFinder : F
  smallestIVC : Seed
  mivcLB : ℕ
  seedCount : ℕ

namespace UnifiedIVCFinder

variable {M F : Type}

def new (tr : TransitionRelation) (map : M) (csFinder : F) : UnifiedIVCFinder M F where
  toIVCFinder := .new
  map := map
  checkMap := .new (idSet tr.gateIDs)
  csFinder := csFinder
  smallestIVC := []
  mivcLB := 0
  seedCount := 0

section Source

variable (ctx : UnifiedIVCContext M F)

def shouldCheckSafety : Bool := decide (ctx.opts.upfrontNMax < ctx.tr.gates.length)

def isSafe (seed : Seed) (expectSafe : Bool) : Bool :=
  if !shouldCheckSafety ctx then true else ctx.checker seed expectSafe

def negateSeed (seed : Seed) : Seed := negateGates ctx.tr.gateIDs seed

def mapKnows (seed : Seed) (f : UnifiedIVCFinder M F) : Result (Bool × UnifiedIVCFinder M F) :=
  if ctx.opts.checkMap then
    let (sat, checkMap) := f.checkMap.checkSeed ctx.sat seed
    return (!sat, { f with checkMap := checkMap })
  else return (false, f)

/-- The test of the loop of `shrink`. -/
def removable (seed : Seed) (f : UnifiedIVCFinder M F) : Result (Bool × UnifiedIVCFinder M F) := do
  let (known, f) ← mapKnows ctx seed f
  return (!known && isSafe ctx seed true, f)

def shrink (f : UnifiedIVCFinder M F) (seed : Seed) : Result (Seed × UnifiedIVCFinder M F) :=
  let seed := if ctx.opts.skipUC then seed else ctx.shrinkUC seed
  shrinkFrom (removable ctx) [] seed f

/-- The loop of `growByBruteForce` over the gates that were not in the seed at first. -/
def growFrom (seedSet : Seed) :
    List ℕ → Seed → UnifiedIVCFinder M F → Result (Seed × UnifiedIVCFinder M F)
  | [], seed, f => return (seed, f)
  | gate :: gates, seed, f =>
    if seedSet.contains gate then growFrom seedSet gates seed f
    else do
      let (known, f) ← mapKnows ctx (seed ++ [gate]) f
      if known || isSafe ctx (seed ++ [gate]) false then growFrom seedSet gates seed f
      else growFrom seedSet gates (seed ++ [gate]) f

def growByBruteForce (f : UnifiedIVCFinder M F) (seed : Seed) :
    Result (Seed × UnifiedIVCFinder M F) := growFrom ctx seed ctx.tr.gateIDs seed f

def growByMCS (f : UnifiedIVCFinder M F) (seed : Seed) :
    Result (Seed × UnifiedIVCFinder M F) := do
  let (corr, csFinder) ← ctx.csFinder.findNext f.csFinder (negateSeed ctx seed)
  ensure corr.isSome
  let corr := corr.getD []
  ensure (!corr.isEmpty)
  return (negateSeed ctx corr, { f with csFinder := csFinder })

def grow (f : UnifiedIVCFinder M F) (seed : Seed) : Result (Seed × UnifiedIVCFinder M F) :=
  if ctx.opts.mcsGrow then growByMCS ctx f seed else growByBruteForce ctx f seed

def blockUp (f : UnifiedIVCFinder M F) (seed : Seed) : Result (UnifiedIVCFinder M F) := do
  let map ← ctx.mapSolver.blockUp f.map seed
  let checkMap ← (SATArbitraryMapSolver.solver ctx.sat).blockUp f.checkMap seed
  return { f with map := map, checkMap := checkMap }

def blockDown (f : UnifiedIVCFinder M F) (seed : Seed) : Result (UnifiedIVCFinder M F) := do
  let map ← ctx.mapSolver.blockDown f.map seed
  let checkMap ← (SATArbitraryMapSolver.solver ctx.sat).blockDown f.checkMap seed
  return { f with map := map, checkMap := checkMap }

def refineSafe (f : UnifiedIVCFinder M F) (seed : Seed) (doShrink : Bool) :
    Result (Seed × UnifiedIVCFinder M F) := do
  let (seed, f) ← (if doShrink then shrink ctx f seed else pure (seed, f))
  let f ← f.blockUp ctx seed
  return (seed, f)

def refineUnsafe (f : UnifiedIVCFinder M F) (seed : Seed) (doGrow : Bool) :
    Result (UnifiedIVCFinder M F) := do
  let (seed, f) ← (if doGrow then grow ctx f seed else pure (seed, f))
  f.blockDown ctx seed

def recordMIVC (f : UnifiedIVCFinder M F) (mivc : Seed) : UnifiedIVCFinder M F :=
  { f with
    toIVCFinder := f.addMIVC mivc
    smallestIVC := smallerIVC f.smallestIVC mivc }

/-- `setMinimumIVC`, unless a minimum is known. -/
def setMinimumUnlessKnown (f : UnifiedIVCFinder M F) (seed : Seed) : UnifiedIVCFinder M F :=
  if f.minimumIVCKnown then f else { f with toIVCFinder := f.setMinimumIVC seed }

/-- The lower bound is an `unsigned`. -/
def raiseLB (f : UnifiedIVCFinder M F) (seed : Seed) (isMinimal : Bool) : UnifiedIVCFinder M F :=
  if isMinimal then { f with mivcLB := seed.length % 2 ^ 32 } else f

def handleSeed (f : UnifiedIVCFinder M F) (seed : Seed) (isMinimal isMaximal : Bool) :
    Result (UnifiedIVCFinder M F) := do
  ensure (!isMinimal || !isMaximal)
  ensure (decide (f.mivcLB ≤ seed.length))
  let f := f.raiseLB seed isMinimal
  if isSafe ctx seed isMaximal then
    let f := if isMinimal then f.setMinimumUnlessKnown seed else f
    let (mivc, f) ← f.refineSafe ctx seed (!isMinimal)
    let f := f.recordMIVC mivc
    ensure (decide (f.mivcLB ≤ mivc.length))
    return if mivc.length == f.mivcLB then f.setMinimumUnlessKnown mivc else f
  else f.refineUnsafe ctx seed (!isMaximal)

def getUnexploredWith (find : M → Result (Option Seed × M)) (isMinimal isMaximal : Bool)
    (f : UnifiedIVCFinder M F) : Result (UnifiedIVCFinder M F ⊕ UnifiedIVCFinder M F) := do
  let (found, map) ← find f.map
  let f := { f with map := map }
  match found with
  | none => return .inr f
  | some seed => return .inl (← f.handleSeed ctx seed isMinimal isMaximal)

def getUnexploredMin (f : UnifiedIVCFinder M F) :
    Result (UnifiedIVCFinder M F ⊕ UnifiedIVCFinder M F) :=
  f.getUnexploredWith ctx ctx.mapSolver.findMinimalSeed true false

def getUnexploredMax (f : UnifiedIVCFinder M F) :
    Result (UnifiedIVCFinder M F ⊕ UnifiedIVCFinder M F) :=
  f.getUnexploredWith ctx ctx.mapSolver.findMaximalSeed false true

def getUnexploredArb (f : UnifiedIVCFinder M F) :
    Result (UnifiedIVCFinder M F ⊕ UnifiedIVCFinder M F) :=
  f.getUnexploredWith ctx ctx.mapSolver.findSeed false false

def countSeed (f : UnifiedIVCFinder M F) : UnifiedIVCFinder M F :=
  { f with seedCount := (f.seedCount + 1) % 2 ^ 32 }

def getUnexplored (f : UnifiedIVCFinder M F) :
    Result (UnifiedIVCFinder M F ⊕ UnifiedIVCFinder M F) := do
  let found ←
    if f.seedCount % 2 == 0 then
      if ctx.opts.directionDown then f.getUnexploredMax ctx
      else if ctx.opts.directionUp then f.getUnexploredMin ctx
      else f.getUnexploredArb ctx
    else
      if ctx.opts.directionUp then f.getUnexploredMin ctx
      else if ctx.opts.directionDown then f.getUnexploredMax ctx
      else f.getUnexploredArb ctx
  return found.map countSeed countSeed

def findMCSesUpfront (f : UnifiedIVCFinder M F) : Result (UnifiedIVCFinder M F) := do
  let (upfront, csFinder) ←
    (if ctx.opts.upfrontNMax == uInfinity
      then ctx.csFinder.findAll f.csFinder ctx.opts.upfrontNMax
      else ctx.csFinder.findBatch f.csFinder ctx.opts.upfrontNMax)
  upfront.foldlM (fun f corr ↦ do
    ensure (!corr.isEmpty)
    f.blockDown ctx (negateSeed ctx corr)) { f with csFinder := csFinder }

/-- Each pass blocks a seed, so that there are no more than the gates have subsets. -/
def doFindIVCs (f : UnifiedIVCFinder M F) : Result (UnifiedIVCFinder M F) :=
  if ctx.tr.bad == idFalse then return { f with toIVCFinder := f.addMIVC [] }
  else do
    let f ← f.findMCSesUpfront ctx
    let f ← loop .outOfFuel (getUnexplored ctx) (2 ^ ctx.tr.gateIDs.length + 1) f
    return f.setMinimumUnlessKnown f.smallestIVC

end Source

end UnifiedIVCFinder

end PME
