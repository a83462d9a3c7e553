import PME.Aiger

namespace PME

structure Latch where
  id : ℕ
  next : ℕ
  reset : ℕ
deriving DecidableEq

structure AndGate where
  lhs : ℕ
  rhs0 : ℕ
  rhs1 : ℕ
deriving DecidableEq

/-- The virtual method `toCNF` that a derived class may override is the field `gateCNF`. The
maps from IDs to latches and gates are lists in insertion order. -/
structure TransitionRelation where
  bad : ℕ
  latches : List Latch
  gates : List AndGate
  latchIDs : List ℕ
  inputIDs : List ℕ
  gateIDs : List ℕ
  constraints : List ℕ
  gateCNF : AndGate → ClauseVec

def makeEqual (a b : ℕ) : ClauseVec :=
  if b = idTrue then [[a]]
  else if a = idTrue then [[b]]
  else if b = idFalse then [[negate a]]
  else if a = idFalse then [[negate b]]
  else [[a, negate b], [negate a, b]]

def AndGate.toCNF (gate : AndGate) : ClauseVec :=
  [[negate gate.lhs, gate.rhs0], [negate gate.lhs, gate.rhs1],
    [gate.lhs, negate gate.rhs0, negate gate.rhs1]]

namespace TransitionRelation

/-- The members before a constructor's body runs. -/
def empty : TransitionRelation where
  bad := idNull
  latches := []
  gates := []
  latchIDs := []
  inputIDs := []
  gateIDs := []
  constraints := []
  gateCNF := AndGate.toCNF

def createVar (vm : VariableManager) (ext : ℕ) : Result (ℕ × VariableManager) := do
  ensure (!aigerSign ext)
  let (id, vm) ← vm.getNewID ext
  return (← vm.varOf id, vm)

def createInternalVar (vm : VariableManager) : Result (ℕ × VariableManager) := createVar vm 0

def getOrCreateVar (vm : VariableManager) (ext : ℕ) : Result (ℕ × VariableManager) :=
  if vm.isKnownExternal ext then do
    let id ← vm.toInternal ext
    return (← vm.varOf id, vm)
  else createVar vm ext

def createInput (tr : TransitionRelation) (id : ℕ) : Result TransitionRelation := do
  ensure (!tr.inputIDs.contains id)
  return { tr with inputIDs := tr.inputIDs ++ [id] }

def createLatch (tr : TransitionRelation) (id next reset : ℕ) : Result TransitionRelation := do
  ensure (!(tr.latches.map Latch.id).contains id)
  return { tr with latches := tr.latches ++ [⟨id, next, reset⟩], latchIDs := tr.latchIDs ++ [id] }

def createSymbols (vm : VariableManager) (syms : List ℕ) : Result VariableManager :=
  syms.foldlM (fun vm lit ↦ do return (← getOrCreateVar vm (aigerStrip lit)).2) vm

def processAnd (s : TransitionRelation × VariableManager) (and : AigerAnd) :
    Result (TransitionRelation × VariableManager) := do
  let (tr, vm) := s
  let (_, vm) ← getOrCreateVar vm (aigerStrip and.lhs)
  let (_, vm) ← getOrCreateVar vm (aigerStrip and.rhs0)
  let (_, vm) ← getOrCreateVar vm (aigerStrip and.rhs1)
  let l ← vm.toInternal and.lhs
  let r0 ← vm.toInternal and.rhs0
  let r1 ← vm.toInternal and.rhs1
  -- inserting a key that is present leaves the map as it is
  let gates := if (tr.gates.map AndGate.lhs).contains l then tr.gates else tr.gates ++ [⟨l, r0, r1⟩]
  return ({ tr with gates := gates, gateIDs := tr.gateIDs ++ [l] }, vm)

def processLatch (s : TransitionRelation × VariableManager) (latch : AigerLatch) :
    Result (TransitionRelation × VariableManager) := do
  let (tr, vm) := s
  ensure (!aigerSign latch.lit)
  let resetID := if latch.reset = 0 then idFalse else if latch.reset = 1 then idTrue else idNull
  let (varp, vm) ← getOrCreateVar vm (aigerStrip latch.next)
  let nextID := if aigerSign latch.next then negate varp else varp
  let latchID ← vm.toInternal latch.lit
  return (← tr.createLatch latchID nextID resetID, vm)

def processInput (vm : VariableManager) (tr : TransitionRelation) (lit : ℕ) :
    Result TransitionRelation := do
  ensure (!aigerSign lit)
  tr.createInput (← vm.toInternal lit)

def processConstraints (vm : VariableManager) (tr : TransitionRelation) (lits : List ℕ) :
    Result TransitionRelation := do
  return { tr with constraints := tr.constraints ++ (← lits.mapM vm.toInternal) }

def buildModel (vm : VariableManager) (aig : Aiger) :
    Result (TransitionRelation × VariableManager) := do
  let vm ← createSymbols vm aig.inputs
  let vm ← createSymbols vm (aig.latches.map AigerLatch.lit)
  let s ← aig.ands.foldlM processAnd (empty, vm)
  let (tr, vm) ← aig.latches.foldlM processLatch s
  let tr ← aig.inputs.foldlM (processInput vm) tr
  let tr ← processConstraints vm tr aig.constraints
  return (tr, vm)

/-- The constructor that takes the first output as the bad signal. -/
def fromAiger (vm : VariableManager) (aig : Aiger) :
    Result (TransitionRelation × VariableManager) :=
  match aig.outputs with
  | [] => throw .assertion
  | output :: _ => do
    let (tr, vm) ← buildModel vm aig
    return ({ tr with bad := ← vm.toInternal output }, vm)

def fromProperty (vm : VariableManager) (aig : Aiger) (property : ℕ) :
    Result (TransitionRelation × VariableManager) := do
  ensure (decide (property ≤ aig.maxvar * 2 + 1))
  let (tr, vm) ← buildModel vm aig
  return ({ tr with bad := ← vm.toInternal property }, vm)

def property (tr : TransitionRelation) : ℕ := negate tr.bad

def propertyClause (tr : TransitionRelation) : Clause := [negate tr.bad]

def toCNF (tr : TransitionRelation) : ClauseVec := tr.gates.flatMap tr.gateCNF

def addTimeFrame (tr : TransitionRelation) (n : ℕ) (cnf : ClauseVec) : ClauseVec :=
  primeClauses cnf n ++
    tr.latches.flatMap fun latch ↦ makeEqual (prime latch.next n) (prime latch.id (n + 1))

def constrainTimeFrame (tr : TransitionRelation) (n : ℕ) : ClauseVec :=
  tr.constraints.map fun lit ↦ [prime lit n]

def unrollFrame (tr : TransitionRelation) (n : ℕ) : ClauseVec :=
  tr.addTimeFrame n tr.toCNF ++ tr.constrainTimeFrame n

def unroll (tr : TransitionRelation) (n : ℕ) : ClauseVec :=
  (List.range n).flatMap fun i ↦ tr.addTimeFrame i tr.toCNF ++ tr.constrainTimeFrame i

def initState (tr : TransitionRelation) : ClauseVec :=
  tr.latches.flatMap fun latch ↦
    if latch.reset = idNull then [] else makeEqual latch.id latch.reset

def unrollWithInit (tr : TransitionRelation) (n : ℕ) : ClauseVec := tr.unroll n ++ tr.initState

end TransitionRelation

end PME
