import PME.Lib.Journal
import PME.IC3.UNSATCoreLifter

namespace PME.IC3

open Outcome Journal

structure ProofObligation where
  level : ℕ
  cti : Cube
  concreteState : Cube
  inputs : Cube
  mayDegree : ℕ
  parent : Option ℕ

def obligationComparator (lhs rhs : ProofObligation) : Bool :=
  if lhs.level ≠ rhs.level then decide (lhs.level > rhs.level)
  else if lhs.cti.length ≠ rhs.cti.length then decide (lhs.cti.length > rhs.cti.length)
  else if lhs.mayDegree ≠ rhs.mayDegree then decide (lhs.mayDegree > rhs.mayDegree)
  else decide (lhs.cti > rhs.cti)

/-- A priority queue leaves open which of several equal obligations it pops first. -/
structure Engines extends Backend where
  pick : List ℕ → ℕ
  pick_mem : ∀ l, l ≠ [] → pick l ∈ l

structure IC3Solver where
  vars : VariableManager
  tr : TransitionRelation
  trace : InductiveTrace
  /-- The pool of obligations in the order in which they were made. -/
  obls : List ProofObligation
  cons : FrameSolver
  lift : UNSATCoreLifter
  initConstraints : List Cube

inductive Label
  /-- A lemma has been added or pushed, or a query made. -/
  | changed
  /-- A lemma has been moved in the middle of `pushFrameToInf`. -/
  | moving
  /-- `pushFrameToInf` has ended. -/
  | promoted
  /-- An obligation is handled. -/
  | popped (obl : ProofObligation)
  /-- A step of generalization has dropped a literal from the cube. -/
  | dropped (lit : ℕ) (s : Cube)

structure Event where
  label : Label
  solver : IC3Solver

abbrev IC3M := Journal Event Failure IC3Solver

inductive BlockResult
  | blocked (level : ℕ) (cti : Cube)
  | predecessor (cti concreteState inputs primedInputs : Cube)

def check (b : Bool) : IC3M Unit := Journal.lift (ensure b)

def record (label : Label) : IC3M Unit := emit fun s ↦ ⟨label, s⟩

def upperBound (c : Cube) (lit : ℕ) : ℕ := (c.takeWhile (· ≤ lit)).length

def isSorted (c : Cube) : Bool := decide (c.Pairwise (· ≤ ·))

/-- The loop of `subsumes`, which looks for each literal where it found the one before. -/
def subsumesFrom : Cube → Cube → Bool
  | [], _ => true
  | lit :: a, b =>
    match b.dropWhile (· != lit) with
    | [] => false
    | lit' :: b => subsumesFrom a (lit' :: b)

def subsumes (a b : Cube) : Result Bool := do
  ensure (isSorted a)
  ensure (isSorted b)
  if a.length > b.length then return false else return subsumesFrom a b

namespace IC3Solver

def getFrameCubes (s : IC3Solver) (level : Level) : Result (List Cube) := do
  if s.trace.frames.frameExists level then
    (← s.trace.getFrame level).mapM s.trace.cubeOf
  else return []

def resetSAT (s : IC3Solver) : IC3Solver :=
  { s with cons := .new s.tr, lift := .new s.tr }

def addInitial (trace : InductiveTrace) (cube : Cube) : Result InductiveTrace := do
  if ← trace.lemmaIsActive cube then return trace else return (← trace.addLemma cube (.fin 0)).2

def initializeSolver (s : IC3Solver) : Result IC3Solver := do
  let trace ← (s.tr.initState.map negateVec).foldlM addInitial s.trace
  let trace ← s.initConstraints.foldlM addInitial trace
  return { s with trace := trace }.resetSAT

def new (vars : VariableManager) (tr : TransitionRelation) : Result IC3Solver :=
  initializeSolver {
    vars := vars
    tr := tr
    trace := .new
    obls := []
    cons := .new tr
    lift := .new tr
    initConstraints := [] }

def initialStatesExpanded (s : IC3Solver) : Result IC3Solver :=
  { s with trace := s.trace.clear }.initializeSolver

def initialStatesRestricted (s : IC3Solver) : Result IC3Solver := s.initializeSolver

def clearRestrictions (s : IC3Solver) : IC3Solver := { s with initConstraints := [] }

def restrictInitialStates (s : IC3Solver) (cls : Clause) : Result IC3Solver := do
  ensure (!cls.isEmpty)
  return { s with initConstraints := s.initConstraints ++ [sortCube (negateVec cls)] }

def restrictInitialStatesAll (s : IC3Solver) (vec : ClauseVec) : Result IC3Solver :=
  vec.foldlM restrictInitialStates s

variable (E : Engines)

def ask {α : Type} (query : Backend → VariableManager → InductiveTrace → FrameSolver →
    Result (α × VariableManager × FrameSolver)) : IC3M α := do
  let s ← get
  let (answer, vars, cons) ← Journal.lift (query E.toBackend s.vars s.trace s.cons)
  set { s with vars := vars, cons := cons }
  record .changed
  return answer

def addLemma (c : Cube) (level : Level) : IC3M LemmaID := do
  let s ← get
  let (id, trace) ← Journal.lift (s.trace.addLemma c level)
  let (vars, cons) ← Journal.lift (s.cons.addLemma s.vars trace id)
  set { s with trace := trace, vars := vars, cons := cons }
  return id

def addClausalLemma (c : Clause) (level : Level) : IC3M LemmaID := addLemma (negateVec c) level

def addClausalLemmas (s : IC3Solver) (vec : ClauseVec) (level : Level) : Result IC3Solver :=
  vec.foldlM (fun s cls ↦ do return (← (addClausalLemma cls level s).2).2) s

def pushLemma (id : LemmaID) (level : Level) : IC3M Unit := do
  let s ← get
  let trace ← Journal.lift (s.trace.pushLemma id level)
  let (vars, cons) ← Journal.lift (s.cons.addLemma s.vars trace id)
  set { s with trace := trace, vars := vars, cons := cons }

def pushFramesToInf (level : ℕ) : ℕ → IC3M Unit
  | 0 => return ()
  | i + 1 =>
    if level ≤ i then do
      let s ← get
      let frame ← Journal.lift (s.trace.getFrame (.fin i))
      frame.forM fun id ↦ do
        pushLemma id .inf
        record .moving
      pushFramesToInf level i
    else return ()

def pushFrameToInf (level : ℕ) : IC3M Unit := do
  check (decide (0 < level))
  let s ← get
  pushFramesToInf level s.trace.numFrames
  let s ← get
  let trace ← Journal.lift s.trace.clearUnusedFrames
  set { s with trace := trace }
  check (decide (trace.numFrames = level))
  record .promoted

def initiation (s : Cube) : IC3M Bool :=
  if s.isEmpty then return false else do
    return !(← ask E fun B vm trace cons ↦ cons.intersection B vm trace (.fin 0) s)

def agree (s t : Cube) (sIt tIt : ℕ) : ℕ :=
  (((s.drop sIt).zip (t.drop tIt)).takeWhile fun p ↦ p.1 == p.2).length

/-- The loop of `reinitiate`. -/
def reinitiateLoop (s : Cube) : ℕ → Cube → ℕ → ℕ → IC3M Cube
  | 0, _, _, _ => throw .outOfFuel
  | n + 1, t, sIt, tIt =>
    if tIt = t.length then return t else do
      check (decide (sIt = s.length ∨ t.getD tIt 0 ≤ s.getD sIt 0))
      let common := agree s t sIt tIt
      let sIt := sIt + common
      let tIt := tIt + common
      if tIt = t.length then return t else do
        let lit := t.getD tIt 0
        let tCopy := t.eraseIdx tIt
        let (t, tIt) ← (do
          if ← initiation E tCopy then return (tCopy, upperBound tCopy lit)
          else return (t, tIt + 1) : IC3M (Cube × ℕ))
        let sIt := if sIt ≠ s.length ∧ tIt ≠ t.length ∧ s.getD sIt 0 < t.getD tIt 0 then
          upperBound s lit else sIt
        reinitiateLoop s n t sIt tIt

def reinitiate (s orig : Cube) : IC3M Cube := do
  check (decide (s.length < orig.length))
  check (isSorted s)
  check (isSorted orig)
  check (← initiation E orig)
  let t ← reinitiateLoop E s (orig.length + 1) orig 0 0
  check (← initiation E t)
  return t

def initiate (s orig : Cube) : IC3M Cube := do
  check (isSorted s)
  let s ← (do if ← initiation E s then return s else reinitiate E s orig : IC3M Cube)
  check (← initiation E s)
  return s

/-- The loop of `generalizeIteration`, for lemmas that hold relative to this level. -/
def generalizeLoop (k : ℕ) : ℕ → Cube → ℕ → IC3M Cube
  | 0, _, _ => throw .outOfFuel
  | n + 1, s, it =>
    if it ≠ s.length ∧ s.length > 1 then do
      let lit := s.getD it 0
      let sCopy := s.eraseIdx it
      if ← initiation E sCopy then do
        match ← ask E fun B vm trace cons ↦ cons.consecutionCore B vm trace (.fin k) sCopy with
        | some core => do
          let s ← initiate E (sortCube core) s
          check (isSorted s)
          record (.dropped lit s)
          generalizeLoop k n s (upperBound s lit)
        | none => generalizeLoop k n s (it + 1)
      else generalizeLoop k n s (it + 1)
    else return s

def generalizeIteration (s : Cube) (level : ℕ) : IC3M Cube :=
  generalizeLoop E (level - 1) (s.length + 1) s 0

/-- The loop of `generalize`. -/
def generalizeAll (level : ℕ) : ℕ → Cube → IC3M Cube
  | 0, _ => throw .outOfFuel
  | n + 1, s => do
    let s' ← generalizeIteration E s level
    check (decide (s'.length ≤ s.length))
    if s'.length = s.length then return s' else generalizeAll level n s'

def generalize (s : Cube) (level : ℕ) : IC3M Cube := do
  check (decide (level > 0))
  generalizeAll E level (s.length + 1) (sortCube s)

def liftCube (pred succ inp pinp : Cube) : IC3M Cube := do
  let s ← get
  let (lifted, ul) ← Journal.lift (s.lift.lift E.toBackend s.trace pred succ inp pinp)
  set { s with lift := ul }
  return lifted

def block (target : Cube) (level : ℕ) : IC3M BlockResult :=
  if level = 0 then return .predecessor [] [] [] [] else do
    match ← ask E fun B vm trace cons ↦ cons.consecutionFull B vm trace (.fin (level - 1)) target with
    | .holds core => do
      let core ← initiate E (sortCube core) target
      let core ← generalize E core level
      check (← initiation E core)
      return .blocked level core
    | .fails t inp pinp => do
      check (!t.isEmpty)
      let lifted ← liftCube E t target inp pinp
      check (!lifted.isEmpty)
      return .predecessor lifted t inp pinp

def frameBlocks (trace : InductiveTrace) (target : Cube) (level : Level) : Result Bool := do
  let frame ← trace.getFrame level
  frame.foldlM (fun found id ↦ do
    if found then return true else subsumes (← trace.cubeOf id) target) false

def syntacticBlock (trace : InductiveTrace) (target : Cube) (level : ℕ) : Result Bool := do
  let found ← (List.range' level (trace.numFrames - level)).foldlM
    (fun found k ↦ if found then return true else frameBlocks trace target (.fin k)) false
  if found then return true else frameBlocks trace target .inf

def newObligation (obl : ProofObligation) : IC3M ℕ := do
  let s ← get
  set { s with obls := s.obls ++ [obl] }
  return s.obls.length

def modifyObligation (i : ℕ) (change : ProofObligation → ProofObligation) : IC3M Unit := do
  let s ← get
  set { s with obls := s.obls.modify i change }

def popObligation (obls : List ProofObligation) (q : List ℕ) : Option (ℕ × ProofObligation × List ℕ) :=
  let first := q.filter fun i ↦ q.all fun j ↦
    match obls[i]?, obls[j]? with
    | some a, some b => !obligationComparator a b
    | _, _ => true
  let i := E.pick first
  if q.isEmpty then none else (obls[i]?).map fun obl ↦ (i, obl, q.erase i)

def buildCex (obls : List ProofObligation) : ℕ → Option ℕ → SafetyCounterExample
  | 0, _ => []
  | _ + 1, none => []
  | n + 1, some i =>
    match obls[i]? with
    | none => []
    | some obl =>
      ⟨sortCube obl.inputs, sortCube obl.concreteState⟩ :: buildCex obls n obl.parent

/-- The loop of `recursiveBlock` over its queue. -/
def blockQueue (targetLevel : ℕ) : ℕ → List ℕ → IC3M (Option SafetyCounterExample)
  | 0, _ => throw .outOfFuel
  | n + 1, q => do
    let s ← get
    match popObligation E s.obls q with
    | none => return none
    | some (i, obl, q) => do
      record (.popped obl)
      check (obl.mayDegree == 0)
      check (isSorted obl.cti)
      if obl.level = 0 then return some (buildCex s.obls s.obls.length (some i)) else do
        if ← Journal.lift (syntacticBlock s.trace obl.cti obl.level) then
          blockQueue targetLevel n q
        else do
          match ← block E obl.cti obl.level with
          | .blocked g t => do
            check (decide (g ≥ obl.level))
            let _ ← addLemma t (.fin g)
            record .changed
            if g < targetLevel then do
              modifyObligation i fun obl ↦ { obl with level := g + 1 }
              blockQueue targetLevel n (i :: q)
            else blockQueue targetLevel n q
          | .predecessor t conc inp pinp => do
            let j ← newObligation ⟨obl.level - 1, sortCube t, conc, inp, 0, some i⟩
            modifyObligation i fun obl ↦ if obl.inputs.isEmpty then { obl with inputs := pinp } else obl
            blockQueue targetLevel n (i :: j :: q)

def recursiveBlock (fuel : ℕ) (target : Cube) (targetLevel : ℕ) : IC3M (Option SafetyCounterExample) := do
  let root ← newObligation ⟨targetLevel, target, [], [], 0, none⟩
  blockQueue E targetLevel fuel [root]

def pushAll (k : ℕ) : List LemmaID → IC3M ℕ
  | [] => return 0
  | id :: ids => do
    let s ← get
    let c ← Journal.lift (s.trace.cubeOf id)
    if ← ask E fun B vm trace cons ↦ cons.consecution B vm trace (.fin k) c then do
      pushLemma id (.fin (k + 1))
      record .changed
      return (← pushAll k ids) + 1
    else pushAll k ids

/-- The loop of `pushLemmas` from frame `k` on. There may be more frames after each pass. -/
def pushLemmasFrom : ℕ → ℕ → IC3M Unit
  | 0, _ => throw .outOfFuel
  | n + 1, k => do
    let s ← get
    if k < s.trace.numFrames then do
      let frame ← Journal.lift (s.trace.getFrame (.fin k))
      let pushed ← pushAll E k frame
      if pushed = frame.length then pushFrameToInf k else pushLemmasFrom n (k + 1)
    else return ()

def pushLemmas : IC3M Unit := do
  let s ← get
  pushLemmasFrom E (s.trace.numFrames + s.trace.lemmas.length + 1) 1

def checkInitial (target : Cube) : IC3M (Option SafetyCounterExample) := do
  match ← ask E fun B vm trace cons ↦ cons.intersectionFull B vm trace (.fin 0) target with
  | some (state, inputs) => return some [⟨inputs, state⟩]
  | none => return none

def isSafe (target : Cube) : IC3M Bool := do
  let s ← get
  let atInf ← Journal.lift (if s.trace.lemmaExists target then do
      return (← s.trace.getLemmaOf target).level == .inf else return false : Result Bool)
  if atInf then return true else do
    return !(← ask E fun B vm trace cons ↦ cons.intersection B vm trace .inf target)

def recordProof (s : IC3Solver) : Result ClauseVec := do
  (← s.trace.getFrame .inf).mapM fun id ↦ do return negateVec (← s.trace.cubeOf id)

/-- The main loop of `prove`. -/
def proveFrom (fuel : ℕ) (target : Cube) : ℕ → ℕ → IC3M (Option SafetyCounterExample)
  | 0, _ => throw .outOfFuel
  | n + 1, k => do
    if ← isSafe E target then return none else do
      match ← recursiveBlock E fuel target k with
      | some cex => return some cex
      | none => do
        let s ← get
        set { s with obls := [] }
        pushLemmas E
        let s ← get
        let level ← Journal.lift (s.trace.levelOf target)
        check (decide (.fin k ≤ level))
        match level with
        | .inf => return none
        | .fin level => proveFrom fuel target n (level + 1)

/-- `prove` for any target cube. -/
def proveTarget (fuel : ℕ) (target : Cube) : IC3M SafetyResult := do
  match ← checkInitial E target with
  | some cex => return ⟨.unsafeAt, [], cex⟩
  | none => do
    match ← proveFrom E fuel target fuel 1 with
    | some cex => return ⟨.unsafeAt, [], cex⟩
    | none => do
      let s ← get
      return ⟨.safe, ← Journal.lift s.recordProof, []⟩

def prove (fuel : ℕ) : IC3M SafetyResult := do
  let s ← get
  proveTarget E fuel [s.tr.bad]

end IC3Solver

end PME.IC3
