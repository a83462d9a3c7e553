import PME.MaxSATSession

namespace PME

open Outcome

abbrev Seed := List ℕ

/-- The IDs of a map are listed in increasing order, the order of the `std::set` of the source.
The assertions are `assert(!is_negated(id))`. -/
def downClause (ids : List ℕ) (seed : Seed) : Result Clause :=
  ids.foldlM (fun cls id ↦ do
    ensure (!isNegated id)
    return if seed.contains id then cls else cls ++ [id]) []

def upClause (seed : Seed) : Result Clause :=
  seed.foldlM (fun cls id ↦ do
    ensure (!isNegated id)
    return cls ++ [negate id]) []

/-- The class `MapSolver` with its virtual functions, for a state of type `M`. The result of
a search is `none` for the pair of the source with first component false. -/
structure MapSolver (M : Type) where
  ids : M → List ℕ
  addClauseToSolver : M → Clause → Result M
  findSeed : M → Result (Option Seed × M)
  findMinimalSeed : M → Result (Option Seed × M)
  findMaximalSeed : M → Result (Option Seed × M)
  checkSeed : M → Seed → Result (Bool × M)

namespace MapSolver

variable {M : Type}

def nonemptyClause (cls : Clause) : Clause := if cls.isEmpty then [idFalse] else cls

def blockUp (V : MapSolver M) (x : M) (seed : Seed) : Result M := do
  let cls ← upClause seed
  V.addClauseToSolver x (nonemptyClause cls)

def blockDown (V : MapSolver M) (x : M) (seed : Seed) : Result M := do
  let cls ← downClause (V.ids x) seed
  V.addClauseToSolver x (nonemptyClause cls)

def addClause (V : MapSolver M) (x : M) (cls : Clause) : Result M := V.addClauseToSolver x cls

end MapSolver

def seedAssumps (ids : List ℕ) (seed : Seed) : Cube :=
  ids.map fun id ↦ if seed.contains id then id else negate id

structure SATArbitraryMapSolver where
  ids : List ℕ
  map : SATAdaptor

namespace SATArbitraryMapSolver

def new (ids : List ℕ) : SATArbitraryMapSolver := ⟨ids, SATAdaptor.new⟩

def addClauseToSolver (x : SATArbitraryMapSolver) (cls : Clause) :
    Result SATArbitraryMapSolver := do
  let map ← x.map.addClause cls
  return { x with map := map }

def extractSeed (x : SATArbitraryMapSolver) (m : Assignment) : Result Seed :=
  x.ids.foldlM (fun seed id ↦ do
    ensure (!isNegated id)
    return if x.map.safeGetAssignment m id != some false then seed ++ [id] else seed) []

def findSeed (S : SAT.Solver) (x : SATArbitraryMapSolver) :
    Result (Option Seed × SATArbitraryMapSolver) := do
  let (answer, map) := x.map.solve S []
  let x := { x with map := map }
  match answer with
  | .sat m => return (some (← x.extractSeed m), x)
  | .unsat _ => return (none, x)

def checkSeed (S : SAT.Solver) (x : SATArbitraryMapSolver) (seed : Seed) :
    Bool × SATArbitraryMapSolver :=
  let (answer, map) := x.map.solve S (seedAssumps x.ids seed)
  (answer.isSat, { x with map := map })

/-- The other searches throw `std::logic_error`. -/
def solver (S : SAT.Solver) : MapSolver SATArbitraryMapSolver where
  ids := ids
  addClauseToSolver := addClauseToSolver
  findSeed := findSeed S
  findMinimalSeed _ := throw .exception
  findMaximalSeed _ := throw .exception
  checkSeed x seed := return x.checkSeed S seed

end SATArbitraryMapSolver

structure MSU4MapSolver where
  ids : List ℕ
  map : MSU4MaxSATSolver
  mapInited : Bool

namespace MSU4MapSolver

def new (vm : VariableManager) (ids : List ℕ) : MSU4MapSolver := ⟨ids, .new vm, false⟩

def addClauseToSolver (x : MSU4MapSolver) (cls : Clause) : Result MSU4MapSolver := do
  let map ← x.map.addClause cls
  return { x with map := map }

/-- `initSolver` of the two subclasses: each ID is optimized with the sign of the subclass. -/
def initSolver (sign : ℕ → ℕ) (x : MSU4MapSolver) : Result MSU4MapSolver := do
  let map ← x.ids.foldlM (fun map id ↦ map.addForOptimization (sign id)) x.map
  return { x with map := map }

def initIfNecessary (sign : ℕ → ℕ) (x : MSU4MapSolver) : Result MSU4MapSolver := do
  let x ← (if x.mapInited then pure x else x.initSolver sign)
  return { x with mapInited := true }

def extractSeed (x : MSU4MapSolver) : Result Seed := do
  ensure x.map.isSAT
  x.ids.foldlM (fun seed id ↦ do
    ensure (!isNegated id)
    let value ← x.map.getAssignment id
    return if value then seed ++ [id] else seed) []

def find (o : MSU4Options) (S : SAT.Solver) (sign : ℕ → ℕ) (x : MSU4MapSolver) :
    Result (Option Seed × MSU4MapSolver) := do
  let x ← x.initIfNecessary sign
  let (map, sat) ← x.map.doSolve o S
  let x := { x with map := map }
  if sat then return (some (← x.extractSeed), x) else return (none, x)

def checkSeed (S : SAT.Solver) (x : MSU4MapSolver) (seed : Seed) : Bool × MSU4MapSolver :=
  let (map, sat) := x.map.doCheck S (seedAssumps x.ids seed)
  (sat, { x with map := map })

def withVars (x : MSU4MapSolver) (vm : VariableManager) : MSU4MapSolver :=
  { x with map := { x.map with vars := vm } }

end MSU4MapSolver

namespace MSU4MaximalMapSolver

def findMaximalSeed (o : MSU4Options) (S : SAT.Solver) (x : MSU4MapSolver) :
    Result (Option Seed × MSU4MapSolver) := x.find o S id

/-- The search for a minimal seed throws `std::logic_error`. -/
def solver (o : MSU4Options) (S : SAT.Solver) : MapSolver MSU4MapSolver where
  ids := MSU4MapSolver.ids
  addClauseToSolver := MSU4MapSolver.addClauseToSolver
  findSeed := findMaximalSeed o S
  findMinimalSeed _ := throw .exception
  findMaximalSeed := findMaximalSeed o S
  checkSeed x seed := return x.checkSeed S seed

end MSU4MaximalMapSolver

namespace MSU4MinimalMapSolver

def findMinimalSeed (o : MSU4Options) (S : SAT.Solver) (x : MSU4MapSolver) :
    Result (Option Seed × MSU4MapSolver) := x.find o S negate

/-- The search for a maximal seed throws `std::logic_error`. -/
def solver (o : MSU4Options) (S : SAT.Solver) : MapSolver MSU4MapSolver where
  ids := MSU4MapSolver.ids
  addClauseToSolver := MSU4MapSolver.addClauseToSolver
  findSeed := findMinimalSeed o S
  findMinimalSeed := findMinimalSeed o S
  findMaximalSeed _ := throw .exception
  checkSeed x seed := return x.checkSeed S seed

end MSU4MinimalMapSolver

structure MSU4ArbitraryMapSolver where
  min : MSU4MapSolver
  max : MSU4MapSolver

namespace MSU4ArbitraryMapSolver

def new (vm : VariableManager) (ids : List ℕ) : MSU4ArbitraryMapSolver :=
  ⟨.new vm ids, .new vm ids⟩

def addClauseToSolver (x : MSU4ArbitraryMapSolver) (cls : Clause) :
    Result MSU4ArbitraryMapSolver := do
  let min ← x.min.addClauseToSolver cls
  let max ← x.max.addClauseToSolver cls
  return ⟨min, max⟩

def findMinimalSeed (o : MSU4Options) (S : SAT.Solver) (x : MSU4ArbitraryMapSolver) :
    Result (Option Seed × MSU4ArbitraryMapSolver) := do
  let (seed, min) ← MSU4MinimalMapSolver.findMinimalSeed o S x.min
  return (seed, ⟨min, x.max.withVars min.map.vars⟩)

def findMaximalSeed (o : MSU4Options) (S : SAT.Solver) (x : MSU4ArbitraryMapSolver) :
    Result (Option Seed × MSU4ArbitraryMapSolver) := do
  let (seed, max) ← MSU4MaximalMapSolver.findMaximalSeed o S x.max
  return (seed, ⟨x.min.withVars max.map.vars, max⟩)

def checkSeed (S : SAT.Solver) (x : MSU4ArbitraryMapSolver) (seed : Seed) :
    Bool × MSU4ArbitraryMapSolver :=
  let (sat, max) := x.max.checkSeed S seed
  (sat, ⟨x.min, max⟩)

def solver (o : MSU4Options) (S : SAT.Solver) : MapSolver MSU4ArbitraryMapSolver where
  ids x := x.max.ids
  addClauseToSolver := addClauseToSolver
  findSeed := findMaximalSeed o S
  findMinimalSeed := findMinimalSeed o S
  findMaximalSeed := findMaximalSeed o S
  checkSeed x seed := return x.checkSeed S seed

end MSU4ArbitraryMapSolver

end PME
