import PME.IC3.FrameSolver

namespace PME.IC3

open Outcome

structure UNSATCoreLifter extends TransitionRelationSolver where
  solverInited : Bool

namespace UNSATCoreLifter

def new (tr : TransitionRelation) : UNSATCoreLifter where
  tr := tr
  solver := .new
  unrolled := []
  solverInited := false

def sendLemma (trace : InductiveTrace) (ul : UNSATCoreLifter) (id : LemmaID) :
    Result UNSATCoreLifter := do
  let data ← trace.getLemma id
  return { ul with solver := ← ul.solver.addClause (negateVec data.cube) }

def renewSAT (B : Backend) (trace : InductiveTrace) (ul : UNSATCoreLifter) :
    Result UNSATCoreLifter := do
  let base ← ul.toTransitionRelationSolver.renewSAT B
  let ul := { ul with toTransitionRelationSolver := base }
  let frame ← trace.getFrame .inf
  let ul ← frame.foldlM (fun ul id ↦ do
    let data ← trace.getLemma id
    if data.deleted then return ul else ul.sendLemma trace id) ul
  return { ul with solverInited := true }

def lift (B : Backend) (trace : InductiveTrace) (ul : UNSATCoreLifter) (pred succ inp pinp : Cube) :
    Result (Cube × UNSATCoreLifter) := do
  ensure (!succ.isEmpty)
  let ul ← (if ul.solverInited then pure ul else ul.renewSAT B trace)
  let negsucc := negateVec (primeVec succ 1)
  let assumps := pred ++ inp ++ primeVec pinp 1
  let (answer, solver) ← (match negsucc with
    -- no group is needed for one literal
    | [lit] => pure (ul.solver.solve B.sat (assumps ++ [lit]))
    | _ => do
      let (gid, solver) := ul.solver.createGroup
      let solver ← solver.addGroupClause gid negsucc
      return solver.groupSolve B.sat gid assumps : Result (SAT.Answer × SATAdaptor))
  let ul := { ul with solver := solver }
  match answer with
  | .sat _ => throw .assertion
  | .unsat crits =>
    match extractCore pred crits, pred with
    | [], [] => throw .exception
    | [], lit :: _ => return ([lit], ul)
    | lifted, _ => return (lifted, ul)

end UNSATCoreLifter

end PME.IC3
