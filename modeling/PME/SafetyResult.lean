import PME.Unroll

namespace PME

inductive SafetyAnswer
  | safe
  | unsafeAt
  | unknown
deriving DecidableEq

structure Step where
  inputs : Cube
  state : Cube
deriving DecidableEq

abbrev SafetyCounterExample := List Step

structure SafetyResult where
  result : SafetyAnswer
  proof : ClauseVec
  cex : SafetyCounterExample
deriving DecidableEq

namespace SATAdaptor

/-- The values that a model gives to variables at time `n`, as literals at time zero. A variable
that the solver has never seen is left out. -/
def extract (ad : SATAdaptor) (m : Assignment) (vars : List ℕ) (n : ℕ) : Cube :=
  vars.filterMap fun id ↦ (ad.safeGetAssignment m (prime id n)).map fun value ↦
    unprime (if value then prime id n else negate (prime id n))

end SATAdaptor

end PME
