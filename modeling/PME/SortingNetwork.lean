import PME.VariableManager
import PME.Lib.Comparator

namespace PME

open Outcome

structure CNFNetwork where
  vm : VariableManager
  outputs : List ℕ
  cnf : ClauseVec
deriving DecidableEq

def vecAt (vec : List ℕ) (i : ℕ) : Result ℕ :=
  match vec[i]? with
  | some x => return x
  | none => throw .exception

/-- The unchecked `vec.back()`, which the code calls only where it is in range. -/
def vecBack (vec : List ℕ) : Result ℕ := vecAt vec (vec.length - 1)

def takeOdd : List ℕ → List ℕ
  | [] => []
  | [_] => []
  | _ :: y :: vec => y :: takeOdd vec

def takeEven : List ℕ → List ℕ
  | [] => []
  | [x] => [x]
  | x :: _ :: vec => x :: takeEven vec

def partialComp (x₁ x₂ y : ℕ) (le ge : Bool) : Result ClauseVec := do
  ensure (le || ge)
  return (if le then [[negate x₁, y], [negate x₂, y]] else []) ++
    (if ge then [[x₁, x₂, negate y]] else [])

def comp (x₁ x₂ y₁ y₂ : ℕ) (le ge : Bool) : Result ClauseVec := do
  ensure (le || ge)
  return (if le then [[negate x₁, y₁], [negate x₂, y₁], [negate x₁, negate x₂, y₂]] else []) ++
    (if ge then [[x₁, negate y₂], [x₂, negate y₂], [x₁, x₂, negate y₁]] else [])

/-- One pass of the loops of `zipperMerge`. Only the loop for two odd lengths takes an extra
element from the even side, once `a + 1` elements are merged. -/
def zipperStep (even : List ℕ) (extra : Option ℕ) (s : List ℕ × ℕ) (o : ℕ) :
    Result (List ℕ × ℕ) := do
  let x ← vecAt even s.2
  let merged := s.1 ++ [x, o]
  if extra = some merged.length then
    let x' ← vecAt even (s.2 + 1)
    return (merged ++ [x'], s.2 + 2)
  else
    return (merged, s.2 + 1)

def zipperMerge (even odd : List ℕ) (a b : ℕ) : Result (List ℕ) := do
  ensure (decide (odd.length ≤ even.length))
  let diff := even.length - odd.length
  ensure (decide (diff ≤ 2))
  ensure (diff != 0 || (a % 2 == 0 && b % 2 == 0))
  ensure (diff != 1 || a % 2 != b % 2)
  ensure (diff != 2 || a % 2 == 1)
  if diff ≤ 1 then
    let (merged, _) ← odd.foldlM (zipperStep even none) ([], 0)
    if diff = 1 then return merged ++ [← vecBack even] else return merged
  else
    let (merged, iEven) ← odd.foldlM (zipperStep even (some (a + 1))) ([], 0)
    ensure (iEven == even.length - 1)
    return merged ++ [← vecBack even]

def compPairs (pair : ℕ → Result (ℕ × ℕ)) (n : ℕ) (le ge : Bool) (s : CNFNetwork) :
    Result CNFNetwork :=
  (List.range n).foldlM (fun s i ↦ do
    let (x₁, x₂) ← pair i
    let (y₁, vm) ← s.vm.getNewID 0
    let (y₂, vm) ← vm.getNewID 0
    let compCnf ← comp x₁ x₂ y₁ y₂ le ge
    return ⟨vm, s.outputs ++ [y₁, y₂], s.cnf ++ compCnf⟩) s

theorem length_takeOdd (vec : List ℕ) : (takeOdd vec).length = vec.length / 2 := by
  induction vec using takeOdd.induct with
  | case1 => rfl
  | case2 => simp [takeOdd]
  | case3 _ y vec ih => simp only [takeOdd, List.length_cons, ih]; omega

theorem length_takeEven (vec : List ℕ) : (takeEven vec).length = (vec.length + 1) / 2 := by
  induction vec using takeEven.induct with
  | case1 => rfl
  | case2 => simp [takeEven]
  | case3 x _ vec ih => simp only [takeEven, List.length_cons, ih]; omega

/-- `a_vec` and `b_vec` of the merge networks: the shorter list and the longer one. -/
def shorter (inputsA inputsB : List ℕ) : List ℕ :=
  if inputsA.length ≤ inputsB.length then inputsA else inputsB

def longer (inputsA inputsB : List ℕ) : List ℕ :=
  if inputsA.length ≤ inputsB.length then inputsB else inputsA

theorem length_shorter (a b : List ℕ) : (shorter a b).length = min a.length b.length := by
  unfold shorter
  split <;> omega

theorem length_longer (a b : List ℕ) : (longer a b).length = max a.length b.length := by
  unfold longer
  split <;> omega

def mergeNetwork (vm : VariableManager) (inputsA inputsB : List ℕ) (le ge : Bool) :
    Result CNFNetwork := do
  let aVec := shorter inputsA inputsB
  let bVec := longer inputsA inputsB
  let a := aVec.length
  let b := bVec.length
  ensure (decide (a ≤ b))
  ensure (le || ge)
  if _h : a = 1 ∧ b = 1 then
    let (y₁, vm) ← vm.getNewID 0
    let (y₂, vm) ← vm.getNewID 0
    let cnf ← comp (← vecAt aVec 0) (← vecAt bVec 0) y₁ y₂ le ge
    return ⟨vm, [y₁, y₂], cnf⟩
  else if _h' : a = 0 then
    return ⟨vm, bVec, []⟩
  else
    let oddNetwork ← mergeNetwork vm (takeOdd aVec) (takeOdd bVec) le ge
    let evenNetwork ← mergeNetwork oddNetwork.vm (takeEven aVec) (takeEven bVec) le ge
    let z ← zipperMerge evenNetwork.outputs oddNetwork.outputs a b
    let z₀ ← vecAt z 0
    let r ← compPairs (fun j ↦ return (← vecAt z (2 * j + 1), ← vecAt z (2 * j + 2)))
      ((z.length - 1) / 2) le ge ⟨evenNetwork.vm, [z₀], oddNetwork.cnf ++ evenNetwork.cnf⟩
    if (a + b) % 2 = 0 then
      ensure (r.outputs.length == a + b - 1)
      return { r with outputs := r.outputs ++ [← vecBack z] }
    else
      return r
termination_by inputsA.length + inputsB.length
decreasing_by
  all_goals
    simp only [a, b, aVec, bVec, length_shorter, length_longer] at _h _h'
    simp only [length_takeOdd, length_takeEven, length_shorter, length_longer]
    omega

def sortingNetwork (vm : VariableManager) (inputs : List ℕ) (le ge : Bool) :
    Result CNFNetwork := do
  let n := inputs.length
  ensure (decide (n > 0))
  if n = 1 then
    return ⟨vm, inputs, []⟩
  else if n = 2 then
    mergeNetwork vm [← vecAt inputs 0] [← vecAt inputs 1] le ge
  else if _h : n = 0 then
    -- ruled out by the assertion
    throw .assertion
  else
    let l := n / 2
    let left ← sortingNetwork vm (inputs.take l) le ge
    let right ← sortingNetwork left.vm (inputs.drop l) le ge
    let merge ← mergeNetwork right.vm left.outputs right.outputs le ge
    return { merge with cnf := left.cnf ++ right.cnf ++ merge.cnf }
termination_by inputs.length
decreasing_by
  all_goals
    simp only [n, List.length_take, List.length_drop] at *
    omega

def simpMergeNetwork (vm : VariableManager) (inputsA inputsB : List ℕ) (c : ℕ) (le ge : Bool) :
    Result CNFNetwork := do
  let aVec := (shorter inputsA inputsB).take c
  let bVec := (longer inputsA inputsB).take c
  let a := aVec.length
  let b := bVec.length
  ensure (decide (a ≤ b))
  ensure (decide (b ≤ c))
  ensure (le || ge)
  if _h : a = 0 then
    return ⟨vm, bVec, []⟩
  else if _h₁ : a = 1 ∧ b = 1 ∧ c = 1 then
    let (y, vm) ← vm.getNewID 0
    let orCnf ← partialComp (← vecAt aVec 0) (← vecAt bVec 0) y le ge
    return ⟨vm, [y], orCnf⟩
  else if _h₂ : a + b ≤ c then
    mergeNetwork vm aVec bVec le ge
  else
    let isEven := c % 2 == 0
    let oddSize := if isEven then c / 2 else (c - 1) / 2
    let evenSize := if isEven then c / 2 + 1 else (c + 1) / 2
    let oddNetwork ← simpMergeNetwork vm (takeOdd aVec) (takeOdd bVec) oddSize le ge
    let evenNetwork ← simpMergeNetwork oddNetwork.vm (takeEven aVec) (takeEven bVec) evenSize le ge
    let zOdd := oddNetwork.outputs
    let zEven := evenNetwork.outputs
    let z₀ ← vecAt zEven 0
    let s : CNFNetwork := ⟨evenNetwork.vm, [z₀], oddNetwork.cnf ++ evenNetwork.cnf⟩
    let pair := fun i ↦ return (← vecAt zEven (i + 1), ← vecAt zOdd i)
    if isEven then
      ensure (zEven.length == c / 2 + 1)
      ensure (zOdd.length == c / 2)
      let r ← compPairs pair (c / 2 - 1) le ge s
      let (y, vm) ← r.vm.getNewID 0
      let orCnf ← partialComp (← vecBack zEven) (← vecBack zOdd) y le ge
      return ⟨vm, r.outputs ++ [y], r.cnf ++ orCnf⟩
    else
      ensure (zOdd.length == (c - 1) / 2)
      ensure (zEven.length == (c + 1) / 2)
      compPairs pair ((c - 1) / 2) le ge s
termination_by inputsA.length + inputsB.length
decreasing_by
  all_goals
    simp only [a, b, aVec, bVec, List.length_take, length_shorter, length_longer] at _h _h₁ _h₂
    simp only [length_takeOdd, length_takeEven, List.length_take, length_shorter, length_longer]
    omega

def cardinalityNetwork (vm : VariableManager) (inputs : List ℕ) (m : ℕ) (le ge : Bool) :
    Result CNFNetwork := do
  let n := inputs.length
  ensure (decide (n > 0))
  ensure (decide (m > 0))
  if n ≤ m then
    sortingNetwork vm inputs le ge
  else if _h : n < 2 then
    throw .assertion
  else
    let l := n / 2
    let left ← cardinalityNetwork vm (inputs.take l) m le ge
    let right ← cardinalityNetwork left.vm (inputs.drop l) m le ge
    ensure (left.outputs.length == min l m)
    ensure (right.outputs.length == min (n - l) m)
    let merge ← simpMergeNetwork right.vm left.outputs right.outputs m le ge
    return { merge with cnf := left.cnf ++ right.cnf ++ merge.cnf }
termination_by inputs.length
decreasing_by
  all_goals
    simp only [n, List.length_take, List.length_drop] at *
    omega

end PME
