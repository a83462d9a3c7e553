import PME.BMCSolver
import PME.PartialCircuit

namespace PME

open Outcome TransitionRelation

def simulationAssumps (cex : SafetyCounterExample) : Cube :=
  cex.zipIdx.flatMap fun step ↦ primeVec step.1.inputs step.2 ++ primeVec step.1.state step.2

def checkSimulation (S : SAT.Solver) (tr : TransitionRelation) (cex : SafetyCounterExample) (extraAssumps : Cube) :
    Result Bool := do
  ensure (!cex.isEmpty)
  let solver ← SATAdaptor.new.addClauses (tr.unrollWithInit cex.length)
  return (solver.solve S (simulationAssumps cex ++ extraAssumps)).1.isSat

def checkCounterExample (S : SAT.Solver) (tr : TransitionRelation) (cex : SafetyCounterExample) : Result Bool :=
  checkSimulation S tr cex [prime tr.bad (cex.length - 1)]

namespace UnsafetyCache

/-- The loop of `checkUnsafetyCache`, with those that were tried before. The one that is found goes to the front. -/
def checkUnsafetyCacheFrom (S : SAT.Solver) (part : TransitionRelation) (tried : List SafetyCounterExample) :
    List SafetyCounterExample → Result (SafetyResult × List SafetyCounterExample)
  | [] => return (⟨.unknown, [], []⟩, tried)
  | cex :: cexes => do
    if ← checkCounterExample S part cex then return (⟨.unsafeAt, [], cex⟩, cex :: (tried ++ cexes))
    else checkUnsafetyCacheFrom S part (tried ++ [cex]) cexes

def checkUnsafetyCache (S : SAT.Solver) (part : TransitionRelation) (cexes : List SafetyCounterExample) :
    Result (SafetyResult × List SafetyCounterExample) := checkUnsafetyCacheFrom S part [] cexes

def cacheCounterExample (size : ℕ) (cex : SafetyCounterExample) (cexes : List SafetyCounterExample) :
    Result (List SafetyCounterExample) :=
  if size = 0 then return cexes else do
    let cexes := cex :: cexes
    ensure (decide (cexes.length ≤ size + 1))
    return if cexes.length > size then cexes.dropLast else cexes

variable {S : SAT.Solver} {tr part : TransitionRelation} {gates gates' : List ℕ} {cex : SafetyCounterExample}
  {cexes tried : List SafetyCounterExample} {size : ℕ} {fail : Failure → Prop}

def Simulates (tr : TransitionRelation) (cex : SafetyCounterExample) : Prop :=
  ∃ σ, σ idFalse = false ∧ tr.IsInit (frameOf σ 0) ∧ tr.IsRun cex.length (frameOf σ) ∧
    satCube σ (simulationAssumps cex) ∧ litVal (frameOf σ (cex.length - 1)) tr.bad = true

theorem checkUnsafetyCacheFrom_perm (S : SAT.Solver) (part : TransitionRelation)
    (tried cexes : List SafetyCounterExample) :
    Meets (fun r ↦ r.2.Perm (tried ++ cexes)) (fun _ ↦ True) (checkUnsafetyCacheFrom S part tried cexes) := by
  induction cexes generalizing tried with
  | nil =>
    rw [List.append_nil]
    exact List.Perm.refl _
  | cons cex cexes ih =>
    unfold checkUnsafetyCacheFrom
    have hany : Meets (fun _ ↦ True) (fun _ ↦ True) (checkCounterExample S part cex) :=
      meets_of_ok (fun _ ↦ trivial) fun _ _ ↦ trivial
    refine hany.bind fun b _ ↦ ?_
    cases b with
    | true => exact List.perm_middle.symm
    | false =>
      have hrest := ih (tried ++ [cex])
      rwa [List.append_assoc] at hrest

inductive Reached (S : SAT.Solver) (tr : TransitionRelation) (size : ℕ) : List SafetyCounterExample → Prop
  | new : Reached S tr size []
  | cached {cexes cexes' cex} : Reached S tr size cexes → cex ≠ [] → cacheCounterExample size cex cexes = .ok cexes' →
      Reached S tr size cexes'
  | checked {cexes cexes' gates part r} : Reached S tr size cexes → tr.ofGates gates = .ok part →
      checkUnsafetyCache S part cexes = .ok (r, cexes') → Reached S tr size cexes'

theorem cacheCounterExample_meets (hle : cexes.length ≤ size) (hne : ∀ cex ∈ cexes, cex ≠ []) (hcex : cex ≠ []) :
    Meets (fun cexes' ↦ cexes'.length ≤ size ∧ ∀ cex ∈ cexes', cex ≠ []) fail
      (cacheCounterExample size cex cexes) := by
  unfold cacheCounterExample
  split
  · exact ⟨hle, hne⟩
  · have hall : ∀ c ∈ cex :: cexes, c ≠ [] := List.forall_mem_cons.mpr ⟨hcex, hne⟩
    have hlen : (cex :: cexes).length ≤ size + 1 := Nat.succ_le_succ hle
    dsimp only
    rw [decide_eq_true hlen, ensure_true, ok_bind, meets_pure]
    split
    · refine ⟨?_, fun c hc ↦ hall c (List.dropLast_subset _ hc)⟩
      rw [List.length_dropLast]
      omega
    · next hfull => exact ⟨Nat.le_of_not_lt hfull, hall⟩

theorem Reached.bounded (h : Reached S tr size cexes) : cexes.length ≤ size ∧ ∀ cex ∈ cexes, cex ≠ [] := by
  induction h with
  | new => exact ⟨Nat.zero_le size, fun _ hno ↦ absurd hno List.not_mem_nil⟩
  | @cached cexes _ cex _ hcex hok ih =>
    have hcached : Meets _ (fun _ ↦ True) (cacheCounterExample size cex cexes) :=
      cacheCounterExample_meets ih.1 ih.2 hcex
    exact hcached.of_ok hok
  | checked _ _ hok ih =>
    have hperm := post_of_ok (checkUnsafetyCacheFrom_perm _ _ [] _) hok
    exact ⟨hperm.length_eq ▸ ih.1, fun cex hc ↦ ih.2 cex (hperm.mem_iff.mp hc)⟩

def Refutes (tr : TransitionRelation) (gates : List ℕ) (cex : SafetyCounterExample) : Prop :=
  ∃ p, tr.ofGates gates = .ok p ∧ Simulates p cex

end UnsafetyCache

end PME
