import PME.IC3Debugger

namespace PME

open Outcome Exploration DebugTransitionRelation TransitionRelation IC3

structure HybridDebugger where
  bmc : BMCDebugger
  ic3 : IC3Debugger
  kmax : ℕ

namespace HybridDebugger

def vars (s : HybridDebugger) : VariableManager := s.ic3.ic3.vars

def withVars (s : HybridDebugger) (vars : VariableManager) : HybridDebugger :=
  { s with ic3 := { s.ic3 with ic3 := { s.ic3.ic3 with vars := vars } } }

def setKMax (s : HybridDebugger) (k : ℕ) : HybridDebugger := { s with kmax := k, bmc := s.bmc.setKMax k }

def new (kmax : ℕ) (vars : VariableManager) (tr : DebugTransitionRelation) : Result HybridDebugger := do
  let ic3 ← IC3Debugger.new vars tr
  return setKMax ⟨.new tr, ic3, 0⟩ kmax

def setCardinality (s : HybridDebugger) (n : ℕ) : Result HybridDebugger := do
  let (bmc, vars) ← s.bmc.setCardinality s.vars n
  let ic3 ← (s.withVars vars).ic3.setCardinality n
  return { s with bmc := bmc, ic3 := ic3 }

def clearCardinality (s : HybridDebugger) : Result HybridDebugger := do
  let ic3 ← s.ic3.clearCardinality
  return { s with bmc := s.bmc.clearCardinality, ic3 := ic3 }

section Debugging

variable (E : Engines) (fuel : IC3Solver → ℕ)

def bounded (s : HybridDebugger) (search : BMCDebugger → Result (Option CorrectionSet × BMCDebugger)) :
    Result (Option CorrectionSet × BMCDebugger) :=
  if s.kmax > 0 then search s.bmc else return (none, s.bmc)

def debugOverGates (s : HybridDebugger) (gates : List ℕ) : Result (Option CorrectionSet × HybridDebugger) := do
  let (result, bmc) ← s.bounded fun bmc ↦ bmc.debugOverGates E.sat gates
  if result.isSome then return (result, { s with bmc := bmc }) else do
    let (result, ic3) ← s.ic3.debugOverGates E fuel gates
    return (result, { s with bmc := bmc, ic3 := ic3 })

def debug (s : HybridDebugger) : Result (Option CorrectionSet × HybridDebugger) := do
  let (result, bmc) ← s.bounded fun bmc ↦ bmc.debug E.sat
  if result.isSome then return (result, { s with bmc := bmc }) else do
    let (result, ic3) ← s.ic3.debug E fuel
    return (result, { s with bmc := bmc, ic3 := ic3 })

end Debugging

def blockSolution (s : HybridDebugger) (soln : CorrectionSet) : Result HybridDebugger := do
  let bmc ← s.bmc.blockSolution soln
  let ic3 ← s.ic3.blockSolution soln
  return { s with bmc := bmc, ic3 := ic3 }

def addLemma (s : HybridDebugger) (c : Cube) (level : Level) : Result (LemmaID × HybridDebugger) := do
  let (id, ic3) ← s.ic3.addLemma c level
  return (id, { s with ic3 := ic3 })

def getFrameCubes (s : HybridDebugger) (n : Level) : Result (List Cube) := s.ic3.getFrameCubes n

def numFrames (s : HybridDebugger) : ℕ := s.ic3.numFrames

/-- The virtual functions. -/
def asDebugger (E : Engines) (fuel : IC3Solver → ℕ) : Debugger HybridDebugger where
  setCardinality := setCardinality
  clearCardinality := clearCardinality
  debug := debug E fuel
  debugOverGates := debugOverGates E fuel
  blockSolution := blockSolution

section Contract

variable {E : Engines} {tr : TransitionRelation} {n : ℕ} {d : DebugTransitionRelation} {hd : Debugs tr n d}
  {kmax lo limit : ℕ} {blocked : List (Finset ℕ)} {s : HybridDebugger} {fail : Failure → Prop}
  {fuel : IC3Solver → ℕ} {gates : List ℕ} {soln : CorrectionSet}

/-- Both debuggers are in the same state, and there are at least so many variables. -/
structure Rep (E : Engines) (hd : Debugs tr n d) (kmax lo limit : ℕ) (blocked : List (Finset ℕ))
    (s : HybridDebugger) : Prop where
  ic3 : IC3Debugger.Rep E hd limit blocked s.ic3
  bmc : BMCDebugger.Rep tr n d limit blocked s.vars s.bmc
  bound : s.bmc.kmax ≤ kmax
  le : lo ≤ s.vars.nextID

theorem Rep.inv (h : Rep E hd kmax lo limit blocked s) : s.vars.Inv := h.ic3.inv

theorem Rep.weaken (h : Rep E hd kmax lo limit blocked s) {lo' : ℕ} (hle : lo' ≤ s.vars.nextID) :
    Rep E hd kmax lo' limit blocked s := ⟨h.ic3, h.bmc, h.bound, hle⟩

theorem Rep.advance (h : Rep E hd kmax lo limit blocked s) {vars : VariableManager} (hvars : vars.Inv)
    (hle : s.vars.nextID ≤ vars.nextID) : Rep E hd kmax vars.nextID limit blocked (s.withVars vars) :=
  ⟨h.ic3.advance hvars hle, h.bmc.advance hvars hle, h.bound, le_rfl⟩

theorem Rep.step (h : Rep E hd kmax lo limit blocked s) {limit' : ℕ} {blocked' : List (Finset ℕ)} {bmc : BMCDebugger}
    {ic3 : IC3Debugger} (hbmc : BMCDebugger.Rep tr n d limit' blocked' s.vars bmc) (hkmax : bmc.kmax = s.bmc.kmax)
    (hic3 : IC3Debugger.Rep E hd limit' blocked' ic3) (hle : s.vars.nextID ≤ ic3.ic3.vars.nextID) :
    Rep E hd kmax lo limit' blocked' { s with bmc := bmc, ic3 := ic3 } :=
  ⟨hic3, hbmc.advance hic3.inv hle, hkmax.trans_le h.bound, h.le.trans hle⟩

theorem Rep.setKMax (h : Rep E hd kmax lo limit blocked s) {k : ℕ} (hk : k ≤ kmax) :
    Rep E hd kmax lo limit blocked (s.setKMax k) :=
  ⟨h.ic3, h.bmc.setKMax k, hk, h.le⟩

theorem new_meets (hd : Debugs tr n d) (kmax : ℕ) {vars : VariableManager} (hvars : vars.Inv)
    (hfirst : n + 4 * tr.gateIDs.length ≤ vars.nextID) :
    Meets (Rep E hd kmax vars.nextID tr.gateIDs.length []) fail (new kmax vars d) := by
  have hnew : Meets _ fail (IC3Debugger.new vars d) := IC3Debugger.new_meets (E := E) hd hvars hfirst
  refine (hnew.and (IC3Debugger.new_le vars d)).bind fun ic3 hic3 ↦ ?_
  have hbmc : BMCDebugger.Rep tr n d tr.gateIDs.length [] vars (.new d) := BMCDebugger.rep_new hvars hfirst
  exact ⟨hic3.1, (hbmc.advance hic3.1.inv hic3.2).setKMax kmax, le_rfl, hic3.2⟩

theorem Rep.setCardinality (h : Rep E hd kmax lo limit blocked s) (hpos : tr.gateIDs ≠ [])
    (hmany : tr.gateIDs.length < cardinalityInf) (hids : fail .idsExhausted ∧ fail .narrowed) {m : ℕ}
    (hm : m ≤ tr.gateIDs.length) : Meets (Rep E hd kmax lo m blocked) fail (s.setCardinality m) := by
  unfold HybridDebugger.setCardinality
  have hset := h.bmc.setCardinality hd hpos hm fun _ ↦ hids.1
  refine (hset.and (BMCDebugger.setCardinality_sets _ _ _)).bind fun r hr ↦ ?_
  obtain ⟨bmc, vars⟩ := r
  obtain ⟨⟨hbmc, hle, -⟩, -, hkmax⟩ := hr
  have hmade := h.advance hbmc.inv hle
  refine ((hmade.ic3.setCardinality hpos hmany hids (.inr ⟨rfl, hm⟩)).and (hmade.ic3.setCardinality_le hpos m)).bind
    fun ic3 hic3 ↦ ?_
  exact ⟨hic3.1, hbmc.advance hic3.1.inv hic3.2, hkmax.trans_le h.bound, h.le.trans (hle.trans hic3.2)⟩

theorem Rep.clearCardinality (h : Rep E hd kmax lo limit blocked s) (hmany : tr.gateIDs.length < cardinalityInf)
    (hids : fail .idsExhausted) : Meets (Rep E hd kmax lo tr.gateIDs.length blocked) fail s.clearCardinality := by
  unfold HybridDebugger.clearCardinality
  refine ((h.ic3.clearCardinality hmany hids).and s.ic3.clearCardinality_le).bind fun ic3 hic3 ↦ ?_
  exact h.step h.bmc.clearCardinality rfl hic3.1 hic3.2

theorem Rep.blockSolution (h : Rep E hd kmax lo limit blocked s) (hids : fail .idsExhausted) (hne : soln ≠ [])
    (hsub : soln ⊆ tr.gateIDs) :
    Meets (Rep E hd kmax lo limit (blocked ++ [soln.toFinset])) fail (s.blockSolution soln) := by
  unfold HybridDebugger.blockSolution
  refine ((h.bmc.blockSolution hne hsub).and (BMCDebugger.blockSolution_same _ _)).bind fun bmc hbmc ↦ ?_
  refine ((h.ic3.blockSolution hids hne hsub).and (s.ic3.blockSolution_le soln)).bind fun ic3 hic3 ↦ ?_
  exact h.step hbmc.1 hbmc.2.2 hic3.1 hic3.2

theorem bounded_meets (h : Rep E hd kmax lo limit blocked s)
    {search : BMCDebugger → Result (Option CorrectionSet × BMCDebugger)} {kMin kMax : ℕ}
    (hsearch : Meets (fun r ↦ DebugAnswer (BMCDebugger.FreedWithin tr kMin kMax) gates limit blocked r.1 ∧
      BMCDebugger.Rep tr n d limit blocked s.vars r.2 ∧ r.2.kmax = s.bmc.kmax) fail (search s.bmc)) :
    Meets (fun r ↦ (r.1.isSome = true → DebugAnswer tr.FreedBad gates limit blocked r.1) ∧
      BMCDebugger.Rep tr n d limit blocked s.vars r.2 ∧ r.2.kmax = s.bmc.kmax) fail (s.bounded search) := by
  unfold bounded
  split
  · refine hsearch.imp fun r hr ↦ ⟨fun hsome ↦ ?_, hr.2⟩
    obtain ⟨soln, hsoln⟩ := Option.isSome_iff_exists.mp hsome
    obtain ⟨hanswer, -⟩ := hr
    rw [hsoln] at hanswer ⊢
    obtain ⟨hsub, hcard, ⟨k, -, hbad⟩, hopen⟩ := hanswer
    exact ⟨hsub, hcard, ⟨k, hbad⟩, hopen⟩
  · exact ⟨fun hno ↦ absurd hno Bool.false_ne_true, h.bmc, rfl⟩

theorem Rep.debugOverGates (h : Rep E hd kmax lo limit blocked s) (hpos : tr.gateIDs ≠ [])
    (hmany : tr.gateIDs.length < cardinalityInf) (hids : fail .idsExhausted ∧ fail .narrowed)
    (hdeep : maxPrimes ≤ kmax → fail .assertion) (hfuel : ∀ st, st.fuelBound ≤ fuel st) (hsub : gates ⊆ tr.gateIDs) :
    Meets (fun r ↦ DebugAnswer tr.FreedBad gates limit blocked r.1 ∧ Rep E hd kmax lo limit blocked r.2) fail
      (s.debugOverGates E fuel gates) := by
  have hsearch : Meets _ fail (s.bmc.debugOverGates E.sat gates) :=
    BMCDebugger.debugOverGatesRange_meets E.sat h.bmc hd hmany (fun _ ↦ hids.2) hsub 0 fun hk ↦ hdeep (hk.trans h.bound)
  unfold HybridDebugger.debugOverGates
  refine (bounded_meets h hsearch).bind fun r hr ↦ ?_
  obtain ⟨result, bmc⟩ := r
  obtain ⟨hanswer, hbmc, hkmax⟩ := hr
  dsimp only at hanswer hbmc hkmax ⊢
  split
  · next hsome => exact ⟨hanswer hsome, h.step hbmc hkmax h.ic3 le_rfl⟩
  · refine (h.ic3.debugOverGates hpos hmany hids hfuel hsub).bind fun r hr ↦ ?_
    exact ⟨hr.1.1, h.step hbmc hkmax hr.1.2 hr.2⟩

theorem Rep.debug (h : Rep E hd kmax lo limit blocked s) (hpos : tr.gateIDs ≠ [])
    (hmany : tr.gateIDs.length < cardinalityInf) (hids : fail .idsExhausted ∧ fail .narrowed)
    (hdeep : maxPrimes ≤ kmax → fail .assertion) (hfuel : ∀ st, st.fuelBound ≤ fuel st) :
    Meets (fun r ↦ DebugAnswer tr.FreedBad tr.gateIDs limit blocked r.1 ∧ Rep E hd kmax lo limit blocked r.2) fail
      (s.debug E fuel) := by
  have hsearch : Meets _ fail (s.bmc.debug E.sat) :=
    BMCDebugger.debugRange_meets E.sat h.bmc hd hmany (fun _ ↦ hids.2) 0 fun hk ↦
      hdeep (hk.trans h.bound)
  unfold HybridDebugger.debug
  refine (bounded_meets h hsearch).bind fun r hr ↦ ?_
  obtain ⟨result, bmc⟩ := r
  obtain ⟨hanswer, hbmc, hkmax⟩ := hr
  dsimp only at hanswer hbmc hkmax ⊢
  split
  · next hsome => exact ⟨hanswer hsome, h.step hbmc hkmax h.ic3 le_rfl⟩
  · refine ((h.ic3.debug hpos hids.1 hfuel).and (s.ic3.prove_le E fuel)).bind fun r hr ↦ ?_
    exact ⟨hr.1.1, h.step hbmc hkmax hr.1.2 hr.2⟩

/-- As a debugger it is exact about all steps, whatever the bound, and gives no variable back. -/
theorem asDebugger_exact (hd : Debugs tr n d) (hpos : tr.gateIDs ≠ [])
    (hmany : tr.gateIDs.length < cardinalityInf) (hids : fail .idsExhausted ∧ fail .narrowed)
    (hdeep : maxPrimes ≤ kmax → fail .assertion) (hfuel : ∀ st, st.fuelBound ≤ fuel st) :
    (asDebugger E fuel).Exact tr.FreedBad tr.gateIDs (Rep E hd kmax lo) fail where
  setCardinality h hm := h.setCardinality hpos hmany hids hm.le
  clearCardinality h := h.clearCardinality hmany hids.1
  debug h := h.debug hpos hmany hids hdeep hfuel
  debugOverGates h hsub := h.debugOverGates hpos hmany hids hdeep hfuel hsub
  blockSolution h hsub hne := h.blockSolution hids.1 hne hsub

end Contract

end HybridDebugger

end PME
