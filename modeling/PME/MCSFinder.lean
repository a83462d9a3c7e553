import PME.FindBatch
import PME.SharedDebugger

namespace PME

open Outcome Exploration DebugTransitionRelation IC3

structure MCSFinder (X : Type) where
  cardinality : ℕ
  solver : X
  solverInf : X

namespace MCSFinder

variable {X : Type}

section Finder

variable (V : SharedDebugger X)

def setCardinality (f : MCSFinder X) (vm : VariableManager) (n : ℕ) : Result (MCSFinder X × VariableManager) := do
  let (solver, vm) ← V.act vm f.solver (V.setCardinality · n)
  return ({ f with cardinality := n, solver := solver }, vm)

def moreCorrectionSets (f : MCSFinder X) (vm : VariableManager) : Result (Bool × MCSFinder X × VariableManager) := do
  let (result, solverInf, vm) ← V.ask vm f.solverInf V.debug
  return (result.isSome, { f with solverInf := solverInf }, vm)

def blockFound (f : MCSFinder X) (r : Option CorrectionSet × X × VariableManager) :
    Result (Option CorrectionSet × MCSFinder X × VariableManager) :=
  match r with
  | (some corr, solver, vm) => do
    let (solverInf, vm) ← V.act vm f.solverInf (V.blockSolution · corr)
    return (some corr, { f with solver := solver, solverInf := solverInf }, vm)
  | (none, solver, vm) => return (none, { f with solver := solver }, vm)

def findAndBlockOverGates (f : MCSFinder X) (vm : VariableManager) (gates : List ℕ) :
    Result (Option CorrectionSet × MCSFinder X × VariableManager) := do
  f.blockFound V (← V.ask vm f.solver (V.debugAndBlockOverGates · gates))

def findAndBlock (f : MCSFinder X) (vm : VariableManager) :
    Result (Option CorrectionSet × MCSFinder X × VariableManager) := do
  f.blockFound V (← V.ask vm f.solver V.debugAndBlock)

def blockSolution (f : MCSFinder X) (vm : VariableManager) (corr : CorrectionSet) :
    Result (MCSFinder X × VariableManager) := do
  let (solver, vm) ← V.act vm f.solver (V.blockSolution · corr)
  let (solverInf, vm) ← V.act vm f.solverInf (V.blockSolution · corr)
  return ({ f with solver := solver, solverInf := solverInf }, vm)

end Finder

/-- The bound of the debuggers is that of the options, or zero where BMC is not to be used. -/
def new (useBMC : Bool) (kmax : ℕ) (vm : VariableManager) (d : DebugTransitionRelation) :
    Result (MCSFinder HybridDebugger × VariableManager) := do
  let solver ← HybridDebugger.new kmax vm d
  let solverInf ← HybridDebugger.new kmax solver.vars d
  let f : MCSFinder HybridDebugger := ⟨0, solver, solverInf⟩
  if useBMC then return (f, solverInf.vars)
  else return ({ f with solver := solver.setKMax 0, solverInf := solverInf.setKMax 0 }, solverInf.vars)

structure Holds (V : SharedDebugger X) (Rep : ℕ → ℕ → List (Finset ℕ) → X → Prop) (gates : List ℕ)
    (vm : VariableManager) (limit : ℕ) (blocked : List (Finset ℕ)) (f : MCSFinder X) : Prop where
  solver : V.Idle Rep vm limit blocked f.solver
  solverInf : V.Idle Rep vm gates.length blocked f.solverInf

section Contract

variable {V : SharedDebugger X} {bad : Finset ℕ → Prop} {gates suspects : List ℕ}
  {Rep : ℕ → ℕ → List (Finset ℕ) → X → Prop} {fail : Failure → Prop} {vm vm' : VariableManager} {limit : ℕ}
  {blocked : List (Finset ℕ)} {f : MCSFinder X} {corr : CorrectionSet}

theorem Holds.later (h : Holds V Rep gates vm limit blocked f) (hle : vm.nextID ≤ vm'.nextID) :
    Holds V Rep gates vm' limit blocked f := ⟨h.solver.later hle, h.solverInf.later hle⟩

theorem Holds.setCardinality (hV : V.Exact bad gates Rep fail) (hvm : vm.Inv)
    (h : Holds V Rep gates vm limit blocked f) {n : ℕ} (hn : n ≤ gates.length) :
    Meets (fun r ↦ Holds V Rep gates r.2 n blocked r.1 ∧ SharedDebugger.Made vm r.2) fail
      (f.setCardinality V vm n) := by
  unfold MCSFinder.setCardinality
  refine (hV.act hvm h.solver fun _ hx ↦ hV.setCardinality hx hn).bind fun r hr ↦ ?_
  exact ⟨⟨hr.1, h.solverInf.later hr.2.le⟩, hr.2⟩

theorem Holds.moreCorrectionSets (hV : V.Exact bad gates Rep fail) (hvm : vm.Inv)
    (h : Holds V Rep gates vm limit blocked f) :
    Meets (fun r ↦ (r.1 = true ↔ ∃ t ⊆ gates.toFinset, bad t ∧ Unblocked blocked t) ∧
      Holds V Rep gates r.2.2 limit blocked r.2.1 ∧ SharedDebugger.Made vm r.2.2) fail
      (f.moreCorrectionSets V vm) := by
  have hask : Meets (fun r ↦ DebugAnswer bad gates gates.length blocked r.1 ∧
      V.Idle Rep r.2.2 gates.length blocked r.2.1 ∧ SharedDebugger.Made vm r.2.2) fail
      (V.ask vm f.solverInf V.debug) :=
    hV.ask (B := fun _ ↦ blocked) hvm h.solverInf fun _ hx ↦ (hV.exact _).debug hx
  unfold MCSFinder.moreCorrectionSets
  refine hask.bind fun r hr ↦ ?_
  obtain ⟨answer, solverInf, vm'⟩ := r
  obtain ⟨hanswer, hidle, hmade⟩ := hr
  refine ⟨?_, ⟨h.solver.later hmade.le, hidle⟩, hmade⟩
  cases answer with
  | none =>
    refine iff_of_false Bool.false_ne_true fun hex ↦ ?_
    obtain ⟨t, ht, hbad, hopen⟩ := hex
    exact hanswer t ht ((Finset.card_le_card ht).trans (List.toFinset_card_le _)) hbad hopen
  | some soln =>
    obtain ⟨hsub, -, hbad, hopen⟩ := hanswer
    refine iff_of_true rfl ⟨soln.toFinset, fun g hg ↦ ?_, hbad, hopen⟩
    exact List.mem_toFinset.mpr (hsub (List.mem_toFinset.mp hg))

def Answered (V : SharedDebugger X) (Rep : ℕ → ℕ → List (Finset ℕ) → X → Prop) (bad : Finset ℕ → Prop)
    (gates suspects : List ℕ) (vm : VariableManager) (limit : ℕ) (blocked : List (Finset ℕ))
    (r : Option CorrectionSet × MCSFinder X × VariableManager) : Prop :=
  DebugAnswer bad suspects limit blocked r.1 ∧ Holds V Rep gates r.2.2 limit (blockedBy blocked r.1) r.2.1 ∧
    SharedDebugger.Made vm r.2.2

theorem Holds.blockFound (hV : V.Exact bad gates Rep fail) (hbad : ¬ bad ∅)
    (h : Holds V Rep gates vm limit blocked f) (hsub : suspects ⊆ gates)
    {r : Option CorrectionSet × X × VariableManager} (hr : DebugAnswer bad suspects limit blocked r.1 ∧
      V.Idle Rep r.2.2 limit (blockedBy blocked r.1) r.2.1 ∧ SharedDebugger.Made vm r.2.2) :
    Meets (Answered V Rep bad gates suspects vm limit blocked) fail (f.blockFound V r) := by
  obtain ⟨answer, solver, vm'⟩ := r
  obtain ⟨hanswer, hsolver, hmade⟩ := hr
  have hinf := h.solverInf.later hmade.le
  cases answer with
  | none =>
    refine ⟨hanswer, ⟨hsolver, ?_⟩, hmade⟩
    rw [BasicMCSFinder.blockedBy_none]
    exact hinf
  | some corr =>
    have hne : corr ≠ [] := by
      rintro rfl
      exact hbad hanswer.2.2.1
    have hblock : Meets _ fail (V.act vm' f.solverInf (V.blockSolution · corr)) :=
      hV.act hmade.inv hinf fun _ hx ↦ (hV.exact _).blockSolution hx (List.Subset.trans hanswer.1 hsub) hne
    exact hblock.bind fun r hr ↦ ⟨hanswer, ⟨hsolver.later hr.2.le, hr.1⟩, hmade.trans hr.2⟩

theorem Holds.findAndBlock (hV : V.Exact bad gates Rep fail) (hbad : ¬ bad ∅) (hvm : vm.Inv)
    (h : Holds V Rep gates vm limit blocked f) :
    Meets (Answered V Rep bad gates gates vm limit blocked) fail (f.findAndBlock V vm) :=
  (hV.ask hvm h.solver fun _ hx ↦ (hV.exact _).debugAndBlock hbad hx).bind fun _ hr ↦
    h.blockFound hV hbad (List.Subset.refl gates) hr

theorem Holds.findAndBlockOverGates (hV : V.Exact bad gates Rep fail) (hbad : ¬ bad ∅) (hvm : vm.Inv)
    (h : Holds V Rep gates vm limit blocked f) (hsub : suspects ⊆ gates) :
    Meets (Answered V Rep bad gates suspects vm limit blocked) fail (f.findAndBlockOverGates V vm suspects) :=
  (hV.ask hvm h.solver fun _ hx ↦ (hV.exact _).debugAndBlockOverGates hbad hsub hx).bind fun _ hr ↦
    h.blockFound hV hbad hsub hr

theorem Holds.blockSolution (hV : V.Exact bad gates Rep fail) (hvm : vm.Inv)
    (h : Holds V Rep gates vm limit blocked f) (hsub : corr ⊆ gates) (hne : corr ≠ []) :
    Meets (fun r ↦ Holds V Rep gates r.2 limit (blocked ++ [corr.toFinset]) r.1 ∧ SharedDebugger.Made vm r.2) fail
      (f.blockSolution V vm corr) := by
  have hblock : ∀ {vm : VariableManager} {limit : ℕ} {x : X}, vm.Inv → V.Idle Rep vm limit blocked x →
      Meets (fun r ↦ V.Idle Rep r.2 limit (blocked ++ [corr.toFinset]) r.1 ∧ SharedDebugger.Made vm r.2) fail
        (V.act vm x (V.blockSolution · corr)) := fun hvm hidle ↦
    hV.act hvm hidle fun _ hx ↦ (hV.exact _).blockSolution hx hsub hne
  unfold MCSFinder.blockSolution
  refine (hblock hvm h.solver).bind fun r hr ↦ (hblock hr.2.inv (h.solverInf.later hr.2.le)).bind fun r' hr' ↦ ?_
  exact ⟨⟨hr.1.later hr'.2.le, hr'.1⟩, hr.2.trans hr'.2⟩

end Contract

theorem new_meets {E : Engines} {fuel : IC3Solver → ℕ} {tr : TransitionRelation} {n : ℕ}
    {d : DebugTransitionRelation} {fail : Failure → Prop} (hd : Debugs tr n d) (useBMC : Bool) (kmax : ℕ)
    {vm : VariableManager} (hvm : vm.Inv) (hfirst : n + 4 * tr.gateIDs.length ≤ vm.nextID) :
    Meets (fun r ↦ Holds (HybridDebugger.shared E fuel) (HybridDebugger.Rep E hd kmax) tr.gateIDs r.2
      tr.gateIDs.length [] r.1 ∧ SharedDebugger.Made vm r.2) fail (new useBMC kmax vm d) := by
  unfold new
  have hsolver : Meets (HybridDebugger.Rep E hd kmax vm.nextID tr.gateIDs.length []) fail (HybridDebugger.new kmax vm d) :=
    HybridDebugger.new_meets hd kmax hvm hfirst
  refine hsolver.bind fun solver h₁ ↦ ?_
  have hinf : Meets (HybridDebugger.Rep E hd kmax solver.vars.nextID tr.gateIDs.length []) fail
      (HybridDebugger.new kmax solver.vars d) :=
    HybridDebugger.new_meets hd kmax h₁.inv (hfirst.trans h₁.le)
  refine hinf.bind fun solverInf h₂ ↦ ?_
  have hmade : SharedDebugger.Made vm solverInf.vars := ⟨h₂.inv, h₁.le.trans h₂.le⟩
  dsimp only
  split
  · exact ⟨⟨⟨⟨_, h₁⟩, h₂.le⟩, ⟨⟨_, h₂⟩, le_rfl⟩⟩, hmade⟩
  · exact ⟨⟨⟨⟨_, h₁.setKMax (Nat.zero_le _)⟩, h₂.le⟩, ⟨⟨_, h₂.setKMax (Nat.zero_le _)⟩, le_rfl⟩⟩, hmade⟩

end MCSFinder

structure ApproximateMCSFinder where
  fallback : IC3Debugger
  solver : BMCDebugger

namespace ApproximateMCSFinder

def new (vm : VariableManager) (d : DebugTransitionRelation) : Result (ApproximateMCSFinder × VariableManager) := do
  let fallback ← IC3Debugger.new vm d
  return (⟨fallback, .new d⟩, fallback.ic3.vars)

section Finder

variable (E : Engines) (fuel : IC3Solver → ℕ) (kMax : ℕ)

def findAndBlockWithBMC (f : ApproximateMCSFinder) (vm : VariableManager) (n : ℕ) :
    Result (Option CorrectionSet × ApproximateMCSFinder × VariableManager) := do
  let (solver, vm) ← f.solver.setCardinality vm n
  let (result, solver) ← solver.debugRangeAndBlock E.sat 0 kMax
  return (result, { f with solver := solver }, vm)

def findAndBlockOverGatesWithBMC (f : ApproximateMCSFinder) (vm : VariableManager) (gates : List ℕ) (n : ℕ) :
    Result (Option CorrectionSet × ApproximateMCSFinder × VariableManager) := do
  let (solver, vm) ← f.solver.setCardinality vm n
  let (result, solver) ← solver.debugOverGatesRangeAndBlock E.sat gates 0 kMax
  return (result, { f with solver := solver }, vm)

/-- A turn of the loop of `findFallback`. -/
def tryFallback (gates : List ℕ) (s : ApproximateMCSFinder × VariableManager) (n : ℕ) :
    Result (Option CorrectionSet × ApproximateMCSFinder × VariableManager) := do
  let V := IC3Debugger.shared E fuel
  let (fallback, vm) ← V.act s.2 s.1.fallback (V.setCardinality · n)
  let (result, fallback, vm) ← V.ask vm fallback (V.debugAndBlockOverGates · gates)
  match result with
  | some corr => return (some corr, { fallback := fallback, solver := ← s.1.solver.blockSolution corr }, vm)
  | none => return (none, { s.1 with fallback := fallback }, vm)

def findFallback (f : ApproximateMCSFinder) (vm : VariableManager) (gates : List ℕ) :
    Result (Option CorrectionSet × ApproximateMCSFinder × VariableManager) :=
  firstFound (tryFallback E fuel gates) (List.range' 1 gates.length) (f, vm)

def findAndBlockOverGates (nMax : ℕ) (f : ApproximateMCSFinder) (vm : VariableManager) (gates : List ℕ) :
    Result (Option CorrectionSet × ApproximateMCSFinder × VariableManager) := do
  let search (s : ApproximateMCSFinder × VariableManager) (n : ℕ) :=
    s.1.findAndBlockOverGatesWithBMC E kMax s.2 gates n
  let (result, f, vm) ← firstFound search (List.range' 1 (min nMax gates.length)) (f, vm)
  if result.isSome then return (result, f, vm) else f.findFallback E fuel vm gates

def blockSolution (f : ApproximateMCSFinder) (vm : VariableManager) (corr : CorrectionSet) :
    Result (ApproximateMCSFinder × VariableManager) := do
  let V := IC3Debugger.shared E fuel
  let (fallback, vm) ← V.act vm f.fallback (V.blockSolution · corr)
  return ({ fallback := fallback, solver := ← f.solver.blockSolution corr }, vm)

end Finder

section Contract

variable {E : Engines} {fuel : IC3Solver → ℕ} {kMax : ℕ} {tr : TransitionRelation} {n : ℕ}
  {d : DebugTransitionRelation} {hd : Debugs tr n d} {fail : Failure → Prop} {vm vm' : VariableManager}
  {fallen blocked : List (Finset ℕ)} {f : ApproximateMCSFinder} {gates : List ℕ} {corr : CorrectionSet}

structure Holds (E : Engines) (fuel : IC3Solver → ℕ) (hd : Debugs tr n d) (vm : VariableManager)
    (fallen blocked : List (Finset ℕ)) (f : ApproximateMCSFinder) : Prop where
  fallback : ∃ limit, (IC3Debugger.shared E fuel).Idle (IC3Debugger.Holding E hd) vm limit fallen f.fallback
  solver : ∃ limit, BMCDebugger.Rep tr n d limit blocked vm f.solver

theorem Holds.later (h : Holds E fuel hd vm fallen blocked f) (hmade : SharedDebugger.Made vm vm') :
    Holds E fuel hd vm' fallen blocked f := by
  obtain ⟨⟨limit, hidle⟩, limit', hrep⟩ := h
  exact ⟨⟨limit, hidle.later hmade.le⟩, limit', hrep.advance hmade.inv hmade.le⟩

theorem new_meets (hd : Debugs tr n d) (hvm : vm.Inv) (hfirst : n + 4 * tr.gateIDs.length ≤ vm.nextID) :
    Meets (fun r ↦ Holds E fuel hd r.2 [] [] r.1 ∧ SharedDebugger.Made vm r.2) fail (new vm d) := by
  have hnew : Meets (IC3Debugger.Rep E hd tr.gateIDs.length []) fail (IC3Debugger.new vm d) :=
    IC3Debugger.new_meets hd hvm hfirst
  refine (hnew.and (IC3Debugger.new_le vm d)).bind fun fallback h ↦ ?_
  obtain ⟨hrep, hle⟩ := h
  have hsolver : BMCDebugger.Rep tr n d tr.gateIDs.length [] fallback.ic3.vars (.new d) :=
    BMCDebugger.rep_new hrep.inv (hfirst.trans hle)
  exact ⟨⟨⟨_, ⟨_, hrep, le_rfl⟩, le_rfl⟩, _, hsolver⟩, hrep.inv, hle⟩

theorem freedBad_of_within {D : Finset ℕ} (h : BMCDebugger.FreedWithin tr 0 kMax D) : tr.FreedBad D := by
  obtain ⟨k, -, hbad⟩ := h
  exact ⟨k, hbad⟩

theorem ne_nil_of_freedBad (hsafe : ¬ tr.FreedBad ∅) (h : tr.FreedBad corr.toFinset) : corr ≠ [] := by
  rintro rfl
  exact hsafe h

theorem blockedAfter_eq {limit : ℕ} {r : Option CorrectionSet} (hsafe : ¬ tr.FreedBad ∅)
    (h : DebugAnswer (BMCDebugger.FreedWithin tr 0 kMax) gates limit blocked r) :
    BMCDebugger.blockedAfter blocked r = blockedBy blocked r := by
  cases r with
  | none => rfl
  | some corr =>
    have hne := ne_nil_of_freedBad hsafe (freedBad_of_within h.2.2.1)
    simp [BMCDebugger.blockedAfter, blockedBy, hne]

def Bounded (E : Engines) (fuel : IC3Solver → ℕ) (hd : Debugs tr n d) (kMax : ℕ) (gates : List ℕ)
    (vm : VariableManager) (limit : ℕ) (fallen blocked : List (Finset ℕ))
    (r : Option CorrectionSet × ApproximateMCSFinder × VariableManager) : Prop :=
  DebugAnswer (BMCDebugger.FreedWithin tr 0 kMax) gates limit blocked r.1 ∧
    Holds E fuel hd r.2.2 fallen (blockedBy blocked r.1) r.2.1 ∧ SharedDebugger.Made vm r.2.2

theorem Holds.bounded (h : Holds E fuel hd vm fallen blocked f) (hpos : tr.gateIDs ≠ [])
    (hids : fail .idsExhausted) (hsafe : ¬ tr.FreedBad ∅) {m : ℕ} (hm : m ≤ tr.gateIDs.length)
    {search : BMCDebugger → Result (Option CorrectionSet × BMCDebugger)}
    (hsearch : ∀ {vm' : VariableManager} {solver : BMCDebugger}, BMCDebugger.Rep tr n d m blocked vm' solver →
      Meets (fun r ↦ DebugAnswer (BMCDebugger.FreedWithin tr 0 kMax) gates m blocked r.1 ∧
        BMCDebugger.Rep tr n d m (BMCDebugger.blockedAfter blocked r.1) vm' r.2) fail (search solver)) :
    Meets (Bounded E fuel hd kMax gates vm m fallen blocked) fail (do
      let (solver, vm) ← f.solver.setCardinality vm m
      let (result, solver) ← search solver
      return (result, { f with solver := solver }, vm)) := by
  obtain ⟨⟨limit, hidle⟩, limit', hrep⟩ := h
  refine (hrep.setCardinality hd hpos hm fun _ ↦ hids).bind fun r hr ↦ ?_
  obtain ⟨solver, vm'⟩ := r
  obtain ⟨hset, hle, -⟩ := hr
  refine (hsearch hset).bind fun r hr ↦ ?_
  obtain ⟨hanswer, hsolver⟩ := hr
  rw [blockedAfter_eq hsafe hanswer] at hsolver
  exact ⟨hanswer, ⟨⟨limit, hidle.later hle⟩, m, hsolver⟩, hset.inv, hle⟩

theorem Holds.findAndBlockWithBMC (h : Holds E fuel hd vm fallen blocked f)
    (hpos : tr.gateIDs ≠ []) (hmany : tr.gateIDs.length < cardinalityInf)
    (hids : fail .idsExhausted ∧ fail .narrowed) (hdeep : maxPrimes ≤ kMax → fail .assertion) (hsafe : ¬ tr.FreedBad ∅)
    {m : ℕ} (hm : m ≤ tr.gateIDs.length) :
    Meets (Bounded E fuel hd kMax tr.gateIDs vm m fallen blocked) fail (f.findAndBlockWithBMC E kMax vm m) :=
  h.bounded hpos hids.1 hsafe hm fun hrep ↦
    BMCDebugger.debugRangeAndBlock_meets E.sat hrep hd hmany (fun _ ↦ hids.2) 0 hdeep

theorem Holds.findAndBlockOverGatesWithBMC (h : Holds E fuel hd vm fallen blocked f)
    (hpos : tr.gateIDs ≠ []) (hmany : tr.gateIDs.length < cardinalityInf)
    (hids : fail .idsExhausted ∧ fail .narrowed) (hdeep : maxPrimes ≤ kMax → fail .assertion) (hsafe : ¬ tr.FreedBad ∅)
    (hsub : gates ⊆ tr.gateIDs) {m : ℕ} (hm : m ≤ tr.gateIDs.length) :
    Meets (Bounded E fuel hd kMax gates vm m fallen blocked) fail
      (f.findAndBlockOverGatesWithBMC E kMax vm gates m) :=
  h.bounded hpos hids.1 hsafe hm fun hrep ↦
    BMCDebugger.debugOverGatesRangeAndBlock_meets E.sat hrep hd hmany (fun _ ↦ hids.2) hsub 0 hdeep

def Exhausts (tr : TransitionRelation) (gates : List ℕ) (fallen : List (Finset ℕ)) : Option CorrectionSet → Prop
  | some corr => corr ⊆ gates ∧ tr.FreedBad corr.toFinset
  | none => ∀ D ⊆ gates.toFinset, tr.FreedBad D → ¬ Unblocked fallen D

def Exhausted (E : Engines) (fuel : IC3Solver → ℕ) (hd : Debugs tr n d) (gates : List ℕ) (vm : VariableManager)
    (fallen : List (Finset ℕ)) (r : Option CorrectionSet × ApproximateMCSFinder × VariableManager) : Prop :=
  Exhausts tr gates fallen r.1 ∧ SharedDebugger.Made vm r.2.2 ∧
    ∃ fallen' blocked', Holds E fuel hd r.2.2 fallen' blocked' r.2.1 ∧ fallen' ⊆ blockedBy fallen r.1

theorem Holds.tryFallback (h : Holds E fuel hd vm fallen blocked f) (hvm : vm.Inv) (hpos : tr.gateIDs ≠ [])
    (hmany : tr.gateIDs.length < cardinalityInf) (hids : fail .idsExhausted ∧ fail .narrowed)
    (hfuel : ∀ st, st.fuelBound ≤ fuel st) (hsafe : ¬ tr.FreedBad ∅) (hsub : gates ⊆ tr.gateIDs) {m : ℕ}
    (hm : m ≤ tr.gateIDs.length) :
    Meets (fun r ↦ DebugAnswer tr.FreedBad gates m fallen r.1 ∧ SharedDebugger.Made vm r.2.2 ∧
      ∃ blocked', Holds E fuel hd r.2.2 (blockedBy fallen r.1) blocked' r.2.1) fail
      (tryFallback E fuel gates (f, vm) m) := by
  have hV := IC3Debugger.shared_exact (E := E) hd hpos hmany hids hfuel
  obtain ⟨⟨limit, hidle⟩, limit', hrep⟩ := h
  unfold ApproximateMCSFinder.tryFallback
  refine (hV.act hvm hidle fun _ hx ↦ hV.setCardinality hx hm).bind fun r hr ↦ ?_
  obtain ⟨fallback, vm₁⟩ := r
  obtain ⟨hidle₁, hmade₁⟩ := hr
  refine (hV.ask hmade₁.inv hidle₁ fun _ hx ↦ (hV.exact _).debugAndBlockOverGates hsafe hsub hx).bind fun r hr ↦ ?_
  obtain ⟨answer, fallback', vm₂⟩ := r
  obtain ⟨hanswer, hidle₂, hmade₂⟩ := hr
  have hmade := hmade₁.trans hmade₂
  have hrep₂ := hrep.advance hmade.inv hmade.le
  cases answer with
  | none => exact ⟨hanswer, hmade, blocked, ⟨m, hidle₂⟩, limit', hrep₂⟩
  | some corr =>
    have hne := ne_nil_of_freedBad hsafe hanswer.2.2.1
    refine (hrep₂.blockSolution hne (List.Subset.trans hanswer.1 hsub)).bind fun solver hsolver ↦ ?_
    exact ⟨hanswer, hmade, _, ⟨m, hidle₂⟩, limit', hsolver⟩

theorem Holds.findFallback (h : Holds E fuel hd vm fallen blocked f) (hvm : vm.Inv) (hpos : tr.gateIDs ≠ [])
    (hmany : tr.gateIDs.length < cardinalityInf) (hids : fail .idsExhausted ∧ fail .narrowed)
    (hfuel : ∀ st, st.fuelBound ≤ fuel st) (hsafe : ¬ tr.FreedBad ∅) (hsub : gates ⊆ tr.gateIDs)
    (hlen : gates.length ≤ tr.gateIDs.length) :
    Meets (Exhausted E fuel hd gates vm fallen) fail (f.findFallback E fuel vm gates) := by
  have hloop : Meets (Found (fun corr s ↦ Exhausted E fuel hd gates vm fallen (some corr, s))
      fun s ↦ SharedDebugger.Made vm s.2 ∧ Covers tr.FreedBad gates.toFinset fallen gates.length ∧
        ∃ blocked', Holds E fuel hd s.2 fallen blocked' s.1) fail (f.findFallback E fuel vm gates) := by
    have hstart : Covers tr.FreedBad gates.toFinset fallen 0 := by
      intro t _ hcard hfreed
      rw [Finset.card_eq_zero.mp (Nat.le_zero.mp hcard)] at hfreed
      exact absurd hfreed hsafe
    rw [← List.length_range' (s := 1) (n := gates.length)]
    refine firstFound_meets (fun done (s : ApproximateMCSFinder × VariableManager) ↦ SharedDebugger.Made vm s.2 ∧
      Covers tr.FreedBad gates.toFinset fallen done.length ∧ ∃ blocked', Holds E fuel hd s.2 fallen blocked' s.1)
      ⟨.refl hvm, hstart, blocked, h⟩ ?_
    · intro done m rest s hl hs
      obtain ⟨hmade, -, blocked', hholds⟩ := hs
      obtain ⟨hm, hlt⟩ := BMCCorrectionSetFinder.range'_split hl
      refine (hholds.tryFallback hmade.inv hpos hmany hids hfuel hsafe hsub (by omega)).imp fun r hr ↦ ?_
      obtain ⟨answer, s'⟩ := r
      obtain ⟨hanswer, hmade', blocked'', hholds'⟩ := hr
      cases answer with
      | some corr =>
        exact ⟨⟨hanswer.1, hanswer.2.2.1⟩, hmade.trans hmade', _, blocked'', hholds', List.Subset.refl _⟩
      | none =>
        rw [BasicMCSFinder.blockedBy_none] at hholds'
        rw [found_none, List.length_append, List.length_singleton, ← hm]
        exact ⟨hmade.trans hmade', hanswer, blocked'', hholds'⟩
  refine hloop.imp fun r hr ↦ ?_
  obtain ⟨answer, s⟩ := r
  cases answer with
  | some corr => exact hr
  | none =>
    obtain ⟨hmade, hcovers, blocked', hholds⟩ := hr
    refine ⟨fun D hD ↦ hcovers D hD ((Finset.card_le_card hD).trans (List.toFinset_card_le _)), hmade, fallen, blocked',
      hholds, ?_⟩
    rw [BasicMCSFinder.blockedBy_none]
    exact List.Subset.refl _

theorem Holds.findAndBlockOverGates (h : Holds E fuel hd vm fallen blocked f) (hvm : vm.Inv)
    (hpos : tr.gateIDs ≠ []) (hmany : tr.gateIDs.length < cardinalityInf)
    (hids : fail .idsExhausted ∧ fail .narrowed) (hdeep : maxPrimes ≤ kMax → fail .assertion)
    (hfuel : ∀ st, st.fuelBound ≤ fuel st) (hsafe : ¬ tr.FreedBad ∅) (hsub : gates ⊆ tr.gateIDs)
    (hlen : gates.length ≤ tr.gateIDs.length) (nMax : ℕ) :
    Meets (Exhausted E fuel hd gates vm fallen) fail (f.findAndBlockOverGates E fuel kMax nMax vm gates) := by
  have hsearch : Meets (Found (fun corr s ↦ Exhausted E fuel hd gates vm fallen (some corr, s))
      fun s ↦ SharedDebugger.Made vm s.2 ∧ ∃ blocked', Holds E fuel hd s.2 fallen blocked' s.1) fail
      (firstFound (fun (s : ApproximateMCSFinder × VariableManager) n ↦
        s.1.findAndBlockOverGatesWithBMC E kMax s.2 gates n) (List.range' 1 (min nMax gates.length)) (f, vm)) := by
    refine firstFound_meets (fun _ (s : ApproximateMCSFinder × VariableManager) ↦ SharedDebugger.Made vm s.2 ∧
      ∃ blocked', Holds E fuel hd s.2 fallen blocked' s.1) ⟨.refl hvm, blocked, h⟩ ?_
    intro done m rest s hl hs
    obtain ⟨hmade, blocked', hholds⟩ := hs
    obtain ⟨hm, hlt⟩ := BMCCorrectionSetFinder.range'_split hl
    refine (hholds.findAndBlockOverGatesWithBMC hpos hmany hids hdeep hsafe hsub (by omega)).imp fun r hr ↦ ?_
    obtain ⟨answer, s'⟩ := r
    obtain ⟨hanswer, hholds', hmade'⟩ := hr
    cases answer with
    | some corr =>
      exact ⟨⟨hanswer.1, freedBad_of_within hanswer.2.2.1⟩, hmade.trans hmade', fallen, _, hholds',
        List.subset_append_left _ _⟩
    | none => exact ⟨hmade.trans hmade', _, hholds'⟩
  unfold ApproximateMCSFinder.findAndBlockOverGates
  refine hsearch.bind fun r hr ↦ ?_
  obtain ⟨answer, f', vm'⟩ := r
  cases answer with
  | some corr => exact hr
  | none =>
    obtain ⟨hmade, blocked', hholds⟩ := hr
    refine (hholds.findFallback hmade.inv hpos hmany hids hfuel hsafe hsub hlen).imp fun r hr ↦ ?_
    exact ⟨hr.1, hmade.trans hr.2.1, hr.2.2⟩

end Contract

end ApproximateMCSFinder

end PME
