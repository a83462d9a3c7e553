import PME.HybridDebugger

namespace PME

open Outcome Exploration DebugTransitionRelation IC3

structure SharedDebugger (X : Type) extends Debugger X where
  vars : X → VariableManager
  withVars : X → VariableManager → X

namespace SharedDebugger

variable {X α : Type}

def ask (V : SharedDebugger X) (vm : VariableManager) (x : X) (op : X → Result (α × X)) :
    Result (α × X × VariableManager) := do
  let (a, x) ← op (V.withVars x vm)
  return (a, x, V.vars x)

def act (V : SharedDebugger X) (vm : VariableManager) (x : X) (op : X → Result X) : Result (X × VariableManager) := do
  let x ← op (V.withVars x vm)
  return (x, V.vars x)

/-- The virtual functions, with the manager beside the debugger. -/
def paired (V : SharedDebugger X) : Debugger (X × VariableManager) where
  setCardinality x n := V.act x.2 x.1 (V.setCardinality · n)
  clearCardinality x := V.act x.2 x.1 V.clearCardinality
  debug x := V.ask x.2 x.1 V.debug
  debugOverGates x gates := V.ask x.2 x.1 (V.debugOverGates · gates)
  blockSolution x soln := V.act x.2 x.1 (V.blockSolution · soln)

/-- A shared debugger answers exactly, and makes variables but gives none back: `Rep lo limit blocked x`
says that there are at least `lo` IDs. -/
structure Exact (V : SharedDebugger X) (bad : Finset ℕ → Prop) (gates : List ℕ)
    (Rep : ℕ → ℕ → List (Finset ℕ) → X → Prop) (fail : Failure → Prop) : Prop where
  exact : ∀ lo, V.toDebugger.Exact bad gates (Rep lo) fail
  setCardinality : ∀ {lo limit blocked x n}, Rep lo limit blocked x → n ≤ gates.length →
    Meets (Rep lo n blocked) fail (V.setCardinality x n)
  inv : ∀ {lo limit blocked x}, Rep lo limit blocked x → (V.vars x).Inv ∧ lo ≤ (V.vars x).nextID
  advance : ∀ {lo limit blocked x vm}, Rep lo limit blocked x → vm.Inv → (V.vars x).nextID ≤ vm.nextID →
    Rep vm.nextID limit blocked (V.withVars x vm)

structure Idle (V : SharedDebugger X) (Rep : ℕ → ℕ → List (Finset ℕ) → X → Prop) (vm : VariableManager)
    (limit : ℕ) (blocked : List (Finset ℕ)) (x : X) : Prop where
  rep : ∃ lo, Rep lo limit blocked x
  le : (V.vars x).nextID ≤ vm.nextID

variable {V : SharedDebugger X} {bad : Finset ℕ → Prop} {gates : List ℕ}
  {Rep : ℕ → ℕ → List (Finset ℕ) → X → Prop} {fail : Failure → Prop} {vm vm' : VariableManager} {limit : ℕ}
  {blocked : List (Finset ℕ)} {x : X}

theorem Idle.later (h : V.Idle Rep vm limit blocked x) (hle : vm.nextID ≤ vm'.nextID) :
    V.Idle Rep vm' limit blocked x := ⟨h.rep, h.le.trans hle⟩

structure Made (vm vm' : VariableManager) : Prop where
  inv : vm'.Inv
  le : vm.nextID ≤ vm'.nextID

theorem Made.refl (h : vm.Inv) : Made vm vm := ⟨h, le_rfl⟩

theorem Made.trans {vm'' : VariableManager} (h : Made vm vm') (h' : Made vm' vm'') : Made vm vm'' :=
  ⟨h'.inv, h.le.trans h'.le⟩

theorem Exact.idle (h : V.Exact bad gates Rep fail) {lo : ℕ} (hx : Rep lo limit blocked x) :
    V.Idle Rep (V.vars x) limit blocked x ∧ (V.vars x).Inv ∧ lo ≤ (V.vars x).nextID :=
  ⟨⟨⟨lo, hx⟩, le_rfl⟩, h.inv hx⟩

theorem Exact.ask (h : V.Exact bad gates Rep fail) (hvm : vm.Inv) (hx : V.Idle Rep vm limit blocked x)
    {op : X → Result (α × X)} {post : α → Prop} {m : ℕ} {B : α → List (Finset ℕ)}
    (hop : ∀ x', Rep vm.nextID limit blocked x' →
      Meets (fun r ↦ post r.1 ∧ Rep vm.nextID m (B r.1) r.2) fail (op x')) :
    Meets (fun r ↦ post r.1 ∧ V.Idle Rep r.2.2 m (B r.1) r.2.1 ∧ Made vm r.2.2) fail
      (V.ask vm x op) := by
  obtain ⟨lo, hrep⟩ := hx.rep
  refine (hop _ (h.advance hrep hvm hx.le)).bind fun r hr ↦ ?_
  obtain ⟨hidle, hinv, hle⟩ := h.idle hr.2
  exact ⟨hr.1, hidle, hinv, hle⟩

theorem Exact.act (h : V.Exact bad gates Rep fail) (hvm : vm.Inv) (hx : V.Idle Rep vm limit blocked x)
    {op : X → Result X} {limit' : ℕ} {blocked' : List (Finset ℕ)}
    (hop : ∀ x', Rep vm.nextID limit blocked x' → Meets (Rep vm.nextID limit' blocked') fail (op x')) :
    Meets (fun r ↦ V.Idle Rep r.2 limit' blocked' r.1 ∧ Made vm r.2) fail (V.act vm x op) := by
  obtain ⟨lo, hrep⟩ := hx.rep
  refine (hop _ (h.advance hrep hvm hx.le)).bind fun x' hx' ↦ ?_
  obtain ⟨hidle, hinv, hle⟩ := h.idle hx'
  exact ⟨hidle, hinv, hle⟩

end SharedDebugger

section Instances

variable {E : Engines} {tr : TransitionRelation} {n : ℕ} {d : DebugTransitionRelation} {fail : Failure → Prop}
  {fuel : IC3Solver → ℕ}

namespace IC3Debugger

def shared (E : Engines) (fuel : IC3Solver → ℕ) : SharedDebugger IC3Debugger where
  toDebugger := asDebugger E fuel
  vars s := s.ic3.vars
  withVars s vm := { s with ic3 := { s.ic3 with vars := vm } }

def Holding (E : Engines) (hd : Debugs tr n d) (lo limit : ℕ) (blocked : List (Finset ℕ)) (s : IC3Debugger) : Prop :=
  Rep E hd limit blocked s ∧ lo ≤ s.ic3.vars.nextID

theorem shared_exact (hd : Debugs tr n d) (hpos : tr.gateIDs ≠ []) (hmany : tr.gateIDs.length < cardinalityInf)
    (hids : fail .idsExhausted ∧ fail .narrowed) (hfuel : ∀ st, st.fuelBound ≤ fuel st) :
    (shared E fuel).Exact tr.FreedBad tr.gateIDs (Holding E hd) fail := by
  have hset : ∀ {lo limit blocked s m}, Holding E hd lo limit blocked s → m ≤ tr.gateIDs.length →
      Meets (Holding E hd lo m blocked) fail (s.setCardinality m) := fun {lo limit blocked s m} h hm ↦
    ((h.1.setCardinality hpos hmany hids (.inr ⟨rfl, hm⟩)).and (h.1.setCardinality_le hpos m)).imp fun _ hs ↦
      ⟨hs.1, h.2.trans hs.2⟩
  refine ⟨fun lo ↦ ⟨fun h hm ↦ hset h hm.le, fun h ↦ ?_, fun h ↦ ?_, fun h hsub ↦ ?_, fun h hsub hne ↦ ?_⟩, hset,
    fun h ↦ ⟨h.1.inv, h.2⟩, fun h hvm hle ↦ ⟨h.1.advance hvm hle, le_rfl⟩⟩
  · exact ((h.1.clearCardinality hmany hids.1).and (clearCardinality_le _)).imp fun _ hs ↦ ⟨hs.1, h.2.trans hs.2⟩
  · exact ((h.1.debug hpos hids.1 hfuel).and (prove_le E fuel _)).imp fun _ hr ↦
      ⟨hr.1.1, hr.1.2, h.2.trans hr.2⟩
  · exact (h.1.debugOverGates hpos hmany hids hfuel hsub).imp fun _ hr ↦ ⟨hr.1.1, hr.1.2, h.2.trans hr.2⟩
  · exact ((h.1.blockSolution hids.1 hne hsub).and (blockSolution_le _ _)).imp fun _ hs ↦
      ⟨hs.1, h.2.trans hs.2⟩

end IC3Debugger

namespace HybridDebugger

def shared (E : Engines) (fuel : IC3Solver → ℕ) : SharedDebugger HybridDebugger where
  toDebugger := asDebugger E fuel
  vars := vars
  withVars := withVars

theorem shared_exact (hd : Debugs tr n d) (hpos : tr.gateIDs ≠ []) (hmany : tr.gateIDs.length < cardinalityInf)
    (hids : fail .idsExhausted ∧ fail .narrowed) {kmax : ℕ} (hdeep : maxPrimes ≤ kmax → fail .assertion)
    (hfuel : ∀ st, st.fuelBound ≤ fuel st) :
    (shared E fuel).Exact tr.FreedBad tr.gateIDs (Rep E hd kmax) fail where
  exact _ := asDebugger_exact hd hpos hmany hids hdeep hfuel
  setCardinality h hm := h.setCardinality hpos hmany hids hm
  inv h := ⟨h.inv, h.le⟩
  advance h hvm hle := h.advance hvm hle

end HybridDebugger

end Instances

end PME
