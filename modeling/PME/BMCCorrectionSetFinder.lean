import PME.SharedDebugger
import PME.Lib.FirstFound

namespace PME

open Outcome Exploration DebugTransitionRelation

structure BMCOptions where
  mcsBmcKMax : ℕ
  mcsBmcKMin : ℕ
  mcsBmcNMax : ℕ
  mcsTryToExhaust : Bool

/-- The finder, with the debugger of IC3 as a state of type `X`, and the variable manager that
both debuggers share. -/
structure BMCCorrectionSetFinder (X : Type) where
  vars : VariableManager
  bmc : BMCDebugger
  ic3 : X
  exhaustedCardinality : ℕ
  kMax : ℕ
  kMin : ℕ
  exhausted : List (ℕ × ℕ)

namespace BMCCorrectionSetFinder

variable {X : Type}

def new (opts : BMCOptions) (vars : VariableManager) (tr : DebugTransitionRelation) (ic3 : X) :
    BMCCorrectionSetFinder X where
  vars := vars
  bmc := .new tr
  ic3 := ic3
  exhaustedCardinality := 0
  kMax := opts.mcsBmcKMax
  kMin := opts.mcsBmcKMin
  exhausted := []

section Finder

variable (S : SAT.Solver) (V : Debugger (X × VariableManager)) (opts : BMCOptions)

def numGates (f : BMCCorrectionSetFinder X) : ℕ := f.bmc.tr.gates.length

def setBMCCardinality (f : BMCCorrectionSetFinder X) (n : ℕ) : Result (BMCCorrectionSetFinder X) := do
  if n ≥ f.numGates then return { f with bmc := f.bmc.clearCardinality } else do
  let (bmc, vars) ← f.bmc.setCardinality f.vars n
  return { f with bmc := bmc, vars := vars }

def block (f : BMCCorrectionSetFinder X) (corr : CorrectionSet) : Result (BMCCorrectionSetFinder X) := do
  let bmc ← f.bmc.blockSolution corr
  let (ic3, vars) ← V.blockSolution (f.ic3, f.vars) corr
  return { f with bmc := bmc, ic3 := ic3, vars := vars }

def exhaust (f : BMCCorrectionSetFinder X) (k n : ℕ) : BMCCorrectionSetFinder X :=
  { f with exhausted := (k, n) :: f.exhausted }

def isExhausted (f : BMCCorrectionSetFinder X) (k n : ℕ) : Bool :=
  decide (n ≤ f.exhaustedCardinality) || f.exhausted.contains (k, n)

/-- What `findAt` does with the debugger's answer. -/
def blockFound (r : Option CorrectionSet × BMCCorrectionSetFinder X) :
    Result (Option CorrectionSet × BMCCorrectionSetFinder X) :=
  match r with
  | (some corr, f) => do return (some corr, ← block V f corr)
  | (none, f) => return (none, f)

def findAt (f : BMCCorrectionSetFinder X) (k cardinality : ℕ) :
    Result (Option CorrectionSet × BMCCorrectionSetFinder X) := do
  if f.isExhausted k cardinality then return (none, f) else do
  let f ← f.setBMCCardinality cardinality
  let (corr, bmc) ← f.bmc.debugAtK S k
  blockFound V (corr, { f with bmc := bmc })

def findAtOverGates (f : BMCCorrectionSetFinder X) (gates : List ℕ) (k cardinality : ℕ) :
    Result (Option CorrectionSet × BMCCorrectionSetFinder X) := do
  if f.isExhausted k cardinality then return (none, f) else do
  let f ← f.setBMCCardinality cardinality
  let (corr, bmc) ← f.bmc.debugOverGatesAtK S gates k
  blockFound V (corr, { f with bmc := bmc })

def checkAt (f : BMCCorrectionSetFinder X) (k cardinality : ℕ) :
    Result (Bool × BMCCorrectionSetFinder X) := do
  if f.isExhausted k cardinality then return (false, f) else do
  let f ← f.setBMCCardinality cardinality
  let (corr, bmc) ← f.bmc.debugAtK S k
  return (corr.isSome, { f with bmc := bmc })

def moreCorrectionSetsBMC (f : BMCCorrectionSetFinder X) (n : ℕ) :
    Result (Bool × BMCCorrectionSetFinder X) := do
  let f ← f.setBMCCardinality n
  let (corr, bmc) ← f.bmc.debugRange S 0 f.kMax
  return (corr.isSome, { f with bmc := bmc })

def moreCorrectionSetsIC3 (f : BMCCorrectionSetFinder X) (n : ℕ) :
    Result (Bool × BMCCorrectionSetFinder X) := do
  let (ic3, vars) ← (if n ≥ f.numGates then V.clearCardinality (f.ic3, f.vars)
    else V.setCardinality (f.ic3, f.vars) n)
  let (corr, ic3, vars) ← V.debug (ic3, vars)
  return (corr.isSome, { f with ic3 := ic3, vars := vars })

def moreCorrectionSets (f : BMCCorrectionSetFinder X) (n : ℕ) :
    Result (Bool × BMCCorrectionSetFinder X) := do
  let (more, f) ← moreCorrectionSetsBMC S f n
  if more then return (true, f) else moreCorrectionSetsIC3 V f n

/-- The loop of `findFallback(gates, n)` over the cardinalities that are left. It asks after
every cardinality whether there is anything left to find. -/
def findFallbackFrom (gates : List ℕ) :
    List ℕ → BMCCorrectionSetFinder X → Result (Option CorrectionSet × BMCCorrectionSetFinder X)
  | [], f => return (none, f)
  | cardinality :: rest, f => do
    let (ic3, vars) ← V.setCardinality (f.ic3, f.vars) cardinality
    let (corr, ic3, vars) ← V.debugOverGates (ic3, vars) gates
    let f := { f with ic3 := ic3, vars := vars }
    match corr with
    | some corr => return (some corr, ← block V f corr)
    | none => do
      let (more, f) ← moreCorrectionSets S V f cardinalityInf
      if more then findFallbackFrom gates rest f else return (none, f)

/-- The cardinalities from the first that is not exhausted to `nMax`. -/
def cardinalities (f : BMCCorrectionSetFinder X) (nMax : ℕ) : List ℕ :=
  List.range' (f.exhaustedCardinality + 1) (nMax - f.exhaustedCardinality)

def findFallbackOverGates (f : BMCCorrectionSetFinder X) (gates : List ℕ) (n : ℕ) :
    Result (Option CorrectionSet × BMCCorrectionSetFinder X) :=
  findFallbackFrom S V gates (f.cardinalities (min n gates.length)) f

/-- The body of the loops of `findNext(gates, n)`. -/
def tryAtOverGates (gates : List ℕ) (cardinality : ℕ) (f : BMCCorrectionSetFinder X) (k : ℕ) :
    Result (Option CorrectionSet × BMCCorrectionSetFinder X) := do
  let (result, f) ← findAtOverGates S V f gates k cardinality
  match result with
  | some corr => return (some corr, f)
  | none =>
    if opts.mcsTryToExhaust then do
      let (more, f) ← checkAt S f k cardinality
      return (none, if more then f else f.exhaust k cardinality)
    else return (none, f)

def tryCardinalityOverGates (gates : List ℕ) (f : BMCCorrectionSetFinder X) (cardinality : ℕ) :
    Result (Option CorrectionSet × BMCCorrectionSetFinder X) :=
  firstFound (tryAtOverGates S V opts gates cardinality) (List.range (f.kMax + 1)) f

def findNextOverGates (f : BMCCorrectionSetFinder X) (gates : List ℕ) (n : ℕ) :
    Result (Option CorrectionSet × BMCCorrectionSetFinder X) := do
  let nMax := min (min n gates.length) opts.mcsBmcNMax
  let (result, f) ← firstFound (tryCardinalityOverGates S V opts gates) (f.cardinalities nMax) f
  match result with
  | some corr => return (some corr, f)
  | none => findFallbackOverGates S V f gates n

/-- The body of the loops of `findNext(n)`. -/
def tryAt (cardinality : ℕ) (f : BMCCorrectionSetFinder X) (k : ℕ) :
    Result (Option CorrectionSet × BMCCorrectionSetFinder X) := do
  let (result, f) ← findAt S V f k cardinality
  match result with
  | some corr => return (some corr, f)
  | none => return (none, f.exhaust k cardinality)

def tryCardinality (f : BMCCorrectionSetFinder X) (cardinality : ℕ) :
    Result (Option CorrectionSet × BMCCorrectionSetFinder X) :=
  firstFound (tryAt S V cardinality) (List.range (f.kMax + 1)) f

def findNext (f : BMCCorrectionSetFinder X) (n : ℕ) :
    Result (Option CorrectionSet × BMCCorrectionSetFinder X) :=
  firstFound (tryCardinality S V) (f.cardinalities (min (min n f.numGates) opts.mcsBmcNMax)) f

/-- The loop of `findAll`, with the sets found so far. -/
def findAllFrom (n : ℕ) : ℕ → List CorrectionSet → BMCCorrectionSetFinder X →
    Result (List CorrectionSet × BMCCorrectionSetFinder X)
  | 0, _, _ => throw .outOfFuel
  | fuel + 1, results, f => do
    let (corr, f) ← findNext S V opts f n
    match corr with
    | some corr => findAllFrom n fuel (results ++ [corr]) f
    | none => return (results, f)

def findAll (fuel : ℕ) (f : BMCCorrectionSetFinder X) (n : ℕ) :
    Result (List CorrectionSet × BMCCorrectionSetFinder X) := findAllFrom S V opts n fuel [] f

structure Batch (X : Type) where
  k : ℕ
  lastSoln : ℕ
  result : List CorrectionSet
  finder : BMCCorrectionSetFinder X

/-- The heuristic at the end of a turn: the search gives up when a few steps have had no
solution, and the step it has come to is the new maximum. -/
def giveUp (b : Batch X) : Result (Batch X ⊕ List CorrectionSet × BMCCorrectionSetFinder X) := do
  ensure (decide (b.finder.kMin ≤ b.finder.kMax))
  if b.k - b.lastSoln ≥ 3 ∧ b.k ≥ b.finder.kMin then
    return .inr (b.result, { b.finder with kMax := b.k })
  else return .inl b

def batchTurn (n : ℕ) (b : Batch X) :
    Result (Batch X ⊕ List CorrectionSet × BMCCorrectionSetFinder X) := do
  if b.k ≤ b.finder.kMax then do
    let (corr, f) ← findAt S V b.finder b.k n
    match corr with
    | some corr => giveUp ⟨b.k, b.k, b.result ++ [corr], { f with kMin := max f.kMin b.k }⟩
    | none => giveUp ⟨b.k + 1, b.lastSoln, b.result, f.exhaust b.k n⟩
  else return .inr (b.result, b.finder)

def findBatchAt (fuel n : ℕ) (s : List CorrectionSet × BMCCorrectionSetFinder X) :
    Result (List CorrectionSet × BMCCorrectionSetFinder X) :=
  loop .outOfFuel (batchTurn S V n) fuel ⟨0, 0, s.1, s.2⟩

def findBatch (fuel : ℕ) (f : BMCCorrectionSetFinder X) (n : ℕ) :
    Result (List CorrectionSet × BMCCorrectionSetFinder X) :=
  let nMax := min (min n f.numGates) opts.mcsBmcNMax
  (List.range' 1 nMax).foldlM (fun s n ↦ findBatchAt S V fuel n s) ([], f)

end Finder

/-- A debugger that shares its variable manager, keeps an invariant, and finds sets of gates, which
are empty only where the circuit is bad as it is. Of its calls only `blockSolution` has to succeed. -/
structure Yields (V : Debugger (X × VariableManager)) (tr : TransitionRelation)
    (I : X → VariableManager → Prop) (fail : Failure → Prop) : Prop where
  advance : ∀ {x vm vm'}, I x vm → VariableManager.Inv vm' → vm.nextID ≤ vm'.nextID → I x vm'
  setCardinality : ∀ {x vm}, vm.Inv → I x vm → ∀ n, Meets
    (fun r ↦ I r.1 r.2 ∧ r.2.Inv ∧ vm.nextID ≤ r.2.nextID) (fun _ ↦ True) (V.setCardinality (x, vm) n)
  clearCardinality : ∀ {x vm}, vm.Inv → I x vm → Meets
    (fun r ↦ I r.1 r.2 ∧ r.2.Inv ∧ vm.nextID ≤ r.2.nextID) (fun _ ↦ True) (V.clearCardinality (x, vm))
  debug : ∀ {x vm}, vm.Inv → I x vm → Meets
    (fun r ↦ I r.2.1 r.2.2 ∧ r.2.2.Inv ∧ vm.nextID ≤ r.2.2.nextID) (fun _ ↦ True) (V.debug (x, vm))
  debugOverGates : ∀ {x vm}, vm.Inv → I x vm → ∀ suspects ⊆ tr.gateIDs, Meets
    (fun r ↦ (I r.2.1 r.2.2 ∧ r.2.2.Inv ∧ vm.nextID ≤ r.2.2.nextID) ∧
      ∀ soln, r.1 = some soln → soln ⊆ tr.gateIDs ∧ (soln = [] → tr.FreedBad ∅)) (fun _ ↦ True)
    (V.debugOverGates (x, vm) suspects)
  blockSolution : ∀ {x vm}, vm.Inv → I x vm → ∀ soln, soln ≠ [] → soln ⊆ tr.gateIDs → Meets
    (fun r ↦ I r.1 r.2 ∧ r.2 = vm) fail (V.blockSolution (x, vm) soln)

structure Grounds (V : Debugger (X × VariableManager)) (tr : TransitionRelation) (n : ℕ)
    (d : DebugTransitionRelation) (I : X → VariableManager → Prop) (fail : Failure → Prop) : Prop where
  debugs : Debugs tr n d
  many : tr.gateIDs.length < cardinalityInf
  yields : Yields V tr I fail

structure Setting (V : Debugger (X × VariableManager)) (tr : TransitionRelation) (n : ℕ)
    (d : DebugTransitionRelation) (I : X → VariableManager → Prop) (fail : Failure → Prop) : Prop
    extends Grounds V tr n d I fail where
  safe : ∀ k, ¬ tr.FreedBadAt ∅ k

theorem Yields.weaken {V : Debugger (X × VariableManager)} {tr : TransitionRelation}
    {I : X → VariableManager → Prop} {fail fail' : Failure → Prop} (h : Yields V tr I fail)
    (hf : ∀ e, fail e → fail' e) : Yields V tr I fail' where
  advance := h.advance
  setCardinality := h.setCardinality
  clearCardinality := h.clearCardinality
  debug := h.debug
  debugOverGates := h.debugOverGates
  blockSolution hvm hI soln hne hsub := (h.blockSolution hvm hI soln hne hsub).weaken hf

theorem Setting.weaken {V : Debugger (X × VariableManager)} {tr : TransitionRelation} {n : ℕ}
    {d : DebugTransitionRelation} {I : X → VariableManager → Prop} {fail fail' : Failure → Prop}
    (h : Setting V tr n d I fail) (hf : ∀ e, fail e → fail' e) : Setting V tr n d I fail' :=
  ⟨⟨h.debugs, h.many, h.yields.weaken hf⟩, h.safe⟩

def cost (tr : TransitionRelation) : ℕ := 2 * tr.gateIDs.length ^ 3

def Room (fail : Failure → Prop) (x : ℕ) : Prop :=
  2 ^ 32 < x → fail .narrowed ∧ fail .idsExhausted

theorem Room.mono {fail : Failure → Prop} {x y : ℕ} (h : Room fail y) (hle : x ≤ y) : Room fail x :=
  fun hlt ↦ h (hlt.trans_le hle)

/-- The state of a finder that has found, or was told to block, these sets: a recorded pair of a
step and a cardinality has nothing left to find. -/
structure Rep (tr : TransitionRelation) (n : ℕ) (d : DebugTransitionRelation)
    (I : X → VariableManager → Prop) (found : List (Finset ℕ)) (f : BMCCorrectionSetFinder X) : Prop where
  bmc : ∃ limit, BMCDebugger.Rep tr n d limit found f.vars f.bmc
  ic3 : I f.ic3 f.vars
  none_exhausted : f.exhaustedCardinality = 0
  exhausted : ∀ p ∈ f.exhausted, Covers (tr.FreedBadAt · p.1) tr.gateIDs.toFinset found p.2

def SameBounds (f f' : BMCCorrectionSetFinder X) : Prop := f'.kMax = f.kMax ∧ f'.kMin = f.kMin

theorem SameBounds.trans {f f' f'' : BMCCorrectionSetFinder X} (h : SameBounds f f')
    (h' : SameBounds f' f'') : SameBounds f f'' := ⟨h'.1.trans h.1, h'.2.trans h.2⟩

variable {S : SAT.Solver} {V : Debugger (X × VariableManager)} {opts : BMCOptions}
  {tr : TransitionRelation} {n : ℕ} {d : DebugTransitionRelation} {I : X → VariableManager → Prop}
  {fail : Failure → Prop} {found : List (Finset ℕ)} {f : BMCCorrectionSetFinder X} {gates : List ℕ}
  {k c limit : ℕ} {corr : CorrectionSet}

theorem Rep.inv (h : Rep tr n d I found f) : f.vars.Inv := by
  obtain ⟨limit, hbmc⟩ := h.bmc
  exact hbmc.inv

theorem Rep.numGates (h : Rep tr n d I found f) (hd : Debugs tr n d) : f.numGates = tr.gateIDs.length := by
  obtain ⟨limit, hbmc⟩ := h.bmc
  rw [BMCCorrectionSetFinder.numGates, hbmc.tr_eq, hd.toIsDebug.gates, hd.wf.gateIDs_eq, List.length_map]

def Paid (tr : TransitionRelation) (c x : ℕ) (f : BMCCorrectionSetFinder X) : Prop :=
  f.vars.nextID ≤ x ∧
    (f.bmc.cardinality = c ∨ tr.gateIDs.length ≤ c ∨ f.vars.nextID + cost tr ≤ x)

theorem paid_add {x : ℕ} (h : f.vars.nextID ≤ x) (c : ℕ) : Paid tr c (x + cost tr) f :=
  ⟨h.trans (Nat.le_add_right _ _), .inr (.inr (Nat.add_le_add_right h _))⟩

/-- After the cardinality has been set only the debugger and the variables differ. -/
theorem setBMCCardinality_meets (hs : Grounds V tr n d I fail) (h : Rep tr n d I found f) {x : ℕ}
    (hp : Paid tr c x f) (hids : Room fail x) :
    Meets (fun f' ↦ Rep tr n d I found f' ∧ SameBounds f f' ∧
      BMCDebugger.Rep tr n d (min c tr.gateIDs.length) found f'.vars f'.bmc ∧
      f'.exhausted = f.exhausted ∧ Paid tr c x f') fail (f.setBMCCardinality c) := by
  obtain ⟨limit, hbmc⟩ := h.bmc
  obtain ⟨hx, hpaid⟩ := hp
  unfold setBMCCardinality
  rw [h.numGates hs.debugs]
  split
  · next hc =>
    have hclear := hbmc.clearCardinality
    refine ⟨⟨⟨_, hclear⟩, h.ic3, h.none_exhausted, h.exhausted⟩, ⟨rfl, rfl⟩, ?_, rfl, hx, .inr (.inl hc)⟩
    rw [min_eq_right hc]
    exact hclear
  · next hc =>
    have hlt : c < tr.gateIDs.length := Nat.not_le.mp hc
    have hpos : tr.gateIDs ≠ [] := List.ne_nil_of_length_pos (by omega)
    have hset : Meets (fun r ↦ BMCDebugger.Rep tr n d c found r.2 r.1 ∧ f.vars.nextID ≤ r.2.nextID ∧
        r.2.nextID ≤ x) fail (f.bmc.setCardinality f.vars c) := by
      by_cases hsame : f.bmc.cardinality = c
      · have hrep : Meets _ (fun _ ↦ True) (f.bmc.setCardinality f.vars c) :=
          hbmc.setCardinality hs.debugs hpos hlt.le fun _ ↦ trivial
        have hok : f.bmc.setCardinality f.vars c = .ok (f.bmc, f.vars) :=
          BMCDebugger.setCardinality_same hsame (hlt.trans hs.many).ne
        rw [hok] at hrep ⊢
        exact ⟨hrep.1, le_rfl, hx⟩
      · have hroom := (hpaid.resolve_left hsame).resolve_left hc
        refine (hbmc.setCardinality hs.debugs hpos hlt.le fun hmany ↦ (hids ?_).2).imp fun r hr ↦
          ⟨hr.1, hr.2.1, hr.2.2.trans hroom⟩
        exact (lt_trans (by decide : 2 ^ 32 < maxId + 1) hmany).trans_le hroom
    refine (hset.and (BMCDebugger.setCardinality_sets _ _ _)).bind fun r hr ↦ ?_
    obtain ⟨bmc, vars⟩ := r
    obtain ⟨⟨hrep, hadvance, hbound⟩, hcard, -⟩ := hr
    refine ⟨⟨⟨_, hrep⟩, hs.yields.advance h.ic3 hrep.inv hadvance, h.none_exhausted, h.exhausted⟩,
      ⟨rfl, rfl⟩, ?_, rfl, hbound, .inl hcard⟩
    rw [min_eq_left hlt.le]
    exact hrep

theorem block_meets (hs : Grounds V tr n d I fail) (h : Rep tr n d I found f) (hne : corr ≠ [])
    (hsub : corr ⊆ tr.gateIDs) :
    Meets (fun f' ↦ Rep tr n d I (found ++ [corr.toFinset]) f' ∧ SameBounds f f' ∧
      f'.exhausted = f.exhausted ∧ ∀ c x, Paid tr c x f → Paid tr c x f') fail (block V f corr) := by
  obtain ⟨limit, hbmc⟩ := h.bmc
  unfold block
  refine ((hbmc.blockSolution hne hsub).and (BMCDebugger.blockSolution_same _ _)).bind fun bmc hbmc' ↦ ?_
  obtain ⟨hbmc', hcard, -⟩ := hbmc'
  refine (hs.yields.blockSolution h.inv h.ic3 corr hne hsub).bind fun r hr ↦ ?_
  obtain ⟨ic3, vars⟩ := r
  obtain ⟨hI, rfl⟩ := hr
  refine ⟨⟨⟨limit, hbmc'⟩, hI, h.none_exhausted, fun p hp ↦ ?_⟩, ⟨rfl, rfl⟩, rfl, fun c x hp ↦ ?_⟩
  · exact (h.exhausted p hp).mono (List.subset_append_left _ _)
  · unfold Paid
    rw [hcard]
    exact hp

theorem Rep.exhaust (h : Rep tr n d I found f)
    (hc : Covers (tr.FreedBadAt · k) tr.gateIDs.toFinset found c) :
    Rep tr n d I found (f.exhaust k c) := by
  refine ⟨h.bmc, h.ic3, h.none_exhausted, fun p hp ↦ ?_⟩
  cases hp with
  | head => exact hc
  | tail _ hp => exact h.exhausted p hp

theorem Rep.covers_of_isExhausted (h : Rep tr n d I found f) (hzero : tr.FreedBadAt ∅ k → 0 < c)
    (he : f.isExhausted k c = true) : Covers (tr.FreedBadAt · k) tr.gateIDs.toFinset found c := by
  rw [isExhausted, h.none_exhausted, Bool.or_eq_true, decide_eq_true_eq, List.contains_iff_mem] at he
  cases he with
  | inl hzero' =>
    intro t _ hcard hbad _
    obtain rfl := Finset.card_eq_zero.mp (by omega : t.card = 0)
    exact absurd (hzero hbad) (Nat.not_lt.mpr hzero')
  | inr hmem => exact h.exhausted _ hmem

theorem freedWithin_self : BMCDebugger.FreedWithin tr k k = (tr.FreedBadAt · k) := by
  funext D
  refine propext ⟨fun h ↦ ?_, fun h ↦ ⟨k, ⟨le_rfl, le_rfl⟩, h⟩⟩
  obtain ⟨i, hi, hbad⟩ := h
  obtain rfl : i = k := by omega
  exact hbad

theorem card_gates_le (hsub : gates ⊆ tr.gateIDs) : gates.toFinset.card ≤ tr.gateIDs.length := by
  have hle : gates.toFinset ⊆ tr.gateIDs.toFinset := fun g hg ↦
    List.mem_toFinset.mpr (hsub (List.mem_toFinset.mp hg))
  exact (Finset.card_le_card hle).trans (List.toFinset_card_le _)

theorem debugAnswer_min {bad : Finset ℕ → Prop} (hsub : gates ⊆ tr.gateIDs) {r : Option CorrectionSet}
    (h : DebugAnswer bad gates (min c tr.gateIDs.length) found r) : DebugAnswer bad gates c found r := by
  cases r with
  | none => exact (covers_min_iff (card_gates_le hsub)).mp h
  | some soln => exact ⟨h.1, h.2.1.trans (min_le_left _ _), h.2.2⟩

theorem blockFound_meets {bad : Finset ℕ → Prop} (hs : Grounds V tr n d I fail)
    (hsub : gates ⊆ tr.gateIDs) {r : Option CorrectionSet × BMCCorrectionSetFinder X}
    (hempty : bad ∅ → r.1 ≠ none → r.2.bmc.solver.solverInited = true ∧ fail .assertion)
    (h : Rep tr n d I found r.2) (hr : DebugAnswer bad gates c found r.1) :
    Meets (fun r' ↦ DebugAnswer bad gates c found r'.1 ∧ Rep tr n d I (blockedBy found r'.1) r'.2 ∧
      SameBounds r.2 r'.2 ∧ r'.2.exhausted = r.2.exhausted ∧
      ∀ c x, Paid tr c x r.2 → Paid tr c x r'.2) fail (blockFound V r) := by
  obtain ⟨answer, f⟩ := r
  cases answer with
  | none =>
    refine ⟨hr, ?_, ⟨rfl, rfl⟩, rfl, fun _ _ hp ↦ hp⟩
    rw [BasicMCSFinder.blockedBy_none]
    exact h
  | some corr =>
    by_cases hne : corr = []
    · have hbad : bad corr.toFinset := hr.2.2.1
      rw [hne] at hbad ⊢
      obtain ⟨hinit, hassert⟩ := hempty hbad (Option.some_ne_none _)
      have hblock : Meets (fun _ ↦ False) fail (block V f []) :=
        (BMCDebugger.blockSolution_nil hinit hassert).bind fun _ hno ↦ hno.elim
      exact hblock.bind fun _ hno ↦ hno.elim
    · exact (block_meets hs h hne (List.Subset.trans hr.1 hsub)).bind fun f' hf' ↦ ⟨hr, hf'⟩

/-- A search at one bound answers exactly, and blocks what it finds. -/
theorem findAt_meets (hs : Grounds V tr n d I fail) (h : Rep tr n d I found f) {x : ℕ}
    (hp : Paid tr c x f) (hids : Room fail x) (hdeep : maxPrimes ≤ k → fail .assertion)
    (hempty : tr.FreedBadAt ∅ k → 0 < c ∧ fail .assertion) :
    Meets (fun r ↦ DebugAnswer (tr.FreedBadAt · k) tr.gateIDs c found r.1 ∧
      Rep tr n d I (blockedBy found r.1) r.2 ∧ SameBounds f r.2 ∧ r.2.exhausted = f.exhausted ∧
      Paid tr c x r.2) fail (findAt S V f k c) := by
  have hsub := List.Subset.refl tr.gateIDs
  unfold findAt
  split
  · next he =>
    refine ⟨h.covers_of_isExhausted (fun hb ↦ (hempty hb).1) he, ?_, ⟨rfl, rfl⟩, rfl, hp⟩
    rw [BasicMCSFinder.blockedBy_none]
    exact h
  · refine (setBMCCardinality_meets hs h hp hids).bind fun f' hf' ↦ ?_
    obtain ⟨hrep, hsame, hbmc, hexhausted, hpaid⟩ := hf'
    have hnarrow : 2 ^ 32 < f'.vars.nextID → fail .narrowed := fun hlt ↦ (hids (hlt.trans_le hpaid.1)).1
    have hdebug := BMCDebugger.debugRange_meets S hbmc hs.debugs hs.many hnarrow k hdeep
    rw [freedWithin_self] at hdebug
    have hstarted := BMCDebugger.debugWithAssumptions_started S hbmc hs.debugs [] k k
    have hkeeps := BMCDebugger.debugWithAssumptions_cardinality S f'.bmc [] k k
    refine ((hdebug.and hstarted).and hkeeps).bind fun r hr ↦ ?_
    obtain ⟨answer, bmc⟩ := r
    obtain ⟨⟨⟨hanswer, hbmc', -⟩, hinit⟩, hcard⟩ := hr
    have hrep' : Rep tr n d I found { f' with bmc := bmc } :=
      ⟨⟨_, hbmc'⟩, hrep.ic3, hrep.none_exhausted, hrep.exhausted⟩
    have hpaid' : Paid tr c x { f' with bmc := bmc } := by
      unfold Paid
      rw [hcard]
      exact hpaid
    have hanswer' := debugAnswer_min (r := answer) hsub hanswer
    have hblock := blockFound_meets (r := (answer, { f' with bmc := bmc })) hs hsub
      (fun hb hne ↦ ⟨hinit hne, (hempty hb).2⟩) hrep' hanswer'
    refine hblock.imp fun r hr ↦ ?_
    obtain ⟨hr₁, hr₂, hbounds, hexhausted', hkept⟩ := hr
    exact ⟨hr₁, hr₂, hsame.trans hbounds, hexhausted'.trans hexhausted, hkept c x hpaid'⟩

section Records

variable (hs : Setting V tr n d I fun _ ↦ True)

include hs

theorem findAtOverGates_meets (h : Rep tr n d I found f) (hsub : gates ⊆ tr.gateIDs) (k c : ℕ) :
    Meets (fun r ↦ Rep tr n d I (blockedBy found r.1) r.2 ∧ SameBounds f r.2) (fun _ ↦ True)
      (findAtOverGates S V f gates k c) := by
  unfold findAtOverGates
  split
  · refine ⟨?_, rfl, rfl⟩
    rw [BasicMCSFinder.blockedBy_none]
    exact h
  · refine (setBMCCardinality_meets (c := c) hs.toGrounds h (paid_add le_rfl c) fun _ ↦ ⟨trivial, trivial⟩).bind fun f' hf' ↦ ?_
    obtain ⟨hrep, hsame, hbmc, -, -⟩ := hf'
    have hdebug : Meets _ (fun _ ↦ True) (f'.bmc.debugOverGatesRange S gates k k) :=
      BMCDebugger.debugOverGatesRange_meets S hbmc hs.debugs hs.many (fun _ ↦ trivial) hsub k
        fun _ ↦ trivial
    refine hdebug.bind fun r hr ↦ ?_
    obtain ⟨answer, bmc⟩ := r
    obtain ⟨hanswer, hbmc', -⟩ := hr
    have hrep' : Rep tr n d I found { f' with bmc := bmc } :=
      ⟨⟨_, hbmc'⟩, hrep.ic3, hrep.none_exhausted, hrep.exhausted⟩
    rw [freedWithin_self] at hanswer
    have hempty : ¬ tr.FreedBadAt ∅ k := hs.safe k
    refine (blockFound_meets hs.toGrounds hsub (fun hb ↦ absurd hb hempty) hrep' hanswer).imp fun r hr ↦ ?_
    exact ⟨hr.2.1, hsame.trans hr.2.2.1⟩

theorem checkAt_meets (h : Rep tr n d I found f) (k c : ℕ) :
    Meets (fun r ↦ Rep tr n d I found r.2 ∧ SameBounds f r.2 ∧
      (r.1 = false → Covers (tr.FreedBadAt · k) tr.gateIDs.toFinset found c)) (fun _ ↦ True)
      (checkAt S f k c) := by
  have hsub := List.Subset.refl tr.gateIDs
  unfold checkAt
  split
  · next he => exact ⟨h, ⟨rfl, rfl⟩, fun _ ↦ h.covers_of_isExhausted (fun hb ↦ absurd hb (hs.safe k)) he⟩
  · refine (setBMCCardinality_meets (c := c) hs.toGrounds h (paid_add le_rfl c) fun _ ↦ ⟨trivial, trivial⟩).bind fun f' hf' ↦ ?_
    obtain ⟨hrep, hsame, hbmc, -, -⟩ := hf'
    have hdebug : Meets _ (fun _ ↦ True) (f'.bmc.debugRange S k k) :=
      BMCDebugger.debugRange_meets S hbmc hs.debugs hs.many (fun _ ↦ trivial) k fun _ ↦ trivial
    rw [freedWithin_self] at hdebug
    refine hdebug.bind fun r hr ↦ ?_
    obtain ⟨answer, bmc⟩ := r
    obtain ⟨hanswer, hbmc', -⟩ := hr
    refine ⟨⟨⟨_, hbmc'⟩, hrep.ic3, hrep.none_exhausted, hrep.exhausted⟩, hsame, fun hnone ↦ ?_⟩
    obtain rfl := Option.isNone_iff_eq_none.mp (Option.isSome_eq_false_iff.mp hnone)
    exact debugAnswer_min hsub hanswer

theorem moreCorrectionSets_meets (h : Rep tr n d I found f) (c : ℕ) :
    Meets (fun r ↦ Rep tr n d I found r.2 ∧ SameBounds f r.2) (fun _ ↦ True)
      (moreCorrectionSets S V f c) := by
  have hbmc : Meets (fun r ↦ Rep tr n d I found r.2 ∧ SameBounds f r.2) (fun _ ↦ True)
      (moreCorrectionSetsBMC S f c) := by
    refine (setBMCCardinality_meets (c := c) hs.toGrounds h (paid_add le_rfl c) fun _ ↦ ⟨trivial, trivial⟩).bind fun f' hf' ↦ ?_
    obtain ⟨hrep, hsame, hbmc, -, -⟩ := hf'
    have hdebug : Meets _ (fun _ ↦ True) (f'.bmc.debugRange S 0 f'.kMax) :=
      BMCDebugger.debugRange_meets S hbmc hs.debugs hs.many (fun _ ↦ trivial) 0 fun _ ↦ trivial
    refine hdebug.bind fun r hr ↦ ?_
    exact ⟨⟨⟨_, hr.2.1⟩, hrep.ic3, hrep.none_exhausted, hrep.exhausted⟩, hsame⟩
  unfold moreCorrectionSets
  refine hbmc.bind fun r hr ↦ ?_
  obtain ⟨more, f'⟩ := r
  obtain ⟨hrep, hsame⟩ := hr
  dsimp only at hrep hsame ⊢
  split
  · exact ⟨hrep, hsame⟩
  · have hcard : Meets (fun r ↦ I r.1 r.2 ∧ r.2.Inv ∧ f'.vars.nextID ≤ r.2.nextID) (fun _ ↦ True)
        (if c ≥ f'.numGates then V.clearCardinality (f'.ic3, f'.vars)
          else V.setCardinality (f'.ic3, f'.vars) c) := by
      split
      · exact hs.yields.clearCardinality hrep.inv hrep.ic3
      · exact hs.yields.setCardinality hrep.inv hrep.ic3 c
    unfold moreCorrectionSetsIC3
    refine hcard.bind fun x hx ↦ ?_
    obtain ⟨ic3, vars⟩ := x
    obtain ⟨hI, hvars, hle⟩ := hx
    refine (hs.yields.debug hvars hI).bind fun r hr ↦ ?_
    obtain ⟨answer, ic3', vars'⟩ := r
    obtain ⟨hI', hvars', hle'⟩ := hr
    obtain ⟨limit, hb⟩ := hrep.bmc
    exact ⟨⟨⟨limit, hb.advance hvars' (hle.trans hle')⟩, hI', hrep.none_exhausted, hrep.exhausted⟩,
      hsame⟩

theorem findFallbackFrom_meets (hsub : gates ⊆ tr.gateIDs) (cs : List ℕ) (h : Rep tr n d I found f) :
    Meets (fun r ↦ Rep tr n d I (blockedBy found r.1) r.2 ∧ SameBounds f r.2) (fun _ ↦ True)
      (findFallbackFrom S V gates cs f) := by
  induction cs generalizing f with
  | nil =>
    refine ⟨?_, rfl, rfl⟩
    rw [BasicMCSFinder.blockedBy_none]
    exact h
  | cons c cs ih =>
    unfold findFallbackFrom
    refine (hs.yields.setCardinality h.inv h.ic3 c).bind fun x hx ↦ ?_
    obtain ⟨ic3, vars⟩ := x
    obtain ⟨hI, hvars, hle⟩ := hx
    refine (hs.yields.debugOverGates hvars hI gates hsub).bind fun r hr ↦ ?_
    obtain ⟨answer, ic3', vars'⟩ := r
    obtain ⟨⟨hI', hvars', hle'⟩, hfound⟩ := hr
    obtain ⟨limit, hb⟩ := h.bmc
    have hrep : Rep tr n d I found { f with ic3 := ic3', vars := vars' } :=
      ⟨⟨limit, hb.advance hvars' (hle.trans hle')⟩, hI', h.none_exhausted, h.exhausted⟩
    cases answer with
    | some corr =>
      obtain ⟨hin, hempty⟩ := hfound corr rfl
      have hne : corr ≠ [] := fun hnil ↦ (hempty hnil).elim hs.safe
      exact (block_meets hs.toGrounds hrep hne hin).bind fun f' hf' ↦ ⟨hf'.1, hf'.2.1⟩
    | none =>
      refine (moreCorrectionSets_meets hs hrep cardinalityInf).bind fun r hr ↦ ?_
      obtain ⟨more, f'⟩ := r
      obtain ⟨hrep', hsame⟩ := hr
      dsimp only at hrep' hsame ⊢
      split
      · exact (ih hrep').imp fun r hr ↦ ⟨hr.1, SameBounds.trans hsame hr.2⟩
      · refine ⟨?_, hsame⟩
        rw [BasicMCSFinder.blockedBy_none]
        exact hrep'

end Records

theorem mem_cardinalities (h : Rep tr n d I found f) {m : ℕ} :
    c ∈ f.cardinalities m ↔ 1 ≤ c ∧ c ≤ m := by
  rw [cardinalities, h.none_exhausted, List.mem_range'_1]
  omega

def Hit (tr : TransitionRelation) (n : ℕ) (d : DebugTransitionRelation)
    (I : X → VariableManager → Prop) (found : List (Finset ℕ)) (f : BMCCorrectionSetFinder X)
    (c k x : ℕ) (corr : CorrectionSet) (f' : BMCCorrectionSetFinder X) : Prop :=
  DebugAnswer (BMCDebugger.FreedWithin tr 0 k) tr.gateIDs c found (some corr) ∧
    Rep tr n d I (found ++ [corr.toFinset]) f' ∧ SameBounds f f' ∧ f'.vars.nextID ≤ x

def Miss (tr : TransitionRelation) (n : ℕ) (d : DebugTransitionRelation)
    (I : X → VariableManager → Prop) (found : List (Finset ℕ)) (f : BMCCorrectionSetFinder X)
    (cases : ℕ → ℕ → Prop) (x : ℕ) (f' : BMCCorrectionSetFinder X) : Prop :=
  Rep tr n d I found f' ∧ SameBounds f f' ∧ f'.vars.nextID ≤ x ∧
    ∀ k c, cases k c → Covers (tr.FreedBadAt · k) tr.gateIDs.toFinset found c

theorem Hit.mono {f' : BMCCorrectionSetFinder X} {x x' : ℕ} (h : Hit tr n d I found f c k x corr f')
    (hle : x ≤ x') : Hit tr n d I found f c k x' corr f' :=
  ⟨h.1, h.2.1, h.2.2.1, h.2.2.2.trans hle⟩

theorem Miss.mono {cases : ℕ → ℕ → Prop} {f' : BMCCorrectionSetFinder X} {x x' : ℕ}
    (h : Miss tr n d I found f cases x f') (hle : x ≤ x') : Miss tr n d I found f cases x' f' :=
  ⟨h.1, h.2.1, h.2.2.1.trans hle, h.2.2.2⟩

theorem Miss.imp {cases cases' : ℕ → ℕ → Prop} {f' : BMCCorrectionSetFinder X} {x : ℕ}
    (h : Miss tr n d I found f cases x f') (hcases : ∀ i j, cases' i j → cases i j) :
    Miss tr n d I found f cases' x f' :=
  ⟨h.1, h.2.1, h.2.2.1, fun i j hij ↦ h.2.2.2 i j (hcases i j hij)⟩

theorem tryAt_meets {f' : BMCCorrectionSetFinder X} {cases : ℕ → ℕ → Prop} {cMax kMax x : ℕ}
    (hs : Setting V tr n d I fail) (h : Miss tr n d I found f cases x f') (hp : Paid tr c x f')
    (hk : k ≤ kMax) (hc : c ≤ cMax) (hids : Room fail x) (hdeep : maxPrimes ≤ k → fail .assertion) :
    Meets (Found (Hit tr n d I found f cMax kMax x)
      fun f'' ↦ Miss tr n d I found f (fun i j ↦ cases i j ∨ i = k ∧ j = c) x f'' ∧ Paid tr c x f'') fail
      (tryAt S V c f' k) := by
  obtain ⟨hrep, hsame, -, hcovers⟩ := h
  refine (findAt_meets hs.toGrounds hrep hp hids hdeep fun hb ↦ absurd hb (hs.safe k)).bind fun r hr ↦ ?_
  obtain ⟨answer, f''⟩ := r
  obtain ⟨hanswer, hrep', hsame', -, hpaid⟩ := hr
  cases answer with
  | some corr =>
    obtain ⟨hin, hcard, hbad, hopen⟩ := hanswer
    exact ⟨⟨hin, hcard.trans hc, ⟨k, ⟨Nat.zero_le k, hk⟩, hbad⟩, hopen⟩, hrep', hsame.trans hsame',
      hpaid.1⟩
  | none =>
    rw [BasicMCSFinder.blockedBy_none] at hrep'
    refine ⟨⟨hrep'.exhaust hanswer, hsame.trans hsame', hpaid.1, fun i j hij ↦ ?_⟩, hpaid⟩
    rcases hij with hij | ⟨rfl, rfl⟩
    · exact hcovers i j hij
    · exact hanswer

theorem tryCardinality_meets {f' : BMCCorrectionSetFinder X} {cases : ℕ → ℕ → Prop} {cMax x : ℕ}
    (hs : Setting V tr n d I fail) (h : Miss tr n d I found f cases x f') (hp : Paid tr c x f')
    (hc : c ≤ cMax) (hids : Room fail x) (hdeep : maxPrimes ≤ f.kMax → fail .assertion) :
    Meets (Found (Hit tr n d I found f cMax f.kMax x)
      (Miss tr n d I found f (fun i j ↦ cases i j ∨ i ≤ f.kMax ∧ j = c) x)) fail
      (tryCardinality S V f' c) := by
  have hkMax : f'.kMax = f.kMax := h.2.1.1
  have hloop : Meets (Found (Hit tr n d I found f cMax f.kMax x)
      fun f'' ↦ Miss tr n d I found f (fun i j ↦ cases i j ∨ i ∈ List.range (f'.kMax + 1) ∧ j = c) x f'' ∧
        Paid tr c x f'') fail (tryCardinality S V f' c) := by
    refine firstFound_meets (fun done f'' ↦
      Miss tr n d I found f (fun i j ↦ cases i j ∨ i ∈ done ∧ j = c) x f'' ∧ Paid tr c x f'') ?_ ?_
    · exact ⟨h.imp fun i j hij ↦ hij.resolve_right fun hno ↦ List.not_mem_nil hno.1, hp⟩
    · intro done k rest f'' hl hmiss
      have hmem : k ∈ List.range (f'.kMax + 1) := hl ▸ List.mem_append_right done List.mem_cons_self
      rw [List.mem_range, hkMax] at hmem
      have hk := Nat.lt_succ_iff.mp hmem
      refine (tryAt_meets hs hmiss.1 hmiss.2 hk hc hids fun hle ↦ hdeep (hle.trans hk)).imp
        fun r hr ↦ ?_
      obtain ⟨answer, f₃⟩ := r
      cases answer with
      | some corr => exact hr
      | none =>
        refine ⟨hr.1.imp fun i j hij ↦ ?_, hr.2⟩
        simp only [List.mem_append, List.mem_singleton] at hij
        tauto
  refine hloop.imp fun r hr ↦ ?_
  obtain ⟨answer, f''⟩ := r
  cases answer with
  | some corr => exact hr
  | none =>
    refine hr.1.imp fun i j hij ↦ ?_
    rw [List.mem_range, hkMax]
    exact hij.imp_right fun hij ↦ ⟨Nat.lt_succ_of_le hij.1, hij.2⟩

def searchCost (opts : BMCOptions) (tr : TransitionRelation) (m : ℕ) : ℕ :=
  min (min m tr.gateIDs.length) opts.mcsBmcNMax * cost tr

/-- The search finds a set within its bounds on steps and gates if there is one left. -/
theorem findNext_meets (hs : Setting V tr n d I fail) (h : Rep tr n d I found f) (m : ℕ)
    (hids : Room fail (f.vars.nextID + searchCost opts tr m))
    (hdeep : maxPrimes ≤ f.kMax → fail .assertion) :
    Meets (fun r ↦ DebugAnswer (BMCDebugger.FreedWithin tr 0 f.kMax) tr.gateIDs
        (min m opts.mcsBmcNMax) found r.1 ∧
      Rep tr n d I (blockedBy found r.1) r.2 ∧ SameBounds f r.2 ∧
      r.2.vars.nextID ≤ f.vars.nextID + searchCost opts tr m) fail (findNext S V opts f m) := by
  let cMax := min (min m tr.gateIDs.length) opts.mcsBmcNMax
  let x := f.vars.nextID
  have hcMax : cMax = min (min m opts.mcsBmcNMax) tr.gateIDs.length := by omega
  have hlength : (f.cardinalities cMax).length = cMax := by
    rw [cardinalities, List.length_range', h.none_exhausted, Nat.sub_zero]
  have hturns : ∀ {done c rest}, done ++ c :: rest = f.cardinalities cMax →
      x + done.length * cost tr + cost tr ≤ x + searchCost opts tr m := by
    intro done c rest hl
    have hlen := congrArg List.length hl
    rw [List.length_append, List.length_cons, hlength] at hlen
    rw [Nat.add_assoc, ← Nat.succ_mul]
    exact Nat.add_le_add_left (Nat.mul_le_mul_right _ (by omega)) _
  have hloop : Meets (Found (Hit tr n d I found f cMax f.kMax (x + searchCost opts tr m))
      (Miss tr n d I found f (fun i j ↦ i ≤ f.kMax ∧ j ∈ f.cardinalities cMax)
        (x + (f.cardinalities cMax).length * cost tr))) fail (findNext S V opts f m) := by
    unfold findNext
    rw [h.numGates hs.debugs]
    refine firstFound_meets (fun done ↦ Miss tr n d I found f (fun i j ↦ i ≤ f.kMax ∧ j ∈ done)
      (x + done.length * cost tr)) ?_ ?_
    · exact ⟨h, ⟨rfl, rfl⟩, Nat.le_add_right _ _, fun i j hij ↦ absurd hij.2 List.not_mem_nil⟩
    · intro done c rest f' hl hmiss
      have hmem : c ∈ f.cardinalities cMax := hl ▸ List.mem_append_right done List.mem_cons_self
      have hmiss' := hmiss.mono (Nat.le_add_right _ (cost tr))
      refine (tryCardinality_meets hs hmiss' (paid_add hmiss.2.2.1 c) ((mem_cardinalities h).mp hmem).2
        (hids.mono (hturns hl)) hdeep).imp fun r hr ↦ ?_
      obtain ⟨answer, f''⟩ := r
      cases answer with
      | some corr => exact Hit.mono hr (hturns hl)
      | none =>
        rw [List.length_append, List.length_singleton, Nat.succ_mul, ← Nat.add_assoc]
        refine Miss.imp hr fun i j hij ↦ ?_
        simp only [List.mem_append, List.mem_singleton] at hij
        tauto
  refine hloop.imp fun r hr ↦ ?_
  obtain ⟨answer, f'⟩ := r
  cases answer with
  | some corr =>
    obtain ⟨hanswer, hrep, hsame, hvars⟩ := hr
    rw [hcMax] at hanswer
    exact ⟨debugAnswer_min (List.Subset.refl _) hanswer, hrep, hsame, hvars⟩
  | none =>
    obtain ⟨hrep, hsame, hvars, hcovers⟩ := hr
    rw [hlength] at hvars
    refine ⟨?_, ?_, hsame, hvars⟩
    · refine debugAnswer_min (List.Subset.refl _) ?_
      rw [← hcMax]
      intro t ht hcard hbad hopen
      obtain ⟨k, hk, hbadk⟩ := hbad
      have hpos : 1 ≤ t.card := by
        refine Finset.card_pos.mpr (Finset.nonempty_iff_ne_empty.mpr fun hempty ↦ ?_)
        exact hs.safe k (hempty ▸ hbadk)
      exact hcovers k t.card ⟨hk.2, (mem_cardinalities h).mpr ⟨hpos, hcard⟩⟩ t ht le_rfl hbadk hopen
    · rw [BasicMCSFinder.blockedBy_none]
      exact hrep

theorem findNextOverGates_meets (hs : Setting V tr n d I fun _ ↦ True) (h : Rep tr n d I found f)
    (hsub : gates ⊆ tr.gateIDs) (m : ℕ) :
    Meets (fun r ↦ Rep tr n d I (blockedBy found r.1) r.2 ∧ SameBounds f r.2) (fun _ ↦ True)
      (findNextOverGates S V opts f gates m) := by
  let hit : CorrectionSet → BMCCorrectionSetFinder X → Prop := fun corr f' ↦
    Rep tr n d I (found ++ [corr.toFinset]) f' ∧ SameBounds f f'
  let miss : BMCCorrectionSetFinder X → Prop := fun f' ↦ Rep tr n d I found f' ∧ SameBounds f f'
  have hat : ∀ c f' k, miss f' → Meets (Found hit miss) (fun _ ↦ True) (tryAtOverGates S V opts gates c f' k) := by
    intro c f' k hmiss
    refine (findAtOverGates_meets hs hmiss.1 hsub k c).bind fun r hr ↦ ?_
    obtain ⟨answer, f''⟩ := r
    obtain ⟨hrep, hsame⟩ := hr
    cases answer with
    | some corr => exact ⟨hrep, hmiss.2.trans hsame⟩
    | none =>
      rw [BasicMCSFinder.blockedBy_none] at hrep
      dsimp only
      split
      · refine (checkAt_meets hs hrep k c).bind fun r hr ↦ ?_
        obtain ⟨more, f₃⟩ := r
        obtain ⟨hrep', hsame', hcovers⟩ := hr
        have hbounds : SameBounds f f₃ := hmiss.2.trans (hsame.trans hsame')
        cases more with
        | true => exact ⟨hrep', hbounds⟩
        | false => exact ⟨hrep'.exhaust (hcovers rfl), hbounds⟩
      · exact ⟨hrep, hmiss.2.trans hsame⟩
  have hcardinality : ∀ f' c, miss f' →
      Meets (Found hit miss) (fun _ ↦ True) (tryCardinalityOverGates S V opts gates f' c) := fun f' c hmiss ↦
    firstFound_meets (fun _ ↦ miss) hmiss fun _ k _ f'' _ h' ↦ hat c f'' k h'
  unfold findNextOverGates
  have hloop : Meets (Found hit miss) (fun _ ↦ True) (firstFound (tryCardinalityOverGates S V opts gates)
      (f.cardinalities (min (min m gates.length) opts.mcsBmcNMax)) f) :=
    firstFound_meets (fun _ ↦ miss) ⟨h, rfl, rfl⟩ fun _ c _ f' _ h' ↦ hcardinality f' c h'
  refine hloop.bind fun r hr ↦ ?_
  obtain ⟨answer, f'⟩ := r
  cases answer with
  | some corr => exact hr
  | none =>
    exact (findFallbackFrom_meets hs hsub _ hr.1).imp fun r' hr' ↦ ⟨hr'.1, hr.2.trans hr'.2⟩

theorem remaining_blocked_lt {t : Finset ℕ} (ht : t ⊆ tr.gateIDs.toFinset) (hopen : Unblocked found t) :
    (⟨found ++ [t], []⟩ : Explored ℕ).remaining tr.gateIDs.toFinset <
      (⟨found, []⟩ : Explored ℕ).remaining tr.gateIDs.toFinset :=
  Explored.remaining_addFound_lt (e := ⟨found, []⟩) (Finset.Subset.refl t) ht (unexplored_iff.mpr hopen)

structure AllFound (tr : TransitionRelation) (found : List (Finset ℕ)) (c k : ℕ)
    (results : List CorrectionSet) : Prop where
  within : ∀ corr ∈ results, corr.toFinset.card ≤ c ∧ BMCDebugger.FreedWithin tr 0 k corr.toFinset
  covers : Covers (BMCDebugger.FreedWithin tr 0 k) tr.gateIDs.toFinset
    (found ++ results.map List.toFinset) c

theorem findAllFrom_meets (hs : Setting V tr n d I fail) (m : ℕ) (fuel : ℕ) (results : List CorrectionSet)
    (h : Rep tr n d I (found ++ results.map List.toFinset) f)
    (hwithin : ∀ corr ∈ results, corr.toFinset.card ≤ min m opts.mcsBmcNMax ∧
      BMCDebugger.FreedWithin tr 0 f.kMax corr.toFinset) {rank : ℕ}
    (hrank : (⟨found ++ results.map List.toFinset, []⟩ : Explored ℕ).remaining
      tr.gateIDs.toFinset ≤ rank)
    (hfuel : fail .outOfFuel ∨ rank < fuel)
    (hids : Room fail (f.vars.nextID + (rank + 1) * searchCost opts tr m))
    (hdeep : maxPrimes ≤ f.kMax → fail .assertion) :
    Meets (fun r ↦ AllFound tr found (min m opts.mcsBmcNMax) f.kMax r.1 ∧
      Rep tr n d I (found ++ r.1.map List.toFinset) r.2 ∧ SameBounds f r.2) fail
      (findAllFrom S V opts m fuel results f) := by
  induction fuel generalizing results f rank with
  | zero => exact hfuel.resolve_right (Nat.not_lt_zero _)
  | succ fuel ih =>
    have hroom := hids.mono (x := f.vars.nextID + searchCost opts tr m) ?_
    · unfold findAllFrom
      refine (findNext_meets hs h m hroom hdeep).bind fun r hr ↦ ?_
      obtain ⟨answer, f'⟩ := r
      obtain ⟨hanswer, hrep, hsame, hvars⟩ := hr
      cases answer with
      | none =>
        rw [BasicMCSFinder.blockedBy_none] at hrep
        exact ⟨⟨hwithin, hanswer⟩, hrep, hsame⟩
      | some corr =>
        obtain ⟨hin, hcard, hbad, hopen⟩ := hanswer
        have happend : found ++ (results ++ [corr]).map List.toFinset =
            (found ++ results.map List.toFinset) ++ [corr.toFinset] := by simp
        have hrep' : Rep tr n d I (found ++ (results ++ [corr]).map List.toFinset) f' := by
          rw [happend]
          exact hrep
        have hsubset : corr.toFinset ⊆ tr.gateIDs.toFinset := fun g hg ↦
          List.mem_toFinset.mpr (hin (List.mem_toFinset.mp hg))
        have hlt := remaining_blocked_lt hsubset hopen
        rw [← happend] at hlt
        obtain ⟨rank, rfl⟩ : ∃ r, rank = r + 1 := ⟨rank - 1, by omega⟩
        have hvars' : f'.vars.nextID + (rank + 1) * searchCost opts tr m ≤
            f.vars.nextID + (rank + 1 + 1) * searchCost opts tr m := by
          dsimp only at hvars
          rw [Nat.succ_mul (rank + 1)]
          omega
        have hnext := ih (f := f') (results ++ [corr]) hrep' ?_ (Nat.le_of_lt_succ (hlt.trans_le hrank))
          (hfuel.imp_right fun hf ↦ by omega) (hids.mono hvars') (hsame.1 ▸ hdeep)
        · exact hnext.imp fun r hr ↦ ⟨hsame.1 ▸ hr.1, hr.2.1, hsame.trans hr.2.2⟩
        · rw [hsame.1]
          exact List.forall_mem_append.mpr ⟨hwithin, List.forall_mem_singleton.mpr ⟨hcard, hbad⟩⟩
    · exact Nat.add_le_add_left (Nat.le_mul_of_pos_left _ (Nat.succ_pos _)) _

def allCost (opts : BMCOptions) (tr : TransitionRelation) (m : ℕ) : ℕ :=
  (2 ^ tr.gateIDs.length + 1) * searchCost opts tr m

theorem findAll_meets (hs : Setting V tr n d I fail) (h : Rep tr n d I found f) (m : ℕ) {fuel : ℕ}
    (hfuel : fail .outOfFuel ∨ 2 ^ tr.gateIDs.length < fuel)
    (hids : Room fail (f.vars.nextID + allCost opts tr m))
    (hdeep : maxPrimes ≤ f.kMax → fail .assertion) :
    Meets (fun r ↦ AllFound tr found (min m opts.mcsBmcNMax) f.kMax r.1 ∧
      Rep tr n d I (found ++ r.1.map List.toFinset) r.2 ∧ SameBounds f r.2) fail
      (findAll S V opts fuel f m) := by
  have hstart : Rep tr n d I (found ++ ([] : List CorrectionSet).map List.toFinset) f := by
    rw [List.map_nil, List.append_nil]
    exact h
  refine findAllFrom_meets hs m fuel [] hstart (fun _ hno ↦ absurd hno List.not_mem_nil)
    ((Explored.remaining_le _ _).trans ?_) hfuel hids hdeep
  exact Nat.pow_le_pow_right Nat.two_pos (card_gates_le (List.Subset.refl _))

inductive Turned (tr : TransitionRelation) (found : List (Finset ℕ)) (c : ℕ) (b : Batch X) :
    List CorrectionSet → Prop
  | same : Turned tr found c b b.result
  | found {corr : CorrectionSet} (hk : b.k ≤ b.finder.kMax)
      (hanswer : DebugAnswer (tr.FreedBadAt · b.k) tr.gateIDs c
        (found ++ b.result.map List.toFinset) (some corr)) : Turned tr found c b (b.result ++ [corr])

theorem map_append_singleton (found : List (Finset ℕ)) (results : List CorrectionSet) (corr : CorrectionSet) :
    found ++ (results ++ [corr]).map List.toFinset =
      (found ++ results.map List.toFinset) ++ [corr.toFinset] := by simp

def afterTurn : Batch X ⊕ List CorrectionSet × BMCCorrectionSetFinder X →
    List CorrectionSet × BMCCorrectionSetFinder X
  | .inl b => (b.result, b.finder)
  | .inr out => out

theorem giveUp_meets {b : Batch X} (h : Rep tr n d I found b.finder) :
    Meets (fun r ↦ (afterTurn r).1 = b.result ∧ Rep tr n d I found (afterTurn r).2)
      (fun _ ↦ True) (giveUp b) := by
  unfold giveUp
  cases decide (b.finder.kMin ≤ b.finder.kMax) with
  | false => exact trivial
  | true =>
    rw [ensure_true, ok_bind]
    split
    · exact ⟨rfl, h.bmc, h.ic3, h.none_exhausted, h.exhausted⟩
    · exact ⟨rfl, h⟩

theorem batchTurn_meets (hs : Setting V tr n d I fun _ ↦ True) {b : Batch X}
    (h : Rep tr n d I (found ++ b.result.map List.toFinset) b.finder) (c : ℕ) :
    Meets (fun r ↦ Turned tr found c b (afterTurn r).1 ∧
      Rep tr n d I (found ++ (afterTurn r).1.map List.toFinset) (afterTurn r).2) (fun _ ↦ True)
      (batchTurn S V c b) := by
  unfold batchTurn
  split
  · next hk =>
    refine (findAt_meets hs.toGrounds h (paid_add le_rfl c) (fun _ ↦ ⟨trivial, trivial⟩)
      (fun _ ↦ trivial) fun hb ↦ absurd hb (hs.safe _)).bind fun r hr ↦ ?_
    obtain ⟨answer, f'⟩ := r
    obtain ⟨hanswer, hrep, -⟩ := hr
    cases answer with
    | some corr =>
      have hrep' : Rep tr n d I (found ++ (b.result ++ [corr]).map List.toFinset)
          { f' with kMin := max f'.kMin b.k } := by
        rw [map_append_singleton]
        exact ⟨hrep.bmc, hrep.ic3, hrep.none_exhausted, hrep.exhausted⟩
      refine (giveUp_meets hrep').imp fun r hr ↦ ?_
      rw [hr.1]
      exact ⟨.found hk hanswer, hr.2⟩
    | none =>
      rw [BasicMCSFinder.blockedBy_none] at hrep
      have hrep' := hrep.exhaust hanswer
      refine (giveUp_meets hrep').imp fun r hr ↦ ?_
      rw [hr.1]
      exact ⟨.same, hr.2⟩
  · exact ⟨.same, h⟩

theorem findBatchAt_meets (hs : Setting V tr n d I fun _ ↦ True) (fuel c : ℕ) {s : List CorrectionSet × BMCCorrectionSetFinder X}
    (h : Rep tr n d I (found ++ s.1.map List.toFinset) s.2) :
    Meets (fun r ↦ Rep tr n d I (found ++ r.1.map List.toFinset) r.2) (fun _ ↦ True)
      (findBatchAt S V fuel c s) := by
  refine loop_meets trivial
    (fun b (hb : Rep tr n d I (found ++ b.result.map List.toFinset) b.finder) ↦ ?_) fuel _ h
  refine (batchTurn_meets hs hb c).imp fun r hr ↦ ?_
  cases r with
  | inl b' => exact ⟨hr.2, trivial⟩
  | inr out => exact hr.2

theorem findBatch_meets (hs : Setting V tr n d I fun _ ↦ True) (fuel m : ℕ) (h : Rep tr n d I found f) :
    Meets (fun r ↦ Rep tr n d I (found ++ r.1.map List.toFinset) r.2) (fun _ ↦ True)
      (findBatch S V opts fuel f m) := by
  have hstart : Rep tr n d I (found ++ ([] : List CorrectionSet).map List.toFinset) f := by
    rw [List.map_nil, List.append_nil]
    exact h
  exact foldlM_meets
    (fun _ (s : List CorrectionSet × BMCCorrectionSetFinder X) ↦
      Rep tr n d I (found ++ s.1.map List.toFinset) s.2) ([], f) hstart
    fun _ c _ _ _ hs' ↦ findBatchAt_meets hs fuel c hs'

end BMCCorrectionSetFinder

namespace BMCCorrectionSetFinder

variable {X : Type}

inductive Reached (S : SAT.Solver) (V : Debugger (X × VariableManager)) (opts : BMCOptions)
    (tr : TransitionRelation) (f₀ : BMCCorrectionSetFinder X) :
    List (Finset ℕ) → BMCCorrectionSetFinder X → Prop
  | new : Reached S V opts tr f₀ [] f₀
  | others {found f vars} : Reached S V opts tr f₀ found f → vars.Inv → f.vars.nextID ≤ vars.nextID →
      Reached S V opts tr f₀ found { f with vars := vars }
  | findNext {found f f' m r} : Reached S V opts tr f₀ found f →
      findNext S V opts f m = .ok (r, f') → Reached S V opts tr f₀ (blockedBy found r) f'
  | findNextOverGates {found f f' gates m r} : Reached S V opts tr f₀ found f → gates ⊆ tr.gateIDs →
      findNextOverGates S V opts f gates m = .ok (r, f') →
      Reached S V opts tr f₀ (blockedBy found r) f'
  | findAll {found f f' fuel m results} : Reached S V opts tr f₀ found f →
      findAll S V opts fuel f m = .ok (results, f') →
      Reached S V opts tr f₀ (found ++ results.map List.toFinset) f'
  | findBatch {found f f' fuel m results} : Reached S V opts tr f₀ found f →
      findBatch S V opts fuel f m = .ok (results, f') →
      Reached S V opts tr f₀ (found ++ results.map List.toFinset) f'
  | moreCorrectionSets {found f f' m more} : Reached S V opts tr f₀ found f →
      moreCorrectionSets S V f m = .ok (more, f') → Reached S V opts tr f₀ found f'
  | block {found f f' corr} : Reached S V opts tr f₀ found f → corr ≠ [] → corr ⊆ tr.gateIDs →
      block V f corr = .ok f' → Reached S V opts tr f₀ (found ++ [corr.toFinset]) f'

section

variable {S : SAT.Solver} {V : Debugger (X × VariableManager)} {opts : BMCOptions}
  {tr : TransitionRelation} {n : ℕ} {d : DebugTransitionRelation} {I : X → VariableManager → Prop}
  {fail : Failure → Prop} {found : List (Finset ℕ)} {f f₀ : BMCCorrectionSetFinder X}

theorem rep_new {vars : VariableManager} {x₀ : X} (hvars : vars.Inv)
    (hle : n + 4 * tr.gateIDs.length ≤ vars.nextID) (hI : I x₀ vars) :
    Rep tr n d I [] (new opts vars d x₀) :=
  ⟨⟨_, BMCDebugger.rep_new hvars hle⟩, hI, rfl, fun _ hp ↦ absurd hp List.not_mem_nil⟩

theorem Reached.rep (hs : Setting V tr n d I fail) (h₀ : Rep tr n d I [] f₀)
    (h : Reached S V opts tr f₀ found f) : Rep tr n d I found f := by
  have hopen : Setting V tr n d I fun _ ↦ True := hs.weaken fun _ _ ↦ trivial
  have hroom : ∀ x, Room (fun _ ↦ True) x := fun _ _ ↦ ⟨trivial, trivial⟩
  induction h with
  | new => exact h₀
  | others _ hvars hle ih =>
    obtain ⟨limit, hbmc⟩ := ih.bmc
    exact ⟨⟨limit, hbmc.advance hvars hle⟩, hs.yields.advance ih.ic3 hvars hle, ih.none_exhausted,
      ih.exhausted⟩
  | findNext _ hok ih =>
    exact (post_of_ok (findNext_meets hopen ih _ (hroom _) fun _ ↦ trivial) hok).2.1
  | findNextOverGates _ hsub hok ih =>
    exact (post_of_ok (findNextOverGates_meets hopen ih hsub _) hok).1
  | findAll _ hok ih =>
    exact (post_of_ok (findAll_meets hopen ih _ (.inl trivial) (hroom _) fun _ ↦ trivial) hok).2.1
  | findBatch _ hok ih => exact (findBatch_meets hopen _ _ ih).of_ok hok
  | moreCorrectionSets _ hok ih => exact (post_of_ok (moreCorrectionSets_meets hopen ih _) hok).1
  | block _ hne hsub hok ih => exact (post_of_ok (block_meets hopen.toGrounds ih hne hsub) hok).1

def Left (good : Finset ℕ → Prop) (base : Finset ℕ) (found : List (Finset ℕ)) (c : ℕ) : Prop :=
  ∃ t ⊆ base, t.card ≤ c ∧ good t ∧ Unblocked found t

theorem covers_iff_not_left {good : Finset ℕ → Prop} {base : Finset ℕ} {c : ℕ} :
    Covers good base found c ↔ ¬ Left good base found c := by
  unfold Covers Left
  push Not
  exact Iff.rfl

/-- What `findAll` leaves out is what no set within its bounds lies inside. -/
theorem AllFound.covers_iff {results : List CorrectionSet} {m c k : ℕ}
    (h : AllFound tr found (min m c) k results) :
    Covers tr.FreedBad tr.gateIDs.toFinset (found ++ results.map List.toFinset) m ↔
      ∀ t ⊆ tr.gateIDs.toFinset, t.card ≤ m → tr.FreedBad t → Unblocked found t →
        ∃ u ⊆ t, u.card ≤ c ∧ BMCDebugger.FreedWithin tr 0 k u := by
  constructor
  · intro hall t ht hcard hbad hopen
    obtain ⟨u, hu, hut⟩ := not_unblocked.mp (hall t ht hcard hbad)
    rcases List.mem_append.mp hu with hu | hu
    · exact absurd hut (hopen u hu)
    · obtain ⟨corr, hcorr, rfl⟩ := List.mem_map.mp hu
      obtain ⟨hle, hwithin⟩ := h.within corr hcorr
      exact ⟨_, hut, hle.trans (min_le_right m c), hwithin⟩
  · intro hall t ht hcard hbad hopen
    obtain ⟨u, hut, hle, hwithin⟩ := hall t ht hcard hbad (unblocked_append.mp hopen).1
    refine h.covers u (hut.trans ht) (le_min ((Finset.card_le_card hut).trans hcard) hle) hwithin ?_
    exact fun v hv hvu ↦ hopen v hv (hvu.trans hut)

end

section IC3

open IC3

variable {E : Engines} {fuel : IC3Solver → ℕ} {tr : TransitionRelation} {n : ℕ} {d : DebugTransitionRelation}

def Waiting (E : Engines) (fuel : IC3Solver → ℕ) (hd : Debugs tr n d) (s : IC3Debugger)
    (vm : VariableManager) : Prop :=
  ∃ limit blocked, (IC3Debugger.shared E fuel).Idle (IC3Debugger.Holding E hd) vm limit blocked s

theorem waiting_new (hd : Debugs tr n d) {vm : VariableManager} (hvm : vm.Inv)
    (hle : n + 4 * tr.gateIDs.length ≤ vm.nextID) {s : IC3Debugger} (hs : IC3Debugger.new vm d = .ok s) :
    Waiting E fuel hd s vm := by
  have hrep : IC3Debugger.Rep E hd tr.gateIDs.length [] s :=
    post_of_ok (IC3Debugger.new_meets hd hvm hle) hs
  have hvars : s.ic3.vars = vm := (IC3Debugger.new_vars vm d).of_ok hs
  exact ⟨_, [], ⟨0, hrep, Nat.zero_le _⟩, hvars ▸ le_rfl⟩

/-- The debugger of IC3 is such a debugger, and blocks any set of gates that is not empty. -/
theorem yields_ic3 (hd : Debugs tr n d) (hpos : tr.gateIDs ≠ []) (hmany : tr.gateIDs.length < cardinalityInf)
    (hfuel : ∀ st, st.fuelBound ≤ fuel st) :
    Yields (IC3Debugger.shared E fuel).paired tr (Waiting E fuel hd) fun _ ↦ False := by
  have hexact : (IC3Debugger.shared E fuel).Exact tr.FreedBad tr.gateIDs (IC3Debugger.Holding E hd) fun _ ↦ True :=
    IC3Debugger.shared_exact hd hpos hmany ⟨trivial, trivial⟩ hfuel
  have hready : ∀ {s vm limit blocked}, VariableManager.Inv vm →
      (IC3Debugger.shared E fuel).Idle (IC3Debugger.Holding E hd) vm limit blocked s →
      IC3Debugger.Rep E hd limit blocked { s with ic3 := { s.ic3 with vars := vm } } := by
    intro s vm limit blocked hvm hs
    obtain ⟨lo, hrep⟩ := hs.rep
    exact (hexact.advance hrep hvm hs.le).1
  refine ⟨fun hs _ hle ↦ ?_, fun hvm hs c ↦ ?_, fun hvm hs ↦ ?_, fun {s vm} hvm hs ↦ ?_,
    fun {s vm} hvm hs suspects hsub ↦ ?_, fun hvm hs soln hne hsub ↦ ?_⟩
  all_goals obtain ⟨limit, blocked, hs⟩ := hs
  · exact ⟨limit, blocked, hs.later hle⟩
  · have hrep := hready hvm hs
    refine ((hrep.setCardinality_any hpos hmany c).and (hrep.setCardinality_le hpos c)).bind fun s' hs' ↦ ?_
    obtain ⟨⟨limit', hrep'⟩, hle⟩ := hs'
    exact ⟨⟨limit', blocked, ⟨0, hrep', Nat.zero_le _⟩, le_rfl⟩, hrep'.inv, hle⟩
  · exact (hexact.act hvm hs fun _ hx ↦ (hexact.exact _).clearCardinality hx).imp fun r hr ↦
      ⟨⟨_, _, hr.1⟩, hr.2.inv, hr.2.le⟩
  · have hask : Meets (fun r ↦ DebugAnswer tr.FreedBad tr.gateIDs limit blocked r.1 ∧ _) (fun _ ↦ True)
        ((IC3Debugger.shared E fuel).paired.debug (s, vm)) :=
      hexact.ask (B := fun _ ↦ blocked) hvm hs fun _ hx ↦ (hexact.exact _).debug hx
    exact hask.imp fun r hr ↦ ⟨⟨_, _, hr.2.1⟩, hr.2.2.inv, hr.2.2.le⟩
  · have hask : Meets (fun r ↦ DebugAnswer tr.FreedBad suspects limit blocked r.1 ∧ _) (fun _ ↦ True)
        ((IC3Debugger.shared E fuel).paired.debugOverGates (s, vm) suspects) :=
      hexact.ask (B := fun _ ↦ blocked) hvm hs fun _ hx ↦ (hexact.exact _).debugOverGates hx hsub
    refine hask.imp fun r hr ↦ ⟨⟨⟨_, _, hr.2.1⟩, hr.2.2.inv, hr.2.2.le⟩, fun soln hsoln ↦ ?_⟩
    obtain ⟨hin, -, hbad, -⟩ : DebugAnswer tr.FreedBad suspects limit blocked (some soln) := hsoln ▸ hr.1
    exact ⟨List.Subset.trans hin hsub, fun hnil ↦ by rwa [hnil] at hbad⟩
  · refine ((hready hvm hs).blockSolution_vars hne hsub).bind fun s' hs' ↦ ?_
    exact ⟨⟨limit, _, ⟨0, hs'.1, Nat.zero_le _⟩, le_rfl⟩, hs'.2⟩

end IC3

/-- What the finder's own searches may fail with: too many variables, or steps beyond the frames
that an ID can be primed to. -/
def Stops (x kMax : ℕ) (e : Failure) : Prop :=
  (e = .narrowed ∨ e = .idsExhausted) ∧ 2 ^ 32 < x ∨ e = .assertion ∧ maxPrimes ≤ kMax

theorem room_stops {fail : Failure → Prop} (x kMax : ℕ) :
    Room (fun e ↦ fail e ∨ Stops x kMax e) x := fun hlt ↦
  ⟨.inr (.inl ⟨.inl rfl, hlt⟩), .inr (.inl ⟨.inr rfl, hlt⟩)⟩

/-- A search misses a correction set exactly when all that are left within its bound on gates
have more of them than the option allows or are bad only at later steps. -/
theorem findNext_complete (S : SAT.Solver) (V : Debugger (X × VariableManager))
    (I : X → VariableManager → Prop) (opts : BMCOptions) (tr : TransitionRelation)
    (hwf : tr.WellFormed) (hplain : tr.gateCNF = AndGate.toCNF) (hfree : tr.constraints = [])
    (hsafe : tr.Safe) (hmany : tr.gateIDs.length < cardinalityInf) (vm : VariableManager)
    (hvm : vm.Inv) (hold : ∀ v ∈ tr.signals, v < vm.nextID) (d : DebugTransitionRelation)
    (vm₀ : VariableManager) (hd : fromRelation vm tr = .ok (d, vm₀)) (fail : Failure → Prop)
    (hV : Yields V tr I fail) (x₀ : X)
    (hx : I x₀ vm₀) (found : List (Finset ℕ)) (f : BMCCorrectionSetFinder X)
    (hf : Reached S V opts tr (new opts vm₀ d x₀) found f) (m : ℕ) :
    Meets (fun r ↦ (r.1 = none → Covers tr.FreedBad tr.gateIDs.toFinset found m) ↔
        (Left tr.FreedBad tr.gateIDs.toFinset found m →
          Left (BMCDebugger.FreedWithin tr 0 f.kMax) tr.gateIDs.toFinset found
            (min m opts.mcsBmcNMax)))
        (fun e ↦ fail e ∨ Stops (f.vars.nextID + searchCost opts tr m) f.kMax e)
        (findNext S V opts f m) ∧
      ∀ fuel, 2 ^ tr.gateIDs.length < fuel → Meets (fun r ↦
        Covers tr.FreedBad tr.gateIDs.toFinset (found ++ r.1.map List.toFinset) m ↔
          ∀ t ⊆ tr.gateIDs.toFinset, t.card ≤ m → tr.FreedBad t → Unblocked found t →
            ∃ u ⊆ t, u.card ≤ opts.mcsBmcNMax ∧ BMCDebugger.FreedWithin tr 0 f.kMax u)
        (fun e ↦ fail e ∨ Stops (f.vars.nextID + allCost opts tr m) f.kMax e)
        (findAll S V opts fuel f m) := by
  obtain ⟨hdebugs, hvm₀, hnext⟩ := post_of_ok
    ((fromRelation_debugs hwf hplain hvm hold).weaken fun _ _ ↦ trivial) hd
  have hbad : ¬ tr.FreedBad ∅ := hsafe.not_freedBad hplain hfree
  have hs : Setting V tr vm.nextID d I fail := ⟨⟨hdebugs, hmany, hV⟩, fun k hk ↦ hbad ⟨k, hk⟩⟩
  have hrep := hf.rep hs (rep_new hvm₀ hnext.ge hx)
  constructor
  · refine (findNext_meets (hs.weaken fun _ ↦ .inl) hrep m (room_stops _ _) fun hle ↦
      .inr (.inr ⟨rfl, hle⟩)).imp fun r hr ↦ ?_
    obtain ⟨answer, f'⟩ := r
    obtain ⟨hanswer, -, -⟩ := hr
    dsimp only at hanswer ⊢
    cases answer with
    | none =>
      have hnone := covers_iff_not_left.mp hanswer
      rw [covers_iff_not_left]
      exact ⟨fun h hleft ↦ absurd hleft (h rfl), fun h _ hleft ↦ hnone (h hleft)⟩
    | some corr =>
      obtain ⟨hin, hcard, hwithin, hopen⟩ := hanswer
      refine ⟨fun _ _ ↦ ⟨corr.toFinset, fun g hg ↦ ?_, hcard, hwithin, hopen⟩, fun _ ↦ nofun⟩
      exact List.mem_toFinset.mpr (hin (List.mem_toFinset.mp hg))
  · intro fuel hfuel
    refine (findAll_meets (hs.weaken fun _ ↦ .inl) hrep m (.inr hfuel) (room_stops _ _) fun hle ↦
      .inr (.inr ⟨rfl, hle⟩)).imp fun r hr ↦ ?_
    exact hr.1.covers_iff

end BMCCorrectionSetFinder

def delayed : TransitionRelation where
  bad := 4
  latches := [⟨4, 6, idFalse⟩]
  gates := [⟨6, 2, 2⟩]
  latchIDs := [4]
  inputIDs := []
  gateIDs := [6]
  constraints := []
  gateCNF := AndGate.toCNF

theorem delayed_wellFormed : delayed.WellFormed where
  bad := by decide
  gates := by decide
  latches := by decide
  reset := by decide
  constraints := by decide
  ands := by decide
  latchIDs_eq := rfl
  gateIDs_eq := rfl
  isVar := by decide
  nodup := by decide
  next := by decide
  constraints_defined := by decide
  bad_defined := by decide
  rhs_defined := by decide
  gates_computed := by
    refine ⟨id, fun g hg ↦ ⟨_, TransitionRelation.computes_toCNF rfl ?_ (.inl ?_) (.inl ?_)⟩⟩
    all_goals
      obtain rfl := List.mem_singleton.mp hg
      rfl

theorem not_freedBadAt_delayed {D : Finset ℕ} : ¬ delayed.FreedBadAt D 0 := by
  intro h
  obtain ⟨x, hx, hbad⟩ := h
  have hreset : x 0 4 = litVal (x 0) idFalse := hx.init _ List.mem_cons_self (by decide)
  have hconst : x 0 idFalse = false := hx.const 0 (by omega)
  have hhigh : litVal (x 0) 4 = true := hbad
  rw [litVal_of_even rfl, hreset, litVal_idFalse, hconst] at hhigh
  exact Bool.false_ne_true hhigh

theorem freedBadAt_delayed : delayed.FreedBadAt {6} 1 := by
  refine ⟨fun i v ↦ decide (v = 6 ∨ v = 4 ∧ i ≠ 0), ⟨fun _ _ ↦ rfl, by decide, fun i _ ↦ ⟨rfl, ?_⟩,
    fun i _ l hl ↦ ?_⟩, rfl⟩
  · intro g hg hno
    obtain rfl := List.mem_singleton.mp hg
    exact absurd (Finset.mem_singleton_self 6) hno
  · obtain rfl := List.mem_singleton.mp hl
    rfl

theorem delayed_safe : delayed.Safe := by
  intro k hk
  obtain ⟨x, hinit, hrun, hbad⟩ := hk
  have hhigh : litVal (x k) 4 = true := hbad
  rw [litVal_of_even rfl] at hhigh
  have hconst : ∀ i ≤ k, x i idFalse = false := fun i hi ↦ (hrun i (by omega)).1.const
  cases k with
  | zero =>
    have hreset : x 0 4 = litVal (x 0) idFalse := hinit _ List.mem_cons_self (by decide)
    rw [hreset, litVal_idFalse, hconst 0 le_rfl] at hhigh
    exact Bool.false_ne_true hhigh
  | succ k =>
    have hnext : x (k + 1) 4 = litVal (x k) 6 := (hrun k (by omega)).2 _ List.mem_cons_self
    have hgates := (hrun k (by omega)).1.gates
    rw [TransitionRelation.toCNF, satClauses_flatMap] at hgates
    have hgate : litVal (x k) 6 = (litVal (x k) 2 && litVal (x k) 2) :=
      (satClauses_toCNF _ _).mp (hgates ⟨6, 2, 2⟩ (by decide))
    have hfalse : litVal (x k) 2 = false := litVal_idFalse.trans (hconst k (by omega))
    rw [hnext, hgate, hfalse] at hhigh
    exact Bool.false_ne_true hhigh

theorem fromRelation_delayed : ∃ d vm, fromRelation fourVars delayed = .ok (d, vm) ∧
    Debugs delayed fourVars.nextID d ∧ vm.Inv ∧ vm.nextID = 16 := by
  have hold : ∀ v ∈ delayed.signals, v < fourVars.nextID := by decide
  have hmade := fromRelation_debugs delayed_wellFormed rfl fourVars_inv hold
  cases hr : fromRelation fourVars delayed with
  | ok r =>
    rw [hr] at hmade
    exact ⟨r.1, r.2, rfl, hmade⟩
  | error e =>
    rw [hr] at hmade
    exact absurd hmade.2 (by decide)

namespace BMCCorrectionSetFinder

theorem findNext_delayed {X : Type} {I : X → VariableManager → Prop} (S : SAT.Solver)
    {V : Debugger (X × VariableManager)} (hV : Yields V delayed I fun _ ↦ False) (x₀ : X)
    {d : DebugTransitionRelation} {vm : VariableManager} (hx : I x₀ vm)
    (hd : Debugs delayed fourVars.nextID d) (hvm : vm.Inv) (hnext : vm.nextID = 16) :
    Meets (fun r ↦ r.1 = none) (fun _ ↦ False)
      (findNext S V ⟨0, 0, 4, false⟩ (new ⟨0, 0, 4, false⟩ vm d x₀) 1) := by
  have hbad : ¬ delayed.FreedBad ∅ := delayed_safe.not_freedBad rfl rfl
  have hs : Grounds V delayed fourVars.nextID d I fun _ ↦ False :=
    ⟨hd, by decide, hV⟩
  have hrep : Rep delayed fourVars.nextID d I [] (new ⟨0, 0, 4, false⟩ vm d x₀) :=
    rep_new hvm hnext.ge hx
  have hroom : Room (fun _ ↦ False) (vm.nextID + cost delayed) := by
    intro hlt
    rw [hnext] at hlt
    exact absurd hlt (by decide)
  have hat := findAt_meets (S := S) (k := 0) (c := 1) hs hrep (paid_add le_rfl 1) hroom (fun hle ↦ absurd hle (by decide))
    fun hb ↦ absurd ⟨0, hb⟩ hbad
  have htry : Meets (fun r ↦ r.1 = none) (fun _ ↦ False)
      (tryCardinality S V (new ⟨0, 0, 4, false⟩ vm d x₀) 1) := by
    change Meets _ _ (firstFound (tryAt S V 1) [0] _)
    rw [firstFound_singleton]
    refine hat.bind fun r hr ↦ ?_
    obtain ⟨answer, f'⟩ := r
    cases answer with
    | none => rfl
    | some corr => exact absurd hr.1.2.2.1 not_freedBadAt_delayed
  unfold findNext
  rw [hrep.numGates hd]
  change Meets _ _ (firstFound (tryCardinality S V) [1] _)
  rw [firstFound_singleton]
  exact htry

/-- A search with the debugger of IC3, and two more after it. -/
theorem findNext_complete_delayed : ∃ d vm x₀ r f, fromRelation fourVars delayed = .ok (d, vm) ∧
    IC3Debugger.new vm d = .ok x₀ ∧
    findNext .exhaustive (IC3Debugger.shared .plain IC3.IC3Solver.fuelBound).paired ⟨1, 0, 4, false⟩
      (new ⟨1, 0, 4, false⟩ vm d x₀) 1 = .ok (r, f) ∧
    Meets (fun r' ↦ (r'.1 = none → Covers delayed.FreedBad [6].toFinset (blockedBy [] r) 1) ↔
        (Left delayed.FreedBad [6].toFinset (blockedBy [] r) 1 →
          Left (BMCDebugger.FreedWithin delayed 0 f.kMax) [6].toFinset (blockedBy [] r) (min 1 4)))
      (fun e ↦ False ∨ Stops (f.vars.nextID + searchCost ⟨1, 0, 4, false⟩ delayed 1) f.kMax e)
      (findNext .exhaustive (IC3Debugger.shared .plain IC3.IC3Solver.fuelBound).paired ⟨1, 0, 4, false⟩ f 1) ∧
    Meets (fun r' ↦
        Covers delayed.FreedBad [6].toFinset (blockedBy [] r ++ r'.1.map List.toFinset) 1 ↔
          ∀ t ⊆ [6].toFinset, t.card ≤ 1 → delayed.FreedBad t → Unblocked (blockedBy [] r) t →
            ∃ u ⊆ t, u.card ≤ 4 ∧ BMCDebugger.FreedWithin delayed 0 f.kMax u)
      (fun e ↦ False ∨ Stops (f.vars.nextID + allCost ⟨1, 0, 4, false⟩ delayed 1) f.kMax e)
      (findAll .exhaustive (IC3Debugger.shared .plain IC3.IC3Solver.fuelBound).paired ⟨1, 0, 4, false⟩ 3 f 1) := by
  obtain ⟨d, vm, hok, hdebugs, hvm, hnext⟩ := fromRelation_delayed
  have hmade : Meets _ (fun _ ↦ False) (IC3Debugger.new vm d) :=
    IC3Debugger.new_meets (E := .plain) hdebugs hvm hnext.ge
  obtain ⟨x₀, hx₀, -⟩ := hmade.exists_ok
  have hV := yields_ic3 (E := .plain) hdebugs (by decide) (by decide) fun _ ↦ le_rfl
  have hright := fun found f ↦ findNext_complete .exhaustive _ _ ⟨1, 0, 4, false⟩ delayed delayed_wellFormed rfl
    rfl delayed_safe (by decide) fourVars fourVars_inv (by decide) d vm hok _ hV x₀
    (waiting_new hdebugs hvm hnext.ge hx₀) found f
  have hcost : ¬ 2 ^ 32 < vm.nextID + searchCost ⟨1, 0, 4, false⟩ delayed 1 := by
    rw [hnext]
    decide
  obtain ⟨⟨r, f⟩, hr, -⟩ := ((hright [] _ .new 1).1.weaken fun e he ↦
    he.elim id fun hstops ↦ hstops.elim (fun h ↦ hcost h.2) fun h ↦ absurd h.2 (by decide : ¬ maxPrimes ≤ 1)).exists_ok
  have hagain := hright _ f (.findNext .new hr) 1
  exact ⟨d, vm, x₀, r, f, hok, hx₀, hr, hagain.1, hagain.2 3 (by decide)⟩

/-- A correction set that is bad only after the last step allowed is not found. -/
theorem findNext_complete_fails : ¬ ∀ (S : SAT.Solver) (E : IC3.Engines) (fuel : IC3.IC3Solver → ℕ),
    (∀ st, st.fuelBound ≤ fuel st) → ∀ (opts : BMCOptions) (tr : TransitionRelation), tr.WellFormed →
    tr.gateCNF = AndGate.toCNF → tr.constraints = [] → tr.Safe → tr.gateIDs.length < cardinalityInf →
    ∀ vm : VariableManager, vm.Inv → (∀ v ∈ tr.signals, v < vm.nextID) → ∀ d vm₀,
    fromRelation vm tr = .ok (d, vm₀) → ∀ x₀, IC3Debugger.new vm₀ d = .ok x₀ → ∀ found f,
    Reached S (IC3Debugger.shared E fuel).paired opts tr (new opts vm₀ d x₀) found f → ∀ m f',
    findNext S (IC3Debugger.shared E fuel).paired opts f m = .ok (none, f') →
    Covers tr.FreedBad tr.gateIDs.toFinset found m := by
  intro hall
  obtain ⟨d, vm, hok, hdebugs, hvm, hnext⟩ := fromRelation_delayed
  have hmade : Meets _ (fun _ ↦ False) (IC3Debugger.new vm d) :=
    IC3Debugger.new_meets (E := .plain) hdebugs hvm hnext.ge
  obtain ⟨x₀, hx₀, -⟩ := hmade.exists_ok
  have hV := yields_ic3 (E := .plain) hdebugs (by decide) (by decide) fun _ ↦ le_rfl
  have hmeets := findNext_delayed .exhaustive hV x₀ (waiting_new hdebugs hvm hnext.ge hx₀) hdebugs hvm hnext
  obtain ⟨r, hr, hnone⟩ := hmeets.exists_ok
  obtain ⟨answer, f'⟩ := r
  dsimp only at hnone
  rw [hnone] at hr
  have hcovers := hall .exhaustive _ _ (fun _ ↦ le_rfl) _ delayed delayed_wellFormed rfl rfl delayed_safe
    (by decide) fourVars fourVars_inv (by decide) d vm hok x₀ hx₀ [] _ .new 1 f' hr
  exact hcovers {6} (by decide) (by decide) ⟨1, freedBadAt_delayed⟩ nofun

end BMCCorrectionSetFinder

end PME
