import PME.IVCUCBF

namespace PME

open Outcome Exploration Explored

structure MARCOIVCOptions where
  incrIsSafe : Bool
  hybridIsSafe : Bool
  useIVCUCBF : Bool
  ucbf : IVCUCBFOptions
  msu4 : MSU4Options

structure MARCOIVCContext where
  opts : MARCOIVCOptions
  backend : Backend
  checkers : SafetyCheckers
  tr : TransitionRelation

structure MARCOIVCFinder extends IVCFinder where
  map : MSU4MapSolver
  smallestIVC : Seed

namespace MARCOIVCFinder

def new (vm : VariableManager) (tr : TransitionRelation) : MARCOIVCFinder where
  toIVCFinder := .new
  map := .new vm (idSet tr.gateIDs)
  smallestIVC := []

section Source

variable (ctx : MARCOIVCContext)

def isSafeIC3 (seed : Seed) : Result Bool := do
  let part ← ctx.tr.ofGates seed
  return ctx.checkers.ic3 part

def isSafeHybrid (seed : Seed) : Result Bool := do
  let part ← ctx.tr.ofGates seed
  return ctx.checkers.hybrid part

def isSafeIncremental (seed : Seed) : Result Bool :=
  return !ctx.checkers.debugOverGates (negateGates ctx.tr.gateIDs seed)

def isSafe (seed : Seed) : Result Bool :=
  if ctx.opts.incrIsSafe then isSafeIncremental ctx seed
  else if ctx.opts.hybridIsSafe then isSafeHybrid ctx seed
  else isSafeIC3 ctx seed

def shrink (vm : VariableManager) (seed : Seed) : Result (VariableManager × Seed) :=
  if ctx.opts.useIVCUCBF then
    IVCUCBFFinder.shrink ctx.backend ctx.opts.ucbf ctx.checkers vm ctx.tr seed
  else do
    let seed ← IVCBFFinder.shrink ctx.checkers ctx.tr seed
    return (vm, seed)

def mapSolver : MapSolver MSU4MapSolver :=
  MSU4MaximalMapSolver.solver ctx.opts.msu4 ctx.backend.sat

def getUnexplored (f : MARCOIVCFinder) : Result (Option Seed × MARCOIVCFinder) := do
  let (seed, map) ← (mapSolver ctx).findSeed f.map
  return (seed, { f with map := map })

def blockUp (f : MARCOIVCFinder) (seed : Seed) : Result MARCOIVCFinder := do
  ensure (!seed.isEmpty)
  let map ← (mapSolver ctx).blockUp f.map seed
  return { f with map := map }

def blockDown (f : MARCOIVCFinder) (seed : Seed) : Result MARCOIVCFinder := do
  ensure (!seed.isEmpty)
  let map ← (mapSolver ctx).blockDown f.map seed
  return { f with map := map }

def recordMIVC (f : MARCOIVCFinder) (mivc : Seed) : MARCOIVCFinder where
  toIVCFinder := f.addMIVC mivc
  map := f.map
  smallestIVC := smallerIVC f.smallestIVC mivc

/-- One pass of the loop of `doFindIVCs`. -/
def pass (f : MARCOIVCFinder) : Result (MARCOIVCFinder ⊕ MARCOIVCFinder) := do
  let (found, f) ← f.getUnexplored ctx
  match found with
  | none => return .inr f
  | some seed =>
    if ← isSafe ctx seed then
      let (vm, mivc) ← shrink ctx f.map.map.vars seed
      let f ← blockUp ctx { f with map := f.map.withVars vm } mivc
      return .inl (f.recordMIVC mivc)
    else return .inl (← f.blockDown ctx seed)

/-- Each pass blocks a seed, so that there are no more than the gates have subsets. -/
def doFindIVCs (f : MARCOIVCFinder) : Result MARCOIVCFinder :=
  if ctx.tr.bad == idFalse then return f.recordMIVC []
  else do
    let f ← loop .outOfFuel (pass ctx) (2 ^ ctx.tr.gateIDs.length + 1) f
    ensure (!f.smallestIVC.isEmpty)
    return { f with toIVCFinder := f.setMinimumIVC f.smallestIVC }

end Source

/-- All gates together are safe, and some gate alone is not: then the search never arrives at
the empty seed. -/
def Passable (tr : TransitionRelation) : Prop :=
  SafeOver tr tr.gateIDs ∧ ∃ gate ∈ tr.gateIDs, ¬ SafeOver tr [gate]

/-- Where that option is on, each safe seed comes with a proof, and gates can be left out by cores. -/
def CoresUsable (ctx : MARCOIVCContext) : Prop :=
  ctx.opts.useIVCUCBF = true → ∀ seed, seed.Sublist (idSet ctx.tr.gateIDs) →
    ∀ p, ctx.tr.ofGates seed = .ok p → p.Safe → SafetyProof p (ctx.checkers.proof p) ∧
      IVCUCBFFinder.Shrinkable ctx.backend.simplify ctx.opts.ucbf ctx.tr seed p (ctx.checkers.proof p)

/-- A core of all gates is sought, and no proof of their circuit holds without the constraints. -/
def CoreMissing (ctx : MARCOIVCContext) : Prop :=
  ctx.opts.useIVCUCBF = true ∧ ctx.opts.ucbf.SeeksCore ∧
    ∃ p, ctx.tr.ofGates (idSet ctx.tr.gateIDs) = .ok p ∧ p.Safe ∧ SafetyProof p (ctx.checkers.proof p) ∧
      IVCUCBFFinder.Startable ctx.backend.simplify ctx.opts.ucbf p ∧
      ∀ inv, IVCUCBFFinder.Usable ctx.opts.ucbf p (ctx.checkers.proof p) inv → ¬ ctx.tr.Carried (idSet ctx.tr.gateIDs) inv

structure Setting (ctx : MARCOIVCContext) : Prop where
  wellFormed : ctx.tr.WellFormed
  plain : ctx.tr.gateCNF = AndGate.toCNF
  relevant : ctx.backend.sat.Relevant
  exact : ctx.checkers.Exact ctx.tr

section Supply

variable (ctx : MARCOIVCContext)

def proofLength (seed : Seed) : ℕ :=
  match ctx.tr.ofGates seed with
  | .ok part => (ctx.checkers.proof part).length
  | .error _ => 0

/-- IDs that cores take for one seed, with the longest of the proofs. -/
def shrinkIDs : ℕ :=
  if ctx.opts.useIVCUCBF then
    IVCUCBFFinder.shrinkIDs ctx.tr.gateIDs.length
      ((idSet ctx.tr.gateIDs).sublists.toFinset.sup (proofLength ctx))
  else 0

def passIDs : ℕ := MSU4MaxSATSolver.solveIDs (idSet ctx.tr.gateIDs).length + shrinkIDs ctx

def runIDs (vm : VariableManager) : ℕ :=
  vm.nextID + (2 ^ (idSet ctx.tr.gateIDs).length + 1) * passIDs ctx

end Supply

/-- The failures that are left besides an assertion on an empty seed. -/
def Stops (tr : TransitionRelation) (top : ℕ) (e : Failure) : Prop :=
  MSU4MapSolver.TooLarge (idSet tr.gateIDs) top e ∨ e = .assertion ∧ ¬ Passable tr

structure Knows (ctx : MARCOIVCContext) (top need : ℕ) (e : Explored ℕ) (f : MARCOIVCFinder) : Prop where
  map : MSU4MapSolver.Rep ctx.backend.sat id (idSet ctx.tr.gateIDs) e.Unexplored f.map
  signals : ∀ v ∈ ctx.tr.signals, v < f.map.map.vars.nextID
  supply : f.map.map.vars.nextID + need ≤ top
  sound : e.Sound (SafeGates ctx.tr) ctx.tr.gateIDs.toFinset
  mivcs : f.mivcs.map List.toFinset = e.found
  nodup : ∀ s ∈ f.mivcs, s.Nodup
  nonempty : ∀ s ∈ f.mivcs, s ≠ []
  smallest : KeepsSmallest f.mivcs f.smallestIVC
  refuted : ∀ d ∈ e.refuted, d ⊆ ctx.tr.gateIDs.toFinset ∧ d ≠ ∅

section Loop

variable {ctx : MARCOIVCContext} {top need : ℕ} {e : Explored ℕ} {f : MARCOIVCFinder} {seed : Seed}
  {vm : VariableManager} {fail : Failure → Prop}

theorem Knows.fewer (hf : Knows ctx top need e f) {m : ℕ} (hle : m ≤ need) : Knows ctx top m e f :=
  { hf with supply := (Nat.add_le_add_left hle _).trans hf.supply }

theorem Knows.withVars {m : ℕ} (hf : Knows ctx top (m + need) e f) (hvm : vm.Inv)
    (hge : f.map.map.vars.nextID ≤ vm.nextID) (hle : vm.nextID ≤ f.map.map.vars.nextID + m) :
    Knows ctx top need e { f with map := f.map.withVars vm } :=
  { hf with
    map := hf.map.withVars hvm hge
    signals := fun v hv ↦ (hf.signals v hv).trans_le hge
    supply := by
      have hsupply := hf.supply
      simp only [MSU4MapSolver.withVars]
      omega }

theorem isSafe_meets (h : ctx.tr.WellFormed) (hc : ctx.checkers.Exact ctx.tr)
    {fail : Failure → Prop} (hsub : seed ⊆ ctx.tr.gateIDs) :
    Meets (fun b ↦ b = true ↔ SafeGates ctx.tr seed.toFinset) fail (isSafe ctx seed) := by
  unfold isSafe
  split
  · unfold isSafeIncremental
    rw [meets_pure, Bool.not_eq_true', ← Bool.not_eq_true, hc.debugOverGates, not_not, safeOver_iff h]
    have heq : (negateGates ctx.tr.gateIDs (negateGates ctx.tr.gateIDs seed)).toFinset =
        seed.toFinset := negateGates_negateGates hsub
    rw [heq]
  · split
    · exact meets_check h hc.hybrid seed
    · exact meets_check h hc.ic3 seed

theorem shrinkIDs_of_useIVCUCBF (huse : ctx.opts.useIVCUCBF = true) {p : TransitionRelation}
    (hsub : seed.Sublist (idSet ctx.tr.gateIDs)) (hok : ctx.tr.ofGates seed = .ok p) :
    IVCUCBFFinder.shrinkIDs ctx.tr.gateIDs.length (ctx.checkers.proof p).length ≤ shrinkIDs ctx := by
  have hlen : (ctx.checkers.proof p).length = proofLength ctx seed := by
    unfold proofLength
    rw [hok]
  have hmem : seed ∈ (idSet ctx.tr.gateIDs).sublists.toFinset :=
    List.mem_toFinset.mpr (List.mem_sublists.mpr hsub)
  unfold shrinkIDs
  rw [if_pos huse, hlen]
  exact IVCUCBFFinder.shrinkIDs_mono (Finset.le_sup hmem)

theorem tooLarge_of_supply {ids : List ℕ} (hle : vm.nextID + need ≤ top) {e : Failure}
    (he : e = .narrowed ∨ e = .idsExhausted) (hlt : 2 ^ 32 < vm.nextID + need) :
    MSU4MapSolver.TooLarge ids top e := .inl ⟨he, hlt.trans_le hle⟩

theorem shrink_meets (h : Setting ctx) (hcores : CoresUsable ctx) (hvm : vm.Inv)
    (hold : ∀ v ∈ ctx.tr.signals, v < vm.nextID) (hsub : seed.Sublist (idSet ctx.tr.gateIDs))
    (hsafe : SafeGates ctx.tr seed.toFinset) (hsupply : vm.nextID + shrinkIDs ctx ≤ top) :
    Meets (fun r ↦ r.1.Inv ∧ vm.nextID ≤ r.1.nextID ∧ r.1.nextID ≤ vm.nextID + shrinkIDs ctx ∧
      r.2.Nodup ∧ r.2 ⊆ seed ∧ Minimal (SafeGates ctx.tr) r.2.toFinset)
      (MSU4MapSolver.TooLarge (idSet ctx.tr.gateIDs) top) (shrink ctx vm seed) := by
  unfold shrink
  split
  · next huse =>
    have hnodup : seed.Nodup := h.wellFormed.gates_idSet.nodup.sublist hsub
    obtain ⟨p, hok, hp⟩ := (safeOver_iff h.wellFormed).mpr hsafe
    have hle := shrinkIDs_of_useIVCUCBF huse hsub hok
    obtain ⟨hproof, hshrink⟩ := hcores huse seed hsub p hok hp
    refine (IVCUCBFFinder.shrink_meets h.wellFormed h.plain h.exact hproof hvm hold hnodup
      (fun gate hg ↦ mem_idSet.mp (hsub.subset hg)) hok hshrink hsafe
      (fun e he hlt ↦ tooLarge_of_supply hsupply he (by omega)) fun hlt ↦ ?_).imp fun r hr ↦ ?_
    · exact .inr ⟨rfl, hlt.le.trans hsub.length_le⟩
    · obtain ⟨hinv, hge, hle', hr⟩ := hr
      exact ⟨hinv, hge, by omega, hr⟩
  · refine (IVCBFFinder.shrink_meets h.wellFormed h.exact hsafe).bind fun s hs ↦ ?_
    exact ⟨hvm, le_rfl, Nat.le_add_right _ _, hs⟩

theorem safeGates_toFinset (h : ctx.tr.WellFormed) (hp : Passable ctx.tr) :
    SafeGates ctx.tr ctx.tr.gateIDs.toFinset := (safeOver_iff h).mp hp.1

theorem Passable.exists_singleton (h : ctx.tr.WellFormed) (hp : Passable ctx.tr) :
    ∃ gate ∈ ctx.tr.gateIDs, ¬ SafeGates ctx.tr {gate} := by
  obtain ⟨gate, hmem, hbad⟩ := hp.2
  refine ⟨gate, hmem, fun hsafe ↦ hbad ((safeOver_iff h).mpr ?_)⟩
  rw [List.toFinset_cons, List.toFinset_nil, insert_empty_eq]
  exact hsafe

theorem Passable.not_safe_empty (h : ctx.tr.WellFormed) (hp : Passable ctx.tr) :
    ¬ SafeGates ctx.tr ∅ := by
  obtain ⟨gate, -, hbad⟩ := hp.exists_singleton h
  exact fun hsafe ↦ hbad (monotone_safeGates h (Finset.empty_subset _) hsafe)

theorem ensure_nonempty_meets {fail : Failure → Prop} (hfail : seed = [] → fail .assertion) :
    Meets (fun _ ↦ seed ≠ []) fail (ensure (!seed.isEmpty)) := by
  cases seed with
  | nil => exact hfail rfl
  | cons gate seed => exact List.cons_ne_nil gate seed

theorem toFinset_ne_empty (h : seed ≠ []) : seed.toFinset ≠ ∅ := fun hempty ↦
  h (List.toFinset_eq_empty_iff seed |>.mp hempty)

theorem mapBlocks (h : ctx.tr.WellFormed) (vm : VariableManager) : (mapSolver ctx).Blocks (idSet ctx.tr.gateIDs)
    fun P x ↦ MSU4MapSolver.Rep ctx.backend.sat id (idSet ctx.tr.gateIDs) P x ∧ x.map.vars = vm :=
  MSU4MapSolver.blocks_vars h.gates_idSet rfl rfl rfl vm

/-- The set that a safe seed has led to is blocked with its supersets, and recorded. -/
theorem Knows.blockUp (h : ctx.tr.WellFormed) (hf : Knows ctx top need e f)
    {t : Finset ℕ} (ht : e.Unexplored t) (hbase : t ⊆ ctx.tr.gateIDs.toFinset)
    (hnodup : seed.Nodup) (hsub : seed.toFinset ⊆ t)
    (hmin : Minimal (SafeGates ctx.tr) seed.toFinset) :
    Meets (fun f' ↦ Knows ctx top need (e.addFound seed.toFinset) (f'.recordMIVC seed)) (Stops ctx.tr top)
      (f.blockUp ctx seed) := by
  have hensure : Meets (fun _ ↦ seed ≠ []) (Stops ctx.tr top) (ensure (!seed.isEmpty)) := by
    refine ensure_nonempty_meets fun hnil ↦ .inr ⟨rfl, fun hp ↦ ?_⟩
    rw [hnil] at hmin
    exact hp.not_safe_empty h hmin.prop
  have hids : seed ⊆ idSet ctx.tr.gateIDs := fun gate hg ↦
    mem_idSet.mpr (List.mem_toFinset.mp (hbase (hsub (List.mem_toFinset.mpr hg))))
  have hblock : Meets _ (Stops ctx.tr top) ((mapSolver ctx).blockUp f.map seed) :=
    (mapBlocks h f.map.map.vars).blockUp ⟨hf.map, rfl⟩ hids
  refine hensure.bind fun _ hne ↦ hblock.bind fun map hmap ↦ ?_
  obtain ⟨hrep, hvars⟩ := (mapBlocks h f.map.map.vars).congr hmap fun t _ ↦ unexplored_addFound.symm
  refine ⟨hrep, hvars ▸ hf.signals, hvars ▸ hf.supply,
    hf.sound.addFound ht hsub (hsub.trans hbase) hmin, ?_, fun s hs ↦ ?_, fun s hs ↦ ?_,
    hf.smallest.record hf.nonempty seed, hf.refuted⟩
  · exact (List.map_append).trans (congrArg (· ++ [seed.toFinset]) hf.mivcs)
  · cases List.mem_append.mp hs with
    | inl hs => exact hf.nodup s hs
    | inr hs => exact List.mem_singleton.mp hs ▸ hnodup
  · cases List.mem_append.mp hs with
    | inl hs => exact hf.nonempty s hs
    | inr hs => exact List.mem_singleton.mp hs ▸ hne

/-- An unsafe seed is blocked with its subsets. It is the largest one unexplored, and so not
empty when some gate is unsafe alone. -/
theorem Knows.blockDown (h : ctx.tr.WellFormed) (hf : Knows ctx top need e f)
    (hseed : IsMaximalSeed (idSet ctx.tr.gateIDs) e.Unexplored (some seed))
    (hbad : ¬ SafeGates ctx.tr seed.toFinset) :
    Meets (Knows ctx top need (e.addRefuted seed.toFinset)) (Stops ctx.tr top) (f.blockDown ctx seed) := by
  obtain ⟨⟨hsub, ht⟩, hlargest⟩ := hseed
  have hensure : Meets (fun _ ↦ seed ≠ []) (Stops ctx.tr top) (ensure (!seed.isEmpty)) := by
    refine ensure_nonempty_meets fun hnil ↦ .inr ⟨rfl, fun hp ↦ ?_⟩
    obtain ⟨gate, hmem, hgate⟩ := hp.exists_singleton h
    have hopen : e.Unexplored {gate} := by
      refine hf.sound.unexplored_of_superset (monotone_safeGates h) ht ?_ hgate
      rw [hnil]
      exact Finset.empty_subset _
    have hin : {gate} ⊆ (idSet ctx.tr.gateIDs).toFinset := by
      rw [Finset.singleton_subset_iff, toFinset_idSet]
      exact List.mem_toFinset.mpr hmem
    have hcard := hlargest seed rfl _ hin hopen
    rw [hnil, Finset.card_singleton] at hcard
    exact absurd hcard (by decide)
  have hblock : Meets _ (Stops ctx.tr top) ((mapSolver ctx).blockDown f.map seed) :=
    (mapBlocks h f.map.map.vars).blockDown ⟨hf.map, rfl⟩
  have hbase : seed.toFinset ⊆ ctx.tr.gateIDs.toFinset :=
    toFinset_idSet ctx.tr.gateIDs ▸ seed_subset hsub
  refine hensure.bind fun _ hne ↦ hblock.bind fun map hmap ↦ ?_
  obtain ⟨hrep, hvars⟩ := (mapBlocks h f.map.map.vars).congr hmap fun t _ ↦ unexplored_addRefuted.symm
  refine ⟨hrep, hvars ▸ hf.signals, hvars ▸ hf.supply, hf.sound.addRefuted hbad, hf.mivcs,
    hf.nodup, hf.nonempty, hf.smallest, fun d hd ↦ ?_⟩
  cases List.mem_append.mp hd with
  | inl hd => exact hf.refuted d hd
  | inr hd =>
    rw [List.mem_singleton.mp hd]
    exact ⟨hbase, toFinset_ne_empty hne⟩

theorem Knows.getUnexplored (h : Setting ctx)
    (hf : Knows ctx top (MSU4MaxSATSolver.solveIDs (idSet ctx.tr.gateIDs).length + need) e f) :
    Meets (fun r ↦ Knows ctx top need e r.2 ∧ IsMaximalSeed (idSet ctx.tr.gateIDs) e.Unexplored r.1)
      (MSU4MapSolver.TooLarge (idSet ctx.tr.gateIDs) top) (f.getUnexplored ctx) := by
  have hsupply := hf.supply
  have henough : MSU4MapSolver.Enough (idSet ctx.tr.gateIDs) f.map.map.vars
      (MSU4MapSolver.TooLarge (idSet ctx.tr.gateIDs) top) :=
    ⟨fun e he hlt ↦ .inl ⟨he, by omega⟩, fun hlen ↦ .inr ⟨rfl, hlen⟩⟩
  refine (MSU4MaximalMapSolver.findMaximalSeed_meets h.wellFormed.gates_idSet h.relevant hf.map henough).bind
    fun r hr ↦ ?_
  obtain ⟨hrep, ⟨hge, hle⟩, hseed⟩ := hr
  refine ⟨⟨hrep, fun v hv ↦ (hf.signals v hv).trans_le hge, ?_, hf.sound, hf.mivcs, hf.nodup, hf.nonempty,
    hf.smallest, hf.refuted⟩, hseed⟩
  dsimp only
  omega

def Exhausted (ctx : MARCOIVCContext) (f : MARCOIVCFinder) : Prop :=
  ∃ top need e, Knows ctx top need e f ∧ ∀ t ⊆ ctx.tr.gateIDs.toFinset, ¬ e.Unexplored t

theorem Knows.pass_meets (h : Setting ctx) (hcores : CoresUsable ctx)
    (hf : Knows ctx top (passIDs ctx + need) e f) :
    Meets (fun r ↦ match r with
      | .inl f' => ∃ e', Knows ctx top need e' f' ∧
        e'.remaining ctx.tr.gateIDs.toFinset < e.remaining ctx.tr.gateIDs.toFinset
      | .inr f' => Exhausted ctx f') (Stops ctx.tr top) (pass ctx f) := by
  have hwf := h.wellFormed
  have hf' : Knows ctx top (MSU4MaxSATSolver.solveIDs (idSet ctx.tr.gateIDs).length + (shrinkIDs ctx + need)) e f :=
    hf.fewer (Nat.add_assoc _ _ _).ge
  refine ((hf'.getUnexplored h).weaken fun _ ↦ .inl).bind fun r hr ↦ ?_
  obtain ⟨found, f₁⟩ := r
  obtain ⟨hf₁, hseed⟩ := hr
  dsimp only at hf₁ hseed ⊢
  cases found with
  | none =>
    refine ⟨top, _, e, hf₁, fun t ht ↦ hseed.1 t ?_⟩
    rw [toFinset_idSet]
    exact ht
  | some seed =>
    obtain ⟨hsub, ht⟩ := hseed.1
    have hbase : seed.toFinset ⊆ ctx.tr.gateIDs.toFinset :=
      toFinset_idSet ctx.tr.gateIDs ▸ seed_subset hsub
    have hgates : seed ⊆ ctx.tr.gateIDs := fun gate hg ↦
      List.mem_toFinset.mp (hbase (List.mem_toFinset.mpr hg))
    refine (isSafe_meets hwf h.exact hgates).bind fun b hb ↦ ?_
    cases b with
    | true =>
      rw [if_pos rfl]
      have hsupply := hf₁.supply
      have hshrink : Meets _ (Stops ctx.tr top) (shrink ctx f₁.map.map.vars seed) :=
        (shrink_meets h hcores hf₁.map.rest.shape.vars hf₁.signals hsub (hb.mp rfl) (by omega)).weaken fun _ ↦ .inl
      refine hshrink.bind fun r hr ↦ ?_
      obtain ⟨vm, mivc⟩ := r
      obtain ⟨hinv, hge, hle, hnodup, hin, hmin⟩ := hr
      dsimp only at hinv hge hle hnodup hin hmin ⊢
      have hin' : mivc.toFinset ⊆ seed.toFinset := fun gate hg ↦
        List.mem_toFinset.mpr (hin (List.mem_toFinset.mp hg))
      have hf₂ := hf₁.withVars hinv hge hle
      refine (hf₂.blockUp hwf ht hbase hnodup hin' hmin).bind fun f₃ hf₃ ↦ ?_
      exact ⟨_, hf₃, Explored.remaining_addFound_lt hin' hbase ht⟩
    | false =>
      rw [if_neg Bool.false_ne_true]
      have hbad : ¬ SafeGates ctx.tr seed.toFinset := fun hsafe ↦
        Bool.false_ne_true (hb.mpr hsafe)
      refine (hf₁.blockDown hwf hseed hbad).bind fun f₂ hf₂ ↦ ?_
      exact ⟨_, hf₂.fewer (Nat.le_add_left _ _), Explored.remaining_addRefuted_lt (Finset.Subset.refl _) hbase ht⟩

/-- When no seed is left, the minimal sets are those found. The empty set is covered by none of
them, so a refuted set covers it, and each gate of that set is unsafe alone. -/
theorem Exhausted.passable (h : ctx.tr.WellFormed) (hf : Exhausted ctx f)
    (hne : f.smallestIVC ≠ []) : Passable ctx.tr := by
  obtain ⟨_, _, e, hknows, hdone⟩ := hf
  have hin : f.smallestIVC ∈ f.mivcs := by
    obtain ⟨-, hnil⟩ | hin := hknows.smallest.mem
    · exact absurd hnil hne
    · exact hin
  have hfound : f.smallestIVC.toFinset ∈ e.found := hknows.mivcs ▸ List.mem_map_of_mem hin
  obtain ⟨hbase, hmin⟩ := hknows.sound.found _ hfound
  refine ⟨(safeOver_iff h).mpr (monotone_safeGates h hbase hmin.prop), ?_⟩
  have hcovered : ∃ d ∈ e.refuted, ∅ ⊆ d := by
    by_contra hno
    refine hdone ∅ (Finset.empty_subset _) ⟨fun u hu hempty ↦ ?_, fun d hd hd' ↦ hno ⟨d, hd, hd'⟩⟩
    rw [← hknows.mivcs] at hu
    obtain ⟨s, hs, rfl⟩ := List.mem_map.mp hu
    exact toFinset_ne_empty (hknows.nonempty s hs) (Finset.subset_empty.mp hempty)
  obtain ⟨d, hd, -⟩ := hcovered
  obtain ⟨hsub, hd'⟩ := hknows.refuted d hd
  obtain ⟨gate, hgate⟩ := Finset.nonempty_iff_ne_empty.mpr hd'
  refine ⟨gate, List.mem_toFinset.mp (hsub hgate), fun hsafe ↦ hknows.sound.refuted d hd ?_⟩
  refine monotone_safeGates h (Finset.singleton_subset_iff.mpr hgate) ?_
  have hsafe' := (safeOver_iff h).mp hsafe
  rw [List.toFinset_cons, List.toFinset_nil, insert_empty_eq] at hsafe'
  exact hsafe'

theorem Exhausted.reportsAll (h : ctx.tr.WellFormed) (hf : Exhausted ctx f) :
    f.ReportsAll ctx.tr := by
  obtain ⟨_, _, e, hknows, hdone⟩ := hf
  refine ⟨hknows.nodup, ?_⟩
  rw [hknows.mivcs]
  exact hknows.sound.complete (monotone_safeGates h) hdone

theorem Exhausted.smallest (hf : Exhausted ctx f) :
    KeepsSmallest f.mivcs f.smallestIVC ∧ ∀ s ∈ f.mivcs, s ≠ [] := by
  obtain ⟨_, _, e, hknows, -⟩ := hf
  exact ⟨hknows.smallest, hknows.nonempty⟩

theorem doFindIVCs_meets (h : Setting ctx) (hcores : CoresUsable ctx) (hbad : ctx.tr.bad ≠ idFalse)
    (hf : Knows ctx top ((2 ^ (idSet ctx.tr.gateIDs).length + 1) * passIDs ctx) nothing f) :
    Meets (fun f' ↦ Passable ctx.tr ∧ f'.ReportsAll ctx.tr ∧ f'.MinimumRight) (Stops ctx.tr top)
      (doFindIVCs ctx f) := by
  have hwf := h.wellFormed
  unfold doFindIVCs
  rw [if_neg (by simpa using hbad)]
  have hrank : (nothing : Explored ℕ).remaining ctx.tr.gateIDs.toFinset <
      2 ^ ctx.tr.gateIDs.length + 1 := by
    have hcard := List.toFinset_card_le ctx.tr.gateIDs
    have hle := remaining_le ctx.tr.gateIDs.toFinset (nothing : Explored ℕ)
    exact Nat.lt_succ_of_le (hle.trans (Nat.pow_le_pow_right (by decide) hcard))
  have hstart : (nothing : Explored ℕ).remaining ctx.tr.gateIDs.toFinset ≤ 2 ^ (idSet ctx.tr.gateIDs).length := by
    rw [← List.toFinset_card_of_nodup hwf.gates_idSet.nodup, toFinset_idSet]
    exact remaining_le _ _
  have hloop : Meets (Exhausted ctx) (Stops ctx.tr top)
      (loop .outOfFuel (pass ctx) (2 ^ ctx.tr.gateIDs.length + 1) f) := by
    refine loop_meets_of_rank (fun rank f ↦ ∃ e, Knows ctx top ((rank + 1) * passIDs ctx) e f ∧
      e.remaining ctx.tr.gateIDs.toFinset = rank) ?_ _
      ⟨nothing, hf.fewer (Nat.mul_le_mul_right _ (Nat.succ_le_succ hstart)), rfl⟩ hrank
    intro rank f hf
    obtain ⟨e, hf, rfl⟩ := hf
    rw [Nat.succ_mul, Nat.add_comm] at hf
    refine (hf.pass_meets h hcores).imp fun r hr ↦ ?_
    cases r with
    | inl f' =>
      obtain ⟨e', hf', hlt⟩ := hr
      exact ⟨_, hlt, e', hf'.fewer (Nat.mul_le_mul_right _ hlt), rfl⟩
    | inr f' => exact hr
  refine hloop.bind fun f' hf' ↦ ?_
  have hensure : Meets (fun _ ↦ f'.smallestIVC ≠ []) (Stops ctx.tr top)
      (ensure (!f'.smallestIVC.isEmpty)) := by
    refine ensure_nonempty_meets fun hnil ↦ .inr ⟨rfl, fun hp ↦ ?_⟩
    obtain ⟨hsmallest, hnonempty⟩ := hf'.smallest
    have hfound : f'.mivcs ≠ [] := fun hno ↦ by
      have hcomplete := (hf'.reportsAll hwf).2
      rw [hno] at hcomplete
      exact hcomplete.ne_nil (safeGates_toFinset hwf hp) rfl
    obtain ⟨hno, -⟩ | hin := hsmallest.mem
    · exact hfound hno
    · exact hnonempty _ hin hnil
  have hall : f'.ReportsAll ctx.tr := hf'.reportsAll hwf
  refine hensure.bind fun _ hne ↦ ⟨hf'.passable hwf hne, hall, ?_, hf'.smallest.1.le⟩
  obtain ⟨-, hnil⟩ | hin := hf'.smallest.1.mem
  · exact absurd hnil hne
  · exact hin

theorem Knows.new (h : ctx.tr.WellFormed) (hvm : vm.Inv) (hold : ∀ v ∈ ctx.tr.signals, v < vm.nextID) :
    Knows ctx (runIDs ctx vm) ((2 ^ (idSet ctx.tr.gateIDs).length + 1) * passIDs ctx) nothing (new vm ctx.tr) where
  map := by
    refine (MSU4MapSolver.Rep.new h.gates_idSet hvm fun gate hg ↦ ?_).congr
      fun t _ ↦ ⟨fun _ ↦ unexplored_nothing t, fun _ ↦ trivial⟩
    exact hold gate (TransitionRelation.mem_signals.mpr (.inr (mem_idSet.mp hg)))
  signals := hold
  supply := le_rfl
  sound := sound_nothing
  mivcs := rfl
  nodup _ hs := absurd hs List.not_mem_nil
  nonempty _ hs := absurd hs List.not_mem_nil
  smallest := ⟨.inl ⟨rfl, rfl⟩, fun _ hs ↦ absurd hs List.not_mem_nil⟩
  refuted _ hd := absurd hd List.not_mem_nil

end Loop

section TwoWays

theorem exact_with_proof {c : SafetyCheckers} {tr : TransitionRelation} (h : c.Exact tr)
    (proof : TransitionRelation → ClauseVec) : { c with proof := proof }.Exact tr :=
  ⟨h.ic3, h.hybrid, h.debugOverGates, h.shuffle⟩

noncomputable def twoWaysContext : MARCOIVCContext where
  opts := ⟨false, false, true, ⟨true, false, true, false, true⟩, ⟨32, 1, true, Nat.one_pos⟩⟩
  backend := ⟨.minimal, .keep, true⟩
  checkers := { SafetyCheckers.exact twoWays with proof := fun _ ↦ [[5], [13]] }
  tr := twoWays

theorem twoWays_setting : Setting twoWaysContext where
  wellFormed := twoWays_wellFormed
  plain := rfl
  relevant := SAT.Solver.minimal_relevant
  exact := exact_with_proof (SafetyCheckers.exact_exact twoWays) _

end TwoWays

/-- The input is kept low by the constraint only, so that a proof that the latch stays low does not
hold without it. -/
theorem constrained_coreMissing {ctx : MARCOIVCContext} (htr : ctx.tr = constrained)
    (huse : ctx.opts.useIVCUCBF = true) (hseek : ctx.opts.ucbf.SeeksCore) (hcert : ctx.checkers.Certifies ctx.tr) :
    CoreMissing ctx := by
  have hgates : idSet ctx.tr.gateIDs = [8, 10] := by
    rw [htr]
    decide
  have hpart : Meets (TransitionRelation.IsPartial constrained [8, 10]) (fun _ ↦ False) (constrained.ofGates [8, 10]) :=
    TransitionRelation.ofGates_meets constrained_wellFormed.latches_nodup _
  obtain ⟨p, hok, hp⟩ := hpart.exists_ok
  have hlatch : ∀ l ∈ p.latches, l = ⟨6, 4, idFalse⟩ := fun l hl ↦ List.mem_singleton.mp ((hp.latches l).mp hl).1
  have hsafe : SafeOver constrained [8, 10] := safeOver_constrained.mono constrained_wellFormed (by decide)
  let x : Assignment := fun v ↦ decide (v ∈ [8, 10])
  have hx : p.IsFrame x := hp.isFrame_iff.mpr ⟨by decide, by decide, by decide⟩
  have hinit : p.IsInit x := fun l hl _ ↦ by
    rw [hlatch l hl]
    decide
  have hstep : p.Step x x := fun l hl ↦ by
    rw [hlatch l hl]
    decide
  have hok' : ctx.tr.ofGates (idSet ctx.tr.gateIDs) = .ok p := by
    rw [hgates, htr]
    exact hok
  have hpsafe := (safeOver_of_ok hok).mp hsafe
  refine ⟨huse, hseek, p, hok', hpsafe, hcert _ p hok' hpsafe,
    ⟨⟨x, hx, hinit⟩, fun _ _ ↦ ⟨x, x, hx, hx, hstep⟩⟩, fun inv husable hcarried ↦ ?_⟩
  rw [hgates, htr] at hcarried
  let y : Assignment := fun v ↦ decide (v = 4)
  let z : Assignment := fun v ↦ decide (v ∈ [6, 8, 10])
  have hy : satClauses y inv := by
    intro c hc
    obtain rfl | hover := husable.proof.clause c hc
    · rw [TransitionRelation.propertyClause, hp.bad]
      decide
    · refine (satClause_congr fun lit hl ↦ ?_).mp (husable.proof.initiation x hx hinit c hc)
      have hmem := hover lit hl
      rw [hp.latchIDs] at hmem
      obtain ⟨l, hl', heq⟩ := List.mem_map.mp hmem
      rw [← heq, hlatch l hl']
      decide
  have hz := hcarried y z ⟨⟨by decide, by decide⟩, ⟨by decide, by decide⟩, by decide⟩ hy
  have hbad := husable.proof.safety z (hp.isFrame_iff.mpr ⟨by decide, by decide, by decide⟩) hz
  rw [hp.bad] at hbad
  exact absurd hbad (by decide)

end MARCOIVCFinder

end PME
