import PME.UnifiedIVCRun

namespace PME

open Outcome Exploration Explored

namespace UnifiedIVCFinder

variable {F : Type}

/-- The setting of the finder, whichever map it uses: checks are made, and are exact, and the
correction set finder does what it is for. -/
structure Setting {M : Type} (ctx : UnifiedIVCContext M F) (CsRep : List (Finset ℕ) → F → Prop)
    (csFinder : F) : Prop where
  wellFormed : ctx.tr.WellFormed
  bad : ctx.tr.bad ≠ idFalse
  exact : ctx.Exact
  checks : ctx.opts.upfrontNMax < ctx.tr.gates.length
  finder : ctx.csFinder.Exact ctx.tr CsRep fun _ ↦ False
  start : CsRep [] csFinder

/-- The failures of the map, and the assertion that a correction set is found. -/
def Stops {M : Type} (ctx : UnifiedIVCContext M F) (fail : Failure → Prop) (e : Failure) : Prop :=
  fail e ∨ e = .assertion ∧ ¬ Growable ctx

theorem Setting.parts {M : Type} {ctx : UnifiedIVCContext M F} {CsRep : List (Finset ℕ) → F → Prop}
    {csFinder : F} (h : Setting ctx CsRep csFinder) {Rep : (Finset ℕ → Prop) → M → Prop}
    {fail : Failure → Prop} (hmap : ctx.mapSolver.Blocks (gateSet ctx) Rep) :
    Parts ctx Rep CsRep fail where
  wellFormed := h.wellFormed
  exact := h.exact
  checks := decide_eq_true h.checks
  map := hmap
  csFinder := h.finder.weaken fun _ ↦ False.elim

section MSU4

variable {ctx : UnifiedIVCContext MSU4ArbitraryMapSolver F} {CsRep : List (Finset ℕ) → F → Prop}
  {csFinder : F} {o : MSU4Options} {S : SAT.Solver} {vm : VariableManager}

theorem Setting.msu4_parts (h : Setting ctx CsRep csFinder)
    (hmap : ctx.mapSolver = MSU4ArbitraryMapSolver.solver o S) {fail : Failure → Prop} (top n : ℕ) :
    Parts ctx (MSU4ArbitraryMapSolver.RepWithin S (gateSet ctx) top n) CsRep fail := by
  refine h.parts ?_
  rw [hmap]
  exact MSU4ArbitraryMapSolver.blocks h.wellFormed.gates_idSet n

theorem Setting.msu4_searches (h : Setting ctx CsRep csFinder)
    (hmap : ctx.mapSolver = MSU4ArbitraryMapSolver.solver o S) (hS : S.Relevant) (top : ℕ) :
    Searches ctx (MSU4ArbitraryMapSolver.RepWithin S (gateSet ctx) top)
      (Stops ctx (MSU4MapSolver.TooLarge (gateSet ctx) top)) := by
  have hids : IDSet (gateSet ctx) := h.wellFormed.gates_idSet
  refine ⟨?_, fun _ ↦ ?_, fun _ ↦ ?_⟩
  · rw [hmap]
    exact (MSU4ArbitraryMapSolver.contract hids hS).weaken fun _ ↦ .inl
  · rw [hmap]
    exact (MSU4ArbitraryMapSolver.findsMinimal hids hS).weaken fun _ ↦ .inl
  · rw [hmap]
    exact (MSU4ArbitraryMapSolver.findsMaximal hids hS).weaken fun _ ↦ .inl

theorem Setting.msu4_start (h : Setting ctx CsRep csFinder)
    (hmap : ctx.mapSolver = MSU4ArbitraryMapSolver.solver o S) (hvm : vm.Inv)
    (hlt : ∀ gate ∈ ctx.tr.gateIDs, gate < vm.nextID) :
    MSU4ArbitraryMapSolver.RepWithin S (gateSet ctx) (MSU4MapSolver.runIDs (gateSet ctx) vm)
      (2 ^ (gateSet ctx).length + 1) (nothing : Explored ℕ).Unexplored (.new vm (gateSet ctx)) := by
  have hids : IDSet (gateSet ctx) := h.wellFormed.gates_idSet
  have hnew : MSU4ArbitraryMapSolver.RepWithin S (gateSet ctx) (MSU4MapSolver.runIDs (gateSet ctx) vm)
      (2 ^ (gateSet ctx).length + 1) (fun _ ↦ True) (.new vm (gateSet ctx)) :=
    ⟨.new hids hvm fun gate hg ↦ hlt gate (mem_idSet.mp hg), le_rfl⟩
  have hparts : Parts ctx (MSU4ArbitraryMapSolver.RepWithin S (gateSet ctx)
      (MSU4MapSolver.runIDs (gateSet ctx) vm) (2 ^ (gateSet ctx).length + 1)) CsRep fun _ ↦ False :=
    h.msu4_parts hmap _ _
  exact hparts.map.congr hnew fun t _ ↦ ⟨fun _ ↦ unexplored_nothing t, fun _ ↦ trivial⟩

theorem run_msu4 (h : Setting ctx CsRep csFinder)
    (hmap : ctx.mapSolver = MSU4ArbitraryMapSolver.solver o S) (hS : S.Relevant) (hvm : vm.Inv)
    (hlt : ∀ gate ∈ ctx.tr.gateIDs, gate < vm.nextID) :
    Meets (fun f ↦ Growable ctx ∧ Ends ctx (new ctx.tr (.new vm (gateSet ctx)) csFinder) f)
      (Stops ctx (MSU4MapSolver.TooLarge (gateSet ctx) (MSU4MapSolver.runIDs (gateSet ctx) vm)))
      (doFindIVCs ctx (new ctx.tr (.new vm (gateSet ctx)) csFinder)) :=
  doFindIVCs_meets (h.msu4_parts hmap _) (h.msu4_searches hmap hS _) (fun hno ↦ .inr ⟨rfl, hno⟩) h.bad
    (h.msu4_start hmap hvm hlt) h.start

theorem Reached.msu4_runs (h : Setting ctx CsRep csFinder)
    (hmap : ctx.mapSolver = MSU4ArbitraryMapSolver.solver o S) (hS : S.Relevant) (hvm : vm.Inv)
    (hlt : ∀ gate ∈ ctx.tr.gateIDs, gate < vm.nextID) {f : UnifiedIVCFinder MSU4ArbitraryMapSolver F}
    (hf : Reached ctx (new ctx.tr (.new vm (gateSet ctx)) csFinder) f) :
    ∃ e, Runs ctx (MSU4ArbitraryMapSolver.RepWithin S (gateSet ctx) (MSU4MapSolver.runIDs (gateSet ctx) vm))
      CsRep (new ctx.tr (.new vm (gateSet ctx)) csFinder) e f :=
  hf.runs (h.msu4_parts hmap _) (h.msu4_searches hmap hS _) (fun hno ↦ .inr ⟨rfl, hno⟩)
    (h.msu4_start hmap hvm hlt) h.start

theorem getUnexplored_msu4 (h : Setting ctx CsRep csFinder)
    (hmap : ctx.mapSolver = MSU4ArbitraryMapSolver.solver o S) (hS : S.Relevant)
    (hgrow : Growable ctx) (hlen : (gateSet ctx).length < 2 ^ 32) {n : ℕ} {e : Explored ℕ}
    {f : UnifiedIVCFinder MSU4ArbitraryMapSolver F}
    (hk : Knows ctx (MSU4ArbitraryMapSolver.RepWithin S (gateSet ctx) (2 ^ 32) (n + 1)) CsRep e f)
    (hfull : StartsFull ctx e f) :
    Meets (Explores ctx (MSU4ArbitraryMapSolver.RepWithin S (gateSet ctx) (2 ^ 32) n) CsRep e f)
      (fun _ ↦ False) (f.getUnexplored ctx) := by
  have hfewer : Knows ctx (MSU4ArbitraryMapSolver.RepWithin S (gateSet ctx) (2 ^ 32) n) CsRep e f :=
    { hk with map := hk.map.fewer (Nat.le_succ n) }
  refine (getUnexplored_meets (h.msu4_parts hmap _ _) (fun hno ↦ .inr ⟨rfl, hno⟩) hfewer hfull
    ((h.msu4_searches hmap hS _).search_meets hk.map)).weaken fun e he ↦ ?_
  exact he.elim (MSU4MapSolver.not_tooLarge le_rfl hlen e) fun hno ↦ hno.2 hgrow

end MSU4

section SAT

variable {ctx : UnifiedIVCContext SATArbitraryMapSolver F} {CsRep : List (Finset ℕ) → F → Prop}
  {csFinder : F} {S : SAT.Solver}

theorem run_sat (h : Setting ctx CsRep csFinder)
    (hmap : ctx.mapSolver = SATArbitraryMapSolver.solver S) (hdown : ctx.opts.directionDown = false)
    (hup : ctx.opts.directionUp = false) :
    Meets (fun f ↦ Growable ctx ∧ Ends ctx (new ctx.tr (.new (gateSet ctx)) csFinder) f)
      (Stops ctx fun _ ↦ False) (doFindIVCs ctx (new ctx.tr (.new (gateSet ctx)) csFinder)) := by
  have hids : IDSet (gateSet ctx) := h.wellFormed.gates_idSet
  have hcontract : ctx.mapSolver.Contract (gateSet ctx) (fun _ ↦ SATArbitraryMapSolver.Rep (gateSet ctx))
      (Stops ctx fun _ ↦ False) := by
    rw [hmap]
    exact SATArbitraryMapSolver.contract hids
  have hsearch : Searches ctx (fun _ ↦ SATArbitraryMapSolver.Rep (gateSet ctx)) (Stops ctx fun _ ↦ False) := by
    refine ⟨hcontract, fun hyes ↦ ?_, fun hyes ↦ ?_⟩
    · rw [hup] at hyes
      exact absurd hyes Bool.false_ne_true
    · rw [hdown] at hyes
      exact absurd hyes Bool.false_ne_true
  have hnew : SATArbitraryMapSolver.Rep (gateSet ctx) (fun _ ↦ True) (.new (gateSet ctx)) := .new hids
  refine doFindIVCs_meets (fun n ↦ h.parts (hcontract.blocks n)) hsearch (fun hno ↦ .inr ⟨rfl, hno⟩) h.bad ?_
    h.start
  exact (hcontract.blocks 0).congr hnew fun t _ ↦ ⟨fun _ ↦ unexplored_nothing t, fun _ ↦ trivial⟩

end SAT

/-- All minimal safe sets are reported when the finder is growable, and otherwise the run does
not finish. -/
def Reports {M : Type} (ctx : UnifiedIVCContext M F) (fail : Failure → Prop)
    (run : Result (UnifiedIVCFinder M F)) : Prop :=
  (Growable ctx → Meets (fun f ↦ f.ReportsAll ctx.tr) fail run) ∧
  (¬ Growable ctx → Meets (fun _ ↦ False) (fun e ↦ e = .assertion ∨ fail e) run)

theorem reports_of_run {M : Type} {ctx : UnifiedIVCContext M F} {fail : Failure → Prop}
    {f₀ : UnifiedIVCFinder M F} {run : Result (UnifiedIVCFinder M F)}
    (h : Meets (fun f ↦ Growable ctx ∧ Ends ctx f₀ f) (Stops ctx fail) run) :
    Reports ctx fail run := by
  constructor
  · intro hgrow
    exact (h.imp fun f hf ↦ hf.2.all).weaken fun e he ↦ he.resolve_right fun hno ↦ hno.2 hgrow
  · intro hno
    exact (h.imp fun f hf ↦ hno hf.1).weaken fun e he ↦ he.symm.imp_left And.left

theorem doFindIVCs_reports (CsRep : List (Finset ℕ) → F → Prop) (csFinder : F) :
    (∀ (ctx : UnifiedIVCContext MSU4ArbitraryMapSolver F) (o : MSU4Options) (S : SAT.Solver)
      (vm : VariableManager), Setting ctx CsRep csFinder →
      ctx.mapSolver = MSU4ArbitraryMapSolver.solver o S → S.Relevant → vm.Inv →
      (∀ gate ∈ ctx.tr.gateIDs, gate < vm.nextID) →
      Reports ctx (MSU4MapSolver.TooLarge (gateSet ctx) (MSU4MapSolver.runIDs (gateSet ctx) vm))
        (doFindIVCs ctx (new ctx.tr (.new vm (gateSet ctx)) csFinder))) ∧
    ∀ (ctx : UnifiedIVCContext SATArbitraryMapSolver F) (S : SAT.Solver),
      Setting ctx CsRep csFinder → ctx.mapSolver = SATArbitraryMapSolver.solver S →
      ctx.opts.directionDown = false → ctx.opts.directionUp = false →
      Reports ctx (fun _ ↦ False) (doFindIVCs ctx (new ctx.tr (.new (gateSet ctx)) csFinder)) :=
  ⟨fun _ _ _ _ h hmap hS hvm hlt ↦ reports_of_run (run_msu4 h hmap hS hvm hlt),
    fun _ _ h hmap hdown hup ↦ reports_of_run (run_sat h hmap hdown hup)⟩

noncomputable def exactChecker (tr : TransitionRelation) (seed : Seed) (_ : Bool) : Bool :=
  @decide (SafeGates tr seed.toFinset) (Classical.dec _)

open Classical in
noncomputable def chosenFinder (tr : TransitionRelation) (upfront : List Seed) :
    CorrectionSetFinder (List (Finset ℕ)) where
  findNext found gates :=
    if h : ∃ corr ⊆ gates, IsCorrectionSet tr corr ∧ ∀ u ∈ found, ¬ u ⊆ corr.toFinset then
      return (some h.choose, found ++ [h.choose.toFinset])
    else return (none, found)
  findAll found _ := return (upfront, found ++ upfront.map List.toFinset)
  findBatch found _ := return (upfront, found ++ upfront.map List.toFinset)

theorem chosenFinder_exact {tr : TransitionRelation} {upfront : List Seed}
    (hup : ∀ corr ∈ upfront, IsCorrectionSet tr corr) :
    (chosenFinder tr upfront).Exact tr (fun found x ↦ x = found) fun _ ↦ False where
  findNext := by
    intro found x gates hx _
    subst hx
    unfold chosenFinder
    dsimp only
    split
    · next h =>
      obtain ⟨hsub, hcorr, -⟩ := h.choose_spec
      exact ⟨⟨hcorr, hsub⟩, rfl⟩
    · next h =>
      refine ⟨fun corr hsub hcorr ↦ ?_, (List.append_nil x).symm⟩
      by_contra hno
      exact h ⟨corr, hsub, hcorr, fun u hu hle ↦ hno ⟨u, hu, hle⟩⟩
  findAll _ hx := ⟨hup, hx ▸ rfl⟩
  findBatch _ hx := ⟨hup, hx ▸ rfl⟩

noncomputable def context {M : Type} (opts : UnifiedIVCOptions) (tr : TransitionRelation)
    (V : MapSolver M) (upfront : List Seed) (shrinkUC : Seed → Seed) :
    UnifiedIVCContext M (List (Finset ℕ)) where
  opts := opts
  tr := tr
  mapSolver := V
  sat := .minimal
  csFinder := chosenFinder tr upfront
  checker := exactChecker tr
  shrinkUC := shrinkUC

theorem context_setting {M : Type} (opts : UnifiedIVCOptions) {tr : TransitionRelation}
    (V : MapSolver M) (upfront : List Seed) (shrinkUC : Seed → Seed) (h : tr.WellFormed)
    (hbad : tr.bad ≠ idFalse) (hchecks : opts.upfrontNMax < tr.gates.length)
    (hup : ∀ corr ∈ upfront, IsCorrectionSet tr corr)
    (hshrink : ∀ seed : Seed, seed.Nodup → SafeGates tr seed.toFinset →
      (shrinkUC seed).Nodup ∧ shrinkUC seed ⊆ seed ∧ SafeGates tr (shrinkUC seed).toFinset) :
    Setting (context opts tr V upfront shrinkUC) (fun found x ↦ x = found) [] where
  wellFormed := h
  bad := hbad
  exact := ⟨fun _ _ _ ↦ @decide_eq_true_iff _ (Classical.dec _), hshrink⟩
  checks := hchecks
  finder := chosenFinder_exact hup
  start := rfl

theorem doFindIVCs_reports_relay : SafeOver relay relay.gateIDs ∧
    Meets (fun f ↦ f.ReportsAll relay) (fun _ ↦ False)
      (doFindIVCs (context ⟨1, true, true, true, true, true⟩ relay
          (MSU4ArbitraryMapSolver.solver ⟨32, 1, true, Nat.one_pos⟩ .minimal) [] id)
        (new relay (.new .three [6, 8]) [])) := by
  have hset := context_setting ⟨1, true, true, true, true, true⟩
    (MSU4ArbitraryMapSolver.solver ⟨32, 1, true, Nat.one_pos⟩ .minimal) [] id
    relay_wellFormed (by decide) (by decide) (fun _ hc ↦ absurd hc List.not_mem_nil)
    fun seed hnodup hsafe ↦ ⟨hnodup, List.Subset.refl seed, hsafe⟩
  have hreports := (doFindIVCs_reports (fun found x ↦ x = found) []).1 _ ⟨32, 1, true, Nat.one_pos⟩ .minimal _ hset
    rfl SAT.Solver.minimal_relevant VariableManager.inv_three (by decide)
  exact ⟨safeOver_relay, (hreports.1 (.inl safeOver_relay)).weaken
    (MSU4MapSolver.not_tooLarge (by decide) (by decide))⟩

def beside : TransitionRelation where
  bad := negate 4
  latches := [⟨4, 4, idTrue⟩]
  gates := [⟨8, 6, 6⟩]
  latchIDs := [4]
  inputIDs := [6]
  gateIDs := [8]
  constraints := []
  gateCNF := AndGate.toCNF

theorem beside_wellFormed : beside.WellFormed where
  bad := by decide
  gates := by decide
  latches := by decide
  reset := by decide
  constraints := by decide
  ands := by decide
  latchIDs_eq := rfl
  gateIDs_eq := rfl
  isVar := by decide
  nodup := by decide
  next := by decide
  constraints_defined := by decide
  bad_defined := by decide
  rhs_defined := by decide
  gates_computed := by
    refine ⟨id, fun g hg ↦ ?_⟩
    obtain rfl := List.mem_singleton.mp hg
    exact ⟨_, TransitionRelation.computes_toCNF rfl (by decide) (.inr (.inl List.mem_cons_self))
      (.inr (.inl List.mem_cons_self))⟩

theorem beside_safe : beside.Safe := by
  intro k hk
  obtain ⟨x, hinit, hrun, hbad⟩ := hk
  have hhigh : ∀ i ≤ k, x i 4 = true := by
    intro i
    induction i with
    | zero =>
      intro _
      have hreset : x 0 4 = litVal (x 0) idTrue :=
        hinit ⟨4, 4, idTrue⟩ (List.mem_singleton_self _) (by decide)
      rw [hreset, litVal_idTrue, (hrun 0 (by omega)).1.const]
      rfl
    | succ i ih =>
      intro hi
      have hstep : x (i + 1) 4 = litVal (x i) 4 :=
        (hrun i (by omega)).2 ⟨4, 4, idTrue⟩ (List.mem_singleton_self _)
      rw [hstep, litVal_of_even rfl, ih (by omega)]
  have hval : litVal (x k) (negate 4) = true := hbad
  rw [litVal_negate, litVal_of_even rfl, hhigh k le_rfl] at hval
  exact absurd hval (by decide)

/-- The bad literal is looked up with its sign, so that the latch is left free. -/
theorem not_safeOver_beside : ¬ SafeOver beside [8] := by
  intro hsafe
  have hcone : ∀ v, TransitionRelation.Cone beside [8] v → v = negate 4 ∨ v = 6 := by
    intro v hv
    induction hv with
    | bad => exact .inl rfl
    | rhs0 hg => exact .inr (List.mem_singleton.mp hg ▸ rfl)
    | rhs1 hg => exact .inr (List.mem_singleton.mp hg ▸ rfl)
    | next hl _ ih =>
      obtain rfl := List.mem_singleton.mp hl
      exact absurd ih (by decide)
  have hfree : ∀ l ∈ beside.latches, ¬ TransitionRelation.Cone beside [8] l.id := by
    intro l hl hid
    obtain rfl := List.mem_singleton.mp hl
    exact absurd (hcone _ hid) (by decide)
  have hframe : beside.FreeFrame [8] fun _ ↦ false := ⟨rfl, by decide, nofun⟩
  refine (safeOver_iff_freeBadAt beside_wellFormed).mp hsafe 0 ⟨fun _ _ ↦ false, ?_, ?_, by decide⟩
  · exact fun l hl hid ↦ absurd hid (hfree l hl)
  · exact fun _ _ ↦ ⟨hframe, fun l hl hid ↦ absurd hid (hfree l hl)⟩

theorem doFindIVCs_reports_fails : ¬ ∀ (ctx : UnifiedIVCContext SATArbitraryMapSolver (List (Finset ℕ)))
    (S : SAT.Solver), Setting ctx (fun found x ↦ x = found) [] →
    ctx.mapSolver = SATArbitraryMapSolver.solver S → ctx.opts.directionDown = false →
    ctx.opts.directionUp = false → ctx.tr.Safe → ctx.tr.constraints = [] →
    Meets (fun f ↦ f.ReportsAll ctx.tr) (fun _ ↦ False)
      (doFindIVCs ctx (new ctx.tr (.new (gateSet ctx)) [])) := by
  intro hall
  have hset := context_setting ⟨0, false, false, true, false, true⟩
    (SATArbitraryMapSolver.solver .minimal) [] id
    beside_wellFormed (by decide) (by decide) (fun _ hc ↦ absurd hc List.not_mem_nil)
    fun seed hnodup hsafe ↦ ⟨hnodup, List.Subset.refl seed, hsafe⟩
  obtain ⟨f, hok, -⟩ := (hall _ .minimal hset rfl rfl rfl beside_safe rfl).exists_ok
  have hrun := run_sat hset rfl rfl rfl
  rw [hok] at hrun
  exact not_growable.mpr ⟨not_safeOver_beside, rfl, rfl⟩ hrun.1

/-- A run whose passes all begin in a state where none can be declared too late declares a minimum,
and only such a run does. -/
theorem doFindIVCs_declares {CsRep : List (Finset ℕ) → F → Prop} {csFinder : F}
    {ctx : UnifiedIVCContext MSU4ArbitraryMapSolver F} {o : MSU4Options} {S : SAT.Solver}
    {vm : VariableManager} (h : Setting ctx CsRep csFinder)
    (hmap : ctx.mapSolver = MSU4ArbitraryMapSolver.solver o S) (hS : S.Relevant) (hvm : vm.Inv)
    (hlt : ∀ gate ∈ ctx.tr.gateIDs, gate < vm.nextID) :
    ((∀ g, Reached ctx (new ctx.tr (.new vm (gateSet ctx)) csFinder) g → Timely ctx g) →
      Meets (fun f ↦ f.DeclaresLeast ctx.tr)
        (Stops ctx (MSU4MapSolver.TooLarge (gateSet ctx) (MSU4MapSolver.runIDs (gateSet ctx) vm)))
        (doFindIVCs ctx (new ctx.tr (.new vm (gateSet ctx)) csFinder))) ∧
    (ctx.tr.gateIDs.length < 2 ^ 32 → ∀ f,
      doFindIVCs ctx (new ctx.tr (.new vm (gateSet ctx)) csFinder) = .ok f → f.DeclaresLeast ctx.tr →
      ∀ g, Reached ctx (new ctx.tr (.new vm (gateSet ctx)) csFinder) g → Timely ctx g) := by
  have hrun := run_msu4 h hmap hS hvm hlt
  refine ⟨fun htimely ↦ hrun.imp fun _ hf ↦ hf.2.least htimely, fun hlen f hok hleast ↦ ?_⟩
  rw [hok] at hrun
  exact hrun.2.timely hlen hleast

theorem card_of_minimal_relay {t : Finset ℕ} (ht : t ⊆ {6, 8}) (hmin : Minimal (SafeGates relay) t) :
    t.card = 2 := by
  have hneeds : ∀ gates : List ℕ, ¬ SafeOver relay gates → ¬ t ⊆ gates.toFinset := fun gates hno hle ↦
    hno ((safeOver_iff relay_wellFormed).mpr (monotone_safeGates relay_wellFormed hle hmin.prop))
  have hsixth := hneeds [6] not_safeOver_relay
  have heighth : ¬ t ⊆ [8].toFinset := hneeds [8]
    (not_safeOver_of_frame relay_wellFormed (x := fun v ↦ decide (v ∈ [6, 8])) ⟨by decide, by decide, by decide⟩
      (by decide) (by decide) rfl)
  rw [← Finset.mem_powerset] at ht
  clear hmin hneeds
  revert t
  decide

/-- Both directions in turn. There is one minimal safe set. -/
theorem doFindIVCs_declares_relay :
    Meets (fun f ↦ f.DeclaresLeast relay) (fun _ ↦ False)
      (doFindIVCs (context ⟨1, true, true, true, true, true⟩ relay
          (MSU4ArbitraryMapSolver.solver ⟨32, 1, true, Nat.one_pos⟩ .minimal) [] id)
        (new relay (.new .three [6, 8]) [])) := by
  have hset := context_setting ⟨1, true, true, true, true, true⟩
    (MSU4ArbitraryMapSolver.solver ⟨32, 1, true, Nat.one_pos⟩ .minimal) [] id
    relay_wellFormed (by decide) (by decide) (fun _ hc ↦ absurd hc List.not_mem_nil)
    fun seed hnodup hsafe ↦ ⟨hnodup, List.Subset.refl seed, hsafe⟩
  have hvm := VariableManager.inv_three
  refine ((doFindIVCs_declares hset rfl SAT.Solver.minimal_relevant hvm (by decide)).1 fun g hg ↦ ?_).weaken
    fun e he ↦ ?_
  · obtain ⟨e, hruns⟩ := hg.msu4_runs hset rfl SAT.Solver.minimal_relevant hvm (by decide)
    exact timely_of_card_eq hruns.knows fun t ht hmin ↦ card_of_minimal_relay ht hmin
  · obtain hlarge | ⟨-, hno⟩ := he
    · exact MSU4MapSolver.not_tooLarge (by decide) (by decide) e hlarge
    · exact hno (.inl safeOver_relay)

section Late

noncomputable def twoWaysContext : UnifiedIVCContext MSU4ArbitraryMapSolver (List (Finset ℕ)) :=
  context ⟨2, true, true, false, false, false⟩ twoWays
    (MSU4ArbitraryMapSolver.solver ⟨32, 1, true, Nat.one_pos⟩ .minimal) [[12], [8, 10], [6, 10]]
    fun seed ↦ if seed = [6, 8, 10, 12] then [10, 12] else seed

theorem allGates_twoWays : allGates twoWaysContext = {6, 8, 10, 12} := by decide

theorem gateSet_twoWays : gateSet twoWaysContext = [6, 8, 10, 12] := by decide

theorem twoWays_upfront : ∀ corr ∈ [[12], [8, 10], [6, 10]], IsCorrectionSet twoWays corr := by
  have hbad : ∀ corr ∈ [[12], [8, 10], [6, 10]], corr ≠ [] ∧ corr ⊆ twoWays.gateIDs ∧
      ¬ (12 ∈ twoWays.gateIDs.toFinset \ corr.toFinset ∧
        (10 ∈ twoWays.gateIDs.toFinset \ corr.toFinset ∨
          8 ∈ twoWays.gateIDs.toFinset \ corr.toFinset ∧
            6 ∈ twoWays.gateIDs.toFinset \ corr.toFinset)) := by decide
  intro corr hc
  obtain ⟨hne, hsub, hno⟩ := hbad corr hc
  exact ⟨hne, hsub, fun hsafe ↦ hno ((safeGates_twoWays Finset.sdiff_subset).mp hsafe)⟩

theorem twoWays_setting : Setting twoWaysContext (fun found x ↦ x = found) [] := by
  refine context_setting _ _ _ _ twoWays_wellFormed (by decide) (by decide) twoWays_upfront
    fun seed hnodup hsafe ↦ ?_
  by_cases hall : seed = [6, 8, 10, 12]
  · rw [if_pos hall, hall]
    exact ⟨by decide, by decide, (safeOver_iff twoWays_wellFormed).mp safeOver_twoWays_short⟩
  · rw [if_neg hall]
    exact ⟨hnodup, List.Subset.refl seed, hsafe⟩

theorem unexplored_twoWays {t : Finset ℕ} (ht : t ⊆ allGates twoWaysContext) :
    (blocked twoWaysContext [[12], [8, 10], [6, 10]]).Unexplored t ↔ SafeGates twoWays t := by
  rw [unexplored_blocked_iff ht, safeGates_twoWays (allGates_twoWays ▸ ht)]
  simp only [List.mem_cons, List.not_mem_nil, or_false, forall_eq_or_imp, exists_eq_or_imp,
    forall_eq, exists_eq_left]
  tauto

def LateKnows (e : Explored ℕ) (n : ℕ)
    (f : UnifiedIVCFinder MSU4ArbitraryMapSolver (List (Finset ℕ))) : Prop :=
  Knows twoWaysContext (MSU4ArbitraryMapSolver.RepWithin .minimal (gateSet twoWaysContext) (2 ^ 32) n)
    (fun found x ↦ x = found) e f

variable {f : UnifiedIVCFinder MSU4ArbitraryMapSolver (List (Finset ℕ))} {e : Explored ℕ} {n : ℕ}

theorem twoWays_pass (hk : LateKnows e (n + 1) f) (hfull : StartsFull twoWaysContext e f) :
    Meets (Explores twoWaysContext (MSU4ArbitraryMapSolver.RepWithin .minimal
      (gateSet twoWaysContext) (2 ^ 32) n) (fun found x ↦ x = found) e f) (fun _ ↦ False)
      (f.getUnexplored twoWaysContext) := by
  have hlen : (gateSet twoWaysContext).length < 2 ^ 32 := by
    rw [gateSet_twoWays]
    decide
  exact getUnexplored_msu4 twoWays_setting (o := ⟨32, 1, true, Nat.one_pos⟩) rfl
    SAT.Solver.minimal_relevant (.inr (.inl rfl)) hlen hk hfull

/-- The first seed has all gates, and is shrunk to two of them, which is not known to be least. -/
theorem twoWays_first
    (hk : LateKnows (blocked twoWaysContext [[12], [8, 10], [6, 10]]) (n + 1) f)
    (hcount : f.seedCount = 0) (hlb : f.mivcLB = 0) (hmin : f.minimumIVC = []) :
    Meets (fun r ↦ ∃ f', r = .inl f' ∧ f'.seedCount = 1 ∧ f'.minimumIVC = [] ∧
      LateKnows ((blocked twoWaysContext [[12], [8, 10], [6, 10]]).addFound {10, 12}) n f') (fun _ ↦ False) (f.getUnexplored twoWaysContext) := by
  have hdown : goesDown twoWaysContext f = true := by
    unfold goesDown
    rw [hcount]
    rfl
  have hall : SafeGates twoWays (allGates twoWaysContext) :=
    (safeGates_twoWays allGates_twoWays.subset).mpr (by decide)
  refine (twoWays_pass hk fun _ _ ↦ .inl hcount).imp fun r hr ↦ ?_
  cases r with
  | inr f' =>
    have hopen := (unexplored_twoWays (Finset.Subset.refl _)).mpr hall
    exact absurd hopen (hr.2.1 _ (Finset.Subset.refl _))
  | inl f' =>
    obtain ⟨hcount', seed, -, hseed, hhandled⟩ := hr
    rw [goesUp_eq_false_of_down hdown, hdown] at hseed hhandled
    have hlong := hseed.maximal rfl _ (Finset.Subset.refl _)
      ((unexplored_twoWays (Finset.Subset.refl _)).mpr hall)
    have heq : seed = [6, 8, 10, 12] := by
      have hsub := hseed.sub
      rw [gateSet_twoWays] at hsub
      rw [allGates_twoWays] at hlong
      exact hsub.eq_of_length_le hlong
    subst heq
    cases hhandled with
    | refuted d hle hleaves hbad hknows hsame =>
      rw [allGates_twoWays] at hall
      exact absurd hall hbad
    | found mivc hshrunk hsafe hknows hmivcs hdeclares =>
      have hcore : mivc ⊆ [10, 12] := hshrunk.core rfl rfl
      have hsub : mivc.toFinset ⊆ {10, 12} := fun g hg ↦ by
        have hmem := hcore (List.mem_toFinset.mp hg)
        simpa using hmem
      have hreason := (safeGates_twoWays (hsub.trans (by decide))).mp hshrunk.minimal.prop
      have h10 : 10 ∈ mivc.toFinset := hreason.2.resolve_right fun h ↦ absurd (hsub h.1) (by decide)
      have hpair : mivc.toFinset = {10, 12} := by
        refine hsub.antisymm fun g hg ↦ ?_
        simp only [Finset.mem_insert, Finset.mem_singleton] at hg
        obtain rfl | rfl := hg
        · exact h10
        · exact hreason.1
      have hunknown : f.minimumIVCKnown = false := by
        unfold IVCFinder.minimumIVCKnown
        rw [hmin]
        rfl
      rw [hpair] at hknows
      refine ⟨f', rfl, by rw [hcount', hcount]; rfl, ?_, hknows⟩
      obtain ⟨-, -, hno | hlen⟩ | ⟨-, -, hsame⟩ := hdeclares.unknown hunknown
      · exact absurd hno Bool.false_ne_true
      · rw [hlb, ← List.toFinset_card_of_nodup hshrunk.nodup, hpair] at hlen
        exact absurd hlen (by decide)
      · exact hsame.trans hmin

/-- The second search goes up, finds the other safe set, and declares it the minimum. -/
theorem twoWays_second
    (hk : LateKnows ((blocked twoWaysContext [[12], [8, 10], [6, 10]]).addFound {10, 12}) (n + 1) f)
    (hcount : f.seedCount = 1) (hmin : f.minimumIVC = []) :
    Meets (fun r ↦ ∃ f', r = .inl f' ∧ f'.minimumIVC.length = 3 ∧
      LateKnows (((blocked twoWaysContext [[12], [8, 10], [6, 10]]).addFound {10, 12}).addFound
        {6, 8, 12}) n f') (fun _ ↦ False) (f.getUnexplored twoWaysContext) := by
  have hup : goesUp twoWaysContext f = true ∧ goesDown twoWaysContext f = false := by
    unfold goesUp goesDown
    rw [hcount]
    exact ⟨rfl, rfl⟩
  have hall : SafeGates twoWays (allGates twoWaysContext) :=
    (safeGates_twoWays allGates_twoWays.subset).mpr (by decide)
  have hleft : ∀ t ⊆ allGates twoWaysContext,
      ((blocked twoWaysContext [[12], [8, 10], [6, 10]]).addFound {10, 12}).Unexplored t ↔
        t = {6, 8, 12} := by
    intro t ht
    rw [unexplored_addFound, unexplored_twoWays ht, safeGates_twoWays (allGates_twoWays ▸ ht)]
    rw [allGates_twoWays] at ht
    rw [← Finset.mem_powerset] at ht
    revert t
    decide
  refine (twoWays_pass hk fun _ hbad ↦ absurd hall hbad).imp fun r hr ↦ ?_
  cases r with
  | inr f' => exact absurd ((hleft {6, 8, 12} (by decide)).mpr rfl) (hr.2.1 _ (by decide))
  | inl f' =>
    obtain ⟨-, seed, -, hseed, hhandled⟩ := hr
    rw [hup.1, hup.2] at hseed hhandled
    have heq := (hleft _ hseed.subset_allGates).mp hseed.unexplored
    cases hhandled with
    | refuted d hle hleaves hbad hknows hsame =>
      rw [heq] at hbad
      exact absurd ((safeGates_twoWays (by decide)).mpr (by decide)) hbad
    | found mivc hshrunk hsafe hknows hmivcs hdeclares =>
      have hkept : mivc = seed := hshrunk.kept rfl
      have hunknown : f.minimumIVCKnown = false := by
        unfold IVCFinder.minimumIVCKnown
        rw [hmin]
        rfl
      rw [hkept, heq] at hknows
      refine ⟨f', rfl, ?_, hknows⟩
      obtain ⟨hdeclared, -⟩ | ⟨hno, -⟩ := hdeclares.unknown hunknown
      · rw [hdeclared, ← List.toFinset_card_of_nodup hshrunk.nodup, hkept, heq]
        decide
      · exact absurd hno.symm Bool.false_ne_true

theorem twoWays_third
    (hk : LateKnows (((blocked twoWaysContext [[12], [8, 10], [6, 10]]).addFound {10, 12}).addFound
      {6, 8, 12}) (n + 1) f) (hlen : f.minimumIVC.length = 3) :
    Meets (fun r ↦ ∃ f', r = .inr f' ∧ f'.minimumIVC.length = 3) (fun _ ↦ False)
      (f.getUnexplored twoWaysContext) := by
  have hall : SafeGates twoWays (allGates twoWaysContext) :=
    (safeGates_twoWays allGates_twoWays.subset).mpr (by decide)
  refine (twoWays_pass hk fun _ hbad ↦ absurd hall hbad).imp fun r hr ↦ ?_
  cases r with
  | inr f' => exact ⟨f', rfl, by rw [hr.2.2]; exact hlen⟩
  | inl f' =>
    obtain ⟨-, seed, -, hseed, -⟩ := hr
    have hno : ∀ t ⊆ allGates twoWaysContext,
        ¬ (((blocked twoWaysContext [[12], [8, 10], [6, 10]]).addFound {10, 12}).addFound
          {6, 8, 12}).Unexplored t := by
      intro t ht
      rw [unexplored_addFound, unexplored_addFound, unexplored_twoWays ht,
        safeGates_twoWays (allGates_twoWays ▸ ht)]
      rw [allGates_twoWays] at ht
      rw [← Finset.mem_powerset] at ht
      revert t
      decide
    exact absurd hseed.unexplored (hno _ hseed.subset_allGates)

theorem doFindIVCs_twoWays {vm : VariableManager} (hvm : vm.Inv) (hid : vm.nextID = 14) :
    Meets (fun f ↦ f.minimumIVC.length = 3) (fun _ ↦ False)
      (doFindIVCs twoWaysContext (new twoWays (.new vm (gateSet twoWaysContext)) [])) := by
  have hids : IDSet (gateSet twoWaysContext) := twoWays_wellFormed.gates_idSet
  have hlt : ∀ gate ∈ gateSet twoWaysContext, gate < vm.nextID := by
    rw [hid, gateSet_twoWays]
    decide
  have hparts : Parts twoWaysContext (MSU4ArbitraryMapSolver.RepWithin .minimal (gateSet twoWaysContext)
      (2 ^ 32) 3) (fun found x ↦ x = found) (fun _ ↦ False) :=
    twoWays_setting.msu4_parts (o := ⟨32, 1, true, Nat.one_pos⟩) rfl _ _
  have hrep : MSU4ArbitraryMapSolver.RepWithin .minimal (gateSet twoWaysContext) (2 ^ 32) 3
      (nothing : Explored ℕ).Unexplored (.new vm (gateSet twoWaysContext)) := by
    have hroom : vm.nextID + 3 * MSU4MaxSATSolver.solveIDs (gateSet twoWaysContext).length ≤ 2 ^ 32 := by
      rw [hid, gateSet_twoWays]
      decide
    have hwithin : MSU4ArbitraryMapSolver.RepWithin .minimal (gateSet twoWaysContext) (2 ^ 32) 3
        (fun _ ↦ True) (.new vm (gateSet twoWaysContext)) := ⟨.new hids hvm hlt, hroom⟩
    exact hparts.map.congr hwithin fun t _ ↦ ⟨fun _ ↦ unexplored_nothing t, fun _ ↦ trivial⟩
  have hkeeps : Keeps twoWaysContext (MSU4ArbitraryMapSolver.RepWithin .minimal
      (gateSet twoWaysContext) (2 ^ 32) 3) nothing
      (new twoWays (.new vm (gateSet twoWaysContext)) ([[12], [8, 10], [6, 10]].map List.toFinset)) :=
    .new hids hrep
  have hstart : Meets (fun f ↦ LateKnows (blocked twoWaysContext [[12], [8, 10], [6, 10]]) 3 f ∧
      f.seedCount = 0 ∧ f.mivcLB = 0 ∧ f.minimumIVC = []) (fun _ ↦ False)
      (findMCSesUpfront twoWaysContext (new twoWays (.new vm (gateSet twoWaysContext)) [])) := by
    refine (blockUpfront_meets hparts hkeeps twoWays_upfront).imp fun f hf ↦ ?_
    obtain ⟨hkeeps', hframe⟩ := hf
    have hcs : f.csFinder = [[12], [8, 10], [6, 10]].map List.toFinset := by
      rw [hframe]
      rfl
    have hrest : f.seedCount = 0 ∧ f.mivcLB = 0 ∧ f.minimumIVC = [] := by
      rw [hframe]
      exact ⟨rfl, rfl, rfl⟩
    refine ⟨⟨hkeeps', _, hcs, fun u hu ↦ ?_⟩, hrest⟩
    obtain ⟨corr, hc, rfl⟩ := List.mem_map.mp hu
    exact ⟨_, List.mem_map_of_mem hc, Finset.Subset.refl _⟩
  have hloop : ∀ f, LateKnows (blocked twoWaysContext [[12], [8, 10], [6, 10]]) 3 f ∧
      f.seedCount = 0 ∧ f.mivcLB = 0 ∧ f.minimumIVC = [] →
      Meets (fun f ↦ f.minimumIVC.length = 3) (fun _ ↦ False)
        (loop .outOfFuel (getUnexplored twoWaysContext)
          (2 ^ twoWaysContext.tr.gateIDs.length + 1) f) := by
    intro f hf
    obtain ⟨hk, hcount, hlb, hmin⟩ := hf
    refine loop_succ_meets ((twoWays_first hk hcount hlb hmin).imp fun r hr ↦ ?_)
    obtain ⟨f₁, rfl, hcount₁, hmin₁, hk₁⟩ := hr
    refine loop_succ_meets ((twoWays_second hk₁ hcount₁ hmin₁).imp fun r hr ↦ ?_)
    obtain ⟨f₂, rfl, hlen₂, hk₂⟩ := hr
    refine loop_succ_meets ((twoWays_third hk₂ hlen₂).imp fun r hr ↦ ?_)
    obtain ⟨f₃, rfl, hlen₃⟩ := hr
    exact hlen₃
  unfold doFindIVCs
  rw [if_neg (by decide)]
  refine hstart.bind fun f hf ↦ (hloop f hf).bind fun f hf ↦ ?_
  have hknown : f.minimumIVCKnown = true := known_eq_true.mpr (List.ne_nil_of_length_eq_add_one hf)
  rw [meets_pure, setMinimumUnlessKnown_eq, if_pos hknown]
  exact hf

end Late

theorem doFindIVCs_declares_fails : ¬ ∀ (ctx : UnifiedIVCContext MSU4ArbitraryMapSolver (List (Finset ℕ)))
    (o : MSU4Options) (S : SAT.Solver) (vm : VariableManager),
    Setting ctx (fun found x ↦ x = found) [] → ctx.mapSolver = MSU4ArbitraryMapSolver.solver o S →
    S.Relevant → vm.Inv → (∀ gate ∈ ctx.tr.gateIDs, gate < vm.nextID) → ctx.tr.Safe →
    ∀ f, doFindIVCs ctx (new ctx.tr (.new vm (gateSet ctx)) []) = .ok f → f.DeclaresLeast ctx.tr := by
  intro hall
  have hvm : VariableManager.Inv
      ⟨14, [(12, 0), (10, 0), (8, 0), (6, 0), (4, 0), (2, 0)], [(2, 0)], [(0, 2)]⟩ :=
    ((((VariableManager.inv_new.getNewID (r := (4, _)) rfl).getNewID (r := (6, _)) rfl).getNewID
      (r := (8, _)) rfl).getNewID (r := (10, _)) rfl).getNewID (r := (12, _)) rfl
  obtain ⟨f, hok, hlen⟩ := (doFindIVCs_twoWays hvm rfl).exists_ok
  have hleast := hall twoWaysContext ⟨32, 1, true, Nat.one_pos⟩ .minimal _ twoWays_setting rfl
    SAT.Solver.minimal_relevant hvm (by decide) twoWays_safe f hok
  have hminimal : Minimal (SafeGates twoWays) {10, 12} := by
    refine minimal_of_erase (monotone_safeGates twoWays_wellFormed)
      ((safeGates_twoWays (by decide)).mpr (by decide)) fun g hg ↦ ?_
    rw [safeGates_twoWays ((Finset.erase_subset g _).trans (by decide))]
    revert g
    decide
  obtain ⟨-, hle⟩ := hleast {10, 12} (by decide) hminimal
  rw [hlen] at hle
  exact absurd hle (by decide)

end UnifiedIVCFinder

end PME
