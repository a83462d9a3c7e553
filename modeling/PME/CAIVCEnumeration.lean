import PME.CAIVCCollection

namespace PME.CAIVCFinder

open Outcome IC3 HittingSets Exploration TransitionRelation DebugTransitionRelation HittingSetFinder

variable {ctx : CAIVCContext} {n : ℕ} {d : DebugTransitionRelation} {vm : VariableManager}

def findIVCs (ctx : CAIVCContext) (vars : VariableManager) : Result CAIVCFinder := do
  (← CAIVCFinder.new ctx vars).doFindIVCs ctx

def Told.start (ctx : CAIVCContext) : Told := ⟨[], ctx.tr.gateIDs.length, [], [], [], [], []⟩

theorem addForOptimization_vars (s : MSU4MaxSATSolver) (lit : ℕ) :
    Meets (fun s' ↦ s'.vars = s.vars) (fun _ ↦ True) (s.addForOptimization lit) := by
  unfold MSU4MaxSATSolver.addForOptimization
  split
  · trivial
  · rfl

theorem optimize_meets (hfit : Fits ctx) (hvm : vm.Inv) (hgates : ∀ gate ∈ ctx.tr.gateIDs, gate < vm.nextID) :
    Meets (fun s ↦ Serves ctx.engines.sat ctx.tr.gateIDs [] [] s.vars s ∧ s.vars = vm) RunsOut
      (ctx.tr.gateIDs.foldlM (fun solver gate ↦ solver.addForOptimization (negate gate)) (MSU4MaxSATSolver.new vm)) := by
  have hmin := hvm.minId_le
  have hid : minId = idFalse + 2 := rfl
  have hstart : Encodes ctx.engines.sat {v | v ∈ ctx.tr.gateIDs} [] [] [] (.new vm) :=
    .new hvm (by omega) hgates
  have hfold : Meets (fun s ↦ Encodes ctx.engines.sat {v | v ∈ ctx.tr.gateIDs} ctx.tr.gateIDs [] [] s ∧
      s.vars = vm) RunsOut
      (ctx.tr.gateIDs.foldlM (fun solver gate ↦ solver.addForOptimization (negate gate)) (MSU4MaxSATSolver.new vm)) := by
    refine foldlM_meets (fun done (s : MSU4MaxSATSolver) ↦
      Encodes ctx.engines.sat {v | v ∈ ctx.tr.gateIDs} done [] [] s ∧ s.vars = vm) _ ⟨hstart, rfl⟩ ?_
    intro done gate rest s hl hs
    have hmem : gate ∈ ctx.tr.gateIDs := hl ▸ List.mem_append_right done List.mem_cons_self
    have hnew : gate ∉ done := fun hdone ↦ by
      have hnodup := hfit.wf.gateIDs_nodup
      rw [← hl] at hnodup
      exact (List.nodup_append.mp hnodup).2.2 _ hdone _ List.mem_cons_self rfl
    obtain ⟨hge, -, heven⟩ := hfit.wf.isVar gate (mem_signals.mpr (.inr hmem))
    have hadd : Meets (Encodes ctx.engines.sat {v | v ∈ ctx.tr.gateIDs} (gate :: done) [] []) RunsOut
        (s.addForOptimization (negate gate)) := hs.1.addVar hfit.relevant heven hge hmem hnew
    refine (hadd.and (addForOptimization_vars s _)).imp fun s' hs' ↦ ?_
    exact ⟨hs'.1.perm (List.perm_append_singleton gate done), hs'.2.trans hs.2⟩
  exact hfold.imp fun s hs ↦ ⟨⟨le_rfl, fun _ ↦ hs.1, fun hno ↦ absurd hno List.not_mem_nil⟩, hs.2⟩

theorem new_meets (hfit : Fits ctx) (hvm : vm.Inv) (hold : ∀ v ∈ ctx.tr.signals, v < vm.nextID) :
    Meets (fun f ↦ ∃ d, ∃ hd : Debugs ctx.tr vm.nextID d, Holds ctx hd (Told.start ctx) f) RunsOut
      (CAIVCFinder.new ctx vm) := by
  have hdebugs : Meets _ RunsOut (fromRelation vm ctx.tr) :=
    (fromRelation_debugs hfit.wf hfit.plain hvm hold).weaken fun e he ↦ .inl he.1
  unfold CAIVCFinder.new
  refine hdebugs.bind fun r hr ↦ ?_
  obtain ⟨d, vm₀⟩ := r
  obtain ⟨hd, hvm₀, hnext⟩ := hr
  dsimp only at hd hvm₀ hnext ⊢
  have hfinder : Meets (fun r ↦ MCSFinder.Holds (debugger ctx) (HybridDebugger.Rep ctx.engines hd ctx.opts.hybridIC3BMCKMax) ctx.tr.gateIDs r.2
      ctx.tr.gateIDs.length [] r.1 ∧ SharedDebugger.Made vm₀ r.2) RunsOut
      (MCSFinder.new ctx.opts.useBMC ctx.opts.hybridIC3BMCKMax vm₀ d) :=
    MCSFinder.new_meets hd ctx.opts.useBMC ctx.opts.hybridIC3BMCKMax hvm₀ hnext.ge
  refine hfinder.bind fun r h₁ ↦ ?_
  obtain ⟨finder, vm₁⟩ := r
  obtain ⟨hholds₁, hmade₁⟩ := h₁
  have happrox : Meets (fun r ↦ ApproximateMCSFinder.Holds ctx.engines ctx.fuel hd r.2 [] [] r.1 ∧
      SharedDebugger.Made vm₁ r.2) RunsOut (ApproximateMCSFinder.new vm₁ d) :=
    ApproximateMCSFinder.new_meets hd hmade₁.inv (hnext.ge.trans hmade₁.le)
  refine happrox.bind fun r h₂ ↦ ?_
  obtain ⟨approxFinder, vm₂⟩ := r
  obtain ⟨hholds₂, hmade₂⟩ := h₂
  have hle : vm₀.nextID ≤ vm₂.nextID := hmade₁.le.trans hmade₂.le
  have hchecker : Meets (HybridDebugger.Rep ctx.engines hd ctx.opts.hybridIC3BMCKMax vm₂.nextID ctx.tr.gateIDs.length []) RunsOut
      (HybridDebugger.new ctx.opts.hybridIC3BMCKMax vm₂ d) :=
    HybridDebugger.new_meets hd ctx.opts.hybridIC3BMCKMax hmade₂.inv (hnext.ge.trans hle)
  refine hchecker.bind fun checker h₃ ↦ ?_
  have hmade₃ : SharedDebugger.Made vm₂ checker.vars := ⟨h₃.inv, h₃.le⟩
  have hfirst : vm.nextID ≤ checker.vars.nextID := by
    have hall := hle.trans hmade₃.le
    omega
  refine (optimize_meets hfit hmade₃.inv fun gate hg ↦
    (hold gate (mem_signals.mpr (.inr hg))).trans_le hfirst).bind fun solver hsolver ↦ ?_
  obtain ⟨hserves, hvars⟩ := hsolver
  refine ⟨d, hd, ?_⟩
  exact
    { vars := hvars ▸ hmade₃.inv
      first := hvars ▸ hfirst
      necessary := rfl
      finder := hvars ▸ hholds₁.later (hmade₂.le.trans hmade₃.le)
      approx := hvars ▸ hholds₂.later hmade₃
      checker := hvars ▸ ⟨⟨_, h₃⟩, le_rfl⟩
      solver := hserves
      nodup := List.nodup_nil
      needed := fun _ hno ↦ absurd hno List.not_mem_nil
      sets := fun _ hno ↦ absurd hno List.not_mem_nil
      order := ⟨0, smallestFirst_zero⟩
      mivcs := rfl
      mivcs_nodup := fun _ hno ↦ absurd hno List.not_mem_nil
      minimum := rfl }

theorem safeGates_empty (hfit : Fits ctx) (hbad : ctx.tr.bad = idFalse) : SafeGates ctx.tr ∅ := by
  have hno : ¬ ctx.tr.FreedBad ctx.tr.gateIDs.toFinset := by
    rintro ⟨k, x, hx, hlit⟩
    rw [hbad, litVal_idFalse, hx.const k (Nat.le_succ k)] at hlit
    exact absurd hlit (by decide)
  have hsafe := mt (hfit.dual.iff _).mpr hno
  rwa [not_not, Finset.sdiff_self] at hsafe

theorem finished_constant (hfit : Fits ctx) (hbad : ctx.tr.bad = idFalse) {f : CAIVCFinder} (hmivcs : f.mivcs = [])
    (hminimum : f.minimumIVC = []) : Finished ctx { f with toIVCFinder := f.addMIVC [] } := by
  have hnew : ({ f with toIVCFinder := f.addMIVC [] } : CAIVCFinder).mivcs = [[]] := by
    show f.mivcs ++ [[]] = [[]]
    rw [hmivcs, List.nil_append]
  have hsafe := safeGates_empty hfit hbad
  refine ⟨⟨?_, ?_⟩, ?_, ?_⟩
  · rw [hnew]
    exact List.forall_mem_singleton.mpr List.nodup_nil
  · rw [hnew]
    refine ⟨List.nodup_singleton _, fun s ↦ ?_⟩
    rw [List.map_singleton, List.mem_singleton, List.toFinset_nil]
    constructor
    · rintro rfl
      exact ⟨Finset.empty_subset _, hsafe, fun u _ _ ↦ Finset.empty_subset u⟩
    · intro hs
      exact Finset.subset_empty.mp (hs.2.le_of_le hsafe (Finset.empty_subset s))
  · rw [hnew]
    exact List.pairwise_singleton _ _
  · unfold IVCFinder.MinimumRight
    rw [hnew]
    refine ⟨List.mem_singleton.mpr hminimum, List.forall_mem_singleton.mpr ?_⟩
    show f.minimumIVC.length ≤ 0
    rw [hminimum]
    exact le_rfl

/-- A run on a safe circuit ends, with exactly the minimal safe gate sets, each of them once and in the
order of their size. Only the IDs can run out. -/
theorem findIVCs_enumerates (ctx : CAIVCContext) (hfit : Fits ctx)
    (hmode : ctx.opts.abstractionRefinement = true → Searches ctx) (vm : VariableManager) (hvm : vm.Inv)
    (hold : ∀ v ∈ ctx.tr.signals, v < vm.nextID) : Meets (Finished ctx) RunsOut (findIVCs ctx vm) := by
  unfold findIVCs
  refine (new_meets hfit hvm hold).bind fun f hf ↦ ?_
  obtain ⟨d, hd, h⟩ := hf
  have hup : Upfront (Told.start ctx) := ⟨rfl, rfl, rfl⟩
  unfold doFindIVCs
  by_cases hbad : ctx.tr.bad = idFalse
  · rw [if_pos (beq_iff_eq.mpr hbad), meets_pure]
    have hmivcs : f.mivcs = [] := List.map_eq_nil_iff.mp h.mivcs
    refine finished_constant hfit hbad hmivcs ?_
    rw [h.minimum, hmivcs]
    rfl
  · rw [if_neg (mt beq_iff_eq.mp hbad)]
    by_cases har : ctx.opts.abstractionRefinement = true
    · rw [if_pos har]
      exact abstractionRefinementFindIVCs_meets hfit (hmode har) h hup
    · rw [if_neg har]
      exact naiveFindIVCs_meets hfit h hup rfl rfl

noncomputable def spareContext : CAIVCContext where
  opts := ⟨true, true, true, false, false, false, 24, 8, 1, 16, ⟨64, 8, true, by decide⟩⟩
  engines := { Engines.plain with sat := .minimal }
  fuel := IC3Solver.fuelBound
  tr := spare

theorem spareContext_fits : Fits spareContext where
  wf := spare_wellFormed
  plain := rfl
  free := rfl
  bad hno := absurd hno (by decide)
  safe := spare_safe
  gates := List.cons_ne_nil _ _
  few := by decide
  fuel _ := le_rfl
  relevant := SAT.Solver.minimal_relevant
  shallow := by decide
  checks := .inr ⟨by decide, fun S _ ↦ proper_spare S⟩

theorem findIVCs_enumerates_spare : Meets (Finished spareContext) RunsOut (findIVCs spareContext fourVars) := by
  have hmode : spareContext.opts.abstractionRefinement = true → Searches spareContext := fun _ ↦
    ⟨.inr (.inr rfl), by decide⟩
  exact findIVCs_enumerates spareContext spareContext_fits hmode fourVars fourVars_inv (by decide)

end PME.CAIVCFinder
