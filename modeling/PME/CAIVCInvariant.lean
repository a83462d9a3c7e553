import PME.CandidateSolver
import PME.PartialCircuit

namespace PME.CAIVCFinder

open Outcome IC3 HittingSets Exploration TransitionRelation DebugTransitionRelation

/-- A safe circuit with some gates, enough fuel, bounds for BMC that IDs can be primed to, and checks that decide. -/
structure Fits (ctx : CAIVCContext) : Prop where
  wf : ctx.tr.WellFormed
  plain : ctx.tr.gateCNF = AndGate.toCNF
  free : ctx.tr.constraints = []
  bad : BadPlain ctx.tr
  safe : ctx.tr.Safe
  gates : ctx.tr.gateIDs ≠ []
  few : ctx.tr.gateIDs.length < cardinalityInf
  fuel : ∀ st, st.fuelBound ≤ ctx.fuel st
  relevant : ctx.engines.sat.Relevant
  shallow : ctx.opts.hybridIC3BMCKMax < maxPrimes ∧ ctx.opts.arBMCKMax < maxPrimes
  checks : ctx.opts.checkWithDebug = true ∨
    0 < ctx.opts.hybridIC3BMCKMax ∧ ∀ S ⊆ ctx.tr.gateIDs, Proper ctx.tr S

variable {ctx : CAIVCContext} {n : ℕ} {d : DebugTransitionRelation} {hd : Debugs ctx.tr n d}

theorem Fits.dual (h : Fits ctx) : Dual (SafeGates ctx.tr) ctx.tr.FreedBad ctx.tr.gateIDs.toFinset :=
  ⟨monotone_safeGates h.wf, freedBad_iff h.wf h.free h.bad⟩

theorem Fits.nothing (h : Fits ctx) : ¬ ctx.tr.FreedBad ∅ := h.safe.not_freedBad h.plain h.free

theorem Fits.whole (h : Fits ctx) : SafeGates ctx.tr ctx.tr.gateIDs.toFinset := by
  have hno := mt (h.dual.iff ∅).mpr h.nothing
  rwa [not_not, Finset.sdiff_empty] at hno

theorem Fits.exact (h : Fits ctx) (hd : Debugs ctx.tr n d) :
    (debugger ctx).Exact ctx.tr.FreedBad ctx.tr.gateIDs (HybridDebugger.Rep ctx.engines hd ctx.opts.hybridIC3BMCKMax) RunsOut :=
  HybridDebugger.shared_exact hd h.gates h.few ⟨.inl rfl, .inr rfl⟩ (fun hno ↦ absurd hno (Nat.not_le.mpr h.shallow.1))
    h.fuel

structure Told where
  necessary : List ℕ
  limit : ℕ
  blocked : List (Finset ℕ)
  fallen : List (Finset ℕ)
  bounded : List (Finset ℕ)
  sets : List (Finset ℕ)
  found : List (Finset ℕ)

namespace Told

def singles (t : Told) : List (Finset ℕ) := t.necessary.map fun gate ↦ {gate}

def refused (t : Told) : List (Finset ℕ) := t.found.map (· \ t.necessary.toFinset)

end Told

structure Holds (ctx : CAIVCContext) (hd : Debugs ctx.tr n d) (t : Told) (f : CAIVCFinder) : Prop where
  vars : f.vars.Inv
  first : n ≤ f.vars.nextID
  necessary : f.necessaryGates = t.necessary
  finder : f.finder.Holds (debugger ctx) (HybridDebugger.Rep ctx.engines hd ctx.opts.hybridIC3BMCKMax) ctx.tr.gateIDs f.vars t.limit t.blocked
  approx : f.approxFinder.Holds ctx.engines ctx.fuel hd f.vars t.fallen t.bounded
  checker : (debugger ctx).Idle (HybridDebugger.Rep ctx.engines hd ctx.opts.hybridIC3BMCKMax) f.vars ctx.tr.gateIDs.length [] f.ivcChecker
  solver : Serves ctx.engines.sat ctx.tr.gateIDs t.sets t.refused f.vars f.solver
  nodup : t.necessary.Nodup
  needed : ∀ gate ∈ t.necessary, gate ∈ ctx.tr.gateIDs ∧ ctx.tr.FreedBad {gate}
  sets : ∀ s ∈ t.sets, s ⊆ ctx.tr.gateIDs.toFinset ∧ ctx.tr.FreedBad s ∧ Disjoint s t.necessary.toFinset
  order : ∃ c, SmallestFirst (SafeGates ctx.tr) ctx.tr.gateIDs.toFinset t.found c
  mivcs : f.mivcs.map List.toFinset = t.found
  mivcs_nodup : ∀ s ∈ f.mivcs, s.Nodup
  minimum : f.minimumIVC = f.mivcs.headD []

variable {t : Told} {f : CAIVCFinder} {vars : VariableManager} {gates candidate : List ℕ}

theorem Holds.later (h : Holds ctx hd t f) (hmade : SharedDebugger.Made f.vars vars) :
    Holds ctx hd t { f with vars := vars } :=
  { h with
    vars := hmade.inv
    first := h.first.trans hmade.le
    finder := h.finder.later hmade.le
    approx := h.approx.later hmade
    checker := h.checker.later hmade.le
    solver := h.solver.later hmade.le }

theorem nonempty_of_freedBad (hno : ¬ ctx.tr.FreedBad ∅) {result : Option CorrectionSet}
    (h : ∀ corr, result = some corr → ctx.tr.FreedBad corr.toFinset) : nonempty result = true := by
  cases result with
  | none => rfl
  | some corr =>
    have hne := ApproximateMCSFinder.ne_nil_of_freedBad hno (h corr rfl)
    cases corr with
    | nil => exact absurd rfl hne
    | cons gate corr => rfl

theorem freedBad_of_answer {limit : ℕ} {blocked : List (Finset ℕ)} {result : Option CorrectionSet}
    (h : DebugAnswer ctx.tr.FreedBad gates limit blocked result) (corr : CorrectionSet) (hr : result = some corr) :
    ctx.tr.FreedBad corr.toFinset := by
  rw [hr] at h
  exact h.2.2.1

section Parts

variable (hfit : Fits ctx)

include hfit

theorem Holds.setCardinality (h : Holds ctx hd t f) {m : ℕ} (hm : m ≤ ctx.tr.gateIDs.length) :
    Meets (Holds ctx hd { t with limit := m }) RunsOut (f.setCardinality ctx m) := by
  unfold CAIVCFinder.setCardinality
  refine (h.finder.setCardinality (hfit.exact hd) h.vars hm).bind fun r hr ↦ ?_
  exact { h.later hr.2 with finder := hr.1 }

theorem Holds.moreCorrectionSets (h : Holds ctx hd t f) :
    Meets (fun r ↦ (r.1 = true ↔ ∃ s ⊆ ctx.tr.gateIDs.toFinset, ctx.tr.FreedBad s ∧ Unblocked t.blocked s) ∧
      Holds ctx hd t r.2) RunsOut (f.moreCorrectionSets ctx) := by
  unfold CAIVCFinder.moreCorrectionSets
  refine (h.finder.moreCorrectionSets (hfit.exact hd) h.vars).bind fun r hr ↦ ?_
  exact ⟨hr.1, { h.later hr.2.2 with finder := hr.2.1 }⟩

theorem Holds.findCorrectionSet (h : Holds ctx hd t f) :
    Meets (fun r ↦ DebugAnswer ctx.tr.FreedBad ctx.tr.gateIDs t.limit t.blocked r.1 ∧
      Holds ctx hd { t with blocked := blockedBy t.blocked r.1 } r.2) RunsOut (f.findCorrectionSet ctx) := by
  unfold CAIVCFinder.findCorrectionSet
  refine (h.finder.findAndBlock (hfit.exact hd) hfit.nothing h.vars).bind fun r hr ↦ ?_
  obtain ⟨result, finder, vars⟩ := r
  obtain ⟨hanswer, hfinder, hmade⟩ := hr
  dsimp only at hanswer ⊢
  rw [nonempty_of_freedBad hfit.nothing (freedBad_of_answer hanswer), ensure_true, ok_bind]
  exact ⟨hanswer, { h.later hmade with finder := hfinder }⟩

theorem Holds.searchOverGates (h : Holds ctx hd t f) (hsub : gates ⊆ ctx.tr.gateIDs) {m : ℕ}
    (hm : m ≤ ctx.tr.gateIDs.length) :
    Meets (fun r ↦ DebugAnswer ctx.tr.FreedBad gates m t.blocked r.1 ∧
      Holds ctx hd { t with limit := m, blocked := blockedBy t.blocked r.1 } r.2) RunsOut
      (searchOverGates ctx gates f m) := by
  unfold CAIVCFinder.searchOverGates
  refine (h.setCardinality hfit hm).bind fun f₁ h₁ ↦ ?_
  refine (h₁.finder.findAndBlockOverGates (hfit.exact hd) hfit.nothing h₁.vars hsub).bind fun r hr ↦ ?_
  obtain ⟨result, finder, vars⟩ := r
  obtain ⟨hanswer, hfinder, hmade⟩ := hr
  dsimp only at hanswer ⊢
  rw [nonempty_of_freedBad hfit.nothing (freedBad_of_answer hanswer), ensure_true, ok_bind]
  exact ⟨hanswer, { h₁.later hmade with finder := hfinder }⟩

theorem Holds.isIVC (h : Holds ctx hd t f) (hsub : candidate ⊆ ctx.tr.gateIDs) :
    Meets (fun r ↦ (r.1 = true ↔ SafeGates ctx.tr candidate.toFinset) ∧ Holds ctx hd t r.2) RunsOut
      (f.isIVC ctx candidate) := by
  have hV := hfit.exact hd
  have hbase : candidate.toFinset ⊆ ctx.tr.gateIDs.toFinset := fun g hg ↦
    List.mem_toFinset.mpr (hsub (List.mem_toFinset.mp hg))
  unfold CAIVCFinder.isIVC
  split
  · have hneg : negateGateSet ctx candidate ⊆ ctx.tr.gateIDs := fun g hg ↦ (mem_negateGates.mp hg).1
    have hset : (negateGateSet ctx candidate).toFinset = ctx.tr.gateIDs.toFinset \ candidate.toFinset :=
      toFinset_negateGates _ _
    have hask : Meets (fun r ↦ DebugAnswer ctx.tr.FreedBad (negateGateSet ctx candidate) ctx.tr.gateIDs.length [] r.1 ∧
        (debugger ctx).Idle (HybridDebugger.Rep ctx.engines hd ctx.opts.hybridIC3BMCKMax) r.2.2 ctx.tr.gateIDs.length [] r.2.1 ∧
        SharedDebugger.Made f.vars r.2.2) RunsOut ((debugger ctx).ask f.vars f.ivcChecker
          ((debugger ctx).debugOverGates · (negateGateSet ctx candidate))) :=
      hV.ask (B := fun _ ↦ []) h.vars h.checker fun _ hx ↦ (hV.exact _).debugOverGates hx hneg
    refine hask.bind fun r hr ↦ ?_
    obtain ⟨result, ivcChecker, vars⟩ := r
    obtain ⟨hanswer, hchecker, hmade⟩ := hr
    refine ⟨?_, { h.later hmade with checker := hchecker }⟩
    have hcard : (negateGateSet ctx candidate).toFinset.card ≤ ctx.tr.gateIDs.length := by
      rw [hset]
      exact (Finset.card_le_card Finset.sdiff_subset).trans (List.toFinset_card_le _)
    rw [Bool.not_eq_true', Bool.eq_false_iff, ne_eq, hanswer.isSome_iff hfit.dual.bad_mono hcard, hset, hfit.dual.iff,
      Finset.sdiff_sdiff_eq_self hbase, not_not]
  · next hopt =>
    obtain ⟨hk, hproper⟩ := hfit.checks.resolve_left hopt
    have hpart : Meets (Part ctx.tr candidate n) RunsOut (ctx.tr.ofGates candidate) :=
      ofGates_part hfit.wf hfit.plain hfit.free (hproper candidate hsub) hd.minId_le hd.old
    refine hpart.bind fun part hp ↦ ?_
    have hprove : Meets _ RunsOut _ :=
      HybridSafetyChecker.prove_new (E := ctx.engines) hp.wf hp.owned hp.free hk h.vars h.first hfit.fuel (.inl rfl)
        fun hno ↦ absurd hno.le (Nat.not_le.mpr hfit.shallow.1)
    rw [← bind_assoc]
    refine hprove.bind fun r hr ↦ ?_
    obtain ⟨safe, checker⟩ := r
    obtain ⟨hdecides, hinv, hle⟩ := hr
    refine ⟨?_, h.later ⟨hinv, hle⟩⟩
    rw [← hp.safe_iff hfit.wf, ← hdecides.1]
    exact beq_iff_eq

end Parts

end PME.CAIVCFinder
