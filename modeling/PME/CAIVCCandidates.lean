import PME.CAIVCInvariant

namespace PME.CAIVCFinder

open Outcome IC3 HittingSets Exploration TransitionRelation DebugTransitionRelation

variable {ctx : CAIVCContext} {n : ℕ} {d : DebugTransitionRelation} {hd : Debugs ctx.tr n d} {t : Told}
  {f : CAIVCFinder} {candidate : List ℕ}

structure Candidate (ctx : CAIVCContext) (t : Told) (candidate : List ℕ) : Prop where
  nodup : candidate.Nodup
  subset : candidate ⊆ ctx.tr.gateIDs
  necessary : t.necessary.toFinset ⊆ candidate.toFinset
  minimum : IsMinimum (Admissible (t.singles ++ t.sets) t.found) candidate.toFinset
  open_refused : ∅ ∉ t.refused
  rest : Admissible t.sets t.refused (candidate.toFinset \ t.necessary.toFinset)

theorem Candidate.toFinset_subset (h : Candidate ctx t candidate) :
    candidate.toFinset ⊆ ctx.tr.gateIDs.toFinset := fun _ hg ↦
  List.mem_toFinset.mpr (h.subset (List.mem_toFinset.mp hg))

theorem Holds.disjoint (h : Holds ctx hd t f) : ∀ s ∈ t.sets, Disjoint s t.necessary.toFinset := fun s hs ↦
  (h.sets s hs).2.2

theorem Holds.freed (h : Holds ctx hd t f) : ∀ s ∈ t.singles ++ t.sets, ctx.tr.FreedBad s := by
  refine List.forall_mem_append.mpr ⟨fun s hs ↦ ?_, fun s hs ↦ (h.sets s hs).2.1⟩
  obtain ⟨gate, hgate, rfl⟩ := List.mem_map.mp hs
  exact (h.needed gate hgate).2

section Extraction

variable (hfit : Fits ctx)

include hfit

theorem extractIVC_meets {S : Finset ℕ} (hnecessary : f.necessaryGates = t.necessary)
    (hdisj : Disjoint S t.necessary.toFinset)
    (hvals : ∀ gate ∈ ctx.tr.gateIDs, f.solver.getAssignment gate = .ok (decide (gate ∈ S))) :
    Meets (fun mivc ↦ mivc = t.necessary ++ ctx.tr.gateIDs.filter (· ∈ S)) RunsOut (f.extractIVC ctx) := by
  have hsat : f.solver.isSAT = true := by
    obtain ⟨gate, hgate⟩ := List.exists_mem_of_ne_nil _ hfit.gates
    exact isSAT_of_getAssignment (hvals gate hgate)
  unfold extractIVC
  rw [hsat, ensure_true, ok_bind]
  refine foldlM_meets (fun done mivc ↦ mivc = t.necessary ++ done.filter (· ∈ S)) f.necessaryGates ?_ ?_
  · rw [List.filter_nil, List.append_nil]
    exact hnecessary
  · intro done gate rest mivc hl hmivc
    have hmem : gate ∈ ctx.tr.gateIDs := hl ▸ List.mem_append_right done List.mem_cons_self
    have hplain : isNegated gate = false :=
      (isNegated_eq_false gate).mpr (hfit.wf.isVar gate (mem_signals.mpr (.inr hmem))).2.2
    rw [hplain, Bool.not_false, ensure_true, ok_bind, hvals gate hmem, ok_bind, List.filter_append,
      List.filter_cons, List.filter_nil]
    by_cases hin : gate ∈ S
    · have hno : f.necessaryGates.contains gate = false := by
        rw [hnecessary, Bool.eq_false_iff, ne_eq, List.contains_iff_mem]
        exact fun hneed ↦ Finset.disjoint_left.mp hdisj hin (List.mem_toFinset.mpr hneed)
      rw [if_pos (decide_eq_true hin), if_pos (decide_eq_true hin), hno, Bool.not_false, ensure_true, ok_bind,
        meets_pure, hmivc, List.append_assoc]
    · rw [if_neg (by simpa using hin), if_neg (by simpa using hin), meets_pure, hmivc, List.append_nil]

/-- With the necessary gates a smallest set that the solver has found is a candidate. -/
theorem Holds.isCandidate (h : Holds ctx hd t f) {S : Finset ℕ} (hS : S ⊆ ctx.tr.gateIDs.toFinset)
    (hmin : IsMinimum (Admissible t.sets t.refused) S) (hopen : ∅ ∉ t.refused) :
    Candidate ctx t (t.necessary ++ ctx.tr.gateIDs.filter (· ∈ S)) := by
  have hdisj := hmin.disjoint h.disjoint
  have hset : (t.necessary ++ ctx.tr.gateIDs.filter (· ∈ S)).toFinset = t.necessary.toFinset ∪ S := by
    rw [List.toFinset_append]
    congr 1
    ext gate
    rw [List.mem_toFinset, List.mem_filter, decide_eq_true_iff]
    exact ⟨And.right, fun hg ↦ ⟨List.mem_toFinset.mp (hS hg), hg⟩⟩
  have hgates : t.necessary ++ ctx.tr.gateIDs.filter (· ∈ S) ⊆ ctx.tr.gateIDs :=
    List.append_subset.mpr ⟨fun gate hg ↦ (h.needed gate hg).1, fun gate hg ↦ (List.mem_filter.mp hg).1⟩
  refine ⟨?_, hgates, ?_, ?_, hopen, ?_⟩
  · refine List.nodup_append.mpr ⟨h.nodup, hfit.wf.gateIDs_nodup.filter _, fun a ha b hb heq ↦ ?_⟩
    have hin := (List.mem_filter.mp hb).2
    exact Finset.disjoint_left.mp hdisj (of_decide_eq_true hin) (List.mem_toFinset.mpr (heq ▸ ha))
  · rw [hset]
    exact Finset.subset_union_left
  · rw [hset]
    exact hmin.union h.disjoint hdisj
  · rw [hset, Finset.union_sdiff_cancel_left hdisj.symm]
    exact hmin.1

theorem Holds.findCandidateMIVC (h : Holds ctx hd t f) :
    Meets (fun r ↦ Holds ctx hd t r.2 ∧ (r.1 = none → ∀ s, ¬ Admissible (t.singles ++ t.sets) t.found s) ∧
      ∀ candidate, r.1 = some candidate → Candidate ctx t candidate) RunsOut (f.findCandidateMIVC ctx) := by
  have hinf : cardinalityInf = 2 ^ 32 - 1 := rfl
  have hmany : ctx.tr.gateIDs.length < 2 ^ 32 := by
    have hfew := hfit.few
    omega
  unfold CAIVCFinder.findCandidateMIVC
  refine (h.solver.solve hfit.relevant h.vars hmany fun s hs ↦ (h.sets s hs).1).bind fun r hr ↦ ?_
  obtain ⟨solver, found⟩ := r
  obtain ⟨⟨hnone, hsome⟩, hsolver, hinv, hle⟩ := hr
  have hholds : Holds ctx hd t { f with solver := solver, vars := solver.vars } :=
    { h.later ⟨hinv, hle⟩ with solver := hsolver }
  dsimp only at hnone hsome ⊢
  cases found with
  | false =>
    rw [if_neg Bool.false_ne_true, meets_pure]
    refine ⟨hholds, fun _ s hs ↦ ?_, fun c hc ↦ absurd hc.symm (Option.some_ne_none c)⟩
    exact hnone rfl _ ((admissible_needed h.disjoint).mp hs).2
  | true =>
    obtain ⟨hopen, S, hS, hmin, hvals⟩ := hsome rfl
    rw [if_pos rfl]
    have hextract := extractIVC_meets (f := { f with solver := solver, vars := solver.vars }) hfit h.necessary
      (hmin.disjoint h.disjoint) hvals
    refine hextract.bind fun mivc hmivc ↦ ⟨hholds, fun hno ↦ absurd hno (Option.some_ne_none mivc), fun c hc ↦ ?_⟩
    rw [← Option.some.inj hc, hmivc]
    exact h.isCandidate hfit hS hmin hopen

end Extraction

/-- The gates of a candidate that can be blocked are those that are not necessary. -/
theorem blockMIVC_meets (h : Holds ctx hd t f) (hc : Candidate ctx t candidate) {g : CAIVCFinder}
    (hvars : g.vars = f.vars) (hsolver : g.solver = f.solver) (hnecessary : g.necessaryGates = f.necessaryGates) :
    Meets (fun g' ↦ ∃ solver, g' = { g with solver := solver } ∧ Serves ctx.engines.sat ctx.tr.gateIDs t.sets
      (t.refused ++ [candidate.toFinset \ t.necessary.toFinset]) f.vars solver) RunsOut (g.blockMIVC candidate) := by
  have hset : (candidate.filter (!g.necessaryGates.contains ·)).toFinset =
      candidate.toFinset \ t.necessary.toFinset := by
    rw [hnecessary, h.necessary]
    exact toFinset_negateGates candidate t.necessary
  have hsub : candidate.filter (!g.necessaryGates.contains ·) ⊆ ctx.tr.gateIDs := fun gate hg ↦
    hc.subset (List.mem_filter.mp hg).1
  have hblock : Meets _ RunsOut _ := h.solver.block h.vars hc.open_refused hsub
  unfold blockMIVC addClause
  rw [hvars, hsolver]
  refine hblock.bind fun solver hserves ↦ ⟨solver, rfl, ?_⟩
  rw [← hset]
  exact hserves

/-- The first set that is reported is noted as the minimum one, and stays it. -/
theorem Holds.minimum_snoc (h : Holds ctx hd t f) (hc : Candidate ctx t candidate) :
    (if f.minimumIVCKnown then f.minimumIVC else candidate) = (f.mivcs ++ [candidate]).headD [] := by
  have hfirst := h.minimum
  cases hm : f.mivcs with
  | nil =>
    rw [hm] at hfirst
    have hunknown : f.minimumIVCKnown = false := by
      unfold IVCFinder.minimumIVCKnown
      rw [hfirst]
      rfl
    rw [hunknown]
    rfl
  | cons mivc mivcs =>
    rw [hm] at hfirst
    have hknown : f.minimumIVCKnown = true := by
      unfold IVCFinder.minimumIVCKnown
      rw [hfirst]
      cases mivc with
      | cons gate mivc => rfl
      | nil =>
        have hin : ∅ ∈ t.found := by
          rw [← h.mivcs, hm]
          exact List.mem_cons_self
        exact absurd (Finset.empty_subset _) (hc.minimum.1.2 ∅ hin)
    rw [if_pos hknown, hfirst]
    rfl

theorem Holds.recordMIVC (hfit : Fits ctx) (h : Holds ctx hd t f) (hc : Candidate ctx t candidate)
    (hsafe : SafeGates ctx.tr candidate.toFinset) {solver : MSU4MaxSATSolver}
    (hserves : Serves ctx.engines.sat ctx.tr.gateIDs t.sets
      (t.refused ++ [candidate.toFinset \ t.necessary.toFinset]) f.vars solver) :
    Holds ctx hd { t with found := t.found ++ [candidate.toFinset] }
      ({ f with solver := solver }.recordMIVC candidate) := by
  obtain ⟨c, horder⟩ := h.order
  have hmivcs : ({ f with solver := solver }.recordMIVC candidate).mivcs = f.mivcs ++ [candidate] := by
    unfold CAIVCFinder.recordMIVC
    dsimp only
    split <;> rfl
  have hminimum : ({ f with solver := solver }.recordMIVC candidate).minimumIVC =
      if f.minimumIVCKnown then f.minimumIVC else candidate := by
    unfold CAIVCFinder.recordMIVC
    dsimp only [IVCFinder.addMIVC]
    cases f.minimumIVCKnown <;> rfl
  refine
    { vars := h.vars
      first := h.first
      necessary := h.necessary
      finder := h.finder
      approx := h.approx
      checker := h.checker
      solver := ?_
      nodup := h.nodup
      needed := h.needed
      sets := h.sets
      order := ⟨_, hfit.dual.next horder h.freed hc.toFinset_subset hc.minimum hsafe⟩
      mivcs := ?_
      mivcs_nodup := ?_
      minimum := ?_ }
  · unfold Told.refused
    rw [List.map_append, List.map_singleton]
    exact hserves
  · rw [hmivcs, List.map_append, h.mivcs]
    rfl
  · rw [hmivcs]
    exact List.forall_mem_append.mpr ⟨h.mivcs_nodup, List.forall_mem_singleton.mpr hc.nodup⟩
  · rw [hmivcs, hminimum]
    exact h.minimum_snoc hc

end PME.CAIVCFinder
