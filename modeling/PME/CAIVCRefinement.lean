import PME.CAIVCCandidates

namespace PME.CAIVCFinder

open Outcome IC3 HittingSets Exploration TransitionRelation DebugTransitionRelation

variable {ctx : CAIVCContext} {n : ℕ} {d : DebugTransitionRelation} {hd : Debugs ctx.tr n d} {t : Told}
  {f : CAIVCFinder} {gates : List ℕ} {corr : CorrectionSet}

/-- A search for a correction set does not have the plain loop over cardinalities, which relies on what
was found before. -/
structure Searches (ctx : CAIVCContext) : Prop where
  mode : ctx.opts.growMCS = true ∨ ctx.opts.simpleMCS = true ∨ ctx.opts.approxMCS = true
  upfront : ctx.opts.arUpfrontNMax ≤ ctx.tr.gateIDs.length

def Prepared (t : Told) : Prop := t.fallen ⊆ t.sets

structure Corrects (ctx : CAIVCContext) (hd : Debugs ctx.tr n d) (t : Told) (gates : List ℕ)
    (r : CorrectionSet × CAIVCFinder) : Prop where
  subset : r.1 ⊆ gates
  freed : ctx.tr.FreedBad r.1.toFinset
  holds : ∃ fallen bounded, Holds ctx hd { t with fallen := fallen, bounded := bounded } r.2 ∧
    fallen ⊆ t.sets ++ [r.1.toFinset]

section Search

variable (hfit : Fits ctx)

include hfit

theorem Holds.findMCSOverGatesByGrow (h : Holds ctx hd t f) (hp : Prepared t)
    (hfreed : ctx.tr.FreedBad gates.toFinset) :
    Meets (Corrects ctx hd t gates) RunsOut (f.findMCSOverGatesByGrow ctx gates) := by
  have hmss : (negateGateSet ctx gates).toFinset = ctx.tr.gateIDs.toFinset \ gates.toFinset := toFinset_negateGates _ _
  have hgrow : Meets (fun p ↦ Holds ctx hd t p.2 ∧ p.1 ⊆ ctx.tr.gateIDs ∧ negateGateSet ctx gates ⊆ p.1 ∧
      ¬ SafeGates ctx.tr p.1.toFinset) RunsOut
      (ctx.tr.gateIDs.foldlM (growWith ctx (negateGateSet ctx gates)) (negateGateSet ctx gates, f)) := by
    refine foldlM_meets (fun _ (p : List ℕ × CAIVCFinder) ↦ Holds ctx hd t p.2 ∧ p.1 ⊆ ctx.tr.gateIDs ∧
      negateGateSet ctx gates ⊆ p.1 ∧ ¬ SafeGates ctx.tr p.1.toFinset) _ ⟨h, ?_, List.Subset.refl _, ?_⟩ ?_
    · exact fun gate hg ↦ (mem_negateGates.mp hg).1
    · rw [hmss]
      exact (hfit.dual.iff _).mp hfreed
    · intro done gate rest p hl hinv
      obtain ⟨hholds, hin, hkept, hunsafe⟩ := hinv
      have hmem : gate ∈ ctx.tr.gateIDs := hl ▸ List.mem_append_right done List.mem_cons_self
      unfold growWith
      split
      · exact ⟨hholds, hin, hkept, hunsafe⟩
      · have hin' : p.1 ++ [gate] ⊆ ctx.tr.gateIDs := List.append_subset.mpr
          ⟨hin, List.cons_subset.mpr ⟨hmem, List.nil_subset _⟩⟩
        refine (hholds.isIVC hfit hin').bind fun r hr ↦ ?_
        obtain ⟨ivc, f'⟩ := r
        obtain ⟨hsafe, hholds'⟩ := hr
        cases ivc with
        | true => exact ⟨hholds', hin, hkept, hunsafe⟩
        | false =>
          refine ⟨hholds', hin', List.subset_append_of_subset_left _ hkept, fun hno ↦ ?_⟩
          exact Bool.false_ne_true (hsafe.mpr hno)
  unfold CAIVCFinder.findMCSOverGatesByGrow
  refine hgrow.bind fun p hp' ↦ ?_
  obtain ⟨mss, f'⟩ := p
  obtain ⟨hholds, hin, hkept, hunsafe⟩ := hp'
  refine ⟨fun gate hg ↦ ?_, ?_, t.fallen, t.bounded, hholds, List.subset_append_of_subset_left _ hp⟩
  · obtain ⟨hgate, hno⟩ := mem_negateGates.mp hg
    by_contra hout
    exact hno (hkept (mem_negateGates.mpr ⟨hgate, hout⟩))
  · have hset : (negateGateSet ctx mss).toFinset = ctx.tr.gateIDs.toFinset \ mss.toFinset := toFinset_negateGates _ _
    rw [hset]
    refine hfit.dual.bad_compl (fun gate hg ↦ ?_) hunsafe
    exact List.mem_toFinset.mpr (hin (List.mem_toFinset.mp hg))

/-- The search falls back to IC3, which has found no set that the gates have. -/
theorem Holds.findApproxMCSOverGates (h : Holds ctx hd t f) (hp : Prepared t) (hsub : gates ⊆ ctx.tr.gateIDs)
    (hlen : gates.length ≤ ctx.tr.gateIDs.length) (hfreed : ctx.tr.FreedBad gates.toFinset)
    (hopen : Unblocked t.sets gates.toFinset) :
    Meets (Corrects ctx hd t gates) RunsOut (f.findApproxMCSOverGates ctx gates) := by
  have hsearch : Meets _ RunsOut (f.approxFinder.findAndBlockOverGates ctx.engines ctx.fuel ctx.opts.arBMCKMax
      ctx.opts.arBMCNMax f.vars gates) :=
    h.approx.findAndBlockOverGates h.vars hfit.gates hfit.few ⟨.inl rfl, .inr rfl⟩
      (fun hno ↦ absurd hno (Nat.not_le.mpr hfit.shallow.2)) hfit.fuel hfit.nothing hsub hlen _
  unfold CAIVCFinder.findApproxMCSOverGates
  refine hsearch.bind fun r hr ↦ ?_
  obtain ⟨result, approxFinder, vars⟩ := r
  obtain ⟨hanswer, hmade, fallen, bounded, happrox, hfallen⟩ := hr
  cases result with
  | none => exact absurd (hopen.anti hp) (hanswer _ (Finset.Subset.refl _) hfreed)
  | some corr =>
    have hsome : nonempty (some corr) = true :=
      nonempty_of_freedBad hfit.nothing fun c hc ↦ Option.some.inj hc ▸ hanswer.2
    have hne : (!corr.isEmpty) = true := hsome
    dsimp only
    rw [hne, ensure_true, ok_bind]
    refine ⟨hanswer.1, hanswer.2, fallen, bounded, { h.later hmade with approx := happrox }, fun u hu ↦ ?_⟩
    cases List.mem_append.mp (hfallen hu) with
    | inl hu => exact List.mem_append_left _ (hp hu)
    | inr hu => exact List.mem_append_right _ hu

theorem Holds.findCorrectionSetOverGates (hmode : Searches ctx) (h : Holds ctx hd t f) (hp : Prepared t)
    (hsub : gates ⊆ ctx.tr.gateIDs) (hlen : gates.length ≤ ctx.tr.gateIDs.length)
    (hfreed : ctx.tr.FreedBad gates.toFinset) (hopen : Unblocked t.sets gates.toFinset) :
    Meets (Corrects ctx hd t gates) RunsOut (f.findCorrectionSetOverGates ctx gates) := by
  have hsome : nonempty (some gates) = true :=
    nonempty_of_freedBad hfit.nothing fun c hc ↦ Option.some.inj hc ▸ hfreed
  have hne : (!gates.isEmpty) = true := hsome
  unfold CAIVCFinder.findCorrectionSetOverGates
  rw [hne, ensure_true, ok_bind]
  by_cases hgrow : ctx.opts.growMCS = true
  · rw [if_pos hgrow]
    exact h.findMCSOverGatesByGrow hfit hp hfreed
  · rw [if_neg hgrow]
    by_cases hsimple : ctx.opts.simpleMCS = true
    · rw [if_pos hsimple]
      exact ⟨List.Subset.refl _, hfreed, t.fallen, t.bounded, h, List.subset_append_of_subset_left _ hp⟩
    · rw [if_neg hsimple, if_pos ((hmode.mode.resolve_left hgrow).resolve_left hsimple)]
      exact h.findApproxMCSOverGates hfit hp hsub hlen hfreed hopen

end Search

theorem Holds.addSet (h : Holds ctx hd t f) (hno : ¬ ctx.tr.FreedBad ∅) (hopen : ∅ ∉ t.refused)
    (hsub : corr ⊆ ctx.tr.gateIDs) (hfreed : ctx.tr.FreedBad corr.toFinset)
    (hdisj : Disjoint corr.toFinset t.necessary.toFinset) :
    Meets (Holds ctx hd { t with sets := t.sets ++ [corr.toFinset] }) RunsOut (f.addClause corr) := by
  have hbase : corr.toFinset ⊆ ctx.tr.gateIDs.toFinset := fun g hg ↦
    List.mem_toFinset.mpr (hsub (List.mem_toFinset.mp hg))
  have hadd : Meets _ RunsOut _ :=
    h.solver.addSet h.vars hopen (ApproximateMCSFinder.ne_nil_of_freedBad hno hfreed) hsub
  unfold CAIVCFinder.addClause
  refine hadd.bind fun solver hsolver ↦ ?_
  exact { h with
    solver := hsolver
    sets := List.forall_mem_append.mpr ⟨h.sets, List.forall_mem_singleton.mpr ⟨hbase, hfreed, hdisj⟩⟩ }

def Progress (ctx : CAIVCContext) (hd : Debugs ctx.tr n d) (P : Told → Prop) (left : Told → ℕ) (t : Told)
    (done : CAIVCFinder → Prop) : CAIVCFinder ⊕ CAIVCFinder → Prop
  | .inl f' => ∃ t', Holds ctx hd t' f' ∧ P t' ∧ left t' < left t
  | .inr f' => done f'

theorem loop_told {P : Told → Prop} {left : Told → ℕ} {done : CAIVCFinder → Prop}
    {body : CAIVCFinder → Result (CAIVCFinder ⊕ CAIVCFinder)}
    (hbody : ∀ t f, Holds ctx hd t f → P t → Meets (Progress ctx hd P left t done) RunsOut (body f))
    (h : Holds ctx hd t f) (hP : P t) (hleft : left t ≤ 2 ^ ctx.tr.gateIDs.length) :
    Meets done RunsOut (loop .outOfFuel body (passes ctx) f) := by
  refine loop_meets_of_rank (fun rank f ↦ ∃ t, Holds ctx hd t f ∧ P t ∧ left t = rank) ?_ _ ⟨t, h, hP, rfl⟩
    (Nat.lt_succ_of_le hleft)
  intro rank f hf
  obtain ⟨t, hf, hP, rfl⟩ := hf
  refine (hbody t f hf hP).imp fun r hr ↦ ?_
  cases r with
  | inl f' =>
    obtain ⟨t', hf', hP', hlt⟩ := hr
    exact ⟨_, hlt, t', hf', hP', rfl⟩
  | inr f' => exact hr

theorem two_pow_card_le : 2 ^ ctx.tr.gateIDs.toFinset.card ≤ 2 ^ ctx.tr.gateIDs.length :=
  Nat.pow_le_pow_right Nat.two_pos (List.toFinset_card_le _)

noncomputable def candidatesLeft (ctx : CAIVCContext) (t : Told) : ℕ :=
  choices t.sets t.refused ctx.tr.gateIDs.toFinset

theorem Candidate.blocked_lt {candidate : List ℕ} (hc : Candidate ctx t candidate) :
    candidatesLeft ctx { t with found := t.found ++ [candidate.toFinset] } < candidatesLeft ctx t := by
  unfold candidatesLeft Told.refused
  rw [List.map_append, List.map_singleton]
  exact choices_block_lt (Finset.sdiff_subset.trans hc.toFinset_subset) hc.rest

/-- Exactly the minimal safe gate sets have been reported, in the order of their size. -/
structure Finished (ctx : CAIVCContext) (f : CAIVCFinder) : Prop where
  all : f.ReportsAll ctx.tr
  sorted : (f.mivcs.map List.toFinset).Pairwise fun u v ↦ u.card ≤ v.card
  minimum : f.MinimumRight

theorem Holds.finished (hfit : Fits ctx) (h : Holds ctx hd t f)
    (hnone : ∀ s, ¬ Admissible (t.singles ++ t.sets) t.found s) : Finished ctx f := by
  obtain ⟨c, horder⟩ := h.order
  have hall : f.ReportsAll ctx.tr := ⟨h.mivcs_nodup, h.mivcs ▸ hfit.dual.complete horder h.freed hnone⟩
  have hsorted := horder.sorted
  rw [← h.mivcs] at hsorted
  refine ⟨hall, hsorted, ?_⟩
  unfold IVCFinder.MinimumRight
  rw [h.minimum]
  cases hm : f.mivcs with
  | nil =>
    have hcomplete := hall.2
    rw [hm] at hcomplete
    exact absurd rfl (hcomplete.ne_nil hfit.whole)
  | cons mivc mivcs =>
    have hnodup := h.mivcs_nodup
    rw [hm] at hsorted hnodup
    refine ⟨List.mem_cons_self, List.forall_mem_cons.mpr ⟨le_rfl, fun s hs ↦ ?_⟩⟩
    have hle := (List.pairwise_cons.mp hsorted).1 s.toFinset (List.mem_map_of_mem hs)
    rw [List.toFinset_card_of_nodup (hnodup mivc List.mem_cons_self),
      List.toFinset_card_of_nodup (hnodup s (List.mem_cons_of_mem _ hs))] at hle
    exact hle

/-- Outside a candidate that is not safe there is a correction set that contains none found before. -/
theorem Candidate.outside (hfit : Fits ctx) {candidate : List ℕ} (hc : Candidate ctx t candidate)
    (hno : ¬ SafeGates ctx.tr candidate.toFinset) :
    ctx.tr.FreedBad (negateGateSet ctx candidate).toFinset ∧
      Unblocked t.sets (negateGateSet ctx candidate).toFinset := by
  have hset : (negateGateSet ctx candidate).toFinset = ctx.tr.gateIDs.toFinset \ candidate.toFinset :=
    toFinset_negateGates _ _
  rw [hset]
  refine ⟨hfit.dual.bad_compl hc.toFinset_subset hno, ?_⟩
  exact Hits.unblocked_compl fun s hs ↦ hc.minimum.1.1 s (List.mem_append_right _ hs)

theorem Corrects.ruleOut (hfit : Fits ctx) {candidate : List ℕ} (hc : Candidate ctx t candidate)
    {r : CorrectionSet × CAIVCFinder} (h : Corrects ctx hd t (negateGateSet ctx candidate) r) :
    ∃ t', Prepared t' ∧ candidatesLeft ctx t' < candidatesLeft ctx t ∧
      Meets (Holds ctx hd t') RunsOut (r.2.addClause r.1) := by
  obtain ⟨fallen, bounded, hholds, hfallen⟩ := h.holds
  have hneg : negateGateSet ctx candidate ⊆ ctx.tr.gateIDs := fun g hg ↦ (mem_negateGates.mp hg).1
  have hmiss : ∀ gate ∈ r.1.toFinset, gate ∉ candidate.toFinset := by
    intro gate hg hcand
    have hout := h.subset (List.mem_toFinset.mp hg)
    exact (mem_negateGates.mp hout).2 (List.mem_toFinset.mp hcand)
  have hdisj : Disjoint r.1.toFinset t.necessary.toFinset :=
    Finset.disjoint_left.mpr fun gate hg hneed ↦ hmiss gate hg (hc.necessary hneed)
  have hadd := hholds.addSet hfit.nothing hc.open_refused (List.Subset.trans h.subset hneg) h.freed hdisj
  refine ⟨{ t with fallen := fallen, bounded := bounded, sets := t.sets ++ [r.1.toFinset] }, hfallen, ?_, hadd⟩
  refine choices_add_lt (Finset.sdiff_subset.trans hc.toFinset_subset) hc.rest fun gate hg hcand ↦ ?_
  exact hmiss gate hg (Finset.mem_sdiff.mp hcand).1

theorem refinePass_meets (hfit : Fits ctx) (hmode : Searches ctx) (t : Told) (f : CAIVCFinder)
    (h : Holds ctx hd t f) (hp : Prepared t) :
    Meets (Progress ctx hd Prepared (candidatesLeft ctx) t (Finished ctx)) RunsOut (refinePass ctx f) := by
  unfold refinePass
  refine (h.findCandidateMIVC hfit).bind fun r hr ↦ ?_
  obtain ⟨found, f₁⟩ := r
  obtain ⟨h₁, hnone, hsome⟩ := hr
  cases found with
  | none => exact h₁.finished hfit (hnone rfl)
  | some candidate =>
    have hc := hsome candidate rfl
    refine (h₁.isIVC hfit hc.subset).bind fun r hr ↦ ?_
    obtain ⟨ivc, f₂⟩ := r
    obtain ⟨hsafe, h₂⟩ := hr
    cases ivc with
    | true =>
      have hblock := blockMIVC_meets (g := f₂.recordMIVC candidate) h₂ hc rfl rfl rfl
      refine hblock.bind fun f₃ h₃ ↦ ?_
      obtain ⟨solver, rfl, hserves⟩ := h₃
      exact ⟨_, h₂.recordMIVC hfit hc (hsafe.mp rfl) hserves, hp, hc.blocked_lt⟩
    | false =>
      have hno : ¬ SafeGates ctx.tr candidate.toFinset := fun hgood ↦ Bool.false_ne_true (hsafe.mpr hgood)
      have hneg : negateGateSet ctx candidate ⊆ ctx.tr.gateIDs := fun g hg ↦ (mem_negateGates.mp hg).1
      obtain ⟨hfreed, hopen⟩ := hc.outside hfit hno
      refine (h₂.findCorrectionSetOverGates hfit hmode hp hneg (List.length_filter_le _ _) hfreed hopen).bind
        fun r hr ↦ ?_
      obtain ⟨t', hp', hlt, hadd⟩ := hr.ruleOut hfit hc
      obtain ⟨corr, f₃⟩ := r
      exact hadd.bind fun f₄ h₄ ↦ ⟨t', h₄, hp', hlt⟩

end PME.CAIVCFinder
