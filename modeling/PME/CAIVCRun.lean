import PME.CAIVCRefinement

namespace PME.CAIVCFinder

open Outcome IC3 HittingSets Exploration TransitionRelation DebugTransitionRelation

variable {ctx : CAIVCContext} {n : ℕ} {d : DebugTransitionRelation} {hd : Debugs ctx.tr n d} {t : Told}
  {f : CAIVCFinder} {gate : ℕ}

/-- An insertion into a `std::set`. -/
def Told.addNecessary (t : Told) (gate : ℕ) : Told :=
  if t.necessary.contains gate then t else { t with necessary := t.necessary.orderedInsert (· ≤ ·) gate }

theorem Holds.addNecessary (h : Holds ctx hd t f) (hfound : t.found = []) (hgate : gate ∈ ctx.tr.gateIDs)
    (hfreed : ctx.tr.FreedBad {gate}) (hsets : ∀ s ∈ t.sets, gate ∉ s) :
    Holds ctx hd (t.addNecessary gate) (f.addNecessary gate) := by
  unfold Told.addNecessary CAIVCFinder.addNecessary
  rw [h.necessary]
  by_cases hmem : t.necessary.contains gate = true
  · rw [if_pos hmem, if_pos hmem]
    exact h
  · rw [if_neg hmem, if_neg hmem]
    have hperm := List.perm_orderedInsert (· ≤ ·) gate t.necessary
    have hrefused : Told.refused { t with necessary := t.necessary.orderedInsert (· ≤ ·) gate } = t.refused := by
      unfold Told.refused
      rw [hfound]
      rfl
    exact
      { h with
        necessary := rfl
        solver := by
          rw [hrefused]
          exact h.solver
        nodup := hperm.nodup_iff.mpr (List.nodup_cons.mpr ⟨mt List.contains_iff_mem.mpr hmem, h.nodup⟩)
        needed := fun g hg ↦ by
          cases List.mem_cons.mp (hperm.mem_iff.mp hg) with
          | inl heq => exact heq ▸ ⟨hgate, hfreed⟩
          | inr hg => exact h.needed g hg
        sets := fun s hs ↦ by
          obtain ⟨hsub, hbad, hdisj⟩ := h.sets s hs
          refine ⟨hsub, hbad, Finset.disjoint_left.mpr fun g hg hneed ↦ ?_⟩
          cases List.mem_cons.mp (hperm.mem_iff.mp (List.mem_toFinset.mp hneed)) with
          | inl heq => exact hsets s hs (heq ▸ hg)
          | inr hneed => exact Finset.disjoint_left.mp hdisj hg (List.mem_toFinset.mpr hneed) }

section Upfront

structure Upfront (t : Told) : Prop where
  sets : t.sets = []
  found : t.found = []
  fallen : t.fallen = []

theorem Upfront.addNecessary (h : Upfront t) (gate : ℕ) : Upfront (t.addNecessary gate) := by
  unfold Told.addNecessary
  split
  · exact h
  · exact ⟨h.sets, h.found, h.fallen⟩

noncomputable def upfrontLeft (ctx : CAIVCContext) (t : Told) : ℕ :=
  (⟨if ctx.opts.approxMCS then t.bounded else t.blocked, []⟩ : Explored ℕ).remaining ctx.tr.gateIDs.toFinset

theorem upfrontLeft_addNecessary (gate : ℕ) : upfrontLeft ctx (t.addNecessary gate) = upfrontLeft ctx t := by
  unfold Told.addNecessary
  split <;> rfl

theorem toFinset_subset_gates {corr : CorrectionSet} (h : corr ⊆ ctx.tr.gateIDs) :
    corr.toFinset ⊆ ctx.tr.gateIDs.toFinset := fun _ hg ↦ List.mem_toFinset.mpr (h (List.mem_toFinset.mp hg))

theorem blocked_lt {blocked : List (Finset ℕ)} {s : Finset ℕ} (hs : s ⊆ ctx.tr.gateIDs.toFinset)
    (hopen : Unblocked blocked s) :
    (⟨blocked ++ [s], []⟩ : Explored ℕ).remaining ctx.tr.gateIDs.toFinset <
      (⟨blocked, []⟩ : Explored ℕ).remaining ctx.tr.gateIDs.toFinset :=
  BMCCorrectionSetFinder.remaining_blocked_lt hs hopen

variable (hfit : Fits ctx)

include hfit

theorem Holds.findUpfront (h : Holds ctx hd t f) {m : ℕ} (hm : m ≤ ctx.tr.gateIDs.length) :
    Meets (fun r ↦ ∃ limit blocked bounded,
      Holds ctx hd { t with limit := limit, blocked := blocked, bounded := bounded } r.2 ∧
      ∀ corr, r.1 = some corr → corr ⊆ ctx.tr.gateIDs ∧ ctx.tr.FreedBad corr.toFinset ∧
        upfrontLeft ctx { t with limit := limit, blocked := blocked, bounded := bounded } < upfrontLeft ctx t)
      RunsOut (f.findUpfront ctx m) := by
  unfold CAIVCFinder.findUpfront
  by_cases happrox : ctx.opts.approxMCS = true
  · rw [if_pos happrox]
    have hsearch : Meets _ RunsOut (f.approxFinder.findAndBlockWithBMC ctx.engines ctx.opts.arBMCKMax f.vars m) :=
      h.approx.findAndBlockWithBMC hfit.gates hfit.few ⟨.inl rfl, .inr rfl⟩
        (fun hno ↦ absurd hno (Nat.not_le.mpr hfit.shallow.2)) hfit.nothing hm
    refine hsearch.bind fun r hr ↦ ?_
    obtain ⟨result, approxFinder, vars⟩ := r
    obtain ⟨hanswer, hholds, hmade⟩ := hr
    have hfreed : ∀ corr, result = some corr → ctx.tr.FreedBad corr.toFinset := by
      intro corr hcorr
      rw [hcorr] at hanswer
      exact ApproximateMCSFinder.freedBad_of_within hanswer.2.2.1
    dsimp only at hanswer hholds hmade ⊢
    rw [nonempty_of_freedBad hfit.nothing hfreed, ensure_true, ok_bind]
    refine ⟨t.limit, t.blocked, blockedBy t.bounded result, { h.later hmade with approx := hholds }, fun corr hcorr ↦ ?_⟩
    dsimp only at hcorr
    have hbad := hfreed corr hcorr
    rw [hcorr] at hanswer ⊢
    refine ⟨hanswer.1, hbad, ?_⟩
    unfold upfrontLeft
    simp only [happrox, if_true]
    exact blocked_lt (toFinset_subset_gates hanswer.1) hanswer.2.2.2
  · rw [if_neg happrox]
    refine (h.setCardinality hfit hm).bind fun f₁ h₁ ↦ (h₁.findCorrectionSet hfit).imp fun r hr ↦ ?_
    obtain ⟨result, f₂⟩ := r
    obtain ⟨hanswer, h₂⟩ := hr
    refine ⟨m, blockedBy t.blocked result, t.bounded, h₂, fun corr hcorr ↦ ?_⟩
    dsimp only at hcorr hanswer
    rw [hcorr] at hanswer ⊢
    refine ⟨hanswer.1, hanswer.2.2.1, ?_⟩
    unfold upfrontLeft
    simp only [happrox, if_false, Bool.false_eq_true]
    exact blocked_lt (toFinset_subset_gates hanswer.1) hanswer.2.2.2

/-- The sets that have one gate are noted; the others are found for nothing. -/
theorem upfrontPass_meets {m : ℕ} (hm : m ≤ ctx.tr.gateIDs.length) (t : Told) (f : CAIVCFinder)
    (h : Holds ctx hd t f) (hup : Upfront t) :
    Meets (Progress ctx hd Upfront (upfrontLeft ctx) t fun f' ↦ ∃ t', Holds ctx hd t' f' ∧ Upfront t') RunsOut
      (upfrontPass ctx m f) := by
  unfold upfrontPass
  refine (h.findUpfront hfit hm).bind fun r hr ↦ ?_
  obtain ⟨result, f₁⟩ := r
  obtain ⟨limit, blocked, bounded, h₁, hresult⟩ := hr
  have hup₁ : Upfront { t with limit := limit, blocked := blocked, bounded := bounded } :=
    ⟨hup.sets, hup.found, hup.fallen⟩
  cases result with
  | none => exact ⟨_, h₁, hup₁⟩
  | some corr =>
    obtain ⟨hsub, hfreed, hlt⟩ := hresult corr rfl
    rcases corr with _ | ⟨gate, _ | ⟨gate', corr⟩⟩
    · exact ⟨_, h₁, hup₁, hlt⟩
    · have hsingle : ctx.tr.FreedBad {gate} := hfreed
      refine ⟨_, h₁.addNecessary hup.found (hsub List.mem_cons_self) hsingle ?_, hup₁.addNecessary gate, ?_⟩
      · intro s hs
        have hsets : t.sets = [] := hup.sets
        exact absurd (hsets ▸ hs) List.not_mem_nil
      · rw [upfrontLeft_addNecessary]
        exact hlt
    · exact ⟨_, h₁, hup₁, hlt⟩

theorem abstractionRefinementFindIVCs_meets (hmode : Searches ctx) (h : Holds ctx hd t f) (hup : Upfront t) :
    Meets (Finished ctx) RunsOut (f.abstractionRefinementFindIVCs ctx) := by
  have hupfront : Meets (fun f' ↦ ∃ t', Holds ctx hd t' f' ∧ Upfront t') RunsOut (f.findUpfronts ctx) := by
    refine foldlM_meets (fun _ f' ↦ ∃ t', Holds ctx hd t' f' ∧ Upfront t') f ⟨t, h, hup⟩ ?_
    intro done m rest f' hl hf'
    obtain ⟨t', h', hup'⟩ := hf'
    have hmem : m ∈ List.range' 1 ctx.opts.arUpfrontNMax := hl ▸ List.mem_append_right done List.mem_cons_self
    have hm : m ≤ ctx.tr.gateIDs.length := by
      have hrange := List.mem_range'_1.mp hmem
      have hle := hmode.upfront
      omega
    exact loop_told (upfrontPass_meets hfit hm) h' hup' ((Explored.remaining_le _ _).trans two_pow_card_le)
  unfold CAIVCFinder.abstractionRefinementFindIVCs
  refine hupfront.bind fun f' hf' ↦ ?_
  obtain ⟨t', h', hup'⟩ := hf'
  have hprepared : Prepared t' := by
    unfold Prepared
    rw [hup'.fallen]
    exact List.nil_subset _
  exact loop_told (refinePass_meets hfit hmode) h' hprepared (choices_le.trans two_pow_card_le)

end Upfront

end PME.CAIVCFinder
