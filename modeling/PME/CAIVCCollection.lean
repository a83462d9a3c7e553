import PME.CAIVCRun

namespace PME.CAIVCFinder

open Outcome IC3 HittingSets Exploration TransitionRelation DebugTransitionRelation

variable {ctx : CAIVCContext} {n : ℕ} {d : DebugTransitionRelation} {hd : Debugs ctx.tr n d} {t : Told}
  {f : CAIVCFinder} {corr : CorrectionSet} {gate c : ℕ}

structure Collecting (ctx : CAIVCContext) (c : ℕ) (t : Told) : Prop where
  found : t.found = []
  mem : ∀ s, s ∈ t.blocked ↔ s ∈ t.singles ++ t.sets
  order : SmallestFirst ctx.tr.FreedBad ctx.tr.gateIDs.toFinset t.blocked c
  small : c = 1 → ∀ s ∈ t.sets, s.card = 1

theorem Collecting.single_mem (h : Collecting ctx c t) (hg : gate ∈ t.necessary) : {gate} ∈ t.blocked :=
  (h.mem _).mpr (List.mem_append_left _ (List.mem_map_of_mem hg))

theorem Collecting.set_mem (h : Collecting ctx c t) {s : Finset ℕ} (hs : s ∈ t.sets) : s ∈ t.blocked :=
  (h.mem s).mpr (List.mem_append_right _ hs)

theorem Collecting.not_mem_of_single (h : Collecting ctx c t) (hcard : ({gate} : Finset ℕ).card = c)
    (hopen : Unblocked t.blocked {gate}) : ∀ s ∈ t.sets, gate ∉ s := by
  intro s hs hg
  have hc : c = 1 := hcard.symm.trans (Finset.card_singleton gate)
  obtain ⟨a, rfl⟩ := Finset.card_eq_one.mp (h.small hc s hs)
  rw [Finset.mem_singleton] at hg
  exact hopen _ (h.set_mem hs) (hg ▸ Finset.Subset.refl _)

theorem Collecting.addNecessary (h : Collecting ctx c t) (hopen : Unblocked t.blocked {gate})
    (hnew : SmallestFirst ctx.tr.FreedBad ctx.tr.gateIDs.toFinset (t.blocked ++ [{gate}]) c) :
    Collecting ctx c (Told.addNecessary { t with blocked := t.blocked ++ [{gate}] } gate) := by
  have hno : gate ∉ t.necessary := fun hg ↦ hopen _ (h.single_mem hg) (Finset.Subset.refl _)
  unfold Told.addNecessary
  rw [if_neg (mt List.contains_iff_mem.mp hno)]
  refine ⟨h.found, fun s ↦ ?_, hnew, h.small⟩
  have hsingles : s ∈ Told.singles { t with necessary := t.necessary.orderedInsert (· ≤ ·) gate } ↔
      s = {gate} ∨ s ∈ t.singles := by
    have hperm := (List.perm_orderedInsert (· ≤ ·) gate t.necessary).map fun g ↦ ({g} : Finset ℕ)
    exact hperm.mem_iff.trans List.mem_cons
  rw [List.mem_append, List.mem_singleton, h.mem, List.mem_append, List.mem_append]
  refine Iff.trans ?_ (or_congr_left hsingles).symm
  rw [or_comm, or_assoc]

theorem Collecting.addSet (h : Collecting ctx c t) {s : Finset ℕ} (hcard : s.card = c)
    (hnew : SmallestFirst ctx.tr.FreedBad ctx.tr.gateIDs.toFinset (t.blocked ++ [s]) c) :
    Collecting ctx c { t with blocked := t.blocked ++ [s], sets := t.sets ++ [s] } where
  found := h.found
  mem u := by
    show u ∈ t.blocked ++ [s] ↔ u ∈ t.singles ++ (t.sets ++ [s])
    rw [← List.append_assoc, List.mem_append, List.mem_append, h.mem]
  order := hnew
  small hc := List.forall_mem_append.mpr ⟨h.small hc, List.forall_mem_singleton.mpr (hcard.trans hc)⟩

noncomputable def setsLeft (ctx : CAIVCContext) (t : Told) : ℕ :=
  (⟨t.blocked, []⟩ : Explored ℕ).remaining ctx.tr.gateIDs.toFinset

def CollectingAt (ctx : CAIVCContext) (c : ℕ) (t : Told) : Prop := Collecting ctx c t ∧ t.limit = c

def CollectedAt (ctx : CAIVCContext) (hd : Debugs ctx.tr n d) (c : ℕ) (f : CAIVCFinder) : Prop :=
  ∃ t, Holds ctx hd t f ∧ Collecting ctx c t ∧ Covers ctx.tr.FreedBad ctx.tr.gateIDs.toFinset t.blocked c

def Known (ctx : CAIVCContext) (t : Told) : Prop :=
  ∀ s ⊆ ctx.tr.gateIDs.toFinset, ctx.tr.FreedBad s → ¬ Unblocked (t.singles ++ t.sets) s

section Collect

variable (hfit : Fits ctx)

include hfit

theorem collectPass_meets (t : Told) (f : CAIVCFinder) (h : Holds ctx hd t f) (hP : CollectingAt ctx c t) :
    Meets (Progress ctx hd (CollectingAt ctx c) (setsLeft ctx) t (CollectedAt ctx hd c)) RunsOut
      (collectPass ctx f) := by
  obtain ⟨hc, hlimit⟩ := hP
  unfold collectPass
  refine (h.findCorrectionSet hfit).bind fun r hr ↦ ?_
  obtain ⟨result, f₁⟩ := r
  obtain ⟨hanswer, h₁⟩ := hr
  cases result with
  | none =>
    rw [BasicMCSFinder.blockedBy_none] at h₁
    exact ⟨t, h₁, hc, hlimit ▸ hanswer⟩
  | some corr =>
    obtain ⟨hsub, hle, hfreed, hopen⟩ := hanswer
    rw [hlimit] at hle
    have hbase := toFinset_subset_gates hsub
    have hcard := hc.order.card_eq hbase hle hfreed hopen
    have hnew := hc.order.add hbase hle hfreed hopen
    have hlt := blocked_lt hbase hopen
    have hclause : Meets (Progress ctx hd (CollectingAt ctx c) (setsLeft ctx) t (CollectedAt ctx hd c)) RunsOut (do
        return .inl (← f₁.addClause corr)) := by
      have hadd : Meets (Holds ctx hd { t with
          blocked := t.blocked ++ [corr.toFinset], sets := t.sets ++ [corr.toFinset] }) RunsOut (f₁.addClause corr) := by
        refine h₁.addSet hfit.nothing ?_ hsub hfreed (Finset.disjoint_left.mpr fun g hg hneed ↦ ?_)
        · show ∅ ∉ t.found.map (· \ t.necessary.toFinset)
          rw [hc.found]
          exact List.not_mem_nil
        · exact hopen _ (hc.single_mem (List.mem_toFinset.mp hneed)) (Finset.singleton_subset_iff.mpr hg)
      exact hadd.bind fun f' h' ↦ ⟨_, h', ⟨hc.addSet hcard hnew, hlimit⟩, hlt⟩
    rcases corr with _ | ⟨gate, _ | ⟨gate', corr⟩⟩
    · exact hclause
    · have hsets := hc.not_mem_of_single hcard hopen
      refine ⟨_, h₁.addNecessary hc.found (hsub List.mem_cons_self) hfreed hsets, ⟨hc.addNecessary hopen hnew, ?_⟩, ?_⟩
      · unfold Told.addNecessary
        split <;> exact hlimit
      · unfold Told.addNecessary
        split <;> exact hlt
    · exact hclause

def Turned (ctx : CAIVCContext) (hd : Debugs ctx.tr n d) (c : ℕ) : (CAIVCFinder × ℕ) ⊕ CAIVCFinder → Prop
  | .inl p => p.2 = c + 1 ∧ p.2 ≤ ctx.tr.gateIDs.length ∧ ∃ t, Holds ctx hd t p.1 ∧ Collecting ctx p.2 t
  | .inr f => ∃ t, Holds ctx hd t f ∧ Known ctx t

theorem cardinalityPass_meets (h : Holds ctx hd t f) (hc : Collecting ctx c t) (hpos : 1 ≤ c)
    (hle : c ≤ ctx.tr.gateIDs.length) : Meets (Turned ctx hd c) RunsOut (cardinalityPass ctx (f, c)) := by
  unfold cardinalityPass
  refine (h.setCardinality hfit hle).bind fun f₁ h₁ ↦ ?_
  have hstart : CollectingAt ctx c { t with limit := c } := ⟨⟨hc.found, hc.mem, hc.order, hc.small⟩, rfl⟩
  have hloop : Meets (CollectedAt ctx hd c) RunsOut (loop .outOfFuel (collectPass ctx) (passes ctx) f₁) :=
    loop_told (collectPass_meets hfit) h₁ hstart ((Explored.remaining_le _ _).trans two_pow_card_le)
  refine hloop.bind fun f₂ h₂ ↦ ?_
  obtain ⟨t₂, h₂, hc₂, hcovers⟩ := h₂
  refine (h₂.moreCorrectionSets hfit).bind fun r hr ↦ ?_
  obtain ⟨more, f₃⟩ := r
  obtain ⟨hmore, h₃⟩ := hr
  cases more with
  | true =>
    obtain ⟨s, hs, hfreed, hopen⟩ := hmore.mp rfl
    have hlt : c < s.card := Nat.lt_of_not_le fun hcard ↦ hcovers s hs hcard hfreed hopen
    have hcard := (Finset.card_le_card hs).trans (List.toFinset_card_le ctx.tr.gateIDs)
    refine ⟨rfl, by omega, t₂, h₃, hc₂.found, hc₂.mem, hc₂.order.raise hcovers, fun hone ↦ ?_⟩
    exact absurd hone (by omega)
  | false =>
    refine ⟨t₂, h₃, fun s hs hfreed hopen ↦ Bool.false_ne_true (hmore.mpr ⟨s, hs, hfreed, fun u hu ↦ ?_⟩)⟩
    exact hopen u ((hc₂.mem u).mp hu)

/-- A candidate is safe when all correction sets are known, and is reported. -/
theorem mivcPass_meets (t : Told) (f : CAIVCFinder) (h : Holds ctx hd t f) (hknown : Known ctx t) :
    Meets (Progress ctx hd (Known ctx) (candidatesLeft ctx) t (Finished ctx)) RunsOut (mivcPass ctx f) := by
  unfold mivcPass findAndBlockCandidateMIVC
  rw [bind_assoc]
  refine (h.findCandidateMIVC hfit).bind fun r hr ↦ ?_
  obtain ⟨found, f₁⟩ := r
  obtain ⟨h₁, hnone, hsome⟩ := hr
  cases found with
  | none => exact h₁.finished hfit (hnone rfl)
  | some candidate =>
    have hc := hsome candidate rfl
    have hsafe := hfit.dual.good_of_hits hc.toFinset_subset hknown hc.minimum.1.1
    dsimp only
    rw [bind_assoc]
    refine (blockMIVC_meets h₁ hc rfl rfl rfl).bind fun f₂ h₂ ↦ ?_
    obtain ⟨solver, rfl, hserves⟩ := h₂
    exact ⟨_, h₁.recordMIVC hfit hc hsafe hserves, hknown, hc.blocked_lt⟩

theorem naiveFindIVCs_meets (h : Holds ctx hd t f) (hup : Upfront t) (hempty : t.blocked = [])
    (hnecessary : t.necessary = []) : Meets (Finished ctx) RunsOut (f.naiveFindIVCs ctx) := by
  have hstart : Collecting ctx 1 t := by
    refine ⟨hup.found, fun s ↦ ?_, ?_, fun _ s hs ↦ absurd (hup.sets ▸ hs) List.not_mem_nil⟩
    · unfold Told.singles
      rw [hempty, hnecessary, hup.sets]
      exact Iff.rfl
    · rw [hempty]
      exact smallestFirst_nil hfit.nothing
  have hcollect : Meets (fun f' ↦ ∃ t', Holds ctx hd t' f' ∧ Known ctx t') RunsOut
      (loop .outOfFuel (cardinalityPass ctx) (passes ctx) (f, 1)) := by
    refine loop_meets_of_rank (fun rank p ↦ ∃ t', Holds ctx hd t' p.1 ∧ Collecting ctx p.2 t' ∧ 1 ≤ p.2 ∧
      p.2 ≤ ctx.tr.gateIDs.length ∧ ctx.tr.gateIDs.length - p.2 = rank) ?_ _
      ⟨t, h, hstart, le_rfl, List.length_pos_iff.mpr hfit.gates, rfl⟩ ?_
    · intro rank p hp
      obtain ⟨t', h', hc', hpos, hle, rfl⟩ := hp
      refine (cardinalityPass_meets hfit h' hc' hpos hle).imp fun r hr ↦ ?_
      cases r with
      | inl p' =>
        obtain ⟨hnext, hle', t'', h'', hc''⟩ := hr
        exact ⟨_, by omega, t'', h'', hc'', by omega, hle', rfl⟩
      | inr f' => exact hr
    · have hlt := Nat.lt_two_pow_self (n := ctx.tr.gateIDs.length)
      unfold passes
      omega
  unfold CAIVCFinder.naiveFindIVCs
  refine hcollect.bind fun f' hf' ↦ ?_
  obtain ⟨t', h', hknown⟩ := hf'
  exact loop_told (mivcPass_meets hfit) h' hknown (choices_le.trans two_pow_card_le)

end Collect

end PME.CAIVCFinder
