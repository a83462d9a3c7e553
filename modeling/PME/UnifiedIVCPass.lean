import PME.UnifiedIVC

namespace PME

open Outcome Exploration Explored

structure IsCorrectionSet (tr : TransitionRelation) (corr : Seed) : Prop where
  nonempty : corr ≠ []
  gates : corr ⊆ tr.gateIDs
  bad : ¬ SafeGates tr (tr.gateIDs.toFinset \ corr.toFinset)

def NextCorrectionSet (tr : TransitionRelation) (found : List (Finset ℕ)) (gates : List ℕ) :
    Option Seed → Prop
  | some corr => IsCorrectionSet tr corr ∧ corr ⊆ gates
  | none => ∀ corr ⊆ gates, IsCorrectionSet tr corr → ∃ u ∈ found, u ⊆ corr.toFinset

/-- What the search relies on: a finder remembers what it has found, and then finds another
correction set among the given gates when there is one. -/
structure CorrectionSetFinder.Exact {F : Type} (C : CorrectionSetFinder F) (tr : TransitionRelation)
    (Rep : List (Finset ℕ) → F → Prop) (fail : Failure → Prop) : Prop where
  findNext : ∀ {found x gates}, Rep found x → gates ⊆ tr.gateIDs →
    Meets (fun r ↦ NextCorrectionSet tr found gates r.1 ∧
      Rep (found ++ r.1.toList.map List.toFinset) r.2) fail (C.findNext x gates)
  findAll : ∀ {found x} n, Rep found x →
    Meets (fun r ↦ (∀ corr ∈ r.1, IsCorrectionSet tr corr) ∧
      Rep (found ++ r.1.map List.toFinset) r.2) fail (C.findAll x n)
  findBatch : ∀ {found x} n, Rep found x →
    Meets (fun r ↦ (∀ corr ∈ r.1, IsCorrectionSet tr corr) ∧
      Rep (found ++ r.1.map List.toFinset) r.2) fail (C.findBatch x n)

structure UnifiedIVCContext.Exact {M F : Type} (ctx : UnifiedIVCContext M F) : Prop where
  checker : ∀ seed ⊆ ctx.tr.gateIDs, ∀ expectSafe,
    (ctx.checker seed expectSafe = true ↔ SafeGates ctx.tr seed.toFinset)
  shrinkUC : ∀ seed : Seed, seed.Nodup → SafeGates ctx.tr seed.toFinset →
    (ctx.shrinkUC seed).Nodup ∧ ctx.shrinkUC seed ⊆ seed ∧
      SafeGates ctx.tr (ctx.shrinkUC seed).toFinset

theorem CorrectionSetFinder.Exact.weaken {F : Type} {C : CorrectionSetFinder F}
    {tr : TransitionRelation} {Rep : List (Finset ℕ) → F → Prop} {fail fail' : Failure → Prop}
    (h : C.Exact tr Rep fail) (hf : ∀ e, fail e → fail' e) : C.Exact tr Rep fail' where
  findNext hx hgates := (h.findNext hx hgates).weaken hf
  findAll n hx := (h.findAll n hx).weaken hf
  findBatch n hx := (h.findBatch n hx).weaken hf

namespace UnifiedIVCFinder

variable {M F : Type} (ctx : UnifiedIVCContext M F) (Rep : (Finset ℕ → Prop) → M → Prop)
  (CsRep : List (Finset ℕ) → F → Prop)

def allGates : Finset ℕ := ctx.tr.gateIDs.toFinset

def gateSet : List ℕ := idSet ctx.tr.gateIDs

structure Keeps (e : Explored ℕ) (f : UnifiedIVCFinder M F) : Prop where
  map : Rep e.Unexplored f.map
  checkMap : SATArbitraryMapSolver.Rep (gateSet ctx) e.Unexplored f.checkMap
  sound : e.Sound (SafeGates ctx.tr) (allGates ctx)
  mivcs : f.mivcs.map List.toFinset = e.found
  nodup : ∀ s ∈ f.mivcs, s.Nodup
  smallest : KeepsSmallest f.mivcs f.smallestIVC
  lb : ∀ t ⊆ allGates ctx, e.Unexplored t → f.mivcLB ≤ t.card

structure Knows (e : Explored ℕ) (f : UnifiedIVCFinder M F) : Prop extends Keeps ctx Rep e f where
  csFinder : ∃ found, CsRep found f.csFinder ∧
    ∀ u ∈ found, ∃ d ∈ e.refuted, allGates ctx \ u ⊆ d

structure Parts (fail : Failure → Prop) : Prop where
  wellFormed : ctx.tr.WellFormed
  exact : ctx.Exact
  checks : shouldCheckSafety ctx = true
  map : ctx.mapSolver.Blocks (gateSet ctx) Rep
  csFinder : ctx.csFinder.Exact ctx.tr CsRep fail

variable {ctx Rep CsRep} {fail : Failure → Prop} {e : Explored ℕ} {f f' : UnifiedIVCFinder M F}
  {seed : Seed}

theorem toFinset_gateSet : (gateSet ctx).toFinset = allGates ctx := toFinset_idSet ctx.tr.gateIDs

theorem toFinset_subset_allGates : seed.toFinset ⊆ allGates ctx ↔ seed ⊆ ctx.tr.gateIDs :=
  ⟨fun h _ hg ↦ List.mem_toFinset.mp (h (List.mem_toFinset.mpr hg)),
    fun h _ hg ↦ List.mem_toFinset.mpr (h (List.mem_toFinset.mp hg))⟩

theorem Parts.monotone (h : Parts ctx Rep CsRep fail) : Monotone (SafeGates ctx.tr) :=
  monotone_safeGates h.wellFormed

theorem Parts.isSafe_iff (h : Parts ctx Rep CsRep fail) (hsub : seed ⊆ ctx.tr.gateIDs)
    (expectSafe : Bool) : isSafe ctx seed expectSafe = true ↔ SafeGates ctx.tr seed.toFinset := by
  unfold isSafe
  rw [h.checks]
  exact h.exact.checker seed hsub expectSafe

theorem toFinset_negateSeed : (negateSeed ctx seed).toFinset = allGates ctx \ seed.toFinset :=
  toFinset_negateGates ctx.tr.gateIDs seed

def Checked (ctx : UnifiedIVCContext M F) (e : Explored ℕ) (f f' : UnifiedIVCFinder M F) : Prop :=
  ∃ checkMap, f' = { f with checkMap := checkMap } ∧
    SATArbitraryMapSolver.Rep (gateSet ctx) e.Unexplored checkMap

theorem Knows.checked (h : Knows ctx Rep CsRep e f) : Checked ctx e f f :=
  ⟨f.checkMap, rfl, h.checkMap⟩

theorem Knows.of_checked (h : Knows ctx Rep CsRep e f) (hf : Checked ctx e f f') :
    Knows ctx Rep CsRep e f' := by
  obtain ⟨checkMap, rfl, hcheck⟩ := hf
  exact { h with checkMap := hcheck }

theorem mapKnows_meets (h : Parts ctx Rep CsRep fail) (hf : Checked ctx e f f')
    (hsub : seed ⊆ ctx.tr.gateIDs) :
    Meets (fun r ↦ Checked ctx e f r.2 ∧ (r.1 = true → ¬ e.Unexplored seed.toFinset)) fail
      (mapKnows ctx seed f') := by
  unfold mapKnows
  split
  · obtain ⟨checkMap, rfl, hcheck⟩ := hf
    have hquery := (SATArbitraryMapSolver.blocks (S := ctx.sat) h.map.idSet).checkSeed seed hcheck
    obtain ⟨hrep, hanswer⟩ := hquery
    refine ⟨⟨_, rfl, hrep⟩, fun hknown hopen ↦ ?_⟩
    have heq : (gateSet ctx).toFinset ∩ seed.toFinset = seed.toFinset := by
      rw [toFinset_gateSet]
      exact Finset.inter_eq_right.mpr (toFinset_subset_allGates.mpr hsub)
    rw [heq] at hanswer
    have hno : (!(checkMap.checkSeed ctx.sat seed).1) = true := hknown
    have hsat : (checkMap.checkSeed ctx.sat seed).1 = true := hanswer.mpr hopen
    rw [hsat] at hno
    exact Bool.false_ne_true hno
  · exact ⟨hf, fun hknown ↦ absurd hknown Bool.false_ne_true⟩

/-- What the map knows about a subset of an unexplored seed is that it is not safe. -/
theorem removable_meets (h : Parts ctx Rep CsRep fail) (hk : Knows ctx Rep CsRep e f)
    {t : Finset ℕ} (ht : e.Unexplored t) (hbase : t ⊆ allGates ctx) (seed : Seed)
    (hsub : seed.toFinset ⊆ t) (hf : Checked ctx e f f') :
    Meets (fun r ↦ Checked ctx e f r.2 ∧ (r.1 = true ↔ SafeGates ctx.tr seed.toFinset)) fail
      (removable ctx seed f') := by
  have hgates : seed ⊆ ctx.tr.gateIDs := toFinset_subset_allGates.mp (hsub.trans hbase)
  refine (mapKnows_meets h hf hgates).bind fun r hr ↦ ?_
  obtain ⟨known, f''⟩ := r
  obtain ⟨hf'', hknown⟩ := hr
  dsimp only at hf'' hknown ⊢
  rw [meets_pure]
  refine ⟨hf'', ?_⟩
  cases known with
  | false => exact h.isSafe_iff hgates true
  | true =>
    refine ⟨fun hno ↦ absurd hno Bool.false_ne_true, fun hsafe ↦ ?_⟩
    exact absurd (hk.sound.unexplored_of_subset h.monotone ht hsub hsafe) (hknown rfl)

structure Shrunk (ctx : UnifiedIVCContext M F) (doShrink : Bool) (seed mivc : Seed) : Prop where
  nodup : mivc.Nodup
  sub : mivc ⊆ seed
  core : doShrink = true → ctx.opts.skipUC = false → mivc ⊆ ctx.shrinkUC seed
  kept : doShrink = false → mivc = seed
  minimal : Minimal (SafeGates ctx.tr) mivc.toFinset

theorem shrink_meets (h : Parts ctx Rep CsRep fail) (hk : Knows ctx Rep CsRep e f)
    (ht : e.Unexplored seed.toFinset) (hsub : seed ⊆ ctx.tr.gateIDs) (hnodup : seed.Nodup)
    (hsafe : SafeGates ctx.tr seed.toFinset) :
    Meets (fun r ↦ Checked ctx e f r.2 ∧ Shrunk ctx true seed r.1) fail (shrink ctx f seed) := by
  unfold shrink
  obtain ⟨core, hcore⟩ : ∃ core, core = if ctx.opts.skipUC then seed else ctx.shrinkUC seed :=
    ⟨_, rfl⟩
  have hspec : core.Nodup ∧ core ⊆ seed ∧ SafeGates ctx.tr core.toFinset := by
    rw [hcore]
    split
    · exact ⟨hnodup, List.Subset.refl seed, hsafe⟩
    · exact h.exact.shrinkUC seed hnodup hsafe
  obtain ⟨hcnodup, hcsub, hcsafe⟩ := hspec
  have hbase := toFinset_subset_allGates.mpr hsub
  have htop : core.toFinset ⊆ seed.toFinset := fun g hg ↦
    List.mem_toFinset.mpr (hcsub (List.mem_toFinset.mp hg))
  rw [← hcore]
  refine (shrinkFrom_meets _ h.monotone (fun s x hs hx ↦ removable_meets h hk ht hbase s hs hx) [] core f
    hk.checked htop List.nodup_nil (List.disjoint_nil_left _) hcsafe
    fun _ ha ↦ absurd ha List.not_mem_nil).imp fun r hr ↦ ?_
  obtain ⟨hchecked, hnodup', hsub', hmin⟩ := hr
  rw [List.nil_append] at hsub'
  refine ⟨hchecked, hnodup', fun g hg ↦ hcsub (hsub'.subset hg), fun _ hskip ↦ ?_, nofun,
    hmin⟩
  rw [hskip, if_neg Bool.false_ne_true] at hcore
  exact hcore ▸ hsub'.subset

theorem growFrom_meets (h : Parts ctx Rep CsRep fail) {seedSet : Seed} {gates : List ℕ}
    (hgates : gates ⊆ ctx.tr.gateIDs) (hsub : seed ⊆ ctx.tr.gateIDs) (hf : Checked ctx e f f')
    (hbad : ¬ SafeGates ctx.tr seed.toFinset) :
    Meets (fun r ↦ Checked ctx e f r.2 ∧ seed ⊆ r.1 ∧ ¬ SafeGates ctx.tr r.1.toFinset) fail
      (growFrom ctx seedSet gates seed f') := by
  induction gates generalizing seed f' with
  | nil => exact ⟨hf, List.Subset.refl seed, hbad⟩
  | cons gate gates ih =>
    have hrest : gates ⊆ ctx.tr.gateIDs := fun g hg ↦ hgates (List.mem_cons_of_mem gate hg)
    unfold growFrom
    split
    · exact ih hrest hsub hf hbad
    · have hsub' : seed ++ [gate] ⊆ ctx.tr.gateIDs :=
        List.append_subset.mpr ⟨hsub, List.cons_subset.mpr ⟨hgates List.mem_cons_self, List.nil_subset _⟩⟩
      refine (mapKnows_meets h hf hsub').bind fun r hr ↦ ?_
      obtain ⟨known, f''⟩ := r
      obtain ⟨hf'', -⟩ := hr
      dsimp only at hf'' ⊢
      split
      · exact ih hrest hsub hf'' hbad
      · next hno =>
        rw [Bool.or_eq_true, not_or] at hno
        have hbad' : ¬ SafeGates ctx.tr (seed ++ [gate]).toFinset := fun hsafe ↦
          hno.2 ((h.isSafe_iff hsub' false).mpr hsafe)
        refine (ih hrest hsub' hf'' hbad').imp fun r hr ↦ ?_
        exact ⟨hr.1, fun g hg ↦ hr.2.1 (List.mem_append_left _ hg), hr.2.2⟩

structure Grown (ctx : UnifiedIVCContext M F) (CsRep : List (Finset ℕ) → F → Prop) (e : Explored ℕ)
    (f : UnifiedIVCFinder M F) (seed grown : Seed) (f' : UnifiedIVCFinder M F) : Prop where
  eq : f' = { f with checkMap := f'.checkMap, csFinder := f'.csFinder }
  checkMap : SATArbitraryMapSolver.Rep (gateSet ctx) e.Unexplored f'.checkMap
  csFinder : ∃ found, CsRep found f'.csFinder ∧
    ∀ u ∈ found, (∃ d ∈ e.refuted, allGates ctx \ u ⊆ d) ∨ allGates ctx \ u ⊆ grown.toFinset
  sub : seed.toFinset ⊆ grown.toFinset
  bad : ¬ SafeGates ctx.tr grown.toFinset

def LeavesFull (ctx : UnifiedIVCContext M F) (isMaximal : Bool) (d : Finset ℕ) : Prop :=
  isMaximal = false → ctx.opts.mcsGrow = true → ¬ allGates ctx ⊆ d

theorem not_full_of_isCorrectionSet {corr : Seed} (h : IsCorrectionSet ctx.tr corr) :
    ¬ allGates ctx ⊆ (negateSeed ctx corr).toFinset := by
  rw [toFinset_negateSeed]
  intro hle
  obtain ⟨gate, hgate⟩ := List.exists_mem_of_ne_nil corr h.nonempty
  have hmem := hle (List.mem_toFinset.mpr (h.gates hgate))
  exact (Finset.mem_sdiff.mp hmem).2 (List.mem_toFinset.mpr hgate)

theorem Grown.of_checked (hk : Knows ctx Rep CsRep e f) (hf : Checked ctx e f f') {grown : Seed}
    (hsub : seed ⊆ grown) (hbad : ¬ SafeGates ctx.tr grown.toFinset) :
    Grown ctx CsRep e f seed grown f' := by
  obtain ⟨checkMap, rfl, hcheck⟩ := hf
  obtain ⟨found, hfound, hrefuted⟩ := hk.csFinder
  refine ⟨rfl, hcheck, ⟨found, hfound, fun u hu ↦ .inl (hrefuted u hu)⟩, fun g hg ↦ ?_, hbad⟩
  exact List.mem_toFinset.mpr (hsub (List.mem_toFinset.mp hg))

/-- The complement of an unexplored seed that is not safe is a correction set, and contains none
of those found, so that the finder has an answer, unless the seed has all gates. -/
theorem growByMCS_meets (h : Parts ctx Rep CsRep fail) (hk : Knows ctx Rep CsRep e f)
    (ht : e.Unexplored seed.toFinset) (hsub : seed ⊆ ctx.tr.gateIDs)
    (hbad : ¬ SafeGates ctx.tr seed.toFinset)
    (hall : seed.toFinset = allGates ctx → fail .assertion) :
    Meets (fun r ↦ Grown ctx CsRep e f seed r.1 r.2 ∧ ¬ allGates ctx ⊆ r.1.toFinset) fail
      (growByMCS ctx f seed) := by
  obtain ⟨found, hfound, hrefuted⟩ := hk.csFinder
  have hgates : negateSeed ctx seed ⊆ ctx.tr.gateIDs := fun g hg ↦ (mem_negateGates.mp hg).1
  unfold growByMCS
  refine (h.csFinder.findNext hfound hgates).bind fun r hr ↦ ?_
  obtain ⟨corr, csFinder⟩ := r
  obtain ⟨hnext, hrep⟩ := hr
  dsimp only at hnext hrep ⊢
  cases corr with
  | none =>
    refine hall (Finset.Subset.antisymm (toFinset_subset_allGates.mpr hsub) fun g hg ↦ ?_)
    by_contra hout
    have hmem : g ∈ negateSeed ctx seed :=
      mem_negateGates.mpr ⟨List.mem_toFinset.mp hg, fun hin ↦ hout (List.mem_toFinset.mpr hin)⟩
    have hcorr : IsCorrectionSet ctx.tr (negateSeed ctx seed) := by
      refine ⟨List.ne_nil_of_mem hmem, hgates, ?_⟩
      have heq : allGates ctx \ (allGates ctx \ seed.toFinset) = seed.toFinset :=
        Finset.sdiff_sdiff_eq_self (toFinset_subset_allGates.mpr hsub)
      intro hsafe
      rw [toFinset_negateSeed] at hsafe
      exact hbad (heq ▸ hsafe)
    obtain ⟨u, hu, hle⟩ := hnext _ (List.Subset.refl _) hcorr
    obtain ⟨d, hd, hdu⟩ := hrefuted u hu
    refine ht.2 d hd (Finset.Subset.trans (fun a ha ↦ ?_) hdu)
    refine Finset.mem_sdiff.mpr ⟨toFinset_subset_allGates.mpr hsub ha, fun hau ↦ ?_⟩
    have hneg := hle hau
    rw [toFinset_negateSeed] at hneg
    exact (Finset.mem_sdiff.mp hneg).2 ha
  | some corr =>
    obtain ⟨hcorr, hin⟩ := hnext
    have hne : corr.isEmpty = false := List.isEmpty_eq_false_iff.mpr hcorr.nonempty
    rw [Option.isSome_some, ensure_true, ok_bind, Option.getD_some, hne, Bool.not_false, ensure_true,
      ok_bind, meets_pure]
    refine ⟨⟨rfl, hk.checkMap, ⟨_, hrep, fun u hu ↦ ?_⟩, fun g hg ↦ ?_, ?_⟩, not_full_of_isCorrectionSet hcorr⟩
    · cases List.mem_append.mp hu with
      | inl hu => exact .inl (hrefuted u hu)
      | inr hu =>
        obtain rfl := List.mem_singleton.mp hu
        exact .inr (toFinset_negateSeed ▸ Finset.Subset.refl _)
    · rw [toFinset_negateSeed, Finset.mem_sdiff, List.mem_toFinset]
      refine ⟨toFinset_subset_allGates.mpr hsub hg, fun hc ↦ ?_⟩
      exact (mem_negateGates.mp (hin hc)).2 (List.mem_toFinset.mp hg)
    · rw [toFinset_negateSeed]
      exact hcorr.bad

theorem grow_meets (h : Parts ctx Rep CsRep fail) (hk : Knows ctx Rep CsRep e f)
    (ht : e.Unexplored seed.toFinset) (hsub : seed ⊆ ctx.tr.gateIDs)
    (hbad : ¬ SafeGates ctx.tr seed.toFinset)
    (hall : ctx.opts.mcsGrow = true → seed.toFinset = allGates ctx → fail .assertion) :
    Meets (fun r ↦ Grown ctx CsRep e f seed r.1 r.2 ∧ LeavesFull ctx false r.1.toFinset) fail
      (grow ctx f seed) := by
  unfold grow
  split
  · next hgrow =>
    exact (growByMCS_meets h hk ht hsub hbad (hall hgrow)).imp fun r hr ↦ ⟨hr.1, fun _ _ ↦ hr.2⟩
  · next hgrow =>
    refine (growFrom_meets h (List.Subset.refl _) hsub hk.checked hbad).imp fun r hr ↦ ?_
    exact ⟨.of_checked hk hr.1 hr.2.1 hr.2.2, fun _ hgrow' ↦ absurd hgrow' hgrow⟩

theorem blockUp_meets (h : Parts ctx Rep CsRep fail) (hmap : Rep e.Unexplored f.map)
    (hcheck : SATArbitraryMapSolver.Rep (gateSet ctx) e.Unexplored f.checkMap)
    (hsub : seed ⊆ ctx.tr.gateIDs) :
    Meets (fun f' ↦ f' = { f with map := f'.map, checkMap := f'.checkMap } ∧
      Rep (e.addFound seed.toFinset).Unexplored f'.map ∧
      SATArbitraryMapSolver.Rep (gateSet ctx) (e.addFound seed.toFinset).Unexplored f'.checkMap) fail
      (f.blockUp ctx seed) := by
  have hids : seed ⊆ gateSet ctx := fun g hg ↦ mem_idSet.mpr (hsub hg)
  have hblocks : (SATArbitraryMapSolver.solver ctx.sat).Blocks (gateSet ctx)
    (SATArbitraryMapSolver.Rep (gateSet ctx)) := SATArbitraryMapSolver.blocks h.map.idSet
  unfold blockUp
  refine (h.map.blockUp hmap hids).bind fun map hmap' ↦ ?_
  refine (hblocks.blockUp hcheck hids).bind fun checkMap hcheck' ↦ ?_
  exact ⟨rfl, h.map.congr hmap' fun t _ ↦ unexplored_addFound.symm,
    hblocks.congr hcheck' fun t _ ↦ unexplored_addFound.symm⟩

theorem Keeps.blockDown (h : Parts ctx Rep CsRep fail) (hk : Keeps ctx Rep e f)
    (hbad : ¬ SafeGates ctx.tr seed.toFinset) :
    Meets (fun f' ↦ Keeps ctx Rep (e.addRefuted seed.toFinset) f' ∧
      f' = { f with map := f'.map, checkMap := f'.checkMap }) fail (f.blockDown ctx seed) := by
  have hblocks : (SATArbitraryMapSolver.solver ctx.sat).Blocks (gateSet ctx)
    (SATArbitraryMapSolver.Rep (gateSet ctx)) := SATArbitraryMapSolver.blocks h.map.idSet
  unfold UnifiedIVCFinder.blockDown
  refine (h.map.blockDown hk.map).bind fun map hmap ↦ ?_
  refine (hblocks.blockDown hk.checkMap).bind fun checkMap hcheck ↦ ?_
  exact ⟨⟨h.map.congr hmap fun t _ ↦ unexplored_addRefuted.symm,
    hblocks.congr hcheck fun t _ ↦ unexplored_addRefuted.symm, hk.sound.addRefuted hbad, hk.mivcs,
    hk.nodup, hk.smallest, fun t hbase hopen ↦ hk.lb t hbase (unexplored_addRefuted.mp hopen).1⟩, rfl⟩

/-- An unsafe seed is grown, unless it is maximal, and blocked with its subsets. -/
theorem refineUnsafe_meets (h : Parts ctx Rep CsRep fail) (hk : Knows ctx Rep CsRep e f)
    (ht : e.Unexplored seed.toFinset) (hsub : seed ⊆ ctx.tr.gateIDs)
    (hbad : ¬ SafeGates ctx.tr seed.toFinset) {doGrow : Bool}
    (hall : doGrow = true → ctx.opts.mcsGrow = true → seed.toFinset = allGates ctx →
      fail .assertion) :
    Meets (fun f' ↦ ∃ d, seed.toFinset ⊆ d ∧ LeavesFull ctx (!doGrow) d ∧
      Knows ctx Rep CsRep (e.addRefuted d) f' ∧ f'.toIVCFinder = f.toIVCFinder ∧ f'.seedCount = f.seedCount ∧ f'.mivcLB = f.mivcLB) fail
      (f.refineUnsafe ctx seed doGrow) := by
  have hgrow : Meets (fun r ↦ Grown ctx CsRep e f seed r.1 r.2 ∧
      LeavesFull ctx (!doGrow) r.1.toFinset) fail
      (if doGrow then grow ctx f seed else pure (seed, f)) := by
    cases doGrow with
    | true => exact grow_meets h hk ht hsub hbad (hall rfl)
    | false => exact ⟨.of_checked hk hk.checked (List.Subset.refl seed) hbad, nofun⟩
  unfold refineUnsafe
  refine hgrow.bind fun r hr ↦ ?_
  obtain ⟨grown, f₁⟩ := r
  obtain ⟨⟨heq, hcheck, hfinder, hle, hbad'⟩, hfull⟩ := hr
  dsimp only at heq hcheck hfinder hle hbad' hfull ⊢
  have hkeeps : Keeps ctx Rep e f₁ := by
    rw [heq]
    exact { hk with checkMap := hcheck }
  refine (hkeeps.blockDown h hbad').imp fun f₂ hf₂ ↦ ?_
  obtain ⟨hkeeps₂, heq₂⟩ := hf₂
  have hkept : f₂.toIVCFinder = f.toIVCFinder ∧ f₂.seedCount = f.seedCount ∧
      f₂.mivcLB = f.mivcLB ∧ f₂.csFinder = f₁.csFinder := by
    rw [heq₂, heq]
    exact ⟨rfl, rfl, rfl, rfl⟩
  obtain ⟨hivc, hcount, hlb, hcs⟩ := hkept
  obtain ⟨found, hfound, hcovered⟩ := hfinder
  refine ⟨grown.toFinset, hle, hfull, ⟨hkeeps₂, found, hcs ▸ hfound, fun u hu ↦ ?_⟩, hivc, hcount, hlb⟩
  obtain ⟨d, hd, hdu⟩ | hdu := hcovered u hu
  · exact ⟨d, List.mem_append_left _ hd, hdu⟩
  · exact ⟨_, List.mem_append_right _ (List.mem_singleton_self _), hdu⟩

theorem Knows.setMinimumUnlessKnown (hk : Knows ctx Rep CsRep e f) (seed : Seed) :
    Knows ctx Rep CsRep e (f.setMinimumUnlessKnown seed) := by
  unfold UnifiedIVCFinder.setMinimumUnlessKnown
  split
  · exact hk
  · exact { hk with }

theorem Knows.raiseLB (hk : Knows ctx Rep CsRep e f) {isMinimal : Bool}
    (hmin : isMinimal = true → ∀ t ⊆ allGates ctx, e.Unexplored t → seed.length ≤ t.card) :
    Knows ctx Rep CsRep e (f.raiseLB seed isMinimal) := by
  unfold UnifiedIVCFinder.raiseLB
  split
  · next hmin' =>
    exact { hk with
      lb := fun t hbase hopen ↦ (Nat.mod_le _ _).trans (hmin hmin' t hbase hopen) }
  · exact hk

theorem Knows.nonempty (hk : Knows ctx Rep CsRep e f) {t : Finset ℕ} (ht : e.Unexplored t) :
    ∀ s ∈ f.mivcs, s ≠ [] := by
  intro s hs hnil
  have hfound : s.toFinset ∈ e.found := hk.mivcs ▸ List.mem_map_of_mem hs
  rw [hnil] at hfound
  exact ht.1 _ hfound (Finset.empty_subset t)

/-- A safe seed is shrunk, unless it is minimal, and what is left is recorded and blocked with
its supersets. -/
theorem refineSafe_meets (h : Parts ctx Rep CsRep fail) (hk : Knows ctx Rep CsRep e f)
    (ht : e.Unexplored seed.toFinset) (hsub : seed ⊆ ctx.tr.gateIDs) (hnodup : seed.Nodup)
    (hsafe : SafeGates ctx.tr seed.toFinset) {doShrink : Bool}
    (hmin : doShrink = false → Minimal (SafeGates ctx.tr) seed.toFinset) :
    Meets (fun r ↦ Shrunk ctx doShrink seed r.1 ∧
      r.2 = { f with map := r.2.map, checkMap := r.2.checkMap } ∧
      Knows ctx Rep CsRep (e.addFound r.1.toFinset) (r.2.recordMIVC r.1)) fail
      (f.refineSafe ctx seed doShrink) := by
  have hshrink : Meets (fun r ↦ Checked ctx e f r.2 ∧ Shrunk ctx doShrink seed r.1) fail
      (if doShrink then shrink ctx f seed else pure (seed, f)) := by
    cases doShrink with
    | true => exact shrink_meets h hk ht hsub hnodup hsafe
    | false => exact ⟨hk.checked, hnodup, List.Subset.refl seed, nofun, fun _ ↦ rfl, hmin rfl⟩
  unfold refineSafe
  refine hshrink.bind fun r hr ↦ ?_
  obtain ⟨mivc, f₁⟩ := r
  obtain ⟨⟨checkMap, heq, hcheck⟩, hshrunk⟩ := hr
  dsimp only at heq hshrunk ⊢
  subst heq
  have hgates : mivc ⊆ ctx.tr.gateIDs := fun g hg ↦ hsub (hshrunk.sub hg)
  have hle : mivc.toFinset ⊆ seed.toFinset := fun g hg ↦
    List.mem_toFinset.mpr (hshrunk.sub (List.mem_toFinset.mp hg))
  refine (blockUp_meets (f := { f with checkMap := checkMap }) h hk.map hcheck hgates).bind
    fun f₂ hf₂ ↦ ?_
  obtain ⟨heq₂, hmap₂, hcheck₂⟩ := hf₂
  obtain ⟨found, hfound, hcovered⟩ := hk.csFinder
  rw [meets_pure, heq₂]
  refine ⟨hshrunk, rfl, ⟨hmap₂, hcheck₂, ?_, ?_, fun s hs ↦ ?_, ?_, ?_⟩, found, hfound, hcovered⟩
  · exact hk.sound.addFound ht hle (toFinset_subset_allGates.mpr hgates) hshrunk.minimal
  · exact (List.map_append).trans (congrArg (· ++ [mivc.toFinset]) hk.mivcs)
  · cases List.mem_append.mp hs with
    | inl hs => exact hk.nodup s hs
    | inr hs => exact List.mem_singleton.mp hs ▸ hshrunk.nodup
  · exact hk.smallest.record (hk.nonempty ht) mivc
  · exact fun t hbase hopen ↦ hk.lb t hbase (unexplored_addFound.mp hopen).1

structure Declares (ctx : UnifiedIVCContext M F) (e : Explored ℕ) (f f' : UnifiedIVCFinder M F)
    (isMinimal : Bool) (mivc : Seed) : Prop where
  known : f.minimumIVCKnown = true → f'.minimumIVC = f.minimumIVC
  unknown : f.minimumIVCKnown = false →
    (f'.minimumIVC = mivc ∧ (∀ t ⊆ allGates ctx, e.Unexplored t → mivc.length ≤ t.card) ∧
      (isMinimal = true ∨ mivc.length = f.mivcLB)) ∨
    isMinimal = false ∧ mivc.length ≠ f.mivcLB ∧ f'.minimumIVC = f.minimumIVC

inductive Handled (ctx : UnifiedIVCContext M F) (Rep : (Finset ℕ → Prop) → M → Prop)
    (CsRep : List (Finset ℕ) → F → Prop) (e : Explored ℕ) (f : UnifiedIVCFinder M F) (seed : Seed)
    (isMinimal isMaximal : Bool) (f' : UnifiedIVCFinder M F) : Prop
  | found (mivc : Seed) (hshrunk : Shrunk ctx (!isMinimal) seed mivc)
    (hsafe : SafeGates ctx.tr seed.toFinset)
    (hknows : Knows ctx Rep CsRep (e.addFound mivc.toFinset) f')
    (hmivcs : f'.mivcs = f.mivcs ++ [mivc]) (hdeclares : Declares ctx e f f' isMinimal mivc)
  | refuted (d : Finset ℕ) (hle : seed.toFinset ⊆ d) (hfull : LeavesFull ctx isMaximal d)
    (hbad : ¬ SafeGates ctx.tr seed.toFinset)
    (hknows : Knows ctx Rep CsRep (e.addRefuted d) f') (hsame : f'.toIVCFinder = f.toIVCFinder)

theorem known_congr {f f' : IVCFinder} (h : f.minimumIVC = f'.minimumIVC) :
    f.minimumIVCKnown = f'.minimumIVCKnown := by
  unfold IVCFinder.minimumIVCKnown
  rw [h]

theorem setMinimumUnlessKnown_eq (f : UnifiedIVCFinder M F) (seed : Seed) :
    (f.setMinimumUnlessKnown seed).minimumIVC =
      if f.minimumIVCKnown then f.minimumIVC else seed := by
  unfold setMinimumUnlessKnown
  split
  · rfl
  · rfl

theorem setMinimumUnlessKnown_frame (f : UnifiedIVCFinder M F) (seed : Seed) :
    f.setMinimumUnlessKnown seed =
      { f with toIVCFinder := ⟨f.mivcs, (f.setMinimumUnlessKnown seed).minimumIVC⟩ } := by
  unfold setMinimumUnlessKnown
  split
  · rfl
  · rfl

theorem raiseLB_frame (f : UnifiedIVCFinder M F) (seed : Seed) (isMinimal : Bool) :
    f.raiseLB seed isMinimal = { f with mivcLB := (f.raiseLB seed isMinimal).mivcLB } := by
  unfold raiseLB
  split
  · rfl
  · rfl

structure Promised (ctx : UnifiedIVCContext M F) (e : Explored ℕ) (seed : Seed)
    (isMinimal isMaximal : Bool) : Prop where
  sub : seed.Sublist (gateSet ctx)
  unexplored : e.Unexplored seed.toFinset
  one : isMinimal = true → isMaximal = false
  minimal : isMinimal = true → ∀ t ⊆ allGates ctx, e.Unexplored t → seed.length ≤ t.card
  maximal : isMaximal = true → ∀ t ⊆ allGates ctx, e.Unexplored t → t.card ≤ seed.length

theorem handleSeed_meets (h : Parts ctx Rep CsRep fail) (hk : Knows ctx Rep CsRep e f)
    {isMinimal isMaximal : Bool} (hseed : Promised ctx e seed isMinimal isMaximal)
    (hall : isMaximal = false → ctx.opts.mcsGrow = true → seed.toFinset = allGates ctx →
      ¬ SafeGates ctx.tr seed.toFinset → fail .assertion) :
    Meets (fun f' ↦ (f'.seedCount = f.seedCount ∧ f'.mivcLB = (f.raiseLB seed isMinimal).mivcLB) ∧
      Handled ctx Rep CsRep e f seed isMinimal isMaximal f') fail
      (f.handleSeed ctx seed isMinimal isMaximal) := by
  have ht := hseed.unexplored
  have hnodup : seed.Nodup := h.map.idSet.nodup.sublist hseed.sub
  have hbase : seed.toFinset ⊆ allGates ctx := toFinset_gateSet ▸ seed_subset hseed.sub
  have hsub : seed ⊆ ctx.tr.gateIDs := toFinset_subset_allGates.mp hbase
  have hcard : seed.toFinset.card = seed.length := List.toFinset_card_of_nodup hnodup
  have hone : (!isMinimal || !isMaximal) = true := by
    cases isMinimal with
    | false => rfl
    | true => rw [hseed.one rfl]; rfl
  have hlb : f.mivcLB ≤ seed.length := hcard ▸ hk.lb _ hbase ht
  unfold handleSeed
  rw [hone, ensure_true, ok_bind, decide_eq_true hlb, ensure_true, ok_bind]
  obtain ⟨f₁, hf₁⟩ : ∃ f₁, f₁ = f.raiseLB seed isMinimal := ⟨_, rfl⟩
  have hk₁ : Knows ctx Rep CsRep e f₁ := hf₁ ▸ hk.raiseLB hseed.minimal
  have hframe₁ : f₁ = { f with mivcLB := f₁.mivcLB } := by
    rw [hf₁]
    exact raiseLB_frame f seed isMinimal
  have hlb₁ : isMinimal = false → f₁.mivcLB = f.mivcLB := by
    intro hmin
    rw [hf₁, hmin]
    rfl
  rw [← hf₁]
  dsimp only
  by_cases hsafe : SafeGates ctx.tr seed.toFinset
  · rw [if_pos ((h.isSafe_iff hsub isMaximal).mpr hsafe)]
    obtain ⟨f₂, hf₂⟩ : ∃ f₂, f₂ = if isMinimal then f₁.setMinimumUnlessKnown seed else f₁ := ⟨_, rfl⟩
    have hk₂ : Knows ctx Rep CsRep e f₂ := by
      rw [hf₂]
      split
      · exact hk₁.setMinimumUnlessKnown seed
      · exact hk₁
    have hframe₂ : f₂ = { f₁ with toIVCFinder := ⟨f.mivcs, f₂.minimumIVC⟩ } := by
      rw [hf₂, hframe₁]
      split
      · exact setMinimumUnlessKnown_frame _ seed
      · rfl
    have hminimal : (!isMinimal) = false → Minimal (SafeGates ctx.tr) seed.toFinset := by
      intro hmin
      have hmin' : isMinimal = true := by simpa using hmin
      refine hk.sound.minimal_of_card_le h.monotone ht hbase hsafe fun t htb hopen ↦ ?_
      exact hcard.trans_le (hseed.minimal hmin' t htb hopen)
    rw [← hf₂]
    refine (refineSafe_meets h hk₂ ht hsub hnodup hsafe hminimal).bind fun r hr ↦ ?_
    obtain ⟨mivc, f₃⟩ := r
    obtain ⟨hshrunk, hframe₃, hknows⟩ := hr
    dsimp only at hshrunk hframe₃ hknows ⊢
    obtain ⟨f₄, hf₄⟩ : ∃ f₄, f₄ = f₃.recordMIVC mivc := ⟨_, rfl⟩
    rw [← hf₄] at hknows ⊢
    have hkept : f₄.mivcs = f.mivcs ++ [mivc] ∧ f₄.minimumIVC = f₂.minimumIVC ∧
        f₄.mivcLB = f₁.mivcLB ∧ f₄.seedCount = f.seedCount := by
      rw [hf₄, hframe₃, hframe₂, hframe₁]
      exact ⟨rfl, rfl, rfl, rfl⟩
    obtain ⟨hmivcs, hmin₄, hlb₄, hcount₄⟩ := hkept
    have hle : mivc.toFinset ⊆ seed.toFinset := fun g hg ↦
      List.mem_toFinset.mpr (hshrunk.sub (List.mem_toFinset.mp hg))
    have hopen : e.Unexplored mivc.toFinset :=
      hk.sound.unexplored_of_subset h.monotone ht hle hshrunk.minimal.prop
    have hlb' : f₄.mivcLB ≤ mivc.length := by
      rw [hlb₄, ← List.toFinset_card_of_nodup hshrunk.nodup]
      exact hk₁.lb _ (hle.trans hbase) hopen
    rw [decide_eq_true hlb', ensure_true, ok_bind, meets_pure]
    obtain ⟨f₅, hf₅⟩ : ∃ f₅, f₅ =
        if mivc.length == f₄.mivcLB then f₄.setMinimumUnlessKnown mivc else f₄ := ⟨_, rfl⟩
    have hk₅ : Knows ctx Rep CsRep (e.addFound mivc.toFinset) f₅ := by
      rw [hf₅]
      split
      · exact hknows.setMinimumUnlessKnown mivc
      · exact hknows
    have hframe₅ : f₅ = { f₄ with toIVCFinder := ⟨f₄.mivcs, f₅.minimumIVC⟩ } := by
      rw [hf₅]
      split
      · exact setMinimumUnlessKnown_frame f₄ mivc
      · rfl
    rw [← hf₅]
    refine ⟨⟨by rw [hframe₅]; exact hcount₄, ?_⟩, .found mivc hshrunk hsafe hk₅
      (by rw [hframe₅]; exact hmivcs) ⟨fun hknown ↦ ?_, fun hknown ↦ ?_⟩⟩
    · rw [hframe₅]
      exact hlb₄
    · have hsame₁ : f₁.minimumIVC = f.minimumIVC := by rw [hframe₁]
      have hsame₂ : f₂.minimumIVC = f.minimumIVC := by
        rw [hf₂]
        split
        · rw [setMinimumUnlessKnown_eq, known_congr hsame₁, hknown, if_pos rfl, hsame₁]
        · exact hsame₁
      have hsame₄ : f₄.minimumIVC = f.minimumIVC := hmin₄.trans hsame₂
      rw [hf₅]
      split
      · rw [setMinimumUnlessKnown_eq, known_congr hsame₄, hknown, if_pos rfl, hsame₄]
      · exact hsame₄
    · have hsame₁ : f₁.minimumIVC = f.minimumIVC := by rw [hframe₁]
      cases hmin : isMinimal with
      | true =>
        have hseed₂ : f₂.minimumIVC = seed := by
          rw [hf₂, hmin, if_pos rfl, setMinimumUnlessKnown_eq, known_congr hsame₁, hknown,
            if_neg Bool.false_ne_true]
        have heq : mivc = seed := hshrunk.kept (by rw [hmin]; rfl)
        refine .inl ⟨?_, fun t htb hopen ↦ heq ▸ hseed.minimal hmin t htb hopen, .inl rfl⟩
        rw [hf₅]
        split
        · rw [setMinimumUnlessKnown_eq, hmin₄, hseed₂, heq, ite_self]
        · rw [hmin₄, hseed₂, heq]
      | false =>
        have hsame₄ : f₄.minimumIVC = f.minimumIVC := by
          rw [hmin₄, hf₂, hmin, if_neg Bool.false_ne_true, hsame₁]
        rw [hf₅]
        split
        · next heq =>
          refine .inl ⟨?_, fun t htb hopen ↦ ?_, .inr ?_⟩
          · rw [setMinimumUnlessKnown_eq, known_congr hsame₄, hknown, if_neg Bool.false_ne_true]
          · rw [beq_iff_eq.mp heq, hlb₄]
            exact hk₁.lb t htb hopen
          · rw [beq_iff_eq.mp heq, hlb₄, hlb₁ hmin]
        · next hne =>
          refine .inr ⟨rfl, fun heq ↦ hne (beq_iff_eq.mpr ?_), hsame₄⟩
          rw [heq, hlb₄, hlb₁ hmin]
  · have hno : ¬ isSafe ctx seed isMaximal = true := fun hyes ↦
      hsafe ((h.isSafe_iff hsub isMaximal).mp hyes)
    rw [if_neg hno]
    refine (refineUnsafe_meets h hk₁ ht hsub hsafe fun hdo hgrow hfull ↦ ?_).imp fun f' hf' ↦ ?_
    · exact hall (by simpa using hdo) hgrow hfull hsafe
    · obtain ⟨d, hle, hfull, hknows, hsame, hcount, hlb'⟩ := hf'
      rw [Bool.not_not] at hfull
      refine ⟨⟨?_, hlb'⟩, .refuted d hle hfull hsafe hknows ?_⟩
      · rw [hcount, hframe₁]
      · rw [hsame, hframe₁]

end UnifiedIVCFinder

end PME
