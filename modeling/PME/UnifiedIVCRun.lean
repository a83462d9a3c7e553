import PME.UnifiedIVCMinimum

namespace PME

open Outcome Exploration Explored

namespace UnifiedIVCFinder

variable {M F : Type} (ctx : UnifiedIVCContext M F) (Rep : (Finset ℕ → Prop) → M → Prop)
  (CsRep : List (Finset ℕ) → F → Prop)

structure Searches (Reps : ℕ → (Finset ℕ → Prop) → M → Prop) (fail : Failure → Prop) : Prop where
  contract : ctx.mapSolver.Contract (gateSet ctx) Reps fail
  minimal : ctx.opts.directionUp = true → ctx.mapSolver.FindsMinimal (gateSet ctx) Reps fail
  maximal : ctx.opts.directionDown = true → ctx.mapSolver.FindsMaximal (gateSet ctx) Reps fail

def Explores (e : Explored ℕ) (f : UnifiedIVCFinder M F) :
    UnifiedIVCFinder M F ⊕ UnifiedIVCFinder M F → Prop
  | .inl f' => f'.seedCount = (f.seedCount + 1) % 2 ^ 32 ∧
      ∃ seed, f'.mivcLB = (f.raiseLB seed (goesUp ctx f)).mivcLB ∧
        Promised ctx e seed (goesUp ctx f) (goesDown ctx f) ∧
        Handled ctx Rep CsRep e f seed (goesUp ctx f) (goesDown ctx f) f'
  | .inr f' => Knows ctx Rep CsRep e f' ∧ (∀ t ⊆ allGates ctx, ¬ e.Unexplored t) ∧
      f'.toIVCFinder = f.toIVCFinder

def Growable : Prop :=
  SafeOver ctx.tr ctx.tr.gateIDs ∨ ctx.opts.directionDown = true ∨ ctx.opts.mcsGrow = false

def StartsFull (e : Explored ℕ) (f : UnifiedIVCFinder M F) : Prop :=
  ctx.opts.directionDown = true → ¬ SafeGates ctx.tr (allGates ctx) →
    f.seedCount = 0 ∨ ¬ e.Unexplored (allGates ctx)

variable {ctx Rep CsRep} {Reps : ℕ → (Finset ℕ → Prop) → M → Prop} {fail : Failure → Prop}
  {e : Explored ℕ} {f f' : UnifiedIVCFinder M F} {seed : Seed}

theorem getUnexplored_eq (f : UnifiedIVCFinder M F) : f.getUnexplored ctx = (do
    let found ←
      if goesDown ctx f then f.getUnexploredMax ctx
      else if goesUp ctx f then f.getUnexploredMin ctx
      else f.getUnexploredArb ctx
    return found.map countSeed countSeed) := by
  unfold getUnexplored goesDown goesUp
  cases ctx.opts.directionDown <;> cases ctx.opts.directionUp <;> cases f.seedCount % 2 == 0 <;> rfl

theorem Knows.countSeed (h : Knows ctx Rep CsRep e f) : Knows ctx Rep CsRep e f.countSeed :=
  { h with }

theorem Handled.countSeed {isMinimal isMaximal : Bool}
    (h : Handled ctx Rep CsRep e f seed isMinimal isMaximal f') :
    Handled ctx Rep CsRep e f seed isMinimal isMaximal f'.countSeed := by
  cases h with
  | found mivc hshrunk hsafe hknows hmivcs hdeclares =>
    exact .found mivc hshrunk hsafe hknows.countSeed hmivcs ⟨hdeclares.known, hdeclares.unknown⟩
  | refuted d hle hfull hbad hknows hsame =>
    exact .refuted d hle hfull hbad hknows.countSeed hsame

theorem Handled.of_map {isMinimal isMaximal : Bool} {map : M}
    (h : Handled ctx Rep CsRep e { f with map := map } seed isMinimal isMaximal f') :
    Handled ctx Rep CsRep e f seed isMinimal isMaximal f' := by
  cases h with
  | found mivc hshrunk hsafe hknows hmivcs hdeclares =>
    exact .found mivc hshrunk hsafe hknows hmivcs ⟨hdeclares.known, hdeclares.unknown⟩
  | refuted d hle hfull hbad hknows hsame => exact .refuted d hle hfull hbad hknows hsame

theorem getUnexploredWith_meets (h : Parts ctx Rep CsRep fail) (hk : Knows ctx Rep CsRep e f)
    {find : M → Result (Option Seed × M)} {isMinimal isMaximal : Bool}
    (hone : isMinimal = true → isMaximal = false)
    (hfind : Meets (fun r ↦ Rep e.Unexplored r.2 ∧ IsSeed (gateSet ctx) e.Unexplored r.1 ∧
      (isMinimal = true → IsMinimalSeed (gateSet ctx) e.Unexplored r.1) ∧
      (isMaximal = true → IsMaximalSeed (gateSet ctx) e.Unexplored r.1)) fail (find f.map))
    (hall : isMaximal = false → ctx.opts.mcsGrow = true → e.Unexplored (allGates ctx) →
      ¬ SafeGates ctx.tr (allGates ctx) → fail .assertion) :
    Meets (fun r ↦ match r with
      | .inl f' => f'.seedCount = f.seedCount ∧
          ∃ seed, f'.mivcLB = (f.raiseLB seed isMinimal).mivcLB ∧
            Promised ctx e seed isMinimal isMaximal ∧
            Handled ctx Rep CsRep e f seed isMinimal isMaximal f'
      | .inr f' => Knows ctx Rep CsRep e f' ∧ (∀ t ⊆ allGates ctx, ¬ e.Unexplored t) ∧
          f'.toIVCFinder = f.toIVCFinder) fail
      (f.getUnexploredWith ctx find isMinimal isMaximal) := by
  unfold getUnexploredWith
  refine hfind.bind fun r hr ↦ ?_
  obtain ⟨found, map⟩ := r
  obtain ⟨hmap, hseed, hmin, hmax⟩ := hr
  dsimp only at hmap hseed hmin hmax ⊢
  have hgates : (gateSet ctx).toFinset = allGates ctx := toFinset_gateSet
  unfold IsMinimalSeed at hmin
  unfold IsMaximalSeed at hmax
  unfold IsSeed at hseed
  rw [hgates] at hmin hmax hseed
  have hk' : Knows ctx Rep CsRep e { f with map := map } := { hk with map := hmap }
  cases found with
  | none => exact ⟨hk', hseed, rfl⟩
  | some seed =>
    obtain ⟨hsub, ht⟩ := hseed
    have hpromised : Promised ctx e seed isMinimal isMaximal :=
      ⟨hsub, ht, hone, fun hm ↦ (hmin hm).2 seed rfl, fun hm ↦ (hmax hm).2 seed rfl⟩
    refine (handleSeed_meets h hk' hpromised fun hnot hgrow hfull hbad ↦ ?_).bind fun f' hf' ↦ ?_
    · exact hall hnot hgrow (hfull ▸ ht) (hfull ▸ hbad)
    · have hlb : f'.mivcLB = (f.raiseLB seed isMinimal).mivcLB := by
        rw [hf'.1.2]
        unfold raiseLB
        split
        · rfl
        · rfl
      exact ⟨hf'.1.1, seed, hlb, hpromised, hf'.2.of_map⟩

def search (ctx : UnifiedIVCContext M F) (f : UnifiedIVCFinder M F) : M → Result (Option Seed × M) :=
  if goesDown ctx f then ctx.mapSolver.findMaximalSeed
  else if goesUp ctx f then ctx.mapSolver.findMinimalSeed
  else ctx.mapSolver.findSeed

def Finds (ctx : UnifiedIVCContext M F) (Rep : (Finset ℕ → Prop) → M → Prop) (e : Explored ℕ)
    (f : UnifiedIVCFinder M F) (r : Option Seed × M) : Prop :=
  Rep e.Unexplored r.2 ∧ IsSeed (gateSet ctx) e.Unexplored r.1 ∧
    (goesUp ctx f = true → IsMinimalSeed (gateSet ctx) e.Unexplored r.1) ∧
    (goesDown ctx f = true → IsMaximalSeed (gateSet ctx) e.Unexplored r.1)

theorem getUnexplored_eq_search (f : UnifiedIVCFinder M F) : f.getUnexplored ctx = (do
    let found ← f.getUnexploredWith ctx (search ctx f) (goesUp ctx f) (goesDown ctx f)
    return found.map countSeed countSeed) := by
  rw [getUnexplored_eq]
  unfold search
  cases hdown : goesDown ctx f with
  | true =>
    rw [goesUp_eq_false_of_down hdown]
    rfl
  | false =>
    cases goesUp ctx f with
    | true => rfl
    | false => rfl

theorem search_finds
    (hmax : goesDown ctx f = true → Meets (fun r ↦ Rep e.Unexplored r.2 ∧
      IsMaximalSeed (gateSet ctx) e.Unexplored r.1) fail (ctx.mapSolver.findMaximalSeed f.map))
    (hmin : goesUp ctx f = true → Meets (fun r ↦ Rep e.Unexplored r.2 ∧
      IsMinimalSeed (gateSet ctx) e.Unexplored r.1) fail (ctx.mapSolver.findMinimalSeed f.map))
    (harb : Meets (fun r ↦ Rep e.Unexplored r.2 ∧ IsSeed (gateSet ctx) e.Unexplored r.1) fail
      (ctx.mapSolver.findSeed f.map)) :
    Meets (Finds ctx Rep e f) fail (search ctx f f.map) := by
  unfold search
  cases hdown : goesDown ctx f with
  | true =>
    refine (hmax hdown).imp fun r hr ↦ ⟨hr.1, hr.2.1, fun hup ↦ ?_, fun _ ↦ hr.2⟩
    rw [goesUp_eq_false_of_down hdown] at hup
    exact absurd hup Bool.false_ne_true
  | false =>
    have hnot : ∀ r, goesDown ctx f = true → IsMaximalSeed (gateSet ctx) e.Unexplored r :=
      fun _ hyes ↦ absurd (hdown.symm.trans hyes) Bool.false_ne_true
    cases hup : goesUp ctx f with
    | true => exact (hmin hup).imp fun r hr ↦ ⟨hr.1, hr.2.1, fun _ ↦ hr.2, hnot _⟩
    | false =>
      refine harb.imp fun r hr ↦ ⟨hr.1, hr.2, fun hyes ↦ ?_, hnot _⟩
      exact absurd (hup.symm.trans hyes) Bool.false_ne_true

theorem Searches.search_meets (h : Searches ctx Reps fail) {n : ℕ} (hmap : Reps (n + 1) e.Unexplored f.map) :
    Meets (Finds ctx (Reps n) e f) fail (search ctx f f.map) := by
  refine search_finds (fun hdown ↦ ?_) (fun hup ↦ ?_) (h.contract.findSeed hmap)
  · unfold goesDown at hdown
    exact (h.maximal (Bool.and_eq_true_iff.mp hdown).1).findMaximalSeed hmap
  · unfold goesUp at hup
    exact (h.minimal (Bool.and_eq_true_iff.mp hup).1).findMinimalSeed hmap

theorem getUnexplored_meets (h : Parts ctx Rep CsRep fail) (hstop : ¬ Growable ctx → fail .assertion)
    (hk : Knows ctx Rep CsRep e f) (hfull : StartsFull ctx e f)
    (hfind : Meets (Finds ctx Rep e f) fail (search ctx f f.map)) :
    Meets (Explores ctx Rep CsRep e f) fail (f.getUnexplored ctx) := by
  have hall : goesDown ctx f = false → ctx.opts.mcsGrow = true → e.Unexplored (allGates ctx) →
      ¬ SafeGates ctx.tr (allGates ctx) → fail .assertion := by
    intro hdown hgrow hopen hbad
    refine hstop fun hgrowable ↦ ?_
    obtain hsafe | hdir | hno := hgrowable
    · exact hbad ((safeOver_iff h.wellFormed).mp hsafe)
    · obtain hzero | hclosed := hfull hdir hbad
      · unfold goesDown at hdown
        rw [hdir, hzero] at hdown
        exact absurd hdown (by simp)
      · exact hclosed hopen
    · rw [hgrow] at hno
      exact Bool.false_ne_true hno.symm
  have hone : goesUp ctx f = true → goesDown ctx f = false := by
    intro hup
    by_contra hdown
    rw [goesUp_eq_false_of_down (Bool.eq_true_of_not_eq_false hdown)] at hup
    exact Bool.false_ne_true hup
  rw [getUnexplored_eq_search]
  refine (getUnexploredWith_meets h hk hone hfind hall).bind fun r hr ↦ ?_
  cases r with
  | inl f' =>
    obtain ⟨hcount, seed, hlb, hpromised, hhandled⟩ := hr
    refine ⟨?_, seed, hlb, hpromised, hhandled.countSeed⟩
    exact congrArg (fun n ↦ (n + 1) % 2 ^ 32) hcount
  | inr f' => exact ⟨hr.1.countSeed, hr.2.1, hr.2.2⟩

theorem Handled.exists_knows {isMinimal isMaximal : Bool}
    (h : Handled ctx Rep CsRep e f seed isMinimal isMaximal f')
    (hmono : Monotone (SafeGates ctx.tr)) (ht : e.Unexplored seed.toFinset)
    (hbase : seed.toFinset ⊆ allGates ctx) :
    ∃ e', Knows ctx Rep CsRep e' f' ∧ (∀ t, e'.Unexplored t → e.Unexplored t) ∧
      ¬ e'.Unexplored seed.toFinset ∧ e'.remaining (allGates ctx) < e.remaining (allGates ctx) ∧
      (isMaximal = false → ctx.opts.mcsGrow = true → ¬ SafeGates ctx.tr (allGates ctx) →
        e.Unexplored (allGates ctx) → e'.Unexplored (allGates ctx)) := by
  cases h with
  | found mivc hshrunk hsafe hknows hmivcs hdeclares =>
    have hle : mivc.toFinset ⊆ seed.toFinset := fun g hg ↦
      List.mem_toFinset.mpr (hshrunk.sub (List.mem_toFinset.mp hg))
    exact ⟨_, hknows, fun t hopen ↦ (unexplored_addFound.mp hopen).1,
      fun hopen ↦ (unexplored_addFound.mp hopen).2 hle, remaining_addFound_lt hle hbase ht,
      fun _ _ hbad ↦ absurd (hmono hbase hsafe) hbad⟩
  | refuted d hle hfull hbad hknows hsame =>
    exact ⟨_, hknows, fun t hopen ↦ (unexplored_addRefuted.mp hopen).1,
      fun hopen ↦ (unexplored_addRefuted.mp hopen).2 hle, remaining_addRefuted_lt hle hbase ht,
      fun hmax hgrow _ hopen ↦ unexplored_addRefuted.mpr ⟨hopen, hfull hmax hgrow⟩⟩

/-- The first seed downwards has all gates, if any seed has. When it is not safe, nothing is left. -/
theorem StartsFull.step (hidset : IDSet (gateSet ctx)) (hfull : StartsFull ctx e f)
    (hseed : Promised ctx e seed (goesUp ctx f) (goesDown ctx f)) {e' : Explored ℕ}
    (hle : ∀ t, e'.Unexplored t → e.Unexplored t) (hclosed : ¬ e'.Unexplored seed.toFinset) :
    StartsFull ctx e' f' := by
  intro hdir hbad
  right
  intro hopen
  obtain hzero | hno := hfull hdir hbad
  · have hdown : goesDown ctx f = true := by
      unfold goesDown
      rw [hdir, hzero]
      rfl
    have hcard := hseed.maximal hdown _ (Finset.Subset.refl _) (hle _ hopen)
    rw [← hidset.card_seed hseed.sub] at hcard
    have heq := Finset.eq_of_subset_of_card_le hseed.subset_allGates hcard
    exact hclosed (heq ▸ hopen)
  · exact hno (hle _ hopen)

def blocked (ctx : UnifiedIVCContext M F) (upfront : List Seed) : Explored ℕ :=
  ⟨[], upfront.map fun corr ↦ allGates ctx \ corr.toFinset⟩

theorem blockUpfront_meets (h : Parts ctx Rep CsRep fail) {f : UnifiedIVCFinder M F}
    (hk : Keeps ctx Rep nothing f) {upfront : List Seed}
    (hcorr : ∀ corr ∈ upfront, IsCorrectionSet ctx.tr corr) :
    Meets (fun f' ↦ Keeps ctx Rep (blocked ctx upfront) f' ∧
      f' = { f with map := f'.map, checkMap := f'.checkMap }) fail
      (upfront.foldlM (fun f corr ↦ do
        ensure (!corr.isEmpty)
        f.blockDown ctx (negateSeed ctx corr)) f) := by
  refine foldlM_meets (fun done f' ↦ Keeps ctx Rep (blocked ctx done) f' ∧
    f' = { f with map := f'.map, checkMap := f'.checkMap }) f ⟨hk, rfl⟩ ?_
  intro done corr rest f₁ hl hf₁
  obtain ⟨hkeeps, hframe⟩ := hf₁
  have hset : IsCorrectionSet ctx.tr corr :=
    hcorr corr (by rw [← hl]; exact List.mem_append_right _ List.mem_cons_self)
  have hne : corr.isEmpty = false := List.isEmpty_eq_false_iff.mpr hset.nonempty
  have hbad : ¬ SafeGates ctx.tr (negateSeed ctx corr).toFinset := by
    rw [toFinset_negateSeed]
    exact hset.bad
  have heq : (blocked ctx done).addRefuted (negateSeed ctx corr).toFinset =
      blocked ctx (done ++ [corr]) := by
    rw [toFinset_negateSeed, blocked, blocked, List.map_append]
    rfl
  rw [hne, Bool.not_false, ensure_true, ok_bind]
  refine (hkeeps.blockDown h hbad).imp fun f₂ hf₂ ↦ ?_
  rw [heq] at hf₂
  exact ⟨hf₂.1, by rw [hf₂.2, hframe]⟩

theorem unexplored_blocked_iff {upfront : List Seed} {t : Finset ℕ} (hbase : t ⊆ allGates ctx) :
    (blocked ctx upfront).Unexplored t ↔ ∀ corr ∈ upfront, ∃ gate ∈ corr, gate ∈ t := by
  have hhit : ∀ corr : Seed, ¬ t ⊆ allGates ctx \ corr.toFinset ↔ ∃ gate ∈ corr, gate ∈ t := by
    intro corr
    rw [Finset.subset_sdiff, not_and_or, Finset.not_disjoint_iff]
    constructor
    · intro h
      obtain ⟨gate, hgate, hcorr⟩ := h.resolve_left fun hno ↦ hno hbase
      exact ⟨gate, List.mem_toFinset.mp hcorr, hgate⟩
    · intro h
      obtain ⟨gate, hcorr, hgate⟩ := h
      exact .inr ⟨gate, hgate, List.mem_toFinset.mpr hcorr⟩
  constructor
  · exact fun h corr hc ↦ (hhit corr).mp (h.2 _ (List.mem_map_of_mem hc))
  · intro h
    refine ⟨fun _ hu ↦ absurd hu List.not_mem_nil, fun d hd ↦ ?_⟩
    obtain ⟨corr, hc, rfl⟩ := List.mem_map.mp hd
    exact (hhit corr).mpr (h corr hc)

theorem unexplored_blocked {upfront : List Seed} (hcorr : ∀ corr ∈ upfront, IsCorrectionSet ctx.tr corr) :
    (blocked ctx upfront).Unexplored (allGates ctx) := by
  refine ⟨fun _ hu ↦ absurd hu List.not_mem_nil, fun d hd ↦ ?_⟩
  obtain ⟨corr, hc, rfl⟩ := List.mem_map.mp hd
  rw [← toFinset_negateSeed]
  exact not_full_of_isCorrectionSet (hcorr corr hc)

theorem findMCSesUpfront_meets (h : Parts ctx Rep CsRep fail) (hk : Keeps ctx Rep nothing f)
    (hfinder : CsRep [] f.csFinder) :
    Meets (fun f' ↦ (∃ e, Knows ctx Rep CsRep e f' ∧ e.Unexplored (allGates ctx)) ∧
      f' = { f with map := f'.map, checkMap := f'.checkMap, csFinder := f'.csFinder }) fail
      (f.findMCSesUpfront ctx) := by
  have hfind : Meets (fun r ↦ (∀ corr ∈ r.1, IsCorrectionSet ctx.tr corr) ∧
      CsRep ([] ++ r.1.map List.toFinset) r.2) fail
      (if ctx.opts.upfrontNMax == uInfinity
        then ctx.csFinder.findAll f.csFinder ctx.opts.upfrontNMax
        else ctx.csFinder.findBatch f.csFinder ctx.opts.upfrontNMax) := by
    split
    · exact h.csFinder.findAll _ hfinder
    · exact h.csFinder.findBatch _ hfinder
  unfold findMCSesUpfront
  refine hfind.bind fun r hr ↦ ?_
  obtain ⟨upfront, csFinder⟩ := r
  obtain ⟨hcorr, hrep⟩ := hr
  dsimp only at hcorr hrep ⊢
  have hk' : Keeps ctx Rep nothing { f with csFinder := csFinder } := { hk with }
  refine (blockUpfront_meets h hk' hcorr).imp fun f' hf' ↦ ?_
  obtain ⟨hkeeps, hframe⟩ := hf'
  have hcs : f'.csFinder = csFinder := by rw [hframe]
  refine ⟨⟨_, ⟨hkeeps, _, hcs ▸ hrep, fun u hu ↦ ?_⟩, unexplored_blocked hcorr⟩, by rw [hframe]⟩
  rw [List.nil_append] at hu
  obtain ⟨corr, hc, rfl⟩ := List.mem_map.mp hu
  exact ⟨_, List.mem_map_of_mem hc, Finset.Subset.refl _⟩

theorem not_growable : ¬ Growable ctx ↔ ¬ SafeOver ctx.tr ctx.tr.gateIDs ∧
    ctx.opts.directionDown = false ∧ ctx.opts.mcsGrow = true := by
  unfold Growable
  rw [not_or, not_or, Bool.not_eq_true, Bool.not_eq_false]

def Passes (ctx : UnifiedIVCContext M F) (f f' : UnifiedIVCFinder M F) : Prop :=
  f.getUnexplored ctx = .ok (.inl f')

inductive Reached (ctx : UnifiedIVCContext M F) (f₀ : UnifiedIVCFinder M F) :
    UnifiedIVCFinder M F → Prop
  | start {f : UnifiedIVCFinder M F} (hf : f₀.findMCSesUpfront ctx = .ok f) : Reached ctx f₀ f
  | next {f f' : UnifiedIVCFinder M F} (hf : Reached ctx f₀ f) (hpass : Passes ctx f f') :
    Reached ctx f₀ f'

theorem Reached.from_start {f₀ g : UnifiedIVCFinder M F} (h : Reached ctx f₀ g)
    (hf : f₀.findMCSesUpfront ctx = .ok f) : Relation.ReflTransGen (Passes ctx) f g := by
  induction h with
  | start hg =>
    rw [hf] at hg
    cases hg
    exact .refl
  | next _ hpass ih => exact ih.tail hpass

theorem passes_from {g : UnifiedIVCFinder M F} (h : Relation.ReflTransGen (Passes ctx) f g)
    (hpass : Passes ctx f f') : g = f ∨ Relation.ReflTransGen (Passes ctx) f' g := by
  obtain rfl | ⟨f'', hfirst, hrest⟩ := h.cases_head
  · exact .inl rfl
  · unfold Passes at hpass hfirst
    rw [hpass] at hfirst
    cases hfirst
    exact .inr hrest

structure Ends (ctx : UnifiedIVCContext M F) (f₀ f : UnifiedIVCFinder M F) : Prop where
  all : f.ReportsAll ctx.tr
  least : (∀ g, Reached ctx f₀ g → Timely ctx g) → f.DeclaresLeast ctx.tr
  timely : ctx.tr.gateIDs.length < 2 ^ 32 → f.DeclaresLeast ctx.tr → ∀ g, Reached ctx f₀ g → Timely ctx g

def Untimely (ctx : UnifiedIVCContext M F) (f₀ f : UnifiedIVCFinder M F) : Prop :=
  Misled ctx f ∨ ∀ g, Reached ctx f₀ g → Timely ctx g ∨ Relation.ReflTransGen (Passes ctx) f g

structure Runs (ctx : UnifiedIVCContext M F) (Reps : ℕ → (Finset ℕ → Prop) → M → Prop)
    (CsRep : List (Finset ℕ) → F → Prop) (f₀ : UnifiedIVCFinder M F) (e : Explored ℕ)
    (f : UnifiedIVCFinder M F) : Prop where
  knows : Knows ctx (Reps (e.remaining (allGates ctx) + 1)) CsRep e f
  full : StartsFull ctx e f
  reached : Reached ctx f₀ f
  opened : ¬ Growable ctx → e.Unexplored (allGates ctx)
  minimum : (∀ g, Reached ctx f₀ g → Timely ctx g) → KeepsMinimum ctx f
  untimely : ctx.tr.gateIDs.length < 2 ^ 32 → Untimely ctx f₀ f

theorem Runs.explores (h : ∀ n, Parts ctx (Reps n) CsRep fail) (hsearch : Searches ctx Reps fail)
    (hstop : ¬ Growable ctx → fail .assertion) {f₀ : UnifiedIVCFinder M F}
    (hf : Runs ctx Reps CsRep f₀ e f) :
    Meets (Explores ctx (Reps (e.remaining (allGates ctx))) CsRep e f) fail (f.getUnexplored ctx) := by
  have hk : Knows ctx (Reps (e.remaining (allGates ctx))) CsRep e f :=
    { hf.knows with map := hsearch.contract.fewer (Nat.le_succ _) hf.knows.map }
  exact getUnexplored_meets (h _) hstop hk hf.full (hsearch.search_meets hf.knows.map)

theorem Runs.step (h : ∀ n, Parts ctx (Reps n) CsRep fail) (hsearch : Searches ctx Reps fail)
    {f₀ : UnifiedIVCFinder M F} (hf : Runs ctx Reps CsRep f₀ e f) (hpass : Passes ctx f f')
    (hr : Explores ctx (Reps (e.remaining (allGates ctx))) CsRep e f (.inl f')) :
    ∃ e', e'.remaining (allGates ctx) < e.remaining (allGates ctx) ∧ Runs ctx Reps CsRep f₀ e' f' := by
  have hparts := h (e.remaining (allGates ctx))
  have hk : Knows ctx (Reps (e.remaining (allGates ctx))) CsRep e f :=
    { hf.knows with map := hsearch.contract.fewer (Nat.le_succ _) hf.knows.map }
  obtain ⟨-, seed, hlb, hseed, hhandled⟩ := hr
  obtain ⟨e', hk', hle, hclosed, hlt, hstays⟩ :=
    hhandled.exists_knows hparts.monotone hseed.unexplored hseed.subset_allGates
  refine ⟨e', hlt, { hk' with map := hsearch.contract.fewer hlt hk'.map },
    hf.full.step hparts.map.idSet hseed hle hclosed, hf.reached.next hpass, fun hno ↦ ?_,
    fun htimely ↦ ?_, fun hlen ↦ ?_⟩
  · obtain ⟨hbad, hdown, hgrow⟩ := not_growable.mp hno
    have hnot : goesDown ctx f = false := by
      unfold goesDown
      rw [hdown, Bool.false_and]
    exact hstays hnot hgrow (fun hsafe ↦ hbad ((safeOver_iff hparts.wellFormed).mpr hsafe)) (hf.opened hno)
  · exact (hf.minimum htimely).step hparts hk (htimely f hf.reached) hseed hhandled hlb
  · by_cases hmis : Misled ctx f ∨ ¬ Timely ctx f
    · exact .inl (Misled.step hparts hk hlen hmis hseed hhandled hlb)
    · rw [not_or, not_not] at hmis
      refine .inr fun g hg ↦ ((hf.untimely hlen).resolve_left hmis.1 g hg).elim .inl fun hlater ↦ ?_
      obtain rfl | hlater' := passes_from hlater hpass
      · exact .inl hmis.2
      · exact .inr hlater'

theorem Runs.ends (h : ∀ n, Parts ctx (Reps n) CsRep fail) {f₀ : UnifiedIVCFinder M F}
    (hf : Runs ctx Reps CsRep f₀ e f) (hpass : f.getUnexplored ctx = .ok (.inr f'))
    (hr : Explores ctx (Reps (e.remaining (allGates ctx))) CsRep e f (.inr f')) :
    Growable ctx ∧ Ends ctx f₀ (f'.setMinimumUnlessKnown f'.smallestIVC) := by
  obtain ⟨hk, hdone, hsame⟩ := hr
  have hcomplete : Complete (SafeGates ctx.tr) (allGates ctx) (f'.mivcs.map List.toFinset) := by
    rw [hk.mivcs]
    exact hk.sound.complete (h 0).monotone hdone
  have hreports : f'.ReportsAll ctx.tr := ⟨hk.nodup, hcomplete⟩
  have hmivcs : (f'.setMinimumUnlessKnown f'.smallestIVC).mivcs = f'.mivcs := by
    rw [setMinimumUnlessKnown_frame]
  have hgrowable : Growable ctx := by
    by_contra hno
    exact hdone _ (Finset.Subset.refl _) (hf.opened hno)
  refine ⟨hgrowable, ?_, fun htimely t hbase ht ↦ ?_, fun hlen hleast g hg ↦ ?_⟩
  · unfold IVCFinder.ReportsAll
    rw [hmivcs]
    exact hreports
  · have hminimal : ∀ s ∈ f'.mivcs, Minimal (SafeGates ctx.tr) s.toFinset := fun s hs ↦
      ((hcomplete.2 _).mp (List.mem_map_of_mem hs)).2
    rw [setMinimumUnlessKnown_eq]
    split
    · next hknown =>
      have hright := (hf.minimum htimely).right
      rw [← hsame] at hright
      obtain ⟨hin, hleast⟩ := hright (known_eq_true.mp hknown)
      exact ⟨hminimal _ hin, hleast t hbase ht⟩
    · obtain ⟨s, hs, rfl⟩ := List.mem_map.mp ((hcomplete.2 t).mpr ⟨hbase, ht⟩)
      have hin : f'.smallestIVC ∈ f'.mivcs := by
        obtain ⟨hno, -⟩ | hin := hk.smallest.mem
        · exact absurd (hno ▸ hs) List.not_mem_nil
        · exact hin
      rw [List.toFinset_card_of_nodup (hk.nodup s hs)]
      exact ⟨hminimal _ hin, hk.smallest.le s hs⟩
  · obtain hmis | hothers := hf.untimely hlen
    · obtain ⟨hknown, hno⟩ := hmis.not_declaresLeast hf.knows hdone
      have hkept : (f'.setMinimumUnlessKnown f'.smallestIVC).minimumIVC = f.minimumIVC := by
        rw [setMinimumUnlessKnown_eq, hsame, hknown, if_pos rfl]
      unfold IVCFinder.DeclaresLeast at hno hleast
      rw [hkept] at hleast
      exact absurd hleast hno
    · obtain htimely | hlater := hothers g hg
      · exact htimely
      · obtain rfl | ⟨f'', hfirst, -⟩ := hlater.cases_head
        · exact fun _ _ _ m hm ↦ absurd (hf.knows.open_iff.mp hm.opened).2 (hdone m hm.opened.1)
        · unfold Passes at hfirst
          rw [hpass] at hfirst
          cases hfirst

theorem loop_meets_ends (h : ∀ n, Parts ctx (Reps n) CsRep fail) (hsearch : Searches ctx Reps fail)
    (hstop : ¬ Growable ctx → fail .assertion) {f₀ : UnifiedIVCFinder M F}
    (hf : Runs ctx Reps CsRep f₀ e f) :
    Meets (fun f' ↦ Growable ctx ∧ Ends ctx f₀ (f'.setMinimumUnlessKnown f'.smallestIVC)) fail
      (loop .outOfFuel (getUnexplored ctx) (2 ^ ctx.tr.gateIDs.length + 1) f) := by
  have hrank : e.remaining (allGates ctx) < 2 ^ ctx.tr.gateIDs.length + 1 := by
    have hcard := List.toFinset_card_le ctx.tr.gateIDs
    have hle := remaining_le (allGates ctx) e
    exact Nat.lt_succ_of_le (hle.trans (Nat.pow_le_pow_right (by decide) hcard))
  refine loop_meets_of_rank (fun rank f ↦ ∃ e, Runs ctx Reps CsRep f₀ e f ∧
    e.remaining (allGates ctx) = rank) ?_ _ ⟨e, hf, rfl⟩ hrank
  intro rank f hf
  obtain ⟨e, hf, rfl⟩ := hf
  refine (hf.explores h hsearch hstop).self.imp fun r hr ↦ ?_
  obtain ⟨hpass, hr⟩ := hr
  cases r with
  | inl f' =>
    obtain ⟨e', hlt, hf'⟩ := hf.step h hsearch hpass hr
    exact ⟨_, hlt, e', hf', rfl⟩
  | inr f' => exact hf.ends h hpass hr

theorem Keeps.new (hids : IDSet (gateSet ctx)) {map : M} {csFinder : F}
    (hmap : Rep (nothing : Explored ℕ).Unexplored map) :
    Keeps ctx Rep nothing (new ctx.tr map csFinder) where
  map := hmap
  checkMap := by
    have hnew := SATArbitraryMapSolver.Rep.new hids
    exact { hnew with
      fits := fun t ht ↦ ⟨fun _ ↦ (hnew.fits t ht).mp trivial, fun _ ↦ unexplored_nothing t⟩ }
  sound := sound_nothing
  mivcs := rfl
  nodup _ hs := absurd hs List.not_mem_nil
  smallest := ⟨.inl ⟨rfl, rfl⟩, fun _ hs ↦ absurd hs List.not_mem_nil⟩
  lb _ _ _ := Nat.zero_le _

/-- The run begins with IDs for a search for each subset of the gates, and one more. -/
theorem findMCSesUpfront_runs (h : ∀ n, Parts ctx (Reps n) CsRep fail) (hsearch : Searches ctx Reps fail)
    {map : M} {csFinder : F} (hmap : Reps (2 ^ (gateSet ctx).length + 1) (nothing : Explored ℕ).Unexplored map)
    (hfinder : CsRep [] csFinder) :
    Meets (fun f ↦ ∃ e, Runs ctx Reps CsRep (new ctx.tr map csFinder) e f) fail
      ((new ctx.tr map csFinder).findMCSesUpfront ctx) := by
  have hkeeps : Keeps ctx (Reps (2 ^ (gateSet ctx).length + 1)) nothing (new ctx.tr map csFinder) :=
    .new (h 0).map.idSet hmap
  refine (findMCSesUpfront_meets (h _) hkeeps hfinder).self.imp fun f hf ↦ ?_
  obtain ⟨hstart, ⟨e, hk, hopen⟩, hframe⟩ := hf
  have hfull : StartsFull ctx e f := fun _ _ ↦ .inl (by rw [hframe]; rfl)
  have hmin : KeepsMinimum ctx f := by
    rw [hframe]
    exact ⟨fun hne ↦ absurd rfl hne, fun _ _ ↦ .inr (.inl rfl), fun _ ↦ rfl⟩
  have hsupply : e.remaining (allGates ctx) + 1 ≤ 2 ^ (gateSet ctx).length + 1 := by
    have hcard := List.toFinset_card_le (gateSet ctx)
    rw [toFinset_gateSet] at hcard
    have hle := remaining_le (allGates ctx) e
    exact Nat.succ_le_succ (hle.trans (Nat.pow_le_pow_right (by decide) hcard))
  exact ⟨e, { hk with map := hsearch.contract.fewer hsupply hk.map }, hfull, .start hstart, fun _ ↦ hopen,
    fun _ ↦ hmin, fun _ ↦ .inr fun g hg ↦ .inr (hg.from_start hstart)⟩

theorem Reached.runs (h : ∀ n, Parts ctx (Reps n) CsRep fail) (hsearch : Searches ctx Reps fail)
    (hstop : ¬ Growable ctx → fail .assertion) {map : M} {csFinder : F}
    (hmap : Reps (2 ^ (gateSet ctx).length + 1) (nothing : Explored ℕ).Unexplored map)
    (hfinder : CsRep [] csFinder) (hf : Reached ctx (new ctx.tr map csFinder) f) :
    ∃ e, Runs ctx Reps CsRep (new ctx.tr map csFinder) e f := by
  induction hf with
  | start hf =>
    have hmeets := findMCSesUpfront_runs h hsearch hmap hfinder
    rw [hf] at hmeets
    exact hmeets
  | next _ hpass ih =>
    obtain ⟨e, hf⟩ := ih
    have hmeets := hf.explores h hsearch hstop
    unfold Passes at hpass
    rw [hpass] at hmeets
    obtain ⟨e', -, hf'⟩ := hf.step h hsearch hpass hmeets
    exact ⟨e', hf'⟩

/-- Nothing is declared too late when all minimal safe sets have the same size. -/
theorem timely_of_card_eq (hf : Knows ctx Rep CsRep e f) {size : ℕ}
    (hsize : ∀ t ⊆ allGates ctx, Minimal (SafeGates ctx.tr) t → t.card = size) : Timely ctx f := by
  intro _ _ _ m hm s hs
  have hfound : s.toFinset ∈ e.found := hf.mivcs ▸ List.mem_map_of_mem hs
  obtain ⟨hbase, hminimal⟩ := hf.sound.found _ hfound
  rw [← List.toFinset_card_of_nodup (hf.nodup s hs), hsize _ hbase hminimal, hsize m hm.opened.1 hm.minimal]

theorem doFindIVCs_meets (h : ∀ n, Parts ctx (Reps n) CsRep fail) (hsearch : Searches ctx Reps fail)
    (hstop : ¬ Growable ctx → fail .assertion) (hbad : ctx.tr.bad ≠ idFalse) {map : M} {csFinder : F}
    (hmap : Reps (2 ^ (gateSet ctx).length + 1) (nothing : Explored ℕ).Unexplored map)
    (hfinder : CsRep [] csFinder) :
    Meets (fun f ↦ Growable ctx ∧ Ends ctx (new ctx.tr map csFinder) f) fail
      (doFindIVCs ctx (new ctx.tr map csFinder)) := by
  unfold doFindIVCs
  rw [if_neg (by simpa using hbad)]
  refine (findMCSesUpfront_runs h hsearch hmap hfinder).bind fun f hf ↦ ?_
  obtain ⟨e, hruns⟩ := hf
  exact (loop_meets_ends h hsearch hstop hruns).bind fun f' hf' ↦ hf'

end UnifiedIVCFinder

end PME
