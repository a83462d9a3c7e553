import PME.BMCSolver

namespace PME

open Outcome TransitionRelation

namespace SATAdaptor

def Knows (ad : SATAdaptor) : Prop := ∀ v ∈ varsOf ad.clauses, v ∈ ad.known

variable {ad : SATAdaptor}

theorem knows_reset : ad.reset.Knows := by
  intro v hv
  obtain ⟨cls, hc, lit, hl, rfl⟩ := hv
  obtain rfl := List.mem_singleton.mp hc
  obtain rfl := List.mem_singleton.mp hl
  simp [reset]

theorem Knows.addClause (h : ad.Knows) (cls : Clause) :
    Meets Knows (fun _ ↦ True) (ad.addClause cls) := by
  by_cases hc : cls = []
  · subst hc
    exact trivial
  · refine (addClause_meets hc).imp fun ad' had v hv ↦ ?_
    obtain ⟨hclauses, -, -, hknown⟩ := had
    obtain ⟨c, hmem, lit, hl, rfl⟩ := hv
    rw [hclauses, List.mem_append, List.mem_singleton] at hmem
    rw [hknown]
    rcases hmem with hmem | rfl
    · exact .inl (h _ ⟨c, hmem, lit, hl, rfl⟩)
    · exact .inr ⟨lit, hl, rfl⟩

theorem Knows.addClauses (h : ad.Knows) (vec : ClauseVec) :
    Meets Knows (fun _ ↦ True) (ad.addClauses vec) :=
  foldlM_meets (fun _ ↦ Knows) ad h fun _ cls _ _ _ had ↦ had.addClause cls

theorem Knows.solve (h : ad.Knows) (S : SAT.Solver) (assumps : Cube) :
    (ad.solve S assumps).2.Knows ∧ ∀ lit ∈ assumps, strip lit ∈ (ad.solve S assumps).2.known := by
  constructor
  · intro v hv
    rw [solve_clauses] at hv
    exact mem_introduceVariables.mpr (.inl (h v hv))
  · intro lit hl
    exact mem_introduceVariables.mpr (.inr ⟨lit, hl, rfl⟩)

def seen (ad : SATAdaptor) (m : Assignment) : Assignment := fun v ↦ ad.known.contains v && m v

theorem seen_eq {v : ℕ} (m : Assignment) (hv : v ∈ ad.known) : ad.seen m v = m v := by
  rw [seen, List.contains_iff_mem.mpr hv, Bool.true_and]

/-- What a query has found stays a model when the unseen variables are taken to be false. -/
theorem Knows.seen_model (h : ad.Knows) {m : Assignment} {assumps : Cube}
    (ha : ∀ lit ∈ assumps, strip lit ∈ ad.known) (hm : satClauses m ad.clauses ∧ satCube m assumps) :
    satClauses (ad.seen m) ad.clauses ∧ satCube (ad.seen m) assumps := by
  constructor
  · exact (satClauses_congr fun v hv ↦ seen_eq m (h v hv)).mpr hm.1
  · exact (satCube_congr fun lit hl ↦ seen_eq m (ha lit hl)).mpr hm.2

/-- At time zero exactly the variables that are seen true are extracted unnegated. -/
theorem mem_extract_zero {vars : List ℕ} {v : ℕ} (m : Assignment)
    (hvars : ∀ u ∈ vars, u ≤ maxId ∧ u % 2 = 0) (hv : v ∈ vars) :
    v ∈ ad.extract m vars 0 ↔ ad.seen m v = true := by
  have hvalue : ∀ u ∈ vars, ∀ lit, ((ad.safeGetAssignment m (prime u 0)).map fun value ↦
      unprime (if value then prime u 0 else negate (prime u 0))) = some lit ↔
        u ∈ ad.known ∧ lit = if m u then u else negate u := by
    intro u hu lit
    obtain ⟨hmax, heven⟩ := hvars u hu
    have hneg : negate u ≤ maxId := by
      rw [negate_eq, if_pos heven]
      rw [maxId_eq] at hmax ⊢
      omega
    have hfits : ∀ w, w ≤ maxId → unprime w = w := fun w hw ↦ by
      rw [unprime_eq, Nat.mod_eq_of_lt (by rw [maxId_eq] at hw; omega)]
    rw [prime_zero hmax, safeGetAssignment, hasSAT, strip_of_even heven, litVal_of_even heven]
    by_cases hk : u ∈ ad.known
    · rw [if_pos (List.contains_iff_mem.mpr hk)]
      cases hm : m u with
      | true => simp [hk, hfits u hmax, eq_comm]
      | false => simp [hk, hfits _ hneg, eq_comm]
    · simp [hk]
  rw [extract, List.mem_filterMap]
  constructor
  · intro hmem
    obtain ⟨u, hu, hval⟩ := hmem
    obtain ⟨hk, hlit⟩ := (hvalue u hu v).mp hval
    have heven := (hvars v hv).2
    have hevenu := (hvars u hu).2
    cases hm : m u with
    | true =>
      rw [hm, if_pos rfl] at hlit
      rw [hlit, seen_eq m hk, hm]
    | false =>
      rw [hm, if_neg Bool.false_ne_true, negate_eq, if_pos hevenu] at hlit
      omega
  · intro hseen
    rw [seen, Bool.and_eq_true, List.contains_iff_mem] at hseen
    exact ⟨v, hv, (hvalue v hv v).mpr ⟨hseen.1, by rw [hseen.2, if_pos rfl]⟩⟩

end SATAdaptor

namespace BMCSolver

variable {S : SAT.Solver} {tr : TransitionRelation} {b : BMCSolver} {fail : Failure → Prop}
  {restrictions : ClauseVec} {assumps : Cube} {k : ℕ}

theorem knows_initSolver (h : b.solver.Knows) :
    Meets (fun b' ↦ b'.solver.Knows) (fun _ ↦ True) b.initSolver := by
  unfold initSolver
  cases hi : !b.solverInited with
  | false => exact trivial
  | true =>
    rw [ensure_true, ok_bind]
    refine (h.addClauses _).bind fun ad₁ h₁ ↦ ?_
    refine (meets_any _).bind fun frame _ ↦ ?_
    refine (h₁.addClauses _).bind fun ad₂ h₂ ↦ ?_
    exact (h₂.addClauses _).bind fun ad₃ h₃ ↦ h₃

theorem knows_unroll (h : b.solver.Knows) (n : ℕ) :
    Meets (fun b' ↦ b'.solver.Knows) (fun _ ↦ True) (b.unroll n) := by
  have hready : Meets (fun b' : BMCSolver ↦ b'.solver.Knows) (fun _ ↦ True)
      (if b.solverInited then pure b else b.initSolver) := by
    split
    · exact h
    · exact knows_initSolver h
  unfold unroll
  refine hready.bind fun b' hb' ↦ ?_
  cases hn : decide (n > b'.numFrames) with
  | false => exact trivial
  | true =>
    rw [ensure_true, ok_bind]
    refine (foldlM_meets (fun _ ↦ SATAdaptor.Knows) b'.solver hb' ?_).bind fun ad had ↦ had
    exact fun _ i _ _ _ had ↦ (meets_any _).bind fun _ _ ↦ had.addClauses _

theorem knows_restrictInitialStates (h : b.solver.Knows) (cls : Clause) :
    Meets (fun b' ↦ b'.solver.Knows) (fun _ ↦ True) (b.restrictInitialStates cls) := by
  unfold restrictInitialStates
  dsimp only
  split
  · exact (h.addClause cls).bind fun _ had ↦ had
  · exact h

def Traces (tr : TransitionRelation) (restrictions : ClauseVec) (assumps : Cube) (k : ℕ)
    (cex : SafetyCounterExample) : Prop :=
  ∃ σ, σ idFalse = false ∧ tr.IsInit (frameOf σ 0) ∧ tr.IsRun (k + 1) (frameOf σ) ∧
    satClauses σ restrictions ∧ satCube σ assumps ∧ litVal (frameOf σ k) tr.bad = true ∧
    ∃ s rest, cex = s :: rest ∧ ∀ v ∈ tr.latchIDs, (v ∈ s.state ↔ σ v = true)

theorem Traces.execution {cex : SafetyCounterExample} (h : Traces tr restrictions assumps k cex) :
    Execution tr restrictions assumps k (k + 1) := by
  obtain ⟨σ, hc, hinit, hrun, hr, ha, hbad, -⟩ := h
  exact ⟨σ, hc, hinit, hrun, hr, ha, hbad⟩

theorem solveAtK_traces (S : SAT.Solver) (hwf : tr.WellFormed) (h : Rep tr b) (hk : b.solver.Knows)
    (hfail : [] ∈ b.initConstraints → fail .assertion) {k : ℕ}
    (hdeep : Deep tr k → fail .assertion) (assumps : Cube) :
    Meets (fun p : SafetyResult × BMCSolver ↦ p.2.solver.Knows ∧ (p.1.result = .unsafeAt →
      Traces tr b.initConstraints assumps k p.1.cex)) fail (b.solveAtK S k assumps) := by
  have hready : Meets (fun b' : BMCSolver ↦ b'.solver.Knows) (fun _ ↦ True)
      (if k ≥ b.numFrames then b.unroll (k + 1) else pure b) := by
    split
    · exact knows_unroll hk (k + 1)
    · exact hk
  have hvars : ∀ u ∈ tr.latchIDs, u ≤ maxId ∧ u % 2 = 0 := fun u hu ↦
    (hwf.isVar u (mem_signals.mpr (.inl (List.mem_append_right _ hu)))).2
  unfold solveAtK
  refine (primeChecked_meets fun hk ↦ hdeep (.inl hk)).bind fun bad hbad ↦ ?_
  rw [h.tr_eq] at hbad
  subst hbad
  refine ((ready_meets h hwf.toCNF_nonempty hfail hdeep).and hready).bind fun b' hb' ↦ ?_
  obtain ⟨⟨ad, rfl, hholds⟩, hknows⟩ := hb'
  dsimp only at hknows ⊢
  rw [h.tr_eq]
  have hvalid := ad.solve_valid S (assumps ++ [prime tr.bad k])
  have hclauses := ad.solve_clauses S (assumps ++ [prime tr.bad k])
  obtain ⟨hknows', hasked⟩ := hknows.solve S (assumps ++ [prime tr.bad k])
  generalize ad.solve S (assumps ++ [prime tr.bad k]) = p at hvalid hclauses hknows' hasked ⊢
  obtain ⟨answer, ad'⟩ := p
  dsimp only at hvalid hclauses hknows' hasked ⊢
  rw [← hclauses] at hvalid hholds
  cases answer with
  | unsat crits => exact ⟨hknows', nofun⟩
  | sat m =>
    refine ⟨hknows', fun _ ↦ ⟨ad'.seen m, ?_⟩⟩
    have hmodel := hknows'.seen_model hasked hvalid
    obtain ⟨hc, hinit, hrun, hr, ha, hbad⟩ := (hholds.asks_iff hwf.toLitsValid _ _ _).mp hmodel
    refine ⟨hc, hinit, fun i hi ↦ hrun i (by omega), hr, ha, hbad, ?_⟩
    dsimp only [extractTrace]
    rw [List.range_succ_eq_map, List.map_cons]
    exact ⟨_, _, rfl, fun v hv ↦ SATAdaptor.mem_extract_zero m hvars hv⟩

theorem mem_known_of_kept (hwf : tr.WellFormed) {n : ℕ} {ad : SATAdaptor} {m : Assignment}
    (hholds : Holds tr restrictions n ad.clauses) (hn : 0 < n) (hk : ad.Knows)
    (hm : satClauses m ad.clauses) {l : Latch} (hl : l ∈ tr.latches) (hkept : l.next = l.id) :
    l.id ∈ ad.known := by
  obtain ⟨hmin, hmax, heven⟩ :=
    hwf.isVar l.id (mem_signals.mpr (.inl (List.mem_append_right _ (hwf.latch_mem hl))))
  have hstep : ∀ σ, satClauses σ ad.clauses → σ (prime l.id 1) = σ l.id := by
    intro σ hσ
    have hparts := (hholds σ).mp hσ
    have hc : σ idFalse = false := by
      have htrue := (satClause_cons _ _).mp (hparts.1 [idTrue] List.mem_cons_self)
      rwa [or_iff_left not_satClause_nil, litVal_idTrue, Bool.not_eq_true'] at htrue
    have hrun := ((satClauses_unrollFrame hwf.toLitsValid hc 0).mp (hparts.2.2.1 0 hn)).2 l hl
    rw [hkept, litVal_of_even heven, frameOf_zero hmax] at hrun
    exact hrun
  by_contra hno
  have hflip : satClauses (Function.update m l.id !m l.id) ad.clauses := by
    refine (satClauses_congr fun v hv ↦ Function.update_of_ne ?_ _ _).mpr hm
    rintro rfl
    exact hno (hk l.id hv)
  have hne : prime l.id 1 ≠ l.id := by
    rw [prime_of_ge hmin hmax]
    omega
  have hlast := hstep _ hflip
  rw [Function.update_of_ne hne, Function.update_self, hstep m hm] at hlast
  exact (Bool.eq_not_self _).mp hlast

/-- A solver that prefers models with a property of the latches that keep their values finds an
execution with the property, where all frames have one. -/
theorem solveAtK_prefers {p : Assignment → Prop} (hS : S.Prefers p) (hwf : tr.WellFormed) (h : Rep tr b)
    (hk : b.solver.Knows) (hp : ∀ σ τ : Assignment,
      (∀ l ∈ tr.latches, l.next = l.id → σ l.id = τ l.id) → p σ → p τ) {k : ℕ}
    (hex : ∀ n, ∃ σ, (σ idFalse = false ∧ tr.IsInit (frameOf σ 0) ∧ tr.IsRun n (frameOf σ) ∧
      satClauses σ b.initConstraints ∧ satCube σ assumps ∧ litVal (frameOf σ k) tr.bad = true) ∧ p σ) :
    Meets (fun q : SafetyResult × BMCSolver ↦ q.1.result = .unsafeAt ∧ ∃ σ, p σ ∧
      ∃ s rest, q.1.cex = s :: rest ∧ ∀ v ∈ tr.latchIDs, (v ∈ s.state ↔ σ v = true)) (fun _ ↦ True)
      (b.solveAtK S k assumps) := by
  have hready : Meets (fun b' : BMCSolver ↦ b'.solver.Knows) (fun _ ↦ True)
      (if k ≥ b.numFrames then b.unroll (k + 1) else pure b) := by
    split
    · exact knows_unroll hk (k + 1)
    · exact hk
  have hvars : ∀ u ∈ tr.latchIDs, u ≤ maxId ∧ u % 2 = 0 := fun u hu ↦
    (hwf.isVar u (mem_signals.mpr (.inl (List.mem_append_right _ hu)))).2
  unfold solveAtK
  refine (primeChecked_meets fun _ ↦ trivial).bind fun bad hbad ↦ ?_
  rw [h.tr_eq] at hbad
  subst hbad
  have hgo : Meets _ (fun _ ↦ True) (if k ≥ b.numFrames then b.unroll (k + 1) else pure b) :=
    ready_meets h hwf.toCNF_nonempty (fun _ ↦ trivial) fun _ ↦ trivial
  refine (hgo.and hready).bind fun b' hb' ↦ ?_
  obtain ⟨⟨ad, rfl, hholds⟩, hknows⟩ := hb'
  dsimp only at hknows ⊢
  rw [h.tr_eq]
  obtain ⟨σ, hσ, hpσ⟩ := hex (max b.numFrames (k + 1))
  obtain ⟨m, hsolve, hpm⟩ := hS ad.calls ad.clauses (assumps ++ [prime tr.bad k])
    ⟨σ, (hholds.asks_iff hwf.toLitsValid _ _ _).mpr hσ, hpσ⟩
  have hanswer : (ad.solve S (assumps ++ [prime tr.bad k])).1 = .sat m := hsolve
  have hvalid := ad.solve_valid S (assumps ++ [prime tr.bad k])
  have hclauses := ad.solve_clauses S (assumps ++ [prime tr.bad k])
  obtain ⟨hknows', -⟩ := hknows.solve S (assumps ++ [prime tr.bad k])
  generalize ad.solve S (assumps ++ [prime tr.bad k]) = q at hanswer hvalid hclauses hknows' ⊢
  obtain ⟨answer, ad'⟩ := q
  dsimp only at hanswer hvalid hclauses hknows' ⊢
  subst hanswer
  rw [← hclauses] at hvalid hholds
  refine ⟨rfl, ad'.seen m, hp m _ (fun l hl hkept ↦ ?_) hpm, ?_⟩
  · have hknown := mem_known_of_kept hwf hholds (by omega) hknows' hvalid.1 hl hkept
    exact (SATAdaptor.seen_eq m hknown).symm
  · dsimp only [extractTrace]
    rw [List.range_succ_eq_map, List.map_cons]
    exact ⟨_, _, rfl, fun v hv ↦ SATAdaptor.mem_extract_zero m hvars hv⟩

/-- Where an execution can always be gone on with, every bound is answered as if it came first,
and the first that has an execution gives its trace. -/
theorem solveAt_traces (S : SAT.Solver) (hwf : tr.WellFormed) (h : Rep tr b) (hk : b.solver.Knows)
    (hfail : [] ∈ b.initConstraints → fail .assertion)
    (hext : ∀ k m, Execution tr b.initConstraints assumps k (k + 1) →
      Execution tr b.initConstraints assumps k m) (ks : List ℕ)
    (hdeep : ∀ k ∈ ks, Deep tr k → fail .assertion) :
    Meets (fun p : SafetyResult × BMCSolver ↦ Rep tr p.2 ∧ p.2.solver.Knows ∧
      p.2.initConstraints = b.initConstraints ∧
      (p.1.result = .unsafeAt → ∃ k ∈ ks, Traces tr b.initConstraints assumps k p.1.cex) ∧
      (p.1.result ≠ .unsafeAt → ∀ k ∈ ks, ¬ Execution tr b.initConstraints assumps k (k + 1)))
      fail (solveAt S assumps ks b) := by
  induction ks generalizing b with
  | nil => exact ⟨h, hk, rfl, nofun, fun _ ↦ nofun⟩
  | cons k ks ih =>
    have hne := hwf.toCNF_nonempty
    have hexact := solveAtK_meets S h hwf.toLitsValid hne hfail (hdeep k List.mem_cons_self) assumps
    have htraces : Meets _ (fun _ ↦ True) (b.solveAtK S k assumps) :=
      solveAtK_traces S hwf h hk (fun _ ↦ trivial) (fun _ ↦ trivial) assumps
    unfold solveAt
    refine (hexact.and htraces).bind fun p hp ↦ ?_
    obtain ⟨⟨hrep, hinit, -, hanswer⟩, hknows, htrace⟩ := hp
    dsimp only
    split
    · next hunsafe =>
      refine ⟨hrep, hknows, hinit, fun _ ↦ ?_, fun hno ↦ absurd hunsafe hno⟩
      exact ⟨k, List.mem_cons_self, htrace hunsafe⟩
    · next hno =>
      have hrest := ih hrep hknows (hinit.symm ▸ hfail) (hinit.symm ▸ hext) fun i hi ↦
        hdeep i (List.mem_cons_of_mem k hi)
      refine hrest.imp fun q hq ↦ ?_
      rw [hinit] at hq
      obtain ⟨hrep', hknows', hinit', hfound, hnone⟩ := hq
      refine ⟨hrep', hknows', hinit', fun hu ↦ ?_, fun hn ↦ ?_⟩
      · obtain ⟨i, hi, ht⟩ := hfound hu
        exact ⟨i, List.mem_cons_of_mem k hi, ht⟩
      · intro i hi
        rcases List.mem_cons.mp hi with rfl | hi
        · exact fun hex ↦ hno (hanswer.mpr (hext i _ hex))
        · exact hnone hn i hi

theorem solveAt_started (S : SAT.Solver) (hwf : tr.WellFormed) (h : Rep tr b) (ks : List ℕ) :
    Meets (fun p : SafetyResult × BMCSolver ↦ p.1.result = .unsafeAt → p.2.solverInited = true)
      (fun _ ↦ True) (solveAt S assumps ks b) := by
  induction ks generalizing b with
  | nil => exact nofun
  | cons k ks ih =>
    have hsolve : Meets _ (fun _ ↦ True) (b.solveAtK S k assumps) :=
      solveAtK_meets S h hwf.toLitsValid hwf.toCNF_nonempty (fun _ ↦ trivial) (fun _ ↦ trivial)
        assumps
    unfold solveAt
    refine hsolve.bind fun p hp ↦ ?_
    obtain ⟨hrep, -, hframes, -⟩ := hp
    dsimp only
    split
    · intro _
      cases hi : p.2.solverInited with
      | true => rfl
      | false =>
        have hzero := (hrep.start hi).2
        omega
    · exact ih hrep

theorem restricts_one (b : BMCSolver) {cls : Clause} (hc : cls ≠ []) :
    Meets (fun b' ↦ b'.initConstraints = b.initConstraints ++ [cls]) fail
      (b.restrictInitialStates cls) := by
  unfold restrictInitialStates
  dsimp only
  split
  · exact (SATAdaptor.addClause_meets hc).bind fun _ _ ↦ rfl
  · rfl

structure Ready (tr : TransitionRelation) (restrictions : ClauseVec) (b : BMCSolver) : Prop where
  rep : Rep tr b
  knows : b.solver.Knows
  init : b.initConstraints = restrictions

theorem ready_new : Ready tr [] (new tr) := ⟨rep_new, SATAdaptor.knows_reset, rfl⟩

theorem Ready.clear (h : Ready tr restrictions b) : Ready tr [] b.clearRestrictions :=
  ⟨⟨h.rep.tr_eq, fun _ ↦ ⟨rfl, rfl⟩, nofun, nofun⟩, SATAdaptor.knows_reset, rfl⟩

theorem Ready.restrict (h : Ready tr restrictions b) {cls : Clause} (hc : cls ≠ []) :
    Meets (Ready tr (restrictions ++ [cls])) fail (b.restrictInitialStates cls) := by
  have hrep : Meets (Held tr fun _ ↦ True) (fun _ ↦ True) (b.restrictInitialStates cls) :=
    restrictInitialStates_meets ⟨h.rep, fun _ ↦ trivial⟩ fun _ ↦ trivial
  have hknows := knows_restrictInitialStates h.knows cls
  refine (((restricts_one b hc).and hrep).and hknows).imp fun b' hb' ↦ ?_
  obtain ⟨⟨hinit, hrep'⟩, hknows'⟩ := hb'
  rw [h.init] at hinit
  exact ⟨hrep'.rep, hknows', hinit⟩

theorem Ready.restrictAll (h : Ready tr restrictions b) {vec : ClauseVec} (hc : ∀ cls ∈ vec, cls ≠ []) :
    Meets (Ready tr (restrictions ++ vec)) fail (b.restrictInitialStatesAll vec) := by
  have hstart : Ready tr (restrictions ++ []) b := by
    rw [List.append_nil]
    exact h
  refine foldlM_meets (fun done ↦ Ready tr (restrictions ++ done)) b hstart ?_
  intro done cls rest b' hl hb'
  have hmem : cls ∈ vec := hl ▸ List.mem_append_right done List.mem_cons_self
  rw [← List.append_assoc]
  exact hb'.restrict (hc cls hmem)

theorem Ready.solveRange (S : SAT.Solver) (hwf : tr.WellFormed) (h : Ready tr restrictions b)
    (hne : ∀ cls ∈ restrictions, cls ≠ [])
    (hext : ∀ k m, Execution tr restrictions assumps k (k + 1) →
      Execution tr restrictions assumps k m) (kMin : ℕ) {kMax : ℕ}
    (hdeep : Deep tr kMax → fail .assertion) :
    Meets (fun p : SafetyResult × BMCSolver ↦ Ready tr restrictions p.2 ∧
      (p.1.result = .unsafeAt →
        ∃ k, (kMin ≤ k ∧ k ≤ kMax) ∧ Traces tr restrictions assumps k p.1.cex) ∧
      (p.1.result ≠ .unsafeAt →
        ∀ k, kMin ≤ k ∧ k ≤ kMax → ¬ Execution tr restrictions assumps k (k + 1)))
      fail (b.solveRange S kMin kMax assumps) := by
  have hrange : ∀ k, k ∈ List.range' kMin (kMax + 1 - kMin) ↔ kMin ≤ k ∧ k ≤ kMax := by
    intro k
    rw [List.mem_range'_1]
    omega
  have hfail : [] ∈ b.initConstraints → fail .assertion := fun hmem ↦
    absurd rfl (hne [] (h.init ▸ hmem))
  unfold BMCSolver.solveRange
  have hsolve := solveAt_traces S hwf h.rep h.knows hfail (h.init.symm ▸ hext)
    (List.range' kMin (kMax + 1 - kMin)) fun k hk hd ↦ hdeep (hd.mono ((hrange k).mp hk).2)
  refine hsolve.imp fun p hp ↦ ?_
  rw [h.init] at hp
  obtain ⟨hrep, hknows, hinit, hfound, hnone⟩ := hp
  refine ⟨⟨hrep, hknows, hinit⟩, fun hu ↦ ?_, fun hn k hk ↦ hnone hn k ((hrange k).mpr hk)⟩
  obtain ⟨k, hk, ht⟩ := hfound hu
  exact ⟨k, (hrange k).mp hk, ht⟩

end BMCSolver

end PME
