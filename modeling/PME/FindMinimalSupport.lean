import PME.ProofClauses

namespace PME

open Outcome Support TransitionRelation

namespace ConsecutionChecker

open ProofChecker (ProofClause)

/-- The loop of `findMinimalSupport` over the sorted frame, which consists of the IDs before the
iterator and those from it on. The frame without the ID is made in each pass but not used. -/
def minimizeLoop (B : Backend) (cls : Clause) : ℕ → List ℕ → List ℕ → ConsecutionChecker →
    Result (List ℕ × ConsecutionChecker)
  | 0, _, _, _ => throw .outOfFuel
  | _ + 1, front, [], cc => return (front, cc)
  | n + 1, front, id :: rest, cc => do
    let (answer, cc) ← cc.supportSolve B (front ++ id :: rest) cls
    match answer with
    | .holds support => do
      ensure (decide (support.length ≤ (front ++ id :: rest).length))
      let frame := support.insertionSort (· ≤ ·)
      minimizeLoop B cls n (frame.takeWhile (· ≤ id)) (frame.dropWhile (· ≤ id)) cc
    | .fails _ => minimizeLoop B cls n (front ++ [id]) rest cc

def findMinimalSupport (B : Backend) (cc : ConsecutionChecker) (frame : List ℕ) (cls : Clause) :
    Result (List ℕ × ConsecutionChecker) :=
  minimizeLoop B cls (frame.length + 1) [] (frame.insertionSort (· ≤ ·)) cc

def findMinimalSupportOf (B : Backend) (cc : ConsecutionChecker) (frame : List ℕ) (id : ℕ) :
    Result (List ℕ × ConsecutionChecker) := do
  let cls ← cc.clauseOf id
  cc.findMinimalSupport B frame cls

def Whole (S : SAT.Solver) (c : Clause) : Prop :=
  ∀ k db acts crits, S.solve k db (acts ++ c.map fun lit ↦ negate (prime lit 1)) = .unsat crits →
    acts ⊆ crits

theorem whole_exhaustive (c : Clause) : Whole .exhaustive c := by
  intro k db acts crits h
  unfold SAT.Solver.exhaustive at h
  dsimp only at h
  split at h
  · exact nomatch h
  · cases h
    exact List.Subset.trans (List.subset_append_left _ _) (List.subset_dedup _)

variable {B : Backend} {tr : TransitionRelation} {cls : ℕ → Clause} {base : Finset ℕ} {n : ℕ}
  {vm : VariableManager} {cc cc' : ConsecutionChecker} {fail : Failure → Prop}
  {frame front rest support : List ℕ} {c : Clause}

/-- The core from which a support comes. A clause of the frame is not added for the query. -/
theorem supportSolve_core (h : Rep B tr cls base n vm cc) (hc : Checkable tr cls base n)
    (hframe : ∀ d ∈ frame, d ∈ base) (hr : cc.supportSolve B frame c = .ok (.holds support, cc')) :
    ∃ k db acts crits, (∀ act, act ∈ acts ↔
        ∃ e ∈ cc.clausedb.entries, e.id ∈ frame ∧ e.activation = act) ∧
      B.sat.solve k db (acts ++ c.map fun lit ↦ negate (prime lit 1)) = .unsat crits ∧
      (∀ d, d ∈ support ↔ ∃ e ∈ cc.clausedb.entries, e.id = d ∧ e.activation ∈ crits) ∧
      ((∃ d ∈ frame, (cls d).insertionSort (· ≤ ·) = c.insertionSort (· ≤ ·)) →
        ∃ vec, FormulaAnswers tr cc.clausedb.entries vec ∧ db = [idTrue] :: vec) := by
  unfold supportSolve at hr
  obtain ⟨cc₁, hcc₁, hr⟩ := bind_eq_ok.mp hr
  obtain ⟨h₁, hi₁, hdb⟩ : Rep B tr cls base n vm cc₁ ∧ cc₁.solverInited = true ∧
      cc₁.clausedb = cc.clausedb := by
    split at hcc₁
    · cases hcc₁
      exact ⟨h, ‹_›, rfl⟩
    · have hinit : Meets _ (fun _ ↦ True) _ :=
        initSolver_meets h hc (Bool.eq_false_iff.mpr ‹_›) fun _ ↦ trivial
      exact hinit.of_ok hcc₁
  obtain ⟨⟨acts, added⟩, hact, hr⟩ := bind_eq_ok.mp hr
  have hacts : Meets _ (fun _ ↦ True) _ := h₁.activate_meets hframe (c.insertionSort (· ≤ ·))
  obtain ⟨hacts, hadded⟩ := hacts.of_ok hact
  rw [hdb] at hacts
  dsimp only at hacts hadded hr
  obtain ⟨⟨answer, solver⟩, hquery, hr⟩ := bind_eq_ok.mp hr
  obtain ⟨k, db, hanswer, hsame⟩ : ∃ k db,
      answer = B.sat.solve k db (acts ++ c.map fun lit ↦ negate (prime lit 1)) ∧
        (added = true → db = cc₁.solver.clauses) := by
    split at hquery
    · cases hquery
      exact ⟨_, _, rfl, fun _ ↦ rfl⟩
    · next hno =>
      obtain ⟨ad, -, hquery⟩ := bind_eq_ok.mp hquery
      cases hquery
      exact ⟨_, _, rfl, fun hyes ↦ absurd hyes hno⟩
  cases answer with
  | sat m => exact nomatch hr
  | unsat crits =>
    cases hr
    refine ⟨k, db, acts, crits, hacts, hanswer.symm, fun d ↦ ?_, fun hex ↦ ?_⟩
    · have hmem : d ∈ cc₁.supportOf crits ↔ _ := h₁.mem_supportOf
      rwa [hdb] at hmem
    · obtain ⟨d, hd, heq⟩ := hex
      obtain ⟨e, he, rfl⟩ := h₁.ids d (hframe d hd)
      obtain ⟨-, vec, hvec, hcl, -⟩ := h₁.solving hi₁
      rw [hdb] at hvec
      exact ⟨vec, hvec, (hsame (hadded.mpr ⟨e, he, hd, (h₁.entered.clause e he).trans heq⟩)).trans hcl⟩

theorem supportSolve_whole (hS : Whole B.sat c) (h : Rep B tr cls base n vm cc)
    (hc : Checkable tr cls base n) (hframe : ∀ d ∈ frame, d ∈ base)
    (hr : cc.supportSolve B frame c = .ok (.holds support, cc')) : frame ⊆ support := by
  obtain ⟨k, db, acts, crits, hacts, hsolve, hsupport, -⟩ := supportSolve_core h hc hframe hr
  intro d hd
  obtain ⟨e, he, rfl⟩ := h.ids d (hframe d hd)
  exact (hsupport _).mpr ⟨e, he, rfl, hS k db acts crits hsolve ((hacts _).mpr ⟨e, he, hd, rfl⟩)⟩

theorem lt_of_mem_dropWhile {l : List ℕ} {id d : ℕ} (h : l.Pairwise (· ≤ ·))
    (hd : d ∈ l.dropWhile (· ≤ id)) : id < d := by
  induction l with
  | nil => exact absurd hd List.not_mem_nil
  | cons a l ih =>
    obtain ⟨ha, hl⟩ := List.pairwise_cons.mp h
    by_cases hle : a ≤ id
    · rw [List.dropWhile_cons_of_pos (by simpa using hle)] at hd
      exact ih hl hd
    · rw [List.dropWhile_cons_of_neg (by simpa using hle)] at hd
      cases List.mem_cons.mp hd with
      | inl heq => exact heq ▸ lt_of_not_ge hle
      | inr hmem => exact (lt_of_not_ge hle).trans_le (ha d hmem)

structure Minimizing (tr : TransitionRelation) (cls : ℕ → Clause) (c : Clause) (frame front rest : List ℕ) :
    Prop where
  subset : front ++ rest ⊆ frame
  length : (front ++ rest).length ≤ frame.length
  sorted : (front ++ rest).Pairwise (· ≤ ·)
  carries : Carries tr cls (front ++ rest).toFinset c

theorem Minimizing.next {id : ℕ} (h : Minimizing tr cls c frame front (id :: rest))
    (hnodup : support.Nodup) (hsub : support ⊆ front ++ id :: rest)
    (hcarries : Carries tr cls support.toFinset c) :
    support.length ≤ (front ++ id :: rest).length ∧
    Minimizing tr cls c frame ((support.insertionSort (· ≤ ·)).takeWhile (· ≤ id))
      ((support.insertionSort (· ≤ ·)).dropWhile (· ≤ id)) ∧
    ((support.insertionSort (· ≤ ·)).dropWhile (· ≤ id)).length ≤ rest.length := by
  have hlen : support.length ≤ (front ++ id :: rest).length := by
    have hcard := List.toFinset_card_le (front ++ id :: rest)
    rw [← List.toFinset_card_of_nodup hnodup]
    exact (Finset.card_le_card fun d hd ↦
      List.mem_toFinset.mpr (hsub (List.mem_toFinset.mp hd))).trans hcard
  have hperm := List.perm_insertionSort (· ≤ ·) support
  have hsorted : (support.insertionSort (· ≤ ·)).Pairwise (· ≤ ·) := List.pairwise_insertionSort (· ≤ ·) support
  have hset : (support.insertionSort (· ≤ ·)).toFinset = support.toFinset := List.toFinset_eq_of_perm _ _ hperm
  refine ⟨hlen, ?_, ?_⟩
  · constructor
    · rw [List.takeWhile_append_dropWhile]
      exact fun d hd ↦ h.subset (hsub (hperm.mem_iff.mp hd))
    · rw [List.takeWhile_append_dropWhile, hperm.length_eq]
      exact hlen.trans h.length
    · rwa [List.takeWhile_append_dropWhile]
    · rwa [List.takeWhile_append_dropWhile, hset]
  · have hafter : ∀ d ∈ (support.insertionSort (· ≤ ·)).dropWhile (· ≤ id), d ∈ rest := by
      intro d hd
      have hmem : d ∈ support := hperm.mem_iff.mp ((List.dropWhile_sublist _).subset hd)
      have hgt : id < d := lt_of_mem_dropWhile hsorted hd
      have hpair := List.pairwise_append.mp h.sorted
      cases List.mem_append.mp (hsub hmem) with
      | inl hfront => exact absurd (hpair.2.2 d hfront id List.mem_cons_self) (not_le_of_gt hgt)
      | inr hrest => exact (List.mem_cons.mp hrest).resolve_left hgt.ne'
    have hnodup' : ((support.insertionSort (· ≤ ·)).dropWhile (· ≤ id)).Nodup :=
      (hperm.nodup_iff.mpr hnodup).sublist (List.dropWhile_sublist _)
    exact (hnodup'.subperm hafter).length_le

structure Minimized (B : Backend) (tr : TransitionRelation) (cls : ℕ → Clause) (c : Clause)
    (frame result : List ℕ) : Prop where
  subset : result ⊆ frame
  length : result.length ≤ frame.length
  carries : Carries tr cls result.toFinset c
  whole : Whole B.sat c → frame ⊆ result

/-- The loop never fails if in each of its passes the clause may be asked about. -/
theorem minimizeLoop_meets (hc : Checkable tr cls base n) (hframe : ∀ d ∈ frame, d ∈ base)
    (ok : List ℕ → List ℕ → Prop)
    (hask : ∀ front id rest, ok front (id :: rest) → Askable tr cls fail (front ++ id :: rest) c)
    (hok : ∀ front id rest cc cc' support, Rep B tr cls base n vm cc →
      Minimizing tr cls c frame front (id :: rest) → ok front (id :: rest) →
      cc.supportSolve B (front ++ id :: rest) c = .ok (.holds support, cc') →
      ok ((support.insertionSort (· ≤ ·)).takeWhile (· ≤ id))
        ((support.insertionSort (· ≤ ·)).dropWhile (· ≤ id))) {k : ℕ}
    (h : Rep B tr cls base n vm cc) (hfail : Refuted B tr cc.clausedb.entries → fail .assertion)
    (hm : Minimizing tr cls c frame front rest) (hfirst : ok front rest) (hk : rest.length < k)
    (hall : Whole B.sat c → frame ⊆ front ++ rest) :
    Meets (fun r ↦ Rep B tr cls base n vm r.2 ∧ r.2.clausedb = cc.clausedb ∧
      Minimized B tr cls c frame r.1) fail (minimizeLoop B c k front rest cc) := by
  induction k generalizing front rest cc with
  | zero => exact absurd hk (Nat.not_lt_zero _)
  | succ k ih =>
    cases rest with
    | nil =>
      have hsame : front ++ [] = front := List.append_nil front
      rw [hsame] at hall
      rw [minimizeLoop]
      exact ⟨h, rfl, hsame ▸ hm.subset, hsame ▸ hm.length, hsame ▸ hm.carries, hall⟩
    | cons id rest =>
      have hmem : ∀ d ∈ front ++ id :: rest, d ∈ base := fun d hd ↦ hframe d (hm.subset hd)
      unfold minimizeLoop
      refine ((supportSolve_meets h hc hfail hmem (hask front id rest hfirst)).self).bind fun r hr ↦ ?_
      obtain ⟨answer, cc'⟩ := r
      obtain ⟨hrun, h', -, hdb, hans⟩ := hr
      dsimp only at h' hdb hans ⊢
      cases answer with
      | fails m => exact absurd (hans.iff.mpr hm.carries) Bool.false_ne_true
      | holds supp =>
        obtain ⟨hnodup, hsub, hcarries⟩ := hans.support supp rfl
        obtain ⟨hlen, hnext, hshort⟩ := hm.next hnodup hsub hcarries
        dsimp only
        rw [decide_eq_true hlen, ensure_true, ok_bind]
        refine (ih h' (hdb ▸ hfail) hnext (hok front id rest cc cc' supp h hm hfirst hrun) ?_
          fun hS ↦ ?_).imp fun r hr ↦ ⟨hr.1, hr.2.1.trans hdb, hr.2.2⟩
        · rw [List.length_cons] at hk
          omega
        · rw [List.takeWhile_append_dropWhile]
          intro d hd
          exact (List.perm_insertionSort (· ≤ ·) supp).mem_iff.mpr
            (supportSolve_whole hS h hc hmem hrun (hall hS hd))

theorem minimizing_start (hcarries : Carries tr cls frame.toFinset c) :
    Minimizing tr cls c frame [] (frame.insertionSort (· ≤ ·)) := by
  have hperm := List.perm_insertionSort (· ≤ ·) frame
  have hset : (frame.insertionSort (· ≤ ·)).toFinset = frame.toFinset := List.toFinset_eq_of_perm _ _ hperm
  refine ⟨fun d hd ↦ hperm.mem_iff.mp hd, hperm.length_eq.le, List.pairwise_insertionSort (· ≤ ·) frame, ?_⟩
  rwa [List.nil_append, hset]

theorem findMinimalSupport_meets (h : Rep B tr cls base n vm cc) (hc : Checkable tr cls base n)
    (hframe : ∀ d ∈ frame, d ∈ base) (hown : ∀ lit ∈ c, Own tr lit ∧ MayAsk tr lit)
    (hempty : c = [] → fail .assertion) (hfail : Refuted B tr cc.clausedb.entries → fail .assertion)
    (hcarries : Carries tr cls frame.toFinset c) :
    Meets (fun r ↦ Rep B tr cls base n vm r.2 ∧ r.2.clausedb = cc.clausedb ∧
      Minimized B tr cls c frame r.1) fail (cc.findMinimalSupport B frame c) := by
  have hperm := List.perm_insertionSort (· ≤ ·) frame
  refine minimizeLoop_meets hc hframe (fun _ _ ↦ True) (fun _ _ _ _ ↦ ?_) (fun _ _ _ _ _ _ _ _ _ _ ↦ trivial)
    h hfail (minimizing_start hcarries) trivial ?_ fun _ d hd ↦ hperm.mem_iff.mpr hd
  · exact ⟨fun lit hl ↦ (hown lit hl).2, .inr ⟨fun lit hl ↦ (hown lit hl).1, hempty⟩⟩
  · rw [hperm.length_eq]
    exact Nat.lt_succ_self _

/-- A clause that some step can lose is not empty, and its formula is not contradictory. -/
theorem Rep.not_refuted (h : Rep B tr cls base n vm cc) (hc : Checkable tr cls base n) {x y : Assignment}
    (hxy : tr.Linked x y) : ¬ Refuted B tr cc.clausedb.entries := by
  intro hr
  obtain ⟨σ, hσ, -⟩ := exists_twoFrames (hc.suits h.entered h.vars) hxy (fun _ ↦ false) fun _ _ ↦ nofun
  exact B.simplifier.unsat _ _ hr.2 σ hσ

/-- What `findMinimalSupport` should return. -/
structure MinimalSupport (tr : TransitionRelation) (cls : ℕ → Clause) (c : Clause)
    (frame result : List ℕ) : Prop where
  subset : result ⊆ frame
  carries : Carries tr cls result.toFinset c
  minimal : ∀ d ∈ result, ¬ Carries tr cls (result.toFinset.erase d) c

theorem MinimalSupport.of_frame {result : List ℕ} (hm : Minimized B tr cls c frame result)
    (hframe : ∀ d ∈ frame, ¬ Carries tr cls (frame.toFinset.erase d) c) :
    MinimalSupport tr cls c frame result := by
  refine ⟨hm.subset, hm.carries, fun d hd hcarries ↦ hframe d (hm.subset hd) ?_⟩
  refine upward_carries c (Finset.erase_subset_erase d fun a ha ↦ ?_) hcarries
  exact List.mem_toFinset.mpr (hm.subset (List.mem_toFinset.mp ha))

variable {proof : ClauseVec} {vm' : VariableManager}

/-- The support returned is minimal whatever the cores are exactly if the frame already is. -/
theorem findMinimalSupport_minimal (h : Provable tr vm proof)
    (hreg : addAll vm (new tr) 0 proof = .ok (vm', cc)) (hq : Queried B proof.length cc cc')
    (hframe : ∀ d ∈ frame, d < proof.length) (hclause : ProofClause tr c)
    (hcarries : Carries tr (clauses proof) frame.toFinset c) :
    (∀ S : SAT.Solver, Meets (fun r ↦ MinimalSupport tr (clauses proof) c frame r.1) (fun _ ↦ False)
      (cc'.findMinimalSupport { B with sat := S } frame c)) ↔
      ∀ d ∈ frame, ¬ Carries tr (clauses proof) (frame.toFinset.erase d) c := by
  have hadd : Meets _ (fun _ ↦ True) _ := addAll_meets h.listed fun _ ↦ trivial
  have hreps := (hadd.of_ok hreg).2.2
  obtain ⟨hrep, hdb⟩ := hq.rep h (hreps B)
  have hrepS : ∀ S : SAT.Solver, Rep { B with sat := S } tr (clauses proof) (Finset.range proof.length)
      vm.nextID vm' cc' := fun S ↦
    ⟨hrep.tr_eq, hrep.vars, hrep.entered, hrep.ids, hrep.start, hrep.solving⟩
  have hbase : ∀ d ∈ frame, d ∈ Finset.range proof.length := fun d hd ↦ Finset.mem_range.mpr (hframe d hd)
  have hown : ∀ lit ∈ c, Own tr lit ∧ MayAsk tr lit := fun lit hl ↦
    ⟨hclause.own h.wf.toLitsValid h.wf.latchIDs_eq hl,
      (hclause.own h.wf.toLitsValid h.wf.latchIDs_eq hl).mayAsk (h.checkable.suits hrep.entered hrep.vars)⟩
  constructor
  · intro hall d hd
    have hrun : Meets _ (fun _ ↦ True) (cc'.findMinimalSupport { B with sat := .exhaustive } frame c) :=
      findMinimalSupport_meets (hrepS _) h.checkable hbase hown (fun _ ↦ trivial) (fun _ ↦ trivial) hcarries
    obtain ⟨r, hr, hmin⟩ := (hall .exhaustive).exists_ok
    obtain ⟨-, -, hm⟩ := hrun.of_ok hr
    have hwhole : frame ⊆ r.1 := hm.whole (whole_exhaustive _)
    have hset : r.1.toFinset = frame.toFinset := by
      ext a
      rw [List.mem_toFinset, List.mem_toFinset]
      exact ⟨fun ha ↦ hm.subset ha, fun ha ↦ hwhole ha⟩
    rw [← hset]
    exact hmin.minimal d (hwhole hd)
  · intro hmin S
    cases frame with
    | nil => exact ⟨List.Subset.refl _, hcarries, nofun⟩
    | cons d frame =>
      have hlost := hmin d List.mem_cons_self
      unfold Carries at hlost
      push Not at hlost
      obtain ⟨x, y, hxy, -, hx, -⟩ := hlost
      refine (findMinimalSupport_meets (hrepS S) h.checkable hbase hown (fun hnil ↦ ?_) (fun hr ↦ ?_)
        hcarries).imp fun r hr ↦ MinimalSupport.of_frame hr.2.2 hmin
      · rw [hnil] at hx
        exact not_satClause_nil hx
      · exact (hrepS S).not_refuted h.checkable hxy hr

theorem stuck_carries (s : Finset ℕ) : Carries stuck (clauses [[4]]) s [4] := by
  intro x y hxy _ hx
  have hstep : y 4 = litVal x 4 := hxy.step ⟨4, 4, idTrue⟩ List.mem_cons_self
  obtain ⟨lit, hl, hv⟩ := hx
  obtain rfl := List.mem_singleton.mp hl
  exact ⟨4, hl, (litVal_of_even rfl).trans (hstep.trans hv)⟩

/-- Two clauses are needed to keep the third latch high. The checker has been asked before. -/
theorem tangled_findMinimalSupport : ∃ r cc, addAll .three (new tangled) 0 tangledProof = .ok r ∧
    Queried ⟨.exhaustive, .keep, false⟩ 4 r.2 cc ∧ cc.solverInited = true ∧
    ∀ S : SAT.Solver, Meets (fun r' ↦ MinimalSupport tangled (clauses tangledProof) [8] [2, 1] r'.1)
      (fun _ ↦ False) (cc.findMinimalSupport ⟨S, .keep, false⟩ [2, 1] [8]) := by
  obtain ⟨⟨vm, cc⟩, hr⟩ : ∃ r, addAll .three (new tangled) 0 tangledProof = .ok r := ⟨_, rfl⟩
  have hrep := (post_of_ok (addAll_meets provable_tangled.listed fun _ ↦ trivial) hr).2.2 ⟨.exhaustive, .keep, false⟩
  have hsolve : Meets _ (fun _ ↦ False) (cc.solve ⟨.exhaustive, .keep, false⟩ [0, 3] 0) :=
    solve_mem_meets hrep provable_tangled.checkable (fun hno ↦ Bool.false_ne_true hno.1) (by decide)
      List.mem_cons_self
  obtain ⟨⟨answer, cc'⟩, hok, -, hi, -⟩ := hsolve.exists_ok
  have hq : Queried ⟨.exhaustive, .keep, false⟩ 4 cc cc' := .solve .refl (by decide) (by decide) hok
  have hcarries : Supports tangled (clauses tangledProof) [2, 1].toFinset 0 :=
    supports_tangled_iff.mpr (by decide)
  have hminimal : ∀ d ∈ [2, 1], ¬ Supports tangled (clauses tangledProof) ([2, 1].toFinset.erase d) 0 := by
    intro d hd
    rw [supports_tangled_iff]
    revert d
    decide
  exact ⟨_, cc', hr, hq, hi, (findMinimalSupport_minimal provable_tangled hr hq (by decide) (by decide)
    hcarries).mpr hminimal⟩

theorem findMinimalSupport_minimal_fails : ¬ ∀ (B : Backend) (tr : TransitionRelation)
    (vm vm' : VariableManager) (proof : ClauseVec) (cc cc' : ConsecutionChecker) (frame : List ℕ)
    (c : Clause), Provable tr vm proof → addAll vm (new tr) 0 proof = .ok (vm', cc) → Queried B proof.length cc cc' →
    (∀ d ∈ frame, d < proof.length) → ProofClause tr c → Carries tr (clauses proof) frame.toFinset c →
    Meets (fun r ↦ MinimalSupport tr (clauses proof) c frame r.1) (fun _ ↦ False)
      (cc'.findMinimalSupport B frame c) := by
  intro hall
  obtain ⟨r, hr⟩ : ∃ r, addAll oneVar (new stuck) 0 [[4]] = .ok r := ⟨_, rfl⟩
  obtain ⟨vm', cc⟩ := r
  have hadd : Meets _ (fun _ ↦ True) _ := addAll_meets provable_stuck.listed fun _ ↦ trivial
  have hrep := (hadd.of_ok hr).2.2 ⟨.exhaustive, .keep, false⟩
  have hown : ∀ lit ∈ [4], Own stuck lit ∧ MayAsk stuck lit := fun lit hl ↦
    have hclause : ProofClause stuck [4] := by decide
    ⟨hclause.own stuck_wellFormed.toLitsValid rfl hl,
      (hclause.own stuck_wellFormed.toLitsValid rfl hl).mayAsk (provable_stuck.checkable.suits hrep.entered hrep.vars)⟩
  -- the clause carries itself over, and with the frame of itself the whole core is that frame
  have hmin := hall ⟨.exhaustive, .keep, false⟩ stuck oneVar vm' [[4]] cc cc [0] [4] provable_stuck
    hr .refl (by decide) (by decide) (stuck_carries _)
  have hrun : Meets _ (fun _ ↦ True) (cc.findMinimalSupport ⟨.exhaustive, .keep, false⟩ [0] [4]) :=
    findMinimalSupport_meets hrep provable_stuck.checkable (by decide) hown (fun _ ↦ trivial)
      (fun _ ↦ trivial) (stuck_carries _)
  obtain ⟨r, hr, hmin⟩ := hmin.exists_ok
  obtain ⟨-, -, hm⟩ := hrun.of_ok hr
  exact hmin.minimal 0 (hm.whole (whole_exhaustive _) List.mem_cons_self) (stuck_carries _)

end ConsecutionChecker

end PME
