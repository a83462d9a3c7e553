import PME.IC3.ActivatedLemmas

namespace PME.IC3

open Outcome

namespace FrameSolver

open InductiveTrace

variable {B : Backend} {tr : TransitionRelation} {first : ℕ} {vm vm' : VariableManager}
  {trace : InductiveTrace} {fs fs' : FrameSolver} {fail : Failure → Prop} {c : Cube} {ℓ : Level}

theorem Rep.with_solver (h : Rep B tr first vm trace fs) {ad : SATAdaptor}
    (hclauses : ad.clauses = fs.solver.clauses) (hknown : ∀ v ∈ fs.solver.known, v ∈ ad.known) :
    Rep B tr first vm trace { fs with solver := ad } := by
  refine ⟨⟨h.vars, h.first_le, h.act, h.nodup, h.lits⟩, h.inv, h.tr_eq,
    fun hi ↦ ⟨(h.start hi).1, hclauses.trans (h.start hi).2⟩, h.formula, fun hi ↦ ?_⟩
  obtain ⟨sent, hsent, hall⟩ := h.sent hi
  refine ⟨sent, ⟨hclauses.trans hsent.clauses, hsent.activated, hsent.left, fun v hv ↦ ?_⟩, hall⟩
  dsimp only at hv
  rw [hclauses] at hv
  exact hknown v (hsent.known v hv)

structure MayFail (B : Backend) (tr : TransitionRelation) (vm : VariableManager) (trace : InductiveTrace)
    (fs : FrameSolver) (fail : Failure → Prop) : Prop where
  ids : Lacks vm trace fs → fail .idsExhausted
  empty : ∀ m, trace.At [] m → fail .assertion
  formula : Meets (fun unrolled ↦ ∀ cls ∈ unrolled, cls ≠ []) fail
    (TransitionRelationSolver.computeSimplifiedTR B tr)

structure Ready (B : Backend) (tr : TransitionRelation) (first : ℕ) (vm : VariableManager)
    (trace : InductiveTrace) (fs : FrameSolver) (ℓ : Level) : Prop
    extends Rep B tr first vm trace fs where
  inited : fs.solverInited = true
  enough : ∀ n, ℓ = .fin n → ∀ i, n ≤ i → i < trace.numFrames → i < fs.activation.length

theorem Ready.with_solver (h : Ready B tr first vm trace fs ℓ) {ad : SATAdaptor}
    (hclauses : ad.clauses = fs.solver.clauses) (hknown : ∀ v ∈ fs.solver.known, v ∈ ad.known) :
    Ready B tr first vm trace { fs with solver := ad } ℓ :=
  ⟨h.toRep.with_solver hclauses hknown, h.inited, h.enough⟩

theorem setUp_meets (h : Rep B tr first vm trace fs) (hf : MayFail B tr vm trace fs fail) :
    Meets (fun r ↦ Rep B tr first r.1 trace r.2 ∧ r.2.solverInited = true ∧ Newer vm fs r.1 r.2)
      fail (if fs.solverInited then pure (vm, fs) else fs.renewSAT B vm trace) := by
  by_cases hi : fs.solverInited = true
  · rw [if_pos hi]
    exact ⟨h, hi, .refl⟩
  · rw [if_neg hi]
    exact renewSAT_meets h (Bool.eq_false_iff.mpr hi) hf.ids hf.empty hf.formula

theorem ready_meets (h : Rep B tr first vm trace fs) (hi : fs.solverInited = true)
    (hids : Lacks vm trace fs → fail .idsExhausted) (ℓ : Level) :
    Meets (fun r ↦ Ready B tr first r.2.1 trace r.2.2 ℓ ∧ Newer vm fs r.2.1 r.2.2 ∧
      r.1 = r.2.2.assumed trace.numFrames ℓ) fail (fs.levelAssumps vm trace ℓ) := by
  refine (levelAssumps_meets h.toActivation hids ℓ).imp fun r hr ↦ ?_
  obtain ⟨hg, heq, hlen⟩ := hr
  refine ⟨⟨h.grow hg, ?_, hlen⟩, hg.newer, heq⟩
  rw [hg.fs_eq]
  exact hi

/-- What is known after a query: a correct answer about the clauses of the solver with some
more, under the assumptions of the level and some more. -/
structure Queried (B : Backend) (tr : TransitionRelation) (first : ℕ) (vm : VariableManager)
    (trace : InductiveTrace) (fs : FrameSolver) (ℓ : Level) (extra : ClauseVec) (now : Cube)
    (answer : SAT.Answer) (vm' : VariableManager) (fs' : FrameSolver) : Prop
    extends Ready B tr first vm' trace fs' ℓ where
  newer : Newer vm fs vm' fs'
  valid : answer.Valid (fs'.solver.clauses ++ extra) (fs'.assumed trace.numFrames ℓ ++ now)
  knows_extra : ∀ cls ∈ extra, ∀ lit ∈ cls, strip lit ∈ fs'.solver.known
  knows_now : ∀ lit ∈ fs'.assumed trace.numFrames ℓ ++ now, strip lit ∈ fs'.solver.known

theorem consecutionQuery_meets (h : Rep B tr first vm trace fs) (hf : MayFail B tr vm trace fs fail)
    (hc : c = [] → fail .assertion) (hprimes : (∃ lit ∈ c, nprimes lit ≠ 0) → fail .assertion)
    (ℓ : Level) :
    Meets (fun r ↦ c ≠ [] ∧
      Queried B tr first vm trace fs ℓ [negateVec c] (primeVec c 1) r.1 r.2.1 r.2.2) fail
      (fs.consecutionQuery B vm trace ℓ c) := by
  unfold consecutionQuery
  refine (setUp_meets h hf).bind fun r hr ↦ ?_
  obtain ⟨vm₁, fs₁⟩ := r
  obtain ⟨hrep, hi, hnewer⟩ := hr
  dsimp only
  by_cases hnil : c = []
  · subst hnil
    exact hc rfl
  rw [ensure_nonempty hnil, ok_bind]
  refine (ready_meets hrep hi (fun hlacks ↦ hf.ids (hnewer.lacks_iff.mp hlacks)) ℓ).bind fun r hr ↦ ?_
  obtain ⟨assumps, vm₂, fs₂⟩ := r
  obtain ⟨hready, hnewer', hassumps⟩ := hr
  dsimp only at hready hnewer' hassumps ⊢
  by_cases hzero : (c.all fun lit ↦ nprimes lit == 0) = true
  · rw [hzero, ensure_true, ok_bind]
    have hneg : negateVec c ≠ [] := fun hno ↦ hnil (List.map_eq_nil_iff.mp hno)
    refine (SATAdaptor.addGroupClause_createGroup hneg).bind fun ad had ↦ ?_
    obtain ⟨hgroup, hclauses, -, hknown⟩ := had
    have hvalid := ad.groupSolve_valid B.sat (assumps ++ primeVec c 1) hgroup
    have hkept : ∀ v ∈ fs₂.solver.known,
        v ∈ (ad.groupSolve B.sat fs₂.solver.createGroup.1 (assumps ++ primeVec c 1)).2.known :=
      fun v hv ↦ SATAdaptor.mem_introduceVariables.mpr (.inl ((hknown v).mpr (.inl hv)))
    have hsame := ad.groupSolve_clauses B.sat fs₂.solver.createGroup.1
      (assumps ++ primeVec c 1)
    refine ⟨hnil, hready.with_solver (hsame.trans hclauses) hkept, ?_, ?_, ?_, ?_⟩
    · exact hnewer.trans ⟨hnewer'.le, hnewer'.new, hnewer'.ids⟩
    · dsimp only
      rw [hsame]
      rw [hassumps] at hvalid ⊢
      exact hvalid
    · intro cls hcls lit hl
      obtain rfl := List.mem_singleton.mp hcls
      exact SATAdaptor.mem_introduceVariables.mpr (.inl ((hknown _).mpr (.inr ⟨lit, hl, rfl⟩)))
    · intro lit hl
      exact SATAdaptor.mem_introduceVariables.mpr (.inr ⟨lit, hassumps ▸ hl, rfl⟩)
  · rw [Bool.eq_false_iff.mpr hzero]
    refine hprimes ?_
    obtain ⟨lit, hl, hne⟩ := not_forall₂.mp fun hno ↦ hzero (List.all_eq_true.mpr hno)
    exact ⟨lit, hl, fun heq ↦ hne (beq_iff_eq.mpr heq)⟩

/-- The part of `intersectionFull` up to the answer. -/
theorem intersectionQuery_meets (h : Rep B tr first vm trace fs) (hf : MayFail B tr vm trace fs fail)
    (hc : c = [] → fail .assertion) (ℓ : Level) {α : Type} {post : α → Prop}
    (k : SAT.Answer → VariableManager → FrameSolver → Result α)
    (hk : ∀ answer vm' fs', c ≠ [] → Queried B tr first vm trace fs ℓ [] c answer vm' fs' →
      Meets post fail (k answer vm' fs')) :
    Meets post fail (do
      ensure (!c.isEmpty)
      let (vm, fs) ← (if fs.solverInited then pure (vm, fs) else fs.renewSAT B vm trace)
      let (assumps, vm, fs) ← fs.levelAssumps vm trace ℓ
      let (answer, solver) := fs.solver.solve B.sat (assumps ++ c)
      k answer vm { fs with solver := solver }) := by
  by_cases hnil : c = []
  · subst hnil
    exact hc rfl
  rw [ensure_nonempty hnil, ok_bind]
  refine (setUp_meets h hf).bind fun r hr ↦ ?_
  obtain ⟨vm₁, fs₁⟩ := r
  obtain ⟨hrep, hi, hnewer⟩ := hr
  refine (ready_meets hrep hi (fun hlacks ↦ hf.ids (hnewer.lacks_iff.mp hlacks)) ℓ).bind fun r hr ↦ ?_
  obtain ⟨assumps, vm₂, fs₂⟩ := r
  obtain ⟨hready, hnewer', hassumps⟩ := hr
  dsimp only at hready hnewer' hassumps ⊢
  have hvalid := fs₂.solver.solve_valid B.sat (assumps ++ c)
  have hsame := fs₂.solver.solve_clauses B.sat (assumps ++ c)
  have hkept : ∀ v ∈ fs₂.solver.known, v ∈ (fs₂.solver.solve B.sat (assumps ++ c)).2.known :=
    fun v hv ↦ SATAdaptor.mem_introduceVariables.mpr (.inl hv)
  refine hk _ _ _ hnil ⟨hready.with_solver hsame hkept, ?_, ?_, nofun, ?_⟩
  · exact hnewer.trans ⟨hnewer'.le, hnewer'.new, hnewer'.ids⟩
  · dsimp only
    rw [hsame, List.append_nil]
    rw [hassumps] at hvalid ⊢
    exact hvalid
  · intro lit hl
    exact SATAdaptor.mem_introduceVariables.mpr (.inr ⟨lit, hassumps ▸ hl, rfl⟩)

end FrameSolver

end PME.IC3
