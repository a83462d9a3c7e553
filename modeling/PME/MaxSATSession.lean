import PME.MaxSATSolve

namespace PME

open Outcome CoreGuided

namespace MSU4MaxSATSolver

variable {U U' : Callers} {o : MSU4Options} {S : SAT.Solver} {s s' : MSU4MaxSATSolver}
  {fail : Failure → Prop}

/-- The variable manager is shared: between two calls others take IDs from it, and some of
these become the caller's. -/
theorem Rest.withVars (h : Rest U S s) {vm : VariableManager} (hvm : vm.Inv)
    (hle : s.vars.nextID ≤ vm.nextID) (hsub : ∀ v ∈ U, v ∈ U')
    (hnew : ∀ v ∈ U', v ∈ U ∨ s.vars.nextID ≤ v ∧ v < vm.nextID) (htidy : U'.tidy → U.tidy) :
    Rest U' S { s with vars := vm } := by
  have hold : ∀ v ∈ U', v < s.vars.nextID → v ∈ U := by
    intro v hv hlt
    cases hnew v hv with
    | inl hU => exact hU
    | inr hge => omega
  refine ⟨{ h.shape with
    vars := hvm, const := hsub _ h.shape.const, lt := ?_,
    hard := fun v hv ↦ hsub v (h.shape.hard v hv), soft := fun l hl ↦ hsub _ (h.shape.soft l hl),
    dbVars := fun v hv ↦ (h.shape.dbVars v hv).trans_le hle,
    scope := fun ht v hv hU ↦ h.shape.scope (htidy ht) v hv (hold v hU (h.shape.dbVars v hv)),
    stored := ?_ }, ?_, h.bound, h.unsat, fun hS hs ht ↦ h.mentioned hS hs (htidy ht)⟩
  · intro v hv
    dsimp only
    cases hnew v hv with
    | inl hU => exact (h.shape.lt v hU).trans_le hle
    | inr hge => exact hge.2
  · intro c hc
    have hst := h.shape.stored c hc
    exact { hst with
      outputs := fun y hy ↦ (hst.outputs y hy).trans_le hle,
      scope := fun y hy hU ↦ hst.scope y hy (hold _ hU (hst.outputs y hy)),
      inputs := fun x hx ↦ hsub _ (hst.inputs x hx) }
  · intro σ hσ
    obtain ⟨τ, hτ, hdb, hex⟩ := h.complete σ hσ
    refine ⟨τ, fun v hv ↦ hτ v ?_, hdb, hex⟩
    cases hv with
    | inl hv => exact (hnew v hv).imp_right And.left
    | inr hv => exact .inr (hle.trans hv)

theorem isModel_addClause {cls : Clause} {σ : Assignment} :
    satClauses σ ([idTrue] :: (s.clauses ++ [cls])) ↔ s.IsModel σ ∧ satClause σ cls := by
  rw [← List.cons_append, satClauses_append, satClauses_cons cls, IsModel]
  exact ⟨fun hc ↦ ⟨hc.1, hc.2.1⟩, fun hc ↦ ⟨hc.1, hc.2, satClauses_nil⟩⟩

theorem varsOf_append {vec vec' : ClauseVec} {v : ℕ} :
    v ∈ varsOf (vec ++ vec') ↔ v ∈ varsOf vec ∨ v ∈ varsOf vec' := by
  constructor
  · intro hv
    obtain ⟨cls, hc, hl⟩ := hv
    exact (List.mem_append.mp hc).imp (fun hc ↦ ⟨cls, hc, hl⟩) fun hc ↦ ⟨cls, hc, hl⟩
  · intro hv
    obtain ⟨cls, hc, hl⟩ | ⟨cls, hc, hl⟩ := hv
    · exact ⟨cls, List.mem_append_left _ hc, hl⟩
    · exact ⟨cls, List.mem_append_right _ hc, hl⟩

/-- A new clause keeps the upper bound, and what is known of the blocked literals. -/
theorem addClause_meets (h : Rest U S s) {cls : Clause} (hne : cls ≠ [])
    (hlits : ∀ lit ∈ cls, strip lit ∈ U) :
    Meets (fun s' ↦ Rest U S s' ∧ s'.clauses = s.clauses ++ [cls] ∧
      s'.optimizationSet = s.optimizationSet ∧ s'.vars = s.vars ∧
      s'.solver.clauses = s.solver.clauses ++ [cls]) fail (s.addClause cls) := by
  unfold addClause
  refine (SATAdaptor.addClause_meets hne).bind fun solver hs ↦ ?_
  obtain ⟨hdb, -, -, hknown⟩ := hs
  rw [meets_pure]
  refine ⟨?_, rfl, rfl, rfl, hdb⟩
  have hcls : ∀ v ∈ varsOf [cls], v ∈ U := by
    intro v hv
    obtain ⟨c, hc, lit, hl, rfl⟩ := hv
    rw [List.mem_singleton] at hc
    exact hlits lit (hc ▸ hl)
  have hmodel : ∀ τ, satClauses τ solver.clauses ↔
      satClauses τ s.solver.clauses ∧ satClause τ cls := by
    intro τ
    rw [hdb, satClauses_append, satClauses_cons]
    exact ⟨fun hc ↦ ⟨hc.1, hc.2.1⟩, fun hc ↦ ⟨hc.1, hc.2, satClauses_nil⟩⟩
  have hold : ∀ σ, satClauses σ ([idTrue] :: (s.clauses ++ [cls])) → s.IsModel σ :=
    fun σ hσ ↦ (isModel_addClause.mp hσ).1
  refine ⟨{ h.shape with
    nonempty := ?_, hard := ?_, dbVars := ?_, dbHard := ?_, scope := ?_, known := ?_, lb := rfl,
    soln := .inl rfl, stored := ?_ }, ?_, fun σ hσ ↦ h.bound σ (hold σ hσ),
    fun hu σ hσ ↦ h.unsat hu σ (hold σ hσ), fun hS hs ht lit hl ↦ ?_⟩
  · intro c hc
    cases List.mem_append.mp hc with
    | inl hc => exact h.shape.nonempty c hc
    | inr hc =>
      rw [List.mem_singleton] at hc
      exact hc ▸ hne
  · intro v hv
    cases varsOf_append.mp hv with
    | inl hv => exact h.shape.hard v hv
    | inr hv => exact hcls v hv
  · intro v hv
    dsimp only at hv ⊢
    rw [hdb] at hv
    cases varsOf_append.mp hv with
    | inl hv => exact h.shape.dbVars v hv
    | inr hv => exact h.shape.lt v (hcls v hv)
  · intro c hc
    dsimp only at hc ⊢
    rw [hdb, List.mem_append]
    rw [← List.cons_append, List.mem_append] at hc
    exact hc.imp_left (h.shape.dbHard c)
  · intro ht v hv hU
    dsimp only at hv ⊢
    rw [hdb] at hv
    rw [varsOf_append]
    cases varsOf_append.mp hv with
    | inl hv => exact (h.shape.scope ht v hv hU).imp_left .inl
    | inr hv => exact .inl (.inr hv)
  · intro hsat lit hl
    obtain ⟨σ, hσ⟩ := hsat
    exact (h.shape.known ⟨σ, hold σ hσ⟩ lit hl).imp_left fun hv ↦ (hknown _).mpr (.inl hv)
  · intro c hc
    have hst := h.shape.stored c hc
    exact { hst with sound := fun τ hτ ↦ hst.sound τ ((hmodel τ).mp hτ).1 }
  · intro σ hσ
    obtain ⟨hσ', hsat⟩ := isModel_addClause.mp hσ
    obtain ⟨τ, hτ, hsdb, hex⟩ := h.complete σ hσ'
    refine ⟨τ, hτ, (hmodel τ).mpr ⟨hsdb, ?_⟩, hex⟩
    exact (satClause_congr fun lit hl ↦ hτ _ (.inl (hlits lit hl))).mpr hsat
  · refine (h.mentioned hS hs ht lit hl).imp_left fun hv ↦ ?_
    exact varsOf_append.mpr (.inl hv)

/-- A new optimization literal. What was tidy stays so as long as the SAT solver holds the
hard clauses only. -/
theorem addForOptimization_meets (h : Rest U S s) {lit : ℕ} (hlit : strip lit ∈ U)
    (hsub : ∀ v ∈ U, v ∈ U') (hsup : ∀ v ∈ U', v ∈ U)
    (htidy : U'.tidy → U.tidy ∧ ∀ v ∈ varsOf s.solver.clauses, v ∈ U →
      v ∈ varsOf s.clauses ∨ v = idFalse)
    (hdup : lit ∈ s.optimizationSet → fail .exception) :
    Meets (fun s' ↦ Rest U' S s' ∧ s' = { s with
        optimizationSet := s.optimizationSet.orderedInsert (· ≤ ·) lit }.reset) fail
      (s.addForOptimization lit) := by
  unfold addForOptimization
  by_cases hmem : lit ∈ s.optimizationSet
  · rw [if_pos (List.contains_iff_mem.mpr hmem)]
    exact hdup hmem
  · rw [if_neg (mt List.contains_iff_mem.mp hmem), meets_pure]
    refine ⟨Base.reset ⟨h.shape.vars, hsub _ h.shape.const, fun v hv ↦ h.shape.lt v (hsup v hv),
      h.shape.nonempty, fun v hv ↦ hsub v (h.shape.hard v hv), ?_, ?_, h.shape.dbVars,
      h.shape.dbHard, fun ht v hv hU ↦ (htidy ht).2 v hv (hsup v hU), ?_⟩, rfl⟩
    · intro l hl
      cases List.mem_orderedInsert _ |>.mp hl with
      | inl hl => exact hsub _ (hl ▸ hlit)
      | inr hl => exact hsub _ (h.shape.soft l hl)
    · dsimp only
      rw [(List.perm_orderedInsert _ lit s.optimizationSet).nodup_iff, List.nodup_cons]
      exact ⟨hmem, h.shape.nodup⟩
    · intro σ hσ
      obtain ⟨τ, hτ, hdb, -⟩ := h.complete σ hσ
      exact ⟨τ, fun v hv ↦ hτ v (hv.imp_left (hsup v)), hdb⟩

theorem doCheck_rest (h : Rest U S s) (assumps : Cube) : Rest U S (s.doCheck S assumps).1 :=
  h.withSolver (SATAdaptor.solve_clauses S assumps) fun _ hv ↦ solve_known.mpr (.inl hv)

/-- A check answers whether the hard clauses have a model with these values. -/
theorem doCheck_eq_true (h : Rest U S s) {assumps : Cube} (hlits : ∀ lit ∈ assumps, strip lit ∈ U) :
    (s.doCheck S assumps).2 = true ↔ ∃ σ, s.IsModel σ ∧ satCube σ assumps := by
  refine (SATAdaptor.solve_isSat S assumps).trans ⟨?_, ?_⟩
  · rintro ⟨σ, hσ, hc⟩
    exact ⟨σ, h.shape.isModel hσ, hc⟩
  · rintro ⟨σ, hσ, hc⟩
    obtain ⟨τ, hτ, hdb, -⟩ := h.complete σ hσ
    exact ⟨τ, hdb, (satCube_congr fun lit hl ↦ hτ _ (.inl (hlits lit hl))).mpr hc⟩

theorem Optimal.getAssignment (h : s.Optimal) (hsat : s.isSAT = true) :
    ∃ σ, s.IsModel σ ∧ (∀ lit, lit ∈ s.optimizationSet ∨ negate lit ∈ s.optimizationSet →
        s.getAssignment lit = .ok (litVal σ lit)) ∧
      ∀ σ', s.IsModel σ' → trueCount σ' s.optimizationSet ≤ trueCount σ s.optimizationSet := by
  obtain ⟨σ, hσ, hsoln, hbest⟩ := h
  refine ⟨σ, hσ, fun lit hlit ↦ ?_, hbest⟩
  have hmem : ∀ l, s.currentSoln.contains l = true ↔ l ∈ s.optimizationSet ∧ litVal σ l = true :=
    fun l ↦ by rw [List.contains_iff_mem, hsoln, List.mem_filter]
  have hopt : ∀ l, s.optimizationSet.contains l = true ↔ l ∈ s.optimizationSet := fun l ↦
    List.contains_iff_mem
  have hknown : (!s.optimizationSet.contains lit && !s.optimizationSet.contains (negate lit)) =
      false := by
    cases hlit with
    | inl hl => rw [(hopt _).mpr hl]; rfl
    | inr hl => rw [(hopt _).mpr hl, Bool.not_true, Bool.and_false]
  have hneg : litVal σ (negate lit) = !litVal σ lit := litVal_negate lit
  unfold MSU4MaxSATSolver.getAssignment
  rw [hsat, ensure_true, ok_bind]
  dsimp only
  rw [hknown, if_neg Bool.false_ne_true]
  by_cases hpos : s.currentSoln.contains lit = true
  · rw [if_pos hpos, ((hmem _).mp hpos).2]
    rfl
  · rw [if_neg hpos]
    by_cases hnot : s.currentSoln.contains (negate lit) = true
    · have hv := ((hmem _).mp hnot).2
      rw [hneg, Bool.not_eq_true'] at hv
      rw [if_pos hnot, hv]
      rfl
    · rw [if_neg hnot]
      by_cases hl : s.optimizationSet.contains lit = true
      · have hv : litVal σ lit = false :=
          Bool.eq_false_iff.mpr fun ht ↦ hpos ((hmem _).mpr ⟨(hopt _).mp hl, ht⟩)
        rw [if_pos hl, hv]
        rfl
      · have hl' : negate lit ∈ s.optimizationSet := hlit.resolve_left fun h ↦ hl ((hopt _).mpr h)
        have hv : litVal σ lit = true := by
          by_contra hf
          refine hnot ((hmem _).mpr ⟨hl', ?_⟩)
          rw [hneg, Bool.not_eq_true']
          exact Bool.eq_false_iff.mpr hf
        rw [if_neg hl, (hopt _).mpr hl', ensure_true, ok_bind, hv]
        rfl

theorem new_rest {vm : VariableManager} (hvm : vm.Inv) (hconst : idFalse ∈ U)
    (hlt : ∀ v ∈ U, v < vm.nextID) : Rest U S (new vm) := by
  have hid : idFalse < vm.nextID := hlt _ hconst
  refine Base.reset (s := new vm) ⟨hvm, hconst, hlt, fun _ hc ↦ absurd hc List.not_mem_nil, ?_,
    fun _ hl ↦ absurd hl List.not_mem_nil, List.nodup_nil, ?_, fun _ hc ↦ hc, ?_,
    fun σ hσ ↦ ⟨σ, fun _ _ ↦ rfl, hσ⟩⟩
  · intro v hv
    obtain ⟨cls, hc, -⟩ := hv
    exact absurd hc List.not_mem_nil
  · intro v hv
    obtain ⟨cls, hc, lit, hl, rfl⟩ := hv
    rw [List.mem_singleton.mp hc, List.mem_singleton] at hl
    rw [hl, strip_idTrue]
    exact hid
  · intro _ v hv _
    obtain ⟨cls, hc, lit, hl, rfl⟩ := hv
    rw [List.mem_singleton.mp hc, List.mem_singleton] at hl
    rw [hl]
    exact .inr strip_idTrue

inductive Call
  | newVar
  | addClause (cls : Clause)
  | addForOptimization (lit : ℕ)
  | solve
  | check (assumps : Cube)

def Call.lits : Call → List ℕ
  | .newVar | .solve => []
  | .addClause cls => cls
  | .addForOptimization lit => [lit]
  | .check assumps => assumps

structure Session where
  solver : MSU4MaxSATSolver
  ids : Set ℕ

def Session.start (vm : VariableManager) : Session :=
  ⟨new vm, {v | idFalse ≤ v ∧ v < vm.nextID}⟩

def Session.call (o : MSU4Options) (S : SAT.Solver) (x : Session) : Call → Result Session
  | .newVar => do
    let (id, vm) ← x.solver.vars.getNewID 0
    return ⟨{ x.solver with vars := vm }, insert id x.ids⟩
  | .addClause cls => do
    let s ← x.solver.addClause cls
    return { x with solver := s }
  | .addForOptimization lit => do
    let s ← x.solver.addForOptimization lit
    return { x with solver := s }
  | .solve => do
    let (s, _) ← x.solver.doSolve o S
    return { x with solver := s }
  | .check assumps => return { x with solver := (x.solver.doCheck S assumps).1 }

/-- The states that any order of calls can lead to, when `P` holds before every solve. -/
inductive Reached (o : MSU4Options) (S : SAT.Solver) (P : MSU4MaxSATSolver → Prop) :
    Session → Prop
  | start (vm : VariableManager) (hvm : vm.Inv) : Reached o S P (.start vm)
  | call {x x' : Session} (c : Call) (hx : Reached o S P x)
      (hlits : ∀ lit ∈ c.lits, strip lit ∈ x.ids) (hP : c = .solve → P x.solver)
      (hcall : x.call o S c = .ok x') : Reached o S P x'

/-- A solve stops early only when it puts an ID of 33 bits into an `unsigned`, runs out of
IDs, or counts optimization literals beyond an `unsigned`. -/
def TooLarge (s : MSU4MaxSATSolver) : Failure → Prop
  | .narrowed | .idsExhausted => 2 ^ 32 < s.vars.nextID + solveIDs s.optimizationSet.length
  | .assertion => 2 ^ 32 ≤ s.optimizationSet.length
  | _ => False

theorem Rest.solve (h : Rest U S s) (hready : s.Ready o) :
    Meets (Solved U S s) s.TooLarge (s.doSolve o S) := by
  refine doSolve_meets h hready (fun e he hlt ↦ ?_) fun hle ↦ hle
  cases he with
  | inl he =>
    rw [he]
    exact hlt
  | inr he =>
    rw [he]
    exact hlt

def callers (ids : Set ℕ) : Callers := ⟨ids, False⟩

theorem Reached.rest {x : Session} (h : Reached o S (Ready o) x) :
    Rest (callers x.ids) S x.solver := by
  induction h with
  | start vm hvm =>
    have hmin := hvm.minId_le
    have hid : minId = idFalse + 2 := rfl
    exact new_rest hvm ⟨le_rfl, by omega⟩ fun v hv ↦ hv.2
  | @call x x' c _ hlits hP hcall ih =>
    cases c with
    | newVar =>
      obtain ⟨p, hp, hx'⟩ := bind_eq_ok.mp hcall
      have hext : Meets _ (fun _ ↦ True) (x.solver.vars.getNewID 0) :=
        VariableManager.getNewID_meets ih.shape.vars rfl (absurd rfl) fun _ ↦ trivial
      have hext := hext.of_ok hp
      have hid := hext.id_eq
      have hnext := hext.nextID
      cases hx'
      refine ih.withVars hext.inv (by omega) (fun v hv ↦ .inr hv) (fun v hv ↦ ?_) id
      cases hv with
      | inl hv =>
        rw [hv]
        exact .inr ⟨hid.ge, by omega⟩
      | inr hv => exact .inl hv
    | addClause cls =>
      obtain ⟨s', hs', hx'⟩ := bind_eq_ok.mp hcall
      cases hx'
      have hne : cls ≠ [] := by
        rintro rfl
        cases hs'
      have hmeets : Meets _ (fun _ ↦ True) (x.solver.addClause cls) := addClause_meets ih hne hlits
      exact (hmeets.of_ok hs').1
    | addForOptimization lit =>
      obtain ⟨s', hs', hx'⟩ := bind_eq_ok.mp hcall
      cases hx'
      have hmeets : Meets _ (fun _ ↦ True) (x.solver.addForOptimization lit) :=
        addForOptimization_meets ih (hlits lit (List.mem_singleton_self lit)) (fun _ hv ↦ hv)
          (fun _ hv ↦ hv) False.elim fun _ ↦ trivial
      exact (hmeets.of_ok hs').1
    | solve =>
      obtain ⟨r, hr, hx'⟩ := bind_eq_ok.mp hcall
      cases hx'
      exact ((ih.solve (hP rfl)).of_ok hr).rest
    | check assumps =>
      cases hcall
      exact doCheck_rest ih assumps

/-- What a solve has to do: say whether the hard clauses have a model, and if so describe one
that satisfies as many optimization literals as any. -/
def Right (s : MSU4MaxSATSolver) (r : MSU4MaxSATSolver × Bool) : Prop :=
  (r.2 = true ↔ ∃ σ, s.IsModel σ) ∧ (r.2 = true → ∃ σ, s.IsModel σ ∧
    (∀ lit, lit ∈ s.optimizationSet ∨ negate lit ∈ s.optimizationSet →
      r.1.getAssignment lit = .ok (litVal σ lit)) ∧
    ∀ σ', s.IsModel σ' → trueCount σ' s.optimizationSet ≤ trueCount σ s.optimizationSet)

theorem Solved.right {r : MSU4MaxSATSolver × Bool} (h : Solved U S s r) : s.Right r := by
  refine ⟨h.sat, fun hb ↦ ?_⟩
  obtain ⟨hsat, hopt⟩ := h.optimal hb
  obtain ⟨σ, hσ, hvals, hbest⟩ := hopt.getAssignment hsat
  rw [h.same.optimizationSet] at hvals hbest
  have hmodel : ∀ τ, r.1.IsModel τ ↔ s.IsModel τ := fun τ ↦ by
    rw [IsModel, IsModel, h.same.clauses]
  exact ⟨σ, (hmodel σ).mp hσ, hvals, fun σ' hσ' ↦ hbest σ' ((hmodel σ').mpr hσ')⟩

/-- However the calls are ordered, a solve is right as long as no solve begins by forgetting
a blocked literal. -/
theorem doSolve_right {x : Session} (h : Reached o S (Ready o) x) (hready : x.solver.Ready o) :
    Meets x.solver.Right x.solver.TooLarge (x.solver.doSolve o S) :=
  (h.rest.solve hready).imp fun _ hr ↦ hr.right

section Runs

variable {P : MSU4MaxSATSolver → Prop} {x : Session}

theorem Reached.newVar (h : Reached o S P x) {id : ℕ} {vm : VariableManager}
    (hvar : x.solver.vars.getNewID 0 = .ok (id, vm)) :
    Reached o S P ⟨{ x.solver with vars := vm }, insert id x.ids⟩ := by
  refine .call .newVar h (fun _ hl ↦ absurd hl List.not_mem_nil) nofun ?_
  rw [Session.call, hvar]
  rfl

theorem Reached.addClause (h : Reached o S P x) {cls : Clause} (hlits : ∀ lit ∈ cls, strip lit ∈ x.ids)
    (hadd : x.solver.addClause cls = .ok s) : Reached o S P { x with solver := s } := by
  refine .call (.addClause cls) h hlits nofun ?_
  rw [Session.call, hadd]
  rfl

theorem Reached.addForOptimization (h : Reached o S P x) (lit : ℕ) (hlit : strip lit ∈ x.ids)
    (hadd : x.solver.addForOptimization lit = .ok s) : Reached o S P { x with solver := s } := by
  refine .call (.addForOptimization lit) h (fun l hl ↦ ?_) nofun ?_
  · rw [List.mem_singleton.mp hl]
    exact hlit
  · rw [Session.call, hadd]
    rfl

theorem Reached.solve (h : Reached o S P x) (hP : P x.solver) {b : Bool}
    (hsolve : x.solver.doSolve o S = .ok (s, b)) : Reached o S P { x with solver := s } := by
  refine .call .solve h (fun _ hl ↦ absurd hl List.not_mem_nil) (fun _ ↦ hP) ?_
  rw [Session.call, hsolve]
  rfl

end Runs

def contrary : Result MSU4MaxSATSolver := do
  let (_, vm) ← VariableManager.new.getNewID 0
  let s ← (new vm).addForOptimization 4
  s.addForOptimization 5

theorem contrary_reached (o : MSU4Options) (S : SAT.Solver) (P : MSU4MaxSATSolver → Prop) (h : contrary = .ok s) :
    ∃ ids, Reached o S P ⟨s, ids⟩ := by
  have hstart : Reached o S P (.start .new) := .start _ VariableManager.inv_new
  have hvar : (new .new).vars.getNewID 0 = .ok (4, ⟨6, [(4, 0), (2, 0)], [(2, 0)], [(0, 2)]⟩) := rfl
  obtain ⟨p, hp, h⟩ := bind_eq_ok.mp h
  cases hp
  obtain ⟨s₁, hs₁, hs⟩ := bind_eq_ok.mp h
  have h₁ := (hstart.newVar hvar).addForOptimization 4 (.inl rfl) hs₁
  exact ⟨_, h₁.addForOptimization 5 (.inl rfl) hs⟩

theorem doSolve_right_contrary : ∃ x, Reached ⟨32, 1, true, Nat.one_pos⟩ .exhaustive (Ready ⟨32, 1, true, Nat.one_pos⟩) x ∧
    x.solver.optimizationSet = [4, 5] ∧
    Meets x.solver.Right x.solver.TooLarge (x.solver.doSolve ⟨32, 1, true, Nat.one_pos⟩ .exhaustive) := by
  obtain ⟨s, hs, hopt, hblocked⟩ : ∃ s, contrary = .ok s ∧ s.optimizationSet = [4, 5] ∧
    s.blockedAssumps = [] := ⟨_, rfl, rfl, rfl⟩
  obtain ⟨ids, h⟩ := contrary_reached ⟨32, 1, true, Nat.one_pos⟩ .exhaustive (Ready ⟨32, 1, true, Nat.one_pos⟩) hs
  refine ⟨_, h, hopt, doSolve_right h fun _ _ lit hl ↦ ?_⟩
  dsimp only at hl
  rw [hblocked] at hl
  exact absurd hl List.not_mem_nil

noncomputable def contrarySolver : SAT.Solver where
  solve n db assumps :=
    if db = [[idTrue]] ∧ assumps = [] then .sat fun _ ↦ false
    else if db = [[idTrue]] ∧ assumps = [4, 5] then .unsat [4, 5]
    else SAT.Solver.exhaustive.solve n db assumps
  valid n db assumps := by
    split
    · obtain ⟨rfl, rfl⟩ : db = [[idTrue]] ∧ assumps = [] := ‹_›
      exact ⟨by decide, satCube_nil⟩
    · split
      · obtain ⟨rfl, rfl⟩ : db = [[idTrue]] ∧ assumps = [4, 5] := ‹_›
        refine ⟨List.Subset.refl _, by decide, fun σ _ hc ↦ ?_⟩
        have hpos := hc 4 (by decide)
        have hneg := hc (negate 4) (by decide)
        rw [litVal_negate, hpos] at hneg
        exact absurd hneg Bool.false_ne_true
      · exact SAT.Solver.exhaustive.valid n db assumps

/-- Once the solver has been built anew, it has never seen the two literals it blocked. -/
theorem doSolve_right_fails : ¬ ∀ (o : MSU4Options) (S : SAT.Solver) (x : Session),
    Reached o S (fun _ ↦ True) x → Meets x.solver.Right x.solver.TooLarge (x.solver.doSolve o S) := by
  intro hall
  obtain ⟨o, ho⟩ : ∃ o : MSU4Options, o = ⟨32, 1, false, Nat.one_pos⟩ := ⟨_, rfl⟩
  have hfirst : (do
      let s ← contrary
      let r ← s.doSolve o contrarySolver
      return r.1.optimizationSet.length) = .ok 2 := by
    rw [ho]
    decide +kernel
  have hsecond : (do
      let s ← contrary
      let r ← s.doSolve o contrarySolver
      let r' ← r.1.doSolve o contrarySolver
      return r'.2) = .error .assertion := by
    rw [ho]
    decide +kernel
  obtain ⟨s, hs, hfirst⟩ := bind_eq_ok.mp hfirst
  obtain ⟨r, hr, hlen⟩ := bind_eq_ok.mp hfirst
  obtain ⟨ids, h⟩ := contrary_reached o contrarySolver (fun _ ↦ True) hs
  have hmeets := hall o contrarySolver _ (h.solve trivial hr)
  rw [hs, ok_bind, hr, ok_bind] at hsecond
  dsimp only at hmeets
  cases hr' : r.1.doSolve o contrarySolver with
  | ok r' =>
    rw [hr'] at hsecond
    exact nomatch hsecond
  | error e =>
    rw [hr', error_bind] at hsecond
    cases hsecond
    rw [hr', meets_error, TooLarge] at hmeets
    have hlen' : r.1.optimizationSet.length = 2 := Except.ok.inj hlen
    omega

end MSU4MaxSATSolver

end PME
