import PME.MaxSATInvariant

namespace PME

open Outcome CoreGuided

/-- A solver that traces its final conflict through clauses: a critical literal occurs in the
formula, unless another critical literal contradicts it. -/
def SAT.Solver.Relevant (S : SAT.Solver) : Prop :=
  ∀ n db assumps crits, S.solve n db assumps = .unsat crits →
    ∀ lit ∈ crits, strip lit ∈ varsOf db ∨ negate lit ∈ crits

def SAT.Refutes (db : ClauseVec) (assumps : Cube) : Set Cube :=
  {crits | crits ⊆ assumps ∧ crits.Nodup ∧ ∀ σ, satClauses σ db → ¬ satCube σ crits}

theorem SAT.refutes_nonempty {db : ClauseVec} {assumps : Cube}
    (h : ¬ ∃ σ, satClauses σ db ∧ satCube σ assumps) : (SAT.Refutes db assumps).Nonempty := by
  refine ⟨assumps.dedup, List.dedup_subset assumps, List.nodup_dedup assumps, fun σ hdb hc ↦ ?_⟩
  exact h ⟨σ, hdb, satCube_subset (List.subset_dedup assumps) hc⟩

open Classical in
noncomputable def SAT.Solver.minimal : SAT.Solver where
  solve _ db assumps :=
    if h : ∃ σ, satClauses σ db ∧ satCube σ assumps then .sat h.choose
    else .unsat (Function.argminOn List.length _ (SAT.refutes_nonempty h))
  valid _ db assumps := by
    split
    · exact Exists.choose_spec ‹_›
    · exact Function.argminOn_mem List.length (SAT.Refutes db assumps) _

theorem negate_of_strip_eq {a b : ℕ} (h : strip a = strip b) : a = b ∨ a = negate b := by
  cases ha : isNegated a == isNegated b with
  | true => exact .inl (eq_of_strip h (beq_iff_eq.mp ha))
  | false =>
    refine .inr (eq_of_strip (by rw [strip_negate, h]) ?_)
    rw [isNegated_negate]
    cases hb : isNegated b <;> cases hc : isNegated a <;> simp [hb, hc] at ha ⊢

/-- Without clauses over a variable, only its contrary literal makes a literal critical. -/
theorem SAT.Solver.minimal_relevant : SAT.Solver.minimal.Relevant := by
  intro n db assumps crits hans lit hlit
  unfold SAT.Solver.minimal at hans
  dsimp only at hans
  split at hans
  · exact nomatch hans
  · obtain ⟨hsub, hnodup, hcrits⟩ : crits ∈ SAT.Refutes db assumps := by
      cases hans
      exact Function.argminOn_mem List.length _ _
    by_contra hnone
    push Not at hnone
    obtain ⟨hvar, hneg⟩ := hnone
    have hless : crits.erase lit ∉ SAT.Refutes db assumps := by
      intro hmem
      have hle : crits.length ≤ (crits.erase lit).length := by
        cases hans
        exact Function.argminOn_le List.length _ hmem
      have hpos : 0 < crits.length := List.length_pos_of_mem hlit
      rw [List.length_erase_of_mem hlit] at hle
      omega
    have hsat : ∃ σ, satClauses σ db ∧ satCube σ (crits.erase lit) := by
      by_contra hunsat
      refine hless ⟨fun l hl ↦ hsub (List.mem_of_mem_erase hl), hnodup.erase lit, fun σ hdb hc ↦ ?_⟩
      exact hunsat ⟨σ, hdb, hc⟩
    obtain ⟨σ, hdb, hc⟩ := hsat
    -- the model of the others can be changed to satisfy this literal as well
    have hother : ∀ v, v ≠ strip lit → Function.update σ (strip lit) (!isNegated lit) v = σ v :=
      fun v hv ↦ Function.update_of_ne hv _ _
    refine hcrits (Function.update σ (strip lit) (!isNegated lit)) ?_ fun l hl ↦ ?_
    · refine (satClauses_congr fun v hv ↦ hother v fun heq ↦ ?_).mpr hdb
      exact hvar (heq ▸ hv)
    · by_cases heq : l = lit
      · rw [heq, litVal, Function.update_self]
        cases isNegated lit <;> rfl
      · have hne : strip l ≠ strip lit := fun hs ↦ by
          obtain h | h := negate_of_strip_eq hs
          · exact heq h
          · exact hneg (h ▸ hl)
        rw [litVal_congr (hother _ hne)]
        exact hc l ((List.mem_erase_of_ne heq).mpr hl)

namespace MSU4MaxSATSolver

def Simple (s : MSU4MaxSATSolver) : Prop := ∀ lit ∈ s.optimizationSet, negate lit ∉ s.optimizationSet

def Mentioned (s : MSU4MaxSATSolver) : Prop :=
  ∀ lit ∈ s.blockedAssumps, strip lit ∈ varsOf s.clauses ∨ strip lit = idFalse

structure Rest (U : Callers) (S : SAT.Solver) (s : MSU4MaxSATSolver) : Prop where
  shape : Shape U s
  complete : ∀ σ, s.IsModel σ → ∃ τ, (∀ v, v ∈ U ∨ s.vars.nextID ≤ v → τ v = σ v) ∧
    satClauses τ s.solver.clauses ∧ s.Exact τ
  bound : ∀ σ, s.IsModel σ →
    (s.toSearch [] none).potential (litVal σ) ≤ s.optimizationSet.length - s.unsatRounds
  unsat : s.absoluteUNSAT = true → ∀ σ, ¬ s.IsModel σ
  mentioned : S.Relevant → s.Simple → U.tidy → s.Mentioned

structure Working (U : Callers) (o : MSU4Options) (S : SAT.Solver) (hintLit : ℕ)
    (cores : List (List ℕ)) (asked : Option (List ℕ × ℕ)) (s : MSU4MaxSATSolver) (cube : Cube) :
    Prop where
  shape : Shape U s
  sat : s.absoluteUNSAT = false
  hintEven : hintLit % 2 = 0
  hintLt : hintLit < s.vars.nextID
  hintNew : hintLit ∉ U
  inv : (s.toSearch cores asked).Inv s.Values
  started : asked.isSome = true → 0 < s.unsatRounds
  better : ∀ τ, satClauses τ s.solver.clauses → satCube τ cube →
    (s.toSearch cores asked).Better (litVal τ)
  hinted : ∀ τ, satClauses τ s.solver.clauses → τ hintLit = true →
    (s.toSearch cores asked).Hinted (litVal τ)
  noHints : o.useHintClauses = false → cores = []
  complete : ∀ σ, s.IsModel σ → ∀ b, (b = true → (s.toSearch cores asked).Hinted (litVal σ)) →
    ∃ τ, (∀ v, v ∈ U ∨ s.vars.nextID ≤ v → τ v = σ v) ∧ satClauses τ s.solver.clauses ∧
      s.Exact τ ∧ τ hintLit = b ∧
      ((s.toSearch cores asked).Better (litVal σ) → satCube τ cube)
  cube : ∀ lit ∈ cube, strip lit ∈ U → ∃ b ∈ s.blockedAssumps, strip b = strip lit
  mentioned : S.Relevant → s.Simple → U.tidy → s.Mentioned

def pending (s : MSU4MaxSATSolver) : Option (List ℕ × ℕ) → ℕ
  | some (before, n) =>
    if before = s.blockedAssumps then s.blockedAssumps.length - n else s.optimizationSet.length + 1
  | none => s.optimizationSet.length + 1

/-- Passes still possible: a core shortens the list of free literals, and between two cores
every improvement asked for is larger than the one before. -/
def rank (s : MSU4MaxSATSolver) (asked : Option (List ℕ × ℕ)) : ℕ :=
  s.initialAssumps.length * (s.optimizationSet.length + 2) + s.pending asked

/-- The solution found satisfies as many of the optimization literals as any model of the hard
clauses, and comes from such a model. -/
def Optimal (s : MSU4MaxSATSolver) : Prop :=
  ∃ σ, s.IsModel σ ∧ s.currentSoln = s.optimizationSet.filter (litVal σ) ∧
    ∀ σ', s.IsModel σ' → trueCount σ' s.optimizationSet ≤ trueCount σ s.optimizationSet

structure Same (s s' : MSU4MaxSATSolver) : Prop where
  clauses : s'.clauses = s.clauses
  optimizationSet : s'.optimizationSet = s.optimizationSet
  le : s.vars.nextID ≤ s'.vars.nextID

variable {U : Callers} {o : MSU4Options} {S : SAT.Solver} {hintLit : ℕ} {cores : List (List ℕ)}
  {asked : Option (List ℕ × ℕ)} {s s' : MSU4MaxSATSolver} {cube : Cube} {fail : Failure → Prop}
  {m : Assignment}

theorem Same.refl (s : MSU4MaxSATSolver) : Same s s := ⟨rfl, rfl, le_rfl⟩

theorem Same.trans {s'' : MSU4MaxSATSolver} (h : Same s s') (h' : Same s' s'') : Same s s'' :=
  ⟨h'.clauses.trans h.clauses, h'.optimizationSet.trans h.optimizationSet, h.le.trans h'.le⟩

theorem Shape.value_eq (h : Shape U s) (v : ℕ → Bool) :
    (s.toSearch cores asked).value v = s.optimizationSet.countP v := by
  rw [← h.perm.countP_eq, List.countP_append]
  rfl

theorem Shape.length_eq (h : Shape U s) :
    s.initialAssumps.length + s.blockedAssumps.length = s.optimizationSet.length := by
  rw [← h.perm.length_eq, List.length_append]

theorem Shape.optimal (h : Shape U s) (hsat : ∃ σ, s.IsModel σ)
    (hbest : ∀ σ, s.IsModel σ → trueCount σ s.optimizationSet ≤ s.lb) : s.Optimal := by
  obtain hnil | ⟨σ, hσ, hsoln, -⟩ := h.soln
  · obtain ⟨σ, hσ⟩ := hsat
    have hlb : s.lb = 0 := by rw [h.lb, hnil]; rfl
    have hzero : ∀ σ', s.IsModel σ' → trueCount σ' s.optimizationSet = 0 := by
      intro σ' hσ'
      have hle := hbest σ' hσ'
      omega
    refine ⟨σ, hσ, ?_, fun σ' hσ' ↦ by rw [hzero σ' hσ']; exact Nat.zero_le _⟩
    have hz := hzero σ hσ
    rw [trueCount, List.countP_eq_length_filter, List.length_eq_zero_iff] at hz
    rw [hnil, hz]
  · refine ⟨σ, hσ, hsoln, fun σ' hσ' ↦ (hbest σ' hσ').trans ?_⟩
    rw [h.lb, hsoln, trueCount, List.countP_eq_length_filter]

theorem getAssignment_meets {lit : ℕ} (h : strip lit ∈ s.solver.known) :
    s.solver.getAssignment m lit = .ok (litVal m lit) := by
  have hk : s.solver.hasSAT lit = true := by simpa [SATAdaptor.hasSAT] using h
  simp only [SATAdaptor.getAssignment, SATAdaptor.safeGetAssignment, hk, if_true]
  rfl

theorem extractSolution_meets (h : ∀ lit ∈ s.optimizationSet, strip lit ∈ s.solver.known) :
    Meets (· = s.optimizationSet.filter (litVal m)) fail (s.extractSolution m) := by
  refine foldlM_meets (fun done soln ↦ soln = done.filter (litVal m)) [] rfl ?_
  intro done lit rest soln hl hsoln
  have hmem : lit ∈ s.optimizationSet := by simp [← hl]
  rw [getAssignment_meets (h lit hmem), ok_bind, meets_pure, List.filter_append, hsoln]
  cases hv : litVal m lit <;> simp [hv]

theorem numSatisfied_meets {lits : Cube} (h : ∀ lit ∈ lits, strip lit ∈ s.solver.known) :
    Meets (· = lits.countP (litVal m)) fail (s.numSatisfied m lits) := by
  refine foldlM_meets (fun done count ↦ count = done.countP (litVal m)) 0 rfl ?_
  intro done lit rest count hl hcount
  have hmem : lit ∈ lits := by simp [← hl]
  rw [getAssignment_meets (h lit hmem), ok_bind, meets_pure, List.countP_append, hcount]
  cases hv : litVal m lit <;> simp [hv]

def Passed (U : Callers) (o : MSU4Options) (S : SAT.Solver) (hintLit : ℕ) (s : MSU4MaxSATSolver)
    (rank₀ : ℕ) : (MSU4MaxSATSolver × Cube) ⊕ (MSU4MaxSATSolver × Bool) → Prop
  | .inl (s', cube') => ∃ cores' asked', Working U o S hintLit cores' asked' s' cube' ∧
      s'.lb ≠ s'.ub ∧ s'.rank asked' < rank₀ ∧ Same s s' ∧
      s'.vars.nextID ≤ s.vars.nextID + 2 * s.optimizationSet.length ^ 3
  | .inr (s', b) => b = true ∧ s'.isSAT = true ∧ Rest U S s' ∧ s'.Optimal ∧ Same s s' ∧
      s'.vars.nextID ≤ s.vars.nextID + 2 * s.optimizationSet.length ^ 3

theorem Working.rest (h : Working U o S hintLit cores asked s cube) : Rest U S s where
  shape := h.shape
  complete := by
    intro σ hσ
    obtain ⟨τ, hτ, hdb, hex, -⟩ := h.complete σ hσ false (fun hf ↦ absurd hf Bool.false_ne_true)
    exact ⟨τ, hτ, hdb, hex⟩
  bound σ hσ := h.inv.potential_le_upper ⟨σ, hσ, rfl⟩
  unsat hu := by
    rw [h.sat] at hu
    exact absurd hu Bool.false_ne_true
  mentioned := h.mentioned

theorem Working.exists_model (h : Working U o S hintLit cores asked s cube) :
    ∃ σ, s.IsModel σ := by
  obtain ⟨_, ⟨σ, hσ, -⟩, -⟩ := h.inv.attained
  exact ⟨σ, hσ⟩

theorem Rest.finish (h : Rest U S s) : Rest U S { s with isSAT := true } where
  shape := { h.shape with stored := fun c hc ↦ { h.shape.stored c hc with } }
  complete := h.complete
  bound := h.bound
  unsat := h.unsat
  mentioned := h.mentioned

theorem Working.passed_of_optimal (h : Working U o S hintLit cores asked s cube) {s₀} (hsame : Same s₀ s)
    {rank₀ : ℕ} (hbest : ∀ σ, s.IsModel σ → trueCount σ s.optimizationSet ≤ s.lb)
    (hnext : s.vars.nextID ≤ s₀.vars.nextID + 2 * s₀.optimizationSet.length ^ 3) :
    Passed U o S hintLit s₀ rank₀ (.inr ({ s with isSAT := true }, true)) :=
  ⟨rfl, rfl, h.rest.finish, h.shape.optimal h.exists_model hbest,
    ⟨hsame.clauses, hsame.optimizationSet, hsame.le⟩, hnext⟩

theorem Working.endPass (h : Working U o S hintLit cores asked s' cube) (hpos : 0 < s'.unsatRounds)
    (hsame : Same s s') {rank₀ : ℕ} (hrank : s'.rank asked < rank₀)
    (hnext : s'.vars.nextID ≤ s.vars.nextID + 2 * s.optimizationSet.length ^ 3) :
    Passed U o S hintLit s rank₀ (s'.endPass cube) := by
  unfold MSU4MaxSATSolver.endPass
  by_cases heq : s'.lb = s'.ub
  · rw [if_pos heq]
    refine h.passed_of_optimal hsame (fun σ hσ ↦ ?_) hnext
    have hub := h.shape.ub
    rw [if_neg (by omega)] at hub
    have hle := h.inv.optimal_of_eq (heq.trans hub) ⟨σ, hσ, rfl⟩
    rw [h.shape.value_eq] at hle
    exact hle
  · rw [if_neg heq]
    exact ⟨cores, asked, h, heq, hrank, hsame, hnext⟩

theorem Working.improve (h : Working U o S hintLit cores asked s cube) (hm : s.IsModel m)
    (hfree : satCube m s.initialAssumps) {soln : List ℕ} (hsoln : soln = s.optimizationSet.filter (litVal m)) :
    Meets (fun s' ↦ s' = { s with currentSoln := s'.currentSoln, lb := s'.lb } ∧
        s'.lb = max s.lb (s.optimizationSet.countP (litVal m)) ∧
        s'.lb = s'.currentSoln.length ∧ (s'.currentSoln = [] ∨
          ∃ σ, s.IsModel σ ∧ s'.currentSoln = s.optimizationSet.filter (litVal σ) ∧
            satCube σ s.initialAssumps)) fail
      (if s.currentSoln.length < soln.length then do
        ensure (s.lb == s.currentSoln.length)
        return { s with currentSoln := soln, lb := soln.length }
      else return s : Result MSU4MaxSATSolver) := by
  have hlen : soln.length = s.optimizationSet.countP (litVal m) := by
    rw [hsoln, List.countP_eq_length_filter]
  have hlb := h.shape.lb
  by_cases hlt : s.currentSoln.length < soln.length
  · have heq : (s.lb == s.currentSoln.length) = true := beq_iff_eq.mpr hlb
    rw [if_pos hlt, heq, ensure_true, ok_bind, meets_pure]
    refine ⟨rfl, ?_, rfl, .inr ⟨m, hm, hsoln, hfree⟩⟩
    dsimp only
    omega
  · rw [if_neg hlt, meets_pure]
    exact ⟨rfl, by omega, hlb, h.shape.soln⟩

/-- After an improvement that satisfies every free literal, more than its number of satisfied
blocked literals is asked for. -/
theorem Working.ask {s₁ s₂ : MSU4MaxSATSolver} {cube' : Cube} {n : ℕ}
    (h : Working U o S hintLit cores asked s cube) (hm : s.IsModel m)
    (hfree : ∀ lit ∈ s.initialAssumps, litVal m lit = true)
    (hs₁ : s₁ = { s with currentSoln := s₁.currentSoln, lb := s₁.lb })
    (hlb : s₁.lb = max s.lb (s.optimizationSet.countP (litVal m)))
    (hn : n = s.blockedAssumps.countP (litVal m)) (hlt : n < s.blockedAssumps.length)
    (hcon : Constrained U s₁ s₂ cube' s.blockedAssumps n) :
    Working U o S hintLit cores (some (s.blockedAssumps, n)) s₂ cube' := by
  have hframe := hcon.frame
  have hle := hcon.le
  obtain ⟨cs, lb₁, hs₁⟩ : ∃ cs lb₁, s₁ = { s with currentSoln := cs, lb := lb₁ } := ⟨_, _, hs₁⟩
  obtain ⟨vm, sol, last, card, hs₂⟩ : ∃ vm sol last card, s₂ = { s₁ with
    vars := vm, solver := sol, lastCardinalityInput := last, cardinality := card } :=
    ⟨_, _, _, _, hframe⟩
  subst hs₁
  subst hs₂
  dsimp only at hlb hle
  subst hlb
  subst hn
  have hinv := h.inv.ask ⟨m, hm, rfl⟩ hfree
  have hval : (s.toSearch cores asked).value (litVal m) = s.optimizationSet.countP (litVal m) :=
    h.shape.value_eq _
  refine ⟨hcon.shape, h.sat, h.hintEven, h.hintLt.trans_le hle, h.hintNew, ?_, fun _ ↦ ?_,
    fun τ hτ hc ↦ ?_, fun τ hτ hh ↦ h.hinted τ (hcon.db τ hτ) hh, h.noHints, fun σ hσ b hb ↦ ?_,
    hcon.cube, h.mentioned⟩
  · unfold Search.ask at hinv
    rw [hval] at hinv
    exact hinv
  · refine Nat.pos_of_ne_zero fun hz ↦ ?_
    have hnil := h.shape.rounds_zero hz
    rw [hnil, List.length_nil] at hlt
    omega
  · intro before n heq
    cases heq
    exact hcon.sound τ hτ hc
  · obtain ⟨τ, hτ, hdb, hex, hhint, -⟩ := h.complete σ hσ b hb
    obtain ⟨τ', hτ', hdb', hex', hcube'⟩ := hcon.complete τ hdb hex
    dsimp only at hτ' hle
    have hold : ∀ v, v < s.vars.nextID → τ' v = τ v := fun v hv ↦ hτ' v (by omega)
    refine ⟨τ', fun v hv ↦ ?_, hdb', hex', (hold _ h.hintLt).trans hhint, fun hbetter ↦ hcube' ?_⟩
    · cases hv with
      | inl hv => exact (hold v (h.shape.lt v hv)).trans (hτ v (.inl hv))
      | inr hv =>
        dsimp only at hv
        exact (hτ' v (by omega)).trans (hτ v (.inr (by omega)))
    · have hcount : trueCount τ s.blockedAssumps = trueCount σ s.blockedAssumps :=
        trueCount_congr fun lit hl ↦ hτ _ (.inl (h.shape.blocked_soft hl))
      rw [hcount]
      exact hbetter _ _ rfl

theorem Working.pending_lt (h : Working U o S hintLit cores asked s cube)
    (hm : satClauses m s.solver.clauses) (hcube : satCube m cube) {n : ℕ}
    (hn : n = s.blockedAssumps.countP (litVal m)) (hlt : n < s.blockedAssumps.length) :
    s.blockedAssumps.length - n < s.pending asked := by
  have hlen := h.shape.length_eq
  cases asked with
  | none =>
    dsimp only [pending]
    omega
  | some p =>
    obtain ⟨before, n'⟩ := p
    dsimp only [pending]
    by_cases hbefore : before = s.blockedAssumps
    · have hbetter := h.better m hm hcube before n' rfl
      rw [hbefore] at hbetter
      rw [if_pos hbefore]
      omega
    · rw [if_neg hbefore]
      omega

theorem satPass_meets (h : Working U o S hintLit cores asked s cube)
    (hm : satClauses m s.solver.clauses) (hfree : ∀ lit ∈ s.initialAssumps, litVal m lit = true)
    (hcube : satCube m cube) (hknown : ∀ lit ∈ s.optimizationSet, strip lit ∈ s.solver.known)
    (hids : ∀ e : Failure, e = .narrowed ∨ e = .idsExhausted →
      2 ^ 32 < s.vars.nextID + 2 * s.optimizationSet.length ^ 3 → fail e) :
    Meets (Passed U o S hintLit s (s.rank asked)) fail (s.satPass m) := by
  have hmodel := h.shape.isModel hm
  have hblen : s.blockedAssumps.length ≤ s.optimizationSet.length := by
    have := h.shape.length_eq
    omega
  have hpow : s.blockedAssumps.length ^ 3 ≤ s.optimizationSet.length ^ 3 :=
    Nat.pow_le_pow_left hblen 3
  unfold satPass
  refine (extractSolution_meets hknown).bind fun soln hsoln ↦ ?_
  refine (h.improve hmodel hfree hsoln).bind fun s₁ hs₁ ↦ ?_
  obtain ⟨hs₁, hlb, hlblen, hsoln₁⟩ := hs₁
  have hclauses : s₁.clauses = s.clauses := by rw [hs₁]
  have hopt : s₁.optimizationSet = s.optimizationSet := by rw [hs₁]
  have hblocked : s₁.blockedAssumps = s.blockedAssumps := by rw [hs₁]
  have hsolver : s₁.solver = s.solver := by rw [hs₁]
  have hvars : s₁.vars = s.vars := by rw [hs₁]
  have hbs : ∀ lit ∈ s.blockedAssumps, lit ∈ s.optimizationSet := fun lit hl ↦
    h.shape.perm.mem_iff.mp (List.mem_append_right _ hl)
  have hnum : Meets (· = s.blockedAssumps.countP (litVal m)) fail
      (s₁.numSatisfied m s₁.blockedAssumps) := by
    rw [hblocked]
    refine numSatisfied_meets fun lit hl ↦ ?_
    rw [hsolver]
    exact hknown lit (hbs lit hl)
  refine hnum.bind fun n hn ↦ ?_
  have hshape₁ : Shape U s₁ := by
    obtain ⟨cs, lb₁, hs₁⟩ : ∃ cs lb₁, s₁ = { s with currentSoln := cs, lb := lb₁ } := ⟨_, _, hs₁⟩
    subst hs₁
    exact { h.shape with
      lb := hlblen, soln := hsoln₁, stored := fun c hc ↦ { h.shape.stored c hc with } }
  have hcount : s.optimizationSet.countP (litVal m) =
      s.initialAssumps.length + s.blockedAssumps.countP (litVal m) := by
    rw [← h.shape.perm.countP_eq, List.countP_append, List.countP_eq_length.mpr hfree]
  by_cases hall : n = s₁.blockedAssumps.length
  · rw [if_pos hall, meets_pure]
    have hworking : Rest U S s₁ := by
      have hrest := h.rest
      obtain ⟨cs, lb₁, hs₁⟩ : ∃ cs lb₁, s₁ = { s with currentSoln := cs, lb := lb₁ } := ⟨_, _, hs₁⟩
      subst hs₁
      exact ⟨hshape₁, hrest.complete, hrest.bound, hrest.unsat, hrest.mentioned⟩
    have hoptimal : s₁.Optimal := by
      refine hshape₁.optimal ⟨m, by unfold IsModel; rw [hclauses]; exact hmodel⟩ fun σ _ ↦ ?_
      have hle : trueCount σ s.optimizationSet ≤ s.optimizationSet.length := List.countP_le_length
      have hlen := h.shape.length_eq
      rw [hblocked] at hall
      rw [hopt]
      omega
    refine ⟨rfl, rfl, hworking.finish, hoptimal, ⟨hclauses, hopt, by dsimp only; rw [hvars]⟩, ?_⟩
    dsimp only
    rw [hvars]
    exact Nat.le_add_right _ _
  · rw [if_neg hall]
    have hle : s.blockedAssumps.countP (litVal m) ≤ s.blockedAssumps.length := List.countP_le_length
    have hlt : n < s.blockedAssumps.length := by
      rw [hblocked] at hall
      omega
    have hadd : Meets (fun r ↦ Constrained U s₁ r.2 r.1 s₁.blockedAssumps n) fail
        (s₁.addCardinality s₁.blockedAssumps n) := by
      refine addCardinality_meets hshape₁ (by rw [hblocked]; exact hlt) fun e he hmax ↦ hids e he ?_
      rw [hvars, hblocked] at hmax
      omega
    refine hadd.bind fun r hcon ↦ ?_
    obtain ⟨cube', s₂⟩ := r
    dsimp only at hcon ⊢
    rw [meets_pure]
    rw [hblocked] at hcon
    have hframe := hcon.frame
    have hclauses₂ : s₂.clauses = s.clauses := by rw [hframe, ← hclauses]
    have hopt₂ : s₂.optimizationSet = s.optimizationSet := by rw [hframe, ← hopt]
    have hblocked₂ : s₂.blockedAssumps = s.blockedAssumps := by rw [hframe, ← hblocked]
    have hinitial₂ : s₂.initialAssumps = s.initialAssumps := by rw [hframe, hs₁]
    have hle₂ := hcon.le
    have hnext := hcon.nextID_le
    rw [hvars] at hle₂ hnext
    have hworking := h.ask hmodel hfree hs₁ hlb hn hlt hcon
    refine hworking.endPass (hworking.started rfl) ⟨hclauses₂, hopt₂, hle₂⟩ ?_ (by omega)
    have hdecr := h.pending_lt hm hcube hn hlt
    have hpending : s₂.pending (some (s.blockedAssumps, n)) = s.blockedAssumps.length - n := by
      rw [pending, hblocked₂, if_pos rfl]
    rw [rank, rank, hinitial₂, hopt₂, hpending]
    exact Nat.add_lt_add_left hdecr _

end MSU4MaxSATSolver

end PME
