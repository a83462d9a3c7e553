import PME.IC3.FrameQueries

namespace PME.IC3

open Outcome TransitionRelation

variable {B : Backend} {tr : TransitionRelation} {σ τ x y : Assignment}

/-- Literals that keep their meaning when the formula is simplified: of latches and inputs, of
the bad signal, of variables that the formula does not have, and constants. -/
def Visible (tr : TransitionRelation) (lit : ℕ) : Prop :=
  ValidLit lit ∧ (strip lit ∈ tr.latchIDs ++ tr.inputIDs ∨ strip lit = strip tr.bad ∨
    ¬ tr.Mentions (strip lit) ∨ strip lit = idFalse)

theorem Visible.negate {lit : ℕ} (h : Visible tr lit) : Visible tr (PME.negate lit) := by
  refine ⟨h.1.negate, ?_⟩
  rw [strip_negate]
  exact h.2

theorem visible_bad (h : tr.WellFormed) : Visible tr tr.bad := ⟨h.bad, .inr (.inl rfl)⟩

theorem visible_latch (h : tr.WellFormed) {lit : ℕ} (hl : strip lit ∈ tr.latchIDs) :
    Visible tr lit := by
  obtain ⟨hmin, hmax, -⟩ := h.isVar _ (mem_signals.mpr (.inl (List.mem_append_right _ hl)))
  have hle := strip_le lit
  rw [minId_eq] at hmin
  refine ⟨⟨by rw [idFalse]; omega, ?_⟩, .inl (List.mem_append_left _ hl)⟩
  rw [strip_eq] at hmax
  rw [maxId_eq] at hmax ⊢
  omega

theorem visible_input (h : tr.WellFormed) {lit : ℕ} (hl : strip lit ∈ tr.inputIDs) :
    Visible tr lit := by
  obtain ⟨hmin, hmax, -⟩ := h.isVar _ (mem_signals.mpr (.inl (List.mem_append_left _ hl)))
  have hle := strip_le lit
  rw [minId_eq] at hmin
  refine ⟨⟨by rw [idFalse]; omega, ?_⟩, .inl (List.mem_append_right _ hl)⟩
  rw [strip_eq] at hmax
  rw [maxId_eq] at hmax ⊢
  omega

theorem sameObserved_refl (σ : Assignment) : tr.SameObserved σ σ :=
  ⟨rfl, fun _ _ _ _ ↦ rfl, fun _ _ ↦ rfl⟩

theorem sameObserved_trans {ρ : Assignment} (h : tr.SameObserved σ τ) (h' : tr.SameObserved τ ρ) :
    tr.SameObserved σ ρ :=
  ⟨h'.const.trans h.const, fun lit hl i hi ↦ (h'.observed lit hl i hi).trans (h.observed lit hl i hi),
    fun v hv ↦ (h'.others v hv).trans (h.others v hv)⟩

/-- Variables that are not mentioned are not in the unrolled formula at any time. -/
theorem not_mem_unroll (h : tr.WellFormed) {v : ℕ} (hv : ¬ tr.Mentions v) (hmin : minId ≤ v)
    (hmax : v ≤ maxId) (i n : ℕ) : prime v i ∉ varsOf ([idTrue] :: tr.unroll n) := by
  have hp := prime_of_ge hmin hmax i
  intro hmem
  obtain ⟨cls, hcls, lit, hl, hstrip⟩ := hmem
  cases List.mem_cons.mp hcls with
  | inl hconst =>
    subst hconst
    obtain rfl := List.mem_singleton.mp hl
    rw [strip_idTrue, hp, idFalse] at hstrip
    rw [minId_eq] at hmin
    omega
  | inr hunroll =>
    obtain ⟨u, j, hu, huvalid, heq⟩ := h.toLitsValid.mentions_of_mem (mem_varsOf hunroll hl)
    rw [hstrip] at heq
    obtain hlow | huge := Nat.lt_or_ge u minId
    · rw [prime_of_lt hlow, hp] at heq
      omega
    · have hinj := prime_injective hmin hmax huge huvalid.2 heq
      exact hv (hinj.1 ▸ hu)

theorem Visible.litVal_eq {lit : ℕ} (hl : Visible tr lit) (h : tr.WellFormed)
    (hs : tr.SameObserved σ τ) {i : ℕ} (hi : i ≤ 1) :
    litVal (frameOf τ i) lit = litVal (frameOf σ i) lit := by
  have hkept : ∀ o ∈ tr.observed, strip lit = strip o →
      litVal (frameOf τ i) lit = litVal (frameOf σ i) lit := by
    intro o ho hstrip
    have hval := litVal_eq_iff.mp (hs.observed o ho i hi)
    rw [← hstrip] at hval
    exact litVal_congr hval
  obtain ⟨hvalid, hmem | hbad | hno | hconst⟩ := hl
  · have heven : strip (strip lit) = strip lit := strip_strip lit
    refine hkept (strip lit) ?_ heven.symm
    simp only [observed, List.mem_append] at hmem ⊢
    tauto
  · refine hkept tr.bad ?_ hbad
    simp only [observed, List.mem_append, List.mem_singleton]
    exact .inr trivial
  · refine litVal_congr ?_
    obtain hconst | hmin := hvalid.strip_cases
    · rw [hconst, frameOf_idFalse, frameOf_idFalse]
      exact hs.const
    · exact hs.others _ (not_mem_unroll h hno hmin hvalid.strip.2 i 2)
  · refine litVal_congr ?_
    rw [hconst, frameOf_idFalse, frameOf_idFalse]
    exact hs.const

structure Answers (tr : TransitionRelation) (unrolled : ClauseVec) : Prop where
  nonempty : ∀ cls ∈ unrolled, cls ≠ []
  sound : ∀ σ, satClauses σ ([idTrue] :: unrolled) →
    ∃ τ, satClauses τ ([idTrue] :: tr.unroll 2) ∧ tr.SameObserved σ τ
  complete : ∀ τ, satClauses τ ([idTrue] :: tr.unroll 2) →
    ∃ σ, satClauses σ ([idTrue] :: unrolled) ∧ tr.SameObserved τ σ

theorem Answers.exists_linked {unrolled : ClauseVec} (h : Answers tr unrolled) (hwf : tr.WellFormed)
    (hσ : satClauses σ ([idTrue] :: unrolled)) : ∃ x y, tr.Linked x y ∧ ∀ lit, Visible tr lit →
      litVal x lit = litVal σ lit ∧ litVal y lit = litVal σ (prime lit 1) := by
  obtain ⟨τ, hτ, hsame⟩ := h.sound σ hσ
  have hc : τ idFalse = false := by simpa using ((satClauses_cons _ _).mp hτ).1
  have hrun := (satClauses_unroll hwf.toLitsValid hc 2).mp ((satClauses_cons _ _).mp hτ).2
  refine ⟨frameOf τ 0, frameOf τ 1, (isRun_two_iff.mp hrun).1, fun lit hl ↦ ?_⟩
  rw [hl.litVal_eq hwf hsame (Nat.zero_le 1), hl.litVal_eq hwf hsame le_rfl,
    litVal_frameOf_zero hl.1.2, litVal_prime hl.1.2]
  exact ⟨rfl, rfl⟩

theorem Answers.exists_model {unrolled : ClauseVec} (h : Answers tr unrolled) (hwf : tr.WellFormed)
    (hxy : tr.Linked x y) : ∃ σ, satClauses σ ([idTrue] :: unrolled) ∧ ∀ lit, Visible tr lit →
      litVal σ lit = litVal x lit ∧ litVal σ (prime lit 1) = litVal y lit := by
  have hlink := exists_linked_iff hwf.toLitsValid hwf.latches_nodup (fun u v ↦
    SameSignals x u ∧ SameSignals y v) fun u u' v v' hu hv huv ↦
      ⟨⟨huv.1.1.trans hu.1, fun w hmin hmax ↦ (huv.1.2 w hmin hmax).trans (hu.2 w hmin hmax)⟩,
        huv.2.1.trans hv.1, fun w hmin hmax ↦ (huv.2.2 w hmin hmax).trans (hv.2 w hmin hmax)⟩
  obtain ⟨τ, hτ, hnow, hnext⟩ := hlink.mpr ⟨x, y, hxy, ⟨rfl, fun _ _ _ ↦ rfl⟩, rfl, fun _ _ _ ↦ rfl⟩
  obtain ⟨σ, hσ, hsame⟩ := h.complete τ hτ
  refine ⟨σ, hσ, fun lit hl ↦ ?_⟩
  rw [← litVal_frameOf_zero hl.1.2, litVal_prime hl.1.2, hl.litVal_eq hwf hsame (Nat.zero_le 1),
    hl.litVal_eq hwf hsame le_rfl, ← hnow.litVal_eq hl.1, ← hnext.litVal_eq hl.1]
  exact ⟨rfl, rfl⟩

theorem computeSimplifiedTR_meets (h : tr.WellFormed) (B : Backend) {fail : Failure → Prop}
    (hfail : (¬ ∃ σ, satClauses σ ([idTrue] :: tr.unroll 2)) → fail .assertion) :
    Meets (Answers tr) fail (TransitionRelationSolver.computeSimplifiedTR B tr) := by
  unfold TransitionRelationSolver.computeSimplifiedTR
  by_cases hs : B.simplify = true
  · rw [if_pos hs]
    refine (simplifyTR_meets h B.simplifier hfail).imp fun unrolled hu ↦ ?_
    obtain ⟨hne, hiff⟩ := hu
    have hrespects : ∀ ρ : Assignment, ∀ σ τ, tr.SameObserved σ τ → tr.SameObserved ρ σ →
        tr.SameObserved ρ τ := fun ρ σ τ hστ hρσ ↦ sameObserved_trans hρσ hστ
    refine ⟨hne, fun σ hσ ↦ ?_, fun τ hτ ↦ ?_⟩
    · exact (hiff (tr.SameObserved σ) (hrespects σ)).mp ⟨σ, hσ, sameObserved_refl σ⟩
    · exact (hiff (tr.SameObserved τ) (hrespects τ)).mpr ⟨τ, hτ, sameObserved_refl τ⟩
  · rw [if_neg hs]
    exact ⟨unroll_nonempty h.toCNF_nonempty 2, fun σ hσ ↦ ⟨σ, hσ, sameObserved_refl σ⟩,
      fun τ hτ ↦ ⟨τ, hτ, sameObserved_refl τ⟩⟩

def InFrame (trace : InductiveTrace) (ℓ : Level) (x : Assignment) : Prop :=
  ∀ c m, trace.At c m → ℓ ≤ m → ¬ satCube x c

namespace FrameSolver

variable {first : ℕ} {vm : VariableManager} {trace : InductiveTrace} {fs : FrameSolver} {ℓ : Level}

structure Owned (tr : TransitionRelation) (first : ℕ) : Prop where
  minId_le : minId ≤ first
  mentions : ∀ v, tr.Mentions v → v < first
  inputs : ∀ v ∈ tr.inputIDs, v < first

def AllVisible (tr : TransitionRelation) (trace : InductiveTrace) : Prop :=
  ∀ c m, trace.At c m → ∀ lit ∈ c, Visible tr lit

theorem Rep.answers (h : Rep B tr first vm trace fs) (hi : fs.solverInited = true)
    (hwf : tr.WellFormed) : Answers tr fs.unrolled := by
  have hmeets : Meets (Answers tr) (fun _ ↦ True)
      (TransitionRelationSolver.computeSimplifiedTR B tr) :=
    computeSimplifiedTR_meets hwf B fun _ ↦ trivial
  exact hmeets.of_ok (h.formula hi)

/-- A model of the solver shows two frames, of which the first is in the frame of the level. -/
theorem Ready.exists_linked (h : Ready B tr first vm trace fs ℓ) (hwf : tr.WellFormed)
    (hvis : AllVisible tr trace) (hσ : satClauses σ fs.solver.clauses)
    (ha : satCube σ (fs.assumed trace.numFrames ℓ)) :
    ∃ x y, tr.Linked x y ∧ InFrame trace ℓ x ∧
      ∀ lit, Visible tr lit → litVal x lit = litVal σ lit ∧ litVal y lit = litVal σ (prime lit 1) := by
  obtain ⟨sent, hsent, hall⟩ := h.sent h.inited
  have hclauses := hsent.clauses
  rw [hclauses, satClauses_append] at hσ
  obtain ⟨x, y, hxy, hval⟩ := (h.answers h.inited hwf).exists_linked hwf hσ.1
  refine ⟨x, y, hxy, fun c m hat hle hcube ↦ ?_, hval⟩
  have hactive := (hsent.active_iff h.toActivation h.inv hall h.enough ha).mp ?_ c m hat hle
  · exact hactive fun lit hl ↦ (hval lit (hvis c m hat lit hl)).1 ▸ hcube lit hl
  · intro cls hcls _
    rw [hsent.lemmaClauses_eq] at hcls
    exact hσ.2 cls hcls

/-- Two frames of which the first is in the frame of the level are a model of the solver. -/
theorem Ready.exists_model (h : Ready B tr first vm trace fs ℓ) (hwf : tr.WellFormed)
    (howned : Owned tr first) (hvis : AllVisible tr trace) (hxy : tr.Linked x y)
    (hx : InFrame trace ℓ x) :
    ∃ σ, satClauses σ fs.solver.clauses ∧ satCube σ (fs.assumed trace.numFrames ℓ) ∧
      ∀ lit, Visible tr lit → strip lit ∉ fs.activation →
        litVal σ lit = litVal x lit ∧ litVal σ (prime lit 1) = litVal y lit := by
  classical
  obtain ⟨sent, hsent, hall⟩ := h.sent h.inited
  -- activation variables are high unless they are assumed to be low
  let x' : Assignment := fun v ↦ if v ∈ fs.activation then
    decide (negate v ∉ fs.assumed trace.numFrames ℓ) else x v
  have hon : ∀ v ∈ fs.activation, x' v = decide (negate v ∉ fs.assumed trace.numFrames ℓ) :=
    fun v hv ↦ if_pos hv
  have hrest : ∀ v ∉ fs.activation, x' v = x v := fun v hv ↦ if_neg hv
  have hact : ∀ v ∈ fs.activation, v % 2 = 0 ∧ minId ≤ v ∧ v ≤ maxId ∧ ¬ tr.Mentions v := by
    intro v hv
    obtain ⟨heven, hge, hlt⟩ := h.act v hv
    have hmax := h.vars.le_maxId
    refine ⟨heven, howned.minId_le.trans hge, by omega, fun hno ↦ ?_⟩
    have hlt' := howned.mentions v hno
    omega
  have hconst : idFalse ∉ fs.activation := fun hno ↦ absurd (hact _ hno).2.1 (by decide)
  have hxy' : tr.Linked x' y := hxy.congr_mentioned (hrest _ hconst) fun v hv ↦
    hrest v fun hno ↦ (hact v hno).2.2.2 hv
  obtain ⟨σ, hσ, hsame⟩ := (h.answers h.inited hwf).exists_model hwf hxy'
  have hoff : ∀ v ∈ fs.activation, σ v = decide (negate v ∉ fs.assumed trace.numFrames ℓ) := by
    intro v hv
    obtain ⟨heven, hmin, hmax, hno⟩ := hact v hv
    have hvis' : Visible tr v := by
      refine ⟨⟨Nat.le_trans (by decide) hmin, hmax⟩, .inr (.inr (.inl ?_))⟩
      rw [strip_of_even heven]
      exact hno
    have hval := (hsame v hvis').1
    rw [litVal_of_even heven, litVal_of_even heven] at hval
    exact hval.trans (hon v hv)
  have hval : ∀ lit, Visible tr lit → strip lit ∉ fs.activation →
      litVal σ lit = litVal x lit ∧ litVal σ (prime lit 1) = litVal y lit := by
    intro lit hl hno
    obtain ⟨hnow, hnext⟩ := hsame lit hl
    exact ⟨hnow.trans (litVal_congr (hrest _ hno)), hnext⟩
  have hassumed : satCube σ (fs.assumed trace.numFrames ℓ) := by
    intro lit hl
    cases ℓ with
    | inf => exact absurd hl List.not_mem_nil
    | fin n =>
      obtain ⟨i, hi, rfl⟩ := List.mem_map.mp hl
      have hrange := List.mem_range'_1.mp hi
      have hmem := Activation.getD_mem (h.enough n rfl i hrange.1 (by omega))
      rw [litVal_negate, litVal_of_even (hact _ hmem).1, hoff _ hmem, decide_eq_false (not_not.mpr hl)]
      rfl
  refine ⟨σ, ?_, hassumed, hval⟩
  rw [hsent.clauses, satClauses_append]
  refine ⟨hσ, fun cls hcls ↦ ?_⟩
  obtain ⟨p, hp, rfl⟩ := List.mem_map.mp hcls
  obtain ⟨m, hat, hle⟩ := hsent.left p hp
  have hlemma : ℓ ≤ m → satClause σ (negateVec p.1) := by
    intro hm
    refine (satClause_negateVec p.1).mpr fun hcube ↦ hx p.1 m hat hm fun lit hl ↦ ?_
    rw [← (hval lit (hvis p.1 m hat lit hl) (h.lits p.1 m hat lit hl).2).1]
    exact hcube lit hl
  obtain ⟨c, m'⟩ := p
  cases m' with
  | inf => exact hlemma (Level.le_inf.trans hle)
  | fin k =>
    have hk : k < fs.activation.length := hsent.activated _ hp
    have hmem := Activation.getD_mem hk
    dsimp only
    rw [clauseAt, satClause_append, satClause_cons, litVal_of_even (hact _ hmem).1, hoff _ hmem]
    by_cases hin : negate (fs.activation.getD k idNull) ∈ fs.assumed trace.numFrames ℓ
    · refine .inl (hlemma ?_)
      cases ℓ with
      | inf => exact absurd hin List.not_mem_nil
      | fin n =>
        obtain ⟨i, hi, heq⟩ := List.mem_map.mp hin
        have hrange := List.mem_range'_1.mp hi
        have hik := h.act_injective (h.enough n rfl i hrange.1 (by omega)) hk (negate_injective heq)
        have hnk : Level.fin n ≤ Level.fin k := Level.fin_le_fin.mpr (hik ▸ hrange.1)
        exact hnk.trans hle
    · exact .inr (.inl (decide_eq_true hin))

end FrameSolver

end PME.IC3
