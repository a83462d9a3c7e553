import PME.TransitionRelation

namespace PME

/-- A literal that the code may prime: a constant, or a signal at time zero. -/
def ValidLit (lit : ℕ) : Prop := idFalse ≤ lit ∧ lit ≤ maxId

instance (lit : ℕ) : Decidable (ValidLit lit) := inferInstanceAs (Decidable (_ ∧ _))

theorem ValidLit.negate {lit : ℕ} (h : ValidLit lit) : ValidLit (negate lit) := by
  have hmin := h.1
  refine ⟨?_, negate_le h.2⟩
  rw [idFalse] at *
  rw [negate_eq]
  split <;> omega

theorem ValidLit.strip {lit : ℕ} (h : ValidLit lit) : ValidLit (strip lit) := by
  have hmin := h.1
  refine ⟨?_, (strip_le lit).trans h.2⟩
  rw [idFalse] at *
  rw [strip_eq]
  omega

theorem ValidLit.strip_cases {lit : ℕ} (h : ValidLit lit) :
    PME.strip lit = idFalse ∨ minId ≤ PME.strip lit := by
  have hmin := h.1
  rw [minId_eq, strip_eq]
  rw [idFalse] at *
  omega

theorem validLit_idFalse : ValidLit idFalse := by decide

theorem validLit_idTrue : ValidLit idTrue := by decide

def SameSignals (x y : Assignment) : Prop :=
  x idFalse = y idFalse ∧ ∀ v, minId ≤ v → v ≤ maxId → x v = y v

theorem SameSignals.litVal_eq {x y : Assignment} (h : SameSignals x y) {lit : ℕ}
    (hl : ValidLit lit) : litVal x lit = litVal y lit := by
  refine litVal_congr ?_
  rcases hl.strip_cases with hs | hs
  · rw [hs]
    exact h.1
  · exact h.2 _ hs hl.strip.2

theorem SameSignals.satClauses_iff {x y : Assignment} (h : SameSignals x y) {vec : ClauseVec}
    (hv : ∀ cls ∈ vec, ∀ lit ∈ cls, ValidLit lit) : satClauses x vec ↔ satClauses y vec :=
  forall₂_congr fun cls hc ↦ exists_congr fun lit ↦ and_congr_right fun hl ↦ by
    rw [h.litVal_eq (hv cls hc lit hl)]

theorem SameSignals.symm {x y : Assignment} (h : SameSignals x y) : SameSignals y x :=
  ⟨h.1.symm, fun v hmin hmax ↦ (h.2 v hmin hmax).symm⟩

theorem sameSignals_joinFrames {x : ℕ → Assignment} {n : ℕ} (hx : x n idFalse = false) :
    SameSignals (frameOf (joinFrames x) n) (x n) := by
  refine ⟨?_, fun v hmin hmax ↦ frameOf_joinFrames x n hmin hmax⟩
  rw [frameOf_idFalse, joinFrames_idFalse, hx]

theorem sameSignals_frameOf_zero (σ : Assignment) : SameSignals (frameOf σ 0) σ :=
  ⟨frameOf_idFalse 0, fun _ _ hmax ↦ frameOf_zero hmax⟩

theorem satClauses_makeEqual {σ : Assignment} (hc : σ idFalse = false) (a b : ℕ) :
    satClauses σ (makeEqual a b) ↔ litVal σ a = litVal σ b := by
  have htrue : litVal σ idTrue = true := by rw [litVal_idTrue, hc, Bool.not_false]
  have hfalse : litVal σ idFalse = false := by rw [litVal_idFalse, hc]
  unfold makeEqual
  simp only [apply_ite (satClauses σ), satClauses_cons, satClause_cons, satClauses_nil,
    not_satClause_nil, litVal_negate, or_false, and_true]
  split
  · subst b
    rw [htrue]
  split
  · subst a
    rw [htrue, eq_comm]
  split
  · subst b
    rw [hfalse, Bool.not_eq_true']
  split
  · subst a
    rw [hfalse, Bool.not_eq_true', eq_comm]
  · cases litVal σ a <;> cases litVal σ b <;> simp

theorem satClauses_toCNF (σ : Assignment) (gate : AndGate) :
    satClauses σ gate.toCNF ↔
      litVal σ gate.lhs = (litVal σ gate.rhs0 && litVal σ gate.rhs1) := by
  simp only [AndGate.toCNF, satClauses_cons, satClause_cons, satClauses_nil, not_satClause_nil,
    litVal_negate, or_false, and_true]
  cases litVal σ gate.lhs <;> cases litVal σ gate.rhs0 <;> cases litVal σ gate.rhs1 <;> simp

namespace TransitionRelation

variable (tr : TransitionRelation)

structure LitsValid : Prop where
  bad : ValidLit tr.bad
  gates : ∀ cls ∈ tr.toCNF, ∀ lit ∈ cls, ValidLit lit
  latches : ∀ l ∈ tr.latches, minId ≤ l.id ∧ l.id ≤ maxId ∧ l.id % 2 = 0 ∧ ValidLit l.next
  reset : ∀ l ∈ tr.latches, l.reset = idNull ∨ l.reset = idFalse ∨ l.reset = idTrue
  constraints : ∀ c ∈ tr.constraints, ValidLit c
  ands : ∀ g ∈ tr.gates, ValidLit g.lhs ∧ ValidLit g.rhs0 ∧ ValidLit g.rhs1

structure IsFrame (x : Assignment) : Prop where
  const : x idFalse = false
  gates : satClauses x tr.toCNF
  constraints : satCube x tr.constraints

def Step (x y : Assignment) : Prop := ∀ l ∈ tr.latches, y l.id = litVal x l.next

def IsInit (x : Assignment) : Prop :=
  ∀ l ∈ tr.latches, l.reset ≠ idNull → x l.id = litVal x l.reset

instance (x y : Assignment) : Decidable (tr.Step x y) :=
  inferInstanceAs (Decidable (∀ l ∈ tr.latches, y l.id = litVal x l.next))

instance (x : Assignment) : Decidable (tr.IsInit x) :=
  inferInstanceAs (Decidable (∀ l ∈ tr.latches, l.reset ≠ idNull → x l.id = litVal x l.reset))

def IsRun (n : ℕ) (x : ℕ → Assignment) : Prop :=
  ∀ i < n, tr.IsFrame (x i) ∧ tr.Step (x i) (x (i + 1))

/-- Some run from an initial state satisfies the bad literal in frame `k`, and the constraints
up to there. -/
def BadAt (k : ℕ) : Prop :=
  ∃ x, tr.IsInit (x 0) ∧ tr.IsRun (k + 1) x ∧ litVal (x k) tr.bad = true

def Safe : Prop := ∀ k, ¬ tr.BadAt k

variable {tr} {σ : Assignment} {x y x' y' : Assignment}

theorem LitsValid.latch_id (h : tr.LitsValid) {l : Latch} (hl : l ∈ tr.latches) :
    ValidLit l.id := by
  obtain ⟨hmin, hmax, -⟩ := h.latches l hl
  exact ⟨Nat.le_trans (by decide) hmin, hmax⟩

theorem LitsValid.latch_reset (h : tr.LitsValid) {l : Latch} (hl : l ∈ tr.latches)
    (hr : l.reset ≠ idNull) : ValidLit l.reset := by
  rcases h.reset l hl with hn | hn | hn
  · exact absurd hn hr
  · rw [hn]
    exact validLit_idFalse
  · rw [hn]
    exact validLit_idTrue

theorem IsFrame.congr (h : tr.LitsValid) (hs : SameSignals x y) (hx : tr.IsFrame x) :
    tr.IsFrame y where
  const := hs.1 ▸ hx.const
  gates := (hs.satClauses_iff h.gates).mp hx.gates
  constraints c hc := (hs.litVal_eq (h.constraints c hc)) ▸ hx.constraints c hc

theorem Step.congr (h : tr.LitsValid) (hx : SameSignals x x') (hy : SameSignals y y')
    (hstep : tr.Step x y) : tr.Step x' y' := by
  intro l hl
  obtain ⟨hmin, hmax, -, hnext⟩ := h.latches l hl
  rw [← hy.2 _ hmin hmax, ← hx.litVal_eq hnext]
  exact hstep l hl

theorem IsInit.congr (h : tr.LitsValid) (hs : SameSignals x y) (hx : tr.IsInit x) :
    tr.IsInit y := by
  intro l hl hr
  obtain ⟨hmin, hmax, -⟩ := h.latches l hl
  rw [← hs.2 _ hmin hmax, ← hs.litVal_eq (h.latch_reset hl hr)]
  exact hx l hl hr

theorem satClauses_addTimeFrame (h : tr.LitsValid) (hc : σ idFalse = false) (n : ℕ) :
    satClauses σ (tr.addTimeFrame n tr.toCNF) ↔
      satClauses (frameOf σ n) tr.toCNF ∧ tr.Step (frameOf σ n) (frameOf σ (n + 1)) := by
  rw [addTimeFrame, satClauses_append, satClauses_flatMap]
  refine and_congr ?_ (forall₂_congr fun l hl ↦ ?_)
  · exact satClauses_primeClauses (fun cls hcls lit hlit ↦ (h.gates cls hcls lit hlit).2) n
  · obtain ⟨-, hmax, heven, hnext⟩ := h.latches l hl
    rw [satClauses_makeEqual hc, litVal_prime hnext.2, litVal_prime hmax, litVal_of_even heven]
    exact eq_comm

theorem satClauses_constrainTimeFrame (h : tr.LitsValid) (n : ℕ) :
    satClauses σ (tr.constrainTimeFrame n) ↔ satCube (frameOf σ n) tr.constraints := by
  simp only [constrainTimeFrame, satClauses, List.forall_mem_map, satClause_cons,
    not_satClause_nil, or_false, satCube]
  exact forall₂_congr fun c hc ↦ by rw [litVal_prime (h.constraints c hc).2]

/-- One frame of the unrolled formula says that the valuation at this time is a frame, and
that the next has its next state. -/
theorem satClauses_unrollFrame (h : tr.LitsValid) (hc : σ idFalse = false) (n : ℕ) :
    satClauses σ (tr.unrollFrame n) ↔
      tr.IsFrame (frameOf σ n) ∧ tr.Step (frameOf σ n) (frameOf σ (n + 1)) := by
  rw [unrollFrame, satClauses_append, satClauses_addTimeFrame h hc, satClauses_constrainTimeFrame h]
  constructor
  · rintro ⟨⟨hg, hs⟩, hcon⟩
    exact ⟨⟨by rw [frameOf_idFalse, hc], hg, hcon⟩, hs⟩
  · rintro ⟨hf, hs⟩
    exact ⟨⟨hf.gates, hs⟩, hf.constraints⟩

theorem satClauses_unroll (h : tr.LitsValid) (hc : σ idFalse = false) (n : ℕ) :
    satClauses σ (tr.unroll n) ↔ tr.IsRun n (frameOf σ) := by
  rw [unroll, satClauses_flatMap]
  simp only [List.mem_range, IsRun]
  exact forall₂_congr fun i _ ↦ satClauses_unrollFrame h hc i

theorem satClauses_initState (h : tr.LitsValid) (hc : σ idFalse = false) :
    satClauses σ tr.initState ↔ tr.IsInit σ := by
  rw [initState, satClauses_flatMap]
  refine forall₂_congr fun l hl ↦ ?_
  obtain ⟨-, -, heven, -⟩ := h.latches l hl
  by_cases hr : l.reset = idNull
  · simp [hr]
  · simp only [hr, if_false, ne_eq, not_false_eq_true, true_implies]
    rw [satClauses_makeEqual hc, litVal_of_even heven]

theorem makeEqual_nonempty {a b : ℕ} : ∀ cls ∈ makeEqual a b, cls ≠ [] := by
  intro cls hc
  unfold makeEqual at hc
  split_ifs at hc <;> simp only [List.mem_cons, List.not_mem_nil, or_false] at hc
  all_goals aesop

theorem initState_nonempty : ∀ cls ∈ tr.initState, cls ≠ [] := by
  intro cls hc
  obtain ⟨l, -, hc⟩ := List.mem_flatMap.mp hc
  split at hc
  · exact absurd hc List.not_mem_nil
  · exact makeEqual_nonempty cls hc

theorem satClauses_unrollWithInit (h : tr.LitsValid) (hc : σ idFalse = false) (n : ℕ) :
    satClauses σ (tr.unrollWithInit n) ↔ tr.IsRun n (frameOf σ) ∧ tr.IsInit (frameOf σ 0) := by
  rw [unrollWithInit, satClauses_append, satClauses_unroll h hc, satClauses_initState h hc]
  have hs := sameSignals_frameOf_zero σ
  exact and_congr_right fun _ ↦ ⟨IsInit.congr h hs.symm, IsInit.congr h hs⟩

/-- Every valuation after the last frame of a run may have the constant right. -/
theorem IsRun.congr {n : ℕ} {x y : ℕ → Assignment} (h : tr.LitsValid)
    (hs : ∀ i < n, SameSignals (x i) (y i))
    (hn : ∀ v, minId ≤ v → v ≤ maxId → x n v = y n v) (hx : tr.IsRun n x) : tr.IsRun n y := by
  intro i hi
  obtain ⟨hf, hst⟩ := hx i hi
  refine ⟨hf.congr h (hs i hi), fun l hl ↦ ?_⟩
  obtain ⟨hmin, hmax, -, hnext⟩ := h.latches l hl
  have hxy : x (i + 1) l.id = y (i + 1) l.id := by
    rcases Nat.lt_or_ge (i + 1) n with hlt | hge
    · exact (hs (i + 1) hlt).2 _ hmin hmax
    · obtain rfl : n = i + 1 := by omega
      exact hn _ hmin hmax
  rw [← hxy, ← (hs i hi).litVal_eq hnext]
  exact hst l hl

theorem isRun_joinFrames {n : ℕ} {x : ℕ → Assignment} (h : tr.LitsValid) (hx : tr.IsRun n x) :
    tr.IsRun n (frameOf (joinFrames x)) :=
  hx.congr h (fun i hi ↦ (sameSignals_joinFrames (hx i hi).1.const).symm)
    fun _ hmin hmax ↦ (frameOf_joinFrames x n hmin hmax).symm

theorem exists_run_iff (h : tr.LitsValid) (n : ℕ) (p : (ℕ → Assignment) → Prop)
    (hp : ∀ x y : ℕ → Assignment, (∀ i < n, SameSignals (x i) (y i)) → p x → p y) :
    (∃ x, tr.IsRun n x ∧ p x) ↔
      ∃ σ, σ idFalse = false ∧ satClauses σ (tr.unroll n) ∧ p (frameOf σ) := by
  constructor
  · rintro ⟨x, hx, hpx⟩
    refine ⟨joinFrames x, joinFrames_idFalse x, ?_, ?_⟩
    · rw [satClauses_unroll h (joinFrames_idFalse x)]
      exact isRun_joinFrames h hx
    · exact hp x _ (fun i hi ↦ (sameSignals_joinFrames (hx i hi).1.const).symm) hpx
  · rintro ⟨σ, hc, hσ, hpσ⟩
    exact ⟨frameOf σ, (satClauses_unroll h hc n).mp hσ, hpσ⟩

theorem badAt_iff (h : tr.LitsValid) (k : ℕ) :
    tr.BadAt k ↔ ∃ σ, σ idFalse = false ∧ satClauses σ (tr.unrollWithInit (k + 1)) ∧
      litVal σ (prime tr.bad k) = true := by
  have hrun := exists_run_iff h (k + 1) (fun x ↦ tr.IsInit (x 0) ∧ litVal (x k) tr.bad = true)
    fun x y hs hp ↦ ⟨hp.1.congr h (hs 0 (by omega)), (hs k (by omega)).litVal_eq h.bad ▸ hp.2⟩
  calc tr.BadAt k ↔ ∃ x, tr.IsRun (k + 1) x ∧ tr.IsInit (x 0) ∧ litVal (x k) tr.bad = true :=
        exists_congr fun x ↦ and_left_comm
    _ ↔ _ := hrun
    _ ↔ _ := exists_congr fun σ ↦ and_congr_right fun hc ↦ by
        rw [satClauses_unrollWithInit h hc, satClauses_unroll h hc, litVal_prime h.bad.2, and_assoc]

end TransitionRelation

end PME
