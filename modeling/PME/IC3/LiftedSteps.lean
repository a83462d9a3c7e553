import PME.IC3.Lifting

namespace PME

open Classical in
noncomputable def SAT.Solver.within (kept : Cube) : SAT.Solver where
  solve n db assumps :=
    if (SAT.Answer.unsat (assumps.dedup.filter (· ∈ kept))).Valid db assumps then
      .unsat (assumps.dedup.filter (· ∈ kept))
    else SAT.Solver.exhaustive.solve n db assumps
  valid n db assumps := by
    split
    · assumption
    · exact SAT.Solver.exhaustive.valid n db assumps

theorem SAT.Solver.within_eq {kept : Cube} {n : ℕ} {db : ClauseVec} {assumps : Cube}
    (h : ∀ σ, satClauses σ db → ¬ ∀ lit ∈ assumps, lit ∈ kept → litVal σ lit = true) :
    (SAT.Solver.within kept).solve n db assumps = .unsat (assumps.dedup.filter (· ∈ kept)) := by
  refine if_pos ⟨fun lit hl ↦ ?_, (List.nodup_dedup assumps).filter _, fun σ hσ hcore ↦ ?_⟩
  · exact List.dedup_subset assumps (List.mem_filter.mp hl).1
  · refine h σ hσ fun lit hl hkept ↦ hcore lit ?_
    exact List.mem_filter.mpr ⟨List.mem_dedup.mpr hl, decide_eq_true hkept⟩

namespace IC3

open Outcome TransitionRelation

/-- From every state in the cube that is in F_INF there is a step under these inputs that keeps to
the constraints. -/
def Keeps (tr : TransitionRelation) (trace : InductiveTrace) (lifted inp pinp : Cube) : Prop :=
  ∀ x, IsState tr x → InFrame trace .inf x → satCube x lifted → satCube x inp →
    ∃ y, tr.Linked x y ∧ satCube y pinp

/-- From every state in the first cube that is in F_INF there is a step under these inputs that
keeps to the constraints and leads into the second. -/
def Steps (tr : TransitionRelation) (trace : InductiveTrace) (lifted succ inp pinp : Cube) : Prop :=
  ∀ x, IsState tr x → InFrame trace .inf x → satCube x lifted → satCube x inp →
    ∃ y, tr.Linked x y ∧ satCube y pinp ∧ satCube y succ

variable {B : Backend} {tr : TransitionRelation} {first : ℕ} {trace : InductiveTrace}
  {pred succ inp pinp c c' : Cube} {ℓ : Level} {x y : Assignment}

theorem steps_iff (h : Leads tr trace c succ inp pinp) :
    Steps tr trace c succ inp pinp ↔ Keeps tr trace c inp pinp := by
  constructor
  · intro hs x hx hf hc hin
    obtain ⟨y, hxy, hnext, -⟩ := hs x hx hf hc hin
    exact ⟨y, hxy, hnext⟩
  · intro hk x hx hf hc hin
    obtain ⟨y, hxy, hnext⟩ := hk x hx hf hc hin
    exact ⟨y, hxy, hnext, h x y hxy hf hc hin hnext⟩

theorem Steps.same (h : Steps tr trace c succ inp pinp) (hc : c ⊆ c') :
    Steps tr trace c' succ inp pinp :=
  fun x hx hf hcube ↦ h x hx hf (satCube_subset hc hcube)

theorem Predecessor.keeps (h : Predecessor tr trace ℓ succ pred inp pinp) (hwf : tr.WellFormed)
    (hmet : ∀ x, IsState tr x → satCube x tr.constraints) : Keeps tr trace c inp pinp := by
  intro x hx _ _ _
  obtain ⟨x₀, y₀, hstep, -, -, -, -, -, hpinp⟩ := h.step
  obtain ⟨y, hy, hxy, hval⟩ := exists_next hwf x (u := y₀) hstep.snd.const
  refine ⟨y, ⟨hx.isFrame (hmet x hx), hy.isFrame (hmet y hy), hxy⟩, fun lit hl ↦ ?_⟩
  have hin := h.primed lit hl
  have hlatch : strip lit ∉ tr.latchIDs := fun hmem ↦
    List.disjoint_of_nodup_append (List.nodup_append.mp hwf.nodup).1 hin hmem
  rw [litVal_congr (hval _ (hwf.not_gate (List.mem_append_left _ hin)) hlatch)]
  exact hpinp lit hl

namespace UNSATCoreLifter

open FrameSolver

theorem Shown.exists_step (h : Shown tr first trace ℓ pred succ inp pinp) : ∃ x y, tr.Linked x y ∧
    InFrame trace .inf x := by
  obtain ⟨x, y, hxy, hx, -⟩ := h.step.step
  refine ⟨x, y, hxy, fun c m hat hle ↦ hx c m hat ?_⟩
  exact le_trans Level.le_inf hle

theorem Shown.not_empty (h : Shown tr first trace ℓ pred succ inp pinp) : ¬ trace.At [] .inf := by
  obtain ⟨x, y, -, hx⟩ := h.exists_step
  exact fun hat ↦ hx [] .inf hat le_rfl satCube_nil

theorem Shown.succ_ne_nil (h : Shown tr first trace ℓ pred succ inp pinp) : succ ≠ [] := by
  obtain ⟨x, y, -, -, hout, -⟩ := h.step.step
  exact fun hnil ↦ hout (hnil ▸ satCube_nil)

theorem Shown.formula (h : Shown tr first trace ℓ pred succ inp pinp) (B : Backend)
    {fail : Failure → Prop} : Meets (fun unrolled ↦ ∀ cls ∈ unrolled, cls ≠ []) fail
      (TransitionRelationSolver.computeSimplifiedTR B tr) := by
  have hwf := h.readable.wf
  obtain ⟨x, y, hxy, -⟩ := h.exists_step
  refine (computeSimplifiedTR_meets hwf B fun hno ↦ ?_).imp fun _ hu ↦ hu.nonempty
  have hlink := exists_linked_iff hwf.toLitsValid hwf.latches_nodup (fun _ _ ↦ True)
    fun _ _ _ _ _ _ _ ↦ trivial
  obtain ⟨σ, hσ, -⟩ := hlink.mpr ⟨x, y, hxy, trivial⟩
  exact absurd ⟨σ, hσ⟩ hno

theorem Full.exists_linked {ul : UNSATCoreLifter} (h : Full trace ul) (hrep : Rep B tr trace ul)
    (hi : ul.solverInited = true) (hr : FrameSolver.Readable tr first trace) {σ : Assignment}
    (hσ : satClauses σ ul.solver.clauses) :
    ∃ x y, tr.Linked x y ∧ InFrame trace .inf x ∧
      ∀ lit, Visible tr lit → litVal x lit = litVal σ lit ∧ litVal y lit = litVal σ (prime lit 1) := by
  obtain ⟨sent, hclauses, hall⟩ := h
  rw [hclauses, satClauses_append] at hσ
  obtain ⟨x, y, hxy, hval⟩ := (hrep.answers hi hr.wf).exists_linked hr.wf hσ.1
  refine ⟨x, y, hxy, fun d m hat hle hcube ↦ ?_, hval⟩
  have hm : m = .inf := by
    cases m with
    | fin n => exact absurd hle Level.not_inf_le_fin
    | inf => rfl
  subst hm
  have hcls := hσ.2 (negateVec d) (List.mem_map_of_mem (hall d hat))
  refine (satClause_negateVec d).mp hcls fun lit hl ↦ ?_
  rw [← (hval lit (hr.visible d .inf hat lit hl)).1]
  exact hcube lit hl

theorem not_latch_prime (hwf : tr.WellFormed) {lit : ℕ} (hmax : lit ≤ maxId) :
    strip (prime lit 1) ∉ tr.latchIDs := by
  intro hmem
  obtain ⟨hmin, hle, -⟩ := latch_var hwf _ hmem
  have hs := strip_le lit
  rw [strip_prime hmax] at hmin hle
  obtain hlow | hhigh := Nat.lt_or_ge (strip lit) minId
  · rw [prime_of_lt hlow] at hmin
    omega
  · rw [prime_of_ge hhigh (hs.trans hmax)] at hle
    rw [maxId_eq] at hle
    omega

theorem mem_crits_of_extractCore {crits : Cube} (hwf : tr.WellFormed)
    (hpred : ∀ lit ∈ pred, strip lit ∈ tr.latchIDs)
    (hcrits : ∀ crit ∈ crits, ∃ lit i, lit ≤ maxId ∧ i ≤ 1 ∧ crit = prime lit i) {lit : ℕ}
    (h : lit ∈ extractCore pred crits) : lit ∈ crits := by
  have hlatch := hpred lit (mem_extractCore h)
  have hmin := (latch_var hwf _ hlatch).1.trans (strip_le lit)
  obtain ⟨crit, hcrit, heq⟩ := List.mem_filterMap.mp h
  split at heq
  · obtain ⟨hprimes, -⟩ := (‹_ ∧ _›)
    obtain ⟨l, i, hmax, hi, rfl⟩ := hcrits crit hcrit
    obtain rfl := Option.some_inj.mp heq
    rw [unprime_prime hmax] at hmin ⊢
    rw [nprimes_prime hmin hmax (hi.trans (by decide))] at hprimes
    rw [hprimes, prime_zero hmax] at hcrit
    exact hcrit
  · exact nomatch heq

/-- A part of the cube from which every step leads into the target is enough to refute the query. -/
theorem Shown.refuted (h : Shown tr first trace ℓ pred succ inp pinp) {ul : UNSATCoreLifter}
    (hfull : Full trace ul) (hrep : Rep B tr trace ul) (hi : ul.solverInited = true) (hc : c ⊆ pred)
    (hleads : Leads tr trace c succ inp pinp) {σ : Assignment} (hσ : satClauses σ ul.solver.clauses)
    (hneg : satClause σ (negateVec (primeVec succ 1))) : ¬ satCube σ (c ++ inp ++ primeVec pinp 1) := by
  intro hcube
  have hwf := h.readable.wf
  obtain ⟨x, y, hxy, hx, hval⟩ := hfull.exists_linked hrep hi h.readable hσ
  have hsucc := hleads x y hxy hx ?_ ?_ ?_
  · obtain ⟨lit, hl, hfalse⟩ := satClause_negsucc.mp hneg
    rw [← (hval lit (h.target.visible lit hl)).2, hsucc lit hl] at hfalse
    exact nomatch hfalse
  · intro lit hl
    rw [(hval lit (visible_latch hwf (h.step.latches lit (hc hl)))).1]
    exact hcube lit (List.mem_append_left _ (List.mem_append_left _ hl))
  · intro lit hl
    rw [(hval lit (visible_input hwf (h.step.inputs lit hl))).1]
    exact hcube lit (List.mem_append_left _ (List.mem_append_right _ hl))
  · intro lit hl
    rw [(hval lit (visible_input hwf (h.step.primed lit hl))).2]
    exact hcube _ (List.mem_append_right _ (List.mem_map_of_mem hl))

def queried (c succ inp pinp : Cube) : Cube :=
  c ++ inp ++ primeVec pinp 1 ++ negateVec (primeVec succ 1)

/-- Of the literals of the cube, a query with a part of it has those of the part. -/
theorem Shown.mem_part (h : Shown tr first trace ℓ pred succ inp pinp) {lit : ℕ} (hpred : lit ∈ pred)
    (hl : lit ∈ queried c succ inp pinp) : lit ∈ c := by
  have hwf := h.readable.wf
  have hlatch := h.step.latches lit hpred
  cases List.mem_append.mp hl with
  | inl hl =>
    cases List.mem_append.mp hl with
    | inl hl =>
      cases List.mem_append.mp hl with
      | inl hpart => exact hpart
      | inr hin =>
        exact absurd hlatch (List.disjoint_of_nodup_append (List.nodup_append.mp hwf.nodup).1
          (h.step.inputs lit hin))
    | inr hnext =>
      obtain ⟨l, hin, rfl⟩ := List.mem_map.mp hnext
      exact absurd hlatch (not_latch_prime hwf (visible_input hwf (h.step.primed l hin)).1.2)
  | inr hneg =>
    obtain ⟨l', hl', rfl⟩ := List.mem_map.mp hneg
    obtain ⟨l, hsucc, rfl⟩ := List.mem_map.mp hl'
    rw [strip_negate] at hlatch
    exact absurd hlatch (not_latch_prime hwf (h.target.visible l hsucc).1.2)

theorem Shown.primed_once (h : Shown tr first trace ℓ pred succ inp pinp) (hc : c ⊆ pred) :
    ∀ crit ∈ queried c succ inp pinp, ∃ lit i, lit ≤ maxId ∧ i ≤ 1 ∧ crit = prime lit i := by
  have hwf := h.readable.wf
  have hnow : ∀ lit ≤ maxId, ∃ l i, l ≤ maxId ∧ i ≤ 1 ∧ lit = prime l i := fun lit hmax ↦
    ⟨lit, 0, hmax, Nat.zero_le 1, (prime_zero hmax).symm⟩
  intro crit hcrit
  cases List.mem_append.mp hcrit with
  | inl hl =>
    cases List.mem_append.mp hl with
    | inl hl =>
      cases List.mem_append.mp hl with
      | inl hpart => exact hnow crit (visible_latch hwf (h.step.latches crit (hc hpart))).1.2
      | inr hin => exact hnow crit (visible_input hwf (h.step.inputs crit hin)).1.2
    | inr hnext =>
      obtain ⟨l, hin, rfl⟩ := List.mem_map.mp hnext
      exact ⟨l, 1, (visible_input hwf (h.step.primed l hin)).1.2, le_rfl, rfl⟩
  | inr hneg =>
    obtain ⟨l', hl', rfl⟩ := List.mem_map.mp hneg
    obtain ⟨l, hsucc, rfl⟩ := List.mem_map.mp hl'
    have hmax := (h.target.visible l hsucc).1.2
    exact ⟨negate l, 1, negate_le hmax, le_rfl, (prime_negate hmax 1).symm⟩

/-- Any part of the cube that leads into the target may be what is left of it. -/
theorem Shown.lift_picks (h : Shown tr first trace ℓ pred succ inp pinp) (hinv : trace.Inv)
    (hc : c ⊆ pred) (hne : c ≠ []) (hleads : Leads tr trace c succ inp pinp) :
    ∃ B, Meets (fun r ↦ r.1 ⊆ c) (fun _ ↦ False) ((new tr).lift B trace pred succ inp pinp) := by
  have hwf := h.readable.wf
  let B : Backend := ⟨.within (queried c succ inp pinp), .keep, false⟩
  have hneg : negateVec (primeVec succ 1) ≠ [] := fun hno ↦
    h.succ_ne_nil (List.map_eq_nil_iff.mp (List.map_eq_nil_iff.mp hno))
  refine ⟨B, ?_⟩
  unfold lift
  rw [ensure_nonempty h.succ_ne_nil, ok_bind,
    if_neg (show ¬ (new tr).solverInited = true from Bool.false_ne_true)]
  refine (renewSAT_meets (B := B) rep_new rfl hinv (fun hat ↦ absurd hat h.not_empty)
    (h.formula B)).bind fun ul hul ↦ ?_
  obtain ⟨hrep, hi, hfull⟩ := hul
  refine query_cases B ul.solver _ _ _ hneg fun n db more ad hdb had ↦ ?_
  have hassumed : ∀ lit ∈ c ++ inp ++ primeVec pinp 1, lit ∈ pred ++ inp ++ primeVec pinp 1 ++ more ∧
      lit ∈ queried c succ inp pinp := by
    intro lit hl
    refine ⟨List.mem_append_left _ ?_, List.mem_append_left _ hl⟩
    refine List.mem_append.mpr ((List.mem_append.mp hl).imp_left fun hnow ↦ ?_)
    exact List.mem_append.mpr ((List.mem_append.mp hnow).imp_left fun hpart ↦ hc hpart)
  have hrefuted : ∀ σ, satClauses σ db → ¬ ∀ lit ∈ pred ++ inp ++ primeVec pinp 1 ++ more,
      lit ∈ queried c succ inp pinp → litVal σ lit = true := by
    intro σ hσ hall
    have hcube : satCube σ (c ++ inp ++ primeVec pinp 1) := fun lit hl ↦
      hall lit (hassumed lit hl).1 (hassumed lit hl).2
    obtain ⟨rfl, rfl⟩ | ⟨rfl, rfl, hone⟩ := hdb
    · have hboth := (satClauses_append _ _).mp hσ
      exact h.refuted hfull hrep hi hc hleads hboth.1 (hboth.2 _ List.mem_cons_self) hcube
    · obtain ⟨lit, hl⟩ := List.exists_mem_of_ne_nil _ hneg
      have hlit := hall lit (List.mem_append_right _ hl) (List.mem_append_right _ hl)
      exact h.refuted hfull hrep hi hc hleads hσ ⟨lit, hl, hlit⟩ hcube
  dsimp only
  rw [SAT.Solver.within_eq hrefuted]
  dsimp only
  have hpart : extractCore pred ((pred ++ inp ++ primeVec pinp 1 ++ more).dedup.filter
      (· ∈ queried c succ inp pinp)) ⊆ c := by
    intro lit hl
    have hcrit := mem_crits_of_extractCore hwf h.step.latches (fun crit hcrit ↦
      h.primed_once hc crit (of_decide_eq_true (List.mem_filter.mp hcrit).2)) hl
    exact h.mem_part (mem_extractCore hl) (of_decide_eq_true (List.mem_filter.mp hcrit).2)
  cases hcore : extractCore pred ((pred ++ inp ++ primeVec pinp 1 ++ more).dedup.filter
      (· ∈ queried c succ inp pinp)) with
  | nil =>
    obtain ⟨lit, hl⟩ := List.exists_mem_of_ne_nil c hne
    have hvis := visible_latch hwf (h.step.latches lit (hc hl))
    have hmin := (latch_var hwf _ (h.step.latches lit (hc hl))).1.trans (strip_le lit)
    have hmem := hassumed lit (List.mem_append_left _ (List.mem_append_left _ hl))
    have hkept : lit ∈ extractCore pred ((pred ++ inp ++ primeVec pinp 1 ++ more).dedup.filter
        (· ∈ queried c succ inp pinp)) := by
      refine mem_extractCore_of_prime (hc hl) hmin hvis.1.2 (Nat.zero_le _) ?_
      rw [prime_zero hvis.1.2]
      exact List.mem_filter.mpr ⟨List.mem_dedup.mpr hmem.1, decide_eq_true hmem.2⟩
    exact absurd (hcore ▸ hkept) List.not_mem_nil
  | cons lit rest =>
    rw [hcore] at hpart
    exact hpart

theorem predecessor_of_ok (hr : FrameSolver.Readable tr first trace) {fs fs' : FrameSolver}
    {vm vm' : VariableManager} (hrep : FrameSolver.Rep B tr first vm trace fs) (hsucc : Target tr succ)
    (hshown : fs.consecutionFull B vm trace ℓ succ = .ok (.fails pred inp pinp, vm', fs')) :
    Predecessor tr trace ℓ succ pred inp pinp := by
  have hformula : Meets (fun unrolled ↦ ∀ cls ∈ unrolled, cls ≠ []) (fun _ ↦ True)
      (TransitionRelationSolver.computeSimplifiedTR B tr) :=
    (computeSimplifiedTR_meets hr.wf B fun _ ↦ trivial).imp fun _ hu ↦ hu.nonempty
  have hfaults : Faults B tr first vm trace fs (fun _ ↦ True) succ :=
    ⟨⟨fun _ ↦ trivial, fun _ _ ↦ trivial, hformula⟩, fun _ ↦ trivial, fun _ ↦ trivial⟩
  have hmeets := FrameSolver.consecutionFull_meets hrep hr.wf hfaults ℓ fun _ _ _ _ _ _ ↦ trivial
  obtain ⟨-, -, m, hpred, hinp, hpinp, hq⟩ := hmeets.of_ok hshown
  rw [hpred, hinp, hpinp]
  exact hq.predecessor hr hsucc

/-- What the lifter is meant to do: to leave a part of the cube from which every state has a step
into the target. -/
def Lifts (tr : TransitionRelation) (trace : InductiveTrace) (pred succ inp pinp lifted : Cube) : Prop :=
  lifted ≠ [] ∧ lifted ⊆ pred ∧ Steps tr trace lifted succ inp pinp

/-- However the solver chooses its cores, what is left of a shown state has a step into the target
exactly when no part of it that leads there may break the constraints. -/
theorem lift_right (hr : FrameSolver.Readable tr first trace) {fs fs' : FrameSolver}
    {vm vm' : VariableManager} (hrep : FrameSolver.Rep B tr first vm trace fs) (hsucc : Target tr succ)
    (hshown : fs.consecutionFull B vm trace ℓ succ = .ok (.fails pred inp pinp, vm', fs')) :
    ((∀ B ul, Rep B tr trace ul → Meets (fun r ↦ Lifts tr trace pred succ inp pinp r.1)
        (fun _ ↦ False) (ul.lift B trace pred succ inp pinp)) ↔
      pred ≠ [] ∧ ∀ c ⊆ pred, c ≠ [] → Leads tr trace c succ inp pinp → Keeps tr trace c inp pinp) ∧
    ((∀ x, IsState tr x → satCube x tr.constraints) → ∀ c, Keeps tr trace c inp pinp) := by
  have hinv := hrep.inv
  have hstep := predecessor_of_ok hr hrep hsucc hshown
  refine ⟨⟨fun hall ↦ ?_, fun hkeeps B ul hul ↦ ?_⟩, fun hmet c ↦ hstep.keeps hr.wf hmet⟩
  · have hpred : pred ≠ [] := by
      rintro rfl
      obtain ⟨r, -, hne, hsub, -⟩ := (hall B (new tr) rep_new).exists_ok
      exact hne (List.subset_nil.mp hsub)
    refine ⟨hpred, fun c hc hne hleads ↦ ?_⟩
    have h : Shown tr first trace ℓ pred succ inp pinp := ⟨hr, hsucc, hstep, hpred⟩
    obtain ⟨B, hpicks⟩ := h.lift_picks hinv hc hne hleads
    obtain ⟨r, hrun, hpart⟩ := hpicks.exists_ok
    have hsteps := ((hall B (new tr) rep_new).of_ok hrun).2.2
    exact (steps_iff hleads).mp (hsteps.same hpart)
  · have h : Shown tr first trace ℓ pred succ inp pinp := ⟨hr, hsucc, hstep, hkeeps.1⟩
    refine (lift_meets hul hinv (fun hno ↦ absurd h hno) (fun hnil ↦ absurd hnil h.succ_ne_nil)
      (fun hat ↦ absurd hat h.not_empty) (h.formula B)).imp fun r hr ↦ ?_
    obtain ⟨-, hne, hsub, hshown⟩ := hr
    have hleads := (hshown h).2
    exact ⟨hne, hsub, (steps_iff hleads).mpr (hkeeps.2 _ hsub hne hleads)⟩

def walled : TransitionRelation where
  bad := 4
  latches := [⟨4, 6, idFalse⟩, ⟨6, 6, idTrue⟩]
  gates := []
  latchIDs := [4, 6]
  inputIDs := []
  gateIDs := []
  constraints := [6]
  gateCNF := AndGate.toCNF

theorem walled_wellFormed : walled.WellFormed where
  bad := by decide
  gates := by decide
  latches := by decide
  reset := by decide
  constraints := by decide
  ands := by decide
  latchIDs_eq := rfl
  gateIDs_eq := rfl
  isVar := by decide
  nodup := by decide
  next := by decide
  constraints_defined := by decide
  bad_defined := by decide
  rhs_defined := by decide
  gates_computed := ⟨fun _ ↦ 0, nofun⟩

theorem readable_walled : FrameSolver.Readable walled 8 .new where
  wf := walled_wellFormed
  owned := by
    refine ⟨by decide, fun v hv ↦ ?_, nofun⟩
    obtain ⟨g, hg, -⟩ | ⟨l, hl, hv⟩ | ⟨lit, hlit, rfl⟩ := hv
    · exact absurd hg List.not_mem_nil
    · have hall : ∀ l ∈ walled.latches, l.id < 8 ∧ strip l.next < 8 := by decide
      exact hv.elim (fun heq ↦ heq ▸ (hall l hl).1) fun heq ↦ heq ▸ (hall l hl).2
    · have hall : ∀ lit ∈ walled.bad :: walled.constraints, strip lit < 8 := by decide
      exact hall lit hlit
  visible c m hat := absurd hat InductiveTrace.not_at_new

theorem target_walled : Target walled [4] where
  visible := List.forall_mem_singleton.mpr (visible_bad walled_wellFormed)
  defines := List.forall_mem_singleton.mpr (.inr (by decide))

theorem walled_shown (S : SAT.Solver) (vm : VariableManager) : ∃ pred inp pinp fs',
    (FrameSolver.new walled).consecutionFull ⟨S, .keep, false⟩ vm .new (.fin 0) [4] =
      .ok (.fails pred inp pinp, vm, fs') ∧ ∃ lit ∈ pred, strip lit = 4 := by
  let σ : Assignment := fun v ↦ decide (v ∈ [6, prime 4 1, prime 6 1, prime 4 2, prime 6 2])
  obtain ⟨n, db, fs', hquery, hσ, hassumps, hknown, htr⟩ : ∃ n db fs',
      (FrameSolver.new walled).consecutionQuery ⟨S, .keep, false⟩ vm .new (.fin 0) [4] =
        .ok (S.solve n db [prime 4 1], vm, fs') ∧ satClauses σ db ∧ satCube σ [prime 4 1] ∧
        prime 4 0 ∈ fs'.solver.known ∧ fs'.tr = walled := ⟨_, _, _, rfl, by decide, by decide, by decide, rfl⟩
  have hvalid := S.valid n db [prime 4 1]
  cases hanswer : S.solve n db [prime 4 1] with
  | unsat crits =>
    rw [hanswer] at hvalid
    exact absurd (satCube_subset hvalid.1 hassumps) (hvalid.2.2 σ hσ)
  | sat m =>
    obtain ⟨lit, hl, hlit⟩ := exists_extract (m := m) (latch_var walled_wellFormed)
      (List.mem_cons_self : 4 ∈ walled.latchIDs) hknown
    have hpred : fs'.extractPredecessor m = .ok (fs'.solver.extract m walled.latchIDs 0) := by
      have hblind : walled.latchIDs ≠ [] → (∀ l ∈ walled.latchIDs, l ∉ fs'.solver.known) → False :=
        fun _ hno ↦ hno 4 List.mem_cons_self hknown
      have hmeets : Meets _ (fun _ ↦ False) (fs'.extractPredecessor m) :=
        FrameSolver.extractPredecessor_meets walled_wellFormed htr hblind
      obtain ⟨pred, hrun, hpred, -⟩ := hmeets.exists_ok
      exact hpred ▸ hrun
    refine ⟨_, fs'.extractInputs m, fs'.extractPrimedInputs m, fs', ?_, lit, hl, hlit⟩
    unfold FrameSolver.consecutionFull
    rw [hquery, ok_bind, hanswer]
    dsimp only
    rw [hpred]
    rfl

theorem walled_rep : ∃ vm : VariableManager,
    FrameSolver.Rep ⟨.exhaustive, .keep, false⟩ walled 8 vm .new (FrameSolver.new walled) := by
  obtain ⟨vm₁, vm₂, h₁, h₂, hnext⟩ : ∃ vm₁ vm₂ : VariableManager,
      VariableManager.new.getNewID 0 = .ok (4, vm₁) ∧ vm₁.getNewID 0 = .ok (6, vm₂) ∧ vm₂.nextID = 8 :=
    ⟨_, _, rfl, rfl, rfl⟩
  have hinv : vm₂.Inv := (VariableManager.inv_new.getNewID h₁).getNewID h₂
  exact ⟨vm₂, FrameSolver.rep_new hinv hnext.ge InductiveTrace.inv_new
    fun c ℓ hat ↦ absurd hat InductiveTrace.not_at_new⟩

theorem lift_right_walled : ∃ pred inp pinp,
    ((∀ B ul, Rep B walled .new ul → Meets (fun r ↦ Lifts walled .new pred [4] inp pinp r.1)
        (fun _ ↦ False) (ul.lift B .new pred [4] inp pinp)) ↔
      pred ≠ [] ∧ ∀ c ⊆ pred, c ≠ [] → Leads walled .new c [4] inp pinp → Keeps walled .new c inp pinp) ∧
    ((∀ x, IsState walled x → satCube x walled.constraints) → ∀ c, Keeps walled .new c inp pinp) := by
  obtain ⟨vm, hrep⟩ := walled_rep
  obtain ⟨pred, inp, pinp, fs', hshown, -⟩ := walled_shown .exhaustive vm
  exact ⟨pred, inp, pinp, lift_right readable_walled hrep target_walled hshown⟩

/-- What is left may be the first latch alone, whose states all have no step when the second latch
is at zero. -/
theorem lift_right_fails : ∃ vm pred inp pinp fs',
    FrameSolver.Rep ⟨.exhaustive, .keep, false⟩ walled 8 vm .new (FrameSolver.new walled) ∧
    (FrameSolver.new walled).consecutionFull ⟨.exhaustive, .keep, false⟩ vm .new (.fin 0) [4] =
      .ok (.fails pred inp pinp, vm, fs') ∧
    ¬ ∀ B ul, Rep B walled .new ul → Meets (fun r ↦ Lifts walled .new pred [4] inp pinp r.1)
      (fun _ ↦ False) (ul.lift B .new pred [4] inp pinp) := by
  obtain ⟨vm, hrep⟩ := walled_rep
  obtain ⟨pred, inp, pinp, fs', hshown, lit, hl, hlit⟩ := walled_shown .exhaustive vm
  refine ⟨vm, pred, inp, pinp, fs', hrep, hshown, fun hall ↦ ?_⟩
  have hstep := predecessor_of_ok readable_walled hrep target_walled hshown
  have h : Shown walled 8 .new (.fin 0) pred [4] inp pinp :=
    ⟨readable_walled, target_walled, hstep, List.ne_nil_of_mem hl⟩
  have hfirst : (⟨4, 6, idFalse⟩ : Latch) ∈ walled.latches := List.mem_cons_self
  have hleads : Leads walled .new [lit] [4] inp pinp := by
    intro x y hxy _ _ _ _
    have hstep : y 4 = litVal x 6 := hxy.step _ hfirst
    have hhigh := hstep.trans (hxy.fst.constraints 6 List.mem_cons_self)
    exact List.forall_mem_singleton.mpr ((litVal_of_even rfl).trans hhigh)
  obtain ⟨B, hpicks⟩ := h.lift_picks InductiveTrace.inv_new
    (List.forall_mem_singleton.mpr hl) (List.cons_ne_nil _ _) hleads
  obtain ⟨r, hrun, hpart⟩ := hpicks.exists_ok
  have hsteps := ((hall B (new walled) rep_new).of_ok hrun).2.2.same hpart
  let x : Assignment := fun v ↦ decide (v = 4) && !isNegated lit
  have hx : litVal x lit = true := by
    simp [litVal, x, hlit]
  have hin : satCube x inp := fun l hl ↦ absurd (hstep.inputs l hl) List.not_mem_nil
  obtain ⟨y, hxy, -⟩ := hsteps x ⟨rfl, fun _ hcls ↦ absurd hcls List.not_mem_nil⟩
    (fun c m hat ↦ absurd hat InductiveTrace.not_at_new) (List.forall_mem_singleton.mpr hx) hin
  have hlow : litVal x 6 = false := rfl
  exact absurd (hlow.symm.trans (hxy.fst.constraints 6 List.mem_cons_self)) Bool.false_ne_true

end UNSATCoreLifter

end IC3

end PME
