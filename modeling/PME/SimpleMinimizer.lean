import PME.ProofMinimizer

namespace PME

open Outcome Support TransitionRelation

namespace SAT

open Classical in
/-- A solver that leaves out of the core what `keep` leaves out of the assumptions, where it can. -/
noncomputable def Solver.choosy (keep : Cube → Cube) : Solver where
  solve _ db assumps :=
    if h : ∃ σ, satClauses σ db ∧ satCube σ assumps then .sat h.choose
    else if keep assumps ⊆ assumps ∧ ∀ σ, satClauses σ db → ¬ satCube σ (keep assumps) then
      .unsat (keep assumps).dedup
    else .unsat assumps.dedup
  valid _ db assumps := by
    split
    · exact Exists.choose_spec ‹_›
    · next hno =>
      split
      · next hkeep =>
        refine ⟨fun a ha ↦ hkeep.1 (List.mem_dedup.mp ha), List.nodup_dedup _, fun σ hdb hc ↦ ?_⟩
        exact hkeep.2 σ hdb (satCube_subset (List.subset_dedup _) hc)
      · refine ⟨List.dedup_subset assumps, List.nodup_dedup assumps, fun σ hdb hc ↦ ?_⟩
        exact hno ⟨σ, hdb, satCube_subset (List.subset_dedup assumps) hc⟩

variable {keep : Cube → Cube} {k : ℕ} {db : ClauseVec} {assumps crits : Cube}

theorem choosy_subset (h : (Solver.choosy keep).solve k db assumps = .unsat crits)
    (hkeep : keep assumps = assumps) : assumps ⊆ crits := by
  unfold Solver.choosy at h
  dsimp only at h
  rw [hkeep] at h
  split at h
  · exact nomatch h
  · split at h
    · cases h
      exact List.subset_dedup assumps
    · cases h
      exact List.subset_dedup assumps

theorem choosy_mem (h : (Solver.choosy keep).solve k db assumps = .unsat crits)
    (hsub : keep assumps ⊆ assumps) (hcore : ∀ σ, satClauses σ db → ¬ satCube σ (keep assumps)) (a : ℕ) :
    a ∈ crits ↔ a ∈ keep assumps := by
  unfold Solver.choosy at h
  dsimp only at h
  split at h
  · exact nomatch h
  · rw [if_pos ⟨hsub, hcore⟩] at h
    cases h
    exact List.mem_dedup

end SAT

namespace ConsecutionChecker

def supportSolveAll (B : Backend) (cc : ConsecutionChecker) (id : ℕ) : Result (Consecution × ConsecutionChecker) :=
  cc.solve B (cc.clausedb.entries.map ClauseEntry.id) id

end ConsecutionChecker

structure SimpleMinimizer where
  base : ProofMinimizer
  solver : ConsecutionChecker
  allClauses : List ℕ

namespace SimpleMinimizer

open ConsecutionChecker

/-- The constructor, with `initSolver`. -/
def new (vm : VariableManager) (tr : TransitionRelation) (proof : ClauseVec) :
    Result (VariableManager × SimpleMinimizer) := do
  let base := ProofMinimizer.new tr proof
  let (vm, solver) ← addAll vm (ConsecutionChecker.new tr) 0 base.proof
  return (vm, ⟨base, solver, List.range base.numClauses⟩)

/-- The support of a clause, with the option `simple_min_use_min_supp` or without. -/
def computeSupport (B : Backend) (useMinSupp : Bool) (all : List ℕ) (cc : ConsecutionChecker) (id : ℕ) :
    Result (List ℕ × ConsecutionChecker) :=
  if useMinSupp then cc.findMinimalSupportOf B all id else do
    let (answer, cc) ← cc.supportSolveAll B id
    match answer with
    | .holds support => return (support, cc)
    | .fails _ => throw .assertion

/-- The loop of `doMinimize` over the queue. -/
def processLoop (B : Backend) (useMinSupp : Bool) (all : List ℕ) :
    ℕ → Finset ℕ → Finset ℕ → List ℕ → ConsecutionChecker → Result (Finset ℕ × ConsecutionChecker)
  | 0, _, _, _, _ => throw .outOfFuel
  | _ + 1, _, nec, [], cc => return (nec, cc)
  | n + 1, supported, nec, id :: queue, cc =>
    if id ∈ supported then processLoop B useMinSupp all n supported nec queue cc else do
      let (support, cc) ← computeSupport B useMinSupp all cc id
      processLoop B useMinSupp all n (insert id supported) (nec ∪ support.toFinset)
        (queue ++ support.filter (· ∉ supported)) cc

def doMinimize (B : Backend) (useMinSupp : Bool) (m : SimpleMinimizer) : Result SimpleMinimizer := do
  let fuel := (m.base.numClauses + 1) * (m.base.numClauses + 1)
  let (nec, cc) ← processLoop B useMinSupp m.allClauses fuel ∅ {m.base.property} [m.base.property] m.solver
  return { m with base := m.base.addMinimalProof (SISI.ordered nec), solver := cc }

variable {B : Backend} {tr : TransitionRelation} {cls : ℕ → Clause} {base : Finset ℕ} {n : ℕ}
  {vm : VariableManager} {cc : ConsecutionChecker} {fail : Failure → Prop} {useMinSupp : Bool}
  {all queue : List ℕ} {supported nec : Finset ℕ} {c : ℕ}

section Empty

variable {frame support : List ℕ} {cc' : ConsecutionChecker}

theorem clause_eq_nil (h : Rep B tr cls base n vm cc) {e : ClauseEntry Unit} (he : e ∈ cc.clausedb.entries) :
    e.clause = [] ↔ cls e.id = [] := by
  rw [h.entered.clause e he, ← List.length_eq_zero_iff, List.length_insertionSort, List.length_eq_zero_iff]

/-- No step begins in a state that satisfies the support of an empty clause of the frame. -/
theorem support_blocks (h : Rep B tr cls base n vm cc) (hc : Checkable tr cls base n)
    (hframe : ∀ d ∈ frame, d ∈ base) (hself : ∃ d ∈ frame, cls d = [])
    (hr : cc.supportSolve B frame [] = .ok (.holds support, cc')) {x y : Assignment}
    (hxy : tr.Linked x y) : ∃ d ∈ support, ¬ satClause x (cls d) := by
  classical
  obtain ⟨k, db, acts, crits, hacts, hsolve, hsupport, hdb⟩ := supportSolve_core h hc hframe hr
  obtain ⟨vec, hvec, rfl⟩ := hdb <| by
    obtain ⟨d, hd, hnil⟩ := hself
    exact ⟨d, hd, by rw [hnil]⟩
  have hvalid := B.sat.valid k ([idTrue] :: vec) (acts ++ [])
  rw [List.map_nil] at hsolve
  rw [hsolve] at hvalid
  obtain ⟨hsub, -, hcore⟩ := hvalid
  rw [List.append_nil] at hsub
  by_contra hall
  push Not at hall
  let A : Assignment := fun v ↦ decide (v ∈ crits)
  have hsuits := hc.suits h.entered h.vars
  obtain ⟨σ, hσ, hon, -⟩ := (hvec.exists_iff (c := []) hsuits nofun
    (fun σ ↦ ∀ e ∈ cc.clausedb.entries, e.activation ∈ crits → σ e.activation = true)
    fun σ τ hsame hσ e he hin ↦ (hsame _ (hsuits.fresh he)).trans (hσ e he hin)).mpr
    ⟨A, x, y, fun e _ hin ↦ decide_eq_true hin, hxy, fun e he hin ↦ (h.entered.satClause he).mpr
      (hall e.id ((hsupport _).mpr ⟨e, he, rfl, of_decide_eq_true hin⟩)), not_satClause_nil⟩
  refine hcore σ hσ fun crit hcrit ↦ ?_
  obtain ⟨e, he, -, rfl⟩ := (hacts crit).mp (hsub hcrit)
  rw [litVal_of_even (h.entered.act e he).1]
  exact hon e he hcrit

open Classical in
noncomputable def dropEmpty (entries : List (ClauseEntry Unit)) (assumps : Cube) : Cube :=
  if ∀ a ∈ assumps, ∃ e ∈ entries, e.activation = a then
    assumps.filter fun a ↦ ∃ e ∈ entries, e.activation = a ∧ e.clause ≠ []
  else assumps

theorem whole_choosy (h : Rep B tr cls base n vm cc) (hc : Checkable tr cls base n) {d : Clause}
    (hask : ∀ lit ∈ d, MayAsk tr lit) (hne : d ≠ []) :
    Whole (.choosy (dropEmpty cc.clausedb.entries)) d := by
  intro k db acts crits hsolve
  obtain ⟨lit, d', rfl⟩ := List.exists_cons_of_ne_nil hne
  have hlast : negate (prime lit 1) ∈ acts ++ (lit :: d').map fun lit ↦ negate (prime lit 1) :=
    List.mem_append_right _ List.mem_cons_self
  refine List.Subset.trans (List.subset_append_left _ _) (SAT.choosy_subset hsolve (if_neg fun hall ↦ ?_))
  obtain ⟨e, he, heq⟩ := hall _ hlast
  refine h.act_not_mem hc he hask ?_
  rw [heq, ← map_negate_prime fun l hl ↦ (hask l hl).1]
  exact List.mem_cons_self

theorem choosy_support (hS : B.sat = .choosy (dropEmpty cc.clausedb.entries))
    (h : Rep B tr cls base n vm cc) (hc : Checkable tr cls base n) (hframe : ∀ d ∈ frame, d ∈ base)
    (hself : ∃ d ∈ frame, cls d = [])
    (hhollow : ∀ x y, tr.Linked x y → ∃ d ∈ frame, cls d ≠ [] ∧ ¬ satClause x (cls d))
    (hr : cc.supportSolve B frame [] = .ok (.holds support, cc')) {c : ℕ} :
    c ∈ support ↔ c ∈ frame ∧ cls c ≠ [] := by
  obtain ⟨k, db, acts, crits, hacts, hsolve, hsupport, hdb⟩ := supportSolve_core h hc hframe hr
  obtain ⟨vec, hvec, rfl⟩ := hdb <| by
    obtain ⟨d, hd, hnil⟩ := hself
    exact ⟨d, hd, by rw [hnil]⟩
  rw [List.map_nil, List.append_nil, hS] at hsolve
  have hkeep : ∀ a, a ∈ dropEmpty cc.clausedb.entries acts ↔
      a ∈ acts ∧ ∃ e ∈ cc.clausedb.entries, e.activation = a ∧ e.clause ≠ [] := by
    intro a
    unfold dropEmpty
    rw [if_pos fun a ha ↦ ((hacts a).mp ha).imp fun e he ↦ ⟨he.1, he.2.2⟩, List.mem_filter,
      decide_eq_true_iff]
  have hsuits := hc.suits h.entered h.vars
  have hcore : ∀ σ, satClauses σ ([idTrue] :: vec) → ¬ satCube σ (dropEmpty cc.clausedb.entries acts) := by
    intro σ hσ hcube
    have hon : ∀ e ∈ cc.clausedb.entries, e.id ∈ frame → e.clause ≠ [] → σ e.activation = true := by
      intro e he hin hne
      have hv := hcube e.activation
        ((hkeep _).mpr ⟨(hacts _).mpr ⟨e, he, hin, rfl⟩, e, he, rfl, hne⟩)
      rwa [litVal_of_even (h.entered.act e he).1] at hv
    obtain ⟨A, x, y, hA, hxy, hact, -⟩ := (hvec.exists_iff (c := []) hsuits nofun
      (fun σ ↦ ∀ e ∈ cc.clausedb.entries, e.id ∈ frame → e.clause ≠ [] → σ e.activation = true)
      fun σ τ hsame hσ e he hin hne ↦ (hsame _ (hsuits.fresh he)).trans (hσ e he hin hne)).mp
      ⟨σ, hσ, hon, nofun⟩
    obtain ⟨d, hd, hne, hno⟩ := hhollow x y hxy
    obtain ⟨e, he, rfl⟩ := h.ids d (hframe d hd)
    exact hno ((h.entered.satClause he).mp (hact e he (hA e he hd (mt (clause_eq_nil h he).mp hne))))
  have hcrits := SAT.choosy_mem hsolve (fun a ha ↦ ((hkeep a).mp ha).1) hcore
  constructor
  · intro hcs
    obtain ⟨e, he, rfl, hcrit⟩ := (hsupport c).mp hcs
    obtain ⟨hact, e', he', heq, hne⟩ := (hkeep _).mp ((hcrits _).mp hcrit)
    obtain rfl : e' = e := List.inj_on_of_nodup_map h.entered.acts_nodup he' he heq
    obtain ⟨e₂, he₂, hin, heq₂⟩ := (hacts _).mp hact
    obtain rfl : e₂ = e' := List.inj_on_of_nodup_map h.entered.acts_nodup he₂ he heq₂
    exact ⟨hin, mt (clause_eq_nil h he).mpr hne⟩
  · intro hin
    obtain ⟨hcf, hne⟩ := hin
    obtain ⟨e, he, rfl⟩ := h.ids c (hframe c hcf)
    refine (hsupport _).mpr ⟨e, he, rfl, (hcrits _).mpr ((hkeep _).mpr ⟨?_, e, he, rfl, ?_⟩)⟩
    · exact (hacts _).mpr ⟨e, he, hcf, rfl⟩
    · exact mt (clause_eq_nil h he).mp hne

/-- An empty clause is never missing when its support is asked for again: it is the only other
clause, or some step begins in a state that satisfies all other clauses. -/
def Sure (tr : TransitionRelation) (cls : ℕ → Clause) (base : Finset ℕ) : Prop :=
  (∀ d ∈ base, 0 < d → cls d = []) ∨
    ∃ x y, tr.Linked x y ∧ ∀ d ∈ base, cls d ≠ [] → satClause x (cls d)

theorem findMinimalSupportOf_empty (hsure : Sure tr cls base) (h : Rep B tr cls base n vm cc)
    (hc : Checkable tr cls base n) (hfail : Refuted B tr cc.clausedb.entries → fail .assertion)
    (hframe : ∀ d, d ∈ frame ↔ d ∈ base) (hcb : c ∈ base) (hnil : cls c = []) :
    Meets (fun r ↦ Rep B tr cls base n vm r.2 ∧ r.2.clausedb = cc.clausedb ∧ r.1 ⊆ frame ∧
      r.1.length ≤ frame.length ∧ Supports tr cls r.1.toFinset c) fail
      (cc.findMinimalSupportOf B frame c) := by
  have hcarries : ∀ s : Finset ℕ, Carries tr cls s [] := fun s x y _ _ hx ↦ absurd hx not_satClause_nil
  have hperm := List.perm_insertionSort (· ≤ ·) frame
  obtain ⟨e, he, rfl⟩ := h.ids c hcb
  have hclause : e.clause = [] := (clause_eq_nil h he).mpr hnil
  unfold findMinimalSupportOf
  rw [(h.entry_meets he).1, ok_bind, hclause]
  refine (minimizeLoop_meets hc (fun d hd ↦ (hframe d).mp hd)
    (fun front rest ↦ rest ≠ [] → ∃ d ∈ front ++ rest, cls d = []) (fun front id rest hok ↦ ?_)
    (fun front id rest cc₁ cc₂ support h₁ hm hok hrun hne ↦ ?_) h hfail (minimizing_start (hcarries _))
    (fun _ ↦ ⟨e.id, hperm.mem_iff.mpr ((hframe _).mpr hcb), hnil⟩) ?_
    fun _ d hd ↦ hperm.mem_iff.mpr hd).imp fun r hr ↦ ?_
  · obtain ⟨d, hd, hempty⟩ := hok (List.cons_ne_nil _ _)
    exact ⟨fun _ hl ↦ absurd hl List.not_mem_nil, .inl ⟨d, hd, by rw [hempty]⟩⟩
  · have hmem : ∀ d ∈ front ++ id :: rest, d ∈ base := fun d hd ↦ (hframe d).mp (hm.subset hd)
    have hsupport : ∀ d ∈ support, d ∈ base := by
      intro d hd
      obtain ⟨_, _, _, _, -, -, hids, -⟩ := supportSolve_core h₁ hc hmem hrun
      obtain ⟨e', he', rfl, -⟩ := (hids d).mp hd
      exact h₁.entered.mem e' he'
    have hsorted : ∀ d, d ∈ support.insertionSort (· ≤ ·) ↔ d ∈ support := fun d ↦
      (List.perm_insertionSort (· ≤ ·) support).mem_iff
    rw [List.takeWhile_append_dropWhile]
    cases hsure with
    | inl hlast =>
      obtain ⟨d, rest', hrest⟩ := List.exists_cons_of_ne_nil hne
      have hd : d ∈ (support.insertionSort (· ≤ ·)).dropWhile (· ≤ id) := hrest ▸ List.mem_cons_self
      have hlt := lt_of_mem_dropWhile (List.pairwise_insertionSort (· ≤ ·) support) hd
      have hds := (hsorted d).mp ((List.dropWhile_sublist _).subset hd)
      exact ⟨d, (hsorted d).mpr hds, hlast d (hsupport d hds) (Nat.zero_lt_of_lt hlt)⟩
    | inr hstep =>
      obtain ⟨x, y, hxy, hall⟩ := hstep
      obtain ⟨d, hd, hno⟩ := support_blocks h₁ hc hmem (hok (List.cons_ne_nil _ _)) hrun hxy
      exact ⟨d, (hsorted d).mpr hd, not_not.mp fun hne ↦ hno (hall d (hsupport d hd) hne)⟩
  · rw [hperm.length_eq]
    exact Nat.lt_succ_self _
  · obtain ⟨hrep, hdb, hmin⟩ := hr
    refine ⟨hrep, hdb, hmin.subset, hmin.length, ?_⟩
    show Carries tr cls _ (cls e.id)
    rw [hnil]
    exact hcarries _

theorem supportSolve_alone (h : Rep B tr cls base n vm cc) (hc : Checkable tr cls base n)
    (hframe : ∀ d ∈ frame, d ∈ base) (hne : ∀ d ∈ frame, cls d ≠ []) :
    Meets (fun _ ↦ False) (fun _ ↦ True) (cc.supportSolve B frame []) := by
  have hinit : Meets (fun cc' ↦ Rep B tr cls base n vm cc') (fun _ ↦ True)
      (if cc.solverInited then pure cc else cc.initSolver B : Result ConsecutionChecker) := by
    split
    · exact h
    · exact (initSolver_meets h hc (Bool.eq_false_iff.mpr ‹_›) fun _ ↦ trivial).imp fun _ hr ↦ hr.1
  unfold supportSolve
  refine hinit.bind fun cc' h' ↦ (h'.activate_meets hframe _).bind fun r hr ↦ ?_
  obtain ⟨acts, added⟩ := r
  obtain ⟨-, hadded⟩ := hr
  dsimp only at hadded ⊢
  cases added with
  | true =>
    obtain ⟨e, he, hin, hnil⟩ := hadded.mp rfl
    exact absurd ((clause_eq_nil h' he).mp hnil) (hne _ hin)
  | false => trivial

structure Hollow (tr : TransitionRelation) (cls : ℕ → Clause) (base : Finset ℕ) : Prop where
  later : ∃ d ∈ base, 0 < d ∧ cls d ≠ []
  blocks : ∀ x y, tr.Linked x y → ∃ d ∈ base, cls d ≠ [] ∧ ¬ satClause x (cls d)

theorem hollow_iff : Hollow tr cls base ↔ ¬ Sure tr cls base := by
  unfold Sure
  push Not
  exact ⟨fun h ↦ ⟨h.later, h.blocks⟩, fun h ↦ ⟨h.1, h.2⟩⟩

theorem findMinimalSupportOf_hollow (hS : B.sat = .choosy (dropEmpty cc.clausedb.entries))
    (hhollow : Hollow tr cls base) (h : Rep B tr cls base n vm cc) (hc : Checkable tr cls base n)
    {len : ℕ} (hbase : base = Finset.range len) (hcb : c ∈ base) (hnil : cls c = []) :
    Meets (fun _ ↦ False) (fun _ ↦ True) (cc.findMinimalSupportOf B (List.range len) c) := by
  have hcarries : ∀ s : Finset ℕ, Carries tr cls s [] := fun s x y _ _ hx ↦ absurd hx not_satClause_nil
  have hall : ∀ d, d ∈ List.range len ↔ d ∈ base := fun d ↦ by
    rw [hbase, List.mem_range, Finset.mem_range]
  obtain ⟨d, hd, hpos, hlits⟩ := hhollow.later
  obtain ⟨k, rfl⟩ : ∃ k, len = k + 1 := Nat.exists_eq_succ_of_ne_zero fun hz ↦ by
    rw [hbase, hz] at hd
    exact absurd hd (Finset.notMem_empty d)
  obtain ⟨e, he, rfl⟩ := h.ids c hcb
  have hsorted : (List.range (k + 1)).insertionSort (· ≤ ·) = 0 :: (List.range k).map Nat.succ := by
    rw [← List.range_succ_eq_map]
    exact List.pairwise_le_range.insertionSort_eq
  have hframe : ∀ d ∈ [] ++ 0 :: (List.range k).map Nat.succ, d ∈ base := fun d hd ↦ by
    rw [List.nil_append, ← List.range_succ_eq_map] at hd
    exact (hall d).mp hd
  have hin : ∀ d ∈ base, d ∈ [] ++ 0 :: (List.range k).map Nat.succ := fun d hd ↦ by
    rw [List.nil_append, ← List.range_succ_eq_map]
    exact (hall d).mpr hd
  unfold findMinimalSupportOf findMinimalSupport
  rw [(h.entry_meets he).1, ok_bind, (clause_eq_nil h he).mpr hnil, hsorted, List.length_range]
  unfold minimizeLoop
  have hself : ∃ d ∈ [] ++ 0 :: (List.range k).map Nat.succ, cls d = [] := ⟨e.id, hin _ hcb, hnil⟩
  have hask : Askable tr cls (fun _ ↦ True) ([] ++ 0 :: (List.range k).map Nat.succ) [] := by
    obtain ⟨d, hd, hempty⟩ := hself
    exact ⟨fun _ hl ↦ absurd hl List.not_mem_nil, .inl ⟨d, hd, by rw [hempty]⟩⟩
  refine ((supportSolve_meets h hc (fun _ ↦ trivial) hframe hask).self).bind fun r hr ↦ ?_
  obtain ⟨answer, cc'⟩ := r
  obtain ⟨hrun, h', -, -, hans⟩ := hr
  dsimp only at h' hans ⊢
  cases answer with
  | fails m => exact absurd (hans.iff.mpr (hcarries _)) Bool.false_ne_true
  | holds support =>
    have hmem : ∀ {c}, c ∈ support ↔ _ := choosy_support hS h hc hframe hself
      (fun x y hxy ↦ (hhollow.blocks x y hxy).imp fun d hd ↦ ⟨hin d hd.1, hd.2⟩) hrun
    have hsort : ∀ d, d ∈ support.insertionSort (· ≤ ·) ↔ d ∈ support := fun d ↦
      (List.perm_insertionSort (· ≤ ·) support).mem_iff
    have hensure : ∀ b, Meets (fun _ : Unit ↦ True) (fun _ ↦ True) (ensure b) := fun b ↦ by
      cases b <;> trivial
    refine (hensure _).bind fun _ _ ↦ ?_
    obtain ⟨id, rest, hrest⟩ : ∃ id rest, (support.insertionSort (· ≤ ·)).dropWhile (· ≤ 0) = id :: rest := by
      refine List.exists_cons_of_ne_nil fun hno ↦ ?_
      have happ := List.takeWhile_append_dropWhile (p := fun d ↦ decide (d ≤ 0))
        (l := support.insertionSort (· ≤ ·))
      rw [hno, List.append_nil] at happ
      have hds := (hsort d).mpr (hmem.mpr ⟨hin d hd, hlits⟩)
      rw [← happ] at hds
      have hzero := List.all_eq_true.mp List.all_takeWhile d hds
      exact absurd (of_decide_eq_true hzero) (not_le_of_gt hpos)
    have hnext : ∀ d ∈ (support.insertionSort (· ≤ ·)).takeWhile (· ≤ 0) ++ id :: rest, d ∈ support := by
      intro d hd
      rw [← hrest, List.takeWhile_append_dropWhile] at hd
      exact (hsort d).mp hd
    rw [hrest]
    unfold minimizeLoop
    refine (supportSolve_alone h' hc (fun d hd ↦ hframe d (hmem.mp (hnext d hd)).1)
      fun d hd ↦ (hmem.mp (hnext d hd)).2).bind fun _ hno ↦ hno.elim

end Empty

theorem computeSupport_meets (h : Rep B tr cls base n vm cc) (hc : Checkable tr cls base n)
    (hown : ∀ d ∈ base, ∀ lit ∈ cls d, Own tr lit) (hall : ∀ d, d ∈ all ↔ d ∈ base)
    (hind : Inductive (Supports tr cls) base) (hcb : c ∈ base)
    (hfail : Refuted B tr cc.clausedb.entries → fail .assertion)
    (hempty : useMinSupp = true → cls c = [] → Sure tr cls base ∨ fail .assertion) :
    Meets (fun r ↦ Rep B tr cls base n vm r.2 ∧ r.2.clausedb = cc.clausedb ∧ r.1.toFinset ⊆ base ∧
      r.1.length ≤ all.length ∧ Supports tr cls r.1.toFinset c) fail
      (computeSupport B useMinSupp all cc c) := by
  have hset : all.toFinset = base := Finset.ext fun d ↦ List.mem_toFinset.trans (hall d)
  unfold computeSupport
  cases hm : useMinSupp with
  | true =>
    have hmeets : Meets (fun r ↦ Rep B tr cls base n vm r.2 ∧ r.2.clausedb = cc.clausedb ∧ r.1 ⊆ all ∧
        r.1.length ≤ all.length ∧ Supports tr cls r.1.toFinset c) fail (cc.findMinimalSupportOf B all c) := by
      by_cases hsure : cls c = [] ∧ Sure tr cls base
      · exact findMinimalSupportOf_empty hsure.2 h hc hfail hall hcb hsure.1
      · exact SISI.findMinimalSupportOf_meets h hc hfail (fun d hd ↦ (hall d).mp hd) hcb (hown c hcb)
          (fun hnil ↦ (hempty hm hnil).resolve_left fun hs ↦ hsure ⟨hnil, hs⟩) (hset.symm ▸ hind c hcb)
    rw [if_pos rfl]
    refine hmeets.imp fun r hr ↦ ?_
    obtain ⟨hrep, hdb, hsub, hlen, hsup⟩ := hr
    exact ⟨hrep, hdb, fun d hd ↦ (hall d).mp (hsub (List.mem_toFinset.mp hd)), hlen, hsup⟩
  | false =>
    have hids : ∀ d, d ∈ cc.clausedb.entries.map ClauseEntry.id ↔ d ∈ base := by
      intro d
      constructor
      · intro hd
        obtain ⟨e, he, rfl⟩ := List.mem_map.mp hd
        exact h.entered.mem e he
      · intro hd
        obtain ⟨e, he, rfl⟩ := h.ids d hd
        exact List.mem_map_of_mem he
    have hframe : (cc.clausedb.entries.map ClauseEntry.id).toFinset = base :=
      Finset.ext fun d ↦ List.mem_toFinset.trans (hids d)
    rw [if_neg Bool.false_ne_true]
    refine (solve_mem_meets h hc hfail (fun d hd ↦ (hids d).mp hd) ((hids c).mpr hcb)).bind fun r hr ↦ ?_
    obtain ⟨answer, cc'⟩ := r
    obtain ⟨h', -, hdb, hans⟩ := hr
    dsimp only at h' hdb hans ⊢
    cases answer with
    | fails m => exact absurd (hans.iff.mpr (hframe.symm ▸ hind c hcb)) Bool.false_ne_true
    | holds support =>
      obtain ⟨hnodup, hsub, hsup⟩ := hans.support support rfl
      have hinto : support.toFinset ⊆ base := fun d hd ↦ (hids d).mp (hsub (List.mem_toFinset.mp hd))
      refine ⟨h', hdb, hinto, ?_, hsup⟩
      have hle : support.toFinset.card ≤ all.toFinset.card := Finset.card_le_card (hset.symm ▸ hinto)
      rw [List.toFinset_card_of_nodup hnodup] at hle
      exact hle.trans (List.toFinset_card_le all)

structure Processing (tr : TransitionRelation) (cls : ℕ → Clause) (base supported nec : Finset ℕ)
    (queue : List ℕ) : Prop where
  subset : nec ⊆ base
  supported_subset : supported ⊆ nec
  queue_subset : ∀ c ∈ queue, c ∈ nec
  waiting : ∀ c ∈ nec, c ∈ supported ∨ c ∈ queue
  supports : ∀ c ∈ supported, Supports tr cls nec c

theorem Processing.skip (h : Processing tr cls base supported nec (c :: queue)) (hc : c ∈ supported) :
    Processing tr cls base supported nec queue := by
  refine ⟨h.subset, h.supported_subset, fun d hd ↦ h.queue_subset d (List.mem_cons_of_mem c hd),
    fun d hd ↦ ?_, h.supports⟩
  cases h.waiting d hd with
  | inl hsup => exact .inl hsup
  | inr hq =>
    cases List.mem_cons.mp hq with
    | inl heq => exact .inl (heq ▸ hc)
    | inr hrest => exact .inr hrest

theorem Processing.step {support : List ℕ} (h : Processing tr cls base supported nec (c :: queue))
    (hs : support.toFinset ⊆ base) (hsup : Supports tr cls support.toFinset c) :
    Processing tr cls base (insert c supported) (nec ∪ support.toFinset)
      (queue ++ support.filter (· ∉ supported)) := by
  have hleft : nec ⊆ nec ∪ support.toFinset := Finset.subset_union_left
  refine ⟨Finset.union_subset h.subset hs, ?_, fun d hd ↦ ?_, fun d hd ↦ ?_, fun d hd ↦ ?_⟩
  · exact Finset.insert_subset (hleft (h.queue_subset c List.mem_cons_self)) (h.supported_subset.trans hleft)
  · cases List.mem_append.mp hd with
    | inl hq => exact hleft (h.queue_subset d (List.mem_cons_of_mem c hq))
    | inr hnew =>
      exact Finset.mem_union_right _ (List.mem_toFinset.mpr (List.mem_filter.mp hnew).1)
  · by_cases hold : d ∈ supported
    · exact .inl (Finset.mem_insert_of_mem hold)
    · cases Finset.mem_union.mp hd with
      | inl hnec =>
        cases List.mem_cons.mp ((h.waiting d hnec).resolve_left hold) with
        | inl heq => exact .inl (Finset.mem_insert.mpr (.inl heq))
        | inr hq => exact .inr (List.mem_append_left _ hq)
      | inr hnew =>
        have hmem := List.mem_toFinset.mp hnew
        exact .inr (List.mem_append_right _ (List.mem_filter.mpr ⟨hmem, decide_eq_true hold⟩))
  · cases Finset.mem_insert.mp hd with
    | inl heq => exact heq ▸ upward_carries (cls c) Finset.subset_union_right hsup
    | inr hold => exact upward_carries (cls d) hleft (h.supports d hold)

theorem processLoop_meets (hc : Checkable tr cls base n) (hown : ∀ d ∈ base, ∀ lit ∈ cls d, Own tr lit)
    (hall : ∀ d, d ∈ all ↔ d ∈ base) (hind : Inductive (Supports tr cls) base)
    (hempty : useMinSupp = true → (∃ d ∈ base, cls d = []) → Sure tr cls base ∨ fail .assertion) {k : ℕ}
    (h : Rep B tr cls base n vm cc) (hfail : Refuted B tr cc.clausedb.entries → fail .assertion)
    (hp : Processing tr cls base supported nec queue)
    (hk : (all.length - supported.card) * (all.length + 1) + queue.length < k) :
    Meets (fun r ↦ r.1 ⊆ base ∧ nec ⊆ r.1 ∧ Inductive (Supports tr cls) r.1) fail
      (processLoop B useMinSupp all k supported nec queue cc) := by
  have hset : all.toFinset = base := Finset.ext fun d ↦ List.mem_toFinset.trans (hall d)
  induction k generalizing supported nec queue cc with
  | zero => exact absurd hk (Nat.not_lt_zero _)
  | succ k ih =>
    cases queue with
    | nil =>
      rw [processLoop]
      refine ⟨hp.subset, Finset.Subset.refl nec, fun c hcm ↦ hp.supports c ?_⟩
      exact (hp.waiting c hcm).resolve_right List.not_mem_nil
    | cons id queue =>
      rw [List.length_cons] at hk
      unfold processLoop
      by_cases hmem : id ∈ supported
      · rw [if_pos hmem]
        exact ih h hfail (hp.skip hmem) (by omega)
      · have hid : id ∈ base := hp.subset (hp.queue_subset id List.mem_cons_self)
        rw [if_neg hmem]
        refine (computeSupport_meets h hc hown hall hind hid hfail
          fun hm hnil ↦ hempty hm ⟨id, hid, hnil⟩).bind fun r hr ↦ ?_
        obtain ⟨support, cc'⟩ := r
        obtain ⟨h', hdb, hsub, hlen, hsup⟩ := hr
        dsimp only at h' hdb hsub hlen hsup ⊢
        have hnext := hp.step hsub hsup
        have hcard : (insert id supported).card = supported.card + 1 := Finset.card_insert_of_notMem hmem
        have hle : (insert id supported).card ≤ all.length :=
          (Finset.card_le_card (hnext.supported_subset.trans (hset.symm ▸ hnext.subset))).trans
            (List.toFinset_card_le all)
        have hsplit : (all.length - supported.card) * (all.length + 1) =
            (all.length - (insert id supported).card) * (all.length + 1) + (all.length + 1) := by
          have hone : all.length - supported.card = (all.length - (insert id supported).card) + 1 := by omega
          rw [hone]
          ring
        refine (ih h' (hdb ▸ hfail) hnext ?_).imp fun r hr ↦
          ⟨hr.1, Finset.subset_union_left.trans hr.2.1, hr.2.2⟩
        rw [List.length_append]
        refine lt_of_le_of_lt (Nat.add_le_add_left (Nat.add_le_add_left (List.length_filter_le _ _) _) _) ?_
        omega

theorem processLoop_hollow {len : ℕ} (hc : Checkable tr cls base n)
    (hown : ∀ d ∈ base, ∀ lit ∈ cls d, Own tr lit) (hbase : base = Finset.range len)
    (hind : Inductive (Supports tr cls) base) (hhollow : Hollow tr cls base) {k : ℕ}
    (hS : B.sat = .choosy (dropEmpty cc.clausedb.entries)) (h : Rep B tr cls base n vm cc)
    (hqueue : ∀ d ∈ queue, d ∈ base) (hcq : c ∈ queue) (hnil : cls c = []) (hno : c ∉ supported) :
    Meets (fun _ ↦ False) (fun _ ↦ True) (processLoop B true (List.range len) k supported nec queue cc) := by
  have hall : ∀ d, d ∈ List.range len ↔ d ∈ base := fun d ↦ by
    rw [hbase, List.mem_range, Finset.mem_range]
  induction k generalizing supported nec queue cc with
  | zero => trivial
  | succ k ih =>
    cases queue with
    | nil => exact absurd hcq List.not_mem_nil
    | cons id queue =>
      have htail : ∀ d ∈ queue, d ∈ base := fun d hd ↦ hqueue d (List.mem_cons_of_mem id hd)
      have hid := hqueue id List.mem_cons_self
      unfold processLoop
      by_cases hmem : id ∈ supported
      · rw [if_pos hmem]
        exact ih hS h htail ((List.mem_cons.mp hcq).resolve_left fun heq ↦ hno (heq ▸ hmem)) hno
      · rw [if_neg hmem]
        by_cases hempty : cls id = []
        · have hfails := findMinimalSupportOf_hollow hS hhollow h hc hbase hid hempty
          unfold computeSupport
          rw [if_pos rfl]
          exact hfails.bind fun _ hno ↦ hno.elim
        · refine (computeSupport_meets h hc hown hall hind hid (fun _ ↦ trivial)
            fun _ hnil ↦ absurd hnil hempty).bind fun r hr ↦ ?_
          obtain ⟨support, cc'⟩ := r
          obtain ⟨h', hdb, hsub, -, -⟩ := hr
          dsimp only at h' hdb hsub ⊢
          have hne : c ≠ id := fun heq ↦ hempty (heq ▸ hnil)
          refine ih (hdb ▸ hS) h' (fun d hd ↦ ?_) ?_ ?_
          · cases List.mem_append.mp hd with
            | inl hq => exact htail d hq
            | inr hnew => exact hsub (List.mem_toFinset.mpr (List.mem_filter.mp hnew).1)
          · exact List.mem_append_left _ ((List.mem_cons.mp hcq).resolve_left hne)
          · exact fun hin ↦ (Finset.mem_insert.mp hin).elim hne hno

section Proof

variable {proof : ClauseVec} {vm' : VariableManager} {m : SimpleMinimizer}

structure Ready (B : Backend) (tr : TransitionRelation) (vm : VariableManager) (proof : ClauseVec)
    (vm' : VariableManager) (m : SimpleMinimizer) : Prop where
  numClauses : m.base.numClauses = proof.length
  proofs : m.base.minimalProofs = []
  lt : m.base.property < proof.length
  property : clauses proof m.base.property = [negate tr.bad]
  all : m.allClauses = List.range proof.length
  rep : Rep B tr (clauses proof) (Finset.range proof.length) vm.nextID vm' m.solver

theorem new_meets (h : Listed tr vm proof) (hbad : [negate tr.bad] ∈ proof)
    (hids : maxId + 1 < vm.nextID + 2 * proof.length → fail .idsExhausted) :
    Meets (fun r ↦ (∀ B, Ready B tr vm proof r.1 r.2) ∧ r.2.base.proof = proof ∧ r.1.Inv ∧
      r.1.nextID = vm.nextID + 2 * proof.length) fail (SimpleMinimizer.new vm tr proof) := by
  have hlen : (ProofMinimizer.new tr proof).numClauses = proof.length := congrArg List.length (new_proof hbad)
  unfold SimpleMinimizer.new
  dsimp only
  rw [new_proof hbad]
  refine (addAll_meets h hids).bind fun r hr ↦ ?_
  obtain ⟨hinv, hnext, hrep⟩ := hr
  exact ⟨fun B ↦ ⟨hlen, rfl, (new_property hbad).1, (new_property hbad).2, congrArg List.range hlen, hrep B⟩,
    new_proof hbad, hinv, hnext⟩

theorem Ready.new (h : Provable tr vm proof) (hbad : [negate tr.bad] ∈ proof)
    (hnew : SimpleMinimizer.new vm tr proof = .ok (vm', m)) : Ready B tr vm proof vm' m := by
  have hmeets : Meets _ (fun _ ↦ True) _ := new_meets h.listed hbad fun _ ↦ trivial
  exact (hmeets.of_ok hnew).1 B

theorem Ready.own (h : Listed tr vm proof) : ∀ d ∈ Finset.range proof.length,
    ∀ lit ∈ clauses proof d, Own tr lit := fun d hd ↦ h.own d (Finset.mem_range.mp hd)

structure Kept (tr : TransitionRelation) (proof : ClauseVec) (ids : List ℕ) : Prop where
  mem : ∀ c ∈ ids, c < proof.length
  property : HasProperty tr proof ids.toFinset
  holds : Inductive (Supports tr (clauses proof)) ids.toFinset

theorem doMinimize_meets (h : Listed tr vm proof) (hm : Ready B tr vm proof vm' m)
    (hind : Inductive (Supports tr (clauses proof)) (Finset.range proof.length))
    (hempty : useMinSupp = true → [] ∈ proof →
      Sure tr (clauses proof) (Finset.range proof.length) ∨ fail .assertion)
    (hfail : Refuted B tr m.solver.clausedb.entries → fail .assertion) :
    Meets (fun m' ↦ m'.base.proof = m.base.proof ∧
      ∃ ids, m'.base.minimalProofs = [ids] ∧ Kept tr proof ids ∧ ids.length ≤ proof.length) fail
      (m.doMinimize B useMinSupp) := by
  have hp : {m.base.property} ⊆ Finset.range proof.length :=
    Finset.singleton_subset_iff.mpr (Finset.mem_range.mpr hm.lt)
  have hstart : Processing tr (clauses proof) (Finset.range proof.length) ∅ {m.base.property}
      [m.base.property] := by
    refine ⟨hp, Finset.empty_subset _, fun c hc ↦ ?_, fun c hc ↦ .inr ?_, nofun⟩
    · exact Finset.mem_singleton.mpr (List.mem_singleton.mp hc)
    · exact List.mem_singleton.mpr (Finset.mem_singleton.mp hc)
  unfold doMinimize
  rw [hm.numClauses, hm.all]
  refine (processLoop_meets h.checkable (Ready.own h) (fun d ↦ ?_) hind (fun hmin hex ↦ ?_) hm.rep hfail
    hstart ?_).bind fun r hr ↦ ?_
  · rw [List.mem_range, Finset.mem_range]
  · obtain ⟨d, hd, hnil⟩ := hex
    exact hempty hmin (hnil ▸ clauses_mem (Finset.mem_range.mp hd))
  · have hsq : (proof.length + 1) * (proof.length + 1) = proof.length * (proof.length + 1) +
        (proof.length + 1) := by ring
    rw [List.length_range, Finset.card_empty, List.length_singleton, Nat.sub_zero]
    have hpos := hm.lt
    omega
  · obtain ⟨nec, cc⟩ := r
    obtain ⟨hsub, hnec, hind'⟩ := hr
    dsimp only at hsub hnec hind' ⊢
    have hmem : ∀ c, c ∈ (SISI.ordered nec).insertionSort (· ≤ ·) ↔ c ∈ nec := fun c ↦
      (List.perm_insertionSort (· ≤ ·) _).mem_iff.trans SISI.mem_ordered
    have hset : ((SISI.ordered nec).insertionSort (· ≤ ·)).toFinset = nec :=
      Finset.ext fun c ↦ List.mem_toFinset.trans (hmem c)
    refine ⟨rfl, _, congrArg (· ++ _) hm.proofs, ⟨fun c hc ↦ ?_, ?_, ?_⟩, ?_⟩
    · exact Finset.mem_range.mp (hsub ((hmem c).mp hc))
    · rw [hset]
      exact ⟨_, Finset.singleton_subset_iff.mp hnec, hm.property⟩
    · rw [hset]
      exact hind'
    · have hcard := Finset.card_le_card hsub
      rw [Finset.card_range] at hcard
      rwa [(List.perm_insertionSort (· ≤ ·) _).length_eq, SISI.ordered_length]

theorem doMinimize_refuted (h : Provable tr vm proof) (hm : Ready B tr vm proof vm' m)
    (hr : Refuted B tr m.solver.clausedb.entries) : m.doMinimize B useMinSupp = .error .assertion := by
  have hp : m.base.property ∈ Finset.range proof.length := Finset.mem_range.mpr hm.lt
  obtain ⟨k, hk⟩ : ∃ k, proof.length = k + 1 := Nat.exists_eq_succ_of_ne_zero (Nat.ne_of_gt
    (Nat.zero_lt_of_lt hm.lt))
  have hsupport : computeSupport B useMinSupp m.allClauses m.solver m.base.property = .error .assertion := by
    unfold computeSupport
    cases useMinSupp with
    | true =>
      obtain ⟨e, he, heq⟩ := hm.rep.ids _ hp
      have hentry := (hm.rep.entry_meets he).1
      have hsorted : (List.range (k + 1)).insertionSort (· ≤ ·) = 0 :: (List.range k).map Nat.succ := by
        rw [← List.range_succ_eq_map]
        exact List.pairwise_le_range.insertionSort_eq
      rw [heq] at hentry
      unfold findMinimalSupportOf findMinimalSupport
      rw [if_pos rfl, hentry, ok_bind, hm.all, hk, hsorted]
      unfold minimizeLoop
      rw [supportSolve_refuted hm.rep h.checkable hr]
      rfl
    | false =>
      unfold supportSolveAll
      rw [if_neg Bool.false_ne_true, solve_refuted hm.rep h.checkable hr hp]
      rfl
  obtain ⟨f, hf⟩ : ∃ f, (m.base.numClauses + 1) * (m.base.numClauses + 1) = f + 1 :=
    Nat.exists_eq_succ_of_ne_zero (Nat.mul_ne_zero (Nat.succ_ne_zero _) (Nat.succ_ne_zero _))
  unfold doMinimize
  dsimp only
  rw [hf]
  unfold processLoop
  rw [if_neg (Finset.notMem_empty _), hsupport]
  rfl

theorem doMinimize_hollow (hS : B.sat = .choosy (dropEmpty m.solver.clausedb.entries))
    (h : Provable tr vm proof) (hm : Ready B tr vm proof vm' m)
    (hind : Inductive (Supports tr (clauses proof)) (Finset.range proof.length)) (hnil : [] ∈ proof)
    (hhollow : Hollow tr (clauses proof) (Finset.range proof.length)) :
    Meets (fun _ ↦ False) (fun _ ↦ True) (m.doMinimize B true) := by
  have hc := h.checkable
  have hp : m.base.property ∈ Finset.range proof.length := Finset.mem_range.mpr hm.lt
  obtain ⟨c, hclt, hcnil⟩ := List.mem_iff_getElem.mp hnil
  have hempty : clauses proof c = [] := by
    rw [clauses, List.getD_eq_getElem _ _ hclt, hcnil]
  obtain ⟨e, he, heq⟩ := hm.rep.ids _ hp
  have hentry := (hm.rep.entry_meets he).1
  rw [heq] at hentry
  have hne : e.clause ≠ [] := by
    rw [Ne, clause_eq_nil hm.rep he, heq, hm.property]
    exact List.cons_ne_nil _ _
  have hlits : ∀ lit, lit ∈ e.clause ↔ lit ∈ clauses proof m.base.property := fun lit ↦ by
    rw [← heq]
    exact hm.rep.entered.mem_clause he
  have hown : ∀ lit ∈ e.clause, Own tr lit ∧ MayAsk tr lit := fun lit hl ↦
    ⟨h.own hm.lt ((hlits lit).mp hl), (hc.lits _ hp lit ((hlits lit).mp hl)).1⟩
  have hcarries : Carries tr (clauses proof) (List.range proof.length).toFinset e.clause := by
    rw [List.toFinset_range]
    exact (carries_congr hlits).mpr (hind _ hp)
  obtain ⟨f, hf⟩ : ∃ f, (m.base.numClauses + 1) * (m.base.numClauses + 1) = f + 1 :=
    Nat.exists_eq_succ_of_ne_zero (Nat.mul_ne_zero (Nat.succ_ne_zero _) (Nat.succ_ne_zero _))
  unfold doMinimize
  dsimp only
  rw [hf, hm.all]
  unfold processLoop computeSupport findMinimalSupportOf
  rw [if_neg (Finset.notMem_empty _), if_pos rfl, hentry, ok_bind]
  refine Meets.bind ((findMinimalSupport_meets hm.rep hc (fun d hd ↦
    Finset.mem_range.mpr (List.mem_range.mp hd)) hown (fun hnil ↦ absurd hnil hne) (fun _ ↦ trivial)
    hcarries).bind fun r hr ↦ ?_) fun _ (hno : False) ↦ hno.elim
  obtain ⟨support, cc⟩ := r
  obtain ⟨hrep, hdb, hmin⟩ := hr
  dsimp only at hrep hdb hmin ⊢
  have hwhole : Whole B.sat e.clause := by
    rw [hS]
    exact whole_choosy hm.rep hc (fun lit hl ↦ (hown lit hl).2) hne
  refine processLoop_hollow hc (Ready.own h.listed) rfl hind hhollow (hdb ▸ hS) hrep (fun d hd ↦ ?_) ?_ hempty ?_
  · have hds := hmin.subset (List.mem_filter.mp hd).1
    exact Finset.mem_range.mpr (List.mem_range.mp hds)
  · refine List.mem_filter.mpr ⟨hmin.whole hwhole (List.mem_range.mpr hclt), ?_⟩
    exact decide_eq_true (Finset.notMem_empty c)
  · intro hin
    rw [Finset.mem_insert, or_iff_left (Finset.notMem_empty c)] at hin
    rw [hin, hm.property] at hempty
    exact absurd hempty (List.cons_ne_nil _ _)

/-- Whatever the cores are an inductive part of the proof is left, exactly if the simplifier does not
refute the formula and an empty clause, where its minimal support is asked for, never has to be added. -/
theorem doMinimize_valid (h : Provable tr vm proof) (hbad : [negate tr.bad] ∈ proof)
    (hind : Inductive (Supports tr (clauses proof)) (Finset.range proof.length))
    (hnew : SimpleMinimizer.new vm tr proof = .ok (vm', m)) :
    (∀ S : SAT.Solver, Meets (fun m' ↦ ∃ ids, m'.base.minimalProofs = [ids] ∧ Kept tr proof ids)
        (fun _ ↦ False) (m.doMinimize { B with sat := S } useMinSupp)) ↔
      ¬ Refuted B tr m.solver.clausedb.entries ∧
        (useMinSupp = true → [] ∈ proof → Sure tr (clauses proof) (Finset.range proof.length)) := by
  have hm : ∀ S : SAT.Solver, Ready { B with sat := S } tr vm proof vm' m := fun S ↦ .new h hbad hnew
  constructor
  · intro hall
    refine ⟨fun hr ↦ ?_, fun hmin hnil ↦ ?_⟩
    · have hclaim := hall B.sat
      rw [doMinimize_refuted h (hm B.sat) hr] at hclaim
      exact hclaim
    · by_contra hno
      subst hmin
      obtain ⟨m', hok, -⟩ := (hall (.choosy (dropEmpty m.solver.clausedb.entries))).exists_ok
      exact (doMinimize_hollow rfl h (hm _) hind hnil (hollow_iff.mpr hno)).of_ok hok
  · intro hcond S
    refine (doMinimize_meets h.listed (hm S) hind (fun hmin hnil ↦ .inl (hcond.2 hmin hnil))
      fun hr ↦ hcond.1 hr).imp fun m' hm' ↦ ?_
    obtain ⟨-, ids, hids, hkept, -⟩ := hm'
    exact ⟨ids, hids, hkept⟩

theorem tangled_doMinimize_valid : ∃ r, SimpleMinimizer.new .three tangled tangledProof = .ok r ∧
    ∀ S : SAT.Solver, Meets (fun m' ↦ ∃ ids, m'.base.minimalProofs = [ids] ∧ Kept tangled tangledProof ids)
      (fun _ ↦ False) (r.2.doMinimize ⟨S, .keep, false⟩ true) := by
  obtain ⟨r, hr⟩ : ∃ r, SimpleMinimizer.new .three tangled tangledProof = .ok r := ⟨_, rfl⟩
  exact ⟨r, hr, (doMinimize_valid (B := ⟨.exhaustive, .keep, false⟩) provable_tangled (by decide)
    tangled_inductive hr).mpr ⟨fun hno ↦ Bool.false_ne_true hno.1, fun _ hnil ↦ absurd hnil (by decide)⟩⟩

theorem doMinimize_valid_fails : ¬ ∀ (B : Backend) (tr : TransitionRelation) (vm vm' : VariableManager)
    (proof : ClauseVec) (m : SimpleMinimizer) (useMinSupp : Bool), Provable tr vm proof →
    [negate tr.bad] ∈ proof → Inductive (Supports tr (clauses proof)) (Finset.range proof.length) →
    SimpleMinimizer.new vm tr proof = .ok (vm', m) →
    Meets (fun m' ↦ ∃ ids, m'.base.minimalProofs = [ids] ∧ Kept tr proof ids) (fun _ ↦ False)
      (m.doMinimize B useMinSupp) := by
  intro hall
  obtain ⟨r, hr⟩ : ∃ r, SimpleMinimizer.new oneVar halted [[4]] = .ok r := ⟨_, rfl⟩
  have hm : Ready refuter halted oneVar [[4]] r.1 r.2 := .new provable_halted (by decide) hr
  have hclaim := hall refuter halted oneVar r.1 [[4]] r.2 false provable_halted (by decide)
    (halted_inductive _ _) hr
  have hsuits := provable_halted.checkable.suits hm.rep.entered hm.rep.vars
  rw [doMinimize_refuted provable_halted hm (refuted_halted hsuits)] at hclaim
  exact hclaim

end Proof

end SimpleMinimizer

end PME
