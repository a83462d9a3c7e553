import PME.MaxSATOptimal

namespace PME

open Outcome CoreGuided

namespace MSU4MaxSATSolver

variable {U : Callers} {o : MSU4Options} {S : SAT.Solver} {hintLit : ℕ} {cores : List (List ℕ)}
  {asked : Option (List ℕ × ℕ)} {s s' : MSU4MaxSATSolver} {cube : Cube} {fail : Failure → Prop}
  {crits : Cube}

theorem mem_extractCore {lit : ℕ} {initial : List ℕ} :
    lit ∈ extractCore crits initial ↔ lit ∈ crits ∧ lit ∈ initial := by
  rw [extractCore, List.mem_filter, List.contains_iff_mem]

theorem perm_extractCore {initial : List ℕ} (hc : crits.Nodup) (hi : initial.Nodup) :
    initial.Perm (extractCore crits initial ++
      initial.filter (!(extractCore crits initial).contains ·)) := by
  have hsplit := List.filter_append_perm ((extractCore crits initial).contains ·) initial
  refine hsplit.symm.trans (List.Perm.append_right _ ?_)
  refine (List.perm_ext_iff_of_nodup (hi.filter _) (hc.filter _)).mpr fun lit ↦ ?_
  have hcore := @mem_extractCore crits lit initial
  rw [List.mem_filter, List.contains_iff_mem, hcore]
  exact ⟨fun h ↦ hcore.mpr h.2, fun h ↦ ⟨(hcore.mp h).2, hcore.mp h⟩⟩

theorem Shape.initial_nodup (h : Shape U s) : s.initialAssumps.Nodup :=
  (List.nodup_append.mp (h.perm.nodup_iff.mpr h.nodup)).1

theorem Working.core_false (h : Working U o S hintLit cores asked s cube)
    (hsub : crits ⊆ s.initialAssumps ++ cube ++ if o.useHintClauses then [hintLit] else [])
    (hcrits : ∀ σ, satClauses σ s.solver.clauses → ¬ satCube σ crits) :
    ∀ v, s.Values v → (s.toSearch cores asked).Hinted v → (s.toSearch cores asked).Better v →
      ∃ a ∈ extractCore crits s.initialAssumps, v a = false := by
  rintro v ⟨σ, hσ, rfl⟩ hhinted hbetter
  by_contra hnone
  obtain ⟨τ, hτ, hdb, -, hhint, hcube⟩ := h.complete σ hσ true fun _ ↦ hhinted
  refine hcrits τ hdb fun lit hl ↦ ?_
  have hmem := hsub hl
  rw [List.mem_append, List.mem_append] at hmem
  obtain (hfree | hc) | hh := hmem
  · have hv : litVal σ lit = true := by
      by_contra hfalse
      exact hnone ⟨lit, mem_extractCore.mpr ⟨hl, hfree⟩, Bool.eq_false_iff.mpr hfalse⟩
    rw [← hv]
    exact litVal_congr (hτ _ (.inl (h.shape.initial_soft hfree)))
  · exact hcube hbetter lit hc
  · have hlit : lit = hintLit := by
      split at hh
      · exact List.mem_singleton.mp hh
      · exact absurd hh List.not_mem_nil
    rw [hlit, litVal_of_even h.hintEven]
    exact hhint

theorem Working.mentioned_block (h : Working U o S hintLit cores asked s cube)
    (hsub : crits ⊆ s.initialAssumps ++ cube ++ if o.useHintClauses then [hintLit] else [])
    (hrel : ∀ lit ∈ crits, strip lit ∈ varsOf s.solver.clauses ∨ negate lit ∈ crits)
    (hS : S.Relevant) (hsimple : s.Simple) (htidy : U.tidy) {lit : ℕ}
    (hlit : lit ∈ extractCore crits s.initialAssumps) :
    strip lit ∈ varsOf s.clauses ∨ strip lit = idFalse := by
  have hold := h.mentioned hS hsimple htidy
  obtain ⟨hl, hfree⟩ := mem_extractCore.mp hlit
  have hU := h.shape.initial_soft hfree
  have hsoft := fun {l} (hl : l ∈ s.initialAssumps) ↦
    h.shape.perm.mem_iff.mp (List.mem_append_left s.blockedAssumps hl)
  obtain hdb | hneg := hrel lit hl
  · obtain hv | hv | ⟨b, hb, hs⟩ := h.shape.scope htidy _ hdb hU
    · exact .inl hv
    · exact .inr hv
    · rw [← hs]
      exact hold b hb
  · have hmem := hsub hneg
    rw [List.mem_append, List.mem_append] at hmem
    obtain (hfree' | hc) | hh := hmem
    · exact absurd (hsoft hfree') (hsimple lit (hsoft hfree))
    · obtain ⟨b, hb, hs⟩ := h.cube _ hc (by rw [strip_negate]; exact hU)
      rw [← strip_negate, ← hs]
      exact hold b hb
    · have hh' : negate lit = hintLit := by
        split at hh
        · exact List.mem_singleton.mp hh
        · exact absurd hh List.not_mem_nil
      have hstrip : strip lit = hintLit := by
        rw [← strip_negate, hh', strip_of_even h.hintEven]
      exact absurd (hstrip ▸ hU) h.hintNew

def withHint (o : MSU4Options) (hintLit : ℕ) (core : Cube) (db : ClauseVec) : ClauseVec :=
  db ++ if o.useHintClauses then [negateVec core ++ [negate hintLit]] else []

theorem satClauses_withHint {core : Cube} {db : ClauseVec} {τ : Assignment}
    (heven : hintLit % 2 = 0) : satClauses τ (withHint o hintLit core db) ↔ satClauses τ db ∧
      (o.useHintClauses = true → τ hintLit = true → ∃ a ∈ core, litVal τ a = false) := by
  rw [withHint, satClauses_append]
  refine and_congr_right fun _ ↦ ?_
  cases o.useHintClauses with
  | false => simp
  | true =>
    simp only [if_true, satClauses_cons, satClauses_nil, and_true, satClause_append,
      satClause_negateVec, satClause_cons, litVal_negate, not_satClause_nil, or_false,
      litVal_of_even heven, forall_const, satCube]
    push Not
    simp only [Bool.not_eq_true, Bool.not_eq_true']
    constructor
    · intro hor ht
      obtain hfalse | hf := hor
      · exact hfalse
      · rw [ht] at hf
        exact absurd hf.symm Bool.false_ne_true
    · intro himp
      cases hv : τ hintLit with
      | false => exact .inr rfl
      | true => exact .inl (himp hv)

structure Blocked (o : MSU4Options) (hintLit : ℕ) (core rest : Cube) (s s' : MSU4MaxSATSolver) :
    Prop where
  frame : s' = { s with
    initialAssumps := rest
    blockedAssumps := s.blockedAssumps ++ core
    solver := s'.solver
    unsatRounds := s.unsatRounds + 1
    ub := s.optimizationSet.length - (s.unsatRounds + 1) }
  db : s'.solver.clauses = withHint o hintLit core s.solver.clauses
  known : ∀ v ∈ s.solver.known, v ∈ s'.solver.known

theorem Shape.block (h : Shape U s) {core rest : Cube} (hb : Blocked o hintLit core rest s s')
    (heven : hintLit % 2 = 0) (hlt : hintLit < s.vars.nextID) (hnew : hintLit ∉ U)
    (hperm : s.initialAssumps.Perm (core ++ rest)) (hne : core ≠ [])
    (hknown : ∀ lit ∈ s.initialAssumps, strip lit ∈ s.solver.known) : Shape U s' := by
  have hframe := hb.frame
  have hdb := hb.db
  have hknown' := hb.known
  obtain ⟨solver, hs'⟩ : ∃ solver, s' = { s with
    initialAssumps := rest
    blockedAssumps := s.blockedAssumps ++ core
    solver := solver
    unsatRounds := s.unsatRounds + 1
    ub := s.optimizationSet.length - (s.unsatRounds + 1) } := ⟨_, hframe⟩
  subst hs'
  dsimp only at hdb hknown'
  have hcoreU : ∀ lit ∈ core, strip lit ∈ U := fun lit hl ↦
    h.initial_soft (hperm.mem_iff.mpr (List.mem_append_left _ hl))
  have hpos : 0 < core.length := List.length_pos_iff.mpr hne
  have hvars : ∀ v ∈ varsOf solver.clauses, v ∈ varsOf s.solver.clauses ∨
      (∃ lit ∈ core, strip lit = v) ∨ v = hintLit := by
    intro v hv
    obtain ⟨cls, hc, lit, hl, rfl⟩ := hv
    rw [hdb, withHint, List.mem_append] at hc
    cases hc with
    | inl hc => exact .inl (mem_varsOf hc hl)
    | inr hc =>
      refine .inr ?_
      split at hc
      · rw [List.mem_singleton] at hc
        rw [hc, List.mem_append] at hl
        cases hl with
        | inl hl =>
          obtain ⟨a, ha, rfl⟩ := List.mem_map.mp hl
          exact .inl ⟨a, ha, (strip_negate a).symm⟩
        | inr hl =>
          rw [List.mem_singleton] at hl
          exact .inr (by rw [hl, strip_negate, strip_of_even heven])
      · exact absurd hc List.not_mem_nil
  refine { h with
    perm := ?_, dbVars := ?_, dbHard := ?_, scope := ?_, known := ?_, rounds_le := ?_,
    rounds_zero := ?_, ub := ?_, soln := ?_, stored := ?_ }
  · refine List.Perm.trans ?_ h.perm
    rw [← List.append_assoc]
    refine (List.perm_append_comm).trans ?_
    rw [← List.append_assoc]
    exact hperm.symm.append_right _
  · intro v hv
    obtain hv | ⟨lit, hl, rfl⟩ | rfl := hvars v hv
    · exact h.dbVars v hv
    · exact h.lt _ (hcoreU lit hl)
    · exact hlt
  · intro cls hc
    dsimp only
    rw [hdb]
    exact List.mem_append_left _ (h.dbHard cls hc)
  · intro htidy v hv hU
    obtain hv | ⟨lit, hl, rfl⟩ | rfl := hvars v hv
    · obtain hc | hc | ⟨b, hb, hs⟩ := h.scope htidy v hv hU
      · exact .inl hc
      · exact .inr (.inl hc)
      · exact .inr (.inr ⟨b, List.mem_append_left _ hb, hs⟩)
    · exact .inr (.inr ⟨lit, List.mem_append_right _ hl, rfl⟩)
    · exact absurd hU hnew
  · intro hsat lit hl
    cases List.mem_append.mp hl with
    | inl hl =>
      refine .inl (hknown' _ ((h.known hsat lit hl).elim id fun hneg ↦ ?_))
      exact strip_negate lit ▸ hknown _ hneg
    | inr hl => exact .inl (hknown' _ (hknown lit (hperm.mem_iff.mpr (List.mem_append_left _ hl))))
  · have hle := h.rounds_le
    dsimp only
    rw [List.length_append]
    omega
  · exact fun hz ↦ absurd hz (Nat.succ_ne_zero _)
  · exact (if_neg (Nat.succ_ne_zero _)).symm
  · refine h.soln.imp_right fun hsoln ↦ ?_
    obtain ⟨σ, hσ, heq, hfree⟩ := hsoln
    exact ⟨σ, hσ, heq, fun lit hl ↦ hfree lit (hperm.mem_iff.mpr (List.mem_append_right _ hl))⟩
  · intro c hc
    have hst := h.stored c hc
    refine { hst with scope := fun y hy hU ↦ ?_, sound := fun τ hτ ↦ hst.sound τ ?_ }
    · obtain ⟨b, hb, hs⟩ := hst.scope y hy hU
      exact ⟨b, List.mem_append_left _ hb, hs⟩
    · dsimp only at hτ
      rw [hdb] at hτ
      exact ((satClauses_withHint heven).mp hτ).1

theorem Working.block (h : Working U o S hintLit cores asked s cube) {core rest : Cube}
    (hb : Blocked o hintLit core rest s s') (hperm : s.initialAssumps.Perm (core ++ rest))
    (hne : core ≠ []) (hknown : ∀ lit ∈ s.initialAssumps, strip lit ∈ s.solver.known)
    (hcore : ∀ v, s.Values v → (s.toSearch cores asked).Hinted v →
      (s.toSearch cores asked).Better v → ∃ a ∈ core, v a = false)
    (hasked : asked.isSome = true → s.lb ≠ s.ub)
    (hmentioned : S.Relevant → s.Simple → U.tidy → ∀ lit ∈ core,
      strip lit ∈ varsOf s.clauses ∨ strip lit = idFalse) :
    Working U o S hintLit (if o.useHintClauses then core :: cores else cores) asked s' cube := by
  have hshape := h.shape.block hb h.hintEven h.hintLt h.hintNew hperm hne hknown
  have hframe := hb.frame
  have hdb := hb.db
  obtain ⟨solver, hs'⟩ : ∃ solver, s' = { s with
    initialAssumps := rest
    blockedAssumps := s.blockedAssumps ++ core
    solver := solver
    unsatRounds := s.unsatRounds + 1
    ub := s.optimizationSet.length - (s.unsatRounds + 1) } := ⟨_, hframe⟩
  subst hs'
  dsimp only at hdb
  have hcores : ∀ v, (∀ c ∈ (if o.useHintClauses then core :: cores else cores),
      ∃ a ∈ c, v a = false) ↔ (s.toSearch cores asked).Hinted v ∧
        (o.useHintClauses = true → ∃ a ∈ core, v a = false) := by
    intro v
    cases o.useHintClauses with
    | false => exact ⟨fun hv ↦ ⟨hv, nofun⟩, fun hv ↦ hv.1⟩
    | true =>
      rw [if_pos rfl, List.forall_mem_cons]
      exact ⟨fun hv ↦ ⟨hv.2, fun _ ↦ hv.1⟩, fun hv ↦ ⟨hv.2 rfl, hv.1⟩⟩
  have hmodel : ∀ τ, satClauses τ solver.clauses ↔ satClauses τ s.solver.clauses ∧
      (o.useHintClauses = true → τ hintLit = true → ∃ a ∈ core, litVal τ a = false) := by
    intro τ
    rw [hdb]
    exact satClauses_withHint h.hintEven
  refine ⟨hshape, h.sat, h.hintEven, h.hintLt, h.hintNew, ?_, fun _ ↦ Nat.succ_pos _,
    fun τ hτ hc ↦ h.better τ ((hmodel τ).mp hτ).1 hc, fun τ hτ hh ↦ ?_, fun hno ↦ ?_,
    fun σ hσ b hb ↦ ?_, fun lit hl hU ↦ ?_, fun hS hsimple htidy lit hl ↦ ?_⟩
  · have hinv := h.inv.block o.useHintClauses hperm hcore fun hsome ↦ ?_
    · unfold Search.block toSearch at hinv
      rw [Nat.sub_sub] at hinv
      exact hinv
    · have hub := h.shape.ub
      have hstarted := h.started hsome
      rw [if_neg (by omega)] at hub
      intro heq
      exact hasked hsome (heq.trans hub.symm)
  · obtain ⟨hold, hnew⟩ := (hmodel τ).mp hτ
    exact (hcores _).mpr ⟨h.hinted τ hold hh, fun ho ↦ hnew ho hh⟩
  · rw [hno, if_neg Bool.false_ne_true]
    exact h.noHints hno
  · have hb' : b = true → (s.toSearch cores asked).Hinted (litVal σ) ∧
        (o.useHintClauses = true → ∃ a ∈ core, litVal σ a = false) := fun ht ↦
      (hcores _).mp (hb ht)
    obtain ⟨τ, hτ, hold, hex, hhint, hcube⟩ := h.complete σ hσ b fun ht ↦ (hb' ht).1
    refine ⟨τ, hτ, (hmodel τ).mpr ⟨hold, fun ho ht ↦ ?_⟩, hex, hhint, hcube⟩
    obtain ⟨a, ha, hv⟩ := (hb' (hhint.symm.trans ht)).2 ho
    have hU := h.shape.initial_soft (hperm.mem_iff.mpr (List.mem_append_left _ ha))
    exact ⟨a, ha, (litVal_congr (hτ _ (.inl hU))).trans hv⟩
  · obtain ⟨b, hb, hs⟩ := h.cube lit hl hU
    exact ⟨b, List.mem_append_left _ hb, hs⟩
  · cases List.mem_append.mp hl with
    | inl hl => exact h.mentioned hS hsimple htidy lit hl
    | inr hl => exact hmentioned hS hsimple htidy lit hl

theorem rank_block_lt {s' : MSU4MaxSATSolver} {asked : Option (List ℕ × ℕ)}
    (hlt : s'.initialAssumps.length < s.initialAssumps.length)
    (hlen : s'.initialAssumps.length + s'.blockedAssumps.length = s'.optimizationSet.length)
    (hopt : s'.optimizationSet = s.optimizationSet) : s'.rank asked < s.rank asked := by
  have hpending : s'.pending asked ≤ s'.optimizationSet.length + 1 := by
    unfold pending
    split
    · split <;> omega
    · exact le_rfl
  have hmul : (s'.initialAssumps.length + 1) * (s.optimizationSet.length + 2) ≤
      s.initialAssumps.length * (s.optimizationSet.length + 2) := Nat.mul_le_mul_right _ hlt
  rw [Nat.succ_mul] at hmul
  rw [hopt] at hpending
  rw [rank, rank, hopt]
  omega

theorem unsatPass_meets (h : Working U o S hintLit cores asked s cube) (hnodup : crits.Nodup)
    (hsub : crits ⊆ s.initialAssumps ++ cube ++ if o.useHintClauses then [hintLit] else [])
    (hcrits : ∀ σ, satClauses σ s.solver.clauses → ¬ satCube σ crits)
    (hrel : S.Relevant → ∀ lit ∈ crits,
      strip lit ∈ varsOf s.solver.clauses ∨ negate lit ∈ crits)
    (hknown : ∀ lit ∈ s.initialAssumps, strip lit ∈ s.solver.known)
    (hasked : asked.isSome = true → s.lb ≠ s.ub)
    (hsize : 2 ^ 32 ≤ s.optimizationSet.length → fail .assertion) :
    Meets (Passed U o S hintLit s (s.rank asked)) fail (s.unsatPass o hintLit cube crits) := by
  have hcore := h.core_false hsub hcrits
  have hperm := perm_extractCore hnodup h.shape.initial_nodup
  have hmentioned : S.Relevant → s.Simple → U.tidy → ∀ lit ∈ extractCore crits s.initialAssumps,
      strip lit ∈ varsOf s.clauses ∨ strip lit = idFalse := fun hS hsimple htidy lit hl ↦
    h.mentioned_block hsub (hrel hS) hS hsimple htidy hl
  unfold unsatPass
  dsimp only
  obtain ⟨core, hc⟩ : ∃ core, core = extractCore crits s.initialAssumps := ⟨_, rfl⟩
  obtain ⟨rest, hr⟩ : ∃ rest, rest = s.initialAssumps.filter (!core.contains ·) := ⟨_, rfl⟩
  rw [← hc] at hcore hperm hmentioned ⊢
  rw [← hr] at hperm ⊢
  by_cases hempty : core.isEmpty = true
  · rw [if_pos hempty, meets_pure]
    -- the hard clauses and the requests made exclude anything better
    refine h.passed_of_optimal (Same.refl s) (fun σ hσ ↦ ?_) (Nat.le_add_right _ _)
    have hnone : ∀ v, s.Values v → (s.toSearch cores asked).Hinted v →
        ¬ (s.toSearch cores asked).Better v := by
      intro v hv hhinted hbetter
      obtain ⟨a, ha, -⟩ := hcore v hv hhinted hbetter
      rw [List.isEmpty_iff.mp hempty] at ha
      exact absurd ha List.not_mem_nil
    have hle := h.inv.optimal_of_exhausted hnone ⟨σ, hσ, rfl⟩
    rw [h.shape.value_eq] at hle
    exact hle
  · rw [if_neg hempty]
    have hne : core ≠ [] := fun hnil ↦ hempty (List.isEmpty_iff.mpr hnil)
    have hsolver : Meets (fun solver ↦ solver.clauses = withHint o hintLit core s.solver.clauses ∧
        ∀ v ∈ s.solver.known, v ∈ solver.known) fail
        (if o.useHintClauses then s.solver.addClause (negateVec core ++ [negate hintLit])
          else return s.solver : Result SATAdaptor) := by
      unfold withHint
      cases o.useHintClauses with
      | false =>
        rw [if_neg Bool.false_ne_true, if_neg Bool.false_ne_true, List.append_nil, meets_pure]
        exact ⟨rfl, fun v hv ↦ hv⟩
      | true =>
        rw [if_pos rfl, if_pos rfl]
        refine (SATAdaptor.addClause_meets (by simp)).imp fun solver hs ↦ ?_
        exact ⟨hs.1, fun v hv ↦ (hs.2.2.2 v).mpr (.inl hv)⟩
    refine hsolver.bind fun solver hs ↦ ?_
    by_cases hub : s.ub > s.optimizationSet.length - (s.unsatRounds + 1)
    · rw [decide_eq_true hub, ensure_true, ok_bind, meets_pure]
      have hb : Blocked o hintLit core rest s { s with
          initialAssumps := rest
          blockedAssumps := s.blockedAssumps ++ core
          solver := solver
          unsatRounds := s.unsatRounds + 1
          ub := s.optimizationSet.length - (s.unsatRounds + 1) } := ⟨rfl, hs.1, hs.2⟩
      have hworking := h.block hb hperm hne hknown hcore hasked hmentioned
      refine hworking.endPass (s := s) (Nat.succ_pos _) ⟨rfl, rfl, le_rfl⟩ ?_ (Nat.le_add_right _ _)
      have hlt : rest.length < s.initialAssumps.length := by
        have hlen := hperm.length_eq
        have hpos : 0 < core.length := List.length_pos_iff.mpr hne
        rw [List.length_append] at hlen
        omega
      exact rank_block_lt hlt hworking.shape.length_eq rfl
    · rw [decide_eq_false hub]
      refine hsize ?_
      have hbound := h.shape.ub
      have hlen := h.shape.length_eq
      have hpos : 0 < s.initialAssumps.length := by
        rw [hperm.length_eq, List.length_append]
        have := List.length_pos_iff.mpr hne
        omega
      have hrounds := h.shape.rounds_le
      have hmax : unsignedMax = 2 ^ 32 - 1 := rfl
      split at hbound <;> omega

section WithSolver

variable {solver : SATAdaptor} (hcl : solver.clauses = s.solver.clauses)
  (hknown : ∀ v ∈ s.solver.known, v ∈ solver.known)
include hcl

theorem satClauses_withSolver {τ : Assignment} :
    satClauses τ solver.clauses ↔ satClauses τ s.solver.clauses := by rw [hcl]

include hknown

theorem Shape.withSolver (h : Shape U s) : Shape U { s with solver := solver } := by
  refine { h with dbVars := ?_, dbHard := ?_, scope := ?_, known := ?_, stored := ?_ }
  · dsimp only
    rw [hcl]
    exact h.dbVars
  · dsimp only
    rw [hcl]
    exact h.dbHard
  · dsimp only
    rw [hcl]
    exact h.scope
  · exact fun hsat lit hl ↦ (h.known hsat lit hl).imp_left (hknown _)
  · intro c hc
    have hst := h.stored c hc
    exact { hst with sound := fun τ hτ ↦ hst.sound τ ((satClauses_withSolver hcl).mp hτ) }

theorem Rest.withSolver (h : Rest U S s) : Rest U S { s with solver := solver } where
  shape := h.shape.withSolver hcl hknown
  complete := by
    dsimp only
    rw [hcl]
    exact h.complete
  bound := h.bound
  unsat := h.unsat
  mentioned := h.mentioned

theorem Working.withSolver (h : Working U o S hintLit cores asked s cube) :
    Working U o S hintLit cores asked { s with solver := solver } cube where
  shape := h.shape.withSolver hcl hknown
  sat := h.sat
  hintEven := h.hintEven
  hintLt := h.hintLt
  hintNew := h.hintNew
  inv := h.inv
  started := h.started
  better := by
    dsimp only
    rw [hcl]
    exact h.better
  hinted := by
    dsimp only
    rw [hcl]
    exact h.hinted
  noHints := h.noHints
  complete := by
    dsimp only
    rw [hcl]
    exact h.complete
  cube := h.cube
  mentioned := h.mentioned

end WithSolver

theorem solve_known {ad : SATAdaptor} {assumps : Cube} {v : ℕ} :
    v ∈ (ad.solve S assumps).2.known ↔ v ∈ ad.known ∨ ∃ lit ∈ assumps, strip lit = v :=
  SATAdaptor.mem_introduceVariables

theorem Passed.withSolver {solver : SATAdaptor} {rank₀ : ℕ}
    {r : (MSU4MaxSATSolver × Cube) ⊕ (MSU4MaxSATSolver × Bool)}
    (h : Passed U o S hintLit { s with solver := solver } rank₀ r) :
    Passed U o S hintLit s rank₀ r := by
  cases r with
  | inl p =>
    obtain ⟨cores', asked', hw, hne, hlt, hsame, hnext⟩ := h
    exact ⟨cores', asked', hw, hne, hlt, ⟨hsame.clauses, hsame.optimizationSet, hsame.le⟩, hnext⟩
  | inr r =>
    obtain ⟨hb, hsat, hrest, hopt, hsame, hnext⟩ := h
    exact ⟨hb, hsat, hrest, hopt, ⟨hsame.clauses, hsame.optimizationSet, hsame.le⟩, hnext⟩

theorem pass_meets (h : Working U o S hintLit cores asked s cube)
    (hasked : asked.isSome = true → s.lb ≠ s.ub)
    (hids : ∀ e : Failure, e = .narrowed ∨ e = .idsExhausted →
      2 ^ 32 < s.vars.nextID + 2 * s.optimizationSet.length ^ 3 → fail e)
    (hsize : 2 ^ 32 ≤ s.optimizationSet.length → fail .assertion) :
    Meets (Passed U o S hintLit s (s.rank asked)) fail (pass o S hintLit (s, cube)) := by
  unfold pass
  dsimp only
  obtain ⟨assumps, ha⟩ : ∃ assumps, assumps = s.initialAssumps ++ cube ++
    if o.useHintClauses then [hintLit] else [] := ⟨_, rfl⟩
  rw [← ha]
  obtain ⟨r, hr⟩ : ∃ r, r = s.solver.solve S assumps := ⟨_, rfl⟩
  have hcl : r.2.clauses = s.solver.clauses := by
    rw [hr]
    exact SATAdaptor.solve_clauses S assumps
  have hold : ∀ v ∈ s.solver.known, v ∈ r.2.known := fun v hv ↦ by
    rw [hr]
    exact solve_known.mpr (.inl hv)
  have hassumed : ∀ lit ∈ s.initialAssumps, strip lit ∈ r.2.known := fun lit hl ↦ by
    rw [hr]
    refine solve_known.mpr (.inr ⟨lit, ?_, rfl⟩)
    rw [ha]
    exact List.mem_append_left _ (List.mem_append_left _ hl)
  have hvalid : r.1.Valid s.solver.clauses assumps := by
    rw [hr]
    exact SATAdaptor.solve_valid S assumps
  have hanswer : r.1 = S.solve s.solver.calls s.solver.clauses assumps := by rw [hr]; rfl
  rw [← hr]
  have hworking := h.withSolver hcl hold
  cases hans : r.1 with
  | sat m =>
    rw [hans] at hvalid
    obtain ⟨hm, hcube⟩ := hvalid
    rw [ha, satCube_append, satCube_append] at hcube
    refine (satPass_meets hworking (hcl ▸ hm) hcube.1.1 hcube.1.2 (fun lit hl ↦ ?_) hids).imp
      fun _ hp ↦ hp.withSolver
    obtain hl | hl := List.mem_append.mp (h.shape.perm.mem_iff.mpr hl)
    · exact hassumed lit hl
    · refine (h.shape.known h.exists_model lit hl).elim (hold _) fun hneg ↦ ?_
      exact strip_negate lit ▸ hassumed _ hneg
  | unsat crits =>
    rw [hans] at hvalid
    obtain ⟨hsub, hnodup, hcrits⟩ := hvalid
    rw [ha] at hsub
    refine (unsatPass_meets hworking hnodup hsub (hcl ▸ hcrits) (fun hS lit hl ↦ ?_) hassumed
      hasked hsize).imp fun _ hp ↦ hp.withSolver
    dsimp only
    rw [hcl]
    exact hS _ _ _ _ (hanswer.symm.trans hans) lit hl

def Found (U : Callers) (S : SAT.Solver) (s : MSU4MaxSATSolver) (r : MSU4MaxSATSolver × Bool) : Prop :=
  r.2 = true ∧ r.1.isSAT = true ∧ Rest U S r.1 ∧ r.1.Optimal ∧ Same s r.1 ∧
    r.1.vars.nextID ≤ s.vars.nextID +
      2 * passes s.optimizationSet.length * s.optimizationSet.length ^ 3

/-- The main loop ends with an optimum, however long the state has been in use. -/
theorem passes_meet (h : Working U o S hintLit [] none s cube)
    (hids : ∀ e : Failure, e = .narrowed ∨ e = .idsExhausted → 2 ^ 32 < s.vars.nextID +
      2 * passes s.optimizationSet.length * s.optimizationSet.length ^ 3 → fail e)
    (hsize : 2 ^ 32 ≤ s.optimizationSet.length → fail .assertion) :
    Meets (Found U S s) fail
      (loop .outOfFuel (pass o S hintLit) (passes s.optimizationSet.length) (s, cube)) := by
  obtain ⟨k, hk⟩ : ∃ k, k = s.optimizationSet.length := ⟨_, rfl⟩
  obtain ⟨N, hN⟩ : ∃ N, N = s.vars.nextID + 2 * passes k * k ^ 3 := ⟨_, rfl⟩
  rw [← hk, ← hN] at hids
  rw [← hk] at hsize ⊢
  let inv : ℕ → MSU4MaxSATSolver × Cube → Prop := fun rank p ↦ ∃ cores asked,
    Working U o S hintLit cores asked p.1 p.2 ∧ (asked.isSome = true → p.1.lb ≠ p.1.ub) ∧
      p.1.rank asked = rank ∧ Same s p.1 ∧ p.1.vars.nextID + 2 * (rank + 1) * k ^ 3 ≤ N
  have hrank : s.rank none < passes k := by
    have hlen := h.shape.length_eq
    have hmul : s.initialAssumps.length * (k + 2) ≤ k * (k + 2) :=
      Nat.mul_le_mul_right _ (by omega)
    rw [rank, pending, passes, ← hk, Nat.succ_mul]
    omega
  have hstart : inv (s.rank none) (s, cube) := by
    refine ⟨[], none, h, fun hsome ↦ absurd hsome Bool.false_ne_true, rfl, Same.refl s, ?_⟩
    have hmul : 2 * (s.rank none + 1) * k ^ 3 ≤ 2 * passes k * k ^ 3 :=
      Nat.mul_le_mul_right _ (by omega)
    dsimp only
    omega
  refine loop_meets_of_rank _ (fun rank p hp ↦ ?_) _ hstart hrank
  obtain ⟨s', cube'⟩ := p
  obtain ⟨cores, asked, hw, hasked, hrk, hsame, hroom⟩ := hp
  dsimp only at hw hasked hrk hsame hroom
  have hk' : s'.optimizationSet.length = k := by rw [hsame.optimizationSet, hk]
  have hmul : 2 * (rank + 1) * k ^ 3 = 2 * rank * k ^ 3 + 2 * k ^ 3 := by ring
  refine (pass_meets hw hasked (fun e he hlt ↦ hids e he ?_) (hk' ▸ hsize)).imp fun r hr ↦ ?_
  · rw [hk'] at hlt
    omega
  · cases r with
    | inl p' =>
      obtain ⟨s'', cube''⟩ := p'
      obtain ⟨cores', asked', hw', hne, hlt, hsame', hnext⟩ := hr
      rw [hrk] at hlt
      refine ⟨_, hlt, cores', asked', hw', fun _ ↦ hne, rfl, hsame.trans hsame', ?_⟩
      have hmul' : 2 * (s''.rank asked' + 1) * k ^ 3 ≤ 2 * rank * k ^ 3 :=
        Nat.mul_le_mul_right _ (by omega)
      rw [hk'] at hnext
      dsimp only
      omega
    | inr r =>
      obtain ⟨hb, hsat, hrest, hopt, hsame', hnext⟩ := hr
      refine ⟨hb, hsat, hrest, hopt, hsame.trans hsame', ?_⟩
      rw [hk'] at hnext
      rw [← hk, ← hN]
      omega

section Reset

structure Base (U : Callers) (s : MSU4MaxSATSolver) : Prop where
  vars : s.vars.Inv
  const : idFalse ∈ U
  lt : ∀ v ∈ U, v < s.vars.nextID
  nonempty : ∀ cls ∈ s.clauses, cls ≠ []
  hard : ∀ v ∈ varsOf s.clauses, v ∈ U
  soft : ∀ lit ∈ s.optimizationSet, strip lit ∈ U
  nodup : s.optimizationSet.Nodup
  dbVars : ∀ v ∈ varsOf s.solver.clauses, v < s.vars.nextID
  dbHard : ∀ cls ∈ [idTrue] :: s.clauses, cls ∈ s.solver.clauses
  scope : U.tidy → ∀ v ∈ varsOf s.solver.clauses, v ∈ U → v ∈ varsOf s.clauses ∨ v = idFalse
  complete : ∀ σ, s.IsModel σ → ∃ τ, (∀ v, v ∈ U ∨ s.vars.nextID ≤ v → τ v = σ v) ∧
    satClauses τ s.solver.clauses

/-- `reset` forgets all bounds. -/
theorem Base.reset (h : Base U s) : Rest U S s.reset where
  shape :=
    { vars := h.vars
      const := h.const
      lt := h.lt
      nonempty := h.nonempty
      hard := h.hard
      soft := h.soft
      nodup := h.nodup
      perm := by
        unfold MSU4MaxSATSolver.reset
        rw [List.append_nil]
        exact List.Perm.refl _
      dbVars := h.dbVars
      dbHard := h.dbHard
      scope := fun htidy v hv hU ↦ (h.scope htidy v hv hU).imp_right .inl
      known := fun _ lit hl ↦ absurd hl List.not_mem_nil
      rounds_le := le_rfl
      rounds_zero := fun _ ↦ rfl
      ub := rfl
      lb := rfl
      soln := .inl rfl
      stored := nofun }
  complete := by
    intro σ hσ
    obtain ⟨τ, hτ, hdb⟩ := h.complete σ hσ
    exact ⟨τ, hτ, hdb, nofun⟩
  bound σ _ := le_rfl
  unsat := nofun
  mentioned _ _ _ lit hl := absurd hl List.not_mem_nil

theorem varsOf_hard (h : Shape U s) {v : ℕ} (hv : v ∈ varsOf ([idTrue] :: s.clauses)) :
    v ∈ U ∧ (v ∈ varsOf s.clauses ∨ v = idFalse) := by
  obtain ⟨cls, hc, lit, hl, rfl⟩ := hv
  cases List.mem_cons.mp hc with
  | inl hc =>
    rw [hc, List.mem_singleton] at hl
    rw [hl, strip_idTrue]
    exact ⟨h.const, .inr rfl⟩
  | inr hc => exact ⟨h.hard _ (mem_varsOf hc hl), .inl (mem_varsOf hc hl)⟩

theorem Shape.base_rebuilt (h : Shape U s) {solver : SATAdaptor}
    (hdb : solver.clauses = [idTrue] :: s.clauses) :
    Base U { s.resetCardinality with solver := solver } where
  vars := h.vars
  const := h.const
  lt := h.lt
  nonempty := h.nonempty
  hard := h.hard
  soft := h.soft
  nodup := h.nodup
  dbVars v hv := by
    dsimp only at hv
    rw [hdb] at hv
    exact h.lt v (varsOf_hard h hv).1
  dbHard cls hc := by
    dsimp only
    rw [hdb]
    exact hc
  scope _ v hv _ := by
    dsimp only at hv
    rw [hdb] at hv
    exact (varsOf_hard h hv).2
  complete σ hσ := by
    refine ⟨σ, fun _ _ ↦ rfl, ?_⟩
    dsimp only
    rw [hdb]
    exact hσ

/-- Building the SAT solver anew keeps the bounds, as long as it hears of the blocked literals. -/
theorem Rest.rebuilt (h : Rest U S s) {solver : SATAdaptor}
    (hdb : solver.clauses = [idTrue] :: s.clauses)
    (hknown : (∃ σ, s.IsModel σ) → ∀ lit ∈ s.blockedAssumps,
      strip lit ∈ solver.known ∨ negate lit ∈ s.initialAssumps) :
    Rest U S { s.resetCardinality with solver := solver } := by
  have hbase := h.shape.base_rebuilt hdb
  refine ⟨{ h.shape with
    dbVars := hbase.dbVars, dbHard := hbase.dbHard, known := hknown, stored := nofun,
    scope := fun htidy v hv hU ↦ (hbase.scope htidy v hv hU).imp_right .inl },
    fun σ hσ ↦ ?_, h.bound, h.unsat, h.mentioned⟩
  obtain ⟨τ, hτ, hsat⟩ := hbase.complete σ hσ
  exact ⟨τ, hτ, hsat, nofun⟩

theorem resetSolver_meets (hne : ∀ cls ∈ s.clauses, cls ≠ []) :
    Meets (fun s' ↦ ∃ solver : SATAdaptor, s' = { s.resetCardinality with solver := solver } ∧
      solver.clauses = [idTrue] :: s.clauses ∧
      ∀ v, v ∈ solver.known ↔ v = idFalse ∨ v ∈ varsOf s.clauses) fail s.resetSolver := by
  unfold resetSolver
  refine (SATAdaptor.addClauses_meets hne).bind fun solver hs ↦ ?_
  rw [meets_pure]
  exact ⟨solver, rfl, hs.1, fun v ↦ (hs.2.2.2 v).trans (or_congr_left List.mem_singleton)⟩

/-- A solve that starts by building the SAT solver anew leaves no blocked literal unknown,
unless the hard clauses are unsatisfiable anyway. -/
def Ready (o : MSU4Options) (s : MSU4MaxSATSolver) : Prop :=
  s.rebuilds o = true → (∃ σ, s.IsModel σ) → ∀ lit ∈ s.blockedAssumps,
    strip lit ∈ varsOf s.clauses ∨ strip lit = idFalse ∨ negate lit ∈ s.initialAssumps

theorem Mentioned.ready (h : s.Mentioned) : s.Ready o := fun _ _ lit hl ↦ (h lit hl).imp_right .inl

theorem periodicReset_meets (h : Rest U S s) (hready : s.Ready o) :
    Meets (fun s' ↦ Rest U S s' ∧ s'.clauses = s.clauses ∧
      s'.optimizationSet = s.optimizationSet ∧ s'.vars = s.vars) fail (s.periodicReset o) := by
  unfold periodicReset
  by_cases hall : s.solves > o.resetAllPeriod
  · rw [if_pos hall]
    refine (resetSolver_meets h.shape.nonempty).bind fun s' hs' ↦ ?_
    obtain ⟨solver, rfl, hdb, -⟩ := hs'
    rw [meets_pure]
    exact ⟨(h.shape.base_rebuilt hdb).reset, rfl, rfl, rfl⟩
  · rw [if_neg hall]
    by_cases hre : s.rebuilds o = true
    · rw [if_pos hre]
      refine (resetSolver_meets h.shape.nonempty).imp fun s' hs' ↦ ?_
      obtain ⟨solver, rfl, hdb, hknown⟩ := hs'
      refine ⟨h.rebuilt hdb fun hsat lit hl ↦ ?_, rfl, rfl, rfl⟩
      obtain hv | hv | hneg := hready hre hsat lit hl
      · exact .inl ((hknown _).mpr (.inr hv))
      · exact .inl ((hknown _).mpr (.inl hv))
      · exact .inr hneg
    · rw [if_neg hre, meets_pure]
      exact ⟨h, rfl, rfl, rfl⟩

end Reset

theorem Rest.withSolves (h : Rest U S s) (n : ℕ) : Rest U S { s with solves := n } where
  shape := { h.shape with stored := fun c hc ↦ { h.shape.stored c hc with } }
  complete := h.complete
  bound := h.bound
  unsat := h.unsat
  mentioned := h.mentioned

theorem Rest.withUnsat (h : Rest U S s) (hunsat : ∀ σ, ¬ s.IsModel σ) :
    Rest U S { s with absoluteUNSAT := true } where
  shape := { h.shape with stored := fun c hc ↦ { h.shape.stored c hc with } }
  complete := h.complete
  bound := h.bound
  unsat _ := hunsat
  mentioned := h.mentioned

theorem Rest.start (h : Rest U S s) (hsat : ∃ σ, s.IsModel σ) {vm : VariableManager}
    (hext : s.vars.Extends 0 hintLit vm) : Working U o S hintLit [] none { s with vars := vm } [] := by
  have hid := hext.id_eq
  have hnext := hext.nextID
  have hlt : ∀ v, v < s.vars.nextID → v < vm.nextID := fun v hv ↦ by omega
  have hshape : Shape U { s with vars := vm } := by
    refine { h.shape with
      vars := hext.inv, lt := fun v hv ↦ hlt v (h.shape.lt v hv),
      dbVars := fun v hv ↦ hlt v (h.shape.dbVars v hv), stored := fun c hc ↦ ?_ }
    have hst := h.shape.stored c hc
    exact { hst with outputs := fun y hy ↦ hlt _ (hst.outputs y hy) }
  have hattained : ∃ v, s.Values v ∧ s.lb ≤ (s.toSearch [] none).value v := by
    obtain hnil | ⟨σ, hσ, hsoln, -⟩ := h.shape.soln
    · obtain ⟨σ, hσ⟩ := hsat
      refine ⟨litVal σ, ⟨σ, hσ, rfl⟩, ?_⟩
      rw [h.shape.lb, hnil]
      exact Nat.zero_le _
    · refine ⟨litVal σ, ⟨σ, hσ, rfl⟩, ?_⟩
      rw [h.shape.value_eq, h.shape.lb, hsoln, List.countP_eq_length_filter]
  have habsolute : s.absoluteUNSAT = false := by
    obtain ⟨σ, hσ⟩ := hsat
    exact Bool.eq_false_iff.mpr fun hu ↦ h.unsat hu σ hσ
  refine ⟨hshape, habsolute, by rw [hid]; exact h.shape.vars.even, by dsimp only; omega,
    fun hU ↦ absurd (h.shape.lt _ hU) (by omega), ?_, nofun, fun _ _ _ ↦ nofun,
    fun _ _ _ ↦ nofun, fun _ ↦ rfl, fun σ hσ b _ ↦ ?_, fun lit hl ↦ absurd hl List.not_mem_nil,
    h.mentioned⟩
  · refine Search.Inv.start rfl rfl (fun v hv ↦ ?_) hattained
    obtain ⟨σ, hσ, rfl⟩ := hv
    exact h.bound σ hσ
  · obtain ⟨τ, hτ, hdb, hex⟩ := h.complete σ hσ
    have hne : ∀ v, v < s.vars.nextID → Function.update τ hintLit b v = τ v := fun v hv ↦
      Function.update_of_ne (by omega) _ _
    refine ⟨Function.update τ hintLit b, fun v hv ↦ ?_, ?_, fun c hc i y hy ↦ ?_,
      Function.update_self .., fun _ ↦ satCube_nil⟩
    · cases hv with
      | inl hv => exact (hne v (h.shape.lt v hv)).trans (hτ v (.inl hv))
      | inr hv =>
        dsimp only at hv
        exact (Function.update_of_ne (by omega) _ _).trans (hτ v (.inr (by omega)))
    · exact (satClauses_congr fun v hv ↦ hne v (h.shape.dbVars v hv)).mpr hdb
    · have hst := h.shape.stored c hc
      have hval : litVal (Function.update τ hintLit b) y = litVal τ y :=
        litVal_congr (hne _ (hst.outputs y (List.mem_of_getElem? hy)))
      have hcount : trueCount (Function.update τ hintLit b) c.inputs = trueCount τ c.inputs :=
        trueCount_congr fun x hx ↦ hne _ (h.shape.lt _ (hst.inputs x hx))
      rw [hval, hcount]
      exact hex c hc i y hy

def solveIDs (k : ℕ) : ℕ := 2 + 2 * passes k * k ^ 3

/-- What a solve leaves: it answers whether there is a model of the hard clauses, and then
has found one that satisfies as many optimization literals as possible. -/
structure Solved (U : Callers) (S : SAT.Solver) (s : MSU4MaxSATSolver)
    (r : MSU4MaxSATSolver × Bool) : Prop where
  rest : Rest U S r.1
  same : Same s r.1
  nextID_le : r.1.vars.nextID ≤ s.vars.nextID + solveIDs s.optimizationSet.length
  sat : r.2 = true ↔ ∃ σ, s.IsModel σ
  optimal : r.2 = true → r.1.isSAT = true ∧ r.1.Optimal

theorem Rest.exists_model_iff (h : Rest U S s) :
    (∃ σ, satClauses σ s.solver.clauses ∧ satCube σ []) ↔ ∃ σ, s.IsModel σ := by
  constructor
  · rintro ⟨σ, hσ, -⟩
    exact ⟨σ, h.shape.isModel hσ⟩
  · rintro ⟨σ, hσ⟩
    obtain ⟨τ, -, hdb, -⟩ := h.complete σ hσ
    exact ⟨τ, hdb, satCube_nil⟩

theorem doSolve_meets (h : Rest U S s) (hready : s.Ready o)
    (hids : ∀ e : Failure, e = .narrowed ∨ e = .idsExhausted →
      2 ^ 32 < s.vars.nextID + solveIDs s.optimizationSet.length → fail e)
    (hsize : 2 ^ 32 ≤ s.optimizationSet.length → fail .assertion) :
    Meets (Solved U S s) fail (s.doSolve o S) := by
  unfold doSolve
  refine (periodicReset_meets h hready).bind fun s₁ hs₁ ↦ ?_
  obtain ⟨hrest₁, hcl₁, hopt₁, hvars₁⟩ := hs₁
  dsimp only
  have hrest := hrest₁.withSolves ((s₁.solves + 1) % 2 ^ 32)
  have hmodel : ∀ σ, s₁.IsModel σ ↔ s.IsModel σ := fun σ ↦ by rw [IsModel, IsModel, hcl₁]
  have hsame₁ : Same s s₁ := ⟨hcl₁, hopt₁, by rw [hvars₁]⟩
  by_cases hunsat : s₁.absoluteUNSAT = true
  · rw [if_pos hunsat, meets_pure]
    refine ⟨hrest, ⟨hcl₁, hopt₁, by rw [← hvars₁]⟩, Nat.le_add_right_of_le (by rw [← hvars₁]), ?_,
      fun hf ↦ absurd hf Bool.false_ne_true⟩
    refine ⟨fun hf ↦ absurd hf Bool.false_ne_true, fun ⟨σ, hσ⟩ ↦ ?_⟩
    exact absurd ((hmodel σ).mpr hσ) (hrest₁.unsat hunsat σ)
  · rw [if_neg hunsat]
    obtain ⟨r, hr⟩ : ∃ r, r = s₁.solver.solve S [] := ⟨_, rfl⟩
    have hsat : r.1.isSat = true ↔ ∃ σ, s.IsModel σ := by
      rw [hr]
      refine (SATAdaptor.solve_isSat S []).trans (hrest₁.exists_model_iff.trans ?_)
      exact exists_congr hmodel
    have hcl : r.2.clauses = s₁.solver.clauses := by
      rw [hr]
      exact SATAdaptor.solve_clauses S []
    have hknown : ∀ v ∈ s₁.solver.known, v ∈ r.2.known := fun v hv ↦ by
      rw [hr]
      exact solve_known.mpr (.inl hv)
    have hrest₂ : Rest U S { s₁ with solves := (s₁.solves + 1) % 2 ^ 32, solver := r.2 } :=
      (hrest₁.withSolver hcl hknown).withSolves _
    rw [← hr]
    by_cases hans : r.1.isSat = true
    · rw [if_pos hans]
      obtain ⟨σ, hσ⟩ := hsat.mp hans
      have hmax : maxId + 1 = 2 ^ 48 := rfl
      have hk : s₁.optimizationSet.length = s.optimizationSet.length := by rw [hopt₁]
      unfold solveIDs at hids
      refine (VariableManager.getNewID_meets hrest₁.shape.vars rfl (absurd rfl)
        fun hlt ↦ hids _ (.inr rfl) ?_).bind fun p hext ↦ ?_
      · rw [hvars₁] at hlt
        omega
      · obtain ⟨hintLit, vm⟩ := p
        have hnext := hext.nextID
        dsimp only at hext hnext ⊢
        rw [hvars₁] at hnext
        have hworking : Working U o S hintLit [] none _ [] :=
          hrest₂.start ⟨σ, (hmodel σ).mpr hσ⟩ hext
        refine (passes_meet hworking (fun e he hlt ↦ hids e he ?_) (hk ▸ hsize)).imp fun p hp ↦ ?_
        · dsimp only at hlt
          rw [hk, hnext] at hlt
          omega
        · obtain ⟨hb, hisSAT, hrest', hopt', hsame, hadd⟩ := hp
          have hle := hsame.le
          dsimp only at hle hadd
          rw [hk, hnext] at hadd
          refine ⟨hrest', ⟨hsame.clauses.trans hcl₁, hsame.optimizationSet.trans hopt₁, by omega⟩,
            by unfold solveIDs; omega, ⟨fun _ ↦ ⟨σ, hσ⟩, fun _ ↦ hb⟩, fun _ ↦ ⟨hisSAT, hopt'⟩⟩
    · rw [if_neg hans, meets_pure]
      have hnone : ¬ ∃ σ, s.IsModel σ := fun hex ↦ hans (hsat.mpr hex)
      have hrest₃ := hrest₂.withUnsat fun σ hσ ↦ hnone ⟨σ, (hmodel σ).mp hσ⟩
      exact ⟨hrest₃, ⟨hcl₁, hopt₁, by rw [← hvars₁]⟩, Nat.le_add_right_of_le (by rw [← hvars₁]),
        ⟨fun hf ↦ absurd hf Bool.false_ne_true, fun hex ↦ absurd hex hnone⟩,
        fun hf ↦ absurd hf Bool.false_ne_true⟩

end MSU4MaxSATSolver

end PME
